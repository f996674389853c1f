import ScpRdma.Transfer.Paths
import ScpRdma.Sender.Quiet
import ScpRdma.Receiver.Program

/-!
# What the two programs name

Every file call of the sender is on an object of the source and every record it lays out names
the object of the last call; the receiver makes its calls on the path of the record. Where all
objects have short paths these are whole paths, and no two objects share one.
-/
namespace ScpRdma.Transfer
open Foundations Receiver

/-! ## The source -/

section Source

variable (D : Sender.Disk) (cfg : Sender.Config) (root : Path)

/-- The directory is one that the sender goes into. -/
def Descends (ns : List Path) : Prop :=
  ∃ st, Sender.Examines (.disk D) cfg (wholePath root ns) (some st) ∧ st.kind = .directory ∧
    (ns ≠ [] → cfg.recursive = true)

/-- The objects of the source, by their components: the top, and the entries of directories. -/
inductive Object : List Path → Prop where
  | top : Object []
  | entry {ns dir pos name} : Object ns → Descends D cfg root ns →
      D.opendir (wholePath root ns) = some dir → D.readdir dir pos = .entry name →
      ¬(name = Sender.dot ∨ name = Sender.dotDot) → Object (ns ++ [name])

/-- The names of entries are components, as in every directory. -/
def ProperNames : Prop := ∀ dir pos name, D.readdir dir pos = .entry name → Proper name

end Source

variable {D : Sender.Disk} {cfg : Sender.Config} {L R B : Path} {ns : List Path}

theorem Object.proper (hD : ProperNames D) (h : Object D cfg L ns) : ∀ n ∈ ns, Proper n := by
  induction h with
  | top => simp
  | entry _ _ _ hread _ ih =>
    intro n hn
    rcases List.mem_append.mp hn with hn | hn
    · exact ih n hn
    · exact List.mem_singleton.mp hn ▸ hD _ _ _ hread

/-! ## The sender -/

/-- The path that the receiver makes of the name in a record. -/
def targetOf (base : Path) (bs : Bytes) : Path :=
  targetPath base (cString (bs.drop dirNameOff))

/-- A state of the sender, and the path of its last call on an object. -/
abbrev Traced := Sender.State × Option Path

def traced (D : Sender.Disk) : Semantics Sender.signature Traced where
  allow o s r := (Sender.semantics (.disk D)).allow o s.1 r
  next o s r := (Sender.next o s.1 r, (Sender.opPath o).or s.2)

/-- A call is on the whole path of an object; a record is laid out for the object of the last
call, and the receiver will use the whole path of this object. -/
def NamesWhole (D : Sender.Disk) (cfg : Sender.Config) (L R B : Path) (o : Sender.Op)
    (last : Option Path) : Prop :=
  (∀ path, Sender.opPath o = some path → ∃ ns, Object D cfg L ns ∧ path = wholePath L ns) ∧
  ∀ bs, o = .store 0 bs → Sender.IsRecord bs → ∃ ns, Object D cfg L ns ∧
    last = some (wholePath L ns) ∧ targetOf B bs = wholeTarget B (wholePath R ns)

abbrev nameDuties (D : Sender.Disk) (cfg : Sender.Config) (L R B : Path) :
    Duties Sender.signature Traced :=
  ⟨fun o s => NamesWhole D cfg L R B o s.2, fun _ _ => True⟩

/-- Every object has short paths. -/
def AllShort (D : Sender.Disk) (cfg : Sender.Config) (L R B : Path) : Prop :=
  ∀ ns, Object D cfg L ns → ShortPaths L R B ns

theorem targetOf_fileMeta (name : Path) (size mode : Nat) (type : FileType) (chunks : Nat) :
    targetOf B (Packet.fileMeta name size mode type chunks).encode = recordedTarget B name := by
  obtain ⟨rest, hrest⟩ := Packet.drop_fileName name size mode type chunks
  rw [targetOf, dirNameOff, hrest, cString_strncpyField (by decide)]
  rfl

theorem targetOf_dirEnter (name : Path) :
    targetOf B (Packet.dirEnter name).encode = recordedTarget B name := by
  obtain ⟨rest, hrest⟩ := Packet.drop_dirName name
  rw [targetOf, dirNameOff, hrest, cString_strncpyField (by decide)]
  rfl

theorem namesWhole_of_unnamed {o : Sender.Op} (h : Sender.Unnamed o) (last : Option Path) :
    NamesWhole D cfg L R B o last := by
  constructor
  · intro path hpath
    cases o <;> first | exact h.elim | cases hpath
  · rintro bs rfl hbs
    exact absurd hbs (h rfl)

/-- The precondition of a part of the sender, as far as names go. -/
abbrev Named (D : Sender.Disk) (cfg : Sender.Config) (L R B : Path) (n : Nat) {α : Type}
    (p : Sender α) (Q : α → Traced → Prop) (s : Traced) : Prop :=
  wp (Sender.bodies cfg) (traced D) (nameDuties D cfg L R B) n p Q s

section Sender

open Sender (Stat)

variable {n : Nat} {l r : Path} {s : Traced} {α β : Type}

theorem named_quiet {p : Sender α} (h : Sender.Quiet p) :
    Named D cfg L R B n p (fun _ _ => True) s :=
  Program.Only.wp h (Sender.polls_quiet cfg) (fun _ s h => namesWhole_of_unnamed h s.2)
    fun _ _ _ => trivial

theorem named_ask {o : Sender.Op} {f : Sender.Response o → Sender α} {Q : α → Traced → Prop}
    (hD : NamesWhole D cfg L R B o s.2)
    (h : ∀ r, Sender.World.disk D o r →
      Named D cfg L R B n (f r) Q (Sender.next o s.1 r, (Sender.opPath o).or s.2)) :
    Named D cfg L R B n (Sender.ask o >>= f) Q s :=
  wp.op hD fun r hr => h r hr.2

/-- A step that names nothing, and then the rest. -/
theorem named_then {p : Sender α} {f : α → Sender β} (h : Sender.Quiet p)
    (hf : ∀ a t, Named D cfg L R B n (f a) (fun _ _ => True) t) :
    Named D cfg L R B n (p >>= f) (fun _ _ => True) s :=
  wp.bind (named_quiet h) fun a t _ => hf a t

/-- The paths that the sender has for the object `ns`. -/
structure At (D : Sender.Disk) (cfg : Sender.Config) (L R : Path) (ns : List Path) (l r : Path) :
    Prop where
  object : Object D cfg L ns
  localPath : l = subPaths L ns
  remotePath : r = subPaths R ns

/-- What is promised of a source: components are components, and every object has short paths. -/
structure Source (D : Sender.Disk) (cfg : Sender.Config) (L R B : Path) : Prop where
  noNul : NoNul R
  proper : ProperNames D
  short : AllShort D cfg L R B

theorem Source.whole (h : Source D cfg L R B) (hobj : Object D cfg L ns) :
    subPaths L ns = wholePath L ns ∧
      recordedTarget B (subPaths R ns) = wholeTarget B (wholePath R ns) :=
  (paths_whole_iff h.noNul (hobj.proper h.proper)).mpr (h.short ns hobj)

theorem At.whole (h : Source D cfg L R B) (hat : At D cfg L R ns l r) : l = wholePath L ns :=
  hat.localPath.trans (h.whole hat.object).1

/-- A call on the object. -/
theorem At.call (h : Source D cfg L R B) (hat : At D cfg L R ns l r) {o : Sender.Op}
    (ho : Sender.opPath o = some l) (last : Option Path) : NamesWhole D cfg L R B o last := by
  constructor
  · intro path hpath
    obtain rfl : l = path := Option.some.inj (ho.symm.trans hpath)
    exact ⟨ns, hat.object, hat.whole h⟩
  · rintro bs rfl
    cases ho

/-- The record of the object, laid out after a call on it. -/
theorem At.record (h : Source D cfg L R B) (hat : At D cfg L R ns l r) {bs : Bytes}
    (hbs : targetOf B bs = recordedTarget B r) : NamesWhole D cfg L R B (.store 0 bs) (some l) := by
  refine ⟨nofun, ?_⟩
  rintro _ ⟨⟩ -
  refine ⟨ns, hat.object, congrArg some (hat.whole h), ?_⟩
  rw [hbs, hat.remotePath, (h.whole hat.object).2]

theorem scpSendSymlink_named (h : Source D cfg L R B) (hat : At D cfg L R ns l r) {st : Stat} :
    Named D cfg L R B n (Sender.scpSendSymlink l r st) (fun _ _ => True) s := by
  refine named_ask (hat.call h rfl _) fun target _ => ?_
  cases target with
  | none => exact wp.done trivial
  | some target =>
    refine named_ask (hat.record h (targetOf_fileMeta ..)) fun _ _ => named_quiet ?_
    refine Sender.quiet_open .done fun wr => ?_
    refine .step (Sender.sendSessionBuf_quiet _ _) ?_
    refine .bind (.ask fun _ =>
      Sender.not_isRecord_dataChunkHeader _ _ _) fun _ => ?_
    refine .bind (.ask fun h => absurd h (by decide)) fun _ => ?_
    refine .bind (.ask trivial) fun _ => ?_
    refine .step (Sender.scpRdmaSendSync_quiet _) ?_
    exact .bind (.ask trivial) fun _ => .done

theorem openSource_named (h : Source D cfg L R B) (hat : At D cfg L R ns l r) :
    Named D cfg L R B n (Sender.openSource l) (fun _ t => t.2 = some l) s := by
  refine named_ask (hat.call h rfl _) fun fd _ => ?_
  cases fd with
  | some fd => exact wp.done rfl
  | none =>
    refine named_ask (hat.call h rfl _) fun fd _ => ?_
    cases fd <;> exact wp.done rfl

theorem scpSendFile_named (h : Source D cfg L R B) (hat : At D cfg L R ns l r) :
    Named D cfg L R B n (Sender.scpSendFile l r) (fun _ _ => True) s := by
  refine named_ask (hat.call h rfl _) fun st _ => ?_
  cases st with
  | none => exact wp.done trivial
  | some st =>
    refine wp.bind (openSource_named h hat) ?_
    rintro (_ | ⟨fd, direct⟩) t ht
    · exact wp.done trivial
    · refine named_ask (ht ▸ hat.record h (targetOf_fileMeta ..)) fun _ _ => named_quiet ?_
      have hclose {q : Sender Int} (hq : Sender.Quiet q) :
          Sender.Quiet (Sender.ask (.close fd) >>= fun _ => q) :=
        .bind (.ask trivial) fun _ => hq
      have hfail := hclose (.done : Sender.Quiet (pure (-1)))
      refine Sender.quiet_open hfail fun wr => ?_
      refine .bind (Sender.sendSessionBuf_quiet _ _) fun _ => .ite hfail ?_
      refine .bind (.ask trivial) fun _ => ?_
      refine .bind (Sender.chunkLoop_quiet ..) fun _ => .ite hfail ?_
      refine .bind (Sender.quiet_of_working Sender.drainPendingAcks_working) fun _ =>
        .ite hfail ?_
      exact hclose (.bind (.ask trivial) fun _ => .done)

/-- Where the calls of the walk stand. -/
def CallAt (D : Sender.Disk) (cfg : Sender.Config) (L R : Path) : Sender.Call → Prop
  | .sendDirectory l r => ∃ ns, At D cfg L R ns l r ∧ Descends D cfg L ns
  | .readdirLoop dir _ l r => ∃ ns, At D cfg L R ns l r ∧ Descends D cfg L ns ∧
    D.opendir (wholePath L ns) = some dir
  | _ => False

theorem statEntry_named (h : Source D cfg L R B) (hat : At D cfg L R ns l r) :
    Named D cfg L R B n (Sender.statEntry cfg l)
      (fun st _ => Sender.Examines (.disk D) cfg (wholePath L ns) st) s := by
  have hask : ∀ o, Sender.opPath o = some l →
      Named D cfg L R B n (Sender.ask o) (fun r _ => Sender.World.disk D o r) s :=
    fun o ho => wp.op (hat.call h ho _) fun r hr => wp.done hr.2
  rw [← hat.whole h]
  unfold Sender.statEntry Sender.Examines
  by_cases hl : cfg.noLink = true
  · simp only [if_pos hl]
    exact wp.ite (fun _ => hask (.stat l) rfl) (absurd hl)
  · simp only [if_neg hl]
    exact wp.ite (absurd · hl) fun _ => hask (.lstat l) rfl

/-- The hypothesis of the induction: the calls of the walk name what they should. -/
abbrev WalkNamed (D : Sender.Disk) (cfg : Sender.Config) (L R B : Path) (n : Nat) : Prop :=
  ∀ c s, CallAt D cfg L R c → Named D cfg L R B n (Sender.invoke c) (fun _ _ => True) s

theorem sendObject_named (h : Source D cfg L R B) (hwalk : WalkNamed D cfg L R B n)
    (hat : At D cfg L R ns l r) {st : Stat}
    (hst : Sender.Examines (.disk D) cfg (wholePath L ns) (some st))
    (hrec : st.kind = .directory → ns ≠ [] → cfg.recursive = true) :
    Named D cfg L R B n (Sender.sendObject l r st) (fun _ _ => True) s := by
  unfold Sender.sendObject
  cases hk : st.kind with
  | directory => exact hwalk (.sendDirectory l r) s ⟨ns, hat, st, hst, hk, hrec hk⟩
  | symlink => exact scpSendSymlink_named h hat
  | regular | other => exact scpSendFile_named h hat

theorem At.entry (hat : At D cfg L R ns l r) (hdesc : Descends D cfg L ns) {dir : Sender.Handle}
    {pos : Nat} {name : Path} (hopen : D.opendir (wholePath L ns) = some dir)
    (hread : D.readdir dir pos = .entry name)
    (hdots : ¬(name = Sender.dot ∨ name = Sender.dotDot)) :
    At D cfg L R (ns ++ [name]) (Sender.subPath l name) (Sender.subPath r name) :=
  ⟨.entry hat.object hdesc hopen hread hdots, by rw [hat.localPath, subPaths_concat],
    by rw [hat.remotePath, subPaths_concat]⟩

theorem readdirLoop_named (h : Source D cfg L R B) (hwalk : WalkNamed D cfg L R B n)
    (hat : At D cfg L R ns l r) (hdesc : Descends D cfg L ns) {dir : Sender.Handle} {pos : Nat}
    (hopen : D.opendir (wholePath L ns) = some dir) :
    Named D cfg L R B n (Sender.readdirLoopBody cfg dir pos l r) (fun _ _ => True) s := by
  have hnext : ∀ t, Named D cfg L R B n (Sender.invoke (.readdirLoop dir (pos + 1) l r))
      (fun _ _ => True) t := fun t => hwalk _ t ⟨ns, hat, hdesc, hopen⟩
  refine named_ask ⟨nofun, nofun⟩ fun name hread => ?_
  cases name with
  | finish | failure => exact wp.done trivial
  | entry name =>
    refine wp.ite (fun _ => hnext _) fun hdots => ?_
    have hat' := hat.entry hdesc hopen (Eq.symm hread) hdots
    refine wp.bind (statEntry_named h hat') fun st t hst => ?_
    cases st with
    | none => exact hnext t
    | some st =>
      -- an object that fails ends the loop, else it goes on
      have hobject : ∀ {p : Sender Int} {u : Traced},
          Named D cfg L R B n p (fun _ _ => True) u →
          Named D cfg L R B n (do
            if (← p) ≠ 0 then return -1
            Sender.invoke (.readdirLoop dir (pos + 1) l r)) (fun _ _ => True) u := fun hp =>
        wp.bind hp fun ret v _ => wp.ite (fun _ => wp.done trivial) fun _ => hnext v
      cases hk : st.kind with
      | directory =>
        simp only [hk]
        refine wp.ite (fun hrec => ?_) fun _ => hnext t
        exact hobject (hwalk _ t ⟨_, hat', st, hst, hk, fun _ => hrec⟩)
      | symlink =>
        simp only [hk]
        exact hobject (scpSendSymlink_named h hat')
      | regular | other =>
        simp only [hk]
        exact hobject (scpSendFile_named h hat')

theorem scpSendDirectory_named (h : Source D cfg L R B) (hwalk : WalkNamed D cfg L R B n)
    (hat : At D cfg L R ns l r) (hdesc : Descends D cfg L ns) :
    Named D cfg L R B n (Sender.scpSendDirectoryBody l r) (fun _ _ => True) s := by
  refine named_ask (hat.call h rfl _) fun dir hopen => ?_
  cases dir with
  | none => exact wp.done trivial
  | some dir =>
    have hfail : Sender.Quiet (Sender.ask (.closedir dir) >>= fun _ => (pure (-1) : Sender Int)) :=
      .bind (.ask trivial) fun _ => .done
    refine named_ask (hat.record h (targetOf_dirEnter _)) fun _ _ => ?_
    refine named_then (Sender.establishSession_quiet _) fun wr _ => ?_
    cases wr with
    | none => exact named_quiet hfail
    | some wr =>
    refine named_then (Sender.sendSessionBuf_quiet _ _) fun _ _ => ?_
    refine wp.ite (fun _ => named_quiet hfail) fun _ => ?_
    rw [hat.whole h] at hopen
    refine wp.bind (hwalk (.readdirLoop dir 0 l r) _ ⟨ns, hat, hdesc, Eq.symm hopen⟩) ?_
    refine fun _ _ _ => wp.ite (fun _ => named_quiet hfail) fun _ => named_quiet ?_
    have hleave : ¬ Sender.IsRecord
        (Packet.dirLeave.encode ++ List.replicate (dirInfoSize - packetHeaderSize) 0) := by
      rintro (hc | hc) <;> exact absurd hc (by decide)
    refine .bind (.ask trivial) fun _ => ?_
    refine .bind (.ask fun _ => hleave) fun _ => ?_
    refine .bind (Sender.sendSessionBuf_quiet _ _) fun _ => .ite hfail ?_
    exact .bind (.ask trivial) fun _ => .done

theorem walk_named (h : Source D cfg L R B) : WalkNamed D cfg L R B n := by
  intro c s hc
  refine wp.recursion (D := nameDuties D cfg L R B) (fun c : Sender.Call => c)
    (fun c _ => CallAt D cfg L R c) (fun _ _ _ _ => True) (fun _ _ _ => trivial) ?_ n c s hc
  intro n ih c s hc
  have hwalk : WalkNamed D cfg L R B n := ih
  cases c with
  | sendDirectory l r =>
    obtain ⟨ns, hat, hdesc⟩ := hc
    exact scpSendDirectory_named h hwalk hat hdesc
  | readdirLoop dir pos l r =>
    obtain ⟨ns, hat, hdesc, hopen⟩ := hc
    exact readdirLoop_named h hwalk hat hdesc hopen
  | waitForSlot | drainPendingAcks | waitForRdmaWriteCompletion => exact hc.elim

theorem scpSenderRun_named (h : Source D cfg L R B) :
    Named D cfg L R B n (Sender.scpSenderRun cfg L R) (fun _ _ => True) s := by
  have hat : At D cfg L R [] L R := ⟨.top, rfl, rfl⟩
  refine named_ask (hat.call h rfl _) fun st _ => ?_
  cases st with
  | none => exact wp.done trivial
  | some _ =>
    refine wp.bind (statEntry_named h hat) fun st t hst => ?_
    cases st with
    | none => exact wp.done trivial
    | some st =>
      refine wp.bind (sendObject_named h (walk_named h) hat hst fun _ hne => absurd rfl hne) ?_
      refine fun ret u _ => wp.ite (fun _ => wp.done trivial) fun _ => named_quiet ?_
      have hend : ¬ Sender.IsRecord Packet.transferEnd.encode := by
        rintro (hc | hc) <;> exact absurd hc (by decide)
      refine .bind (.ask fun _ => hend) fun _ => ?_
      refine .bind (.ask trivial) fun _ => .bind (.ask trivial) fun _ => ?_
      refine .ite ?_ .done
      exact .bind (Sender.scpRdmaSendSync_quiet _) fun _ => .done

end Sender

end ScpRdma.Transfer

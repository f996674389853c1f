import ScpRdma.Transfer.Naming
import ScpRdma.Receiver.Calls
import ScpRdma.Receiver.Discipline

/-!
# What the receiver calls for a packet

The file calls of the receiver for a packet with a name are on the path that it makes of this
name, and for a link on the path of the last such packet. So where all paths are short, the
whole paths of the sender's objects are what the receiver opens, creates and links.
-/
namespace ScpRdma.Transfer
open Foundations Receiver

/-! ## The calls for one packet -/

/-- The path that the receiver makes of the packet, where it has a name. -/
def namedTarget (base : Path) : Packet → Option Path
  | .fileMeta name size mode type chunks =>
    some (targetOf base (Packet.fileMeta name size mode type chunks).encode)
  | .dirEnter name => some (targetOf base (Packet.dirEnter name).encode)
  | _ => none

/-- The path of the last of the first `k` packets that has a name. -/
def lastTarget (base : Path) (pkts : Feed) : Nat → Path
  | 0 => []
  | k + 1 => (namedTarget base (pkts k).2).getD (lastTarget base pkts k)

/-- The calls that the receiver may make for a packet, when `current` is `current_path`. -/
def CallsOn (base current : Path) (p : Packet) : FileOp → Prop
  | .stat path | .openFile path _ => namedTarget base p = some path
  | .mkdir dir => ∃ path, namedTarget base p = some path ∧
    ((p.cmd = .dirEnter ∧ dir ∈ mkdirPaths path) ∨
      (p.cmd = .fileMeta ∧ ∃ parent, parentPath path = some parent ∧ dir ∈ mkdirPaths parent))
  | .unlink path | .symlink _ path => p.cmd = .fileData ∧ path = current
  | .close _ | .lseek _ _ | .write _ _ => True
  | .getcwd => False

/-- The handling of a packet makes its calls where it should. -/
theorem applyPacket_calls (v : View) (p : Packet) :
    Calls (CallsOn v.loc.baseDir v.loc.currentPath p) (applyPacket v p) := by
  have hclose : Calls (CallsOn v.loc.baseDir v.loc.currentPath p) (closeCurrent v.loc.currentFd) :=
    closeCurrent_calls fun _ => trivial
  cases p with
  | fileMeta name size mode type chunks =>
    have htarget : namedTarget v.loc.baseDir (.fileMeta name size mode type chunks) =
        some (targetPath v.loc.baseDir (recordName name)) :=
      congrArg some (targetOf_fileMeta name size mode type chunks)
    refine .bind (isDirectory_calls htarget) fun isDir => ?_
    cases isDir with
    | true => exact .bind hclose fun _ => .done
    | false =>
      refine .bind (makeParent_calls fun parent hp dir hdir => ?_) fun _ =>
        .bind hclose fun _ => ?_
      · exact ⟨_, htarget, .inr ⟨rfl, parent, hp, hdir⟩⟩
      · split
        · exact .bind (.ask htarget) fun _ => .done
        · exact .done
  | fileData i off payload =>
    simp only [applyPacket, applyFileData]
    split
    · refine .bind ?_ fun ok => ?_
      · exact .bind (.ask ⟨rfl, rfl⟩) fun _ => .ask ⟨rfl, rfl⟩
      · cases ok <;> exact .done
    · cases v.loc.currentFd with
      | none => exact .done
      | some fd =>
        refine .bind ?_ fun _ => .done
        exact .bind (.ask trivial) fun _ => .bind (.ask trivial) fun _ =>
          .done
  | dirEnter name =>
    have htarget : namedTarget v.loc.baseDir (.dirEnter name) =
        some (targetPath v.loc.baseDir (recordName name)) := congrArg some (targetOf_dirEnter name)
    refine .bind (scpMkdirRecursive_calls fun dir hdir => ?_) fun _ => .done
    exact ⟨_, htarget, .inl ⟨rfl, hdir⟩⟩
  | dirLeave | transferEnd => exact .bind hclose fun _ => .done

/-! ## The path that a packet leaves -/

section Kept

variable {F : Type} {M : Semantics fileSignature F} {α β : Type} {Q : β → Prop} {os os' : F}

/-- A packet with a name sets `current_path`, any other leaves it. -/
theorem applyPacket_path {v w : View} {p : Packet} {τ : Tally}
    (h : Program.Outcome M (applyPacket v p) os (w, τ) os') :
    w.loc.baseDir = v.loc.baseDir ∧
      w.loc.currentPath = (namedTarget v.loc.baseDir p).getD v.loc.currentPath := by
  refine Program.Ensures.outcome (Q := fun r _ => r.1.loc.baseDir = v.loc.baseDir ∧
    r.1.loc.currentPath = (namedTarget v.loc.baseDir p).getD v.loc.currentPath) ?_ h
  cases p with
  | fileMeta name size mode type chunks =>
    have htarget := targetOf_fileMeta (B := v.loc.baseDir) name size mode type chunks
    refine ensures_step ensures_true fun isDir _ => ?_
    cases isDir with
    | true => exact ensures_step ensures_true fun _ _ => .done ⟨rfl, htarget.symm⟩
    | false =>
      refine ensures_step ensures_true fun _ _ => ensures_step ensures_true fun _ _ => ?_
      refine .ite (fun _ => ensures_step ensures_true fun _ _ => ?_) fun _ => ?_
      all_goals exact .done ⟨rfl, htarget.symm⟩
  | fileData i off payload =>
    refine .ite (fun _ => ensures_step ensures_true fun ok _ => ?_) fun _ => ?_
    · cases ok <;> exact .done ⟨rfl, rfl⟩
    · cases v.loc.currentFd with
      | none => exact .done ⟨rfl, rfl⟩
      | some fd => exact ensures_step ensures_true fun _ _ => .done ⟨rfl, rfl⟩
  | dirEnter name =>
    exact ensures_step ensures_true fun _ _ => .done ⟨rfl, (targetOf_dirEnter name).symm⟩
  | dirLeave | transferEnd => exact ensures_step ensures_true fun _ _ => .done ⟨rfl, rfl⟩

end Kept

/-! ## The calls of a run -/

theorem packet_calls {v w : View} {p : Packet} {τ : Tally} {ops ops' : List FileOp}
    (h : Program.Outcome (.log fileSignature) (applyPacket v p) ops (w, τ) ops') :
    ∃ asked : List FileOp, ops' = ops ++ asked ∧
      ∀ o ∈ asked, CallsOn v.loc.baseDir v.loc.currentPath p o :=
  (applyPacket_calls v p).log h

/-- The calls of the first `k` packets, each by each. -/
theorem applied_calls {pkts : Feed} {v w : View} {ops ops' : List FileOp} {k : Nat}
    (h : Applied (.log fileSignature) pkts v ops k w ops') (hv : v.loc.currentPath = []) :
    w.loc.baseDir = v.loc.baseDir ∧ w.loc.currentPath = lastTarget v.loc.baseDir pkts k ∧
      ∃ calls : Nat → List FileOp, ops' = ops ++ (List.range k).flatMap calls ∧
        ∀ j < k, ∀ o ∈ calls j,
          CallsOn v.loc.baseDir (lastTarget v.loc.baseDir pkts j) (pkts j).2 o := by
  induction h with
  | start => exact ⟨rfl, hv, fun _ => [], by simp, nofun⟩
  | @packet k w τ w' ops₁ ops₂ _ hout ih =>
    obtain ⟨hbase, hpath, calls, rfl, hcalls⟩ := ih
    obtain ⟨hbase', hpath'⟩ := applyPacket_path hout
    obtain ⟨asked, hops, hasked⟩ := packet_calls hout
    rw [hbase, hpath] at hasked
    refine ⟨hbase'.trans hbase, ?_, Function.update calls k asked, ?_, fun j hj o ho => ?_⟩
    · rw [hpath', hbase, hpath]
      rfl
    · have hkeep : (List.range k).flatMap (Function.update calls k asked) =
          (List.range k).flatMap calls := List.flatMap_congr fun j hj => by
        rw [Function.update_of_ne (List.mem_range.mp hj).ne]
      rw [hops, List.range_succ, List.flatMap_append, hkeep]
      simp
    · by_cases hjk : j = k
      · subst hjk
        rw [Function.update_self] at ho
        exact hasked o ho
      · rw [Function.update_of_ne hjk] at ho
        exact hcalls j (by omega) o ho

/-- These are the calls for the output directory, and for the first `k` packets, each by each
on its own path below the output directory. -/
def CallsFor (pkts : Feed) (outputDir : Option Path) (k : Nat) (ops : List FileOp) : Prop :=
  ∃ (base : Path) (first : List FileOp) (calls : Nat → List FileOp),
    ops = first ++ (List.range k).flatMap calls ∧
    (∀ dir, outputDir = some dir → base = (cString dir).take (scpMaxPathLen - 1)) ∧
    (∀ o ∈ first, o = .getcwd ∨ ∃ dir ∈ mkdirPaths base, o = .mkdir dir) ∧
    ∀ j < k, ∀ o ∈ calls j, CallsOn base (lastTarget base pkts j) (pkts j).2 o

theorem openBase_calls {outputDir : Option Path} {base : Path} {ops ops' : List FileOp}
    (h : Program.Outcome (.log fileSignature) (openBase outputDir) ops (some base) ops') :
    (∀ dir, outputDir = some dir → base = (cString dir).take (scpMaxPathLen - 1)) ∧
      ∃ first : List FileOp, ops' = ops ++ first ∧
        ∀ o ∈ first, o = .getcwd ∨ ∃ dir ∈ mkdirPaths base, o = .mkdir dir := by
  cases outputDir with
  | none =>
    have hcalls : Calls (fun o => o = .getcwd ∨ ∃ dir ∈ mkdirPaths base, o = .mkdir dir)
        (openBase none) := .ask (.inl rfl)
    exact ⟨nofun, hcalls.log h⟩
  | some dir =>
    have hbase : some base = some ((cString dir).take (scpMaxPathLen - 1)) :=
      Program.Ensures.outcome (Q := fun r _ => r = some ((cString dir).take (scpMaxPathLen - 1)))
        (ensures_step ensures_true fun _ _ => .done rfl) h
    obtain rfl := Option.some.inj hbase
    refine ⟨fun _ hdir => Option.some.inj hdir ▸ rfl, ?_⟩
    have hcalls : Calls (fun o => o = .getcwd ∨ ∃ dir' ∈ mkdirPaths _, o = .mkdir dir')
        (openBase (some dir)) :=
      .bind (scpMkdirRecursive_calls fun _ hmem => .inr ⟨_, hmem, rfl⟩) fun _ => .done
    exact hcalls.log h

theorem served_calls {pkts : Feed} {outputDir : Option Path} {k : Nat} {v : View}
    {ops : List FileOp} (h : Served (.log fileSignature) pkts outputDir [] k v ops) :
    CallsFor pkts outputDir k ops := by
  obtain ⟨hopen, happlied⟩ := h
  obtain ⟨hbase, first, hops, hfirst⟩ := openBase_calls hopen
  obtain ⟨-, -, calls, hops', hcalls⟩ := applied_calls happlied rfl
  exact ⟨_, first, calls, hops'.trans (hops ▸ rfl), hbase, hfirst, hcalls⟩

/-- The runs of the receiver on the packets of a peer, with a list of its file calls; whatever
these answer. -/
abbrev loggedRun (pkts : Feed) (outputDir : Option Path) :
    System (Receiver Int × Receiver.State (List FileOp)) :=
  Program.system Receiver.bodies (Receiver.semantics (.log fileSignature) (.feed pkts))
    (scpReceiverRun outputDir) (Receiver.initState [])

/-- Where a packet is acknowledged, each packet so far had its own calls. -/
theorem receiver_calls (pkts : Feed) (hfit : ∀ i, (pkts i).2.Fits) (outputDir : Option Path) :
    (loggedRun pkts outputDir).Invariant fun c => ∀ msg k, c.1 = .op (.postSend msg) k →
      CallsFor pkts outputDir (c.2.ledger.acked.length + 1) c.2.os := by
  refine (Receiver.verified (.log fileSignature) pkts hfit outputDir []).runs.mono ?_
  rintro ⟨p, t⟩ hc msg k rfl
  obtain ⟨-, -, v, hserved⟩ := hc.duty
  exact served_calls hserved

/-! ## Both sides -/

/-- The runs of the sender on a source, with the path of the last call. -/
abbrev tracedRun (D : Sender.Disk) (cfg : Sender.Config) (L R : Path) :
    System (Sender Int × Traced) :=
  Program.system (Sender.bodies cfg) (traced D) (Sender.scpSenderRun cfg L R)
    (Sender.initState, none)

theorem sender_names {D : Sender.Disk} {cfg : Sender.Config} {L R B : Path}
    (h : Source D cfg L R B) : (tracedRun D cfg L R).Invariant fun c =>
      ∀ o k, c.1 = .op o k → NamesWhole D cfg L R B o c.2.2 := by
  have hver : Verified (Sender.bodies cfg) (traced D) (nameDuties D cfg L R B)
      (Sender.scpSenderRun cfg L R) (fun _ _ => True) (Sender.initState, none) :=
    fun _ => scpSenderRun_named h
  refine hver.runs.mono ?_
  rintro ⟨p, t⟩ hc o k rfl
  exact hc.duty

/-- Where every object has short paths, each call of the sender is on the whole path of an
object, each record names the object of the last call and the receiver makes its whole path of
it. An object has whole paths exactly when they are short, and no two objects share one; the
receiver makes its calls for a packet on the path that it makes of it. -/
theorem names_whole (D : Sender.Disk) (cfg : Sender.Config) (L R B : Path)
    (outputDir : Option Path) :
    (Source D cfg L R B → (tracedRun D cfg L R).Invariant fun c =>
      ∀ o k, c.1 = .op o k → NamesWhole D cfg L R B o c.2.2) ∧
    (NoNul R → ProperNames D → ∀ ns, Object D cfg L ns →
      ((subPaths L ns = wholePath L ns ∧
        recordedTarget B (subPaths R ns) = wholeTarget B (wholePath R ns)) ↔
          ShortPaths L R B ns) ∧
      ∀ ns', Object D cfg L ns' →
        wholeTarget B (wholePath R ns) = wholeTarget B (wholePath R ns') → ns = ns') ∧
    ∀ pkts : Feed, (∀ i, (pkts i).2.Fits) → (loggedRun pkts outputDir).Invariant fun c =>
      ∀ msg k, c.1 = .op (.postSend msg) k →
        CallsFor pkts outputDir (c.2.ledger.acked.length + 1) c.2.os := by
  refine ⟨sender_names, fun hR hD ns hns => ⟨?_, fun ns' hns' h => ?_⟩, fun pkts hfit => ?_⟩
  · exact paths_whole_iff hR (hns.proper hD)
  · exact wholeTarget_inj (hns.proper hD) (hns'.proper hD) h
  · exact receiver_calls pkts hfit outputDir

/-- The directory `s` with one file `a`, which is empty. -/
def directoryDisk : Sender.Disk where
  stat path := some (if path = [115] then ⟨.directory, 0, 0o755⟩ else ⟨.regular, 0, 0o644⟩)
  lstat path := some (if path = [115] then ⟨.directory, 0, 0o755⟩ else ⟨.regular, 0, 0o644⟩)
  openFile path _ := some path
  pread _ _ _ := some []
  readlink _ := none
  opendir path := some path
  readdir _ pos := .ofName? [Sender.dot, [97], Sender.dotDot][pos]?

theorem directoryDisk_name {dir : Sender.Handle} {pos : Nat} {name : Path}
    (h : directoryDisk.readdir dir pos = .entry name) :
    name = Sender.dot ∨ name = [97] ∨ name = Sender.dotDot := by
  have hname : [Sender.dot, [97], Sender.dotDot][pos]? = some name :=
    Sender.Dirent.ofName?_eq_entry.mp h
  simpa using List.mem_of_getElem? hname

/-- The directory and its file are all there is. -/
theorem Object.directory {cfg : Sender.Config} {ns : List Path}
    (h : Object directoryDisk cfg [115] ns) : ns = [] ∨ ns = [[97]] := by
  induction h with
  | top => exact .inl rfl
  | entry _ hdescends _ hread hdots ih =>
    have hname := directoryDisk_name hread
    rcases ih with rfl | rfl
    · exact .inr (by grind)
    · -- the file is no directory
      obtain ⟨st, hst, hkind, -⟩ := hdescends
      have hfile : some st = some ⟨.regular, 0, 0o644⟩ := by
        unfold Sender.Examines at hst
        split at hst <;> exact hst
      cases hfile
      cases hkind

theorem directoryDisk_source (cfg : Sender.Config) :
    Source directoryDisk cfg [115] [100] [47, 111] where
  noNul := by simp [NoNul]
  proper _ _ _ h := by
    have hdot : '.'.toUInt8 ≠ 0 := by decide
    rcases directoryDisk_name h with rfl | rfl | rfl <;>
      exact ⟨⟨by decide, by decide⟩, by simp [NoNul, Sender.dot, Sender.dotDot, hdot]⟩
  short _ h := by
    rcases h.directory with rfl | rfl <;> exact ⟨by decide, by decide, by decide⟩

theorem names_whole_directory :
    ((tracedRun directoryDisk ⟨true, false⟩ [115] [100]).Invariant fun c => ∀ o k,
      c.1 = .op o k → NamesWhole directoryDisk ⟨true, false⟩ [115] [100] [47, 111] o c.2.2) :=
  (names_whole directoryDisk ⟨true, false⟩ [115] [100] [47, 111] none).1
    (directoryDisk_source ⟨true, false⟩)

/-! ### A long remote path -/

/-- A disk with one file, which is empty. -/
def emptyFileDisk : Sender.Disk := { Sender.failingDisk with
  stat _ := some ⟨.regular, 0, 0o644⟩
  lstat _ := some ⟨.regular, 0, 0o644⟩ }

def emptyFileAnswers (o : Sender.Op) (s : Traced) : Option (Sender.Response o) :=
  match o with
  | .stat path => some (emptyFileDisk.stat path)
  | .lstat path => some (emptyFileDisk.lstat path)
  | o => Sender.obliging o s.1

/-- A remote path of 300 bytes. -/
def longRemote : Path := List.replicate 300 97

/-- The run on this file, after `n` steps. -/
def emptyFileRun (n : Nat) : Sender Int × Traced :=
  Program.exec (Sender.bodies ⟨true, false⟩) (traced emptyFileDisk) emptyFileAnswers n
    (Sender.scpSenderRun ⟨true, false⟩ [102] longRemote, Sender.initState, none)

/-- The bytes that a program is about to lay out at the start of the buffer. -/
def record? : Sender Int → Option Bytes
  | .op (.store 0 bs) _ => some bs
  | _ => none

theorem record?_eq {p : Sender Int} {bs : Bytes} (h : record? p = some bs) :
    ∃ k, p = .op (.store 0 bs) k := by
  unfold record? at h
  split at h
  · cases h
    exact ⟨_, rfl⟩
  · cases h

theorem emptyFileAnswers_allowed (o : Sender.Op) (s : Traced) (r : Sender.Response o)
    (h : emptyFileAnswers o s = some r) : (traced emptyFileDisk).allow o s r := by
  cases o
  case stat | lstat => cases h; exact ⟨show 0 < 2 ^ 63 by decide, rfl⟩
  all_goals exact Sender.obliging_allowed _ s.1 r h

/-- The file is all there is. -/
theorem Object.emptyFile {cfg : Sender.Config} {L : Path} {ns : List Path}
    (h : Object emptyFileDisk cfg L ns) : ns = [] := by
  cases h with
  | top => rfl
  | entry _ _ hopen => cases hopen

/-- A name may be cut and the run end with 0: in the record of a file with a remote path of 300
bytes the name is its first 255 bytes. -/
theorem names_cut_off :
    ¬∀ (D : Sender.Disk) (cfg : Sender.Config) (L R B : Path), NoNul R → ProperNames D →
      R.length < scpMaxPathLen → ∀ c c', (tracedRun D cfg L R).Reachable c →
        (tracedRun D cfg L R).Runs c c' → c'.1 = .done 0 →
          ∀ o k, c.1 = .op o k → NamesWhole D cfg L R B o c.2.2 := by
  intro hall
  have hreach : (tracedRun emptyFileDisk ⟨true, false⟩ [102] longRemote).Reachable
      (emptyFileRun 4) := ⟨_, rfl, Program.exec_runs emptyFileAnswers_allowed 4 _⟩
  have hruns : (tracedRun emptyFileDisk ⟨true, false⟩ [102] longRemote).Runs (emptyFileRun 4)
      (Program.exec (Sender.bodies ⟨true, false⟩) (traced emptyFileDisk) emptyFileAnswers 200
        (emptyFileRun 4)) := Program.exec_runs emptyFileAnswers_allowed 200 _
  have hresult : (Program.exec (Sender.bodies ⟨true, false⟩) (traced emptyFileDisk)
      emptyFileAnswers 200 (emptyFileRun 4)).1 = .done 0 :=
    Program.eq_done_of_result? (by decide +kernel)
  have hrecord : (record? (emptyFileRun 4).1).map (fun bs =>
      (field bs 5 1, (targetOf [111] bs).length)) = some ([CmdType.fileMeta.byte], 257) := by
    decide +kernel
  obtain ⟨bs, hbs, hfields⟩ := Option.map_eq_some_iff.mp hrecord
  obtain ⟨hcmd, hlen⟩ := Prod.mk.inj hfields
  obtain ⟨k, hk⟩ := record?_eq hbs
  have hnoNul : NoNul longRemote := fun b hb => List.eq_of_mem_replicate hb ▸ by decide
  have hshort : longRemote.length < scpMaxPathLen := by
    rw [longRemote, List.length_replicate]
    decide
  have hwhole := hall emptyFileDisk ⟨true, false⟩ [102] longRemote [111] hnoNul nofun
    hshort _ _ hreach hruns hresult _ _ hk
  obtain ⟨ns, hns, -, htarget⟩ := hwhole.2 bs rfl (.inl hcmd)
  rw [hns.emptyFile] at htarget
  rw [htarget] at hlen
  exact absurd hlen (by decide +kernel)

end ScpRdma.Transfer

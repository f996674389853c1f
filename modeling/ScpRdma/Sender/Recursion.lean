import ScpRdma.Foundations.FileSystem
import ScpRdma.Sender.Completeness
import ScpRdma.Sender.Quiet

/-!
# Following links into directories

With `-n` the sender examines an entry with `stat`, so that a link to a directory is entered like
the directory. Nothing in the code remembers where it is. A link to a directory on the way from the
source leads it round; where no directory leads back to itself, every directory on the way is
another one, and a run sends a number of packets that the file system alone bounds.
-/
namespace ScpRdma.Sender
open Foundations

/-- A finite file system, and the order in which `readdir` gives the names of a directory. -/
structure Tree where
  fs : FileSystem
  locations : Finset Location
  order : Location → List Name
  finite : ∀ x e, fs.lookup x = some e → x ∈ locations
  listed : ∀ x, fs.lookup x = some .directory →
    ∀ n, n ∈ order x ↔ n = dot ∨ n = dotDot ∨ ∃ e, fs.lookup (x ++ [n]) = some e
  component : ∀ x, ∀ n ∈ order x, IsComponent pathSep n

def entryKind : Entry → FileKind
  | .directory => .directory
  | .file _ => .regular
  | .link _ => .symlink

/-- The directory streams that are open, the last one first. They are the recursion path. -/
abbrev Streams := List (Handle × Location)

namespace Tree

variable (T : Tree)

def directories : Finset Location := T.locations.filter fun x => T.fs.lookup x = some .directory

/-- The path leads to an object of this kind. -/
def Shows (links : Nat) (follow : Bool) (path : Path) (st : Stat) : Prop :=
  ∃ x e, T.fs.locateWithin links follow path = some x ∧ T.fs.lookup x = some e ∧
    st.kind = entryKind e

/-- What a kernel that follows at most `links` links in a path may answer. Any call may fail. -/
def Answers (links : Nat) (streams : Streams) : (o : Op) → Response o → Prop
  | .stat path, some st => T.Shows links true path st
  | .lstat path, some st => T.Shows links false path st
  | .opendir path, some dir => dir ∉ streams.map Prod.fst ∧
      ∃ x, T.fs.locateWithin links true path = some x ∧ T.fs.lookup x = some .directory
  | .readdir dir pos, .entry name => ∃ x, (dir, x) ∈ streams ∧ (T.order x)[pos]? = some name
  | _, _ => True

def track (links : Nat) (streams : Streams) : (o : Op) → Response o → Streams
  | .opendir path, some dir =>
    match T.fs.locateWithin links true path with
    | some x => (dir, x) :: streams
    | none => streams
  | .closedir dir, _ => streams.filter (·.1 ≠ dir)
  | _, _ => streams

def semantics (links : Nat) : Semantics signature (State × Streams) where
  allow o s r := (Sender.semantics .any).allow o s.1 r ∧ T.Answers links s.2 o r
  next o s r := (next o s.1 r, T.track links s.2 o r)

/-- A name in the directory `x` leads to the directory `y`, through links or not. -/
def Follows (x y : Location) : Prop :=
  ∃ n ∈ T.order x, n ≠ dot ∧ n ≠ dotDot ∧ T.fs.Names x n y ∧ T.fs.lookup y = some .directory

/-- No directory at or below the path leads back to itself. -/
def Acyclic (path : Path) : Prop :=
  ∀ links x, T.fs.locateWithin links true path = some x →
    ∀ y, Relation.ReflTransGen T.Follows x y → ¬ Relation.TransGen T.Follows y y

/-- The directories on a way down from the path, the last one first. -/
inductive Descent (links : Nat) (path : Path) : List Location → Prop where
  | nil : Descent links path []
  | source {x} : T.fs.locateWithin links true path = some x → T.fs.lookup x = some .directory →
      Descent links path [x]
  | step {x y xs} : Descent links path (x :: xs) → T.Follows x y → Descent links path (y :: x :: xs)

variable {T} {links : Nat} {path : Path} {x y : Location} {xs : List Location}

theorem Follows.directory (h : T.Follows x y) : y ∈ T.directories := by
  obtain ⟨n, hn, hdot, hdotDot, hnames, hdir⟩ := h
  exact Finset.mem_filter.mpr ⟨T.finite _ _ hdir, hdir⟩

theorem Descent.tail (h : T.Descent links path (x :: xs)) : T.Descent links path xs := by
  cases h with
  | source => exact .nil
  | step h => exact h

theorem Descent.from_above (h : T.Descent links path (x :: xs)) :
    ∀ y ∈ xs, Relation.TransGen T.Follows y x := by
  induction xs generalizing x with
  | nil => simp
  | cons z zs ih =>
    intro y hy
    cases h with
    | step h hstep =>
      rcases List.mem_cons.mp hy with heq | hmem
      · exact heq ▸ .single hstep
      · exact (ih h y hmem).tail hstep

theorem Descent.reached (h : T.Descent links path (x :: xs)) :
    ∃ z, T.fs.locateWithin links true path = some z ∧ Relation.ReflTransGen T.Follows z x := by
  induction xs generalizing x with
  | nil =>
    cases h with
    | source hloc => exact ⟨x, hloc, .refl⟩
  | cons y ys ih =>
    cases h with
    | step h hstep =>
      obtain ⟨z, hloc, hreach⟩ := ih h
      exact ⟨z, hloc, hreach.tail hstep⟩

theorem Descent.fresh (h : T.Descent links path (x :: xs)) (hT : T.Acyclic path) : x ∉ xs := by
  intro hmem
  obtain ⟨z, hloc, hreach⟩ := h.reached
  exact hT links z hloc x hreach (h.from_above x hmem)

theorem Descent.nodup (h : T.Descent links path xs) (hT : T.Acyclic path) : xs.Nodup := by
  induction xs with
  | nil => exact List.nodup_nil
  | cons x xs ih => exact List.nodup_cons.mpr ⟨h.fresh hT, ih h.tail⟩

theorem Descent.subset (h : T.Descent links path xs) : ∀ x ∈ xs, x ∈ T.directories := by
  induction h with
  | nil => simp
  | source hloc hdir =>
    intro x hx
    rw [List.mem_singleton.mp hx]
    exact Finset.mem_filter.mpr ⟨T.finite _ _ hdir, hdir⟩
  | step h hstep ih =>
    intro z hz
    rcases List.mem_cons.mp hz with heq | hmem
    · exact heq ▸ hstep.directory
    · exact ih z hmem

/-- A way down visits every directory once at most. -/
theorem Descent.length_le (h : T.Descent links path xs) (hT : T.Acyclic path) :
    xs.length ≤ T.directories.card := by
  have hcard := List.toFinset_card_of_nodup (h.nodup hT)
  have hsub : xs.toFinset ⊆ T.directories := by
    intro x hx
    exact h.subset x (List.mem_toFinset.mp hx)
  rw [← hcard]
  exact Finset.card_le_card hsub

end Tree

/-! ## The packets of one object -/

section Packets

/-- The operation opens and closes no directory. -/
def Stays : Op → Prop
  | .opendir _ | .closedir _ => False
  | _ => True

/-- The packets that an operation may announce. -/
def announces : Op → Nat
  | .postSend _ => 1
  | _ => 0

/-- A part of the sender that stays in its directory and announces at most `b` packets. -/
abbrev AtMost {α : Type} (b : Nat) (p : Sender α) : Prop :=
  Program.Costs Stays Polls announces b p

variable {α β : Type} {a b : Nat} {p q : Sender α}

theorem length_sent_next (o : Op) (s : State) (r : Response o) :
    (next o s r).ledger.sent.length ≤ s.ledger.sent.length + announces o := by
  cases o with
  | postSend msg =>
    cases r with
    | false => exact Nat.le_succ _
    | true =>
      change s.ledger.announce.sent.length ≤ s.ledger.sent.length + 1
      unfold Ledger.announce
      split
      · exact Nat.le_succ _
      · exact (List.length_append ..).le
  | undefined => nomatch r
  | pread | modifyQp | postRecv | postWrite | waitCompletion => cases r <;> exact le_rfl
  | _ => exact le_rfl

theorem atMost_silent (h : Program.Only Silent Polls p) : AtMost b p := by
  refine Program.Costs.of_only h fun o ho => ?_
  cases o <;> first | exact ⟨trivial, rfl⟩ | exact ho.elim

theorem atMost_working (h : Working p) : AtMost b p := atMost_silent (silent_of_working h)

theorem atMost_free {f : α → Sender β} (h : AtMost 0 p) (hf : ∀ x, AtMost b (f x)) :
    AtMost b (p >>= f) := Nat.zero_add b ▸ Program.Costs.bind h hf

/-- An operation that announces nothing, and then the rest. -/
theorem atMost_op {o : Op} {f : Response o → Sender β} (hstay : Stays o) (h : announces o = 0)
    (hf : ∀ x, AtMost b (f x)) : AtMost b (ask o >>= f) :=
  atMost_free (.ask hstay h.le) hf

/-- `if (p) return -1`, and then the rest. -/
theorem atMost_check {c : α → Prop} [∀ x, Decidable (c x)] {e : β} {q : Sender β} (h : AtMost 0 p)
    (hq : AtMost b q) : AtMost b (do if c (← p) then return e else q) :=
  atMost_free h fun _ => .ite .done hq

/-- The same, where `p` may announce a packet. -/
theorem atMost_spend {c : α → Prop} [∀ x, Decidable (c x)] {e : β} {q : Sender β} (h : AtMost 1 p)
    (hq : AtMost b q) : AtMost (1 + b) (do if c (← p) then return e else q) :=
  Program.Costs.bind h fun _ => .ite .done hq

theorem rdmaTransPost_atMost (wr : TransWr) : AtMost 0 (rdmaTransPost wr) := by
  refine atMost_free ?_ fun sges => atMost_free (.ask trivial le_rfl) fun _ => ?_
  · cases wr.sges with
    | session => exact atMost_op trivial rfl fun _ => .done
    | own sges => exact .done
  · exact .ite .done (atMost_op trivial rfl fun _ => .done)

theorem scpRdmaSendSync_atMost (wr : TransWr) : AtMost 1 (scpRdmaSendSync wr) := by
  refine atMost_check (atMost_working (waitForSlot_working 0)) ?_
  refine atMost_check (atMost_working (postAckRecv_working 0)) ?_
  refine atMost_check (rdmaTransPost_atMost wr) ?_
  refine atMost_check (atMost_working waitForRdmaWriteCompletion_working) ?_
  refine atMost_op trivial rfl fun _ => ?_
  refine Program.Costs.bind (b := 0) (.ask trivial le_rfl) fun _ => ?_
  refine .ite (atMost_op trivial rfl fun _ => .done) ?_
  exact atMost_check (atMost_working (waitForSlot_working 0)) .done

theorem sendSessionBuf_atMost (wr : TransWr) (len : Nat) : AtMost 1 (sendSessionBuf wr len) :=
  atMost_op trivial rfl fun _ => scpRdmaSendSync_atMost wr

theorem establishSession_atMost (wr : TransWr) : AtMost 0 (establishSession wr) :=
  atMost_silent (establishSession_silent wr)

theorem scpSendSymlink_atMost (l r : Path) (st : Stat) : AtMost 2 (scpSendSymlink l r st) := by
  refine atMost_op trivial rfl fun target => ?_
  cases target with
  | none => exact .done
  | some target =>
    refine atMost_op trivial rfl fun _ => ?_
    refine atMost_free (establishSession_atMost _) fun wr => ?_
    cases wr with
    | none => exact .done
    | some wr =>
      refine atMost_spend (b := 1) (sendSessionBuf_atMost _ _) ?_
      refine atMost_op trivial rfl fun _ => ?_
      refine atMost_op trivial rfl fun _ => ?_
      refine atMost_op trivial rfl fun _ => ?_
      refine atMost_spend (b := 0) (scpRdmaSendSync_atMost _) ?_
      exact atMost_op trivial rfl fun _ => .done

theorem chunkLoop_atMost (fd : Handle) (direct : Bool) (size remaining i off : Nat) :
    AtMost remaining (chunkLoop fd direct size remaining i off) := by
  induction remaining generalizing i off with
  | zero => exact .done
  | succ remaining ih =>
    refine atMost_op trivial rfl fun slot => ?_
    rw [Nat.add_comm]
    refine atMost_check (atMost_working (waitForSlot_working _)) ?_
    refine atMost_free ?_ fun n => ?_
    · refine .ite ?_ ?_ <;> refine atMost_op trivial rfl fun data => ?_ <;>
        cases data <;> exact .done
    · match n with
      | none | some 0 => exact .done
      | some (n + 1) =>
        refine atMost_op trivial rfl fun _ => ?_
        refine atMost_check (atMost_working (postAckRecv_working _)) ?_
        refine atMost_check (rdmaTransPost_atMost _) ?_
        refine atMost_spend (.ask trivial le_rfl) ?_
        refine atMost_op trivial rfl fun _ => ?_
        refine atMost_op trivial rfl fun _ => ?_
        refine atMost_op trivial rfl fun _ => ?_
        refine atMost_op trivial rfl fun _ => ?_
        refine atMost_check ?_ (ih _ _)
        exact atMost_working (harvestCompletions_working _ _)

theorem close_atMost (fd : Handle) (x : Int) :
    AtMost b (do ask (.close fd); return x : Sender Int) :=
  atMost_op trivial rfl fun _ => .done

theorem openSource_atMost (path : Path) : AtMost 0 (openSource path) := by
  refine atMost_op trivial rfl fun fd => ?_
  cases fd with
  | some fd => exact .done
  | none =>
    refine atMost_op trivial rfl fun fd => ?_
    cases fd <;> exact .done

/-- The meta packet and the chunks, whose number is a `uint32_t`. -/
def filePackets : Nat := 2 ^ 32

theorem scpSendFile_atMost (l r : Path) : AtMost filePackets (scpSendFile l r) := by
  refine atMost_op trivial rfl fun st => ?_
  cases st with
  | none => exact .done
  | some st =>
    refine atMost_free (openSource_atMost l) fun src => ?_
    obtain _ | ⟨fd, direct⟩ := src
    · exact .done
    refine atMost_op trivial rfl fun _ => atMost_free (establishSession_atMost _) fun wr => ?_
    cases wr with
    | none => exact close_atMost _ _
    | some wr =>
      have hchunks : totalChunks st.size < filePackets := totalChunks_lt _
      obtain ⟨chunks, hc⟩ : ∃ chunks, chunks = totalChunks st.size := ⟨_, rfl⟩
      rw [← hc] at hchunks ⊢
      refine (Program.Costs.bind (b := chunks) (sendSessionBuf_atMost _ _) fun x => ?_).mono
        (Nat.one_add chunks ▸ hchunks)
      refine .ite (close_atMost _ _) (atMost_op trivial rfl fun _ => ?_)
      refine Program.Costs.bind (b := 0) (chunkLoop_atMost _ _ _ _ _ _) fun x => ?_
      refine .ite (close_atMost _ _) ?_
      refine atMost_free (atMost_working drainPendingAcks_working) fun x => ?_
      refine .ite (close_atMost _ _) (atMost_op trivial rfl fun _ => ?_)
      exact atMost_op trivial rfl fun _ => .done

/-! ## The walk -/

/-- The path may have been cut by `snprintf`. -/
def Fills : Op → Prop
  | .stat path | .lstat path => scpMaxPathLen - 1 ≤ path.length
  | _ => False

namespace Tree

variable (T : Tree) (links N : Nat)

/-- A directory is entered only off the recursion path, which has room for it; a packet is
announced only within the budget. -/
def Within : Op → State × Streams → Prop
  | .opendir path, s => ∀ x, T.fs.locateWithin links true path = some x →
      x ∉ s.2.map Prod.snd ∧ s.2.length < T.directories.card
  | .postSend _, s => s.1.ledger.sent.length < N
  | _, _ => True

/-- The precondition of a part of the sender, with links followed, until a path may be cut. -/
abbrev Walks (n : Nat) (p : Sender α) (Q : α → State × Streams → Prop) (s : State × Streams) :
    Prop :=
  wp (bodies ⟨true, true⟩) ((T.semantics links).upTo Fills) ⟨T.Within links N, fun _ _ => True⟩
    n p Q s

/-- The streams are these, and at most `b` packets are announced. -/
def Left (streams : Streams) (b : Nat) (_ : α) (t : State × Streams) : Prop :=
  t.2 = streams ∧ t.1.ledger.sent.length ≤ b

variable {T links N} {n : Nat} {s t : State × Streams} {streams : Streams}
  {Q : α → State × Streams → Prop}

theorem walks_ask {o : Op} {f : Response o → Sender α} (hD : T.Within links N o s)
    (h : ∀ r, ¬ Fills o → T.Answers links s.2 o r →
      T.Walks links N n (f r) Q (next o s.1 r, T.track links s.2 o r)) :
    T.Walks links N n (ask o >>= f) Q s :=
  wp.op hD fun r hr => h r hr.2 hr.1.2

/-- A part that stays in its directory spends what it may announce. -/
theorem walks_atMost (h : AtMost b p) (hs : s.2 = streams)
    (ha : s.1.ledger.sent.length + b ≤ a) (hN : a ≤ N) :
    T.Walks links N n p (Left streams a) s := by
  refine (Program.Costs.wp (I := fun t => t.2 = streams) (m := fun t => t.1.ledger.sent.length) h
    ?_ ?_ ?_ ?_ ?_ hs (ha.trans hN)).mono ?_
  · intro c hc
    exact atMost_working (polls_working _ c hc)
  · intro o t hstay _ hroom
    cases o <;> trivial
  · intro c t _
    trivial
  · intro o t r _
    exact length_sent_next o t.1 r
  · intro o t r hstay ht
    cases o <;> first | exact ht | exact hstay.elim
  · intro x t ht
    exact ⟨ht.1, ht.2.trans ha⟩

/-- A part that stays, and then the rest. -/
theorem walks_step {c : α → Prop} [∀ x, Decidable (c x)] {e : β} {q : Sender β} {m : Nat}
    (h : AtMost m p) (hs : s.2 = streams) (ha : s.1.ledger.sent.length + m ≤ a) (hab : a ≤ b)
    (hN : b ≤ N) (hq : ∀ t : State × Streams, t.2 = streams → t.1.ledger.sent.length ≤ a →
      T.Walks links N n q (Left streams b) t) :
    T.Walks links N n (do if c (← p) then return e else q) (Left streams b) s := by
  refine wp.bind (walks_atMost h hs ha (hab.trans hN)) fun x t ht => wp.ite (fun _ => ?_) ?_
  · exact wp.done ⟨ht.1, ht.2.trans hab⟩
  · exact fun _ => hq t ht.1 ht.2

/-- The names of the fullest directory. -/
def width (T : Tree) : Nat := T.directories.sup fun x => (T.order x).length

/-- The packets of one entry of a directory, where `k` more directories can be entered. -/
def entryPackets (M : Nat) : Nat → Nat
  | 0 => filePackets
  | k + 1 => max (1 + (M * entryPackets M k + 1)) filePackets

/-- The packets that a call of the recursion may announce. -/
def budget (T : Tree) (streams : Streams) : Call → Nat
  | .sendDirectory _ _ => entryPackets T.width (T.directories.card - streams.length)
  | .readdirLoop _ pos _ _ =>
    (T.width - pos) * entryPackets T.width (T.directories.card - streams.length)
  | _ => 0

/-- The directory that is sent is next on the way down; the one whose entries are sent is last. -/
def OnTheWay (T : Tree) (links : Nat) (source : Path) (streams : Streams) : Call → Prop
  | .sendDirectory path _ => ∀ x, T.fs.locateWithin links true path = some x →
      T.Descent links source (x :: streams.map Prod.snd)
  | .readdirLoop dir _ path _ => ∃ x above, streams = (dir, x) :: above ∧
      dir ∉ above.map Prod.fst ∧ T.fs.locateWithin links true path = some x ∧
      T.fs.lookup x = some .directory ∧ T.Descent links source (streams.map Prod.snd)
  | _ => False

variable {source : Path}

theorem width_le (hx : x ∈ T.directories) : (T.order x).length ≤ T.width :=
  Finset.le_sup (f := fun x => (T.order x).length) hx

theorem entryPackets_file (M k : Nat) : filePackets ≤ entryPackets M k := by
  cases k with
  | zero => exact le_rfl
  | succ k => exact Nat.le_max_right _ _

/-- What every call of the recursion does. -/
abbrev Recurses (T : Tree) (links N : Nat) (source : Path) (n : Nat) : Prop :=
  ∀ c s, T.OnTheWay links source s.2 c ∧ s.1.ledger.sent.length + T.budget s.2 c ≤ N →
    T.Walks links N n (invoke c) (Left s.2 (s.1.ledger.sent.length + T.budget s.2 c)) s

/-- A name that is not cut is behind the path and the slash. -/
theorem subPath_of_not_fills {path name : Path} (h : ¬ Fills (.stat (subPath path name))) :
    subPath path name = childPath path name := by
  have hshort : (subPath path name).length < scpMaxPathLen - 1 := not_le.mp h
  rw [subPath, snprintf, List.length_take] at hshort
  have hpos : 0 < scpMaxPathLen := by decide
  exact subPath_eq_iff.mpr (by omega)

section Recursion

variable (ih : T.Recurses links N source n)
include ih

theorem readdirLoop_walks {dir : Handle} {pos : Nat} {l r : Path}
    (h : T.OnTheWay links source s.2 (.readdirLoop dir pos l r))
    (hN : s.1.ledger.sent.length + T.budget s.2 (.readdirLoop dir pos l r) ≤ N) :
    T.Walks links N n (readdirLoopBody ⟨true, true⟩ dir pos l r)
      (Left s.2 (s.1.ledger.sent.length + T.budget s.2 (.readdirLoop dir pos l r))) s := by
  obtain ⟨x, above, hstreams, hdir, hloc, hlookup, hdescent⟩ := id h
  refine walks_ask trivial fun resp _ hread => ?_
  cases resp with
  | finish | failure => exact wp.done ⟨rfl, Nat.le_add_right _ _⟩
  | entry name =>
  change T.Walks links N n _ _ s
  -- the stream that is read is that of the directory
  obtain ⟨x', hx', hname⟩ := hread
  obtain rfl : x' = x := by
    rw [hstreams] at hx'
    rcases List.mem_cons.mp hx' with heq | hmem
    · exact congrArg Prod.snd heq
    · exact absurd (List.mem_map_of_mem hmem) hdir
  have hentry : name ∈ T.order x' := List.mem_of_getElem? hname
  have hpos : pos < T.width := by
    have hmem : x' ∈ T.directories := Finset.mem_filter.mpr ⟨T.finite _ _ hlookup, hlookup⟩
    obtain ⟨hlt, -⟩ := List.getElem?_eq_some_iff.mp hname
    exact hlt.trans_le (width_le hmem)
  have hsplit : T.budget s.2 (.readdirLoop dir pos l r) =
      T.budget s.2 (.sendDirectory l r) + T.budget s.2 (.readdirLoop dir (pos + 1) l r) := by
    have hsucc : T.width - pos = T.width - (pos + 1) + 1 := by omega
    simp only [budget]
    rw [hsucc, Nat.succ_mul, Nat.add_comm]
  rw [hsplit, ← Nat.add_assoc] at hN ⊢
  have hnext : ∀ t : State × Streams, t.2 = s.2 →
      t.1.ledger.sent.length ≤ s.1.ledger.sent.length + T.budget s.2 (.sendDirectory l r) →
      T.Walks links N n (invoke (.readdirLoop dir (pos + 1) l r))
        (Left s.2 (s.1.ledger.sent.length + T.budget s.2 (.sendDirectory l r) +
          T.budget s.2 (.readdirLoop dir (pos + 1) l r))) t := by
    intro t ht hsent
    have hway : T.OnTheWay links source t.2 (.readdirLoop dir (pos + 1) l r) := by
      rw [ht]
      exact h
    refine (ih (.readdirLoop dir (pos + 1) l r) t ⟨hway, ?_⟩).mono fun ret u hu => ?_
    · rw [ht]
      omega
    · rw [ht] at hu
      exact ⟨hu.1, hu.2.trans (Nat.add_le_add_right hsent _)⟩
  have hfile : s.1.ledger.sent.length + filePackets ≤
      s.1.ledger.sent.length + T.budget s.2 (.sendDirectory l r) :=
    Nat.add_le_add_left (entryPackets_file _ _) _
  dsimp only
  split
  · exact hnext s rfl (Nat.le_add_right _ _)
  rename_i hdots
  refine walks_ask (o := .stat _) trivial fun st hcut hst => ?_
  cases st with
  | none => exact hnext s rfl (Nat.le_add_right _ _)
  | some st =>
  change T.Walks links N n _ _ s
  dsimp only
  cases hk : st.kind with
  | directory =>
    have hway : T.OnTheWay links source s.2 (.sendDirectory (subPath l name) (subPath r name)) := by
      intro y hy
      obtain ⟨z, e, hz, he, hkind⟩ := hst
      obtain rfl : z = y := Option.some.inj (hz.symm.trans hy)
      obtain rfl : e = .directory := by
        cases e with
        | directory => rfl
        | file | link => exact absurd (hk.symm.trans hkind) nofun
      rw [subPath_of_not_fills hcut] at hz
      have hnames := FileSystem.names_of_locateWithin (T.component _ _ hentry) hloc hlookup hz
      have hfollows : T.Follows x' z :=
        ⟨name, hentry, fun hd => hdots (.inl hd), fun hd => hdots (.inr hd), hnames, he⟩
      rw [hstreams] at hdescent ⊢
      exact .step hdescent hfollows
    refine wp.bind (ih (.sendDirectory _ _) s ⟨hway, le_of_add_le_left hN⟩) fun ret t ht => ?_
    refine wp.ite (fun _ => wp.done ?_) fun _ => hnext t ht.1 ht.2
    exact ⟨ht.1, Nat.le_add_right_of_le ht.2⟩
  | symlink =>
    have hlink : s.1.ledger.sent.length + 2 ≤
        s.1.ledger.sent.length + T.budget s.2 (.sendDirectory l r) :=
      (Nat.add_le_add_left (Nat.le_of_ble_eq_true rfl) _).trans hfile
    exact walks_step (scpSendSymlink_atMost _ _ _) rfl hlink (Nat.le_add_right _ _) hN hnext
  | regular | other =>
    exact walks_step (scpSendFile_atMost _ _) rfl hfile (Nat.le_add_right _ _) hN hnext

omit ih in
/-- The stream is closed, and the streams below it are left. -/
theorem walks_close {dir : Handle} {x : Location} {above : Streams} {ret : Int}
    (hstreams : s.2 = (dir, x) :: above) (hdir : dir ∉ above.map Prod.fst)
    (hsent : s.1.ledger.sent.length ≤ b) :
    T.Walks links N n (do ask (.closedir dir); return ret) (Left above b) s := by
  refine walks_ask (o := .closedir dir) trivial fun _ _ _ => wp.done ⟨?_, hsent⟩
  change s.2.filter _ = above
  rw [hstreams, List.filter_cons_of_neg (by simp)]
  refine List.filter_eq_self.mpr fun y hy => ?_
  have hne : y.1 ≠ dir := by
    intro heq
    exact hdir (heq ▸ List.mem_map_of_mem hy)
  exact decide_eq_true hne

theorem scpSendDirectory_walks {l r : Path} (hT : T.Acyclic source)
    (h : T.OnTheWay links source s.2 (.sendDirectory l r))
    (hN : s.1.ledger.sent.length + T.budget s.2 (.sendDirectory l r) ≤ N) :
    T.Walks links N n (scpSendDirectoryBody l r)
      (Left s.2 (s.1.ledger.sent.length + T.budget s.2 (.sendDirectory l r))) s := by
  have hroom : ∀ x, T.fs.locateWithin links true l = some x →
      x ∉ s.2.map Prod.snd ∧ s.2.length < T.directories.card := by
    intro x hx
    have hlen := (h x hx).length_le hT
    rw [List.length_cons, List.length_map] at hlen
    exact ⟨(h x hx).fresh hT, hlen⟩
  refine walks_ask (o := .opendir l) hroom fun resp _ hopen => ?_
  cases resp with
  | none => exact wp.done ⟨rfl, Nat.le_add_right _ _⟩
  | some dir =>
  obtain ⟨hdir, x, hloc, hlookup⟩ := hopen
  obtain ⟨t, ht⟩ : ∃ t : State × Streams, t = (s.1, (dir, x) :: s.2) := ⟨_, rfl⟩
  have hnext :
      (next (.opendir l) s.1 (some dir), T.track links s.2 (.opendir l) (some dir)) = t := by
    rw [ht, track, hloc]
    rfl
  rw [hnext]
  have hsent : t.1.ledger.sent.length = s.1.ledger.sent.length := by rw [ht]
  have hstreams : t.2 = (dir, x) :: s.2 := by rw [ht]
  clear hnext ht
  have hloop : T.budget s.2 (.sendDirectory l r) ≥
      1 + (T.budget t.2 (.readdirLoop dir 0 l r) + 1) := by
    obtain ⟨k, hk⟩ := Nat.exists_eq_add_of_lt (hroom x hloc).2
    have hbefore : T.directories.card - s.2.length = k + 1 := by omega
    have hinside : T.directories.card - t.2.length = k := by
      rw [hstreams, List.length_cons]
      omega
    simp only [budget, hbefore, hinside]
    exact Nat.le_max_left _ _
  have hway : T.OnTheWay links source t.2 (.readdirLoop dir 0 l r) := by
    refine ⟨x, s.2, hstreams, hdir, hloc, hlookup, ?_⟩
    rw [hstreams]
    exact h x hloc
  have hclose : ∀ u : State × Streams, u.2 = t.2 → u.1.ledger.sent.length ≤
      s.1.ledger.sent.length + T.budget s.2 (.sendDirectory l r) → ∀ ret : Int,
      T.Walks links N n (do ask (.closedir dir); return ret)
        (Left s.2 (s.1.ledger.sent.length + T.budget s.2 (.sendDirectory l r))) u := by
    intro u hu hsentu ret
    exact walks_close (hu.trans hstreams) hdir hsentu
  refine walks_ask (o := .store _ _) trivial fun _ _ _ => ?_
  refine wp.bind (walks_atMost (establishSession_atMost _) (rfl : t.2 = t.2) hsent.le
    (Nat.le_of_add_right_le hN)) fun wr u hu => ?_
  cases wr with
  | none => exact hclose u hu.1 (Nat.le_add_right_of_le hu.2) _
  | some wr =>
  refine wp.bind (walks_atMost (sendSessionBuf_atMost _ _) hu.1 (Nat.add_le_add_right hu.2 1)
    (by omega)) fun ret v hv => ?_
  refine wp.ite (fun _ => hclose v hv.1 (hv.2.trans (by omega)) _) fun _ => ?_
  have hvloop : v.1.ledger.sent.length + T.budget v.2 (.readdirLoop dir 0 l r) ≤
      s.1.ledger.sent.length + 1 + T.budget t.2 (.readdirLoop dir 0 l r) := by
    rw [hv.1]
    exact Nat.add_le_add_right hv.2 _
  refine wp.bind (ih (.readdirLoop dir 0 l r) v ⟨hv.1.symm ▸ hway, by omega⟩) fun ret w hw => ?_
  have hwsent := hw.2.trans hvloop
  have hwstreams := hw.1.trans hv.1
  refine wp.ite (fun _ => hclose w hwstreams (hwsent.trans (by omega)) _) fun _ => ?_
  refine walks_ask (o := .update _) trivial fun _ _ _ => ?_
  refine walks_ask (o := .store _ _) trivial fun _ _ _ => ?_
  refine wp.bind (walks_atMost (sendSessionBuf_atMost _ _) (hwstreams : w.2 = t.2)
    (Nat.add_le_add_right hwsent 1) (by omega)) fun ret y hy => ?_
  refine wp.ite (fun _ => hclose y hy.1 (hy.2.trans (by omega)) _) fun _ => ?_
  exact hclose y hy.1 (hy.2.trans (by omega)) _

end Recursion

theorem recursion_walks (hT : T.Acyclic source) (c : Call)
    (h : T.OnTheWay links source s.2 c) (hN : s.1.ledger.sent.length + T.budget s.2 c ≤ N) :
    T.Walks links N n (invoke c) (Left s.2 (s.1.ledger.sent.length + T.budget s.2 c)) s := by
  refine wp.recursion (S := signature) id
    (fun c s => T.OnTheWay links source s.2 c ∧ s.1.ledger.sent.length + T.budget s.2 c ≤ N)
    (fun c s (r : Int) t => Left s.2 (s.1.ledger.sent.length + T.budget s.2 c) r t)
    (fun _ _ _ => ?_) (fun m ih c s hc => ?_) n c s ⟨h, hN⟩
  · trivial
  · cases c with
    | sendDirectory l r => exact scpSendDirectory_walks ih hT hc.1 hc.2
    | readdirLoop dir pos l r => exact readdirLoop_walks ih hc.1 hc.2
    | waitForSlot | drainPendingAcks | waitForRdmaWriteCompletion => exact hc.1.elim

/-- The packets that a run may announce. -/
def runPackets (T : Tree) : Nat := entryPackets T.width T.directories.card + 1

theorem scpSenderRun_walks {l r : Path} (hT : T.Acyclic l) (hs : s.2 = [])
    (hN : s.1.ledger.sent.length + T.runPackets ≤ N) :
    T.Walks links N n (scpSenderRun ⟨true, true⟩ l r)
      (Left [] (s.1.ledger.sent.length + T.runPackets)) s := by
  have hentry : T.budget [] (.sendDirectory l r) + 1 = T.runPackets := rfl
  rw [← hentry, ← Nat.add_assoc] at hN ⊢
  refine walks_ask (o := .stat l) trivial fun st _ _ => ?_
  cases st with
  | none => exact wp.done ⟨hs, Nat.le_succ_of_le (Nat.le_add_right _ _)⟩
  | some _ =>
  refine walks_ask (o := .stat l) trivial fun st _ hst => ?_
  cases st with
  | none => exact wp.done ⟨hs, Nat.le_succ_of_le (Nat.le_add_right _ _)⟩
  | some st =>
  change T.Walks links N n _ _ s
  refine wp.bind (R := Left [] (s.1.ledger.sent.length + T.budget [] (.sendDirectory l r)))
    ?_ fun ret t ht => wp.ite (fun _ => ?_) fun _ => ?_
  · have hfile : s.1.ledger.sent.length + filePackets ≤
        s.1.ledger.sent.length + T.budget [] (.sendDirectory l r) :=
      Nat.add_le_add_left (entryPackets_file _ _) _
    unfold sendObject
    cases hk : st.kind with
    | directory =>
      have hway : T.OnTheWay links l s.2 (.sendDirectory l r) := by
        intro x hx
        obtain ⟨y, e, hy, he, hkind⟩ := hst
        obtain rfl : y = x := Option.some.inj (hy.symm.trans hx)
        obtain rfl : e = .directory := by
          cases e with
          | directory => rfl
          | file | link => exact absurd (hk.symm.trans hkind) nofun
        rw [hs]
        exact .source hx he
      have hcall := recursion_walks (n := n) hT _ hway (hs ▸ Nat.le_of_add_right_le hN)
      rwa [hs] at hcall
    | symlink =>
      refine walks_atMost (scpSendSymlink_atMost _ _ _) hs (Nat.le_trans ?_ hfile) (by omega)
      exact Nat.add_le_add_left (Nat.le_of_ble_eq_true rfl) _
    | regular | other => exact walks_atMost (scpSendFile_atMost _ _) hs hfile (by omega)
  · exact wp.done ⟨ht.1, Nat.le_succ_of_le ht.2⟩
  · refine walks_ask (o := .store _ _) trivial fun _ _ _ => ?_
    refine walks_ask (o := .update _) trivial fun _ _ _ => ?_
    refine walks_ask (o := .get) trivial fun _ _ _ => wp.ite (fun _ => ?_) fun _ => ?_
    · refine wp.bind (walks_atMost (scpRdmaSendSync_atMost _) ht.1 (Nat.succ_le_succ ht.2) hN)
        fun _ u hu => wp.done hu
    · exact wp.done ⟨ht.1, Nat.le_succ_of_le ht.2⟩

/-! ## Runs -/

/-- Where a run stands: no directory on the recursion path is entered again, the path has no more
directories than there are, and at most `b` packets were announced. -/
structure Bounded (T : Tree) (links b : Nat) (c : Sender Int × State × Streams) : Prop where
  fresh : ∀ path k, c.1 = .op (.opendir path) k →
    ∀ x, T.fs.locateWithin links true path = some x → x ∉ c.2.2.map Prod.snd
  depth : c.2.2.length ≤ T.directories.card
  packets : c.2.1.ledger.sent.length ≤ b

/-- Where no directory leads back to itself, the recursion and the packets are bounded by the file
system alone, however many links the kernel follows, as long as no path is cut. -/
theorem recursion_bounded (T : Tree) :
    ∃ b, ∀ localPath, T.Acyclic localPath → ∀ links remotePath (s : State),
      ((scpSenderRun ⟨true, true⟩ localPath remotePath).system (bodies ⟨true, true⟩)
        ((T.semantics links).upTo Fills) (s, [])).Invariant
          (T.Bounded links (s.ledger.sent.length + b)) := by
  refine ⟨T.runPackets, fun localPath hT links remotePath s => ?_⟩
  have hv : Verified (bodies ⟨true, true⟩) ((T.semantics links).upTo Fills)
      ⟨T.Within links (s.ledger.sent.length + T.runPackets), fun _ _ => True⟩
      (scpSenderRun ⟨true, true⟩ localPath remotePath) _ (s, []) :=
    fun _ => scpSenderRun_walks hT rfl le_rfl
  have hkeeps := hv.keeps (I := fun t => t.2.length ≤ T.directories.card ∧
    t.1.ledger.sent.length ≤ s.ledger.sent.length + T.runPackets)
    ⟨Nat.zero_le _, Nat.le_add_right _ _⟩ ?_
  · intro c hc
    refine ⟨?_, (hkeeps c hc).1, (hkeeps c hc).2⟩
    intro path k hk x hx
    have hop : Verified _ _ _ c.1 _ c.2 := hv.runs c hc
    rw [hk] at hop
    exact (hop.duty x hx).1
  · intro o t r ht hD hr
    constructor
    · cases o with
      | opendir path =>
        cases r with
        | none => exact ht.1
        | some dir =>
          obtain ⟨-, x, hx, -⟩ := hr.1.2
          change (T.track links t.2 (.opendir path) (some dir)).length ≤ _
          rw [track, hx]
          exact (hD x hx).2
      | closedir dir => exact (List.length_filter_le _ _).trans ht.1
      | _ => exact ht.1
    · refine (length_sent_next o t.1 r).trans ?_
      cases o with
      | postSend => exact hD
      | _ => exact ht.2

end Tree

end Packets

/-! ## A link to a directory -/

namespace Tree

def dirName : Name := [100]
def innerName : Name := [101]
def linkName : Name := [108]
def dirPath : Path := pathSep :: dirName
def innerPath : Path := dirPath ++ pathSep :: innerName
def linkPath : Path := dirPath ++ pathSep :: linkName

/-- A directory `/d` with a directory `/d/e` and a link `/d/l`. -/
def linked (target : Bytes) : Tree where
  fs := {
    entry := fun x => if x = [dirName] ∨ x = [dirName, innerName] then some .directory
      else if x = [dirName, linkName] then some (.link target) else none
    content := fun _ => []
    descriptor := fun _ => none
    nextIno := 1
    cwd := [] }
  locations := {[], [dirName], [dirName, innerName], [dirName, linkName]}
  order x := [dot, dotDot] ++
    if x = [] then [dirName] else if x = [dirName] then [linkName, innerName] else []
  finite x e h := by
    unfold FileSystem.lookup at h
    simp only [Finset.mem_insert, Finset.mem_singleton]
    grind
  listed x h n := by
    unfold FileSystem.lookup at h ⊢
    have hdir : x = [] ∨ x = [dirName] ∨ x = [dirName, innerName] := by grind
    rw [← Option.isSome_iff_exists]
    rcases hdir with rfl | rfl | rfl <;> simp [dirName, innerName, linkName]
    grind
  component x n hn := by
    have hname : n ∈ [dot, dotDot, dirName, linkName, innerName] := by grind
    fin_cases hname <;> exact ⟨by decide, by decide⟩

/-- Where the link leads to the directory beside it, every step leads further down. -/
theorem linked_follows {x y : Location} (h : (linked innerPath).Follows x y) :
    x.length < y.length := by
  obtain ⟨n, hn, hdot, hdotDot, ⟨links, hy⟩, -⟩ := h
  have hname : (x = [] ∧ n = dirName) ∨ x = [dirName] ∧ (n = linkName ∨ n = innerName) := by
    change n ∈ [dot, dotDot] ++ _ at hn
    grind
  rcases hname with ⟨rfl, rfl⟩ | ⟨rfl, rfl | rfl⟩
  · have hdir : y = [dirName] := by
      cases links <;> exact (Option.some.inj hy).symm
    rw [hdir]
    decide
  · have hinner : y = [dirName, innerName] := by
      match links with
      | 0 => cases hy
      | 1 | links + 2 => exact (Option.some.inj hy).symm
    rw [hinner]
    decide
  · have hinner : y = [dirName, innerName] := by
      cases links <;> exact (Option.some.inj hy).symm
    rw [hinner]
    decide

theorem linked_acyclic (path : Path) : (linked innerPath).Acyclic path := by
  intro links x hx y hreach hround
  have hlength : ∀ z, Relation.TransGen (linked innerPath).Follows y z → y.length < z.length := by
    intro z hz
    induction hz with
    | single h => exact linked_follows h
    | tail _ h ih => exact ih.trans (linked_follows h)
  exact (hlength y hround).false

theorem recursion_bounded_small : ∃ b, ∀ links remotePath (s : State),
    ((scpSenderRun ⟨true, true⟩ dirPath remotePath).system (bodies ⟨true, true⟩)
      (((linked innerPath).semantics links).upTo Fills) (s, [])).Invariant
        ((linked innerPath).Bounded links (s.ledger.sent.length + b)) := by
  obtain ⟨b, hbounded⟩ := recursion_bounded (linked innerPath)
  exact ⟨b, hbounded dirPath (linked_acyclic dirPath)⟩

/-- The link leads to the directory that it is in. -/
def loop : Tree := linked dirPath

/-- Both paths name the directory; the run is followed until it is entered again. -/
def loopAnswers : (o : Op) → State × Streams → Option (Response o)
  | .stat path, _ =>
    if path = dirPath ∨ path = linkPath then some (some ⟨.directory, 0, 0⟩) else none
  | .lstat _, _ => none
  | .opendir path, s => if path = dirPath ∧ s.2 = [] then some (some dirPath) else none
  | .readdir dir pos, s =>
    if s.2 = [(dir, [dirName])] then some (.ofName? (loop.order [dirName])[pos]?) else none
  | o, s => obliging o s.1

theorem loopAnswers_allowed (o : Op) (s : State × Streams) (r : Response o)
    (h : loopAnswers o s = some r) : (loop.semantics 1).allow o s r := by
  cases o with
  | stat path =>
    obtain ⟨hpath, hr⟩ := Option.ite_none_right_eq_some.mp h
    cases hr
    refine ⟨⟨Nat.two_pow_pos 63, trivial⟩, [dirName], .directory, ?_, rfl, rfl⟩
    rcases hpath with rfl | rfl <;> decide
  | lstat => cases h
  | opendir path =>
    obtain ⟨⟨rfl, hstreams⟩, hr⟩ := Option.ite_none_right_eq_some.mp h
    cases hr
    refine ⟨⟨trivial, trivial⟩, ?_, [dirName], by decide, rfl⟩
    simp [hstreams]
  | readdir dir pos =>
    obtain ⟨hstreams, hr⟩ := Option.ite_none_right_eq_some.mp h
    cases hr
    refine ⟨⟨trivial, trivial⟩, ?_⟩
    cases hname : (loop.order [dirName])[pos]? with
    | none => trivial
    | some name => exact ⟨[dirName], by simp [hstreams], hname⟩
  | _ =>
    obtain ⟨hpossible, -⟩ := obliging_allowed _ s.1 r h
    exact ⟨⟨hpossible, trivial⟩, trivial⟩

/-- Where the directory is entered again. -/
def reentry : Sender Int × State × Streams :=
  Program.exec (bodies ⟨true, true⟩) (loop.semantics 1) loopAnswers 200
    (scpSenderRun ⟨true, true⟩ dirPath dirPath, (initState, []))

/-- The path of the directory that is about to be entered. -/
def entering : Sender Int → Option Path
  | .op (.opendir path) _ => some path
  | _ => none

theorem eq_of_entering {p : Sender Int} {path : Path} (h : entering p = some path) :
    ∃ k, p = .op (.opendir path) k := by
  cases p with
  | op o k =>
    cases o with
    | opendir =>
      cases h
      exact ⟨k, rfl⟩
    | _ => cases h
  | done | call => cases h

theorem reentry_entering : entering reentry.1 = some linkPath := by decide +kernel

theorem reentry_streams : reentry.2.2.map Prod.snd = [[dirName]] := by decide +kernel

/-- A link to the directory that it is in leads the sender back into it. -/
theorem not_bounded : ¬ ∀ T : Tree, ∃ b, ∀ localPath links remotePath (s : State),
    ((scpSenderRun ⟨true, true⟩ localPath remotePath).system (bodies ⟨true, true⟩)
      (T.semantics links) (s, [])).Invariant (T.Bounded links (s.ledger.sent.length + b)) := by
  intro hall
  obtain ⟨b, hbounded⟩ := hall loop
  have hreach : ((scpSenderRun ⟨true, true⟩ dirPath dirPath).system (bodies ⟨true, true⟩)
      (loop.semantics 1) (initState, [])).Reachable reentry :=
    ⟨_, rfl, Program.exec_runs loopAnswers_allowed 200 _⟩
  obtain ⟨k, hk⟩ := eq_of_entering reentry_entering
  have hfresh := (hbounded dirPath 1 dirPath initState reentry hreach).fresh linkPath k hk [dirName]
    (by decide)
  rw [reentry_streams] at hfresh
  exact hfresh (List.mem_singleton_self _)

end Tree

end ScpRdma.Sender

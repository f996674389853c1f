import ScpRdma.Connection.Program

/-!
# One side of the handshake

The state of a side with what it has written to the stream and read from it. `Duty` says that
a side never reads past the record of its peer, and that it has said everything when it waits
for that record; `Tracks` is what follows in every state of every run.
-/
namespace ScpRdma.Connection
open Foundations

/-- `msg->wr_len`, `res->remote_props`, the bytes written and read, and whether the socket is
closed. -/
structure State where
  wrLen : BitVec 64
  remoteProps : Option CmConData
  sent : Bytes
  got : Bytes
  closed : Bool

/-- The client has the length of its buffer, the server is to learn it. -/
def initState (len : BitVec 64) : Side → State
  | .client => ⟨len, none, [], [], false⟩
  | .server => ⟨0, none, [], [], false⟩

def next : (o : Op) → State → Response o → State
  | .write bs, s, some n => { s with sent := s.sent ++ bs.take n }
  | .read _, s, .data bs => { s with got := s.got ++ bs }
  | .close, s, _ => { s with closed := true }
  | .setWrLen len, s, _ => { s with wrLen := len }
  | .setRemoteProps props, s, _ => { s with remoteProps := some props }
  | _, s, _ => s

/-- A write takes at least one byte, and a read that returns bytes returns what was asked for
or less. -/
def Possible : (o : Op) → State → Response o → Prop
  | .write bs, _, some n => 0 < n ∧ n ≤ bs.length
  | .read count, _, .data bs => bs ≠ [] ∧ bs.length ≤ count
  | .getWrLen, s, len => len = s.wrLen
  | _, _, _ => True

/-- Nothing fails, and only a write of a length may be short. -/
def Op.Succeeds : (o : Op) → Response o → Prop
  | .write bs, some n => n = bs.length ∨ bs.length ≤ sizeT
  | .write _, none => False
  | .read _, .data _ => True
  | .read _, _ => False
  | .malloc, ok => ok = true
  | _, _ => True

/-- The responses the surroundings give. -/
abbrev World := (o : Op) → Response o → Prop

def World.Reliable (W : World) : Prop := ∀ o r, W o r → o.Succeeds r

def semantics (W : World) : Semantics signature State := ⟨fun o s r => Possible o s r ∧ W o r, next⟩

/-- The length of a buffer, as the client writes it. -/
def lengthBytes (o : ByteOrder) (len : BitVec 64) : Bytes := o.store sizeT len

/-- The record of a side with the attributes `a` and a buffer of length `len`. -/
def recordBytes (o : ByteOrder) (a : CmConData) (len : BitVec 64) : Bytes :=
  ((a.withLen len).encode o).toBytes o

@[simp] theorem length_lengthBytes (o : ByteOrder) (len : BitVec 64) :
    (lengthBytes o len).length = sizeT := o.length_store (k := 8) len

@[simp] theorem length_recordBytes (o : ByteOrder) (a : CmConData) (len : BitVec 64) :
    (recordBytes o a len).length = cmConDataSize := CmConData.length_toBytes _ _

/-- All that a side writes when its buffer has the length `len`. -/
def stream (o : ByteOrder) (side : Side) (a : CmConData) (len : BitVec 64) : Bytes :=
  (match side with
    | .client => lengthBytes o len
    | .server => []) ++ recordBytes o a len

/-- How much a side reads before the record of its peer. -/
def Side.skip : Side → Nat
  | .client => 0
  | .server => sizeT

theorem length_stream (o : ByteOrder) (side : Side) (a : CmConData) (len : BitVec 64) :
    (stream o side a len).length = side.peer.skip + cmConDataSize := by
  cases side <;> simp [stream, Side.peer, Side.skip]

section Duties

variable (o : ByteOrder) (side : Side) (a : CmConData) (len : BitVec 64) (W : World)

/-- Everything was said. -/
def State.Said (s : State) : Prop := s.sent = stream o side a s.wrLen

/-- The length of the buffer is the one of the client: its own, or the one that was read. -/
def State.Knows (s : State) : Prop :=
  match side with
  | .client => s.wrLen = len
  | .server => sizeT ≤ s.got.length ∧ s.wrLen = o.load sizeT (s.got.take sizeT)

/-- The record of the peer stands behind what is skipped. -/
def State.Heard (s : State) (props : CmConData) : Prop :=
  s.got.length = side.skip + cmConDataSize ∧
    props = (CmConData.ofBytes o (s.got.drop side.skip)).decode o

def Duty : Op → State → Prop
  | .write bs, s => bs ≠ [] ∧ s.closed = false ∧ s.sent ++ bs <+: stream o side a s.wrLen ∧
    s.Knows o side len
  | .read count, s => 0 < count ∧ s.got.length + count ≤ side.skip + cmConDataSize ∧
    (s.Said o side a ∨ s.got.length + count ≤ side.skip)
  | .close, _ => ¬ W.Reliable
  | .setWrLen len', s => side = .server ∧ s.sent = [] ∧ s.remoteProps = none ∧
    s.got.length = sizeT ∧ len' = o.load sizeT s.got
  | .setRemoteProps props, s => s.Said o side a ∧ s.Heard o side props
  | .undefined, s => ¬ W.Reliable ∧ s.got.length = side.skip + cmConDataSize
  | _, _ => True

def duties : Duties signature State := ⟨Duty o side a len W, fun _ _ => True⟩

/-- What holds of a side at any time. -/
structure Tracks (s : State) : Prop where
  sent : s.sent <+: stream o side a s.wrLen
  got : s.got.length ≤ side.skip + cmConDataSize
  knows : side = .client ∨ s.sent ≠ [] → s.Knows o side len
  props : ∀ props, s.remoteProps = some props → s.Said o side a ∧ s.Heard o side props

/-- The result of a side is 0 where `remote_props` is set, and in a reliable world. -/
def Ended (rc : Int) (s : State) : Prop :=
  (rc = 0 ↔ s.remoteProps ≠ none) ∧ (W.Reliable → rc = 0)

end Duties

variable {o : ByteOrder} {side : Side} {a : CmConData} {len : BitVec 64} {W : World} {n : Nat}

theorem tracks_init : Tracks o side a len (initState len side) := by
  refine ⟨?_, ?_, ?_, ?_⟩ <;> cases side <;> simp [initState, State.Knows]

theorem Tracks.next {s : State} (h : Tracks o side a len s) {op : Op} {r : Response op}
    (hD : Duty o side a len W op s) (hr : Possible op s r) :
    Tracks o side a len (next op s r) := by
  cases op with
  | write bs =>
    cases r with
    | none => exact h
    | some n =>
      obtain ⟨hbs, -, hsent, hknows⟩ := hD
      have htake := (List.prefix_append_right_inj s.sent).mpr (List.take_prefix n bs)
      refine ⟨htake.trans hsent, h.got, fun _ => hknows, ?_⟩
      intro props hprops
      -- everything was said already, but there is more to write
      have hsaid := (h.props props hprops).1
      rw [State.Said] at hsaid
      rw [← hsaid] at hsent
      have := List.length_pos_iff.mpr hbs
      have := hsent.length_le
      simp only [List.length_append] at this
      omega
  | read count =>
    cases r with
    | closed | failed => exact h
    | data bs =>
      obtain ⟨hpos, hcount, -⟩ := hD
      obtain ⟨-, hle⟩ := hr
      refine ⟨h.sent, ?_, fun hs => ?_, fun props hprops => ?_⟩
      · simp only [Connection.next, List.length_append]
        omega
      · have hknows := h.knows hs
        cases side with
        | client => exact hknows
        | server =>
          obtain ⟨h8, hlen⟩ := hknows
          refine ⟨by simp only [Connection.next, List.length_append]; omega, ?_⟩
          rw [Connection.next, List.take_append_of_le_length h8]
          exact hlen
      · have := (h.props props hprops).2.1
        omega
  | close => exact ⟨h.sent, h.got, h.knows, h.props⟩
  | malloc | getWrLen => exact h
  | setWrLen len' =>
    obtain ⟨rfl, hsent, hprops, -, -⟩ := hD
    refine ⟨by simp [Connection.next, hsent], h.got, ?_, ?_⟩
    · simp [Connection.next, hsent]
    · simp [Connection.next, hprops]
  | setRemoteProps props =>
    refine ⟨h.sent, h.got, h.knows, ?_⟩
    intro props' hprops
    obtain rfl := Option.some.inj hprops
    exact hD
  | undefined => exact r.elim

/-! ## The discipline -/

abbrev Meets (o : ByteOrder) (side : Side) (a : CmConData) (len : BitVec 64) (W : World) (n : Nat)
    {α : Type} (p : Connecting α) (Q : α → State → Prop) (s : State) : Prop :=
  wp bodies (semantics W) (duties o side a len W) n p Q s

/-- An error: nothing is known of the peer, and the world is not reliable. -/
def Failed (W : World) (s : State) : Prop := s.remoteProps = none ∧ ¬ W.Reliable

theorem not_reliable {op : Op} {r : Response op} (hr : W op r) (h : ¬ op.Succeeds r) :
    ¬ W.Reliable := fun hW => h (hW op r hr)

theorem meets_ask {α : Type} {op : Op} {f : Response op → Connecting α} {Q : α → State → Prop}
    {s : State} (hD : Duty o side a len W op s)
    (h : ∀ r, Possible op s r → W op r → Meets o side a len W n (f r) Q (next op s r)) :
    Meets o side a len W n (ask op >>= f) Q s :=
  wp.op hD fun r hr => h r hr.1 hr.2

/-- The length is written in as many pieces as the stream takes. -/
theorem writeLoop_spec {written : Nat} :
    Meets o .client a len W n (writeLoop (lengthBytes o len) written)
      (fun rc t => rc = 0 ∧ t = ⟨len, none, lengthBytes o len, [], false⟩ ∨
        rc ≠ 0 ∧ Failed W t)
      ⟨len, none, (lengthBytes o len).take written, [], false⟩ := by
  refine wp.recursion (D := duties o .client a len W)
    (fun w : Nat => Call.writeLoop (lengthBytes o len) w)
    (fun w s => s = ⟨len, none, (lengthBytes o len).take w, [], false⟩)
    (fun _ _ (rc : Int) t => rc = 0 ∧ t = ⟨len, none, lengthBytes o len, [], false⟩ ∨
      rc ≠ 0 ∧ Failed W t) (fun _ _ _ => trivial) ?_ n written _ rfl
  rintro n ih w _ rfl
  simp only [bodies, writeLoopBody]
  split
  case isFalse hw => exact wp.done (.inl ⟨rfl, by rw [List.take_of_length_le (by omega)]⟩)
  case isTrue hw =>
    refine meets_ask ⟨by simpa using hw, rfl, ?_, rfl⟩ ?_
    · rw [List.take_append_drop]
      exact List.prefix_append _ _
    · rintro (_ | k) - hWr
      · exact wp.done (.inr ⟨by decide, rfl, not_reliable hWr id⟩)
      · refine ih (w + k) _ ?_
        simp only [next, List.take_add]

/-- Reading `size` bytes is allowed: they lie before the record of the peer, or they are its
last ones and everything was said. -/
def Reads (o : ByteOrder) (side : Side) (a : CmConData) (size : Nat) (s : State) : Prop :=
  s.got.length + size ≤ side.skip + cmConDataSize ∧
    (s.Said o side a ∨ s.got.length + size ≤ side.skip)

/-- However the stream splits, the loop reads `size` bytes or fails. -/
theorem readLoop_spec {size : Nat} (got : Bytes) {s : State} (hs : Reads o side a size s)
    (hprops : s.remoteProps = none) (hgot : got.length ≤ size) :
    Meets o side a len W n (readLoop size got)
      (fun r t => r.1 = 0 ∧ r.2.length = size ∧ t = { s with got := s.got ++ r.2 } ∨
        r.1 = -1 ∧ Failed W t)
      { s with got := s.got ++ got } := by
  refine wp.recursion (D := duties o side a len W) (fun got : Bytes => Call.readLoop size got)
    (fun got t => got.length ≤ size ∧ t = { s with got := s.got ++ got })
    (fun _ _ (r : Int × Bytes) t => r.1 = 0 ∧ r.2.length = size ∧
      t = { s with got := s.got ++ r.2 } ∨ r.1 = -1 ∧ Failed W t)
    (fun _ _ _ => trivial) ?_ n got _ ⟨hgot, rfl⟩
  rintro n ih got _ ⟨hgot, rfl⟩
  simp only [bodies, readLoopBody]
  split
  case isFalse hlt => exact wp.done (.inl ⟨rfl, Nat.le_antisymm hgot (not_lt.mp hlt), rfl⟩)
  case isTrue hlt =>
    obtain ⟨hroom, hsaid⟩ := hs
    refine meets_ask ⟨by omega, ?_, hsaid.imp id fun h => ?_⟩ ?_
    · simp only [List.length_append]
      omega
    · simp only [List.length_append]
      omega
    · rintro (bs | _ | _) hr hWr
      · obtain ⟨-, hle⟩ := hr
        refine ih (got ++ bs) _ ⟨?_, ?_⟩
        · simp only [List.length_append]
          omega
        · simp only [next, List.append_assoc]
      · exact wp.done (.inr ⟨rfl, hprops, not_reliable hWr id⟩)
      · exact wp.done (.inr ⟨rfl, hprops, not_reliable hWr id⟩)

/-- The length is across, and the record is still to be written. -/
structure Announced (o : ByteOrder) (side : Side) (a : CmConData) (len : BitVec 64) (s : State) :
    Prop where
  sent : s.sent ++ recordBytes o a s.wrLen = stream o side a s.wrLen
  got : s.got.length = side.skip
  knows : s.Knows o side len
  props : s.remoteProps = none
  closed : s.closed = false

theorem sockAsyncData_spec :
    Meets o side a len W n (sockAsyncData o side)
      (fun rc t => rc = 0 ∧ Announced o side a len t ∨ rc ≠ 0 ∧ Failed W t)
      (initState len side) := by
  cases side with
  | client =>
    refine meets_ask trivial ?_
    rintro _ rfl -
    refine writeLoop_spec.mono ?_
    rintro rc t (⟨rfl, rfl⟩ | hfail)
    · exact .inl ⟨rfl, rfl, rfl, rfl, rfl, rfl⟩
    · exact .inr hfail
  | server =>
    refine meets_ask trivial ?_
    rintro _ rfl -
    rw [if_neg (show ¬ (initState len .server).wrLen ≠ 0 from not_not.mpr rfl)]
    refine meets_ask trivial fun ok _ hWr => ?_
    cases ok with
    | false => exact wp.done (.inr ⟨by decide, rfl, not_reliable hWr Bool.false_ne_true⟩)
    | true =>
      have hreads : Reads o .server a sizeT (initState len .server) :=
        ⟨Nat.le_of_lt (by decide : 0 + sizeT < sizeT + cmConDataSize), .inr (Nat.zero_add _).le⟩
      refine wp.bind (readLoop_spec [] hreads rfl (by decide)) ?_
      rintro ⟨rc, got⟩ _ (⟨rfl, hgot, rfl⟩ | ⟨rfl, hfail⟩)
      · dsimp only at hgot ⊢
        rw [if_neg (not_not.mpr rfl)]
        refine meets_ask ⟨rfl, rfl, rfl, hgot, rfl⟩ fun _ _ _ => wp.done (.inl ⟨rfl, ?_⟩)
        have htake := List.take_of_length_le hgot.le
        exact ⟨rfl, hgot, ⟨hgot.ge, congrArg (o.load sizeT) htake.symm⟩, rfl, rfl⟩
      · exact wp.done (.inr ⟨by decide, hfail⟩)

theorem sockSyncData_spec {s : State} (h : Announced o side a len s) :
    Meets o side a len W n (sockSyncData cmConDataSize (recordBytes o a s.wrLen))
      (fun r t => r.1 = 0 ∧ r.2.length = cmConDataSize ∧
          t = { s with sent := s.sent ++ recordBytes o a s.wrLen, got := s.got ++ r.2 } ∨
        r.1 = -1 ∧ Failed W t) s := by
  have hrecord := length_recordBytes o a s.wrLen
  refine meets_ask ⟨List.ne_nil_of_length_eq_add_one hrecord, h.closed, ?_, h.knows⟩ ?_
  · rw [h.sent]
  rintro (_ | k) hk hWr
  · exact wp.done (.inr ⟨rfl, h.props, not_reliable hWr id⟩)
  · obtain ⟨-, hle⟩ := hk
    change Meets o side a len W n
      (if k < cmConDataSize then pure (-1, []) else readLoop cmConDataSize []) _ _
    by_cases hlt : k < cmConDataSize
    · rw [if_pos hlt]
      refine wp.done (.inr ⟨rfl, h.props, not_reliable hWr ?_⟩)
      rintro (hk | hk)
      · omega
      · exact absurd (hrecord.symm.trans_le hk) (by decide)
    · rw [if_neg hlt]
      simp only [next]
      rw [List.take_of_length_le (by omega)]
      have hreads : Reads o side a cmConDataSize
          { s with sent := s.sent ++ recordBytes o a s.wrLen } :=
        ⟨by rw [h.got], .inl h.sent⟩
      have hloop : Meets o side a len W n (readLoop cmConDataSize []) _ _ :=
        readLoop_spec [] hreads h.props (Nat.zero_le _)
      rwa [List.append_nil] at hloop

theorem exchange_spec {s : State} (h : Announced o side a len s) :
    Meets o side a len W n (exchange o a) (Ended W) s := by
  refine meets_ask trivial ?_
  rintro _ rfl -
  refine wp.bind (sockSyncData_spec h) ?_
  rintro ⟨rc, tmp⟩ t (⟨rfl, htmp, rfl⟩ | ⟨rfl, hfail⟩)
  · dsimp only
    rw [if_neg (by decide)]
    refine meets_ask trivial fun ok _ hWr => ?_
    cases ok with
    | false =>
      refine wp.op ⟨not_reliable hWr Bool.false_ne_true, ?_⟩ fun r _ => r.elim
      simp only [next, List.length_append, h.got, htmp]
    | true =>
      refine meets_ask ⟨h.sent, ?_, ?_⟩ fun _ _ _ => wp.done ⟨?_, fun _ => rfl⟩
      · simp only [next, List.length_append, h.got, htmp]
      · simp only [next, List.drop_left' h.got]
      · simp [next]
  · dsimp only
    rw [if_pos (by decide)]
    refine wp.done ⟨?_, fun hW => absurd hW hfail.2⟩
    simp [hfail.1]

theorem handshake_spec :
    Meets o side a len W n (handshake o side a) (Ended W) (initState len side) := by
  have hestablished : Meets o side a len W n (sockEstablished o side)
      (fun rc t => rc = 0 ∧ Announced o side a len t ∨ rc ≠ 0 ∧ Failed W t)
      (initState len side) := by
    refine wp.bind sockAsyncData_spec ?_
    rintro rc t (⟨rfl, ht⟩ | ⟨hrc, hfail⟩)
    · rw [if_neg (not_not.mpr rfl)]
      exact wp.done (.inl ⟨rfl, ht⟩)
    · rw [if_pos hrc]
      exact meets_ask hfail.2 fun _ _ _ => wp.done (.inr ⟨hrc, hfail⟩)
  refine wp.bind hestablished ?_
  rintro rc t (⟨rfl, ht⟩ | ⟨hrc, hfail⟩)
  · rw [if_neg (not_not.mpr rfl)]
    exact exchange_spec ht
  · rw [if_pos hrc]
    refine wp.done ⟨?_, fun hW => absurd hW hfail.2⟩
    simp [hfail.1]

/-! ## Every handshake ends -/

/-- Anything can happen that the calls allow. -/
def World.any : World := fun _ _ => True

/-- Whatever happens, `p` has ended after `m` steps. -/
def Ends {α : Type} (m : Nat) (p : Connecting α) : Prop :=
  ∀ s, Program.EndsWithin bodies (semantics .any) m p s

theorem Ends.bind {α β : Type} {p : Connecting α} {f : α → Connecting β} {k m : Nat}
    (h : Ends k p) (hf : ∀ b, Ends m (f b)) : Ends (k + m) (p >>= f) :=
  fun s => (h s).bind fun b t => hf b t

theorem ends_pure {α : Type} {m : Nat} (b : α) : Ends m (pure b) := fun _ => .done

theorem ends_ask {op : Op} : Ends 1 (ask op) := fun _ _ _ => .done

theorem ends_ite {α : Type} {m : Nat} {c : Prop} [Decidable c] {p q : Connecting α}
    (hp : c → Ends m p) (hq : ¬ c → Ends m q) : Ends m (if c then p else q) := by
  split
  · exact hp ‹_›
  · exact hq ‹_›

/-- Entering a loop is a step of its own. -/
theorem ends_invoke {c : Call} {m : Nat} (h : Ends m (bodies c)) :
    Ends (m + 1) (Program.invoke (S := signature) c) := fun s => by
  have hbody := h s
  rw [← Program.bind_done (bodies c)] at hbody
  exact hbody

theorem writeLoop_ends {bs : Bytes} (m : Nat) {written : Nat} (h : bs.length - written ≤ m) :
    Ends (2 * m + 1) (writeLoop bs written) := by
  induction m generalizing written with
  | zero => exact ends_invoke (ends_ite (fun hlt => by omega) fun _ => ends_pure _)
  | succ m ih =>
    refine ends_invoke (ends_ite (fun hlt s r hr => ?_) fun _ => ends_pure _)
    cases r with
    | none => exact .done
    | some k => exact ih (by have := hr.1.1; omega) _

theorem readLoop_ends {size : Nat} (m : Nat) {got : Bytes} (h : size - got.length ≤ m) :
    Ends (2 * m + 1) (readLoop size got) := by
  induction m generalizing got with
  | zero => exact ends_invoke (ends_ite (fun hlt => by omega) fun _ => ends_pure _)
  | succ m ih =>
    refine ends_invoke (ends_ite (fun hlt s r hr => ?_) fun _ => ends_pure _)
    cases r with
    | closed | failed => exact .done
    | data bs =>
      have hpos := List.length_pos_iff.mpr hr.1.1
      refine ih ?_ _
      simp only [List.length_append]
      omega

theorem Ends.mono {α : Type} {k m : Nat} {p : Connecting α} (h : Ends k p) (hkm : k ≤ m) :
    Ends m p := fun s => (h s).mono hkm

theorem sockAsyncData_ends : Ends 20 (sockAsyncData o side) := by
  cases side with
  | client =>
    refine Ends.mono (k := 18) (ends_ask.bind (m := 17) fun len => writeLoop_ends 8 ?_) (by decide)
    exact Nat.sub_le_of_le_add (length_lengthBytes o len).le
  | server =>
    refine ends_ask.bind (m := 19) fun (_ : BitVec 64) => ends_ite (fun _ => ends_pure _)
      fun _ => ?_
    refine ends_ask.bind (m := 18) fun _ => ends_ite (fun _ => ends_pure _) fun _ => ?_
    refine (readLoop_ends 8 (by decide)).bind (m := 1) fun r => ?_
    exact ends_ite (fun _ => ends_pure _) fun _ => ends_ask.bind (m := 0) fun _ => ends_pure _

theorem sockEstablished_ends : Ends 21 (sockEstablished o side) :=
  sockAsyncData_ends.bind (m := 1) fun _ =>
    ends_ite (fun _ => ends_ask.bind (m := 0) fun _ => ends_pure _) fun _ => ends_pure _

theorem sockSyncData_ends {bs : Bytes} : Ends 86 (sockSyncData cmConDataSize bs) := by
  refine ends_ask.bind (m := 85) fun r => ?_
  cases r with
  | none => exact ends_pure _
  | some k => exact ends_ite (fun _ => ends_pure _) fun _ => readLoop_ends 42 (by decide)

theorem exchange_ends : Ends 89 (exchange o a) := by
  refine ends_ask.bind (m := 88) fun _ => sockSyncData_ends.bind (m := 2) fun r => ?_
  refine ends_ite (fun _ => ends_pure _) fun _ => ends_ask.bind (m := 1) fun _ => ?_
  exact ends_ite (fun _ _ r _ => r.elim) fun _ => ends_ask.bind (m := 0) fun _ => ends_pure _

theorem handshake_ends : Ends 110 (handshake o side a) :=
  sockEstablished_ends.bind (m := 89) fun _ =>
    ends_ite (fun _ => ends_pure _) fun _ => exchange_ends

end ScpRdma.Connection

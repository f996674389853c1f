import ScpRdma.Foundations.Bytes

/-!
# One direction of a reliable connection

A channel carries the work of one queue pair to its peer. Posted requests wait in the send
queue; the adapter takes them in order, gathering the bytes of a write from the memory of
its owner, and the frames land at the peer in the same order. A write lands in the peer's
memory, a message needs a posted receive and fills its buffer. A landed request is retired
into the owner's completion queue at any later time.

`landed` is history: nothing reads it. `stream` is the whole past and future of the channel,
and no move of the adapter changes it.
-/
namespace ScpRdma.Foundations

inductive Opcode where
  | rdmaWrite
  | send
  | recv
  deriving DecidableEq, Repr

/-- A work completion; `ok` stands for a successful status. -/
structure Wc where
  opcode : Opcode
  ok : Bool
  wrId : Nat
  deriving DecidableEq, Repr

structure Sge where
  addr : Nat
  length : Nat
  deriving DecidableEq, Repr

def gather (m : Memory) (sges : List Sge) : Bytes := sges.flatMap fun e => m.load e.addr e.length

theorem length_gather {m : Memory} {sges : List Sge} :
    (gather m sges).length = (sges.map (·.length)).sum := by
  simp [gather]

theorem gather_congr {m m' : Memory} {sges : List Sge}
    (h : ∀ e ∈ sges, ∀ i, e.addr ≤ i → i < e.addr + e.length → m i = m' i) :
    gather m sges = gather m' sges :=
  List.flatMap_congr fun e he => Memory.load_congr (h e he)

/-- A posted send request: a one-sided write, or a message copied at the time of posting. -/
inductive Wqe (M : Type) where
  | write (sges : List Sge) (remote : Nat)
  | send (msg : M)

/-- What a request becomes when the adapter takes it. -/
inductive Frame (M : Type) where
  | write (remote : Nat) (data : Bytes)
  | send (msg : M)

variable {M : Type}

def Wqe.frame (m : Memory) : Wqe M → Frame M
  | .write sges remote => .write remote (gather m sges)
  | .send msg => .send msg

def Frame.opcode : Frame M → Opcode
  | .write _ _ => .rdmaWrite
  | .send _ => .send

/-- The messages among frames, in order. -/
def messages : List (Frame M) → List M
  | [] => []
  | .write _ _ :: fs => messages fs
  | .send msg :: fs => msg :: messages fs

@[simp] theorem messages_append (fs gs : List (Frame M)) :
    messages (fs ++ gs) = messages fs ++ messages gs := by
  induction fs with
  | nil => rfl
  | cons f fs ih => cases f <;> simp [messages, ih]

/-- The writes among frames, in order. -/
def writes : List (Frame M) → List (Nat × Bytes)
  | [] => []
  | .write remote data :: fs => (remote, data) :: writes fs
  | .send _ :: fs => writes fs

@[simp] theorem writes_append (fs gs : List (Frame M)) :
    writes (fs ++ gs) = writes fs ++ writes gs := by
  induction fs with
  | nil => rfl
  | cons f fs ih => cases f <;> simp [writes, ih]

theorem mem_writes {fs : List (Frame M)} {remote : Nat} {data : Bytes}
    (h : .write remote data ∈ fs) : (remote, data) ∈ writes fs := by
  induction fs with
  | nil => cases h
  | cons f fs ih =>
    cases h with
    | head => exact List.mem_cons_self
    | tail _ h => cases f <;> simp [writes, ih h]

structure Channel (M : Type) where
  sq : List (Wqe M)
  wire : List (Frame M)
  landed : List (Frame M)
  retiring : List Opcode
  rq : List (Nat × Nat)
  bufs : Nat → M

namespace Channel

def empty (blank : M) : Channel M := ⟨[], [], [], [], [], fun _ => blank⟩

def post (ch : Channel M) (w : Wqe M) : Channel M := { ch with sq := ch.sq ++ [w] }

def postRecv (ch : Channel M) (buf wrId : Nat) : Channel M :=
  { ch with rq := ch.rq ++ [(buf, wrId)] }

/-- The messages that have reached the receiving side. -/
def received (ch : Channel M) : List M := messages ch.landed

/-- Every frame of the channel, landed, under way or still to be gathered. -/
def stream (m : Memory) (ch : Channel M) : List (Frame M) :=
  ch.landed ++ ch.wire ++ ch.sq.map (Wqe.frame m)

/-- The adapter takes the oldest request and gathers its bytes. -/
inductive Take (m : Memory) : Channel M → Channel M → Prop where
  | mk {ch w rest} : ch.sq = w :: rest →
      Take m ch { ch with sq := rest, wire := ch.wire ++ [w.frame m] }

/-- What the receiving side sees when a frame lands. -/
inductive Arrival where
  | write (remote : Nat) (data : Bytes)
  | recv (wrId : Nat)

inductive Land : Channel M → Arrival → Channel M → Prop where
  | write {ch remote data rest} : ch.wire = .write remote data :: rest →
      Land ch (.write remote data)
        { ch with
          wire := rest
          landed := ch.landed ++ [.write remote data]
          retiring := ch.retiring ++ [.rdmaWrite] }
  | send {ch msg rest buf wrId rq} : ch.wire = .send msg :: rest → ch.rq = (buf, wrId) :: rq →
      Land ch (.recv wrId)
        { ch with
          wire := rest
          landed := ch.landed ++ [.send msg]
          retiring := ch.retiring ++ [.send]
          rq := rq
          bufs := Function.update ch.bufs buf msg }

/-- The completion of the oldest landed request reaches the completion queue. -/
inductive Retire : Channel M → Wc → Channel M → Prop where
  | mk {ch op rest} : ch.retiring = op :: rest →
      Retire ch ⟨op, true, 0⟩ { ch with retiring := rest }

/-! ## Moves as functions -/

def take? (m : Memory) (ch : Channel M) : Option (Channel M) :=
  match ch.sq with
  | [] => none
  | w :: rest => some { ch with sq := rest, wire := ch.wire ++ [w.frame m] }

def land? (ch : Channel M) : Option (Arrival × Channel M) :=
  match ch.wire, ch.rq with
  | .write remote data :: rest, _ => some (.write remote data, { ch with
      wire := rest
      landed := ch.landed ++ [.write remote data]
      retiring := ch.retiring ++ [.rdmaWrite] })
  | .send msg :: rest, (buf, wrId) :: rq => some (.recv wrId, { ch with
      wire := rest
      landed := ch.landed ++ [.send msg]
      retiring := ch.retiring ++ [.send]
      rq := rq
      bufs := Function.update ch.bufs buf msg })
  | _, _ => none

def retire? (ch : Channel M) : Option (Wc × Channel M) :=
  match ch.retiring with
  | [] => none
  | op :: rest => some (⟨op, true, 0⟩, { ch with retiring := rest })

variable {ch ch' : Channel M} {m : Memory}

theorem take_of_take? (h : ch.take? m = some ch') : Take m ch ch' := by
  unfold take? at h
  split at h
  · cases h
  · rename_i hsq
    cases h
    exact .mk hsq

theorem land_of_land? {a : Arrival} (h : ch.land? = some (a, ch')) : Land ch a ch' := by
  unfold land? at h
  split at h
  · cases h
    exact .write ‹_›
  · cases h
    exact .send ‹_› ‹_›
  · cases h

theorem retire_of_retire? {wc : Wc} (h : ch.retire? = some (wc, ch')) : Retire ch wc ch' := by
  unfold retire? at h
  split at h
  · cases h
  · rename_i hretiring
    cases h
    exact .mk hretiring

theorem Take.stream (h : Take m ch ch') : ch'.stream m = ch.stream m := by
  cases h with
  | mk hsq => simp [Channel.stream, hsq]

theorem Land.stream {a : Arrival} (h : Land ch a ch') : ch'.stream m = ch.stream m := by
  cases h with
  | write hw => simp [Channel.stream, hw]
  | send hw _ => simp [Channel.stream, hw]

theorem Retire.stream {c : Wc} (h : Retire ch c ch') : ch'.stream m = ch.stream m := by
  cases h with
  | mk => rfl

@[simp] theorem stream_post (w : Wqe M) : (ch.post w).stream m = ch.stream m ++ [w.frame m] := by
  simp [stream, post]

/-- Memory that no waiting write reads may change under the channel. -/
theorem stream_congr {m' : Memory}
    (h : ∀ sges remote, .write sges remote ∈ ch.sq → gather m sges = gather m' sges) :
    ch.stream m = ch.stream m' := by
  have : ch.sq.map (Wqe.frame m) = ch.sq.map (Wqe.frame m') := by
    refine List.map_congr_left fun w hw => ?_
    cases w with
    | write sges remote => simp only [Wqe.frame, h sges remote hw]
    | send msg => rfl
  simp only [stream, this]

/-- What is retiring are the requests that landed last. -/
def Orderly (ch : Channel M) : Prop := ch.retiring <:+ ch.landed.map Frame.opcode

theorem Orderly.of_eq (h : ch.Orderly) (hr : ch'.retiring = ch.retiring)
    (hl : ch'.landed = ch.landed) : ch'.Orderly := by
  rw [Orderly, hr, hl]
  exact h

theorem Orderly.take (h : ch.Orderly) (ht : Take m ch ch') : ch'.Orderly := by
  cases ht with
  | mk => exact h

theorem Orderly.land {a : Arrival} (h : ch.Orderly) (hl : Land ch a ch') : ch'.Orderly := by
  obtain ⟨retired, h⟩ := h
  cases hl with
  | write => exact ⟨retired, by simp [← h, Frame.opcode]⟩
  | send => exact ⟨retired, by simp [← h, Frame.opcode]⟩

theorem Orderly.retire {c : Wc} (h : ch.Orderly) (hr : Retire ch c ch') : ch'.Orderly := by
  obtain ⟨hretiring⟩ := hr
  exact (hretiring ▸ List.suffix_cons _ _).trans h

theorem Orderly.ne_recv {op : Opcode} (h : ch.Orderly) (hop : op ∈ ch.retiring) :
    op ≠ .recv := by
  obtain ⟨f, -, rfl⟩ := List.mem_map.mp (h.subset hop)
  cases f <;> simp [Frame.opcode]

/-- The buffers of the receiving side form a ring of `n`: the `k`-th posted receive, of
`posted` so far, uses buffer `k % n`. The last `n` messages are still in their buffers. -/
structure Ring (n : Nat) (ch : Channel M) (posted : Nat) : Prop where
  bound : ch.received.length ≤ posted
  queue : ch.rq.map Prod.fst =
    (List.range' ch.received.length (posted - ch.received.length)).map (· % n)
  kept : ∀ i, i < ch.received.length → ch.received.length ≤ i + n →
    ch.received[i]? = some (ch.bufs (i % n))

theorem Ring.init (n : Nat) (blank : M) : Ring n (empty blank) 0 :=
  ⟨le_rfl, rfl, fun _ h => absurd h (Nat.not_lt_zero _)⟩

theorem Ring.postRecv {n posted wrId : Nat} (h : Ring n ch posted) :
    Ring n (ch.postRecv (posted % n) wrId) (posted + 1) := by
  have hb := h.bound
  have hq : posted + 1 - ch.received.length = posted - ch.received.length + 1 := by omega
  have hk : ch.received.length + (posted - ch.received.length) = posted := by omega
  refine ⟨Nat.le_succ_of_le hb, ?_, h.kept⟩
  change (ch.rq ++ [(posted % n, wrId)]).map Prod.fst =
    (List.range' ch.received.length (posted + 1 - ch.received.length)).map (· % n)
  rw [hq, List.range'_1_concat, hk]
  simp [h.queue]

/-- A landing message fills the next buffer of the ring and spares the last `n - 1`. -/
theorem Ring.land {n posted : Nat} {a : Arrival} (h : Ring n ch posted) (hl : Land ch a ch') :
    Ring n ch' posted := by
  cases hl with
  | write _ =>
    exact ⟨by simpa [received, messages] using h.bound,
      by simpa [received, messages] using h.queue,
      by simpa [received, messages] using h.kept⟩
  | @send msg rest buf wrId rq _ hrq =>
    have hb := h.bound
    have hq := h.queue
    rw [hrq, List.map_cons] at hq
    obtain ⟨k, hk⟩ : ∃ k, posted - ch.received.length = k + 1 := by
      rcases Nat.eq_zero_or_pos (posted - ch.received.length) with hz | hp
      · simp [hz] at hq
      · exact ⟨_, (Nat.succ_pred_eq_of_pos hp).symm⟩
    rw [hk, List.range'_succ, List.map_cons, List.cons.injEq] at hq
    obtain ⟨hbuf, hrest⟩ := hq
    have hrec : ∀ w q r c b, Channel.received ⟨q, w, ch.landed ++ [.send msg], r, c, b⟩ =
        ch.received ++ [msg] := by
      intros; simp [received, messages]
    have hk' : posted - (ch.received.length + 1) = k := by omega
    refine ⟨?_, ?_, ?_⟩
    · simp only [hrec, List.length_append, List.length_singleton]; omega
    · simp only [hrec, List.length_append, List.length_singleton]
      rw [hk']; exact hrest
    · intro i hi hin
      simp only [hrec, List.length_append, List.length_singleton] at hi hin ⊢
      change buf = ch.received.length % n at hbuf
      by_cases hlast : i = ch.received.length
      · subst hlast hbuf; simp
      · have hi' : i < ch.received.length := by omega
        have hne : i % n ≠ buf := by
          rw [hbuf]
          intro heq
          have hd : n ∣ ch.received.length - i := (Nat.modEq_iff_dvd' (by omega)).mp heq
          have := Nat.le_of_dvd (by omega) hd
          omega
        rw [List.getElem?_append_left hi', Function.update_of_ne hne]
        exact h.kept i hi' (by omega)

theorem Ring.of_eq {n posted : Nat} (h : Ring n ch posted) (hl : ch'.landed = ch.landed)
    (hq : ch'.rq = ch.rq) (hb : ch'.bufs = ch.bufs) : Ring n ch' posted := by
  obtain ⟨h1, h2, h3⟩ := h
  exact ⟨by simpa [received, hl] using h1, by simpa [received, hl, hq] using h2,
    by simpa [received, hl, hb] using h3⟩

/-- A receive is left for the next message as long as fewer have come than were posted. -/
theorem Ring.rq_ne_nil {n posted : Nat} (h : Ring n ch posted)
    (hlt : ch.received.length < posted) : ch.rq ≠ [] := by
  intro hnil
  have := congrArg List.length h.queue
  simp [hnil] at this
  omega

theorem Ring.length_rq {n posted : Nat} (h : Ring n ch posted) :
    ch.rq.length = posted - ch.received.length := by
  simpa using congrArg List.length h.queue

end Channel

end ScpRdma.Foundations

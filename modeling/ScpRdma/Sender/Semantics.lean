import ScpRdma.Sender.Program

/-!
# What the sender's operations do

The state of the sender is its context, its half of the session buffer and a ledger: history
that the code does not keep but the proofs speak about. A world `W` says which responses the
surroundings may give; with `W` always true every system call and verb may fail, and an
acknowledgement may say anything.

`Duty` is the discipline that makes the four-slot pipeline safe: what must hold whenever the
sender asks for an operation. It is proved of the program in `Sender.Discipline`, for every
world.
-/
namespace ScpRdma.Sender
open Foundations

/-- A packet that was announced: its slot and the bytes its write gathered when posted. -/
structure Announced where
  slot : Slot
  bytes : Bytes

/-- Whether a write is posted whose packet is not announced yet. -/
inductive Phase where
  | idle
  | written (s : Slot) (bytes : Bytes)

/-- Receives posted, receive completions polled and consumed; the packets announced and the
slots whose ACK was not consumed yet, oldest first; whether no write completion was polled
since the last write was posted. -/
structure Ledger where
  posted : Nat
  polled : Nat
  handled : Nat
  unacked : List Slot
  phase : Phase
  writePending : Bool
  sent : List Announced

structure State where
  ctx : Ctx
  mem : Memory
  qp : QpState
  ledger : Ledger

/-- The slot a remote offset lies in. -/
def slotAt (remote : Nat) : Slot := ⟨remote / scpCombinedChunkSize % 4, by omega⟩

@[simp] theorem slotAt_slotBase (s : Slot) : slotAt (slotBase s) = s := by
  apply Fin.ext
  simp only [slotAt, slotBase, scpCombinedChunkSize_eq]
  omega

/-- The receive completions of a batch that are handled. -/
def recvCount (wcs : List Wc) : Nat := wcs.countP fun wc => wc.ok && wc.opcode = .recv

/-- Whether a batch reports a finished write. -/
def hasWrite (wcs : List Wc) : Bool := wcs.any fun wc => wc.ok && wc.opcode = .rdmaWrite

def Ledger.announce (l : Ledger) : Ledger :=
  match l.phase with
  | .idle => l
  | .written s bytes => { l with
      unacked := l.unacked ++ [s]
      phase := .idle
      sent := l.sent ++ [⟨s, bytes⟩] }

theorem Ledger.announce_written {l : Ledger} {s : Slot} {bytes : Bytes}
    (h : l.phase = .written s bytes) : l.announce =
      { l with unacked := l.unacked ++ [s], phase := .idle, sent := l.sent ++ [⟨s, bytes⟩] } := by
  rw [announce, h]

def Ledger.consume (l : Ledger) (msg : Cdc) : Ledger := { l with
  handled := l.handled + 1
  unacked := match msg.slot? with
    | some s => l.unacked.erase s
    | none => l.unacked }

/-- The effect of each operation, given its response. -/
def next : (o : Op) → State → Response o → State
  | .update u, st, _ => { st with ctx := u.apply st.ctx }
  | .store addr bs, st, _ => { st with mem := st.mem.store addr bs }
  | .pread _ addr _ _, st, some data => { st with mem := st.mem.store addr data }
  | .modifyQp qp, st, true => { st with qp := qp }
  | .postRecv _ _, st, true =>
    { st with ledger := { st.ledger with posted := st.ledger.posted + 1 } }
  | .postWrite sges _ remote, st, true => { st with
      ledger := { st.ledger with
        phase := .written (slotAt remote) (gather st.mem sges)
        writePending := true } }
  | .postSend _, st, true => { st with ledger := st.ledger.announce }
  | .waitCompletion _ _ _, st, some wcs => { st with
      ledger := { st.ledger with
        polled := st.ledger.polled + recvCount wcs
        writePending := st.ledger.writePending && !hasWrite wcs } }
  | .readCdc _, st, msg => { st with ledger := st.ledger.consume msg }
  | .transDestroy, st, _ => { st with qp := .reset }
  | _, st, _ => st

/-- What every world respects: the context is read back as it is, sizes and batches keep
their limits, and `st_size` fits `off_t`. -/
def Possible : (o : Op) → State → Response o → Prop
  | .get, st, c => c = st.ctx
  | .currentSlot, st, s => s = st.ctx.currentSlot
  | .stat _, _, some s | .lstat _, _, some s => s.size < 2 ^ 63
  | .pread _ _ len _, _, some data => data.length ≤ len
  | .readlink _ size, _, some target => target.length ≤ size
  | .queryQp, st, some qp => qp = st.qp
  | .waitCompletion _ maxWc _, _, some wcs => wcs.length ≤ maxWc
  | _, _, _ => True

/-- The responses the surroundings give. -/
abbrev World := (o : Op) → Response o → Prop

/-- Everything can happen. -/
def World.any : World := fun _ _ => True

def semantics (W : World) : Semantics signature State where
  allow o st r := Possible o st r ∧ W o r
  next := next

/-- The range lies in a slot that nobody else uses, and no write waits to be announced. -/
def MayFill (st : State) (addr len : Nat) : Prop :=
  st.ledger.phase = .idle ∧ ∃ s, InSlot s addr len ∧ s ∉ st.ledger.unacked

/-- The first `n` slots of the rotation 0, 1, 2, 3, 0. -/
def rotation (n : Nat) : List Slot := (List.range n).map (Fin.ofNat 4)

theorem rotation_succ (n : Nat) : rotation (n + 1) = rotation n ++ [Fin.ofNat 4 n] := by
  simp [rotation, List.range_succ]

theorem ofNat_add_one (n : Nat) : (Fin.ofNat 4 n : Slot) + 1 = Fin.ofNat 4 (n + 1) := by
  ext
  simp [Fin.val_add]

/-- The packets announced last went round from slot 0 to the one before the current slot, and
those before them are acknowledged. -/
def GoesRound (st : State) : Prop :=
  ∃ before n, st.ledger.sent.map Announced.slot = before ++ rotation n ∧
    before.length ≤ st.ledger.handled ∧ st.ctx.currentSlot = Fin.ofNat 4 n

/-- The context's account of the packets that are not acknowledged yet. -/
structure Booked (st : State) : Prop where
  free : ∀ s, st.ctx.slotFree s = true ↔ s ∉ st.ledger.unacked
  nodup : st.ledger.unacked.Nodup
  pending : st.ctx.pendingAcks = st.ledger.unacked.length

/-- Slot `s` is the next of the rotation, or no other is waited for. -/
def Turn (s : Slot) (st : State) : Prop :=
  GoesRound st ∧ s = st.ctx.currentSlot ∨ st.ledger.unacked ⊆ [s]

/-- What each polling loop waits for is still to come. -/
def WaitsFor (st : State) : Site → Prop
  | .waitForSlot s => s ∈ st.ledger.unacked ∧ Turn s st ∧ Booked st
  | .drainPendingAcks => st.ledger.unacked ≠ []
  | .waitForRdmaWriteCompletion => st.ledger.writePending = true
  | .chunkLoop => True

/-- `wr_len` counts the bytes of the write; the first one of a session went through the set-up,
which has left its own length there. -/
def HasLength (st : State) (sges : List Sge) (wrLen : Nat) : Prop :=
  wrLen = (sges.map Sge.length).sum ∨ wrLen = scpMultiBufferTotalSize ∧ st.ledger.sent = []

def Duty : Op → State → Prop
  | .currentSlot, st => GoesRound st ∧ Booked st
  | .update (.freeSlot s), st => st.ctx.slotFree s = false
  | .update (.busySlot s), st => st.ctx.slotFree s = true
  | .update .restart, st =>
    (∀ s, st.ctx.slotFree s = true) ∧ st.ctx.pendingAcks = 0 ∧ st.ledger.unacked = []
  | .store addr bs, st => MayFill st addr bs.length
  | .pread _ addr len _, st => MayFill st addr len
  | .modifyQp .rtr, st => 1 ≤ st.ledger.posted
  | .postRecv buf _, st =>
    buf = st.ledger.posted % rdmaCdcRecvSlots ∧
      st.ledger.posted ≤ st.ledger.handled + dualBufferSlots
  | .postWrite sges wrLen remote, st =>
    st.ledger.phase = .idle ∧ HasLength st sges wrLen ∧
      ∃ s, remote = slotBase s ∧ s ∉ st.ledger.unacked ∧
      (∀ e ∈ sges, InSlot s e.addr e.length) ∧
      ∃ p : Packet, p.Fits ∧ gather st.mem sges = p.encode
  | .postSend msg, st =>
    ∃ s bytes, st.ledger.phase = .written s bytes ∧ msg = Cdc.dataReady s ∧
      s ∉ st.ledger.unacked ∧ st.ledger.sent.length + 2 ≤ st.ledger.posted ∧
      (st.ledger.sent = [] ∨ 1 ≤ st.ledger.handled)
  | .waitCompletion site _ _, st =>
    st.ledger.polled = st.ledger.handled ∧ WaitsFor st site
  | .progress offset fileSize, _ => offset ≤ fileSize
  | .readCdc buf, st =>
    buf = st.ledger.handled % rdmaCdcRecvSlots ∧ st.ledger.handled < st.ledger.polled
  | _, _ => True

/-- The duties of the sender; its procedures may be called in any state. -/
def duties : Duties signature State := ⟨Duty, fun _ _ => True⟩

/-- The context after `scp_rdma_init`: all four slots free, no session yet. -/
def initCtx : Ctx where
  sessionEstablished := false
  sessionSge := ⟨0, scpMultiBufferTotalSize⟩
  slotFree _ := true
  currentSlot := 0
  pendingAcks := 0
  totalBytes := 0
  totalFiles := 0
  totalDirs := 0
  totalSymlinks := 0
  cdcRecvSlots := 0
  cdcRecvPostIdx := 0
  cdcRecvConsIdx := 0

def initState : State where
  ctx := initCtx
  mem := fun _ => 0
  qp := .reset
  ledger := ⟨0, 0, 0, [], .idle, false, []⟩

end ScpRdma.Sender

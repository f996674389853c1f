import ScpRdma.Receiver.Program

/-!
# What the receiver's operations do

The state of the receiver is its context, its queue pair, the files and a ledger of what it
posted, polled, decoded and acknowledged. The files follow any semantics of the file calls,
and a world `W` says which other responses the surroundings may give.

`World.feed` is the world in which a peer announces given packets, one after the other, and
each is read as it was encoded. `Duty` is what must hold there whenever the receiver asks for
an operation; it is proved of the program in `Receiver.Discipline`.
-/
namespace ScpRdma.Receiver
open Foundations

/-- A packet that was decoded: its slot and the ranges that were read, with what they held. -/
structure Decoded where
  slotId : UInt8
  loads : List (Nat × Bytes)

/-- Receives posted, receive completions polled; the packets acknowledged and the one in hand. -/
structure Ledger where
  posted : Nat
  polled : Nat
  acked : List Decoded
  current : Option Decoded

structure State (F : Type) where
  ctx : Ctx
  qp : QpState
  os : F
  ledger : Ledger

variable {F : Type}

/-- Read `bs` at `off` for the packet in hand. -/
def Ledger.read (l : Ledger) (off : Nat) (bs : Bytes) : Ledger := { l with
  current := l.current.map fun d => { d with loads := d.loads ++ [(off, bs)] } }

/-- Read a string and the NUL behind it. -/
def Ledger.readCString (l : Ledger) (off : Nat) (text : Bytes) : Ledger :=
  l.read off (text ++ [0])

/-- Take the packet of `msg` in hand, unless there is one. -/
def Ledger.receive (l : Ledger) (msg : Cdc) : Ledger :=
  match l.current with
  | none => { l with current := some ⟨msg.slotId, []⟩ }
  | some _ => l

def Ledger.acknowledge (l : Ledger) : Ledger := { l with
  acked := l.acked ++ l.current.toList
  current := none }

/-- The effect of each operation, given its response. -/
def next (M : Semantics fileSignature F) : (o : Op) → State F → Response o → State F
  | .update u, s, _ => { s with ctx := u.apply s.ctx }
  | .file o, s, r => { s with os := M.next o s.os r }
  | .load off _, s, bs => { s with ledger := s.ledger.read off bs }
  | .loadCString off, s, bs => { s with ledger := s.ledger.readCString off bs }
  | .modifyQp qp, s, true => { s with qp := qp }
  | .postRecv _ _, s, true => { s with ledger := { s.ledger with posted := s.ledger.posted + 1 } }
  | .postSend _, s, true => { s with ledger := s.ledger.acknowledge }
  | .pollCq, s, some (some ⟨.recv, true, _⟩) =>
    { s with ledger := { s.ledger with polled := s.ledger.polled + 1 } }
  | .readCdc _, s, msg => { s with ledger := s.ledger.receive msg }
  | .transDestroy, s, _ => { s with qp := .reset }
  | _, s, _ => s

/-- What every world respects: the context is read back as it is, a read has its length, a C
string holds no NUL, and the files follow their semantics. -/
def Possible (M : Semantics fileSignature F) : (o : Op) → State F → Response o → Prop
  | .get, s, c => c = s.ctx
  | .file o, s, r => M.allow o s.os r
  | .load _ len, _, bs => bs.length = len
  | .loadCString _, _, bs => NoNul bs
  | .queryQp, s, some qp => qp = s.qp
  | _, _, _ => True

/-- The responses the surroundings give. -/
abbrev World (F : Type) := (o : Op) → State F → Response o → Prop

def semantics (M : Semantics fileSignature F) (W : World F) : Semantics signature (State F) where
  allow o s r := Possible M o s r ∧ W o s r
  next := next M

/-- Packet `acked.length` of the feed is announced when none is in hand, and its bytes stand at
the start of its slot. -/
def World.feed (pkts : Feed) : World F
  | .readCdc _, s, msg => s.ledger.current = none →
    msg.slotId = UInt8.ofNat (pkts s.ledger.acked.length).1.val
  | .load off len, s, bs =>
    ∀ i, off = slotBase (pkts s.ledger.acked.length).1 + i →
      i + len ≤ (pkts s.ledger.acked.length).2.encode.length →
      bs = field (pkts s.ledger.acked.length).2.encode i len
  | .loadCString off, s, bs =>
    ∀ i, off = slotBase (pkts s.ledger.acked.length).1 + i →
      0 ∈ (pkts s.ledger.acked.length).2.encode.drop i →
      bs = cString ((pkts s.ledger.acked.length).2.encode.drop i)
  | _, _, _ => True

section Duties

variable (M : Semantics fileSignature F) (pkts : Feed) (outputDir : Option Path) (os : F)

/-- Every read stays in the packet in hand, the ring of receives is filled in order and one
window ahead, and an acknowledgement follows the handling of its packet. -/
def Duty : Op → State F → Prop
  | .file _, s => s.ledger.current = none → s.ledger.acked = []
  | .load off len, s => s.ledger.current ≠ none ∧
    ∃ i, off = slotBase (pkts s.ledger.acked.length).1 + i ∧
      i + len ≤ (pkts s.ledger.acked.length).2.encode.length
  | .loadCString off, s => s.ledger.current ≠ none ∧
    ∃ i, off = slotBase (pkts s.ledger.acked.length).1 + i ∧
      0 ∈ (pkts s.ledger.acked.length).2.encode.drop i
  | .modifyQp .rtr, s | .modifyQp .rts, s => 1 ≤ s.ledger.posted
  | .postRecv buf _, s => buf = s.ledger.posted % rdmaCdcRecvSlots ∧
    s.ledger.posted ≤ s.ledger.acked.length + rdmaCdcRecvSlots ∧
    s.ledger.posted < s.ledger.polled + rdmaCdcRecvSlots
  | .pollCq, s => s.ledger.current = none ∧ s.ledger.polled = s.ledger.acked.length ∧
    s.ledger.posted = s.ledger.acked.length + rdmaCdcRecvSlots
  | .readCdc buf, s => buf = s.ledger.acked.length % rdmaCdcRecvSlots ∧
    (s.ledger.current = none → s.ledger.polled = s.ledger.acked.length + 1 ∧
      s.ledger.posted = s.ledger.acked.length + rdmaCdcRecvSlots)
  | .postSend msg, s => (∃ d, s.ledger.current = some d ∧ msg.slotId = d.slotId) ∧
    s.ledger.acked.length + rdmaCdcRecvSlots ≤ s.ledger.posted ∧
    ∃ v, Served M pkts outputDir os (s.ledger.acked.length + 1) v s.os
  | .undefined .slotOverflow, _ => False
  | _, _ => True

/-- The credits are the posted receives that were not polled, once the window is built. -/
def CallDuty : Call → State F → Prop
  | .receiveLoop _, s => s.ctx.sessionEstablished = true →
    s.ctx.localCredits = (s.ledger.posted : Int) - s.ledger.polled
  | .cdcCompletion, s => s.ctx.localCredits = (s.ledger.posted : Int) - s.ledger.polled

def duties : Duties signature (State F) := ⟨Duty M pkts outputDir os, CallDuty⟩

end Duties

/-- A receiver that has not run yet: `scp_rdma_init` has created the queue pair. -/
def initState (os : F) : State F where
  ctx := {
    sessionEstablished := false
    isAlive := true
    metaType := FileType.regular.byte
    localCredits := 0
    totalBytes := 0
    totalFiles := 0
    totalDirs := 0
    totalSymlinks := 0
    cdcRecvSlots := 0
    cdcRecvPostIdx := 0
    cdcRecvConsIdx := 0 }
  qp := .reset
  os := os
  ledger := ⟨0, 0, [], none⟩

end ScpRdma.Receiver

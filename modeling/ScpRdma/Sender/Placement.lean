import ScpRdma.Sender.Completeness
import Mathlib.Order.CompletePartialOrder

/-!
# Where the writes go

Every write gathers one packet from one slot of the session buffer, goes to the same slot of the
peer's buffer, and is announced for that slot.
-/
namespace ScpRdma
open Foundations

/-- `payload_len` of the header. -/
def payloadLen (bs : Bytes) : Nat := leNat (field bs 8 4)

theorem payloadLen_header {cmd : CmdType} {n : Nat} {rest : Bytes} (h : n < 2 ^ 32) :
    payloadLen (scpInitPacketHeader cmd n ++ rest) = n := by
  have hfield : field (scpInitPacketHeader cmd n ++ rest) 8 4 = leBytes 4 n := by
    simp [field, scpInitPacketHeader, leBytes]
  rw [payloadLen, hfield]
  exact leNat_leBytes_of_lt h

/-- A packet is its header and `payload_len` bytes. -/
theorem Packet.length_eq_payloadLen {p : Packet} (h : p.Fits) :
    p.encode.length = packetHeaderSize + payloadLen p.encode := by
  rw [p.length_encode]
  cases p with
  | fileData i off payload =>
    obtain ⟨-, -, hlen⟩ := h
    rw [scpChunkSize_eq] at hlen
    simp only [encode, dataChunkHeader, List.append_assoc]
    rw [payloadLen_header (by simp [dataChunkSize, packetHeaderSize]; omega)]
    simp only [dataChunkSize, packetHeaderSize]
    omega
  | dirLeave =>
    have hzero := @payloadLen_header .dirLeave 0 [] (by decide)
    rw [List.append_nil] at hzero
    exact congrArg (packetHeaderSize + ·) hzero.symm
  | _ =>
    simp only [encode, List.append_assoc]
    rw [payloadLen_header (by decide)]
    rfl

/-- The bytes of a slot. -/
def slotRange (s : Slot) : Set Nat := Set.Ico (slotBase s) (slotBase s + scpCombinedChunkSize)

theorem slotRange_disjoint {s t : Slot} (h : s ≠ t) : Disjoint (slotRange s) (slotRange t) := by
  refine Set.disjoint_left.mpr fun i hs ht => ?_
  have hins : InSlot s i 1 := ⟨hs.1, hs.2⟩
  have hint : InSlot t i 1 := ⟨ht.1, ht.2⟩
  rcases hins.disjoint hint h with hlt | hlt <;> omega

theorem InSlot.le_total {s : Slot} {off len : Nat} (h : InSlot s off len) :
    off + len ≤ scpMultiBufferTotalSize := by
  have hs : s.val ≤ 3 := by omega
  have hend := h.2
  simp only [slotBase, scpCombinedChunkSize_eq, scpMultiBufferTotalSize_eq] at *
  omega

namespace Sender

/-- The bytes that a list of entries names. -/
def sgeBytes (sges : List Sge) : Nat := (sges.map Sge.length).sum

/-- The write of one packet from slot `s` to slot `s`. -/
structure Placed (s : Slot) (st : State) (sges : List Sge) (remote : Nat) : Prop where
  entries : ∀ e ∈ sges, InSlot s e.addr e.length ∧ e.addr + e.length ≤ scpMultiBufferTotalSize
  payload : sgeBytes sges = packetHeaderSize + payloadLen (gather st.mem sges)
  remote : InSlot s remote (sgeBytes sges) ∧ remote + sgeBytes sges ≤ scpMultiBufferTotalSize

/-- The packet is announced. -/
def Announces : Op → Prop
  | .postSend _ => True
  | _ => False

variable {cfg : Config} {W : World} {l r : Path} {st : State} {sges : List Sge} {wrLen remote : Nat}

theorem placed_of_duty (h : Duty (.postWrite sges wrLen remote) st) :
    Placed (slotAt remote) st sges remote := by
  obtain ⟨-, -, s, rfl, -, hin, p, hfit, hp⟩ := h
  have hlen : sgeBytes sges = p.encode.length := by rw [← hp, length_gather]; rfl
  have hremote : InSlot s (slotBase s) (sgeBytes sges) :=
    inSlot_start (hlen ▸ Packet.length_encode_le hfit)
  rw [slotAt_slotBase]
  refine ⟨fun e he => ⟨hin e he, (hin e he).le_total⟩, ?_, hremote, hremote.le_total⟩
  rw [hlen, hp]
  exact Packet.length_eq_payloadLen hfit

/-- Until a packet is announced its write is the last one. -/
theorem next_written {o : Op} {x : Response o} {s : Slot} {bytes : Bytes}
    (h : st.ledger.phase = .written s bytes) (hD : Duty o st) (ho : ¬ Announces o) :
    (next o st x).ledger.phase = .written s bytes := by
  cases o with
  | postSend msg => exact absurd trivial ho
  | postWrite sges wrLen remote =>
    have hidle := hD.1
    rw [h] at hidle
    cases hidle
  | undefined => nomatch x
  | pread | modifyQp | postRecv | waitCompletion => cases x <;> exact h
  | _ => exact h

/-- In every run each write gathers one packet from one slot, goes to the same slot of the peer,
and is announced for that slot. Its `wr_len` is what it gathers, but for the first write of the
session, whose request went through the set-up. -/
theorem write_placed (cfg : Config) (W : World) (l r : Path) :
    ((scpSenderRun cfg l r).system (bodies cfg) (semantics W) initState).Invariant (fun c =>
      ∀ sges wrLen remote k, c.1 = .op (.postWrite sges wrLen remote) k → ∃ s,
        Placed s c.2 sges remote ∧
        (wrLen = sgeBytes sges ∨ wrLen = scpMultiBufferTotalSize ∧ c.2.ledger.sent = []) ∧
        ((semantics W).allow (.postWrite sges wrLen remote) c.2 true →
          ((k true).system (bodies cfg) ((semantics W).upTo Announces)
            (next (.postWrite sges wrLen remote) c.2 true)).Invariant fun d =>
              ∀ msg k', d.1 = .op (.postSend msg) k' → msg = Cdc.dataReady s)) ∧
    ∀ s t, s ≠ t → Disjoint (slotRange s) (slotRange t) := by
  refine ⟨?_, fun s t => slotRange_disjoint⟩
  rintro ⟨_, st⟩ hc sges wrLen remote k rfl
  have hv : Verified (bodies cfg) (semantics W) duties (.op (.postWrite sges wrLen remote) k)
      (Ends (Finished cfg W l r initState)) st := (verified cfg W l r).runs _ hc
  refine ⟨slotAt remote, placed_of_duty hv.duty, hv.duty.2.1, ?_⟩
  rintro hok ⟨_, st'⟩ hd msg k' rfl
  obtain ⟨hv', hphase⟩ := Verified.keeps_upTo (hv.response true hok)
    (I := fun t => t.ledger.phase = .written (slotAt remote) (gather st.mem sges)) rfl
    (fun _ _ _ h hD ho => next_written h hD ho) _ hd
  obtain ⟨s, bytes, hs, rfl, -⟩ := Verified.duty hv'
  obtain ⟨rfl, -⟩ := Phase.written.inj (hphase.symm.trans hs)
  rfl

/-! ## The first write of a session -/

/-- The write that a program is about to post. -/
def posting : Sender Int → Option (List Sge × Nat)
  | .op (.postWrite sges wrLen _) _ => some (sges, wrLen)
  | _ => none

theorem eq_of_posting {p : Sender Int} {sges : List Sge} {wrLen : Nat}
    (h : posting p = some (sges, wrLen)) :
    ∃ remote k, p = .op (.postWrite sges wrLen remote) k := by
  unfold posting at h
  split at h
  · cases h
    exact ⟨_, _, rfl⟩
  · cases h

/-- The run that sends a file of ten bytes, where it is about to post the record of the file. -/
def atFirstWrite : Sender Int × State :=
  Program.exec (bodies ⟨true, false⟩) (semantics (.disk failingDisk)) obliging 25
    (scpSenderRun ⟨true, false⟩ [97] [97], initState)

/-- The request of the record still has the length of the session. -/
theorem write_misstates_length :
    ¬ ∀ (cfg : Config) (W : World) (l r : Path),
      ((scpSenderRun cfg l r).system (bodies cfg) (semantics W) initState).Invariant fun c =>
        ∀ sges wrLen remote k, c.1 = .op (.postWrite sges wrLen remote) k →
          wrLen = sgeBytes sges := by
  intro hall
  have hreach : ((scpSenderRun ⟨true, false⟩ [97] [97]).system (bodies ⟨true, false⟩)
      (semantics (.disk failingDisk)) initState).Reachable atFirstWrite :=
    ⟨_, rfl, Program.exec_runs obliging_allowed 25 _⟩
  have hposting : posting atFirstWrite.1 = some ([⟨0, fileMetaSize⟩], scpMultiBufferTotalSize) := by
    decide +kernel
  obtain ⟨remote, k, hop⟩ := eq_of_posting hposting
  have hlen := hall _ _ _ _ _ hreach _ _ remote k hop
  exact absurd hlen (by decide)

end Sender

end ScpRdma

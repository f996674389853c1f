import ScpRdma.Receiver.Decoding

/-!
# Where the receiver reads

The handling of one signal against arbitrary contents of the session buffer. Nothing bounds
the slot number, the chunk size or the length of a name; `InBounds` is what a peer has to
respect for every read to stay in its slot.
-/
namespace ScpRdma.Receiver
open Foundations

variable {F : Type} {M : Semantics fileSignature F} {m : Memory} {slotId : UInt8} {n : Nat}
  {α : Type} {s : State F}

/-- The session buffer holds `m`, and the signal names `slotId`. -/
def World.session (m : Memory) (slotId : UInt8) : World F
  | .readCdc _, _, msg => msg.slotId = slotId
  | .load off len, _, bs => bs = m.load off len
  | .loadCString off, _, bs => m.StringAt off bs
  | _, _, _ => True

/-- The range that an operation reads lies in slot `slotId`, whose offset fits an `int`. -/
def Op.Within (m : Memory) (slotId : UInt8) : Op → Prop
  | .load off len => ∃ x : Slot, x.val = slotId.toNat ∧ InSlot x off len
  | .loadCString off => ∃ x : Slot, x.val = slotId.toNat ∧ ∃ len,
    m (off + len) = 0 ∧ (∀ i < len, m (off + i) ≠ 0) ∧ InSlot x off (len + 1)
  | .undefined .slotOverflow => False
  | _ => True

/-- Every operation that a run asks for reads within the slot. -/
def ReadsWithin (M : Semantics fileSignature F) (m : Memory) (slotId : UInt8) (p : Receiver α)
    (s : State F) : Prop :=
  (p.system bodies (semantics M (.session m slotId)) s).Invariant fun c =>
    ∀ o k, c.1 = .op o k → o.Within m slotId

/-- A string at `off` ends in slot `x`. -/
def EndsInSlot (m : Memory) (x : Slot) (off : Nat) : Prop :=
  ∃ i, off ≤ i ∧ i < slotBase x + scpCombinedChunkSize ∧ m i = 0

/-- What a signal and a buffer must satisfy: the slot exists, and in a packet with a valid header
the name ends in the slot and the payload of an open file fits it. -/
def InBounds (m : Memory) (slotId : UInt8) (loc : Locals) (metaType : UInt8) : Prop :=
  ∃ x : Slot, x.val = slotId.toNat ∧
    let header := m.load (slotBase x) packetHeaderSize
    (scpValidateHeader header = 0 →
      (cmdType header = CmdType.fileMeta.byte.toNat → EndsInSlot m x (slotBase x + fileNameOff)) ∧
      (cmdType header = CmdType.dirEnter.byte.toNat → EndsInSlot m x (slotBase x + dirNameOff)) ∧
      (cmdType header = CmdType.fileData.byte.toNat → metaType ≠ FileType.symlink.byte →
        loc.currentFd ≠ none →
        dataChunkSize + leNat (m.load (slotBase x + chunkSizeOff) 4) ≤ scpCombinedChunkSize))

/-! ## Packets that stay in their slot -/

/-- The duty to read within the slot. -/
abbrev within (m : Memory) (slotId : UInt8) : Duties signature (State F) :=
  ⟨fun o _ => o.Within m slotId, fun _ _ => True⟩

theorem within_loadCString {x : Slot} {off : Nat} (hx : x.val = slotId.toNat)
    (hoff : slotBase x ≤ off) (h : EndsInSlot m x off) : (Op.loadCString off).Within m slotId := by
  obtain ⟨i, hi, hin, hnul⟩ := h
  have hex : ∃ len, m (off + len) = 0 := ⟨i - off, by rwa [Nat.add_sub_cancel' hi]⟩
  have hmin : Nat.find hex ≤ i - off := Nat.find_min' hex (by rwa [Nat.add_sub_cancel' hi])
  refine ⟨x, hx, Nat.find hex, Nat.find_spec hex, fun j hj => Nat.find_min hex hj, hoff, ?_⟩
  omega

variable {Q : α → State F → Prop}

/-- A read at a fixed place of the slot. -/
theorem within_load {x : Slot} {i len : Nat} {f : Bytes → Receiver α} (hx : x.val = slotId.toNat)
    (hin : i + len ≤ scpCombinedChunkSize)
    (h : ∀ t : State F, t.ctx = s.ctx →
      Meets M (.session m slotId) (within m slotId) n (f (m.load (slotBase x + i) len)) Q t) :
    Meets M (.session m slotId) (within m slotId) n (load (slotBase x + i) len >>= f) Q s := by
  refine meets_ask ⟨x, hx, inSlot_base hin⟩ fun bs _ hbs => ?_
  obtain rfl : bs = m.load (slotBase x + i) len := hbs
  exact h _ rfl

theorem within_mkdirRecursive {path : Path} {f : Int → Receiver α}
    (h : ∀ r (t : State F), t.ctx = s.ctx →
      Meets M (.session m slotId) (within m slotId) n (f r) Q t) :
    Meets M (.session m slotId) (within m slotId) n (mkdirRecursive path >>= f) Q s :=
  meets_mkdirRecursive (fun _ _ => trivial) (fun _ => trivial) fun r _ _ => h r _ rfl

theorem within_files {β : Type} {p : Files β} {f : β → Receiver α}
    (h : ∀ r (t : State F), t.ctx = s.ctx →
      Meets M (.session m slotId) (within m slotId) n (f r) Q t) :
    Meets M (.session m slotId) (within m slotId) n (files p >>= f) Q s :=
  meets_files (fun _ _ => trivial) fun r _ _ => h r _ rfl

theorem within_handleFileMeta {x : Slot} {loc : Locals} (hx : x.val = slotId.toNat)
    (hname : EndsInSlot m x (slotBase x + fileNameOff)) :
    Meets M (.session m slotId) (within m slotId) n (handleFileMeta loc (slotBase x))
      (fun _ _ => True) s := by
  refine within_load hx (by decide) fun t _ => meets_update trivial ?_
  refine meets_ask (within_loadCString hx (Nat.le_add_right _ _) hname) fun name _ _ => ?_
  refine within_files fun isDir t _ => ?_
  cases isDir with
  | true => exact within_files fun _ t _ => wp.done trivial
  | false =>
    refine wp.bind (R := fun _ _ => True) ?_ fun _ t _ => within_files fun _ t _ => ?_
    · unfold mkdirParent
      split
      · exact within_mkdirRecursive fun _ _ _ => wp.done trivial
      · exact wp.done trivial
    · dsimp only
      split
      · refine within_load hx (by decide) fun t _ => meets_ask trivial fun fd _ _ => ?_
        exact meets_update trivial (wp.done trivial)
      · exact wp.done trivial

theorem within_handleFileData {x : Slot} {loc : Locals} (hx : x.val = slotId.toNat)
    (hsize : s.ctx.metaType ≠ FileType.symlink.byte → loc.currentFd ≠ none →
      dataChunkSize + leNat (m.load (slotBase x + chunkSizeOff) 4) ≤ scpCombinedChunkSize) :
    Meets M (.session m slotId) (within m slotId) n (handleFileData loc (slotBase x))
      (fun _ _ => True) s := by
  refine meets_get trivial ?_
  split
  · refine within_load hx (by decide) fun t _ => within_load hx ?_ fun t _ => ?_
    · exact Nat.add_le_add_left (targetLen_lt _).le dataChunkSize |>.trans (by decide)
    · refine within_files fun ok t _ => ?_
      cases ok with
      | true => exact meets_update trivial (wp.done trivial)
      | false => exact wp.done trivial
  · rename_i hlink
    cases hfd : loc.currentFd with
    | none => exact wp.done trivial
    | some fd =>
      have hsize := hsize hlink (by simp [hfd])
      refine within_load hx (by decide) fun t _ => within_load hx (by decide) fun t _ => ?_
      refine within_load hx hsize fun t _ => within_files fun _ t _ => ?_
      exact meets_update trivial (wp.done trivial)

theorem within_handleCommand {x : Slot} {loc : Locals} {cmd : Nat} (hx : x.val = slotId.toNat)
    (hmeta : cmd = CmdType.fileMeta.byte.toNat → EndsInSlot m x (slotBase x + fileNameOff))
    (hdir : cmd = CmdType.dirEnter.byte.toNat → EndsInSlot m x (slotBase x + dirNameOff))
    (hdata : cmd = CmdType.fileData.byte.toNat → s.ctx.metaType ≠ FileType.symlink.byte →
      loc.currentFd ≠ none →
      dataChunkSize + leNat (m.load (slotBase x + chunkSizeOff) 4) ≤ scpCombinedChunkSize) :
    Meets M (.session m slotId) (within m slotId) n (handleCommand loc (slotBase x) cmd)
      (fun _ _ => True) s := by
  unfold handleCommand
  split
  · exact within_handleFileMeta hx (hmeta ‹_›)
  split
  · exact within_handleFileData hx (hdata ‹_›)
  split
  · refine meets_ask (within_loadCString hx (Nat.le_add_right _ _) (hdir ‹_›)) fun name _ _ => ?_
    exact within_mkdirRecursive fun _ t _ => meets_update trivial (wp.done trivial)
  split
  · exact within_files fun _ t _ => wp.done trivial
  split
  · exact within_files fun _ t _ => wp.done trivial
  · exact wp.done trivial

/-- Posting the next receive and the acknowledgement reads nothing of the session buffer. -/
theorem within_tail {isEndPacket : Bool} {buf : Nat} {slot : UInt8} {loc : Locals} :
    Meets M (.session m slotId) (within m slotId) n (do
      if !(← repost isEndPacket) then
        return none
      if !(← sendAck buf slot) then
        return none
      return if isEndPacket then none else some loc) (fun _ _ => True) s := by
  refine wp.bind (R := fun _ _ => True) ?_ fun ok t _ => wp.guard (fun _ => trivial) fun _ => ?_
  · cases isEndPacket with
    | true => exact wp.done trivial
    | false =>
      refine wp.bind (R := fun _ _ => True) ?_ fun ok t _ => wp.guard (fun _ => trivial) ?_
      · refine wp.bind (R := fun _ _ => True) ?_ fun r t _ => ?_
        · refine meets_get trivial (wp.guard (fun _ => trivial) fun _ => ?_)
          exact meets_update trivial (wp.done trivial)
        · cases r with
          | none => exact wp.done trivial
          | some b => exact wp.op trivial fun _ _ => wp.done trivial
      · exact fun _ => meets_get trivial (meets_update trivial (wp.done trivial))
  · refine wp.bind (R := fun _ _ => True) ?_ fun ok t _ => ?_
    · refine meets_get trivial (meets_ask trivial fun recv _ _ => ?_)
      exact wp.op trivial fun _ _ => wp.done trivial
    · exact wp.guard (fun _ => trivial) fun _ => wp.done trivial

theorem slotOffset_eq {x : Slot} (hx : x.val = slotId.toNat) :
    slotOffset slotId = pure (slotBase x) := by
  rw [slotOffset, ← hx, slotBase, scpCombinedChunkSize_eq, if_pos (by omega)]

theorem within_handleSignal {loc : Locals} {buf : Nat}
    (h : InBounds m slotId loc s.ctx.metaType) :
    Meets M (.session m slotId) (within m slotId) n (handleSignal loc buf) (fun _ _ => True) s := by
  obtain ⟨x, hx, hpacket⟩ := h
  refine meets_ask trivial fun msg _ hmsg => ?_
  obtain rfl : msg.slotId = slotId := hmsg
  unfold handlePacket
  rw [slotOffset_eq hx]
  refine meets_ask (o := .load (slotBase x) packetHeaderSize) ⟨x, hx, inSlot_start (by decide)⟩
    fun header _ hheader => ?_
  obtain rfl : header = m.load (slotBase x) packetHeaderSize := hheader
  refine wp.guard (fun _ => trivial) fun hvalid => ?_
  obtain ⟨hmeta, hdir, hdata⟩ := hpacket (not_not.mp hvalid)
  refine wp.bind (within_handleCommand hx hmeta hdir ?_) fun loc' t _ => within_tail
  exact hdata

/-! ## Every other packet leaves its slot -/

namespace ReadsWithin

theorem get {f : Ctx → Receiver α} (h : ReadsWithin M m slotId (get >>= f) s) :
    ReadsWithin M m slotId (f s.ctx) s :=
  Program.after (S := signature) h s.ctx ⟨rfl, trivial⟩

theorem update {up : Update} {f : Unit → Receiver α}
    (h : ReadsWithin M m slotId (update up >>= f) s) :
    ReadsWithin M m slotId (f ()) { s with ctx := up.apply s.ctx } :=
  Program.after (S := signature) h () ⟨trivial, trivial⟩

theorem load {off len : Nat} {f : Bytes → Receiver α}
    (h : ReadsWithin M m slotId (load off len >>= f) s) : (Op.load off len).Within m slotId ∧
      ReadsWithin M m slotId (f (m.load off len))
        { s with ledger := s.ledger.read off (m.load off len) } :=
  ⟨Program.now h _ _ rfl,
    Program.after (S := signature) h (m.load off len) ⟨Memory.length_load _ _ _, rfl⟩⟩

theorem loadCString {off : Nat} {f : Bytes → Receiver α}
    (h : ReadsWithin M m slotId (loadCString off >>= f) s) :
    (Op.loadCString off).Within m slotId := Program.now h _ _ rfl

theorem readCdc {buf : Nat} {f : Cdc → Receiver α}
    (h : ReadsWithin M m slotId (readCdc buf >>= f) s) (msg : Cdc) (hmsg : msg.slotId = slotId) :
    ReadsWithin M m slotId (f msg) (next M (.readCdc buf) s msg) :=
  Program.after (S := signature) h msg ⟨trivial, hmsg⟩

/-- What a program reads it reads as the first part of another. -/
theorem first {β : Type} {p : Receiver α} {f : α → Receiver β}
    (h : ReadsWithin M m slotId (p >>= f) s) : ReadsWithin M m slotId p s := by
  rintro ⟨q, t⟩ ⟨_, rfl, hruns⟩ o k rfl
  exact h _ ⟨_, rfl, Program.runs_bind f hruns⟩ o _ rfl

end ReadsWithin

theorem endsInSlot_of_within {x : Slot} {off : Nat} (hx : x.val = slotId.toNat)
    (h : (Op.loadCString off).Within m slotId) : EndsInSlot m x off := by
  obtain ⟨y, hy, len, hnul, -, hin⟩ := h
  obtain rfl : y = x := Fin.ext (hy.trans hx.symm)
  exact ⟨off + len, Nat.le_add_right _ _, by have := hin.2; omega, hnul⟩

theorem chunk_fits_of_within {x : Slot} {loc : Locals} (hx : x.val = slotId.toNat)
    (h : ReadsWithin M m slotId (handleFileData loc (slotBase x)) s)
    (hlink : s.ctx.metaType ≠ FileType.symlink.byte) (hfd : loc.currentFd ≠ none) :
    dataChunkSize + leNat (m.load (slotBase x + chunkSizeOff) 4) ≤ scpCombinedChunkSize := by
  obtain ⟨fd, hfd⟩ := Option.ne_none_iff_exists'.mp hfd
  have h := ReadsWithin.get h
  rw [if_neg hlink, hfd] at h
  obtain ⟨⟨y, hy, -, hin⟩, -⟩ := h.load.2.load.2.load
  obtain rfl : y = x := Fin.ext (hy.trans hx.symm)
  omega

theorem inBounds_of_readsWithin {loc : Locals} {buf : Nat}
    (h : ReadsWithin M m slotId (handleSignal loc buf) s) :
    InBounds m slotId loc s.ctx.metaType := by
  unfold handleSignal at h
  have h := h.readCdc { Cdc.zero with slotId := slotId } rfl
  dsimp only at h
  unfold handlePacket at h
  by_cases hfits : slotId.toNat * scpCombinedChunkSize < 2 ^ 31
  swap
  · rw [slotOffset, if_neg hfits] at h
    exact (Program.now (S := signature) h (.undefined .slotOverflow) _ rfl).elim
  rw [slotOffset, if_pos hfits, Program.pure_bind] at h
  obtain ⟨⟨x, hx, -⟩, h⟩ := ReadsWithin.load h
  rw [show slotId.toNat * scpCombinedChunkSize = slotBase x by rw [slotBase, hx]] at h
  refine ⟨x, hx, fun hvalid => ?_⟩
  rw [if_neg (not_not.mpr hvalid)] at h
  have h := ReadsWithin.first h
  refine ⟨fun hcmd => ?_, fun hcmd => ?_, fun hcmd hlink hfd => ?_⟩
  · rw [handleCommand, if_pos hcmd] at h
    exact endsInSlot_of_within hx (ReadsWithin.loadCString (h.load).2.update)
  · rw [hcmd, handleCommand, if_neg (by decide), if_neg (by decide), if_pos rfl] at h
    exact endsInSlot_of_within hx (ReadsWithin.loadCString h)
  · rw [hcmd, handleCommand, if_neg (by decide), if_pos rfl] at h
    exact chunk_fits_of_within hx h hlink hfd

/-- Whatever a peer sends, the reads for a signal stay in its slot exactly when the slot exists,
the name of the packet ends in it and the payload for an open file fits it. -/
theorem reads_within_slot (M : Semantics fileSignature F) (m : Memory) (slotId : UInt8)
    (loc : Locals) (buf : Nat) (s : State F) :
    ReadsWithin M m slotId (handleSignal loc buf) s ↔ InBounds m slotId loc s.ctx.metaType := by
  refine ⟨inBounds_of_readsWithin, fun h => ?_⟩
  have hver : Verified bodies (semantics M (.session m slotId)) (within m slotId)
      (handleSignal loc buf) (fun _ _ => True) s := fun _ => within_handleSignal h
  refine hver.runs.mono ?_
  rintro ⟨_, t⟩ hv o k rfl
  exact hv.duty

/-- A buffer in which the packet behind the last slot has a valid header. -/
def strayMemory : Memory :=
  Memory.store (fun _ => 0) scpMultiBufferTotalSize (scpInitPacketHeader .dirLeave 0)

/-- Files on which nothing happens. -/
def idleFiles : Semantics fileSignature Unit := ⟨fun _ _ _ => False, fun _ _ _ => ()⟩

/-- A read may leave the buffer: a signal may name slot 4, which does not exist. -/
theorem reads_leave_slot :
    ¬∀ (F : Type) (M : Semantics fileSignature F) (m : Memory) (slotId : UInt8) (loc : Locals)
      (buf : Nat) (s : State F),
      scpValidateHeader (m.load (slotId.toNat * scpCombinedChunkSize) packetHeaderSize) = 0 →
        ReadsWithin M m slotId (handleSignal loc buf) s := by
  intro hall
  have hvalid : scpValidateHeader (strayMemory.load ((4 : UInt8).toNat * scpCombinedChunkSize)
      packetHeaderSize) = 0 := by
    rw [show (4 : UInt8).toNat * scpCombinedChunkSize = scpMultiBufferTotalSize from rfl,
      strayMemory, Memory.load_store_eq (length_scpInitPacketHeader _ _)]
    decide
  obtain ⟨x, hx, -⟩ := inBounds_of_readsWithin
    (hall Unit idleFiles strayMemory 4 ⟨none, [], []⟩ 0 (initState ()) hvalid)
  have : x.val = 4 := hx
  omega

end ScpRdma.Receiver

import ScpRdma.Receiver.Bounds
import ScpRdma.Receiver.Discipline
import ScpRdma.Receiver.FileCalls
import ScpRdma.Sender.Discipline

/-!
# From the sender's slot to the receiver's fields

A packet is laid out in a local slot, gathered, and written over whatever a remote slot holds.
`Layout` are the ways in which the send functions lay packets out, `Decodes` is what the
receiver reads back. The handling of the packet reads nothing but the packet, so what the slot
held before cannot matter.
-/
namespace ScpRdma.Transfer
open Foundations Receiver

/-- `file_size` in the record, which is only printed. -/
def fileSizeOff : Nat := 272

/-- What the sender may put into a packet: names without NUL that fit their field, values that
fit theirs, and payloads that are neither empty nor longer than a chunk. -/
def Sendable : Packet → Prop
  | .fileMeta name size mode _ chunks =>
    NoNul name ∧ name.length < scpMaxFilenameLen ∧ size < 2 ^ 64 ∧ mode < 2 ^ 32 ∧ chunks < 2 ^ 32
  | .fileData chunkIndex offset payload => chunkIndex < 2 ^ 32 ∧ offset < 2 ^ 64 ∧
    1 ≤ payload.length ∧ payload.length ≤ scpChunkSize
  | .dirEnter name => NoNul name ∧ name.length < scpMaxFilenameLen
  | .dirLeave | .transferEnd => True

/-- The local memory and the entries of the write, as each send function prepares them over a
memory `m`: a record (of the `DIR_LEAVE` record only the header is sent), a link target behind
its header, a chunk read to `SCP_DATA_OFFSET`. -/
inductive Layout (m : Memory) : Slot → Packet → Memory → List Sge → Prop where
  | record {p rest} : p.cmd ≠ .fileData →
      Layout m 0 p (m.store 0 (p.encode ++ rest)) [⟨0, p.encode.length⟩]
  | link {target} : Layout m 0 (.fileData 0 0 target)
      ((m.store (slotBase 0) (dataChunkHeader 0 0 target.length)).store
        (slotBase 0 + dataChunkSize) target)
      [⟨slotBase 0, dataChunkSize + target.length⟩]
  | chunk {x i off data len} : Layout m x (.fileData i off (data.take len))
      ((m.store (slotBase x + scpDataOffset) data).store (slotBase x)
        (dataChunkHeader i off (data.take len).length))
      [⟨slotBase x, dataChunkSize⟩, ⟨slotBase x + scpDataOffset, (data.take len).length⟩]

/-- The receiver finds the fields of `p` at `base`. The target of a link is cut off at its NUL
and at the size of `link_target`. -/
def Decodes (buf : Memory) (base : Nat) (p : Packet) : Prop :=
  scpValidateHeader (buf.load base packetHeaderSize) = 0 ∧
  cmdType (buf.load base packetHeaderSize) = p.cmd.byte.toNat ∧
  match p with
  | .fileMeta name size mode type _ =>
    (∀ text, buf.StringAt (base + fileNameOff) text ↔ text = name) ∧
    leNat (buf.load (base + fileTypeOff) 1) = type.byte.toNat ∧
    leNat (buf.load (base + fileModeOff) 4) = mode ∧
    leNat (buf.load (base + fileSizeOff) 8) = size
  | .fileData _ offset payload =>
    leNat (buf.load (base + chunkOffsetOff) 8) = offset ∧
    leNat (buf.load (base + chunkSizeOff) 4) = payload.length ∧
    buf.load (base + dataChunkSize) payload.length = payload ∧
    (NoNul payload → payload.length < scpMaxPathLen →
      cString (buf.load (base + dataChunkSize) (targetLen payload.length)) = payload)
  | .dirEnter name => ∀ text, buf.StringAt (base + dirNameOff) text ↔ text = name
  | .dirLeave | .transferEnd => True

theorem Sendable.fits {p : Packet} (h : Sendable p) : p.Fits := by
  cases p with
  | fileMeta => exact ⟨h.2.2.1, h.2.2.2.2⟩
  | fileData => exact ⟨h.1, h.2.1, h.2.2.2⟩
  | _ => trivial

/-- What is gathered is the encoded packet. -/
theorem Layout.gather {m local' : Memory} {x : Slot} {p : Packet} {sges : List Sge}
    (h : Layout m x p local' sges) : gather local' sges = p.encode := by
  cases h with
  | record =>
    simp only [Foundations.gather, List.flatMap_cons, List.flatMap_nil, List.append_nil]
    exact Memory.load_store_append rfl
  | link => exact Sender.gather_link
  | chunk => exact Sender.gather_chunk

section Fields

variable {buf : Memory} {base : Nat} {p : Packet}

theorem load_field {i len : Nat} (h : buf.load base p.encode.length = p.encode)
    (hin : i + len ≤ p.encode.length) : buf.load (base + i) len = field p.encode i len :=
  Memory.load_slice h hin

theorem load_tail {i : Nat} (h : buf.load base p.encode.length = p.encode)
    (h0 : 0 ∈ p.encode.drop i) :
    buf.load (base + i) (p.encode.drop i).length = p.encode.drop i := by
  have hi : i ≤ p.encode.length := by
    by_contra hlt
    rw [List.drop_eq_nil_of_le (by omega)] at h0
    cases h0
  rw [List.length_drop, Memory.load_slice h (by omega), ← List.length_drop, List.take_length]

/-- A name that fits its field is found whole. -/
theorem nameAt {i : Nat} {name rest : Bytes} (h : buf.load base p.encode.length = p.encode)
    (hdrop : p.encode.drop i = strncpyField name 255 256 ++ rest) (hno : NoNul name)
    (hlen : name.length < scpMaxFilenameLen) (text : Bytes) :
    buf.StringAt (base + i) text ↔ text = name := by
  have h0 : 0 ∈ p.encode.drop i := by
    rw [hdrop]
    exact List.mem_append_left _ (zero_mem_strncpyField (by decide))
  have hname : cString (p.encode.drop i) = name := by
    rw [hdrop, cString_strncpyField (by decide), cString_of_noNul hno]
    simp only [scpMaxFilenameLen] at hlen
    exact List.take_of_length_le (by omega)
  rw [stringAt_iff (load_tail h h0) h0, hname]

theorem field_fileSize (name : Bytes) (size mode : Nat) (type : FileType) (chunks : Nat) :
    field (Packet.fileMeta name size mode type chunks).encode fileSizeOff 8 = leBytes 8 size := by
  have h : (Packet.fileMeta name size mode type chunks).encode =
    (scpInitPacketHeader .fileMeta (fileMetaSize - packetHeaderSize) ++
      strncpyField name 255 256) ++ leBytes 8 size ++ (leBytes 4 mode ++
      [type.byte] ++ [0, 0, 0] ++ leBytes 4 chunks ++ leBytes 8 0) := by
    simp [Packet.encode, scpMaxFilenameLen]
  rw [h]
  exact field_append (by simp [length_strncpyField, packetHeaderSize, fileSizeOff]) (by simp)

/-- The fields of an encoded packet are read back, wherever it stands. -/
theorem decodes (hp : Sendable p) (h : buf.load base p.encode.length = p.encode) :
    Decodes buf base p := by
  have hheader : buf.load (base + 0) packetHeaderSize = field p.encode 0 packetHeaderSize :=
    load_field h (by rw [Nat.zero_add]; exact p.packetHeaderSize_le)
  rw [Nat.add_zero] at hheader
  refine ⟨hheader ▸ scpValidateHeader_encode p, hheader ▸ cmdType_encode p, ?_⟩
  have hlen := p.length_encode
  cases p with
  | fileMeta name size mode type chunks =>
    obtain ⟨hno, hname, hsize, hmode, -⟩ := hp
    obtain ⟨rest, hdrop⟩ := Packet.drop_fileName name size mode type chunks
    refine ⟨nameAt h hdrop hno hname, ?_, ?_, ?_⟩
    · rw [load_field h (by simp [hlen, fileTypeOff, fileMetaSize]), fileTypeOff,
        Packet.field_fileType]
      simp [leNat]
    · rw [load_field h (by simp [hlen, fileModeOff, fileMetaSize]), fileModeOff,
        Packet.field_fileMode]
      exact leNat_leBytes_of_lt hmode
    · rw [load_field h (by simp [hlen, fileSizeOff, fileMetaSize]), field_fileSize]
      exact leNat_leBytes_of_lt hsize
  | fileData i off payload =>
    obtain ⟨-, hoff, -, hpay⟩ := hp
    rw [scpChunkSize_eq] at hpay
    have hsize : 36 ≤ (Packet.fileData i off payload).encode.length :=
      hlen ▸ Nat.le_add_right _ _
    refine ⟨?_, ?_, ?_, fun hno hshort => ?_⟩
    · rw [load_field h (by simp only [chunkOffsetOff]; omega), chunkOffsetOff, Packet.field_offset]
      exact leNat_leBytes_of_lt hoff
    · rw [load_field h (by simp only [chunkSizeOff]; omega), chunkSizeOff, Packet.field_chunkSize]
      exact leNat_leBytes_of_lt (by omega)
    · rw [load_field h (by rw [hlen]), dataChunkSize, Packet.field_payload, List.take_length]
    · have htarget : targetLen payload.length = payload.length := if_neg (by omega)
      rw [htarget, load_field h (by rw [hlen]), dataChunkSize, Packet.field_payload,
        List.take_length, cString_of_noNul hno]
  | dirEnter name =>
    obtain ⟨hno, hname⟩ := hp
    obtain ⟨rest, hdrop⟩ := Packet.drop_dirName name
    exact nameAt h hdrop hno hname
  | dirLeave | transferEnd => trivial

end Fields

/-! ## Runs over one packet -/

/-- The read stays within the packet at slot `x`. -/
def ReadsPacket (x : Slot) (p : Packet) : Receiver.Op → Prop
  | .load off len => ∃ i, off = slotBase x + i ∧ i + len ≤ p.encode.length
  | .loadCString off => ∃ i, off = slotBase x + i ∧ 0 ∈ p.encode.drop i
  | _ => True

section Runs

variable {F : Type} {M : Semantics fileSignature F} {x : Slot} {p : Packet} {n : Nat}
  {α : Type} {s : Receiver.State F}

/-- The duty to read the packet alone. -/
abbrev packetDuties (x : Slot) (p : Packet) : Duties Receiver.signature (Receiver.State F) :=
  ⟨fun o _ => ReadsPacket x p o, fun _ _ => True⟩

/-- What the handling of a packet leaves: its effect on the files and on the totals. -/
def Effect (M : Semantics fileSignature F) (p : Packet) (loc : Locals) (s : Receiver.State F)
    (loc' : Locals) (t : Receiver.State F) : Prop :=
  ∃ τ, Program.Outcome M (applyPacket ⟨loc, s.ctx.metaType⟩ p) s.os
      (⟨loc', t.ctx.metaType⟩, τ) t.os ∧
    t.ctx.totalBytes = s.ctx.totalBytes + UInt64.ofNat τ.bytes ∧
    t.ctx.totalFiles = s.ctx.totalFiles + UInt32.ofNat τ.files ∧
    t.ctx.totalDirs = s.ctx.totalDirs + UInt32.ofNat τ.dirs ∧
    t.ctx.totalSymlinks = s.ctx.totalSymlinks + UInt32.ofNat τ.symlinks

/-- The effect is complete; if the loop goes on, then with the locals of the packet. -/
def Ended (M : Semantics fileSignature F) (p : Packet) (loc : Locals) (s : Receiver.State F)
    (r : Option Locals) (t : Receiver.State F) : Prop :=
  ∃ loc', Effect M p loc s loc' t ∧ (r = none ∨ r = some loc')

theorem effect_of_handled {pkts : Feed} {loc loc' : Locals} {s₀ t : Receiver.State F}
    (h : Handled M pkts x p loc s loc' t) (hctx : s.ctx = s₀.ctx) (hos : s.os = s₀.os) :
    Effect M p loc s₀ loc' t := by
  obtain ⟨τ, hout, ht⟩ := h.effect
  rw [hctx, hos] at hout
  refine ⟨τ, hout, ?_⟩
  rw [ht, hctx]
  exact ⟨rfl, rfl, rfl, rfl⟩

variable {W : Receiver.World F} {loc loc' : Locals} {s₀ : Receiver.State F}

/-- Posting the next receive and the ACK reads nothing of the packet. -/
theorem repost_quiet {isEndPacket : Bool} (h : Effect M p loc s₀ loc' s) :
    Receiver.Meets M W (packetDuties x p) n (repost isEndPacket)
      (fun _ t => Effect M p loc s₀ loc' t) s := by
  unfold repost
  split
  · exact wp.done h
  · refine wp.bind (R := fun _ t => Effect M p loc s₀ loc' t) ?_ fun ok t ht => ?_
    · unfold postNextRecv
      refine wp.bind (R := fun _ t => Effect M p loc s₀ loc' t) ?_ fun buf t ht => ?_
      · refine meets_get trivial ?_
        split
        · exact wp.done h
        · exact meets_update trivial (wp.done h)
      · cases buf with
        | none => exact wp.done ht
        | some buf => exact wp.op trivial fun ok _ => wp.done (by cases ok <;> exact ht)
    · cases ok with
      | false => exact wp.done ht
      | true => exact meets_get trivial (meets_update trivial (wp.done ht))

theorem sendAck_quiet {buf : Nat} {slotId : UInt8} (h : Effect M p loc s₀ loc' s) :
    Receiver.Meets M W (packetDuties x p) n (sendAck buf slotId)
      (fun _ t => Effect M p loc s₀ loc' t) s := by
  unfold sendAck
  refine meets_get trivial (meets_ask trivial fun msg _ _ => ?_)
  exact wp.op trivial fun ok _ => wp.done (by cases ok <;> exact h)

/-- The handling of a signal reads only the packet, and ends with the effect of the packet. -/
theorem handleSignal_reads {buf : Nat} (hcur : s.ledger.current = none) (hfit : p.Fits) :
    Receiver.Meets M (.feed fun _ => (x, p)) (packetDuties x p) n (handleSignal loc buf)
      (Ended M p loc s) s := by
  unfold handleSignal
  refine meets_ask trivial fun msg _ hmsg => ?_
  have hslot : msg.slotId = UInt8.ofNat x.val := hmsg hcur
  rw [show next M (.readCdc buf) s msg = s.hold (some ⟨UInt8.ofNat x.val, []⟩) by
    simp [next, Ledger.receive, hcur, hslot, State.hold], hslot]
  unfold handlePacket
  rw [slotOffset_slot]
  have hhead : 0 + packetHeaderSize ≤ p.encode.length := by
    rw [Nat.zero_add]
    exact p.packetHeaderSize_le
  change Receiver.Meets M _ _ n (load (slotBase x) packetHeaderSize >>= _) _ _
  refine meets_ask ⟨0, (Nat.add_zero _).symm, hhead⟩ fun header _ hheader => ?_
  obtain rfl : header = field p.encode 0 packetHeaderSize :=
    hheader 0 (Nat.add_zero _).symm hhead
  rw [if_neg (not_not.mpr (scpValidateHeader_encode p)), cmdType_encode]
  have hin : InHand (fun _ => (x, p)) x p (next M (.load (slotBase x) packetHeaderSize)
      (s.hold (some ⟨UInt8.ofNat x.val, []⟩)) (field p.encode 0 packetHeaderSize)) :=
    ⟨⟨_, rfl⟩, rfl⟩
  have hcommand : Serves M _ none s.os n (handleCommand loc (slotBase x) p.cmd.byte.toNat) _ _ :=
    handleCommand_spec hin hfit
  refine wp.bind (hcommand.weaken rfl (fun _ _ _ _ h => h) ?_ (fun _ _ _ => trivial))
    fun loc' t ht => ?_
  · rintro o t hD
    cases o with
    | load off len => exact hD.2
    | loadCString off => exact hD.2
    | _ => trivial
  have heffect : Effect M p loc s loc' t := effect_of_handled ht rfl rfl
  refine wp.bind (repost_quiet heffect) fun ok u hu => ?_
  refine wp.guard (fun _ => ⟨loc', hu, .inl rfl⟩) fun _ => ?_
  refine wp.bind (sendAck_quiet hu) fun ok v hv => ?_
  refine wp.guard (fun _ => ⟨loc', hv, .inl rfl⟩) fun _ => wp.done ⟨loc', hv, ?_⟩
  split
  · exact .inl rfl
  · exact .inr rfl

/-- A buffer that holds the packet answers as the packet does. -/
theorem feed_of_session {m : Memory} {o : Receiver.Op} {t : Receiver.State F}
    {r : Receiver.Response o} (hm : m.load (slotBase x) p.encode.length = p.encode)
    (hD : ReadsPacket x p o) (h : World.session m (UInt8.ofNat x.val) o t r) :
    World.feed (fun _ => (x, p)) o t r := by
  cases o with
  | readCdc buf => exact fun _ => h
  | load off len =>
    rintro i rfl hin
    exact Eq.trans h (load_field hm hin)
  | loadCString off =>
    rintro i rfl h0
    exact (stringAt_eq h (load_tail hm h0) h0).1
  | _ => trivial

/-- Two buffers that hold the packet answer alike. -/
theorem session_of_session {m m' : Memory} {o : Receiver.Op} {t : Receiver.State F}
    {r : Receiver.Response o} (hm : m.load (slotBase x) p.encode.length = p.encode)
    (hm' : m'.load (slotBase x) p.encode.length = p.encode) (hD : ReadsPacket x p o)
    (h : World.session m (UInt8.ofNat x.val) o t r) :
    World.session m' (UInt8.ofNat x.val) o t r := by
  cases o with
  | load off len =>
    obtain ⟨i, rfl, hin⟩ := hD
    exact Eq.trans h ((load_field hm hin).trans (load_field hm' hin).symm)
  | loadCString off =>
    obtain ⟨i, rfl, h0⟩ := hD
    exact (stringAt_iff (load_tail hm' h0) h0).mpr ((stringAt_iff (load_tail hm h0) h0).mp h)
  | _ => exact h

theorem verified_session {m : Memory} {buf : Nat} (hcur : s.ledger.current = none)
    (hfit : p.Fits) (hm : m.load (slotBase x) p.encode.length = p.encode) :
    Verified Receiver.bodies (Receiver.semantics M (.session m (UInt8.ofNat x.val)))
      (packetDuties x p) (handleSignal loc buf) (Ended M p loc s) s := by
  refine Verified.weaken (fun n => handleSignal_reads hcur hfit) rfl fun o t r hD hr => ?_
  exact ⟨hr.1, feed_of_session hm hD hr.2⟩

end Runs

/-- The handling of the signal for slot `x`, over the buffer `m`. -/
abbrev handling {F : Type} (M : Semantics fileSignature F) (m : Memory) (x : Slot) (loc : Locals)
    (buf : Nat) (s : Receiver.State F) :
    System (Receiver (Option Locals) × Receiver.State F) :=
  (handleSignal loc buf).system Receiver.bodies
    (Receiver.semantics M (.session m (UInt8.ofNat x.val))) s

section Handling

variable {F : Type} {M : Semantics fileSignature F} {x : Slot} {p : Packet} {m m' : Memory}
  {loc : Locals} {buf : Nat} {s : Receiver.State F}

theorem handling_ends (hcur : s.ledger.current = none) (hfit : p.Fits)
    (hm : m.load (slotBase x) p.encode.length = p.encode) {r : Option Locals}
    {t : Receiver.State F} (h : (handling M m x loc buf s).Reachable (.done r, t)) :
    Ended M p loc s r t :=
  ((verified_session hcur hfit hm).runs _ h).post

theorem handling_independent (hcur : s.ledger.current = none) (hfit : p.Fits)
    (hm : m.load (slotBase x) p.encode.length = p.encode)
    (hm' : m'.load (slotBase x) p.encode.length = p.encode)
    {c : Receiver (Option Locals) × Receiver.State F}
    (h : (handling M m x loc buf s).Reachable c) : (handling M m' x loc buf s).Reachable c := by
  refine Verified.reachable_weaken
    (M := Receiver.semantics M (.session m' (UInt8.ofNat x.val)))
    (verified_session hcur hfit hm) rfl (fun o t r hD hr => ?_) h
  exact ⟨hr.1, session_of_session hm hm' hD hr.2⟩

end Handling

/-- Whatever a slot held before, the receiver finds the fields of the packet that was written
into it, handles the packet as what it says, and runs as over any other earlier content. -/
theorem packet_round_trip {p : Packet} {x : Slot} {m local' : Memory} {sges : List Sge}
    (hp : Sendable p) (hl : Layout m x p local' sges) (stale : Memory) :
    Decodes (stale.store (slotBase x) (gather local' sges)) (slotBase x) p ∧
    ∀ {F : Type} (M : Semantics fileSignature F) (loc : Locals) (buf : Nat)
      (s : Receiver.State F), s.ledger.current = none →
      (∀ r t, (handling M (stale.store (slotBase x) (gather local' sges)) x loc buf s).Reachable
        (.done r, t) → Ended M p loc s r t) ∧
      ∀ (stale' : Memory) c,
        (handling M (stale.store (slotBase x) (gather local' sges)) x loc buf s).Reachable c ↔
        (handling M (stale'.store (slotBase x) (gather local' sges)) x loc buf s).Reachable c := by
  rw [hl.gather]
  have hload : ∀ m : Memory, (m.store (slotBase x) p.encode).load (slotBase x) p.encode.length =
    p.encode := fun m => Memory.load_store_self m _ _
  refine ⟨decodes hp (hload stale), fun M loc buf s hcur => ⟨fun r t hreach => ?_, ?_⟩⟩
  · exact handling_ends hcur hp.fits (hload stale) hreach
  · intro stale' c
    exact ⟨handling_independent hcur hp.fits (hload stale) (hload stale'),
      handling_independent hcur hp.fits (hload stale') (hload stale)⟩

/-! ## A chunk over a slot full of ones -/

/-- The chunk is for offset 2 of a file; it is gathered from `SCP_DATA_OFFSET` of slot 2. -/
def smallChunk : Packet := .fileData 3 2 ([7, 8, 9, 10].take 3)

def overOnes : Memory := Memory.store (fun _ => 1) (slotBase 2) smallChunk.encode

/-- A file of six bytes that is open. -/
def sixBytes : FileSystem where
  entry x := if x = [[102]] then some (.file 0) else none
  content _ := [1, 2, 3, 4, 5, 6]
  descriptor fd := if fd = 3 then some (0, 0) else none
  nextIno := 1
  cwd := []

/-- The receiver with a window of receives. -/
def receiving : Receiver.State FileSystem :=
  let s := Receiver.initState sixBytes
  { s with ctx := { s.ctx with sessionEstablished := true, cdcRecvSlots := rdmaCdcRecvSlots } }

def inFile : Locals := ⟨some 3, [47, 102], [47]⟩

/-- Nothing fails, and the buffer holds `m`. -/
def reading (m : Memory) (slotId : UInt8) :
    (o : Receiver.Op) → Receiver.State FileSystem → Option (Receiver.Response o)
  | .get, s => some s.ctx
  | .update _, _ | .transDestroy, _ => some ()
  | .file o, s => some (FileCall.answer 4 o s.os)
  | .load off len, _ => some (m.load off len)
  | .qpCreate, _ | .sockEstablished, _ | .registerMr, _ | .exchange, _ | .modifyQp _, _
  | .postRecv _ _, _ | .postSend _, _ => some true
  | .queryQp, s => some (some s.qp)
  | .readCdc _, _ => some { Cdc.zero with slotId := slotId }
  | .pollCq, _ | .loadCString _, _ | .undefined _, _ => none

theorem reading_allowed {m : Memory} {slotId : UInt8} (o : Receiver.Op)
    (s : Receiver.State FileSystem) (r : Receiver.Response o)
    (h : reading m slotId o s = some r) :
    (Receiver.semantics fileCalls (.session m slotId)).allow o s r := by
  cases o with
  | load off len =>
    cases h
    exact ⟨Memory.length_load .., rfl⟩
  | file o =>
    cases h
    exact ⟨FileCall.answer_allowed 4 o s.os, trivial⟩
  | pollCq | loadCString | undefined => cases h
  | _ => cases h; exact ⟨by first | rfl | trivial, by first | rfl | trivial⟩

/-- The handling of the chunk, to its end. -/
def chunkRun : Receiver (Option Locals) × Receiver.State FileSystem :=
  Program.exec Receiver.bodies (Receiver.semantics fileCalls (.session overOnes 2))
    (reading overOnes 2) 60 (handleSignal inFile 0, receiving)

/-- Over a slot full of ones the chunk lands in the file, and over any other slot it would. -/
theorem packet_round_trip_chunk : Decodes overOnes (slotBase 2) smallChunk ∧
    (∃ r, chunkRun.1 = .done r ∧ Ended fileCalls smallChunk inFile receiving r chunkRun.2) ∧
    chunkRun.2.os.content 0 = [1, 2, 7, 8, 9, 6] ∧
    ∀ stale : Memory, (handling fileCalls (stale.store (slotBase 2) smallChunk.encode) 2 inFile 0
      receiving).Reachable chunkRun := by
  have hp : Sendable smallChunk := ⟨by decide, by decide, by decide, by decide⟩
  have hl : Layout (fun _ => 0) 2 smallChunk _ _ := .chunk
  obtain ⟨hdecodes, hhandling⟩ := packet_round_trip hp hl fun _ => 1
  obtain ⟨hends, hindependent⟩ := hhandling fileCalls inFile 0 receiving rfl
  rw [hl.gather] at hdecodes hends hindependent
  have hreach : (handling fileCalls overOnes 2 inFile 0 receiving).Reachable chunkRun :=
    ⟨_, rfl, Program.exec_runs reading_allowed 60 _⟩
  have hdone : (chunkRun.1.result?).isSome = true := by decide +kernel
  obtain ⟨r, hr⟩ := Option.isSome_iff_exists.mp hdone
  have hend : chunkRun = (.done r, chunkRun.2) := Prod.ext (Program.eq_done_of_result? hr) rfl
  refine ⟨hdecodes, ⟨r, congrArg Prod.fst hend, hends r _ (hend ▸ hreach)⟩, by decide +kernel,
    fun stale => ?_⟩
  exact (hindependent stale chunkRun).mp hreach

end ScpRdma.Transfer

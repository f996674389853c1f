import ScpRdma.Foundations.Bytes

/-!
# Packets and signals

The records of the transfer protocol as packed bytes, in the order of their fields, and the
CDC signal that announces a packet or acknowledges it. Integers are stored as a
little-endian host stores them.
-/
namespace ScpRdma
open Foundations

/-- `SCP_MAX_FILENAME_LEN` -/
def scpMaxFilenameLen : Nat := 256
/-- `SCP_MAX_PATH_LEN` -/
def scpMaxPathLen : Nat := 4096
/-- `SCP_CHUNK_SIZE` -/
def scpChunkSize : Nat := 16 * 1024 * 1024
/-- `SCP_DATA_OFFSET`: file data starts here in a local slot, behind the chunk header. -/
def scpDataOffset : Nat := 4096
/-- `SCP_COMBINED_CHUNK_SIZE`: the size of a slot. -/
def scpCombinedChunkSize : Nat := scpChunkSize + scpDataOffset
/-- `DUAL_BUFFER_SLOTS` -/
def dualBufferSlots : Nat := 4
/-- `SCP_MULTI_BUFFER_TOTAL_SIZE` -/
def scpMultiBufferTotalSize : Nat := scpCombinedChunkSize * dualBufferSlots
/-- `RDMA_CDC_RECV_SLOTS` -/
def rdmaCdcRecvSlots : Nat := 8
/-- `SCP_PROTOCOL_MAGIC` -/
def scpProtocolMagic : Nat := 0x53435052
/-- `SCP_PROTOCOL_VERSION` -/
def scpProtocolVersion : Nat := 1

theorem scpChunkSize_eq : scpChunkSize = 16777216 := rfl
theorem scpDataOffset_eq : scpDataOffset = 4096 := rfl
theorem scpCombinedChunkSize_eq : scpCombinedChunkSize = 16781312 := rfl
theorem scpMultiBufferTotalSize_eq : scpMultiBufferTotalSize = 67125248 := rfl

/-- A slot of the session buffer. -/
abbrev Slot := Fin 4

instance neZeroSlots : NeZero 4 := ⟨Nat.succ_ne_zero 3⟩

/-- Where a slot starts in the session buffer. -/
def slotBase (s : Slot) : Nat := s.val * scpCombinedChunkSize

/-- The range `[off, off + len)` lies in slot `s`. -/
def InSlot (s : Slot) (off len : Nat) : Prop :=
  slotBase s ≤ off ∧ off + len ≤ slotBase s + scpCombinedChunkSize

instance (s : Slot) (off len : Nat) : Decidable (InSlot s off len) :=
  inferInstanceAs (Decidable (_ ∧ _))

/-- Different slots share no byte. -/
theorem InSlot.disjoint {s t : Slot} {off len off' len' : Nat} (h : InSlot s off len)
    (h' : InSlot t off' len') (hne : s ≠ t) : off + len ≤ off' ∨ off' + len' ≤ off := by
  have : s.val ≠ t.val := fun hv => hne (Fin.ext hv)
  simp only [InSlot, slotBase, scpCombinedChunkSize_eq] at h h'
  omega

theorem inSlot_zero {len : Nat} (h : len ≤ scpCombinedChunkSize) : InSlot 0 0 len :=
  ⟨le_rfl, by simpa [slotBase] using h⟩

theorem inSlot_start {x : Slot} {len : Nat} (h : len ≤ scpCombinedChunkSize) :
    InSlot x (slotBase x) len := ⟨le_rfl, Nat.add_le_add_left h _⟩

theorem inSlot_base {x : Slot} {i len : Nat} (h : i + len ≤ scpCombinedChunkSize) :
    InSlot x (slotBase x + i) len := ⟨Nat.le_add_right _ _, by omega⟩

/-- `scp_cmd_type_t` -/
inductive CmdType where
  | none | fileMeta | fileData | dirEnter | dirLeave | transferEnd | error | ack
  deriving DecidableEq, Repr

def CmdType.byte : CmdType → UInt8
  | .none => 0
  | .fileMeta => 1
  | .fileData => 2
  | .dirEnter => 3
  | .dirLeave => 4
  | .transferEnd => 5
  | .error => 6
  | .ack => 7

/-- `scp_file_type_t` -/
inductive FileType where
  | regular | directory | symlink
  deriving DecidableEq, Repr

def FileType.byte : FileType → UInt8
  | .regular => 0
  | .directory => 1
  | .symlink => 2

/-- Sizes of the packed records. -/
def packetHeaderSize : Nat := 16
def fileMetaSize : Nat := 300
def dataChunkSize : Nat := 36
def dirInfoSize : Nat := 280
def transferEndSize : Nat := 36

/-- `scp_init_packet_header`, as the sixteen bytes it leaves in a zeroed record. -/
def scpInitPacketHeader (cmd : CmdType) (payloadLen : Nat) : Bytes :=
  leBytes 4 scpProtocolMagic ++ [UInt8.ofNat scpProtocolVersion, cmd.byte] ++ leBytes 2 0 ++
    leBytes 4 payloadLen ++ leBytes 4 0

@[simp] theorem length_scpInitPacketHeader (cmd : CmdType) (n : Nat) :
    (scpInitPacketHeader cmd n).length = packetHeaderSize := by
  simp [scpInitPacketHeader, packetHeaderSize]

/-- What one packet says, before it is laid out in bytes. -/
inductive Packet where
  | fileMeta (name : Bytes) (fileSize fileMode : Nat) (fileType : FileType) (totalChunks : Nat)
  | fileData (chunkIndex offset : Nat) (payload : Bytes)
  | dirEnter (name : Bytes)
  | dirLeave
  | transferEnd
  deriving DecidableEq

/-- `scp_data_chunk_t` in front of `len` payload bytes. -/
def dataChunkHeader (chunkIndex offset len : Nat) : Bytes :=
  scpInitPacketHeader .fileData (len + dataChunkSize - packetHeaderSize) ++
    leBytes 4 chunkIndex ++ leBytes 4 len ++ leBytes 8 offset ++ leBytes 4 0

/-- The bytes that reach the remote slot. -/
def Packet.encode : Packet → Bytes
  | .fileMeta name fileSize fileMode fileType totalChunks =>
    scpInitPacketHeader .fileMeta (fileMetaSize - packetHeaderSize) ++
      strncpyField name (scpMaxFilenameLen - 1) scpMaxFilenameLen ++
      leBytes 8 fileSize ++ leBytes 4 fileMode ++ [fileType.byte] ++ [0, 0, 0] ++
      leBytes 4 totalChunks ++ leBytes 8 0
  | .fileData chunkIndex offset payload =>
    dataChunkHeader chunkIndex offset payload.length ++ payload
  | .dirEnter name =>
    scpInitPacketHeader .dirEnter (dirInfoSize - packetHeaderSize) ++
      strncpyField name (scpMaxFilenameLen - 1) scpMaxFilenameLen ++ leBytes 4 0 ++ leBytes 4 0
  | .dirLeave => scpInitPacketHeader .dirLeave 0
  | .transferEnd =>
    scpInitPacketHeader .transferEnd (transferEndSize - packetHeaderSize) ++
      leBytes 8 0 ++ leBytes 4 0 ++ leBytes 4 0 ++ leBytes 4 0

/-- A packet and the slot that carries it. -/
abbrev Parcel := Slot × Packet

def Packet.cmd : Packet → CmdType
  | .fileMeta .. => .fileMeta
  | .fileData .. => .fileData
  | .dirEnter _ => .dirEnter
  | .dirLeave => .dirLeave
  | .transferEnd => .transferEnd

theorem Packet.field_magic (p : Packet) : field p.encode 0 4 = leBytes 4 scpProtocolMagic := by
  cases p <;> simp [field, encode, dataChunkHeader, scpInitPacketHeader, leBytes]

theorem Packet.field_version (p : Packet) :
    field p.encode 4 1 = [UInt8.ofNat scpProtocolVersion] := by
  cases p <;> simp [field, encode, dataChunkHeader, scpInitPacketHeader, leBytes]

theorem Packet.field_cmd (p : Packet) : field p.encode 5 1 = [p.cmd.byte] := by
  cases p <;> simp [field, encode, dataChunkHeader, scpInitPacketHeader, leBytes, cmd]

@[simp] theorem length_dataChunkHeader (i off len : Nat) :
    (dataChunkHeader i off len).length = dataChunkSize := by
  simp [dataChunkHeader, packetHeaderSize, dataChunkSize]

section Fields

variable (name : Bytes) (size mode : Nat) (type : FileType) (chunks i off : Nat) (payload : Bytes)

/-- The name in a meta record ends before the record does. -/
theorem Packet.drop_fileName : ∃ rest, (Packet.fileMeta name size mode type chunks).encode.drop 16 =
    strncpyField name 255 256 ++ rest := by
  simp only [encode, List.append_assoc]
  rw [← List.append_assoc]
  exact ⟨_, List.drop_left' (length_scpInitPacketHeader _ _)⟩

theorem Packet.drop_dirName : ∃ rest, (Packet.dirEnter name).encode.drop 16 =
    strncpyField name 255 256 ++ rest := by
  simp only [encode, List.append_assoc]
  rw [← List.append_assoc]
  exact ⟨_, List.drop_left' (length_scpInitPacketHeader _ _)⟩

theorem Packet.field_fileMode :
    field (Packet.fileMeta name size mode type chunks).encode 280 4 = leBytes 4 mode := by
  have h : (Packet.fileMeta name size mode type chunks).encode =
    (scpInitPacketHeader .fileMeta (fileMetaSize - packetHeaderSize) ++
      strncpyField name 255 256 ++ leBytes 8 size) ++ leBytes 4 mode ++
      ([type.byte] ++ [0, 0, 0] ++ leBytes 4 chunks ++ leBytes 8 0) := by
    simp [encode, scpMaxFilenameLen]
  rw [h]
  exact field_append (by simp [length_strncpyField, packetHeaderSize]) (by simp)

theorem Packet.field_fileType :
    field (Packet.fileMeta name size mode type chunks).encode 284 1 = [type.byte] := by
  have h : (Packet.fileMeta name size mode type chunks).encode =
    (scpInitPacketHeader .fileMeta (fileMetaSize - packetHeaderSize) ++
      strncpyField name 255 256 ++ leBytes 8 size ++ leBytes 4 mode) ++ [type.byte] ++
      ([0, 0, 0] ++ leBytes 4 chunks ++ leBytes 8 0) := by
    simp [encode, scpMaxFilenameLen]
  rw [h]
  exact field_append (by simp [length_strncpyField, packetHeaderSize]) (by simp)

theorem Packet.field_chunkSize :
    field (Packet.fileData i off payload).encode 20 4 = leBytes 4 payload.length := by
  simp [field, encode, dataChunkHeader, scpInitPacketHeader, leBytes]

theorem Packet.field_offset :
    field (Packet.fileData i off payload).encode 24 8 = leBytes 8 off := by
  simp [field, encode, dataChunkHeader, scpInitPacketHeader, leBytes]

theorem Packet.field_payload (len : Nat) :
    field (Packet.fileData i off payload).encode 36 len = payload.take len := by
  simp [field, encode, dataChunkHeader, scpInitPacketHeader, leBytes]

end Fields

/-- What the sender relies on when it lays out a packet: the payload fits its slot and the
chunk numbers fit their fields. -/
def Packet.Fits : Packet → Prop
  | .fileMeta _ fileSize _ _ totalChunks => fileSize < 2 ^ 64 ∧ totalChunks < 2 ^ 32
  | .fileData chunkIndex offset payload =>
    chunkIndex < 2 ^ 32 ∧ offset < 2 ^ 64 ∧ payload.length ≤ scpChunkSize
  | _ => True

theorem Packet.length_encode (p : Packet) : p.encode.length = match p with
    | .fileMeta .. => fileMetaSize
    | .fileData _ _ payload => dataChunkSize + payload.length
    | .dirEnter _ => dirInfoSize
    | .dirLeave => packetHeaderSize
    | .transferEnd => transferEndSize := by
  cases p <;> simp [encode, packetHeaderSize, fileMetaSize, dirInfoSize, transferEndSize,
    length_strncpyField, scpMaxFilenameLen]

theorem Packet.length_encode_le {p : Packet} (h : p.Fits) :
    p.encode.length ≤ scpCombinedChunkSize := by
  rw [p.length_encode]
  cases p with
  | fileData i off payload =>
    have := h.2.2
    simp only [dataChunkSize, scpCombinedChunkSize_eq, scpChunkSize_eq] at *
    omega
  | _ => simp [fileMetaSize, dirInfoSize, packetHeaderSize, transferEndSize,
      scpCombinedChunkSize_eq]

theorem Packet.packetHeaderSize_le (p : Packet) : packetHeaderSize ≤ p.encode.length := by
  rw [p.length_encode]
  cases p with
  | fileData i off payload => exact le_trans (by decide) (Nat.le_add_right dataChunkSize _)
  | _ => simp [packetHeaderSize, fileMetaSize, dirInfoSize, transferEndSize]

/-- The fields of `rdma_cdc_t` that a function of the transfer reads or sets. -/
structure Cdc where
  clientIsWrite : UInt8
  serverIsConfirmed : UInt8
  slotId : UInt8
  signalType : UInt8
  credits : UInt16
  deriving DecidableEq, Repr

/-- The zeroed signal, as `memset` leaves it. -/
def Cdc.zero : Cdc := ⟨0, 0, 0, 0, 0⟩

/-- The signal that announces the packet in slot `s`. -/
def Cdc.dataReady (s : Slot) : Cdc :=
  { Cdc.zero with slotId := UInt8.ofNat s.val, clientIsWrite := 1 }

/-- The range check `slot_id >= 0 && slot_id < DUAL_BUFFER_SLOTS`. -/
def slotOfInt (i : Int) : Option Slot :=
  if h : 0 ≤ i ∧ i < 4 then some ⟨i.toNat, by omega⟩ else none

/-- The slot a signal names, if it is one. -/
def Cdc.slot? (c : Cdc) : Option Slot := slotOfInt c.slotId.toNat

theorem Cdc.slot?_of_slotId {c : Cdc} {s : Slot} (h : c.slotId = UInt8.ofNat s.val) :
    c.slot? = some s := by
  have hs : (UInt8.ofNat s.val).toNat = s.val := by simp; omega
  simp [slot?, slotOfInt, h, hs]

end ScpRdma

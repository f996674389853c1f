import ScpRdma.Foundations.Program
import ScpRdma.Foundations.Channel
import ScpRdma.Protocol
import ScpRdma.Session

/-!
# The sending program

`scp_rdma_sender.c` and the part of the connection code it runs, function by function.
System calls, verbs, changes of the context and the progress callback are operations. Prints
are left out.
-/
namespace ScpRdma
open Foundations

namespace Sender

/-- A path or a name, as the bytes of a C string. -/
abbrev Path := Bytes

inductive FileKind where
  | regular | directory | symlink | other
  deriving DecidableEq, Repr

/-- The fields of `struct stat` that are read. -/
structure Stat where
  kind : FileKind
  size : Nat
  mode : Nat

structure Config where
  recursive : Bool
  noLink : Bool

/-- What the sender reads and writes of `scp_rdma_context_t`. -/
structure Ctx where
  sessionEstablished : Bool
  sessionSge : Sge
  slotFree : Slot → Bool
  currentSlot : Slot
  pendingAcks : Int
  totalBytes : UInt64
  totalFiles : UInt32
  totalDirs : UInt32
  totalSymlinks : UInt32
  cdcRecvSlots : Nat
  cdcRecvPostIdx : Nat
  cdcRecvConsIdx : Nat

/-- The assignments of the sender to its context. The two halves of a change of
`slot_free` and `pending_acks` stand together. -/
inductive Update where
  | freeSlot (s : Slot)
  | busySlot (s : Slot)
  | restart
  | nextSlot (s : Slot)
  | addBytes (n : Nat)
  | countFile
  | countDir
  | countSymlink
  | establish
  | setSge (sge : Sge)
  | acquire
  | consume
  | cdcBuffers

def Update.apply : Update → Ctx → Ctx
  | .freeSlot s, c => { c with
      slotFree := Function.update c.slotFree s true
      pendingAcks := c.pendingAcks - 1 }
  | .busySlot s, c => { c with
      slotFree := Function.update c.slotFree s false
      pendingAcks := c.pendingAcks + 1 }
  | .restart, c => { c with currentSlot := 0, pendingAcks := 0, slotFree := fun _ => true }
  | .nextSlot s, c => { c with currentSlot := s + 1 }
  | .addBytes n, c => { c with totalBytes := c.totalBytes + UInt64.ofNat n }
  | .countFile, c => { c with totalFiles := c.totalFiles + 1 }
  | .countDir, c => { c with totalDirs := c.totalDirs + 1 }
  | .countSymlink, c => { c with totalSymlinks := c.totalSymlinks + 1 }
  | .establish, c => { c with sessionEstablished := true }
  | .setSge sge, c => { c with sessionSge := sge }
  | .acquire, c => { c with cdcRecvPostIdx := (c.cdcRecvPostIdx + 1) % c.cdcRecvSlots }
  | .consume, c => { c with cdcRecvConsIdx := (c.cdcRecvConsIdx + 1) % c.cdcRecvSlots }
  | .cdcBuffers, c => { c with
      cdcRecvSlots := rdmaCdcRecvSlots
      cdcRecvPostIdx := 0
      cdcRecvConsIdx := 0 }

/-- The loop that polls. The code has no such value; it says in a run where the sender is. -/
inductive Site where
  | waitForSlot (s : Slot)
  | drainPendingAcks
  | waitForRdmaWriteCompletion
  | chunkLoop
  deriving DecidableEq

/-- An open file or directory stream. -/
abbrev Handle := Bytes

/-- What `readdir` gives: the name of an entry, or NULL, at the end of the directory and when
it fails. Only `errno` tells the two apart. -/
inductive Dirent where
  | entry (name : Path)
  | finish
  | failure
  deriving DecidableEq, Repr

/-- The answer of a `readdir` that does not fail, from the name that is next. -/
def Dirent.ofName? : Option Path → Dirent
  | some name => .entry name
  | none => .finish

@[simp] theorem Dirent.ofName?_eq_entry {name? : Option Path} {name : Path} :
    Dirent.ofName? name? = .entry name ↔ name? = some name := by
  cases name? <;> simp [ofName?]

inductive Op where
  | get
  | currentSlot
  | update (u : Update)
  | store (addr : Nat) (bs : Bytes)
  | stat (path : Path)
  | lstat (path : Path)
  | openFile (path : Path) (direct : Bool)
  | pread (fd : Handle) (addr len off : Nat)
  | close (fd : Handle)
  | readlink (path : Path) (size : Nat)
  | opendir (path : Path)
  | readdir (dir : Handle) (pos : Nat)
  | closedir (dir : Handle)
  | sockEstablished
  | registerMr
  | exchange
  | queryQp
  | modifyQp (st : QpState)
  | postRecv (buf wrId : Nat)
  | postWrite (sges : List Sge) (wrLen remote : Nat)
  | postSend (msg : Cdc)
  | progress (offset fileSize : Nat)
  | waitCompletion (site : Site) (maxWc : Nat) (timeoutMs : Int)
  | readCdc (buf : Nat)
  | transDestroy
  | undefined

/-- Booleans are success, `none` is failure. `undefined` is what the C standard leaves
undefined; it has no response, so no run goes past it. -/
def Response : Op → Type
  | .get => Ctx
  | .currentSlot => Slot
  | .stat _ | .lstat _ => Option Stat
  | .openFile _ _ | .opendir _ => Option Handle
  | .pread _ _ _ _ | .readlink _ _ => Option Bytes
  | .readdir _ _ => Dirent
  | .sockEstablished | .registerMr | .exchange | .modifyQp _ | .postRecv _ _
  | .postWrite _ _ _ | .postSend _ => Bool
  | .queryQp => Option QpState
  | .waitCompletion _ _ _ => Option (List Wc)
  | .readCdc _ => Cdc
  | .update _ | .store _ _ | .close _ | .closedir _ | .progress _ _ | .transDestroy => Unit
  | .undefined => Empty

/-- The loops and the recursion. Every one returns an `int`. -/
inductive Call where
  | waitForSlot (s : Slot)
  | drainPendingAcks
  | waitForRdmaWriteCompletion
  | sendDirectory (localPath remotePath : Path)
  | readdirLoop (dir : Handle) (pos : Nat) (localPath remotePath : Path)

def signature : Signature := ⟨Op, Response, Call, fun _ => Int⟩

end Sender

/-- A part of the sending program that returns `α`. -/
abbrev Sender := Foundations.Program Sender.signature

namespace Sender

abbrev ask (o : Op) : Sender (Response o) := Program.ask (S := signature) o
abbrev invoke (c : Call) : Sender Int := Program.invoke (S := signature) c

abbrev get : Sender Ctx := ask .get
abbrev currentSlot : Sender Slot := ask .currentSlot
abbrev update (u : Update) : Sender Unit := ask (.update u)
abbrev store (addr : Nat) (bs : Bytes) : Sender Unit := ask (.store addr bs)
abbrev sockEstablished : Sender Bool := ask .sockEstablished
abbrev registerMr : Sender Bool := ask .registerMr
abbrev exchange : Sender Bool := ask .exchange
abbrev modifyQp (st : QpState) : Sender Bool := ask (.modifyQp st)
abbrev postRecv (buf wrId : Nat) : Sender Bool := ask (.postRecv buf wrId)
abbrev postWrite (sges : List Sge) (wrLen remote : Nat) : Sender Bool :=
  ask (.postWrite sges wrLen remote)
abbrev postSend (msg : Cdc) : Sender Bool := ask (.postSend msg)

def waitForSlot (s : Slot) : Sender Int := invoke (.waitForSlot s)
def drainPendingAcks : Sender Int := invoke .drainPendingAcks
def waitForRdmaWriteCompletion : Sender Int := invoke .waitForRdmaWriteCompletion
def scpSendDirectory (localPath remotePath : Path) : Sender Int :=
  invoke (.sendDirectory localPath remotePath)

/-! ## The ring of CDC receive buffers -/

def rdmaCdcAcquirePostBuf : Sender (Option Nat) := do
  let ctx ← get
  if ctx.cdcRecvSlots = 0 then
    return none
  update .acquire
  return some ctx.cdcRecvPostIdx

def rdmaCdcConsumeBuf : Sender (Option Nat) := do
  let ctx ← get
  if ctx.cdcRecvSlots = 0 then
    return none
  update .consume
  return some ctx.cdcRecvConsIdx

/-! ## Completions -/

/-- The slot an ACK frees: the one in the consumed buffer, else the one in the completion. -/
def handleAckRecv (wrId : Nat) : Sender Unit := do
  let slotId ← (do
    match ← rdmaCdcConsumeBuf with
    | some buf => return ((← ask (.readCdc buf)).slotId.toNat : Int)
    | none => return (wrId : Int).bmod (2 ^ 32))
  match slotOfInt slotId with
  | some s =>
    let ctx ← get
    if ctx.slotFree s then
      return ()
    update (.freeSlot s)
  | none => return ()

/-- The loop of `harvest_completions` over a batch: ACKs harvested, errors counted. -/
def harvestBatch : List Wc → Nat → Nat → Sender (Nat × Nat)
  | [], harvested, errors => return (harvested, errors)
  | wc :: rest, harvested, errors => do
    if !wc.ok then
      harvestBatch rest harvested (errors + 1)
    else
      match wc.opcode with
      | .recv =>
        handleAckRecv wc.wrId
        harvestBatch rest (harvested + 1) errors
      | .rdmaWrite | .send => harvestBatch rest harvested errors

def harvestCompletions (site : Site) (blocking : Bool) : Sender Int := do
  let timeoutMs := if blocking then 100 else 0
  match ← ask (.waitCompletion site 16 timeoutMs) with
  | none => return -1
  | some wcs =>
    let (harvested, errors) ← harvestBatch wcs 0 0
    if errors > 0 then
      return -1
    return harvested

/-- The batch loop of `wait_for_rdma_write_completion`: `none` at a failed completion. -/
def writeBatch : List Wc → Bool → Sender (Option Bool)
  | [], writeDone => return some writeDone
  | wc :: rest, writeDone => do
    if !wc.ok then
      return none
    match wc.opcode with
    | .rdmaWrite => writeBatch rest true
    | .recv =>
      handleAckRecv wc.wrId
      writeBatch rest writeDone
    | .send => writeBatch rest writeDone

def waitForRdmaWriteCompletionBody : Sender Int := do
  match ← ask (.waitCompletion .waitForRdmaWriteCompletion 16 100) with
  | none => return -1
  | some [] => waitForRdmaWriteCompletion
  | some wcs =>
    match ← writeBatch wcs false with
    | none => return -1
    | some true => return 0
    | some false => waitForRdmaWriteCompletion

def waitForSlotBody (s : Slot) : Sender Int := do
  let ctx ← get
  if ctx.slotFree s then
    return 0
  if (← harvestCompletions (.waitForSlot s) true) < 0 then
    return -1
  waitForSlot s

def drainPendingAcksBody : Sender Int := do
  let ctx ← get
  if ctx.pendingAcks ≤ 0 then
    return 0
  if (← harvestCompletions .drainPendingAcks true) < 0 then
    return -1
  drainPendingAcks

/-! ## Posting one packet -/

/-- `rdma_trans_wr_t`: the session's own entry, read when the request is posted, or a list. -/
inductive SgeList where
  | session
  | own (sges : List Sge)

structure TransWr where
  sges : SgeList
  wrLen : Nat
  remoteOffset : Nat

def rdmaTransPost (wr : TransWr) : Sender Int := do
  let sges ← (do
    match wr.sges with
    | .session => return [(← get).sessionSge]
    | .own sges => return sges)
  if ← postWrite sges wr.wrLen wr.remoteOffset then
    return 0
  ask .transDestroy
  return 1

/-- Acquire the next CDC buffer and post a receive into it. -/
def postAckRecv (wrId : Nat) : Sender Int := do
  match ← rdmaCdcAcquirePostBuf with
  | none => return -1
  | some buf =>
    if ← postRecv buf wrId then
      return 0
    return -1

def scpRdmaSendSync (wr : TransWr) : Sender Int := do
  if (← waitForSlot 0) < 0 then
    return -1
  if (← postAckRecv 0) ≠ 0 then
    return -1
  if (← rdmaTransPost wr) ≠ 0 then
    return -1
  if (← waitForRdmaWriteCompletion) ≠ 0 then
    return -1
  update (.busySlot 0)
  if !(← postSend (Cdc.dataReady 0)) then
    update (.freeSlot 0)
    return -1
  if (← waitForSlot 0) < 0 then
    return -1
  return 0

/-! ## The session -/

def verbs : Session.Verbs signature where
  registerMr := registerMr
  cdcBuffers := update .cdcBuffers
  exchange := exchange
  queryQp := ask .queryQp
  modifyQp := modifyQp
  acquirePostBuf := rdmaCdcAcquirePostBuf
  postRecv := postRecv
  transDestroy := ask .transDestroy
  undefined _ := do return (← ask .undefined).elim

/-- The request with which the session is set up comes back with another `wr_len`; `none` is a
failure. -/
def scpPrepareTransferResources (wr : TransWr) : Sender (Option TransWr) := do
  let wr := { wr with wrLen := scpMultiBufferTotalSize }
  if !(← sockEstablished) then
    return none
  if (← Session.rdmaTransInit verbs) ≠ 0 then
    return none
  return some wr

/-- `if (!ctx->session_established)`, the same in all three send functions. -/
def establishSession (wr : TransWr) : Sender (Option TransWr) := do
  let ctx ← get
  if ctx.sessionEstablished then
    return some wr
  match ← scpPrepareTransferResources wr with
  | none => return none
  | some wr =>
    update .establish
    return some wr

/-- Point the session's entry at the start of `session_buf` and send `len` bytes of it. -/
def sendSessionBuf (wr : TransWr) (len : Nat) : Sender Int := do
  update (.setSge ⟨0, len⟩)
  scpRdmaSendSync wr

/-! ## Links, files and directories -/

def scpSendSymlink (localPath remotePath : Path) (st : Stat) : Sender Int := do
  match ← ask (.readlink localPath (scpMaxPathLen - 1)) with
  | none => return -1
  | some target =>
    store 0 (Packet.fileMeta remotePath target.length st.mode .symlink 1).encode
    match ← establishSession ⟨.session, fileMetaSize, 0⟩ with
    | none => return -1
    | some wr =>
      if (← sendSessionBuf wr fileMetaSize) ≠ 0 then
        return -1
      store (slotBase 0) (dataChunkHeader 0 0 target.length)
      store (slotBase 0 + dataChunkSize) target
      let wrLen := dataChunkSize + target.length
      update (.setSge ⟨slotBase 0, wrLen⟩)
      if (← scpRdmaSendSync ⟨.session, wrLen, slotBase 0⟩) ≠ 0 then
        return -1
      update .countSymlink
      return 0

/-- `(to_read + 4095) & ~4095` -/
def alignedSize (toRead : Nat) : Nat := (toRead + 4095) / 4096 * 4096

/-- The read of one chunk; what `O_DIRECT` reads past the end of the file is clipped. -/
def readChunk (fd : Handle) (direct : Bool) (dataPtr toRead offset : Nat) :
    Sender (Option Nat) := do
  if direct then
    match ← ask (.pread fd dataPtr (alignedSize toRead) offset) with
    | none => return none
    | some data => return some (min data.length toRead)
  else
    match ← ask (.pread fd dataPtr toRead offset) with
    | none => return none
    | some data => return some data.length

/-- How much the chunk at `offset` asks for. -/
def chunkToRead (fileSize offset : Nat) : Nat :=
  if offset + scpChunkSize > fileSize then fileSize - offset else scpChunkSize

/-- The chunk loop: `remaining` iterations are left, the next chunk has number `i`. -/
def chunkLoop (fd : Handle) (direct : Bool) (fileSize : Nat) : Nat → Nat → Nat → Sender Int
  | 0, _, _ => return 0
  | remaining + 1, i, offset => do
    let slot ← currentSlot
    if (← waitForSlot slot) < 0 then
      return -1
    let dataPtr := slotBase slot + scpDataOffset
    match ← readChunk fd direct dataPtr (chunkToRead fileSize offset) offset with
    -- `n <= 0` breaks out of the loop into its success tail
    | none | some 0 => return 0
    | some (n + 1) =>
      store (slotBase slot) (dataChunkHeader i offset (n + 1))
      if (← postAckRecv slot) ≠ 0 then
        return -1
      let sges := [⟨slotBase slot, dataChunkSize⟩, ⟨dataPtr, n + 1⟩]
      if (← rdmaTransPost ⟨.own sges, dataChunkSize + (n + 1), slotBase slot⟩) ≠ 0 then
        return -1
      if !(← postSend (Cdc.dataReady slot)) then
        return -1
      update (.busySlot slot)
      update (.nextSlot slot)
      update (.addBytes (n + 1))
      ask (.progress (offset + (n + 1)) fileSize)
      if (← harvestCompletions .chunkLoop false) < 0 then
        return -1
      chunkLoop fd direct fileSize remaining (i + 1) (offset + (n + 1))

/-- Open with `O_DIRECT`, else without. -/
def openSource (path : Path) : Sender (Option (Handle × Bool)) := do
  match ← ask (.openFile path true) with
  | some fd => return some (fd, true)
  | none =>
    match ← ask (.openFile path false) with
    | some fd => return some (fd, false)
    | none => return none

/-- `(st_size + SCP_CHUNK_SIZE - 1) / SCP_CHUNK_SIZE`, as `uint32_t`. The arithmetic is that of
`off_t`, signed, and wraps for the last sizes below `2 ^ 63`. -/
@[irreducible] def totalChunks (size : Nat) : Nat :=
  (Int.tdiv (Int.bmod (size + scpChunkSize - 1) (2 ^ 64)) scpChunkSize % 2 ^ 32).toNat

theorem totalChunks_lt (size : Nat) : totalChunks size < 2 ^ 32 := by
  unfold totalChunks
  omega

/-- Where nothing wraps the chunks are those that the size needs, as `uint32_t`. -/
theorem totalChunks_eq {size : Nat} (h : size + scpChunkSize ≤ 2 ^ 63) :
    totalChunks size = (size + scpChunkSize - 1) / scpChunkSize % 2 ^ 32 := by
  have hpos : 0 < scpChunkSize := by decide
  have hsum : (size + scpChunkSize - 1 : Int) = (size + scpChunkSize - 1 : Nat) := by omega
  unfold totalChunks
  rw [hsum, Int.bmod_eq_of_le (by omega) (by omega),
    Int.tdiv_eq_ediv_of_nonneg (Int.natCast_nonneg _)]
  omega

/-- The code reads `total_chunks` and `file_size` back from the packet in `session_buf`,
which nobody else writes. -/
def scpSendFile (localPath remotePath : Path) : Sender Int := do
  match ← ask (.stat localPath) with
  | none => return -1
  | some st =>
    match ← openSource localPath with
    | none => return -1
    | some (fd, direct) =>
      store 0 (Packet.fileMeta remotePath st.size st.mode .regular (totalChunks st.size)).encode
      match ← establishSession ⟨.session, fileMetaSize, 0⟩ with
      | none =>
        ask (.close fd)
        return -1
      | some wr =>
        if (← sendSessionBuf wr fileMetaSize) ≠ 0 then
          ask (.close fd)
          return -1
        update .restart
        if (← chunkLoop fd direct st.size (totalChunks st.size) 0 0) ≠ 0 then
          ask (.close fd)
          return -1
        if (← drainPendingAcks) < 0 then
          ask (.close fd)
          return -1
        ask (.close fd)
        update .countFile
        return 0

/-- The path of an entry of a directory. -/
def childPath (path name : Path) : Path := path ++ '/'.toUInt8 :: name

/-- `snprintf(sub, sizeof(sub), "%s/%s", path, name)` -/
def subPath (path name : Path) : Path := snprintf scpMaxPathLen (childPath path name)

theorem length_childPath (path name : Path) :
    (childPath path name).length = path.length + (name.length + 1) := by
  rw [childPath, List.length_append, List.length_cons]

/-- A path keeps the name of the entry when it fits its buffer, and only then. -/
theorem subPath_eq_iff {path name : Path} :
    subPath path name = childPath path name ↔ (childPath path name).length < scpMaxPathLen := by
  rw [subPath, snprintf, List.take_eq_self_iff]
  have hpos : 0 < scpMaxPathLen := by decide
  omega

def dot : Path := ['.'.toUInt8]
def dotDot : Path := ['.'.toUInt8, '.'.toUInt8]

def statEntry (cfg : Config) (path : Path) : Sender (Option Stat) :=
  if cfg.noLink then ask (.stat path) else ask (.lstat path)

/-- The `readdir` loop of `scp_send_directory`, at entry number `pos`. -/
def readdirLoopBody (cfg : Config) (dir : Handle) (pos : Nat) (localPath remotePath : Path) :
    Sender Int := do
  let next : Sender Int := invoke (.readdirLoop dir (pos + 1) localPath remotePath)
  match ← ask (.readdir dir pos) with
  -- `errno` is not looked at
  | .finish | .failure => return 0
  | .entry name =>
    if name = dot ∨ name = dotDot then
      next
    else
      let subLocal := subPath localPath name
      let subRemote := subPath remotePath name
      match ← statEntry cfg subLocal with
      -- an entry that cannot be examined is passed over
      | none => next
      | some st =>
        match st.kind with
        | .directory =>
          if cfg.recursive then
            if (← scpSendDirectory subLocal subRemote) ≠ 0 then
              return -1
          next
        | .symlink =>
          if (← scpSendSymlink subLocal subRemote st) ≠ 0 then
            return -1
          next
        | .regular | .other =>
          if (← scpSendFile subLocal subRemote) ≠ 0 then
            return -1
          next

def scpSendDirectoryBody (localPath remotePath : Path) : Sender Int := do
  match ← ask (.opendir localPath) with
  | none => return -1
  | some dir =>
    store 0 (Packet.dirEnter remotePath).encode
    match ← establishSession ⟨.session, dirInfoSize, 0⟩ with
    | none =>
      ask (.closedir dir)
      return -1
    | some wr =>
      if (← sendSessionBuf wr dirInfoSize) ≠ 0 then
        ask (.closedir dir)
        return -1
      if (← invoke (.readdirLoop dir 0 localPath remotePath)) ≠ 0 then
        ask (.closedir dir)
        return -1
      update .countDir
      -- the whole record is cleared, its header is sent
      store 0 (Packet.dirLeave.encode ++ List.replicate (dirInfoSize - packetHeaderSize) 0)
      if (← sendSessionBuf ⟨.session, packetHeaderSize, 0⟩ packetHeaderSize) ≠ 0 then
        ask (.closedir dir)
        return -1
      ask (.closedir dir)
      return 0

/-- Send whatever kind of object the path names. -/
def sendObject (localPath remotePath : Path) (st : Stat) : Sender Int :=
  match st.kind with
  | .directory => scpSendDirectory localPath remotePath
  | .symlink => scpSendSymlink localPath remotePath st
  | .regular | .other => scpSendFile localPath remotePath

def scpSenderRun (cfg : Config) (localPath remotePath : Path) : Sender Int := do
  match ← ask (.stat localPath) with
  | none => return -1
  | some _ =>
    match ← statEntry cfg localPath with
    | none => return -1
    | some st =>
      let ret ← sendObject localPath remotePath st
      if ret ≠ 0 then
        return ret
      store 0 Packet.transferEnd.encode
      -- the code points the entry at the packet first and sends only in a session
      update (.setSge ⟨0, transferEndSize⟩)
      let ctx ← get
      if ctx.sessionEstablished then
        let _ ← scpRdmaSendSync ⟨.session, transferEndSize, 0⟩
      return 0

def bodies (cfg : Config) : Bodies signature
  | .waitForSlot s => waitForSlotBody s
  | .drainPendingAcks => drainPendingAcksBody
  | .waitForRdmaWriteCompletion => waitForRdmaWriteCompletionBody
  | .sendDirectory l r => scpSendDirectoryBody l r
  | .readdirLoop dir pos l r => readdirLoopBody cfg dir pos l r

end Sender

end ScpRdma

import ScpRdma.Foundations.Channel
import ScpRdma.Receiver.Files
import ScpRdma.Session

/-!
# The receiving program

`scp_rdma_receiver.c` and the part of the connection code it runs, function by function.
Reads of the session buffer are operations on byte ranges, so that a read may leave its slot.
A field of a record is read where the code first uses it, once.
-/
namespace ScpRdma
open Foundations

namespace Receiver

/-- What the receiver reads and writes of `scp_rdma_context_t`, and the static `meta_type`. -/
structure Ctx where
  sessionEstablished : Bool
  isAlive : Bool
  metaType : UInt8
  localCredits : Int
  totalBytes : UInt64
  totalFiles : UInt32
  totalDirs : UInt32
  totalSymlinks : UInt32
  cdcRecvSlots : Nat
  cdcRecvPostIdx : Nat
  cdcRecvConsIdx : Nat

inductive Update where
  | establish
  | alive
  | setMetaType (type : UInt8)
  | setCredits (n : Int)
  | addBytes (n : Nat)
  | countFile
  | countDir
  | countSymlink
  | acquire
  | consume
  | cdcBuffers

def Update.apply : Update → Ctx → Ctx
  | .establish, c => { c with sessionEstablished := true }
  | .alive, c => { c with isAlive := true }
  | .setMetaType type, c => { c with metaType := type }
  | .setCredits n, c => { c with localCredits := n }
  | .addBytes n, c => { c with totalBytes := c.totalBytes + UInt64.ofNat n }
  | .countFile, c => { c with totalFiles := c.totalFiles + 1 }
  | .countDir, c => { c with totalDirs := c.totalDirs + 1 }
  | .countSymlink, c => { c with totalSymlinks := c.totalSymlinks + 1 }
  | .acquire, c => { c with cdcRecvPostIdx := (c.cdcRecvPostIdx + 1) % c.cdcRecvSlots }
  | .consume, c => { c with cdcRecvConsIdx := (c.cdcRecvConsIdx + 1) % c.cdcRecvSlots }
  | .cdcBuffers, c => { c with
      cdcRecvSlots := rdmaCdcRecvSlots
      cdcRecvPostIdx := 0
      cdcRecvConsIdx := 0 }

/-- Where the code leaves what the C standard defines. -/
inductive Undefined where
  | slotOverflow
  | emptyPath
  | nullBuffer
  deriving DecidableEq

inductive Op where
  | get
  | update (u : Update)
  | file (o : FileOp)
  | load (off len : Nat)
  | loadCString (off : Nat)
  | qpCreate
  | sockEstablished
  | registerMr
  | exchange
  | queryQp
  | modifyQp (st : QpState)
  | postRecv (buf wrId : Nat)
  | postSend (msg : Cdc)
  | pollCq
  | readCdc (buf : Nat)
  | transDestroy
  | undefined (why : Undefined)

/-- `pollCq` answers `none` for an error and `some none` for an empty queue; `loadCString` the
bytes before the NUL that ends the read. -/
def Response : Op → Type
  | .get => Ctx
  | .file o => FileResponse o
  | .load _ _ | .loadCString _ => Bytes
  | .qpCreate | .sockEstablished | .registerMr | .exchange | .modifyQp _ | .postRecv _ _
  | .postSend _ => Bool
  | .queryQp => Option QpState
  | .pollCq => Option (Option Wc)
  | .readCdc _ => Cdc
  | .update _ | .transDestroy => Unit
  | .undefined _ => Empty

/-- The loops of `scp_receiver_run` and `rdma_cdc_completion`. -/
inductive Call where
  | receiveLoop (loc : Locals)
  | cdcCompletion

def signature : Signature := ⟨Op, Response, Call, fun _ => Int⟩

end Receiver

/-- A part of the receiving program that returns `α`. -/
abbrev Receiver := Foundations.Program Receiver.signature

namespace Receiver

abbrev ask (o : Op) : Receiver (Response o) := Program.ask (S := signature) o
abbrev get : Receiver Ctx := ask .get
abbrev update (u : Update) : Receiver Unit := ask (.update u)
abbrev load (off len : Nat) : Receiver Bytes := ask (.load off len)
abbrev loadCString (off : Nat) : Receiver Bytes := ask (.loadCString off)
abbrev qpCreate : Receiver Bool := ask .qpCreate
abbrev sockEstablished : Receiver Bool := ask .sockEstablished
abbrev postRecv (buf wrId : Nat) : Receiver Bool := ask (.postRecv buf wrId)
abbrev postSend (msg : Cdc) : Receiver Bool := ask (.postSend msg)
abbrev readCdc (buf : Nat) : Receiver Cdc := ask (.readCdc buf)
def undefined (why : Undefined) (α : Type) : Receiver α := do
  return (← ask (.undefined why)).elim

def receiveLoop (loc : Locals) : Receiver Int :=
  Program.invoke (S := signature) (.receiveLoop loc)
def rdmaCdcCompletion : Receiver Int := Program.invoke (S := signature) .cdcCompletion

/-- Make the file calls of `p`. -/
def files {α : Type} : Files α → Receiver α
  | .done a => .done a
  | .op o k => .op (Op.file o) fun r => files (k r)
  | .call c _ => nomatch (c : Empty)

/-! ## The ring of CDC receive buffers -/

def rdmaCdcAcquirePostBuf : Receiver (Option Nat) := do
  let ctx ← get
  if ctx.cdcRecvSlots = 0 then
    return none
  update .acquire
  return some ctx.cdcRecvPostIdx

def rdmaCdcConsumeBuf : Receiver (Option Nat) := do
  let ctx ← get
  if ctx.cdcRecvSlots = 0 then
    return none
  update .consume
  return some ctx.cdcRecvConsIdx

/-- `rdma_cdc_completion`: poll single completions until a receive. -/
def cdcCompletionBody : Receiver Int := do
  match ← ask .pollCq with
  | none => return 1
  | some none => rdmaCdcCompletion
  | some (some wc) =>
    if !wc.ok then
      return 1
    match wc.opcode with
    | .recv => return 0
    | .rdmaWrite | .send => rdmaCdcCompletion

/-! ## The session -/

def verbs : Session.Verbs signature where
  registerMr := ask .registerMr
  cdcBuffers := update .cdcBuffers
  exchange := ask .exchange
  queryQp := ask .queryQp
  modifyQp st := ask (.modifyQp st)
  acquirePostBuf := rdmaCdcAcquirePostBuf
  postRecv := postRecv
  transDestroy := ask .transDestroy
  undefined := undefined .nullBuffer

/-- Acquire the next CDC buffer and post a receive into it. -/
def postNextRecv : Receiver Bool := do
  match ← rdmaCdcAcquirePostBuf with
  | none => return false
  | some buf => postRecv buf 0

def scpPrepareReceiveResources : Receiver Int := do
  let ctx ← get
  if !ctx.isAlive then
    if !(← qpCreate) then
      return -1
    update .alive
  if !(← sockEstablished) then
    return -1
  if (← Session.rdmaTransInit verbs) ≠ 0 then
    return -1
  return 0

/-- Post `extra` more receives. -/
def extendWindow : Nat → Receiver Bool
  | 0 => return true
  | extra + 1 => do
    if !(← postNextRecv) then
      return false
    extendWindow extra

/-- The first part of the loop body: the session and its receive window. -/
def establishSession : Receiver Bool := do
  let ctx ← get
  if ctx.sessionEstablished then
    return true
  if (← scpPrepareReceiveResources) ≠ 0 then
    return false
  update .establish
  let ctx ← get
  if !(← extendWindow (ctx.cdcRecvSlots - 1)) then
    return false
  let ctx ← get
  update (.setCredits ctx.cdcRecvSlots)
  return true

/-! ## Packets -/

/-- The fields of a packed record, at their offsets. -/
def fileNameOff : Nat := 16
def fileModeOff : Nat := 280
def fileTypeOff : Nat := 284
def dirNameOff : Nat := 16
def chunkSizeOff : Nat := 20
def chunkOffsetOff : Nat := 24

/-- `slot_id * SCP_COMBINED_CHUNK_SIZE`, in `int`. -/
def slotOffset (slotId : UInt8) : Receiver Nat :=
  if slotId.toNat * scpCombinedChunkSize < 2 ^ 31 then
    return slotId.toNat * scpCombinedChunkSize
  else undefined .slotOverflow Nat

/-- `scp_validate_header` on the sixteen bytes of a header. -/
def scpValidateHeader (header : Bytes) : Int :=
  if leNat (field header 0 4) ≠ scpProtocolMagic then -1
  else if leNat (field header 4 1) ≠ scpProtocolVersion then -2
  else 0

def cmdType (header : Bytes) : Nat := leNat (field header 5 1)

/-- `scp_mkdir_recursive`; of an empty path it reads the byte before its copy. -/
def mkdirRecursive (path : Path) : Receiver Int :=
  if path = [] then undefined .emptyPath Int else files (scpMkdirRecursive path)

/-- Create what stands before the last slash. -/
def mkdirParent (path : Path) : Receiver Unit := do
  match parentPath path with
  | some parent =>
    let _ ← mkdirRecursive parent
  | none => return ()

/-- The branch of `SCP_CMD_FILE_META`. -/
def handleFileMeta (loc : Locals) (base : Nat) : Receiver Locals := do
  let type := leNat (← load (base + fileTypeOff) 1)
  update (.setMetaType (UInt8.ofNat type))
  let name ← loadCString (base + fileNameOff)
  let path := targetPath loc.baseDir name
  if ← files (isDirectory path) then
    files (closeCurrent loc.currentFd)
    return { loc with currentFd := none, currentPath := path }
  else
    mkdirParent path
    files (closeCurrent loc.currentFd)
    if type ≠ FileType.symlink.byte.toNat then
      let mode := leNat (← load (base + fileModeOff) 4)
      let fd ← ask (.file (.openFile path mode))
      update .countFile
      return { loc with currentFd := fd, currentPath := path }
    else
      return { loc with currentFd := none, currentPath := path }

/-- `len` for a link target: what `link_target` has room for, its NUL apart. -/
def targetLen (size : Nat) : Nat := if size ≥ scpMaxPathLen then scpMaxPathLen - 1 else size

theorem targetLen_le (size : Nat) : targetLen size ≤ size := by
  unfold targetLen
  split <;> omega

theorem targetLen_lt (size : Nat) : targetLen size < scpMaxPathLen := by
  unfold targetLen
  split
  · decide
  · omega

/-- The branch of `SCP_CMD_FILE_DATA`. -/
def handleFileData (loc : Locals) (base : Nat) : Receiver Locals := do
  let ctx ← get
  if ctx.metaType = FileType.symlink.byte then
    let size := leNat (← load (base + chunkSizeOff) 4)
    let target := cString (← load (base + dataChunkSize) (targetLen size))
    if ← files (replaceByLink target loc.currentPath) then
      update .countSymlink
    return loc
  else
    match loc.currentFd with
    | none => return loc
    | some fd =>
      let off := leNat (← load (base + chunkOffsetOff) 8)
      let size := leNat (← load (base + chunkSizeOff) 4)
      let data ← load (base + dataChunkSize) size
      files (writeChunk fd off data)
      update (.addBytes size)
      return loc

/-- The branch of `SCP_CMD_DIR_ENTER`. -/
def handleDirEnter (loc : Locals) (base : Nat) : Receiver Locals := do
  let name ← loadCString (base + dirNameOff)
  let path := targetPath loc.baseDir name
  let _ ← mkdirRecursive path
  update .countDir
  return { loc with currentPath := path }

/-- The dispatch on the command; any other command is passed over. -/
def handleCommand (loc : Locals) (base cmd : Nat) : Receiver Locals := do
  if cmd = CmdType.fileMeta.byte.toNat then
    handleFileMeta loc base
  else if cmd = CmdType.fileData.byte.toNat then
    handleFileData loc base
  else if cmd = CmdType.dirEnter.byte.toNat then
    handleDirEnter loc base
  else if cmd = CmdType.dirLeave.byte.toNat then
    files (closeCurrent loc.currentFd)
    return { loc with currentFd := none }
  else if cmd = CmdType.transferEnd.byte.toNat then
    files (closeCurrent loc.currentFd)
    return loc
  else
    return loc

/-- The acknowledgement of `slot_id`, over whatever the consumed buffer holds by then. -/
def ackMsg (recv : Cdc) (slotId : UInt8) (credits : Int) : Cdc := { recv with
  slotId := slotId
  signalType := 1
  credits := UInt16.ofNat (credits % 2 ^ 16).toNat
  serverIsConfirmed := 1 }

/-- The receive of the next signal is posted before the ACK; behind the last packet none is. -/
def repost (isEndPacket : Bool) : Receiver Bool := do
  if isEndPacket then
    return true
  if !(← postNextRecv) then
    return false
  let ctx ← get
  update (.setCredits (ctx.localCredits + 1))
  return true

def sendAck (buf : Nat) (slotId : UInt8) : Receiver Bool := do
  let ctx ← get
  let recv ← readCdc buf
  postSend (ackMsg recv slotId ctx.localCredits)

/-- The packet in slot `slotId` is handled, the next receive posted, the signal acknowledged.
`none` leaves the loop. -/
def handlePacket (loc : Locals) (buf : Nat) (slotId : UInt8) : Receiver (Option Locals) := do
  let base ← slotOffset slotId
  let header ← load base packetHeaderSize
  if scpValidateHeader header ≠ 0 then
    return none
  let isEndPacket := decide (cmdType header = CmdType.transferEnd.byte.toNat)
  let loc ← handleCommand loc base (cmdType header)
  if !(← repost isEndPacket) then
    return none
  if !(← sendAck buf slotId) then
    return none
  return if isEndPacket then none else some loc

/-- The rest of the loop body, for the signal in buffer `buf`. -/
def handleSignal (loc : Locals) (buf : Nat) : Receiver (Option Locals) := do
  handlePacket loc buf (← readCdc buf).slotId

/-- The loop of `scp_receiver_run`; every way out of it returns 0. -/
def receiveLoopBody (loc : Locals) : Receiver Int := do
  if !(← establishSession) then
    return 0
  if (← rdmaCdcCompletion) ≠ 0 then
    return 0
  let ctx ← get
  if ctx.localCredits > 0 then
    update (.setCredits (ctx.localCredits - 1))
  match ← rdmaCdcConsumeBuf with
  | none => return 0
  | some buf =>
    match ← handleSignal loc buf with
    | none => return 0
    | some loc => receiveLoop loc

/-- `outputDir` is `config.output_dir`. -/
def scpReceiverRun (outputDir : Option Path) : Receiver Int := do
  match outputDir with
  | some dir =>
    let base := (cString dir).take (scpMaxPathLen - 1)
    let _ ← mkdirRecursive base
    receiveLoop ⟨none, [], base⟩
  | none =>
    match ← ask (.file .getcwd) with
    | none => return -1
    | some base => receiveLoop ⟨none, [], base⟩

def bodies : Bodies signature
  | .receiveLoop loc => receiveLoopBody loc
  | .cdcCompletion => cdcCompletionBody

end Receiver

end ScpRdma

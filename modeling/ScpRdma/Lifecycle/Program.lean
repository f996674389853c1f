import ScpRdma.Foundations.Handler
import ScpRdma.Connection.Address
import ScpRdma.Sender.Program
import ScpRdma.Receiver.Program

/-!
# The program with its handles

`main` and what it does with handles and memory: `scp_rdma_init`, the sender or the receiver,
`scp_rdma_destroy`. The connection code and the verbs of either side are written out down to the
calls on single handles; a handler puts them in the place of the operations of the side.

The variables are those of `create_qp_res_t` and of the context that hold handles or pointers.
A call that creates one, a call on some and a call that destroys one are each an operation; so
are the tests against null, the stores of null, and the one copy, of `session_sge->mr`.
-/
namespace ScpRdma.Lifecycle
open Foundations Connection

/-- What a handle or a pointer can be. `static` is a literal or a piece of `argv`. -/
inductive Kind where
  | qp | cq | pd | mr | device | channel | epoll | socket | addrinfo | heap | static
  deriving DecidableEq

/-- The variables. `cdcBuffers` is `cdc_mr->addr`; `sockfd`, `listenfd` and `resolvedAddr` are
those of `sock_connect`. -/
inductive Field where
  | qp | cq | pd | ibCtx | compChannel | epollFd | sock
  | sockfd | listenfd | resolvedAddr
  | sgeMr | sessionMr | cdcMr
  | sessionBuf | sessionSge | remoteProps | cdcBuffers | cdcRecvBufs
  | devName | serverName
  deriving DecidableEq

/-- What the function that destroys the content of the variable is for. -/
def Field.kind : Field → Kind
  | .qp => .qp
  | .cq => .cq
  | .pd => .pd
  | .ibCtx => .device
  | .compChannel => .channel
  | .epollFd => .epoll
  | .sock | .sockfd | .listenfd => .socket
  | .resolvedAddr => .addrinfo
  | .sgeMr | .sessionMr | .cdcMr => .mr
  | .sessionBuf | .sessionSge | .remoteProps | .cdcBuffers | .cdcRecvBufs | .devName
  | .serverName => .heap

/-- The function that makes a call; `serverBind` is the `bind` of a server. -/
inductive Site where
  | mrCreate | connectQp | transPost | serverBind | elsewhere
  deriving DecidableEq

/-- `msg->sges`: the session's own entry, or a chunk's entries, whose `mr` is `session_mr`. -/
inductive Message where
  | session
  | chunk (entries : Nat)
  deriving DecidableEq

/-- `acquire` needs the handles that the call is given. A new descriptor has a `number`, and
`addresses` is a list that `getaddrinfo` found. -/
inductive Verb where
  | isSet (f : Field)
  | acquire (f : Field) (needs : List Field) (site : Site)
  | use (fs : List Field) (site : Site)
  | release (f : Field)
  | clear (f : Field)
  | copy (src dst : Field)
  | setMessage (m : Message)
  | message
  | number
  | addresses
  | undefined
  deriving DecidableEq

def Verb.Response : Verb → Type
  | .isSet _ | .acquire _ _ _ | .use _ _ => Bool
  | .message => Message
  | .number => Nat
  | .addresses => List Address.AddrInfo
  | .undefined => Empty
  | .release _ | .clear _ | .copy _ _ | .setMessage _ => Unit

/-- The operations of a side, and those on its handles. -/
inductive Op (S : Signature) where
  | verb (v : Verb)
  | run (o : S.Op)

def Response (S : Signature) : Op S → Type
  | .verb v => v.Response
  | .run o => S.Response o

abbrev signature (S : Signature) : Signature := S.withOps (Op S) (Response S)

/-- A part of the program, on the side of `S`. -/
abbrev Life (S : Signature) := Program (signature S)

section Verbs

variable {S : Signature}

abbrev verb (v : Verb) : Life S v.Response := Program.ask (S := signature S) (.verb v)
abbrev run (o : S.Op) : Life S (S.Response o) := Program.ask (S := signature S) (.run o)

abbrev isSet (f : Field) : Life S Bool := verb (.isSet f)
abbrev acquire (f : Field) (needs : List Field) (site : Site) : Life S Bool :=
  verb (.acquire f needs site)
abbrev use (fs : List Field) (site : Site) : Life S Bool := verb (.use fs site)
abbrev release (f : Field) : Life S Unit := verb (.release f)
abbrev clear (f : Field) : Life S Unit := verb (.clear f)

/-- `if (x) { destroy(x); x = NULL; }` -/
def dispose (f : Field) : Life S Unit := do
  if ← isSet f then
    release f
    clear f

/-- `if (x) destroy(x);` -/
def destroy (f : Field) : Life S Unit := do
  if ← isSet f then
    release f

/-! ## Setting up -/

/-- `rdma_context_init`; the search for the device is one call. -/
def rdmaContextInit : Life S Int := do
  if !(← isSet .devName) then
    let _ ← acquire .devName [] .elsewhere
  if !(← use [] .elsewhere) then
    return 1
  if !(← acquire .ibCtx [] .elsewhere) then
    return 1
  if !(← use [.ibCtx] .elsewhere) then
    dispose .ibCtx
    return 1
  return 0

def pdCreate : Life S Int := do
  if !(← acquire .pd [.ibCtx] .elsewhere) then
    dispose .pd
    return 1
  return 0

def cqCreateAsync : Life S Int := do
  clear .epollFd
  clear .compChannel
  if !(← acquire .compChannel [.ibCtx] .elsewhere) then
    return 1
  if !(← use [.compChannel] .elsewhere) then
    release .compChannel
    clear .compChannel
    return 1
  if !(← acquire .cq [.ibCtx, .compChannel] .elsewhere) then
    release .compChannel
    clear .compChannel
    return 1
  if !(← use [.cq] .elsewhere) then
    release .cq
    clear .cq
    release .compChannel
    clear .compChannel
    return 1
  if !(← acquire .epollFd [] .elsewhere) then
    release .cq
    clear .cq
    release .compChannel
    clear .compChannel
    return 1
  if !(← use [.epollFd, .compChannel] .elsewhere) then
    release .epollFd
    clear .epollFd
    release .cq
    clear .cq
    release .compChannel
    clear .compChannel
    return 1
  return 0

def qpDestroy : Life S Unit := dispose .qp

def cqDestroy : Life S Unit := do
  dispose .cq
  dispose .epollFd
  dispose .compChannel

def pdDestroy : Life S Unit := dispose .pd

def qpCreate : Life S Bool := do
  if !(← acquire .qp [.pd, .cq] .elsewhere) then
    qpDestroy
    return false
  return true

def scpRdmaInit : Life S Int := do
  if (← rdmaContextInit) ≠ 0 then
    return -1
  if (← pdCreate) ≠ 0 then
    return -1
  if (← cqCreateAsync) ≠ 0 then
    return -1
  if !(← qpCreate) then
    return -1
  if !(← acquire .sessionBuf [] .elsewhere) then
    return -1
  let _ ← acquire .sessionSge [] .elsewhere
  return 0

/-- The calls of `sock_connect` on its variables. The error numbers of `getaddrinfo` are negative.
A server has each new socket in `listenfd`. -/
def sockets (client : Bool) : (o : Address.Op) → Life S (Address.Response o)
  | .getaddrinfo => do
    if ← acquire .resolvedAddr [] .elsewhere then
      return .ok (← verb .addresses)
    return .error (Int.negSucc (← verb .number))
  | .freeaddrinfo => release .resolvedAddr
  | .socket _ => do
    if !(← acquire .sockfd [.resolvedAddr] .elsewhere) then
      return none
    if !client then
      verb (.copy .sockfd .listenfd)
      clear .sockfd
    return some (← verb .number)
  | .connect _ _ => use [.sockfd, .resolvedAddr] .elsewhere
  | .setReuseAddr _ => do
    let _ ← use [.listenfd] .elsewhere
  | .bind _ _ => use [.listenfd, .resolvedAddr] .serverBind
  | .listen _ => do
    let _ ← use [.listenfd] .elsewhere
  | .accept _ => do
    if !(← acquire .sockfd [.listenfd] .elsewhere) then
      return none
    return some (← verb .number)
  | .close _ => do
    if client then
      release .sockfd
      clear .sockfd
    else
      release .listenfd
  | .undefined => do
    let _ ← use [.resolvedAddr] .elsewhere
    verb .undefined

/-- `sock_established` -/
def sockEstablished : Life S Bool := do
  if !(← isSet .sock) then
    let client ← isSet .serverName
    let rc ← (Address.sockConnect client).interpret (sockets client)
    verb (.copy .sockfd .sock)
    -- the variables of `sock_connect` are gone
    clear .sockfd
    clear .listenfd
    clear .resolvedAddr
    if rc < 0 then
      return false
  if !(← use [.sock] .elsewhere) then
    release .sock
    clear .sock
    return false
  return true

/-- `mr_create`. The receiver takes the length from its peer, and fails when that is 0. -/
def mrCreate (peerLength : Bool) : Life S Bool := do
  verb (.setMessage .session)
  if peerLength then
    if !(← use [] .mrCreate) then
      return false
  if !(← acquire .sgeMr [.pd] .mrCreate) then
    return false
  if ← isSet .cdcMr then
    return true
  if !(← acquire .cdcBuffers [] .mrCreate) then
    return false
  if !(← acquire .cdcMr [.pd] .mrCreate) then
    release .cdcBuffers
    return false
  if !(← acquire .cdcRecvBufs [] .mrCreate) then
    release .cdcMr
    clear .cdcMr
    release .cdcBuffers
    return false
  return true

/-- The part of `connect_qp` that exchanges the connection data. -/
def exchange (gid : Bool) : Life S Bool := do
  if gid then
    if !(← use [.ibCtx] .connectQp) then
      return false
  let _ ← use [.sgeMr, .qp] .elsewhere
  if !(← use [.sock] .connectQp) then
    return false
  let _ ← acquire .remoteProps [] .elsewhere
  return true

/-! ## Posting -/

/-- `post_receive_cdc`. Before there is a session it is `connect_qp` that posts. -/
def postReceiveCdc (sessionEstablished : Bool) : Life S Bool := do
  let _ ← use [.cdcMr] .elsewhere
  use [.qp] (if sessionEstablished then .elsewhere else .connectQp)

def postSendCdc : Life S Bool := do
  let _ ← use [.cdcMr] .elsewhere
  use [.qp] .elsewhere

/-- The variable with the memory region of the entries. -/
def Message.mr : Message → Field
  | .session => .sgeMr
  | .chunk _ => .sessionMr

/-- `post_send` -/
def postSend (m : Message) : Life S Bool := do
  verb (.setMessage m)
  let _ ← use [m.mr] .elsewhere
  use [.qp] .transPost

/-! ## Tearing down -/

/-- The loop over `msg->sges`; for a chunk the entries are copies, and only these are cleared. -/
def releaseEntries : Message → Life S Unit
  | .session => do
    release .sgeMr
    clear .sgeMr
  | .chunk entries => (List.replicate entries ()).forM fun _ => release .sessionMr

def rdmaTransDestroy : Life S Unit := do
  destroy .qp
  releaseEntries (← verb .message)
  destroy .cq
  destroy .pd
  destroy .ibCtx
  destroy .sock
  dispose .remoteProps
  if ← isSet .cdcMr then
    release .cdcMr
    clear .cdcMr
    dispose .cdcRecvBufs
    release .cdcBuffers
  dispose .devName
  dispose .serverName

/-- `scp_rdma_destroy`. No slot has a region or a buffer of its own. -/
def scpRdmaDestroy : Life S Unit := do
  dispose .sessionMr
  dispose .sessionBuf
  dispose .sessionSge
  dispose .cdcMr
  qpDestroy
  cqDestroy
  pdDestroy
  dispose .ibCtx
  dispose .sock

/-- `main`, with `scp_sender_run` or `scp_receiver_run`. -/
def mainProgram {α : Type} (side : Life S α) : Life S Int := do
  if (← scpRdmaInit) ≠ 0 then
    return 1
  let _ ← side
  scpRdmaDestroy
  return 0

end Verbs

/-! ## The two sides -/

/-- The session's own entry is one entry, the entries of a chunk are two. -/
def messageOf (sges : List Sge) : Message :=
  if sges.length = 1 then .session else .chunk sges.length

/-- The sender's operations on its handles; `gid` is `gid_idx >= 0`. -/
def sender (gid : Bool) : Handler Sender.signature (Op Sender.signature) (Response Sender.signature)
  | .sockEstablished => sockEstablished
  | .registerMr => mrCreate false
  | .exchange => exchange gid
  | .queryQp => do
    let _ ← use [.qp] .elsewhere
    run (S := Sender.signature) .queryQp
  | .modifyQp _ => use [.qp] .connectQp
  | .postRecv _ _ => do postReceiveCdc (← run (S := Sender.signature) .get).sessionEstablished
  | .postWrite sges _ _ => postSend (messageOf sges)
  | .postSend _ => postSendCdc
  | .waitCompletion site maxWc timeoutMs => do
    let _ ← use [.cq, .compChannel, .epollFd] .elsewhere
    run (S := Sender.signature) (.waitCompletion site maxWc timeoutMs)
  | .transDestroy => rdmaTransDestroy
  | .update .establish => do
    verb (.copy .sgeMr .sessionMr)
    run (S := Sender.signature) (.update .establish)
  | o => run (S := Sender.signature) o

/-- The receiver's operations on its handles. -/
def receiver (gid : Bool) :
    Handler Receiver.signature (Op Receiver.signature) (Response Receiver.signature)
  | .qpCreate => qpCreate
  | .sockEstablished => sockEstablished
  | .registerMr => mrCreate true
  | .exchange => exchange gid
  | .queryQp => do
    let _ ← use [.qp] .elsewhere
    run (S := Receiver.signature) .queryQp
  | .modifyQp _ => use [.qp] .connectQp
  | .postRecv _ _ => do postReceiveCdc (← run (S := Receiver.signature) .get).sessionEstablished
  | .postSend _ => postSendCdc
  | .pollCq => do
    let _ ← use [.cq] .elsewhere
    run (S := Receiver.signature) .pollCq
  | .transDestroy => rdmaTransDestroy
  | .update .establish => do
    verb (.copy .sgeMr .sessionMr)
    run (S := Receiver.signature) (.update .establish)
  | o => run (S := Receiver.signature) o

/-- `main` as a client. -/
def senderMain (gid : Bool) (cfg : Sender.Config) (localPath remotePath : Sender.Path) :
    Life Sender.signature Int :=
  mainProgram ((sender gid).run (Sender.scpSenderRun cfg localPath remotePath))

/-- `main` as a server. -/
def receiverMain (gid : Bool) (outputDir : Option Receiver.Path) : Life Receiver.signature Int :=
  mainProgram ((receiver gid).run (Receiver.scpReceiverRun outputDir))

end ScpRdma.Lifecycle

import ScpRdma.Foundations.Program
import ScpRdma.Connection.Record

/-!
# The handshake over TCP

`sock_established` on a connected socket and the exchange of `connect_qp`, as both sides run
them: the client writes the length of its buffer in front of its record, the server reads it,
and each side writes its record before it reads the other one.
-/
namespace ScpRdma
open Foundations

namespace Connection

/-- `config->server_name` is set on the client. -/
inductive Side where
  | client
  | server
  deriving DecidableEq, Repr

def Side.peer : Side → Side
  | .client => .server
  | .server => .client

/-- What `read` returns: bytes, 0, or -1. -/
inductive Received where
  | data (bs : Bytes)
  | closed
  | failed

inductive Op where
  | write (bs : Bytes)
  | read (count : Nat)
  | close
  | malloc
  | getWrLen
  | setWrLen (len : BitVec 64)
  | setRemoteProps (props : CmConData)
  | undefined

/-- `none` is the return value -1, `false` a null pointer; nothing is said of what follows an
undefined operation. -/
def Response : Op → Type
  | .write _ => Option Nat
  | .read _ => Received
  | .malloc => Bool
  | .getWrLen => BitVec 64
  | .close | .setWrLen _ | .setRemoteProps _ => Unit
  | .undefined => Empty

/-- The loops, with the bytes written and the bytes read so far. -/
inductive Call where
  | writeLoop (bs : Bytes) (written : Nat)
  | readLoop (size : Nat) (got : Bytes)

def Result : Call → Type
  | .writeLoop _ _ => Int
  | .readLoop _ _ => Int × Bytes

def signature : Signature := ⟨Op, Response, Call, Result⟩

end Connection

abbrev Connecting := Foundations.Program Connection.signature

namespace Connection

abbrev ask (o : Op) : Connecting (Response o) := Program.ask (S := signature) o
abbrev write (bs : Bytes) : Connecting (Option Nat) := ask (.write bs)
abbrev read (count : Nat) : Connecting Received := ask (.read count)
abbrev close : Connecting Unit := ask .close
abbrev malloc : Connecting Bool := ask .malloc
abbrev getWrLen : Connecting (BitVec 64) := ask .getWrLen
abbrev setWrLen (len : BitVec 64) : Connecting Unit := ask (.setWrLen len)
abbrev setRemoteProps (props : CmConData) : Connecting Unit := ask (.setRemoteProps props)
def undefined (α : Type) : Connecting α := .op (S := signature) .undefined Empty.elim
def writeLoop (bs : Bytes) (written : Nat) : Connecting Int :=
  Program.invoke (S := signature) (.writeLoop bs written)
def readLoop (size : Nat) (got : Bytes) : Connecting (Int × Bytes) :=
  Program.invoke (S := signature) (.readLoop size got)

/-- `sizeof(size_t)` -/
abbrev sizeT : Nat := 8

def writeLoopBody (bs : Bytes) (written : Nat) : Connecting Int := do
  if written < bs.length then
    match ← write (bs.drop written) with
    | none => return -1
    | some n => writeLoop bs (written + n)
  else
    return 0

def readLoopBody (size : Nat) (got : Bytes) : Connecting (Int × Bytes) := do
  if got.length < size then
    match ← read (size - got.length) with
    | .data bs => readLoop size (got ++ bs)
    | .closed | .failed => return (-1, got)
  else
    return (0, got)

def bodies : Bodies signature
  | .writeLoop bs written => writeLoopBody bs written
  | .readLoop size got => readLoopBody size got

/-- `sock_sync_data`: the result and what was read into `remote_data`. -/
def sockSyncData (xferSize : Nat) (localData : Bytes) : Connecting (Int × Bytes) := do
  match ← write localData with
  | none => return (-1, [])
  | some n =>
    if n < xferSize then
      return (-1, [])
    readLoop xferSize []

/-- `sock_async_data`. The length travels in the order of the host. -/
def sockAsyncData (o : ByteOrder) : Side → Connecting Int
  | .client => do
    let length ← getWrLen
    writeLoop (o.store sizeT length) 0
  | .server => do
    let wrLen ← getWrLen
    if wrLen ≠ 0 then
      return 0
    if !(← malloc) then
      return 1
    let (rc, remoteLen) ← readLoop sizeT []
    if rc ≠ 0 then
      return rc
    setWrLen (o.load sizeT remoteLen)
    return 0

/-- `sock_established`, once the socket is connected. -/
def sockEstablished (o : ByteOrder) (side : Side) : Connecting Int := do
  let rc ← sockAsyncData o side
  if rc ≠ 0 then
    close
    return rc
  return 0

/-- The part of `connect_qp` up to `res->remote_props`, of a side with the attributes `a`. -/
def exchange (o : ByteOrder) (a : CmConData) : Connecting Int := do
  let wrLen ← getWrLen
  let (rc, tmp) ← sockSyncData cmConDataSize (((a.withLen wrLen).encode o).toBytes o)
  if rc < 0 then
    return 1
  if !(← malloc) then
    undefined Int
  else
    setRemoteProps ((CmConData.ofBytes o tmp).decode o)
    return 0

/-- What `scp_prepare_transfer_resources` and `scp_prepare_receive_resources` do on the socket. -/
def handshake (o : ByteOrder) (side : Side) (a : CmConData) : Connecting Int := do
  if (← sockEstablished o side) ≠ 0 then
    return -1
  exchange o a

end Connection

end ScpRdma

import ScpRdma.Sender.Discipline
import ScpRdma.Receiver.Discipline

/-!
# Sender and receiver over one queue pair

The two programs, the channel in either direction, their completion queues and the session
buffer of the receiver. Either side takes its next step, or the adapter moves a request, a
frame or a completion; nothing else orders the steps. A side sees of the network what its
operation asks for: a prefix of its completions, the content of a buffer.
-/
namespace ScpRdma.Transfer
open Foundations

/-- What lies between the two programs. -/
structure Net where
  fwd : Channel Cdc
  bwd : Channel Cdc
  sendCq : List Wc
  recvCq : List Wc
  buf : Memory

def Net.init : Net := ⟨.empty Cdc.zero, .empty Cdc.zero, [], [], fun _ => 0⟩

namespace Net

/-- What the sender can be told. -/
def senderSees (net : Net) : (o : Sender.Op) → Sender.Response o → Prop
  | .waitCompletion _ _ _, some wcs => wcs <+: net.sendCq
  | .readCdc buf, msg => msg = net.bwd.bufs buf
  | _, _ => True

def afterSender (net : Net) : (o : Sender.Op) → Sender.Response o → Net
  | .postRecv buf wrId, true => { net with bwd := net.bwd.postRecv buf wrId }
  | .postWrite sges _ remote, true => { net with fwd := net.fwd.post (.write sges remote) }
  | .postSend msg, true => { net with fwd := net.fwd.post (.send msg) }
  | .waitCompletion _ _ _, some wcs => { net with sendCq := net.sendCq.drop wcs.length }
  | _, _ => net

/-- What the receiver can be told. -/
def receiverSees (net : Net) : (o : Receiver.Op) → Receiver.Response o → Prop
  | .pollCq, some (some wc) => net.recvCq.head? = some wc
  | .readCdc buf, msg => msg = net.fwd.bufs buf
  | .load off len, bs => bs = net.buf.load off len
  | .loadCString off, bs => net.buf.StringAt off bs
  | _, _ => True

def afterReceiver (net : Net) : (o : Receiver.Op) → Receiver.Response o → Net
  | .postRecv buf wrId, true => { net with fwd := net.fwd.postRecv buf wrId }
  | .postSend msg, true => { net with bwd := net.bwd.post (.send msg) }
  | .pollCq, some (some _) => { net with recvCq := net.recvCq.tail }
  | _, _ => net

end Net

/-- The queue pair accepts what arrives. -/
def Receives (st : QpState) : Prop := st = .rtr ∨ st = .rts

/-- The moves of the adapter, over the sender's memory and the states of the queue pairs. -/
inductive Move (m : Memory) (sqp rqp : QpState) : Net → Net → Prop where
  | takeFwd {net fwd} : sqp = .rts → Channel.Take m net.fwd fwd →
      Move m sqp rqp net { net with fwd := fwd }
  | takeBwd {net bwd} : rqp = .rts → Channel.Take net.buf net.bwd bwd →
      Move m sqp rqp net { net with bwd := bwd }
  | landWrite {net fwd remote data} : Receives rqp →
      Channel.Land net.fwd (.write remote data) fwd →
      Move m sqp rqp net { net with fwd := fwd, buf := net.buf.store remote data }
  | landSignal {net fwd wrId} : Receives rqp → Channel.Land net.fwd (.recv wrId) fwd →
      Move m sqp rqp net { net with fwd := fwd, recvCq := net.recvCq ++ [⟨.recv, true, wrId⟩] }
  | landAck {net bwd wrId} : Receives sqp → Channel.Land net.bwd (.recv wrId) bwd →
      Move m sqp rqp net { net with bwd := bwd, sendCq := net.sendCq ++ [⟨.recv, true, wrId⟩] }
  | retireFwd {net fwd wc} : Channel.Retire net.fwd wc fwd →
      Move m sqp rqp net { net with fwd := fwd, sendCq := net.sendCq ++ [wc] }
  | retireBwd {net bwd wc} : Channel.Retire net.bwd wc bwd →
      Move m sqp rqp net { net with bwd := bwd, recvCq := net.recvCq ++ [wc] }

/-- Where the two programs stand, and what lies between them. -/
structure Config (F : Type) where
  sender : Sender Int
  sstate : Sender.State
  receiver : Receiver Int
  rstate : Receiver.State F
  net : Net

/-- The surroundings of a run: what the sender is asked to send, its world, the files of the
receiver and its output directory. -/
structure Setup (F : Type) where
  cfg : Sender.Config
  world : Sender.World
  localPath : Sender.Path
  remotePath : Sender.Path
  files : Semantics Receiver.fileSignature F
  outputDir : Option Receiver.Path
  os : F

variable {F : Type}

inductive Step (S : Setup F) : Config F → Config F → Prop where
  | senderOp {c o k} (r) : c.sender = .op o k →
      (Sender.semantics S.world).allow o c.sstate r → c.net.senderSees o r →
      Step S c { c with
        sender := k r
        sstate := Sender.next o c.sstate r
        net := c.net.afterSender o r }
  | senderCall {c f k} : c.sender = .call f k →
      Step S c { c with sender := (Sender.bodies S.cfg f).bind k }
  | receiverOp {c o k} (r) : c.receiver = .op o k → Receiver.Possible S.files o c.rstate r →
      c.net.receiverSees o r →
      Step S c { c with
        receiver := k r
        rstate := Receiver.next S.files o c.rstate r
        net := c.net.afterReceiver o r }
  | receiverCall {c f k} : c.receiver = .call f k →
      Step S c { c with receiver := (Receiver.bodies f).bind k }
  | move {c net} : Move c.sstate.mem c.sstate.qp c.rstate.qp c.net net →
      Step S c { c with net := net }

/-- Both sides start. -/
def Setup.start (S : Setup F) : Config F where
  sender := Sender.scpSenderRun S.cfg S.localPath S.remotePath
  sstate := Sender.initState
  receiver := Receiver.scpReceiverRun S.outputDir
  rstate := Receiver.initState S.os
  net := .init

def Setup.system (S : Setup F) : System (Config F) where
  init c := c = S.start
  step := Step S

end ScpRdma.Transfer

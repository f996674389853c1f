import ScpRdma.Transfer.Composition
import ScpRdma.Transfer.Upload
import ScpRdma.Receiver.Paving

/-!
# An order of the steps

One run of a transfer where nothing fails, as a function: the adapter moves what it can, then the
sender goes on unless it waits for a completion, then the receiver. `drive` computes where such a
run is after some steps.
-/
namespace ScpRdma.Transfer
open Foundations

/-! ## The adapter -/

instance : DecidablePred Receives := fun st => inferInstanceAs (Decidable (st = .rtr ∨ st = .rts))

namespace Net

/-- What landed at the receiver. -/
def landFwd (net : Net) : Channel.Arrival × Channel Cdc → Net
  | (.write remote data, fwd) => { net with fwd := fwd, buf := net.buf.store remote data }
  | (.recv wrId, fwd) => { net with fwd := fwd, recvCq := net.recvCq ++ [⟨.recv, true, wrId⟩] }

/-- What landed at the sender, to which nothing is written. -/
def landBwd (net : Net) : Channel.Arrival × Channel Cdc → Option Net
  | (.write _ _, _) => none
  | (.recv wrId, bwd) =>
    some { net with bwd := bwd, sendCq := net.sendCq ++ [⟨.recv, true, wrId⟩] }

/-- The first move that the adapter can make. -/
def move? (m : Memory) (sqp rqp : QpState) (net : Net) : Option Net :=
  (if sqp = .rts then (net.fwd.take? m).map fun fwd => { net with fwd := fwd } else none) <|>
  (if rqp = .rts then (net.bwd.take? net.buf).map fun bwd => { net with bwd := bwd } else none) <|>
  (if Receives rqp then net.fwd.land?.map net.landFwd else none) <|>
  (if Receives sqp then net.bwd.land?.bind net.landBwd else none) <|>
  (net.fwd.retire?.map fun p => { net with fwd := p.2, sendCq := net.sendCq ++ [p.1] }) <|>
  (net.bwd.retire?.map fun p => { net with bwd := p.2, recvCq := net.recvCq ++ [p.1] })

variable {m : Memory} {sqp rqp : QpState} {net net' : Net}

theorem move_of_move? (h : net.move? m sqp rqp = some net') : Move m sqp rqp net net' := by
  simp only [move?, Option.orElse_eq_some] at h
  rcases h with h | ⟨-, h | ⟨-, h | ⟨-, h | ⟨-, h | ⟨-, h⟩⟩⟩⟩⟩
  · obtain ⟨hqp, h⟩ := Option.ite_none_right_eq_some.mp h
    obtain ⟨fwd, hfwd, rfl⟩ := Option.map_eq_some_iff.mp h
    exact .takeFwd hqp (Channel.take_of_take? hfwd)
  · obtain ⟨hqp, h⟩ := Option.ite_none_right_eq_some.mp h
    obtain ⟨bwd, hbwd, rfl⟩ := Option.map_eq_some_iff.mp h
    exact .takeBwd hqp (Channel.take_of_take? hbwd)
  · obtain ⟨hqp, h⟩ := Option.ite_none_right_eq_some.mp h
    obtain ⟨⟨a, fwd⟩, hfwd, rfl⟩ := Option.map_eq_some_iff.mp h
    cases a with
    | write remote data => exact .landWrite hqp (Channel.land_of_land? hfwd)
    | recv wrId => exact .landSignal hqp (Channel.land_of_land? hfwd)
  · obtain ⟨hqp, h⟩ := Option.ite_none_right_eq_some.mp h
    obtain ⟨⟨a, bwd⟩, hbwd, h⟩ := Option.bind_eq_some_iff.mp h
    cases a with
    | write => cases h
    | recv wrId =>
      obtain rfl := Option.some.inj h
      exact .landAck hqp (Channel.land_of_land? hbwd)
  · obtain ⟨⟨wc, fwd⟩, hfwd, rfl⟩ := Option.map_eq_some_iff.mp h
    exact .retireFwd (Channel.retire_of_retire? hfwd)
  · obtain ⟨⟨wc, bwd⟩, hbwd, rfl⟩ := Option.map_eq_some_iff.mp h
    exact .retireBwd (Channel.retire_of_retire? hbwd)

end Net

/-! ## The answers -/

/-- What a disk says is what its calls can say. -/
structure Regular (D : Sender.Disk) : Prop where
  stat : ∀ path st, D.stat path = some st → st.size < 2 ^ 63
  lstat : ∀ path st, D.lstat path = some st → st.size < 2 ^ 63
  pread : ∀ fd len off data, D.pread fd len off = some data → data.length ≤ len

/-- The answers to the sender; it waits while there is no completion. -/
def senderAnswer (D : Sender.Disk) (s : Sender.State) (net : Net) :
    (o : Sender.Op) → Option (Sender.Response o)
  | .get => some s.ctx
  | .currentSlot => some s.ctx.currentSlot
  | .update _ | .store _ _ | .close _ | .closedir _ | .progress _ _ | .transDestroy => some ()
  | .stat path => some (D.stat path)
  | .lstat path => some (D.lstat path)
  | .openFile path direct => some (D.openFile path direct)
  | .pread fd _ len off => some (D.pread fd len off)
  | .readlink path size => some ((D.readlink path).map (·.take size))
  | .opendir path => some (D.opendir path)
  | .readdir dir pos => some (D.readdir dir pos)
  | .sockEstablished | .registerMr | .exchange | .modifyQp _ | .postRecv _ _ | .postWrite _ _ _
  | .postSend _ => some true
  | .queryQp => some (some s.qp)
  | .waitCompletion _ maxWc _ =>
    if net.sendCq ≠ [] ∧ ∀ wc ∈ net.sendCq, wc.ok = true then some (some (net.sendCq.take maxWc))
    else none
  | .readCdc buf => some (net.bwd.bufs buf)
  | .undefined => none

/-- Descriptors that are free enough for one file at a time. -/
def nextDescriptor (fs : FileSystem) : Nat := if fs.descriptor 3 = none then 3 else 4

/-- The answers to the receiver. -/
def receiverAnswer (s : Receiver.State FileSystem) (net : Net) :
    (o : Receiver.Op) → Option (Receiver.Response o)
  | .get => some s.ctx
  | .update _ | .transDestroy => some ()
  | .file o =>
    if s.os.descriptor (nextDescriptor s.os) = none then
      some (Receiver.FileCall.answer (nextDescriptor s.os) o s.os)
    else none
  | .load off len => some (net.buf.load off len)
  | .loadCString off =>
    if 0 ∈ net.buf.load off scpMaxFilenameLen then
      some (cString (net.buf.load off scpMaxFilenameLen))
    else none
  | .qpCreate | .sockEstablished | .registerMr | .exchange | .modifyQp _ | .postRecv _ _
  | .postSend _ => some true
  | .queryQp => some (some s.qp)
  | .pollCq => net.recvCq.head?.map fun wc => some (some wc)
  | .readCdc buf => some (net.fwd.bufs buf)
  | .undefined _ => none

theorem senderAnswer_allowed {D : Sender.Disk} (hD : Regular D) {s : Sender.State} {net : Net}
    {o : Sender.Op} {r : Sender.Response o} (h : senderAnswer D s net o = some r) :
    (Sender.semantics (working D)).allow o s r ∧ net.senderSees o r := by
  cases o with
  | undefined => cases h
  | stat path =>
    cases h
    refine ⟨⟨?_, rfl, trivial⟩, trivial⟩
    cases hst : D.stat path with
    | none => trivial
    | some st => exact hD.stat path st hst
  | lstat path =>
    cases h
    refine ⟨⟨?_, rfl, trivial⟩, trivial⟩
    cases hst : D.lstat path with
    | none => trivial
    | some st => exact hD.lstat path st hst
  | pread fd addr len off =>
    cases h
    refine ⟨⟨?_, rfl, trivial⟩, trivial⟩
    cases hdata : D.pread fd len off with
    | none => trivial
    | some data => exact hD.pread fd len off data hdata
  | readlink path size =>
    cases h
    refine ⟨⟨?_, rfl, trivial⟩, trivial⟩
    cases D.readlink path with
    | none => trivial
    | some target => exact List.length_take_le _ _
  | waitCompletion site maxWc timeoutMs =>
    obtain ⟨⟨-, hok⟩, h⟩ := Option.ite_none_right_eq_some.mp h
    cases h
    exact ⟨⟨List.length_take_le _ _, trivial, _, rfl,
      fun wc hwc => hok wc (List.mem_of_mem_take hwc)⟩, List.take_prefix _ _⟩
  | queryQp =>
    cases h
    exact ⟨⟨rfl, trivial, Option.some_ne_none s.qp⟩, trivial⟩
  | readCdc buf =>
    cases h
    exact ⟨⟨trivial, trivial, trivial⟩, rfl⟩
  | _ =>
    cases h
    exact ⟨⟨by trivial, by trivial, by trivial⟩, by trivial⟩

theorem receiverAnswer_allowed {s : Receiver.State FileSystem} {net : Net} {o : Receiver.Op}
    {r : Receiver.Response o} (h : receiverAnswer s net o = some r) :
    Receiver.Possible Receiver.unfailing o s r ∧ net.receiverSees o r := by
  cases o with
  | undefined => cases h
  | file o =>
    obtain ⟨hfree, h⟩ := Option.ite_none_right_eq_some.mp h
    cases h
    exact ⟨⟨_, hfree, rfl⟩, trivial⟩
  | load off len =>
    cases h
    exact ⟨Memory.length_load .., rfl⟩
  | loadCString off =>
    obtain ⟨h0, h⟩ := Option.ite_none_right_eq_some.mp h
    cases h
    have hload : net.buf.load off (net.buf.load off scpMaxFilenameLen).length =
        net.buf.load off scpMaxFilenameLen := by rw [Memory.length_load]
    exact ⟨fun b hb => cString_nonzero hb, (stringAt_iff hload h0).mpr rfl⟩
  | pollCq =>
    obtain ⟨wc, hwc, h⟩ := Option.map_eq_some_iff.mp h
    cases h
    exact ⟨trivial, hwc⟩
  | readCdc buf =>
    cases h
    exact ⟨trivial, rfl⟩
  | _ =>
    cases h
    exact ⟨by trivial, by trivial⟩

/-! ## Runs -/

/-- The next step of the sender, unless it waits. -/
def senderStep (D : Sender.Disk) (S : Setup FileSystem) (c : Config FileSystem) :
    Option (Config FileSystem) :=
  match c.sender with
  | .done _ => none
  | .call f k => some { c with sender := (Sender.bodies S.cfg f).bind k }
  | .op o k => (senderAnswer D c.sstate c.net o).map fun r => { c with
      sender := k r
      sstate := Sender.next o c.sstate r
      net := c.net.afterSender o r }

def receiverStep (S : Setup FileSystem) (c : Config FileSystem) : Option (Config FileSystem) :=
  match c.receiver with
  | .done _ => none
  | .call f k => some { c with receiver := (Receiver.bodies f).bind k }
  | .op o k => (receiverAnswer c.rstate c.net o).map fun r => { c with
      receiver := k r
      rstate := Receiver.next S.files o c.rstate r
      net := c.net.afterReceiver o r }

/-- One step: of the adapter, else of the sender, else of the receiver. -/
def advance (D : Sender.Disk) (S : Setup FileSystem) (c : Config FileSystem) :
    Option (Config FileSystem) :=
  ((c.net.move? c.sstate.mem c.sstate.qp c.rstate.qp).map fun net => { c with net := net }) <|>
  senderStep D S c <|> receiverStep S c

/-- At most `n` steps. -/
def drive (D : Sender.Disk) (S : Setup FileSystem) : Nat → Config FileSystem → Config FileSystem
  | 0, c => c
  | n + 1, c =>
    match advance D S c with
    | some c' => drive D S n c'
    | none => c

section Runs

variable {D : Sender.Disk} {S : Setup FileSystem} {c c' : Config FileSystem}

theorem step_of_advance (hD : Regular D) (hworld : S.world = working D)
    (hfiles : S.files = Receiver.unfailing) (h : advance D S c = some c') : Step S c c' := by
  simp only [advance, Option.orElse_eq_some] at h
  rcases h with h | ⟨-, h | ⟨-, h⟩⟩
  · obtain ⟨net, hnet, rfl⟩ := Option.map_eq_some_iff.mp h
    exact .move (Net.move_of_move? hnet)
  · unfold senderStep at h
    split at h
    · cases h
    · rename_i hc
      obtain rfl := Option.some.inj h
      exact .senderCall hc
    · rename_i hc
      obtain ⟨r, hr, rfl⟩ := Option.map_eq_some_iff.mp h
      obtain ⟨hallow, hsee⟩ := senderAnswer_allowed hD hr
      exact .senderOp r hc (hworld ▸ hallow) hsee
  · unfold receiverStep at h
    split at h
    · cases h
    · rename_i hc
      obtain rfl := Option.some.inj h
      exact .receiverCall hc
    · rename_i hc
      obtain ⟨r, hr, rfl⟩ := Option.map_eq_some_iff.mp h
      obtain ⟨hpossible, hsee⟩ := receiverAnswer_allowed hr
      exact .receiverOp r hc (hfiles ▸ hpossible) hsee

/-- What `drive` computes is a run. -/
theorem drive_reachable (hD : Regular D) (hworld : S.world = working D)
    (hfiles : S.files = Receiver.unfailing) (n : Nat) :
    S.system.Reachable (drive D S n S.start) := by
  have hall : ∀ c, S.system.Reachable c → S.system.Reachable (drive D S n c) := by
    induction n with
    | zero => exact fun _ h => h
    | succ n ih =>
      intro c h
      unfold drive
      cases hc : advance D S c with
      | none => exact h
      | some c' => exact ih c' (h.tail (step_of_advance hD hworld hfiles hc))
  exact hall _ (.of_init rfl)

end Runs

end ScpRdma.Transfer

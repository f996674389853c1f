import ScpRdma.Foundations.Program
import ScpRdma.Foundations.Channel

/-!
# Waiting for completions

`rdma_async_wait_completion` over the verbs it calls, and a device whose completions arrive
between any two of them: `arrivals n` lands before the `n`-th verb takes effect. An arrival
at an armed queue puts one event on the channel and disarms the queue. The counters of the
device are history.
-/
namespace ScpRdma
open Foundations

namespace Completion

/-- What `epoll_wait` returns: an event, the end of the timeout, `EINTR`, another error. -/
inductive Epoll where
  | ready
  | timeout
  | interrupted
  | error
  deriving DecidableEq, Repr

inductive Op where
  | pollCq (maxWc : Nat)
  | getCqEvent
  | ackCqEvents (n : Nat)
  | reqNotifyCq
  | epollWait (timeoutMs : Int)

/-- `none` and `false` are errors; an empty channel makes `getCqEvent` one. -/
def Response : Op → Type
  | .pollCq _ => Option (List Wc)
  | .getCqEvent | .reqNotifyCq => Bool
  | .ackCqEvents _ => Unit
  | .epollWait _ => Epoll

/-- The loop that drains the channel, with the events it has taken so far. -/
inductive Call where
  | drain (drained : Nat)

def signature : Signature := ⟨Op, Response, Call, fun _ => Nat⟩

end Completion

abbrev Completing := Foundations.Program Completion.signature

namespace Completion

abbrev ask (o : Op) : Completing (Response o) := Program.ask (S := signature) o
abbrev pollCq (maxWc : Nat) : Completing (Option (List Wc)) := ask (.pollCq maxWc)
abbrev getCqEvent : Completing Bool := ask .getCqEvent
abbrev ackCqEvents (n : Nat) : Completing Unit := ask (.ackCqEvents n)
abbrev reqNotifyCq : Completing Bool := ask .reqNotifyCq
abbrev epollWait (timeoutMs : Int) : Completing Epoll := ask (.epollWait timeoutMs)
def drain (drained : Nat) : Completing Nat := Program.invoke (S := signature) (.drain drained)

def drainBody (drained : Nat) : Completing Nat := do
  if ← getCqEvent then
    drain (drained + 1)
  else
    return drained

/-- Steps 6 and 7: take the reported event, arm again, poll. -/
def harvestEvent (maxWc : Nat) : Completing (Option (List Wc)) := do
  if !(← getCqEvent) then
    return none
  ackCqEvents 1
  if !(← reqNotifyCq) then
    return none
  pollCq maxWc

/-- Steps 3 to 5: arm, poll once more, wait for an event. -/
def armAndWait (maxWc : Nat) (timeoutMs : Int) : Completing (Option (List Wc)) := do
  if !(← reqNotifyCq) then
    return none
  match ← pollCq maxWc with
  | none => return none
  | some (wc :: wcs) => return some (wc :: wcs)
  | some [] =>
    match ← epollWait timeoutMs with
    | .interrupted | .timeout => return some []
    | .error => return none
    | .ready => harvestEvent maxWc

/-- `none` is the return value -1, else the completions written to `wc`. -/
def rdmaAsyncWaitCompletion (maxWc : Nat) (timeoutMs : Int) : Completing (Option (List Wc)) := do
  match ← pollCq maxWc with
  | none => return none
  | some (wc :: wcs) => return some (wc :: wcs)
  | some [] =>
    let drained ← drain 0
    if drained > 0 then
      ackCqEvents drained
    armAndWait maxWc timeoutMs

def bodies : Bodies signature
  | .drain drained => drainBody drained

/-- Successive calls; the completions of those that return no error. -/
def waits : List (Nat × Int) → Completing (List Wc)
  | [] => return []
  | (maxWc, timeoutMs) :: calls => do
    let wcs ← rdmaAsyncWaitCompletion maxWc timeoutMs
    let rest ← waits calls
    return wcs.getD [] ++ rest

/-! ## The device -/

structure Device where
  queue : List Wc
  armed : Bool
  events : Nat
  arrivals : Nat → List Wc
  clock : Nat
  taken : Nat
  acked : Nat
  reports : Nat
  faults : Nat

namespace Device

/-- One completion arrives. -/
def arrive (d : Device) (wc : Wc) : Device := { d with
  queue := d.queue ++ [wc]
  armed := false
  events := if d.armed then d.events + 1 else d.events }

/-- What arrives before the next verb. -/
def tick (d : Device) : Device :=
  { (d.arrivals d.clock).foldl arrive d with clock := d.clock + 1 }

end Device

/-- A poll takes a prefix of the queue, and nothing only from an empty one. -/
def allow : (o : Op) → Device → Response o → Prop
  | .pollCq maxWc, d, some wcs => wcs <+: d.tick.queue ∧ wcs.length ≤ maxWc ∧
      (wcs = [] → 0 < maxWc → d.tick.queue = [])
  | .getCqEvent, d, ok => ok = decide (0 < d.tick.events)
  | .epollWait _, d, .ready => 0 < d.tick.events
  | .epollWait timeoutMs, d, .timeout => d.tick.events = 0 ∧ 0 ≤ timeoutMs
  | _, _, _ => True

def next : (o : Op) → Device → Response o → Device
  | .pollCq _, d, some wcs => { d.tick with queue := d.tick.queue.drop wcs.length }
  | .pollCq _, d, none => { d.tick with faults := d.tick.faults + 1 }
  | .getCqEvent, d, true =>
    { d.tick with events := d.tick.events - 1, taken := d.tick.taken + 1 }
  | .getCqEvent, d, false => d.tick
  | .ackCqEvents n, d, _ => { d.tick with acked := d.tick.acked + n }
  | .reqNotifyCq, d, true => { d.tick with armed := true }
  | .reqNotifyCq, d, false => { d.tick with faults := d.tick.faults + 1 }
  | .epollWait _, d, .ready => { d.tick with reports := d.tick.reports + 1 }
  | .epollWait _, d, .error => { d.tick with faults := d.tick.faults + 1 }
  | .epollWait _, d, _ => d.tick

def device : Semantics signature Device := ⟨allow, next⟩

end Completion

end ScpRdma

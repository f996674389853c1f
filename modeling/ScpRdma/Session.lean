import ScpRdma.Foundations.Program

/-!
# Setting up a session

The connection code that both sides run, over the verbs and socket calls of either side.
-/
namespace ScpRdma
open Foundations

inductive QpState where
  | reset | init | rtr | rts
  deriving DecidableEq, Repr

namespace Session

/-- What the connection code asks of the side that runs it. -/
structure Verbs (S : Signature) where
  registerMr : Program S Bool
  cdcBuffers : Program S Unit
  exchange : Program S Bool
  queryQp : Program S (Option QpState)
  modifyQp : QpState → Program S Bool
  acquirePostBuf : Program S (Option Nat)
  postRecv : (buf wrId : Nat) → Program S Bool
  transDestroy : Program S Unit
  undefined : (α : Type) → Program S α

variable {S : Signature} (V : Verbs S)

/-- `mr_create`: register the session buffer and the CDC buffers. -/
def mrCreate : Program S Int := do
  if ← V.registerMr then
    V.cdcBuffers
    return 0
  return 1

/-- `connect_qp`, with `sync_mode` CDC. Without registered CDC buffers it would post a
receive through a null pointer. -/
def connectQp : Program S Int := do
  if !(← V.exchange) then
    return 1
  match ← V.queryQp with
  | none => return 1
  | some st =>
    if st ≠ .reset then
      return 0
    if !(← V.modifyQp .init) then
      return 1
    match ← V.acquirePostBuf with
    | none => V.undefined Int
    | some buf =>
      if !(← V.postRecv buf 0) then
        return 1
      if !(← V.modifyQp .rtr) then
        return 1
      if !(← V.modifyQp .rts) then
        return 1
      return 0

def rdmaTransInit : Program S Int := do
  let mr ← mrCreate V
  let qp ← connectQp V
  if mr ≠ 0 ∨ qp ≠ 0 then
    V.transDestroy
    return 1
  return 0

end Session

end ScpRdma

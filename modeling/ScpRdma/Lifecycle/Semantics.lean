import ScpRdma.Lifecycle.Program
import ScpRdma.Sender.Semantics
import ScpRdma.Receiver.Semantics

/-!
# What becomes of the handles

The variables, and the handles that are live; handles are numbered as they are obtained. A duty
says what must hold where a call is made: what it is given is live and of the right kind, what
is destroyed too, and no memory region is live when a protection domain is deallocated.

`Verb.Succeeds` is the condition on calls inside `mr_create`, `connect_qp` and `rdma_trans_post`,
and on the `bind` of a server.
-/
namespace ScpRdma.Lifecycle
open Foundations

structure Resources where
  var : Field → Option Nat
  live : Nat → Option Kind
  fresh : Nat
  message : Message

namespace Resources

def setVar (t : Resources) (f : Field) (h : Option Nat) : Resources :=
  { t with var := Function.update t.var f h }

def acquired (t : Resources) (f : Field) : Resources := { t with
  var := Function.update t.var f (some t.fresh)
  live := Function.update t.live t.fresh (some f.kind)
  fresh := t.fresh + 1 }

def released (t : Resources) (f : Field) : Resources :=
  match t.var f with
  | some h => { t with live := Function.update t.live h none }
  | none => t

/-- The variable holds a live handle of its kind. -/
def Held (t : Resources) (f : Field) : Prop := ∃ h, t.var f = some h ∧ t.live h = some f.kind

@[simp] theorem var_setVar (t : Resources) (f g : Field) (h : Option Nat) :
    (t.setVar f h).var g = if g = f then h else t.var g := Function.update_apply ..

@[simp] theorem var_acquired (t : Resources) (f g : Field) :
    (t.acquired f).var g = if g = f then some t.fresh else t.var g := Function.update_apply ..

@[simp] theorem var_released (t : Resources) (f g : Field) : (t.released f).var g = t.var g := by
  unfold released
  cases t.var f <;> rfl

end Resources

def Verb.next : (v : Verb) → Resources → v.Response → Resources
  | .acquire f _ _, t, true => t.acquired f
  | .acquire f _ _, t, false => t.setVar f none
  | .release f, t, _ => t.released f
  | .clear f, t, _ => t.setVar f none
  | .copy src dst, t, _ => t.setVar dst (t.var src)
  | .setMessage m, t, _ => { t with message := m }
  | _, t, _ => t

def Verb.Possible : (v : Verb) → Resources → v.Response → Prop
  | .isSet f, t, r => r = (t.var f).isSome
  | .message, t, r => r = t.message
  | .addresses, _, r => r ≠ []
  | _, _, _ => True

def Verb.Succeeds : (v : Verb) → v.Response → Prop
  | .acquire _ _ site, r | .use _ site, r => site ≠ .elsewhere → r = true
  | _, _ => True

def Verb.Duty : Verb → Resources → Prop
  | .acquire _ needs _, t => ∀ f ∈ needs, t.Held f
  | .use fs _, t => ∀ f ∈ fs, t.Held f
  | .release f, t => t.Held f ∧ (f = .pd → ∀ h, t.live h ≠ some .mr)
  | _, _ => True

section

variable {S : Signature} {γ : Type}

/-- The side's own operations follow `E`. Where `good` is true, the calls inside the three
functions and the `bind` of a server succeed. -/
def semantics (E : Semantics S γ) (good : Bool) : Semantics (signature S) (γ × Resources) where
  allow
    | .verb v, s, r => v.Possible s.2 r ∧ (good = true → v.Succeeds r)
    | .run o, s, r => E.allow o s.1 r
  next
    | .verb v, s, r => (s.1, v.next s.2 r)
    | .run o, s, r => (E.next o s.1 r, s.2)

variable (S γ) in
def duties : Duties (signature S) (γ × Resources) where
  op
    | .verb v, s => v.Duty s.2
    | .run _, _ => True
  call _ _ := True

end

/-- The sender reads its context back as it is, everything else may happen; `ibv_query_qp` is a
call of `connect_qp`. -/
def senderContext (good : Bool) : Semantics Sender.signature Sender.Ctx where
  allow
    | .get, c, r => r = c
    | .queryQp, _, r => good = true → r ≠ none
    | _, _, _ => True
  next
    | .update u, c, _ => u.apply c
    | _, c, _ => c

def receiverContext (good : Bool) : Semantics Receiver.signature Receiver.Ctx where
  allow
    | .get, c, r => r = c
    | .queryQp, _, r => good = true → r ≠ none
    | _, _, _ => True
  next
    | .update u, c, _ => u.apply c
    | _, c, _ => c

/-- When `main` starts: the device name is static, and so is the address of the server that a
client has. -/
def atStart (client : Bool) : Resources where
  var
    | .devName => some 0
    | .serverName => if client then some 1 else none
    | _ => none
  live h := if h < 2 then some .static else none
  fresh := 2
  message := .session

/-- The runs of `main` as a client. -/
abbrev senderSystem (gid : Bool) (cfg : Sender.Config) (localPath remotePath : Sender.Path)
    (good : Bool) : System (Life Sender.signature Int × Sender.Ctx × Resources) :=
  Program.system ((sender gid).bodies (Sender.bodies cfg)) (semantics (senderContext good) good)
    (senderMain gid cfg localPath remotePath) (Sender.initCtx, atStart true)

/-- The runs of `main` as a server. -/
abbrev receiverSystem (gid : Bool) (outputDir : Option Receiver.Path) (good : Bool) :
    System (Life Receiver.signature Int × Receiver.Ctx × Resources) :=
  Program.system ((receiver gid).bodies Receiver.bodies) (semantics (receiverContext good) good)
    (receiverMain gid outputDir) ((Receiver.initState ()).ctx, atStart false)

end ScpRdma.Lifecycle

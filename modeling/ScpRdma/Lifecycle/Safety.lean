import ScpRdma.Lifecycle.Client
import ScpRdma.Lifecycle.Server

/-!
# The life of a handle

As long as the calls inside `mr_create`, `connect_qp` and `rdma_trans_post` and the `bind` of a
server succeed, `main` uses and destroys what it has, once, and the memory regions before their
domain. Where one of the first fails, `rdma_trans_destroy` destroys the handles and leaves most of
the variables as they are, and `scp_rdma_destroy` destroys them again. A server whose `bind` fails
goes on with a socket that it closed.
-/
namespace ScpRdma.Lifecycle
open Foundations Connection

/-- A call that is about to be made meets its duty. -/
def Dutiful {S : Signature} {γ α : Type} (c : Life S α × γ × Resources) : Prop :=
  ∀ v k, c.1 = .op (.verb v) k → v.Duty c.2.2

theorem dutiful_of_safe {S : Signature} {γ α : Type} {B : Bodies (signature S)}
    {E : Semantics S γ} {p : Life S α} {s : γ × Resources}
    (h : ∀ n, Safe B E n p (fun _ _ => True) s) :
    (Program.system B (semantics E true) p s).Invariant Dutiful := by
  refine (Verified.runs (D := duties S γ) h).mono ?_
  rintro ⟨_, s⟩ hv v k rfl
  exact hv.duty

/-- Where no call inside the three functions fails, nor the `bind` of a server, every call of
every run of `main` is given what is live, and destroys it once. -/
theorem main_dutiful (gid : Bool) (cfg : Sender.Config) (localPath remotePath : Sender.Path)
    (outputDir : Option Receiver.Path) :
    (senderSystem gid cfg localPath remotePath true).Invariant Dutiful ∧
      (receiverSystem gid outputDir true).Invariant Dutiful :=
  ⟨dutiful_of_safe fun _ => senderMain_safe localPath remotePath,
    dutiful_of_safe fun _ => receiverMain_safe outputDir⟩

/-! ## A call that fails -/

/-- The call on handles that a program is about to make. -/
def asked? {S : Signature} {α : Type} : Life S α → Option Verb
  | .op (.verb v) _ => some v
  | _ => none

theorem eq_of_asked? {S : Signature} {α : Type} {p : Life S α} {v : Verb}
    (h : asked? p = some v) : ∃ k, p = .op (.verb v) k := by
  unfold asked? at h
  split at h
  · cases h
    exact ⟨_, rfl⟩
  · cases h

/-- The calls at `broken` fail, the others succeed, until `f` is given to one and is not live. -/
def failing (broken : Site) (f : Field) : (v : Verb) → Resources → Option v.Response
  | .isSet g, t => some (t.var g).isSome
  | .acquire _ _ _, _ => some true
  | .use gs site, t =>
    if f ∈ gs ∧ (t.var f).bind t.live = none then none else some (decide (site ≠ broken))
  | .release g, t => if g = f ∧ (t.var f).bind t.live = none then none else some ()
  | .clear _, _ | .copy _ _, _ | .setMessage _, _ => some ()
  | .message, t => some t.message
  | .number, _ => some (3 : Nat)
  | .addresses, _ => some [Address.loopback]
  | .undefined, _ => none

theorem failing_possible {broken : Site} {f : Field} {v : Verb} {t : Resources} {r : v.Response}
    (h : failing broken f v t = some r) : v.Possible t r := by
  cases v with
  | isSet | message => exact (Option.some.inj h).symm
  | addresses =>
    obtain rfl := Option.some.inj h
    exact nofun
  | _ => trivial

/-- A client whose peer hangs up in the exchange. -/
def hangUp : (o : Op Sender.signature) → Sender.Ctx × Resources →
    Option (Response Sender.signature o)
  | .verb v, s => failing .connectQp .qp v s.2
  | .run .get, s => some s.1
  | .run (.stat _), _ | .run (.lstat _), _ => some (some ⟨.directory, 0, 0⟩)
  | .run (.opendir _), _ => some (some [])
  | .run (.store _ _), _ | .run (.update _), _ | .run (.closedir _), _ => some ()
  | _, _ => none

/-- A server whose address is in use. -/
def addressInUse : (o : Op Receiver.signature) → Receiver.Ctx × Resources →
    Option (Response Receiver.signature o)
  | .verb v, s => failing .serverBind .listenfd v s.2
  | .run .get, s => some s.1
  | .run (.file .getcwd), _ => some (some [47])
  | .run (.update _), _ => some ()
  | _, _ => none

theorem hangUp_allowed (o : Op Sender.signature) (s : Sender.Ctx × Resources)
    (r : Response Sender.signature o) (h : hangUp o s = some r) :
    (semantics (senderContext false) false).allow o s r := by
  match o with
  | .verb v => exact ⟨failing_possible h, nofun⟩
  | .run o => cases o <;> first | exact trivial | exact (Option.some.inj h).symm | exact nofun

theorem addressInUse_allowed (o : Op Receiver.signature) (s : Receiver.Ctx × Resources)
    (r : Response Receiver.signature o) (h : addressInUse o s = some r) :
    (semantics (receiverContext false) false).allow o s r := by
  match o with
  | .verb v => exact ⟨failing_possible h, nofun⟩
  | .run o => cases o <;> first | exact trivial | exact (Option.some.inj h).symm | exact nofun

abbrev brokenRun : Life Sender.signature Int × Sender.Ctx × Resources :=
  Program.exec ((sender false).bodies (Sender.bodies ⟨true, false⟩))
    (semantics (senderContext false) false) hangUp 140
    (senderMain false ⟨true, false⟩ [115] [100], Sender.initCtx, atStart true)

abbrev unboundRun : Life Receiver.signature Int × Receiver.Ctx × Resources :=
  Program.exec ((receiver false).bodies Receiver.bodies)
    (semantics (receiverContext false) false) addressInUse 140
    (receiverMain false none, (Receiver.initState ()).ctx, atStart false)

/-- After a failed exchange the queue pair is destroyed twice, and after a failed `bind` a socket
is listened on that was closed. -/
theorem main_not_dutiful :
    ¬ (senderSystem false ⟨true, false⟩ [115] [100] false).Invariant Dutiful ∧
      ¬ (receiverSystem false none false).Invariant Dutiful := by
  constructor
  · intro h
    have hreach := h brokenRun ⟨_, rfl, Program.exec_runs hangUp_allowed 140 _⟩
    have hqp : asked? brokenRun.1 = some (.release .qp) := by decide +kernel
    obtain ⟨k, hk⟩ := eq_of_asked? hqp
    obtain ⟨⟨x, hx, hl⟩, -⟩ := hreach _ k hk
    have hdead : (brokenRun.2.2.var .qp).bind brokenRun.2.2.live = none := by decide +kernel
    rw [hx] at hdead
    exact absurd (hdead.symm.trans hl) nofun
  · intro h
    have hreach := h unboundRun ⟨_, rfl, Program.exec_runs addressInUse_allowed 140 _⟩
    have hlisten : asked? unboundRun.1 = some (.use [.listenfd] .elsewhere) := by decide +kernel
    obtain ⟨k, hk⟩ := eq_of_asked? hlisten
    obtain ⟨x, hx, hl⟩ := hreach _ k hk .listenfd (List.mem_singleton.mpr rfl)
    have hdead : (unboundRun.2.2.var .listenfd).bind unboundRun.2.2.live = none := by
      decide +kernel
    rw [hx] at hdead
    exact absurd (hdead.symm.trans hl) nofun

end ScpRdma.Lifecycle

import ScpRdma.Foundations.Program

/-!
# Handlers

A handler says what a program of a coarse signature does in a finer one: a program of the finer
signature for each operation. Procedures keep their names; a program that has none can be
interpreted in any signature. `Phases` describes a program by what it asks for, before and after
it has opened something; the handled program then keeps whatever the handled operations keep.
-/
namespace ScpRdma.Foundations

/-- The signature with other operations and the same procedures. -/
def Signature.withOps (S : Signature) (Op : Type) (Response : Op → Type) : Signature :=
  ⟨Op, Response, S.Call, S.Result⟩

variable {S : Signature} {O : Type} {R : O → Type} {α β : Type}

/-- A program of the finer signature for each operation. -/
abbrev Handler (S : Signature) (O : Type) (R : O → Type) : Type :=
  (o : S.Op) → Program (S.withOps O R) (S.Response o)

/-- Handle every operation of a program. -/
def Handler.run (h : Handler S O R) : Program S α → Program (S.withOps O R) α
  | .done a => .done a
  | .op o k => (h o).bind fun r => h.run (k r)
  | .call c k => .call (S := S.withOps O R) c fun r => h.run (k r)

/-- The bodies of the procedures, handled. -/
def Handler.bodies (h : Handler S O R) (B : Bodies S) : Bodies (S.withOps O R) :=
  fun c => h.run (B c)

theorem Handler.run_bind (h : Handler S O R) (p : Program S α) (f : α → Program S β) :
    h.run (p.bind f) = (h.run p).bind fun a => h.run (f a) := by
  induction p with
  | done a => rfl
  | op o k ih => simp only [Program.op_bind, run, ih, Program.bind_assoc]
  | call c k ih => exact congrArg (Program.call (S := S.withOps O R) c) (funext ih)

/-- A program that calls no procedure, in another signature. -/
def Program.interpret {T : Signature} [IsEmpty S.Call] (h : (o : S.Op) → Program T (S.Response o)) :
    Program S α → Program T α
  | .done a => .done a
  | .op o k => (h o).bind fun r => (k r).interpret h
  | .call c _ => isEmptyElim c

section Wp

variable {σ : Type} {h : Handler S O R} {B : Bodies (S.withOps O R)}
  {M : Semantics (S.withOps O R) σ} {D : Duties (S.withOps O R) σ} {n : Nat} {s : σ}

theorem Handler.wp_bind {p : Program S α} {f : α → Program S β} {P : α → σ → Prop}
    {Q : β → σ → Prop} (hp : wp B M D n (h.run p) P s)
    (hf : ∀ a t, P a t → wp B M D n (h.run (f a)) Q t) : wp B M D n (h.run (p >>= f)) Q s := by
  change wp B M D n (h.run (p.bind f)) Q s
  rw [run_bind]
  exact hp.bind hf

theorem Handler.wp_ask {o : S.Op} {Q : S.Response o → σ → Prop} (ho : wp B M D n (h o) Q s) :
    wp B M D n (h.run (Program.ask o)) Q s := by
  change wp B M D n ((h o).bind .done) Q s
  rwa [Program.bind_done]

/-- A handled program without calls keeps what its handled operations keep. -/
theorem Handler.wp_only {P : S.Op → Prop} {I : σ → Prop} {p : Program S α}
    (hp : Program.Only P (fun _ => False) p)
    (hop : ∀ o s, P o → I s → wp B M D n (h o) (fun _ t => I t) s) (hs : I s) :
    wp B M D n (h.run p) (fun _ t => I t) s := by
  induction p generalizing s with
  | done a => exact wp.done hs
  | op o k ih => exact (hop o s hp.1 hs).bind fun r t ht => ih r (hp.2 r) ht
  | call c k => exact hp.1.elim

end Wp

/-- What a program may do before and after it has opened something. `opening` are the parts that
open it, with a result in `opened`; `answers` says how operations are answered. -/
structure Phases (S : Signature) (ι γ : Type) where
  answers : (o : S.Op) → S.Response o → Prop
  ops : Bool → S.Op → Prop
  calls : Bool → S.Call → Prop
  opening : ι → Program S γ
  opened : γ → Prop
  ops_open : ∀ {b o}, ops b o → ops true o
  calls_open : ∀ {b c}, calls b c → calls true c

/-- The program respects the phases, from the phase `b` on. -/
inductive Phases.Built {ι γ : Type} (F : Phases S ι γ) : Bool → Program S α → Prop where
  | done {b a} : Built F b (.done a)
  | op {b o k} : F.ops b o → (∀ r, F.answers o r → Built F b (k r)) → Built F b (.op o k)
  | call {b c k} : F.calls b c → (∀ r, Built F b (k r)) → Built F b (.call c k)
  | opens {b k} (i : ι) : (∀ r, F.opened r → Built F true (k r)) →
      (∀ r, ¬ F.opened r → Built F b (k r)) → Built F b ((F.opening i).bind k)

namespace Phases.Built

variable {ι γ : Type} {F : Phases S ι γ} {b : Bool}

/-- Once it is open nothing closes it. -/
theorem later {p : Program S α} (h : F.Built b p) : F.Built true p := by
  induction h with
  | done => exact .done
  | op ho _ ih => exact .op (F.ops_open ho) ih
  | call hc _ ih => exact .call (F.calls_open hc) ih
  | opens i _ _ ihopen ihclosed => exact .opens i ihopen ihclosed

theorem bind {p : Program S α} {f : α → Program S β} (h : F.Built b p)
    (hf : ∀ a, F.Built b (f a)) : F.Built b (p.bind f) := by
  induction h with
  | done => exact hf _
  | op ho _ ih => exact .op ho fun r hr => ih r hr hf
  | call hc _ ih => exact .call hc fun r => ih r hf
  | opens i _ _ ihopen ihclosed =>
    rw [Program.bind_assoc]
    exact .opens i (fun r hr => ihopen r hr fun a => (hf a).later) fun r hr => ihclosed r hr hf

theorem ask {o : S.Op} {f : S.Response o → Program S α} (ho : F.ops b o)
    (hf : ∀ r, F.Built b (f r)) : F.Built b ((Program.ask o).bind f) := .op ho fun r _ => hf r

theorem ite {c : Prop} [Decidable c] {p q : Program S α} (hp : F.Built b p)
    (hq : F.Built b q) : F.Built b (if c then p else q) := by
  split
  · exact hp
  · exact hq

/-- `if (p) return e;`, and then the rest. -/
theorem step {c : α → Prop} [∀ a, Decidable (c a)] {e : β} {p : Program S α} {q : Program S β}
    (hp : F.Built b p) (hq : F.Built b q) : F.Built b (do if c (← p) then return e else q) :=
  hp.bind fun _ => ite done hq

theorem of_only {p : Program S α} (h : Program.Only (F.ops b) (F.calls b) p) : F.Built b p := by
  induction p with
  | done a => exact .done
  | op o k ih => exact .op h.1 fun r _ => ih r (h.2 r)
  | call c k ih => exact .call h.1 fun r => ih r (h.2 r)

/-- The handled program keeps what its handled operations and the handled opening keep. -/
theorem handled {σ : Type} {h : Handler S O R} {B : Bodies S}
    {M : Semantics (S.withOps O R) σ} {D : Duties (S.withOps O R) σ} {I : Bool → σ → Prop} {n : Nat}
    {p : Program S α} {s : σ} (hp : F.Built b p) (hB : ∀ b c, F.calls b c → F.Built b (B c))
    (hI : ∀ s, I true s → I false s)
    (hop : ∀ b o n s, F.ops b o → I b s →
      wp (h.bodies B) M D n (h o) (fun r t => F.answers o r ∧ I b t) s)
    (hopening : ∀ i b n s, I b s → wp (h.bodies B) M D n (h.run (F.opening i))
      (fun r t => I b t ∧ (F.opened r → I true t)) s)
    (hcall : ∀ c s, D.call c s) (hs : I b s) :
    wp (h.bodies B) M D n (h.run p) (fun _ t => I b t) s := by
  have hfirst : ∀ b s, I true s → I b s := by
    rintro (_ | _) s hs
    · exact hI s hs
    · exact hs
  induction n generalizing b p s with
  | zero => trivial
  | succ n ih =>
    induction hp generalizing s with
    | done => exact hs
    | op ho _ ihp => exact (hop _ _ _ s ho hs).bind fun r t ht => ihp r ht.1 ht.2
    | @call b c k hc hk _ =>
      refine ⟨hcall c s, ?_⟩
      have := ih ((hB b c hc).bind hk) hs
      rwa [Handler.run_bind] at this
    | @opens b k i _ _ ihopen ihclosed =>
      rw [Handler.run_bind]
      refine (hopening i b _ s hs).bind fun r t ht => ?_
      by_cases hr : F.opened r
      · exact (ihopen r hr (ht.2 hr)).mono fun _ u => hfirst b u
      · exact ihclosed r hr ht.1

end Phases.Built

end ScpRdma.Foundations

import ScpRdma.Foundations.Transition

/-!
# Programs as trees of operations and calls

A sequential program that talks to its surroundings is a tree: it ends with a value, asks
for an operation and continues with the response, or calls a recursive procedure. Loops and
recursion are calls, so a program is finite syntax and all divergence is in its runs.

One program is given several meanings. A `Semantics` says which responses an operation may
have in a state and what it does to the state; `wp` is the demonic precondition of a program
under all of them, together with a duty that each operation must meet when it is asked for.
-/
namespace ScpRdma.Foundations

/-- The operations of a program with their responses, its procedures with their results. -/
structure Signature where
  Op : Type
  Response : Op → Type
  Call : Type
  Result : Call → Type

inductive Program (S : Signature) (α : Type) : Type where
  | done (a : α)
  | op (o : S.Op) (k : S.Response o → Program S α)
  | call (c : S.Call) (k : S.Result c → Program S α)

namespace Program

variable {S : Signature} {α β γ : Type}

def bind : Program S α → (α → Program S β) → Program S β
  | .done a, f => f a
  | .op o k, f => .op o fun r => (k r).bind f
  | .call c k, f => .call c fun r => (k r).bind f

instance : Monad (Program S) where
  pure := .done
  bind := bind

@[simp] theorem pure_eq (a : α) : (pure a : Program S α) = .done a := rfl
@[simp] theorem bind_eq (p : Program S α) (f : α → Program S β) : p >>= f = p.bind f := rfl
theorem pure_bind (a : α) (f : α → Program S β) : (pure a : Program S α) >>= f = f a := rfl
@[simp] theorem done_bind (a : α) (f : α → Program S β) : (done a).bind f = f a := rfl
@[simp] theorem op_bind (o : S.Op) (k : S.Response o → Program S α) (f : α → Program S β) :
    (op o k).bind f = .op o fun r => (k r).bind f := rfl
@[simp] theorem call_bind (c : S.Call) (k : S.Result c → Program S α)
    (f : α → Program S β) : (call c k).bind f = .call c fun r => (k r).bind f := rfl

theorem bind_assoc (p : Program S α) (f : α → Program S β) (g : β → Program S γ) :
    (p.bind f).bind g = p.bind fun a => (f a).bind g := by
  induction p with
  | done a => rfl
  | op o k ih => simp only [op_bind, ih]
  | call c k ih => simp only [call_bind, ih]

theorem bind_done (p : Program S α) : p.bind .done = p := by
  induction p with
  | done a => rfl
  | op o k ih => simp only [op_bind, ih]
  | call c k ih => simp only [call_bind, ih]

/-- Ask for one operation and return its response. -/
def ask (o : S.Op) : Program S (S.Response o) := .op o .done

/-- Call one procedure and return its result. -/
def invoke (c : S.Call) : Program S (S.Result c) := .call c .done

@[simp] theorem ask_bind (o : S.Op) (f : S.Response o → Program S β) :
    (ask o).bind f = .op o f := rfl
@[simp] theorem invoke_bind (c : S.Call) (f : S.Result c → Program S β) :
    (invoke c).bind f = .call c f := rfl

end Program

/-- The bodies of the procedures. -/
abbrev Bodies (S : Signature) := (c : S.Call) → Program S (S.Result c)

/-- Which responses the surroundings may give in a state, and the state after each. -/
structure Semantics (S : Signature) (σ : Type) where
  allow : (o : S.Op) → σ → S.Response o → Prop
  next : (o : S.Op) → σ → S.Response o → σ

/-- The surroundings answer until an operation in `P` is asked for. -/
def Semantics.upTo {S : Signature} {σ : Type} (M : Semantics S σ) (P : S.Op → Prop) :
    Semantics S σ where
  allow o s r := M.allow o s r ∧ ¬ P o
  next := M.next

variable {S : Signature} {σ : Type} {α β : Type}

/-- One step of a program; entering a procedure is a step of its own. -/
inductive Program.Step (B : Bodies S) (M : Semantics S σ) :
    Program S α × σ → Program S α × σ → Prop where
  | op {o k s} (r) : M.allow o s r → Step B M (.op o k, s) (k r, M.next o s r)
  | call {c k s} : Step B M (.call c k, s) ((B c).bind k, s)

namespace Program

/-- The value of a program that has ended. -/
def result? : Program S α → Option α
  | .done a => some a
  | _ => none

theorem eq_done_of_result? {p : Program S α} {a : α} (h : p.result? = some a) : p = .done a := by
  cases p with
  | done b => exact congrArg _ (Option.some.inj h)
  | op | call => cases h

/-- Run a program for at most `n` steps against scripted answers. -/
def exec (B : Bodies S) (M : Semantics S σ)
    (answer : (o : S.Op) → σ → Option (S.Response o)) :
    Nat → Program S α × σ → Program S α × σ
  | 0, c => c
  | _ + 1, (.done a, s) => (.done a, s)
  | n + 1, (.op o k, s) =>
    match answer o s with
    | some r => exec B M answer n (k r, M.next o s r)
    | none => (.op o k, s)
  | n + 1, (.call c k, s) => exec B M answer n ((B c).bind k, s)

end Program

/-- The runs of `p` from `s`, as a transition system. -/
def Program.system (B : Bodies S) (M : Semantics S σ) (p : Program S α) (s : σ) :
    System (Program S α × σ) where
  init c := c = (p, s)
  step := Program.Step B M

/-- What holds throughout the runs of a program holds where it stands. -/
theorem Program.now {B : Bodies S} {M : Semantics S σ} {p : Program S α} {s : σ}
    {P : Program S α × σ → Prop} (h : (p.system B M s).Invariant P) : P (p, s) :=
  h _ (.of_init rfl)

/-- What holds throughout the runs of a program holds throughout those of its continuations. -/
theorem Program.after {B : Bodies S} {M : Semantics S σ} {o : S.Op}
    {k : S.Response o → Program S α} {s : σ} {P : Program S α × σ → Prop}
    (h : ((Program.op o k).system B M s).Invariant P) (r : S.Response o) (hr : M.allow o s r) :
    ((k r).system B M (M.next o s r)).Invariant P := by
  rintro c ⟨_, rfl, hruns⟩
  exact h c ⟨_, rfl, hruns.head (.op r hr)⟩

/-- A run of the first part of a program is a run of the program. -/
theorem Program.runs_bind {B : Bodies S} {M : Semantics S σ} {p q : Program S α} {s t : σ}
    {p₀ : Program S α} {s₀ : σ} (f : α → Program S β)
    (h : (p₀.system B M s₀).Runs (p, s) (q, t)) :
    ((p₀.bind f).system B M s₀).Runs (p.bind f, s) (q.bind f, t) := by
  refine h.lift (fun c : Program S α × σ => (c.1.bind f, c.2)) ?_
  rintro _ _ (⟨r, hr⟩ | @⟨c, k, u⟩)
  · exact .op r hr
  · change Program.Step B M (.call c fun r => (k r).bind f, u) (((B c).bind k).bind f, u)
    rw [Program.bind_assoc]
    exact .call

/-- Answers that the surroundings may give drive a run. -/
theorem Program.exec_runs {B : Bodies S} {M : Semantics S σ}
    {answer : (o : S.Op) → σ → Option (S.Response o)}
    (h : ∀ o s r, answer o s = some r → M.allow o s r) {p₀ : Program S α} {s₀ : σ} (n : Nat)
    (c : Program S α × σ) : (p₀.system B M s₀).Runs c (exec B M answer n c) := by
  induction n generalizing c with
  | zero => exact .refl c
  | succ n ih =>
    obtain ⟨p, s⟩ := c
    cases p with
    | done a => exact .refl _
    | op o k =>
      rw [exec]
      cases hr : answer o s with
      | none => exact .refl _
      | some r => exact (ih _).head (.op r (h o s r hr))
    | call c k => exact (ih _).head .call

/-- `p`, which calls no procedure, may end with `a`, taking `s` to `t`. -/
inductive Program.Outcome (M : Semantics S σ) : Program S α → σ → α → σ → Prop where
  | done {a s} : Outcome M (.done a) s a s
  | op {o k s a t} (r) : M.allow o s r → Outcome M (k r) (M.next o s r) a t →
      Outcome M (.op o k) s a t

theorem Program.Outcome.bind {M : Semantics S σ} {p : Program S α} {f : α → Program S β}
    {s t u : σ} {a : α} {b : β} (h : Outcome M p s a t) (g : Outcome M (f a) t b u) :
    Outcome M (p.bind f) s b u := by
  induction h with
  | done => exact g
  | op r hr _ ih => exact .op r hr (ih g)

/-- An outcome of two parts is one of the first, and from there one of the second. -/
theorem Program.Outcome.of_bind {M : Semantics S σ} {p : Program S α} {f : α → Program S β}
    {s u : σ} {b : β} (h : Outcome M (p.bind f) s b u) :
    ∃ a t, Outcome M p s a t ∧ Outcome M (f a) t b u := by
  induction p generalizing s with
  | done a => exact ⟨a, s, .done, h⟩
  | op o k ih =>
    cases h with
    | op r hr h =>
      obtain ⟨a, t, hp, hf⟩ := ih r h
      exact ⟨a, t, .op r hr hp, hf⟩
  | call c k => cases h

/-- Run a program that calls no procedure on given answers. -/
def Program.answered (M : Semantics S σ) (answer : (o : S.Op) → σ → S.Response o) :
    Program S α → σ → Option (α × σ)
  | .done a, s => some (a, s)
  | .op o k, s => answered M answer (k (answer o s)) (M.next o s (answer o s))
  | .call _ _, _ => none

theorem Program.answered_outcome {M : Semantics S σ} {answer : (o : S.Op) → σ → S.Response o}
    (hallow : ∀ o s, M.allow o s (answer o s)) {p : Program S α} {s : σ} {r : α × σ}
    (h : p.answered M answer s = some r) : Outcome M p s r.1 r.2 := by
  induction p generalizing s with
  | done a =>
    cases h
    exact .done
  | op o k ih => exact .op _ (hallow o s) (ih _ h)
  | call c k => cases h

/-- What holds throughout the runs of a program holds throughout those that go on from an outcome
of its first part. -/
theorem Program.past {B : Bodies S} {M : Semantics S σ} {p : Program S α} {f : α → Program S β}
    {s t : σ} {a : α} {P : Program S β × σ → Prop}
    (h : ((p.bind f).system B M s).Invariant P) (hp : Outcome M p s a t) :
    ((f a).system B M t).Invariant P := by
  induction hp with
  | done => exact h
  | op r hr _ ih => exact ih (Program.after h r hr)

/-- `p` may return `a`, taking `s` to `t`. -/
def Program.Returns (B : Bodies S) (M : Semantics S σ) (p : Program S α) (s : σ) (a : α) (t : σ) :
    Prop := Relation.ReflTransGen (Program.Step B M) (p, s) (.done a, t)

namespace Program.Returns

variable {B : Bodies S} {M : Semantics S σ} {s t u : σ} {a : α}

theorem done : Returns B M (.done a) s a s := .refl

theorem op {o : S.Op} {k : S.Response o → Program S α} (r : S.Response o) (hr : M.allow o s r)
    (h : Returns B M (k r) (M.next o s r) a t) : Returns B M (.op o k) s a t :=
  .head (.op r hr) h

theorem call {c : S.Call} {k : S.Result c → Program S α}
    (h : Returns B M ((B c).bind k) s a t) : Returns B M (.call c k) s a t := .head .call h

theorem runs_bind {p : Program S α} {f : α → Program S β} {q : Program S β} {u : σ}
    (h : Returns B M p s a t) : (q.system B M u).Runs (p.bind f, s) (f a, t) :=
  @Program.runs_bind S σ α β B M p (.done a) s t p s f h

theorem bind {p : Program S α} {f : α → Program S β} {b : β} (h : Returns B M p s a t)
    (hf : Returns B M (f a) t b u) : Returns B M (p.bind f) s b u :=
  Relation.ReflTransGen.trans (runs_bind (q := p.bind f) (u := s) h) hf

/-- What holds throughout the runs of a program holds throughout those that go on from where its
first part returns. -/
theorem past {p : Program S α} {f : α → Program S β} {P : Program S β × σ → Prop}
    (hp : Returns B M p s a t) (h : ((p.bind f).system B M s).Invariant P) :
    ((f a).system B M t).Invariant P := by
  rintro c ⟨_, rfl, hruns⟩
  exact h c ⟨_, rfl, System.Runs.trans (runs_bind hp) hruns⟩

end Program.Returns

/-- Every outcome of `p` from `s` is in `Q`. -/
def Program.Ensures (M : Semantics S σ) : Program S α → (α → σ → Prop) → σ → Prop
  | .done a, Q, s => Q a s
  | .op o k, Q, s => ∀ r, M.allow o s r → Ensures M (k r) Q (M.next o s r)
  | .call _ _, _, _ => True

namespace Program.Ensures

variable {M : Semantics S σ} {Q R : α → σ → Prop}

theorem done {a : α} {s : σ} (h : Q a s) : Ensures M (.done a) Q s := h

theorem op {o : S.Op} {k : S.Response o → Program S α} {s : σ}
    (h : ∀ r, M.allow o s r → Ensures M (k r) Q (M.next o s r)) : Ensures M (.op o k) Q s := h

theorem outcome {p : Program S α} {s t : σ} {a : α} (h : Ensures M p Q s)
    (hout : Outcome M p s a t) : Q a t := by
  induction hout with
  | done => exact h
  | op r hr _ ih => exact ih (h r hr)

theorem mono {p : Program S α} {s : σ} (h : Ensures M p Q s) (hQR : ∀ a t, Q a t → R a t) :
    Ensures M p R s := by
  induction p generalizing s with
  | done a => exact hQR a s h
  | op o k ih => exact fun r hr => ih r (h r hr)
  | call c k => trivial

theorem bind {p : Program S α} {f : α → Program S β} {Q' : β → σ → Prop} {s : σ}
    (h : Ensures M p Q s) (hf : ∀ a t, Q a t → Ensures M (f a) Q' t) :
    Ensures M (p.bind f) Q' s := by
  induction p generalizing s with
  | done a => exact hf a s h
  | op o k ih => exact fun r hr => ih r (h r hr)
  | call c k => trivial

theorem of_bind {p : Program S α} {f : α → Program S β} {Q' : β → σ → Prop} {s : σ}
    (h : Ensures M (p.bind f) Q' s) : Ensures M p (fun a t => Ensures M (f a) Q' t) s := by
  induction p generalizing s with
  | done a => exact h
  | op o k ih => exact fun r hr => ih r (h r hr)
  | call c k => trivial

theorem ite {c : Prop} [Decidable c] {p q : Program S α} {s : σ} (hp : c → Ensures M p Q s)
    (hq : ¬ c → Ensures M q Q s) : Ensures M (if c then p else q) Q s := by
  split
  · exact hp ‹_›
  · exact hq ‹_›

end Program.Ensures

/-- Every run of `p` has ended after `n` steps, unless the surroundings leave an operation
without an answer. -/
def Program.EndsWithin (B : Bodies S) (M : Semantics S σ) : Nat → Program S α → σ → Prop
  | _, .done _, _ => True
  | 0, _, _ => False
  | n + 1, .op o k, s => ∀ r, M.allow o s r → EndsWithin B M n (k r) (M.next o s r)
  | n + 1, .call c k, s => EndsWithin B M n ((B c).bind k) s

namespace Program.EndsWithin

variable {B : Bodies S} {M : Semantics S σ}

theorem done {n : Nat} {a : α} {s : σ} : EndsWithin B M n (.done a) s := by
  cases n <;> trivial

theorem mono {m n : Nat} {p : Program S α} {s : σ} (h : EndsWithin B M m p s) (hmn : m ≤ n) :
    EndsWithin B M n p s := by
  induction m generalizing n p s with
  | zero =>
    cases p with
    | done a => exact done
    | op | call => exact h.elim
  | succ m ih =>
    obtain ⟨n, rfl⟩ : ∃ k, n = k + 1 := ⟨n - 1, by omega⟩
    cases p with
    | done a => exact done
    | op o k => exact fun r hr => ih (h r hr) (by omega)
    | call c k => exact ih (p := (B c).bind k) h (by omega)

theorem bind {m n : Nat} {p : Program S α} {f : α → Program S β} {s : σ}
    (h : EndsWithin B M m p s) (hf : ∀ a t, EndsWithin B M n (f a) t) :
    EndsWithin B M (m + n) (p.bind f) s := by
  induction m generalizing p s with
  | zero =>
    cases p with
    | done a => exact (hf a s).mono (by omega)
    | op | call => exact h.elim
  | succ m ih =>
    cases p with
    | done a => exact (hf a s).mono (by omega)
    | op o k =>
      rw [show m + 1 + n = m + n + 1 by omega]
      exact fun r hr => ih (h r hr)
    | call c k =>
      rw [show m + 1 + n = m + n + 1 by omega]
      have := ih (p := (B c).bind k) h
      rwa [Program.bind_assoc] at this

end Program.EndsWithin

/-- What must hold where a program asks for an operation or calls a procedure. -/
structure Duties (S : Signature) (σ : Type) where
  op : S.Op → σ → Prop
  call : S.Call → σ → Prop

/-- `p` meets the duties `D` in its first `n` steps and ends in `Q`. -/
def wp (B : Bodies S) (M : Semantics S σ) (D : Duties S σ) :
    Nat → Program S α → (α → σ → Prop) → σ → Prop
  | 0, _, _, _ => True
  | _ + 1, .done a, Q, s => Q a s
  | n + 1, .op o k, Q, s =>
      D.op o s ∧ ∀ r, M.allow o s r → wp B M D n (k r) Q (M.next o s r)
  | n + 1, .call c k, Q, s => D.call c s ∧ wp B M D n ((B c).bind k) Q s

namespace wp

variable {B : Bodies S} {M : Semantics S σ} {D : Duties S σ}

theorem mono {n : Nat} {p : Program S α} {Q R : α → σ → Prop} {s : σ}
    (h : wp B M D n p Q s) (hQR : ∀ a t, Q a t → R a t) : wp B M D n p R s := by
  induction n generalizing p s with
  | zero => trivial
  | succ n ih =>
    cases p with
    | done a => exact hQR a s h
    | op o k => exact ⟨h.1, fun r hr => ih (h.2 r hr)⟩
    | call c k => exact ⟨h.1, ih h.2⟩

/-- Two postconditions that are proved apart hold together. -/
theorem and {D' : Duties S σ} {n : Nat} {p : Program S α} {Q R : α → σ → Prop} {s : σ}
    (h : wp B M D n p Q s) (h' : wp B M D' n p R s) :
    wp B M D n p (fun a t => Q a t ∧ R a t) s := by
  induction n generalizing p s with
  | zero => trivial
  | succ n ih =>
    cases p with
    | done a => exact ⟨h, h'⟩
    | op o k => exact ⟨h.1, fun r hr => ih (h.2 r hr) (h'.2 r hr)⟩
    | call c k => exact ⟨h.1, ih h.2 h'.2⟩

theorem pred {n : Nat} {p : Program S α} {Q : α → σ → Prop} {s : σ}
    (h : wp B M D (n + 1) p Q s) : wp B M D n p Q s := by
  induction n generalizing p s with
  | zero => trivial
  | succ n ih =>
    cases p with
    | done a => exact h
    | op o k => exact ⟨h.1, fun r hr => ih (h.2 r hr)⟩
    | call c k => exact ⟨h.1, ih h.2⟩

theorem done {n : Nat} {a : α} {Q : α → σ → Prop} {s : σ} (h : Q a s) :
    wp B M D n (.done a) Q s := by
  cases n with
  | zero => trivial
  | succ n => exact h

theorem op {n : Nat} {o : S.Op} {k : S.Response o → Program S α} {Q : α → σ → Prop} {s : σ}
    (hD : D.op o s) (h : ∀ r, M.allow o s r → wp B M D n (k r) Q (M.next o s r)) :
    wp B M D n (.op o k) Q s := by
  cases n with
  | zero => trivial
  | succ n => exact ⟨hD, fun r hr => (h r hr).pred⟩

/-- Sequencing: the first part may be verified against any intermediate condition. -/
theorem bind {n : Nat} {p : Program S α} {f : α → Program S β} {R : α → σ → Prop}
    {Q : β → σ → Prop} {s : σ} (h : wp B M D n p R s)
    (hf : ∀ a t, R a t → wp B M D n (f a) Q t) : wp B M D n (p.bind f) Q s := by
  induction n generalizing p s with
  | zero => trivial
  | succ n ih =>
    cases p with
    | done a => exact hf a s h
    | op o k => exact ⟨h.1, fun r hr => ih (h.2 r hr) fun a t ha => (hf a t ha).pred⟩
    | call c k =>
      have := ih (p := (B c).bind k) h.2 fun a t ha => (hf a t ha).pred
      rw [Program.bind_assoc] at this
      exact ⟨h.1, this⟩

theorem ite {n : Nat} {c : Prop} [Decidable c] {p q : Program S α} {Q : α → σ → Prop} {s : σ}
    (hp : c → wp B M D n p Q s) (hq : ¬ c → wp B M D n q Q s) :
    wp B M D n (if c then p else q) Q s := by
  split
  · exact hp ‹_›
  · exact hq ‹_›

/-- An early return. -/
theorem guard {n : Nat} {c : Prop} [Decidable c] {a : α} {p : Program S α} {Q : α → σ → Prop}
    {s : σ} (ha : c → Q a s) (hp : ¬ c → wp B M D n p Q s) :
    wp B M D n (if c then pure a else p) Q s :=
  ite (fun hc => done (ha hc)) hp

/-- Specifications of mutually recursive procedures, each proved of its body from all of
them. The index counts the steps that are left, so a call inside a body is an earlier case. -/
theorem recursion {ι : Type*} (c : ι → S.Call) (P : ι → σ → Prop)
    (Q : (i : ι) → σ → S.Result (c i) → σ → Prop) (hD : ∀ i s, P i s → D.call (c i) s)
    (h : ∀ n, (∀ i s, P i s → wp B M D n (Program.invoke (c i)) (Q i s) s) →
      ∀ i s, P i s → wp B M D n (B (c i)) (Q i s) s) (n : Nat) (i : ι) (s : σ) (hs : P i s) :
    wp B M D n (Program.invoke (c i)) (Q i s) s := by
  induction n generalizing i s with
  | zero => trivial
  | succ n ih =>
    exact ⟨hD i s hs, (Program.bind_done (B (c i))).symm ▸ h n ih i s hs⟩

/-- Fewer responses and fewer duties are easier; only responses to dutiful operations count. -/
theorem weaken {M' : Semantics S σ} {D' : Duties S σ} {n : Nat} {p : Program S α}
    {Q : α → σ → Prop} {s : σ} (h : wp B M D n p Q s) (hnext : M'.next = M.next)
    (hallow : ∀ o s r, D.op o s → M'.allow o s r → M.allow o s r)
    (hop : ∀ o s, D.op o s → D'.op o s) (hcall : ∀ c s, D.call c s → D'.call c s) :
    wp B M' D' n p Q s := by
  induction n generalizing p s with
  | zero => trivial
  | succ n ih =>
    cases p with
    | done a => exact h
    | op o k => exact ⟨hop o s h.1, fun r hr => ih (hnext ▸ h.2 r (hallow o s r h.1 hr))⟩
    | call c k => exact ⟨hcall c s h.1, ih h.2⟩

/-- A semantics over a richer state, seen through a projection, in states that keep `I`. -/
theorem lift {τ : Type} {N : Semantics S τ} {F : Duties S τ} (f : τ → σ) (I : τ → Prop)
    (hnext : ∀ o t r, f (N.next o t r) = M.next o (f t) r)
    (hI : ∀ o t r, I t → N.allow o t r → I (N.next o t r))
    (hallow : ∀ o t r, I t → D.op o (f t) → N.allow o t r → M.allow o (f t) r)
    (hop : ∀ o t, D.op o (f t) → F.op o t) (hcall : ∀ c t, D.call c (f t) → F.call c t)
    {n : Nat} {p : Program S α} {Q : α → σ → Prop} {t : τ} (h : wp B M D n p Q (f t))
    (ht : I t) : wp B N F n p (fun a u => I u ∧ Q a (f u)) t := by
  induction n generalizing p t with
  | zero => trivial
  | succ n ih =>
    cases p with
    | done a => exact ⟨ht, h⟩
    | op o k =>
      refine ⟨hop o t h.1, fun r hr => ih ?_ (hI o t r ht hr)⟩
      rw [hnext]
      exact h.2 r (hallow o t r ht h.1 hr)
    | call c k => exact ⟨hcall c t h.1, ih h.2 ht⟩

end wp

/-- `p` asks only for operations in `P` and calls only procedures in `C`. -/
def Program.Only (P : S.Op → Prop) (C : S.Call → Prop) : Program S α → Prop
  | .done _ => True
  | .op o k => P o ∧ ∀ r, Only P C (k r)
  | .call c k => C c ∧ ∀ r, Only P C (k r)

namespace Program.Only

variable {P : S.Op → Prop} {C : S.Call → Prop}

theorem mono {P' : S.Op → Prop} {C' : S.Call → Prop} {p : Program S α} (h : Only P C p)
    (hP : ∀ o, P o → P' o) (hC : ∀ c, C c → C' c) : Only P' C' p := by
  induction p with
  | done a => trivial
  | op o k ih => exact ⟨hP o h.1, fun r => ih r (h.2 r)⟩
  | call c k ih => exact ⟨hC c h.1, fun r => ih r (h.2 r)⟩

theorem done {a : α} : Only P C (.done a) := trivial

theorem ask {o : S.Op} (h : P o) : Only P C (Program.ask o) := ⟨h, fun _ => trivial⟩

theorem bind {p : Program S α} {f : α → Program S β} (h : Only P C p)
    (hf : ∀ a, Only P C (f a)) : Only P C (p.bind f) := by
  induction p with
  | done a => exact hf a
  | op o k ih => exact ⟨h.1, fun r => ih r (h.2 r)⟩
  | call c k ih => exact ⟨h.1, fun r => ih r (h.2 r)⟩

theorem ite {c : Prop} [Decidable c] {p q : Program S α} (hp : Only P C p) (hq : Only P C q) :
    Only P C (if c then p else q) := by
  split
  · exact hp
  · exact hq

/-- `if (p) return e;`, and then the rest. -/
theorem step {c : α → Prop} [∀ a, Decidable (c a)] {e : β} {p : Program S α} {q : Program S β}
    (hp : Only P C p) (hq : Only P C q) : Only P C (do if c (← p) then return e else q) :=
  hp.bind fun _ => ite done hq

/-- Such a program keeps what these operations keep, and meets the duties that they have then. -/
theorem wp_keeps {B : Bodies S} {M : Semantics S σ} {D : Duties S σ} {I : σ → Prop} {n : Nat}
    {p : Program S α} {s : σ} (h : Only P C p) (hB : ∀ c, C c → Only P C (B c))
    (hop : ∀ o s, P o → I s → D.op o s) (hcall : ∀ c s, C c → D.call c s)
    (hI : ∀ o s r, P o → I s → I (M.next o s r)) (hs : I s) : wp B M D n p (fun _ t => I t) s := by
  induction n generalizing p s with
  | zero => trivial
  | succ n ih =>
    cases p with
    | done a => exact hs
    | op o k => exact ⟨hop o s h.1 hs, fun r _ => ih (h.2 r) (hI o s r h.1 hs)⟩
    | call c k => exact ⟨hcall c s h.1, ih ((hB c h.1).bind h.2) hs⟩

/-- Such a program meets every duty that these operations and procedures have anyway. -/
theorem wp {B : Bodies S} {M : Semantics S σ} {D : Duties S σ} {n : Nat} {p : Program S α} {s : σ}
    (h : Only P C p) (hB : ∀ c, C c → Only P C (B c)) (hop : ∀ o s, P o → D.op o s)
    (hcall : ∀ c s, C c → D.call c s) : wp B M D n p (fun _ _ => True) s :=
  h.wp_keeps hB (fun o s ho _ => hop o s ho) hcall (fun _ _ _ _ _ => trivial) trivial

/-- Other duties may take the place of those that were met, if these operations have them where
what they keep holds. -/
theorem wp_duties {B : Bodies S} {M : Semantics S σ} {D D' : Duties S σ} {I : σ → Prop}
    {n : Nat} {p : Program S α} {Q : α → σ → Prop} {s : σ} (h : Only P C p)
    (hB : ∀ c, C c → Only P C (B c)) (hop : ∀ o s, P o → I s → D'.op o s)
    (hcall : ∀ c s, C c → D'.call c s) (hI : ∀ o s r, P o → I s → I (M.next o s r)) (hs : I s)
    (hwp : Foundations.wp B M D n p Q s) : Foundations.wp B M D' n p Q s := by
  induction n generalizing p s with
  | zero => trivial
  | succ n ih =>
    cases p with
    | done a => exact hwp
    | op o k => exact ⟨hop o s h.1 hs, fun r hr => ih (h.2 r) (hI o s r h.1 hs) (hwp.2 r hr)⟩
    | call c k => exact ⟨hcall c s h.1, ih ((hB c h.1).bind h.2) hs hwp.2⟩

/-- What these operations keep is kept. -/
theorem ensures {M : Semantics S σ} {I : σ → Prop} {p : Program S α} {s : σ} (h : Only P C p)
    (hI : ∀ o t r, P o → I t → M.allow o t r → I (M.next o t r)) (hs : I s) :
    Program.Ensures M p (fun _ t => I t) s := by
  induction p generalizing s with
  | done a => exact hs
  | op o k ih => exact fun r hr => ih r (h.2 r) (hI o s r h.1 hs hr)
  | call c k => trivial

end Program.Only

/-- `p` asks only for operations in `P`, which cost at most `b` together, and calls only procedures
in `C`. -/
def Program.Costs (P : S.Op → Prop) (C : S.Call → Prop) (cost : S.Op → Nat) :
    Nat → Program S α → Prop
  | _, .done _ => True
  | b, .op o k => P o ∧ cost o ≤ b ∧ ∀ r, Costs P C cost (b - cost o) (k r)
  | b, .call c k => C c ∧ ∀ r, Costs P C cost b (k r)

namespace Program.Costs

variable {P : S.Op → Prop} {C : S.Call → Prop} {cost : S.Op → Nat} {a b : Nat}

theorem mono {p : Program S α} (h : Costs P C cost a p) (hab : a ≤ b) : Costs P C cost b p := by
  induction p generalizing a b with
  | done => trivial
  | op o k ih => exact ⟨h.1, Nat.le_trans h.2.1 hab, fun r => ih r (h.2.2 r) (by omega)⟩
  | call c k ih => exact ⟨h.1, fun r => ih r (h.2 r) hab⟩

theorem bind {p : Program S α} {f : α → Program S β} (h : Costs P C cost a p)
    (hf : ∀ x, Costs P C cost b (f x)) : Costs P C cost (a + b) (p.bind f) := by
  induction p generalizing a with
  | done x => exact (hf x).mono (by omega)
  | op o k ih =>
    have hsub : a + b - cost o = a - cost o + b := by
      have := h.2.1
      omega
    exact ⟨h.1, Nat.le_add_right_of_le h.2.1, fun r => hsub ▸ ih r (h.2.2 r)⟩
  | call c k ih => exact ⟨h.1, fun r => ih r (h.2 r)⟩

theorem done {x : α} : Costs P C cost b (.done x) := trivial

theorem ask {o : S.Op} (ho : P o) (hcost : cost o ≤ b) : Costs P C cost b (Program.ask o) :=
  ⟨ho, hcost, fun _ => trivial⟩

theorem ite {c : Prop} [Decidable c] {p q : Program S α} (hp : Costs P C cost b p)
    (hq : Costs P C cost b q) : Costs P C cost b (if c then p else q) := by
  split
  · exact hp
  · exact hq

/-- Operations that cost nothing. -/
theorem of_only {Q : S.Op → Prop} {p : Program S α} (h : Only Q C p)
    (hQ : ∀ o, Q o → P o ∧ cost o = 0) : Costs P C cost b p := by
  induction p with
  | done => trivial
  | op o k ih =>
    obtain ⟨hP, hfree⟩ := hQ o h.1
    refine ⟨hP, by omega, fun r => ?_⟩
    rw [hfree]
    exact ih r (h.2 r)
  | call c k ih => exact ⟨h.1, fun r => ih r (h.2 r)⟩

/-- A measure that each operation raises by its cost at most stays within a budget. -/
theorem wp {B : Bodies S} {M : Semantics S σ} {D : Duties S σ} {I : σ → Prop} {m : σ → Nat}
    {n N : Nat} {p : Program S α} {s : σ} (h : Costs P C cost b p)
    (hB : ∀ c, C c → Costs P C cost 0 (B c))
    (hop : ∀ o s, P o → I s → m s + cost o ≤ N → D.op o s) (hcall : ∀ c s, C c → D.call c s)
    (hm : ∀ o s r, P o → m (M.next o s r) ≤ m s + cost o)
    (hI : ∀ o s r, P o → I s → I (M.next o s r)) (hs : I s) (hN : m s + b ≤ N) :
    wp B M D n p (fun _ t => I t ∧ m t ≤ m s + b) s := by
  induction n generalizing p s b with
  | zero => trivial
  | succ n ih =>
    cases p with
    | done x => exact ⟨hs, Nat.le_add_right _ _⟩
    | op o k =>
      have hcost := h.2.1
      refine ⟨hop o s h.1 hs (by omega), fun r _ => ?_⟩
      have hraise := hm o s r h.1
      refine (ih (h.2.2 r) (hI o s r h.1 hs) (by omega)).mono fun x t ht => ⟨ht.1, ?_⟩
      have := ht.2
      omega
    | call c k =>
      have hbody := (hB c h.1).bind h.2
      rw [Nat.zero_add] at hbody
      exact ⟨hcall c s h.1, ih hbody hs hN⟩

end Program.Costs

/-- Any response is possible, and the state is the list of the operations so far. -/
def Semantics.log (S : Signature) : Semantics S (List S.Op) where
  allow _ _ _ := True
  next o ops _ := ops ++ [o]

/-- What is logged of a program that asks for operations in `P` only. -/
theorem Program.Only.log {P : S.Op → Prop} {C : S.Call → Prop} {p : Program S α} {a : α}
    {ops ops' : List S.Op} (h : Only P C p) (hout : Outcome (.log S) p ops a ops') :
    ∃ asked, ops' = ops ++ asked ∧ ∀ o ∈ asked, P o := by
  induction hout with
  | done => exact ⟨[], (List.append_nil _).symm, nofun⟩
  | @op o k ops a ops' r _ _ ih =>
    obtain ⟨asked, hops, hasked⟩ := ih (h.2 r)
    refine ⟨o :: asked, by rw [hops]; exact List.append_assoc ops [o] asked, ?_⟩
    exact List.forall_mem_cons.mpr ⟨h.1, hasked⟩

/-- A program whose every run meets its duties and, if it ends, ends in `Q`. -/
def Verified (B : Bodies S) (M : Semantics S σ) (D : Duties S σ) (p : Program S α)
    (Q : α → σ → Prop) (s : σ) : Prop := ∀ n, wp B M D n p Q s

namespace Verified

variable {B : Bodies S} {M : Semantics S σ} {D : Duties S σ} {Q : α → σ → Prop} {s : σ}

theorem post {a : α} (h : Verified B M D (.done a) Q s) : Q a s := h 1

theorem duty {o : S.Op} {k : S.Response o → Program S α} (h : Verified B M D (.op o k) Q s) :
    D.op o s := (h 1).1

theorem callDuty {c : S.Call} {k : S.Result c → Program S α}
    (h : Verified B M D (.call c k) Q s) : D.call c s := (h 1).1

theorem response {o : S.Op} {k : S.Response o → Program S α}
    (h : Verified B M D (.op o k) Q s) (r : S.Response o) (hr : M.allow o s r) :
    Verified B M D (k r) Q (M.next o s r) := fun n => (h (n + 1)).2 r hr

theorem enter {c : S.Call} {k : S.Result c → Program S α}
    (h : Verified B M D (.call c k) Q s) : Verified B M D ((B c).bind k) Q s :=
  fun n => (h (n + 1)).2

theorem step {p q : Program S α} {t : σ} (h : Verified B M D p Q s)
    (hstep : Program.Step B M (p, s) (q, t)) : Verified B M D q Q t := by
  cases hstep with
  | op r hr => exact h.response r hr
  | call => exact h.enter

/-- Every state of every run of a verified program is itself verified. -/
theorem runs {p : Program S α} (h : Verified B M D p Q s) :
    (Program.system B M p s).Invariant fun c => Verified B M D c.1 Q c.2 :=
  System.invariant_of_inductive (by rintro _ rfl; exact h) fun _ _ hc hstep => hc.step hstep

/-- A state property that every dutiful operation keeps holds throughout the runs of a
verified program. -/
theorem keeps {p : Program S α} (h : Verified B M D p Q s) {I : σ → Prop} (hs : I s)
    (hI : ∀ o t r, I t → D.op o t → M.allow o t r → I (M.next o t r)) :
    (Program.system B M p s).Invariant fun c => I c.2 := by
  have both : (Program.system B M p s).Invariant fun c => Verified B M D c.1 Q c.2 ∧ I c.2 := by
    refine System.invariant_of_inductive (by rintro _ rfl; exact ⟨h, hs⟩) ?_
    rintro ⟨q, t⟩ ⟨q', t'⟩ ⟨hv, ht⟩ hstep
    refine ⟨hv.step hstep, ?_⟩
    cases hstep with
    | op r hr => exact hI _ _ r ht hv.duty hr
    | call => exact ht
  exact both.mono fun _ hc => hc.2

theorem weaken {M' : Semantics S σ} {p : Program S α} (h : Verified B M D p Q s)
    (hnext : M'.next = M.next) (hallow : ∀ o t r, D.op o t → M'.allow o t r → M.allow o t r) :
    Verified B M' D p Q s :=
  fun n => (h n).weaken hnext hallow (fun _ _ h => h) fun _ _ h => h

/-- What every dutiful operation outside `P` keeps holds until `P` is asked for. -/
theorem keeps_upTo {P : S.Op → Prop} {p : Program S α} (h : Verified B M D p Q s) {I : σ → Prop}
    (hs : I s) (hI : ∀ o t r, I t → D.op o t → ¬ P o → I (M.next o t r)) :
    (Program.system B (M.upTo P) p s).Invariant fun c => Verified B M D c.1 Q c.2 ∧ I c.2 := by
  refine System.invariant_of_inductive (by rintro _ rfl; exact ⟨h, hs⟩) ?_
  rintro ⟨q, t⟩ ⟨q', t'⟩ ⟨hv, ht⟩ hstep
  cases hstep with
  | op r hr => exact ⟨hv.response r hr.1, hI _ _ r ht hv.duty hr.2⟩
  | call => exact ⟨hv.enter, ht⟩

/-- Semantics that agree where the duties hold have the same runs. -/
theorem reachable_weaken {M' : Semantics S σ} {p : Program S α}
    (h : Verified B M' D p Q s) (hnext : M'.next = M.next)
    (hallow : ∀ o t r, D.op o t → M'.allow o t r → M.allow o t r) {c : Program S α × σ}
    (hc : (Program.system B M' p s).Reachable c) : (Program.system B M p s).Reachable c := by
  obtain ⟨_, rfl, hruns⟩ := hc
  have both : (Program.system B M p s).Reachable c ∧ Verified B M' D c.1 Q c.2 := by
    refine hruns.preserves (P := fun c => (Program.system B M p s).Reachable c ∧
      Verified B M' D c.1 Q c.2) ?_ ⟨.of_init rfl, h⟩
    rintro _ _ ⟨hreach, hv⟩ (@⟨o, k, t, r, hr⟩ | _)
    · refine ⟨?_, hv.response r hr⟩
      have hr' := hallow o t r hv.duty hr
      rw [hnext]
      exact hreach.tail (.op r hr')
    · exact ⟨hreach.tail .call, hv.enter⟩
  exact both.1

end Verified

end ScpRdma.Foundations

import Mathlib.Logic.Relation
import Mathlib.Tactic.Common

/-!
# Transition systems and their invariants

A system is a set of start states and a step relation. `Invariant` quantifies over
every state of every run, `invariant_of_inductive` is the induction that all safety
results use, and `Follows` carries a history order along a run.
-/
namespace ScpRdma.Foundations

universe u

/-- Start states and steps; a run is any finite chain of steps from a start state. -/
structure System (σ : Type u) where
  init : σ → Prop
  step : σ → σ → Prop

namespace System

variable {σ : Type u} (S : System σ)

/-- `t` is reached from `s` by finitely many steps. -/
def Runs : σ → σ → Prop := Relation.ReflTransGen S.step

def Reachable (t : σ) : Prop := ∃ s, S.init s ∧ S.Runs s t

/-- `P` holds in every state of every run. -/
def Invariant (P : σ → Prop) : Prop := ∀ t, S.Reachable t → P t

variable {S}

theorem Runs.refl (s : σ) : S.Runs s s := Relation.ReflTransGen.refl

theorem Runs.trans {s t u : σ} (h : S.Runs s t) (g : S.Runs t u) : S.Runs s u :=
  Relation.ReflTransGen.trans h g

theorem Runs.tail {s t u : σ} (h : S.Runs s t) (g : S.step t u) : S.Runs s u :=
  Relation.ReflTransGen.tail h g

theorem Runs.head {s t u : σ} (h : S.step s t) (g : S.Runs t u) : S.Runs s u :=
  Relation.ReflTransGen.head h g

theorem Reachable.of_init {s : σ} (h : S.init s) : S.Reachable s := ⟨s, h, .refl s⟩

theorem Reachable.tail {s t : σ} (h : S.Reachable s) (g : S.step s t) : S.Reachable t := by
  obtain ⟨r, hr, hs⟩ := h
  exact ⟨r, hr, hs.tail g⟩

/-- What holds at the start and survives each step survives a run. -/
theorem Runs.preserves {P : σ → Prop} (hstep : ∀ s t, P s → S.step s t → P t)
    {s t : σ} (h : S.Runs s t) (hs : P s) : P t := by
  induction h with
  | refl => exact hs
  | tail _ step ih => exact hstep _ _ ih step

/-- The induction behind every safety theorem. -/
theorem invariant_of_inductive {P : σ → Prop} (hinit : ∀ s, S.init s → P s)
    (hstep : ∀ s t, P s → S.step s t → P t) : S.Invariant P := by
  rintro t ⟨s, hs, run⟩
  exact run.preserves hstep (hinit s hs)

theorem Invariant.mono {P Q : σ → Prop} (h : S.Invariant P) (hPQ : ∀ s, P s → Q s) :
    S.Invariant Q := fun t ht => hPQ t (h t ht)

theorem Invariant.and {P Q : σ → Prop} (h : S.Invariant P) (g : S.Invariant Q) :
    S.Invariant (fun s => P s ∧ Q s) := fun t ht => ⟨h t ht, g t ht⟩

variable (S) in
/-- Every run from a state gets into `P`: it neither stops before nor goes on for ever. -/
inductive Inevitable (P : σ → Prop) : σ → Prop where
  | now {s : σ} : P s → Inevitable P s
  | later {s : σ} : (∃ t, S.step s t) → (∀ t, S.step s t → Inevitable P t) → Inevitable P s

/-- A budget that every step spends, and a step wherever `P` is not reached. -/
theorem inevitable_of_budget {I P : σ → Prop} {B : Nat → σ → Prop}
    (hI : ∀ s t, I s → S.step s t → I t)
    (hB : ∀ n s t, I s → B n s → S.step s t → ∃ m < n, B m t)
    (hstep : ∀ s, I s → ¬ P s → ∃ t, S.step s t) {n : Nat} {s : σ} (hs : I s) (hn : B n s) :
    S.Inevitable P s := by
  induction n using Nat.strongRecOn generalizing s with
  | ind n ih =>
    by_cases hP : P s
    · exact .now hP
    · refine .later (hstep s hs hP) fun t ht => ?_
      obtain ⟨m, hm, hBm⟩ := hB n s t hs hn ht
      exact ih m hm (hI s t hs ht) hBm

end System

end ScpRdma.Foundations

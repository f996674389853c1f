import Mathlib.Data.List.TakeWhile
import Mathlib.Tactic

/-!
# Paths as lists

A path is a root with components behind it, each after a separator. Components are not empty
and hold no separator, so a path says which components it has; cutting a path at a length and
going on with another component never brings back what was cut off.
-/
namespace ScpRdma.Foundations

variable {α : Type*} {sep : α}

/-- `root`, and each of `ns` behind a separator. -/
def joinPath (sep : α) (root : List α) (ns : List (List α)) : List α :=
  root ++ ns.flatMap (sep :: ·)

/-- A component of a path. -/
structure IsComponent (sep : α) (n : List α) : Prop where
  nonempty : n ≠ []
  noSep : sep ∉ n

@[simp] theorem joinPath_nil (root : List α) : joinPath sep root [] = root := by simp [joinPath]

theorem joinPath_concat (root : List α) (ns : List (List α)) (n : List α) :
    joinPath sep root (ns ++ [n]) = joinPath sep root ns ++ sep :: n := by simp [joinPath]

/-- A join that is cut at every step is the join, cut once. -/
theorem take_append_take (k : Nat) (root tail : List α) :
    (root.take k ++ tail).take k = (root ++ tail).take k := by
  rw [List.take_append, List.take_append, List.take_take, min_self, List.length_take]
  congr 1
  by_cases h : k ≤ root.length
  · simp [h]
  · rw [Nat.min_eq_right (by omega)]

theorem foldl_take_joinPath (k : Nat) (root : List α) (ns : List (List α)) (h : ns ≠ []) :
    ns.foldl (fun path n => (path ++ sep :: n).take k) root = (joinPath sep root ns).take k := by
  induction ns using List.reverseRecOn with
  | nil => exact absurd rfl h
  | append_singleton ns n ih =>
    rw [List.foldl_concat, joinPath_concat]
    by_cases hns : ns = []
    · subst hns
      simp
    · rw [ih hns, take_append_take]

variable [DecidableEq α]

theorem takeWhile_component {n rest : List α} (hn : sep ∉ n) (hrest : rest.head?.all (· = sep)) :
    (n ++ rest).takeWhile (· ≠ sep) = n := by
  rw [List.takeWhile_append_of_pos (by grind)]
  cases rest with
  | nil => simp
  | cons x rest => simpa using hrest

theorem head?_flatMap_sep (ns : List (List α)) :
    (ns.flatMap (sep :: ·)).head?.all (· = sep) := by
  cases ns <;> simp

/-- The first component is what stands before the next separator. -/
theorem component_inj {n n' : List α} {ns ns' : List (List α)} (hn : sep ∉ n) (hn' : sep ∉ n')
    (h : n ++ ns.flatMap (sep :: ·) = n' ++ ns'.flatMap (sep :: ·)) :
    n = n' ∧ ns.flatMap (sep :: ·) = ns'.flatMap (sep :: ·) := by
  have heq : n = n' := by
    rw [← takeWhile_component hn (head?_flatMap_sep ns), h,
      takeWhile_component hn' (head?_flatMap_sep ns')]
  subst heq
  exact ⟨rfl, List.append_cancel_left h⟩

theorem flatMap_sep_inj {ns ns' : List (List α)} (hns : ∀ n ∈ ns, sep ∉ n)
    (hns' : ∀ n ∈ ns', sep ∉ n) (h : ns.flatMap (sep :: ·) = ns'.flatMap (sep :: ·)) :
    ns = ns' := by
  induction ns generalizing ns' with
  | nil => cases ns' with
    | nil => rfl
    | cons n' ns' => simp at h
  | cons n ns ih => cases ns' with
    | nil => simp at h
    | cons n' ns' =>
      rw [List.forall_mem_cons] at hns hns'
      simp only [List.flatMap_cons, List.cons_append, List.cons.injEq, true_and] at h
      obtain ⟨rfl, hrest⟩ := component_inj hns.1 hns'.1 h
      rw [ih hns.2 hns'.2 hrest]

/-- So they do when the separators in front are removed. -/
theorem dropWhile_joinPath_inj {root : List α} {ns ns' : List (List α)}
    (hns : ∀ n ∈ ns, IsComponent sep n) (hns' : ∀ n ∈ ns', IsComponent sep n)
    (h : (joinPath sep root ns).dropWhile (· = sep) = (joinPath sep root ns').dropWhile (· = sep)) :
    ns = ns' := by
  have hno := fun n hn => (hns n hn).noSep
  have hno' := fun n hn => (hns' n hn).noSep
  by_cases hroot : ∀ x ∈ root, x = sep
  · -- the root goes, and the first separator with it
    have hdrop : ∀ ms : List (List α), (∀ n ∈ ms, IsComponent sep n) →
        (joinPath sep root ms).dropWhile (· = sep) = (ms.flatMap (sep :: ·)).tail := by
      intro ms hms
      rw [joinPath, List.dropWhile_append_of_pos (by simpa using hroot)]
      cases ms with
      | nil => rfl
      | cons m ms =>
        obtain ⟨hne, hsep⟩ := hms m (List.mem_cons_self ..)
        cases m with
        | nil => exact absurd rfl hne
        | cons x m =>
          have hx : x ≠ sep := fun hx => hsep (hx ▸ List.mem_cons_self ..)
          simp [hx]
    rw [hdrop ns hns, hdrop ns' hns'] at h
    refine flatMap_sep_inj hno hno' ?_
    cases ns with
    | nil => cases ns' with
      | nil => rfl
      | cons n' ns' =>
        have := (hns' n' (List.mem_cons_self ..)).nonempty
        simp [this] at h
    | cons n ns => cases ns' with
      | nil =>
        have := (hns n (List.mem_cons_self ..)).nonempty
        simp [this] at h
      | cons n' ns' => simpa using h
  · have hdrop : ∀ ms : List (List α), (joinPath sep root ms).dropWhile (· = sep) =
        root.dropWhile (· = sep) ++ ms.flatMap (sep :: ·) := by
      intro ms
      rw [joinPath, List.dropWhile_append, if_neg]
      simpa using hroot
    rw [hdrop, hdrop] at h
    exact flatMap_sep_inj hno hno' (List.append_cancel_left h)

/-! ## The components of a path -/

/-- The components of a path, when `part` is read of the first. -/
def componentsFrom (sep : α) (part : List α) : List α → List (List α)
  | [] => if part = [] then [] else [part]
  | x :: path =>
    if x = sep then
      (if part = [] then [] else [part]) ++ componentsFrom sep [] path
    else componentsFrom sep (part ++ [x]) path

/-- The components of a path; several separators in a row are one. -/
def components (sep : α) (path : List α) : List (List α) := componentsFrom sep [] path

theorem componentsFrom_sep (part a b : List α) :
    componentsFrom sep part (a ++ sep :: b) = componentsFrom sep part a ++ components sep b := by
  induction a generalizing part with
  | nil => simp [componentsFrom, components]
  | cons x a ih =>
    simp only [List.cons_append, componentsFrom]
    split
    · rw [ih, List.append_assoc]
    · rw [ih]

theorem components_sep (a b : List α) :
    components sep (a ++ sep :: b) = components sep a ++ components sep b :=
  componentsFrom_sep [] a b

/-- A path without components is made of separators. -/
theorem eq_sep_of_componentsFrom {part path : List α} (h : componentsFrom sep part path = []) :
    part = [] ∧ ∀ x ∈ path, x = sep := by
  induction path generalizing part with
  | nil =>
    unfold componentsFrom at h
    split at h
    · exact ⟨‹_›, by simp⟩
    · cases h
  | cons x path ih =>
    unfold componentsFrom at h
    split at h
    · obtain ⟨hpart, hrest⟩ := List.append_eq_nil_iff.mp h
      split at hpart
      · exact ⟨‹_›, List.forall_mem_cons.mpr ⟨‹_›, (ih hrest).2⟩⟩
      · cases hpart
    · exact absurd (ih h).1 (by simp)

/-- Separators at the end add no component. -/
theorem components_trailing {a b : List α} (hb : ∀ x ∈ b, x = sep) :
    components sep (a ++ b) = components sep a := by
  induction b generalizing a with
  | nil => rw [List.append_nil]
  | cons x b ih =>
    obtain ⟨rfl, hb⟩ := List.forall_mem_cons.mp hb
    have hnone : components x b = [] := ih (a := []) hb
    rw [components_sep, hnone, List.append_nil]

theorem componentsFrom_noSep {part n : List α} (hn : sep ∉ n) (hne : part ++ n ≠ []) :
    componentsFrom sep part n = [part ++ n] := by
  induction n generalizing part with
  | nil =>
    rw [List.append_nil] at hne ⊢
    simp [componentsFrom, hne]
  | cons x n ih =>
    have hx : x ≠ sep := fun hx => hn (hx ▸ List.mem_cons_self ..)
    have hrest : sep ∉ n := fun h => hn (List.mem_cons_of_mem _ h)
    rw [componentsFrom, if_neg hx, ih hrest (by simp), List.append_assoc]
    rfl

theorem IsComponent.components {n : List α} (h : IsComponent sep n) : components sep n = [n] :=
  componentsFrom_noSep h.noSep (by simpa using h.nonempty)

end ScpRdma.Foundations

import ScpRdma.Lifecycle.Semantics

/-!
# Who owns a handle

As long as the calls inside the three functions succeed, a variable that is not null holds a
live handle, no two variables hold the same, and a live memory region is in a variable. Of
`session_sge->mr` and `session_mr` only one owns the region: the first until the session is
established, then the second.
-/
namespace ScpRdma.Lifecycle
open Foundations

/-- The variable owns what it holds; `m` owns the region of the session. The strings of the
configuration are not the program's. -/
def Field.Owned (f m : Field) : Prop :=
  f ≠ .devName ∧ f ≠ .serverName ∧ (f = .sgeMr ∨ f = .sessionMr → f = m)

instance (f m : Field) : Decidable (f.Owned m) := by unfold Field.Owned; infer_instance

structure Sound (m : Field) (t : Resources) : Prop where
  held : ∀ f h, f.Owned m → t.var f = some h → t.live h = some f.kind
  distinct : ∀ f g h, f.Owned m → g.Owned m → t.var f = some h → t.var g = some h → f = g
  regions : ∀ h, t.live h = some .mr → ∃ f, f.Owned m ∧ f.kind = .mr ∧ t.var f = some h
  fresh : ∀ h k, t.live h = some k → h < t.fresh

variable {m f g : Field} {t : Resources}

theorem Sound.holds (hs : Sound m t) (hf : f.Owned m) (hset : t.var f ≠ none) : t.Held f := by
  obtain ⟨h, hh⟩ := Option.ne_none_iff_exists'.mp hset
  exact ⟨h, hh, hs.held f h hf hh⟩

theorem Sound.no_regions (hs : Sound m t) (h : ∀ f, f.Owned m → f.kind = .mr → t.var f = none)
    (x : Nat) : t.live x ≠ some .mr := by
  intro hx
  obtain ⟨f, hf, hk, hv⟩ := hs.regions x hx
  exact absurd ((h f hf hk).symm.trans hv) nofun

theorem Resources.of_var_setVar_none {h : Nat} (hv : (t.setVar f none).var g = some h) :
    g ≠ f ∧ t.var g = some h := by
  rw [var_setVar] at hv
  split at hv
  · cases hv
  · exact ⟨‹_›, hv⟩

theorem Sound.lost (hs : Sound m t) (hmr : f.kind = .mr → f.Owned m → t.var f = none) :
    Sound m (t.setVar f none) where
  held g h hg hv := hs.held g h hg (Resources.of_var_setVar_none hv).2
  distinct g g' h hg hg' hv hv' := hs.distinct g g' h hg hg' (Resources.of_var_setVar_none hv).2
    (Resources.of_var_setVar_none hv').2
  regions h hh := by
    obtain ⟨g, hg, hk, hv⟩ := hs.regions h hh
    refine ⟨g, hg, hk, ?_⟩
    rw [Resources.var_setVar, if_neg]
    · exact hv
    · rintro rfl
      exact absurd ((hmr hk hg).symm.trans hv) nofun
  fresh := hs.fresh

theorem Sound.acquired (hs : Sound m t) (hf : f.Owned m) (hmr : f.kind = .mr → t.var f = none) :
    Sound m (t.acquired f) := by
  have hlive : ∀ h k, t.live h = some k → (t.acquired f).live h = some k := by
    intro h k hk
    have := hs.fresh h k hk
    exact (Function.update_of_ne (by omega) ..).trans hk
  have hold : ∀ g h, g.Owned m → t.var g = some h → h ≠ t.fresh := by
    intro g h hg hv hh
    have := hs.fresh h _ (hs.held g h hg hv)
    omega
  refine ⟨fun g h hg hv => ?_, fun g g' h hg hg' hv hv' => ?_, fun h hh => ?_, fun h k hk => ?_⟩
  · rw [Resources.var_acquired] at hv
    split at hv
    · cases hv
      subst g
      exact Function.update_self ..
    · exact hlive _ _ (hs.held g h hg hv)
  · rw [Resources.var_acquired] at hv hv'
    split at hv <;> split at hv'
    · exact ‹g = f›.trans ‹g' = f›.symm
    · cases hv
      exact absurd rfl (hold g' _ hg' hv')
    · cases hv'
      exact absurd rfl (hold g _ hg hv)
    · exact hs.distinct g g' h hg hg' hv hv'
  · by_cases hx : h = t.fresh
    · subst hx
      have hk : some f.kind = some Kind.mr := by
        rw [← hh, show (t.acquired f).live = Function.update t.live t.fresh (some f.kind) from rfl,
          Function.update_self]
      exact ⟨f, hf, Option.some.inj hk, by rw [Resources.var_acquired, if_pos rfl]⟩
    · obtain ⟨g, hg, hk, hv⟩ := hs.regions h ((Function.update_of_ne hx ..).symm.trans hh)
      refine ⟨g, hg, hk, ?_⟩
      rw [Resources.var_acquired, if_neg]
      · exact hv
      · rintro rfl
        exact absurd ((hmr hk).symm.trans hv) nofun
  · change h < t.fresh + 1
    by_cases hx : h = t.fresh
    · omega
    · have := hs.fresh h k ((Function.update_of_ne hx ..).symm.trans hk)
      omega

/-- The handle is destroyed and its variable set to null. -/
def Resources.disposed (t : Resources) (f : Field) : Resources := (t.released f).setVar f none

@[simp] theorem Resources.var_disposed (t : Resources) (f g : Field) :
    (t.disposed f).var g = if g = f then none else t.var g := by
  rw [disposed, var_setVar, var_released]

theorem Resources.of_var_disposed {h : Nat} (hv : (t.disposed f).var g = some h) :
    g ≠ f ∧ t.var g = some h := by
  obtain ⟨hne, hv⟩ := of_var_setVar_none hv
  exact ⟨hne, (var_released ..).symm.trans hv⟩

theorem Sound.disposed (hs : Sound m t) (hf : f.Owned m) (hset : t.var f ≠ none) :
    Sound m (t.disposed f) := by
  obtain ⟨x, hx⟩ := Option.ne_none_iff_exists'.mp hset
  have hlive : (t.disposed f).live = Function.update t.live x none := by
    unfold Resources.disposed Resources.released
    rw [hx]
    rfl
  have hfresh : (t.disposed f).fresh = t.fresh := by
    unfold Resources.disposed Resources.released
    rw [hx]
    rfl
  refine ⟨fun g h hg hv => ?_, fun g g' h hg hg' hv hv' => ?_, fun h hh => ?_, fun h k hk => ?_⟩
  · obtain ⟨hgf, hv⟩ := Resources.of_var_disposed hv
    have hne : h ≠ x := fun hh => hgf (hs.distinct g f h hg hf hv (hh ▸ hx))
    rw [hlive, Function.update_of_ne hne]
    exact hs.held g h hg hv
  · exact hs.distinct g g' h hg hg' (Resources.of_var_disposed hv).2
      (Resources.of_var_disposed hv').2
  · rw [hlive] at hh
    have hne : h ≠ x := by
      rintro rfl
      rw [Function.update_self] at hh
      cases hh
    rw [Function.update_of_ne hne] at hh
    obtain ⟨g, hg, hk, hv⟩ := hs.regions h hh
    refine ⟨g, hg, hk, ?_⟩
    rw [Resources.var_disposed, if_neg]
    · exact hv
    · rintro rfl
      exact hne (Option.some.inj (hv.symm.trans hx))
  · rw [hlive] at hk
    rw [hfresh]
    by_cases hne : h = x
    · subst hne
      rw [Function.update_self] at hk
      cases hk
    · rw [Function.update_of_ne hne] at hk
      exact hs.fresh h k hk

/-- The variables that own something now owned the same before, under the names `old`. -/
theorem Sound.renamed {m' : Field} {t' : Resources} (hs : Sound m t) (old : Field → Field)
    (hlive : t'.live = t.live) (hfresh : t'.fresh = t.fresh)
    (hold : ∀ x h, x.Owned m' → t'.var x = some h →
      (old x).Owned m ∧ (old x).kind = x.kind ∧ t.var (old x) = some h)
    (hinj : ∀ x y h, x.Owned m' → y.Owned m' → t'.var x = some h → t'.var y = some h →
      old x = old y → x = y)
    (hregions : ∀ x h, x.Owned m → x.kind = .mr → t.var x = some h →
      ∃ y, y.Owned m' ∧ y.kind = .mr ∧ t'.var y = some h) : Sound m' t' where
  held x h hx hv := by
    obtain ⟨ho, hk, hvar⟩ := hold x h hx hv
    rw [hlive, ← hk]
    exact hs.held _ h ho hvar
  distinct x y h hx hy hv hv' := by
    obtain ⟨ho, -, hvar⟩ := hold x h hx hv
    obtain ⟨ho', -, hvar'⟩ := hold y h hy hv'
    exact hinj x y h hx hy hv hv' (hs.distinct _ _ h ho ho' hvar hvar')
  regions h hh := by
    rw [hlive] at hh
    obtain ⟨x, hx, hk, hv⟩ := hs.regions h hh
    exact hregions x h hx hk hv
  fresh h k hk := by
    rw [hlive] at hk
    rw [hfresh]
    exact hs.fresh h k hk

/-- The session's region changes its owner. -/
theorem Sound.captured (hs : Sound .sgeMr t) :
    Sound .sessionMr (t.setVar .sessionMr (t.var .sgeMr)) := by
  refine hs.renamed (fun x => if x = .sessionMr then .sgeMr else x) rfl rfl ?_ ?_ ?_
  · intro x h hx hv
    rw [Resources.var_setVar] at hv
    cases x <;> first | exact ⟨by decide, rfl, hv⟩ | exact absurd hx (by decide)
  · intro x y h hx hy _ _
    cases x <;> cases y <;> first | exact fun _ => rfl | exact absurd hx (by decide) |
      exact absurd hy (by decide) | nofun
  · intro x h hx hk hv
    by_cases hsge : x = .sgeMr
    · subst hsge
      exact ⟨.sessionMr, by decide, rfl, by rw [Resources.var_setVar, if_pos rfl]; exact hv⟩
    · refine ⟨x, ?_, hk, ?_⟩
      · cases x <;> first | decide | exact absurd rfl hsge | exact absurd hx (by decide)
      · rw [Resources.var_setVar, if_neg]
        · exact hv
        · rintro rfl
          exact absurd hx (by decide)

/-- One variable takes over what another of its kind holds. -/
def Resources.moved (t : Resources) (f g : Field) : Resources :=
  (t.setVar g (t.var f)).setVar f none

@[simp] theorem Resources.var_moved (t : Resources) (f g x : Field) :
    (t.moved f g).var x = if x = f then none else if x = g then t.var f else t.var x := by
  rw [moved, var_setVar, var_setVar]

theorem Sound.moved (hs : Sound m t) (hf : f.Owned m) (hk : f.kind = g.kind)
    (hmr : f.kind ≠ .mr) : Sound m (t.moved f g) := by
  refine hs.renamed (fun x => if x = g then f else x) rfl rfl ?_ ?_ ?_
  · intro x h hx hv
    rw [Resources.var_moved] at hv
    split at hv
    · cases hv
    split at hv
    · rename_i hg
      rw [if_pos hg, hg]
      exact ⟨hf, hk, hv⟩
    · rw [if_neg ‹_›]
      exact ⟨hx, rfl, hv⟩
  · intro x y h _ _ hv hv'
    rw [Resources.var_moved] at hv hv'
    grind
  · intro x h hx hkx hv
    refine ⟨x, hx, hkx, ?_⟩
    rw [Resources.var_moved, if_neg, if_neg]
    · exact hv
    · rintro rfl
      exact hmr (hk.trans hkx)
    · rintro rfl
      exact hmr hkx

end ScpRdma.Lifecycle

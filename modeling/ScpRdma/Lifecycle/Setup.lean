import ScpRdma.Lifecycle.Ownership

/-!
# Setting up and tearing down

Where the calls inside the three functions succeed, `scp_rdma_init` and the connection code use
what they obtained, and `scp_rdma_destroy` destroys it, the memory regions first.
-/
namespace ScpRdma.Lifecycle
open Foundations

variable {S : Signature} {γ : Type} {B : Bodies (signature S)} {E : Semantics S γ} {n : Nat}
  {α β : Type} {c : γ} {t : Resources} {f : Field} {m : Field}

/-- The precondition of a part of the program, where the calls inside the three functions
succeed. -/
abbrev Safe (B : Bodies (signature S)) (E : Semantics S γ) (n : Nat) (p : Life S α)
    (Q : α → γ × Resources → Prop) (s : γ × Resources) : Prop :=
  wp B (semantics E true) (duties S γ) n p Q s

section Rules

variable {k : Bool → Life S β} {k' : Unit → Life S β} {Q : β → γ × Resources → Prop}

theorem safe_isSet (h : Safe B E n (k (t.var f).isSome) Q (c, t)) :
    Safe B E n (isSet f >>= k) Q (c, t) := by
  refine wp.op (D := duties S γ) trivial fun r hr => ?_
  obtain rfl : r = (t.var f).isSome := hr.1
  exact h

/-- An operation of the side. -/
theorem safe_run {o : S.Op} {Q : S.Response o → γ × Resources → Prop}
    (h : ∀ r, E.allow o c r → Q r (E.next o c r, t)) : Safe B E n (run o) Q (c, t) :=
  wp.op (D := duties S γ) trivial fun r hr => wp.done (h r hr)

theorem safe_acquire {needs : List Field} {site : Site} (hneeds : ∀ g ∈ needs, t.Held g)
    (hok : Safe B E n (k true) Q (c, t.acquired f))
    (hfail : site = .elsewhere → Safe B E n (k false) Q (c, t.setVar f none)) :
    Safe B E n (acquire f needs site >>= k) Q (c, t) := by
  refine wp.op (D := duties S γ) hneeds fun r hr => ?_
  cases r with
  | true => exact hok
  | false =>
    refine hfail ?_
    by_contra hsite
    exact absurd (hr.2 rfl hsite) nofun

theorem safe_use {fs : List Field} {site : Site} (hheld : ∀ g ∈ fs, t.Held g)
    (hok : Safe B E n (k true) Q (c, t))
    (hfail : site = .elsewhere → Safe B E n (k false) Q (c, t)) :
    Safe B E n (use fs site >>= k) Q (c, t) := by
  refine wp.op (D := duties S γ) hheld fun r hr => ?_
  cases r with
  | true => exact hok
  | false =>
    refine hfail ?_
    by_contra hsite
    exact absurd (hr.2 rfl hsite) nofun

/-- `destroy(x); x = NULL;` -/
theorem safe_drop (hs : Sound m t) (hf : f.Owned m) (hset : t.var f ≠ none)
    (hpd : f = .pd → ∀ g, g.Owned m → g.kind = .mr → t.var g = none)
    (h : Sound m (t.disposed f) → Safe B E n (k' ()) Q (c, t.disposed f)) :
    Safe B E n (release f >>= fun _ => clear f >>= k') Q (c, t) := by
  refine wp.op (D := duties S γ) ⟨hs.holds hf hset, fun hpd' => ?_⟩ fun _ _ => ?_
  · exact hs.no_regions (hpd hpd')
  · exact wp.op (D := duties S γ) trivial fun _ _ => h (hs.disposed hf hset)

/-- `if (x) { destroy(x); x = NULL; }` -/
theorem safe_dispose (hs : Sound m t) (hf : f.Owned m)
    (hpd : f = .pd → ∀ g, g.Owned m → g.kind = .mr → t.var g = none)
    (h : ∀ t', Sound m t' → (∀ g, t'.var g = if g = f then none else t.var g) →
      Safe B E n (k' ()) Q (c, t')) :
    Safe B E n (dispose f >>= k') Q (c, t) := by
  refine wp.bind (R := fun _ s => s.1 = c ∧ Sound m s.2 ∧
    ∀ g, s.2.var g = if g = f then none else t.var g) ?_ ?_
  · refine safe_isSet ?_
    cases hv : t.var f with
    | none =>
      refine wp.done ⟨rfl, hs, fun g => ?_⟩
      split
      · exact ‹g = f› ▸ hv
      · rfl
    | some x =>
      have hset : t.var f ≠ none := by
        rw [hv]
        nofun
      refine wp.op (D := duties S γ) ⟨hs.holds hf hset, fun hpd' => ?_⟩ fun _ _ => ?_
      · exact hs.no_regions (hpd hpd')
      · refine wp.op (D := duties S γ) trivial fun _ _ => wp.done ⟨rfl, hs.disposed hf hset, ?_⟩
        exact Resources.var_disposed t f
  · rintro _ ⟨_, t'⟩ ⟨rfl, hs', hvar⟩
    exact h t' hs' hvar

end Rules

/-! ## `scp_rdma_init` -/

/-- The handles that every call of the session needs. -/
structure Base (t : Resources) : Prop where
  qp : t.var .qp ≠ none
  cq : t.var .cq ≠ none
  pd : t.var .pd ≠ none
  ibCtx : t.var .ibCtx ≠ none
  compChannel : t.var .compChannel ≠ none
  epollFd : t.var .epollFd ≠ none

/-- The variables `fs` were set, and nothing else. -/
structure Gains (fs : List Field) (t t' : Resources) : Prop where
  sound : Sound .sgeMr t'
  var : ∀ g, t'.var g = none ↔ g ∉ fs ∧ t.var g = none

theorem Gains.acquired (hs : Sound .sgeMr t) (hf : f.Owned .sgeMr)
    (hmr : f.kind = .mr → t.var f = none) : Gains [f] t (t.acquired f) := by
  refine ⟨hs.acquired hf hmr, fun g => ?_⟩
  rw [Resources.var_acquired, List.mem_singleton]
  split <;> simp [*]

theorem Gains.trans {fs gs : List Field} {t' t'' : Resources} (h : Gains fs t t')
    (h' : Gains gs t' t'') : Gains (fs ++ gs) t t'' := by
  refine ⟨h'.sound, fun g => ?_⟩
  rw [h'.var, h.var, List.mem_append]
  tauto

theorem Gains.set {fs : List Field} {t' : Resources} (h : Gains fs t t') (hf : f ∈ fs) :
    t'.var f ≠ none := fun hnone => ((h.var f).mp hnone).1 hf

/-- A step of the set-up: on success `fs` are set, on failure `main` ends. -/
abbrev Sets (B : Bodies (signature S)) (E : Semantics S γ) (n : Nat) (p : Life S Int)
    (fs : List Field) (c : γ) (t : Resources) : Prop :=
  Safe B E n p (fun r s => s.1 = c ∧ (r = 0 → Gains fs t s.2)) (c, t)

theorem rdmaContextInit_safe (hs : Sound .sgeMr t) (hdev : t.var .devName ≠ none) :
    Sets B E n rdmaContextInit [.ibCtx] c t := by
  refine safe_isSet ?_
  obtain ⟨x, hx⟩ := Option.ne_none_iff_exists'.mp hdev
  rw [hx]
  refine safe_use nofun ?_ fun _ => wp.done ⟨rfl, nofun⟩
  refine safe_acquire nofun ?_ fun _ => wp.done ⟨rfl, nofun⟩
  have hgain := Gains.acquired hs (f := .ibCtx) (by decide) nofun
  have hheld := hgain.sound.holds (f := .ibCtx) (by decide) (hgain.set (by simp))
  refine safe_use (by simpa using hheld) (wp.done ⟨rfl, fun _ => hgain⟩) fun _ => ?_
  exact safe_dispose hgain.sound (by decide) nofun fun _ _ _ => wp.done ⟨rfl, nofun⟩

theorem pdCreate_safe (hs : Sound .sgeMr t) (hctx : t.var .ibCtx ≠ none) :
    Sets B E n pdCreate [.pd] c t := by
  have hheld := hs.holds (f := .ibCtx) (by decide) hctx
  refine safe_acquire (by simpa using hheld) ?_ fun _ => ?_
  · exact wp.done ⟨rfl, fun _ => .acquired hs (by decide) nofun⟩
  · refine safe_isSet ?_
    rw [Resources.var_setVar, if_pos rfl]
    exact wp.done ⟨rfl, nofun⟩

theorem safe_clear {k' : Unit → Life S β} {Q : β → γ × Resources → Prop}
    (h : Safe B E n (k' ()) Q (c, t.setVar f none)) : Safe B E n (clear f >>= k') Q (c, t) :=
  wp.op (D := duties S γ) trivial fun _ _ => h

theorem Gains.cleared (hs : Sound .sgeMr t) (hnone : t.var f = none) :
    Gains [] t (t.setVar f none) := by
  refine ⟨hs.lost fun _ _ => hnone, fun g => ?_⟩
  rw [Resources.var_setVar]
  split <;> simp [*]

theorem cqCreateAsync_safe (hs : Sound .sgeMr t) (hctx : t.var .ibCtx ≠ none)
    (hepoll : t.var .epollFd = none) (hchannel : t.var .compChannel = none) :
    Sets B E n cqCreateAsync [.compChannel, .cq, .epollFd] c t := by
  have hend : ∀ t', Safe B E n (pure 1 : Life S Int)
      (fun r s => s.1 = c ∧ (r = 0 → Gains [.compChannel, .cq, .epollFd] t s.2)) (c, t') :=
    fun _ => wp.done ⟨rfl, nofun⟩
  -- the channel, alone and behind what else is destroyed first
  have hdrop : ∀ t', Sound .sgeMr t' → t'.var .compChannel ≠ none → Safe B E n ((do
        release .compChannel
        clear .compChannel
        return 1 : Life S Int))
      (fun r s => s.1 = c ∧ (r = 0 → Gains [.compChannel, .cq, .epollFd] t s.2)) (c, t') :=
    fun t' hs' hset => safe_drop hs' (by decide) hset nofun fun _ => hend _
  have hdrop' : ∀ t', Sound .sgeMr t' → t'.var .compChannel ≠ none → t'.var .cq ≠ none →
      Safe B E n ((do
        release .cq
        clear .cq
        release .compChannel
        clear .compChannel
        return 1 : Life S Int))
      (fun r s => s.1 = c ∧ (r = 0 → Gains [.compChannel, .cq, .epollFd] t s.2)) (c, t') :=
    fun t' hs' hset hcq => safe_drop hs' (by decide) hcq nofun fun hs'' =>
      hdrop _ hs'' (by simpa using hset)
  refine safe_clear (safe_clear ?_)
  have h₀ : Gains [] t ((t.setVar .epollFd none).setVar .compChannel none) :=
    (Gains.cleared hs hepoll).trans (.cleared (hs.lost fun _ _ => hepoll) (by simpa using hchannel))
  generalize (t.setVar .epollFd none).setVar .compChannel none = t₀ at h₀
  have hctx₀ : t₀.Held .ibCtx := h₀.sound.holds (by decide) fun h => hctx ((h₀.var _).mp h).2
  refine safe_acquire (by simpa using hctx₀) ?_ fun _ => hend _
  have h₁ := h₀.trans (.acquired h₀.sound (f := .compChannel) (by decide) nofun)
  generalize t₀.acquired .compChannel = t₁ at h₁
  have hchannel₁ := h₁.set (f := .compChannel) (by simp)
  have hheld₁ := h₁.sound.holds (by decide) hchannel₁
  have hctx₁ : t₁.Held .ibCtx := h₁.sound.holds (by decide) fun h => hctx ((h₁.var _).mp h).2
  refine safe_use (by simpa using hheld₁) ?_ fun _ => hdrop _ h₁.sound hchannel₁
  refine safe_acquire (by simp [hheld₁, hctx₁]) ?_ fun _ => ?_
  · have h₂ := h₁.trans (.acquired h₁.sound (f := .cq) (by decide) nofun)
    generalize t₁.acquired .cq = t₂ at h₂
    have hcq₂ := h₂.set (f := .cq) (by simp)
    have hchannel₂ := h₂.set (f := .compChannel) (by simp)
    refine safe_use (by simpa using h₂.sound.holds (by decide) hcq₂) ?_ fun _ =>
      hdrop' _ h₂.sound hchannel₂ hcq₂
    refine safe_acquire nofun ?_ fun _ => ?_
    · have h₃ := h₂.trans (.acquired h₂.sound (f := .epollFd) (by decide) nofun)
      generalize t₂.acquired .epollFd = t₃ at h₃
      have hset : ∀ f, f = .epollFd ∨ f = .compChannel → t₃.Held f := by
        rintro f (rfl | rfl) <;> exact h₃.sound.holds (by decide) (h₃.set (by simp))
      refine safe_use (by simpa using hset) (wp.done ⟨rfl, fun _ => h₃⟩) fun _ => ?_
      refine safe_drop h₃.sound (by decide) (h₃.set (by simp)) nofun fun hs' => ?_
      refine hdrop' _ hs' ?_ ?_
      · simpa using h₃.set (f := .compChannel) (by simp)
      · simpa using h₃.set (f := .cq) (by simp)
    · exact hdrop' _ (h₂.sound.lost nofun) (by simpa using hchannel₂) (by simpa using hcq₂)
  · exact hdrop _ (h₁.sound.lost nofun) (by simpa using hchannel₁)

theorem qpCreate_safe (hs : Sound .sgeMr t) (hpd : t.var .pd ≠ none) (hcq : t.var .cq ≠ none) :
    Safe B E n qpCreate (fun r s => s.1 = c ∧ (r = true → Gains [.qp] t s.2)) (c, t) := by
  have hpd' := hs.holds (f := .pd) (by decide) hpd
  have hcq' := hs.holds (f := .cq) (by decide) hcq
  refine safe_acquire (by simp [hpd', hcq']) ?_ fun _ => ?_
  · exact wp.done ⟨rfl, fun _ => .acquired hs (by decide) nofun⟩
  · refine safe_dispose (hs.lost nofun) (by decide) nofun fun _ _ _ => wp.done ⟨rfl, nofun⟩

theorem sound_atStart (client : Bool) : Sound .sgeMr (atStart client) where
  held f h hf hv := by cases f <;> first | exact absurd hf (by decide) | cases hv
  distinct f g h hf hg hv hv' := by cases f <;> first | exact absurd hf (by decide) | cases hv
  regions h hh := by
    change (if h < 2 then some Kind.static else none) = some .mr at hh
    split at hh <;> cases hh
  fresh h k hk := by
    change (if h < 2 then some Kind.static else none) = some k at hk
    split at hk
    · assumption
    · cases hk

/-- No session yet. -/
structure Before (t : Resources) : Prop extends Base t where
  sound : Sound .sgeMr t
  sgeMr : t.var .sgeMr = none
  sessionMr : t.var .sessionMr = none
  cdcMr : t.var .cdcMr = none

theorem Gains.kept {fs : List Field} {t' : Resources} (h : Gains fs t t') (hf : t.var f ≠ none) :
    t'.var f ≠ none := fun hnone => hf ((h.var f).mp hnone).2

theorem Gains.unset {fs : List Field} {t' : Resources} (h : Gains fs t t') (hf : f ∉ fs)
    (hnone : t.var f = none) : t'.var f = none := (h.var f).mpr ⟨hf, hnone⟩

/-- `if (p()) return -1;` in the set-up. -/
theorem safe_sets {p k : Life S Int} {fs : List Field} {Q : Int → γ × Resources → Prop}
    (hp : Sets B E n p fs c t) (hk : ∀ t', Gains fs t t' → Safe B E n k Q (c, t'))
    (hfail : ∀ t', Q (-1) (c, t')) :
    Safe B E n (do if (← p) ≠ 0 then return -1 else k) Q (c, t) := by
  refine wp.bind hp ?_
  rintro r ⟨_, t'⟩ ⟨rfl, hgain⟩
  by_cases hr : r = 0
  · rw [if_neg (not_not_intro hr)]
    exact hk t' (hgain hr)
  · rw [if_pos hr]
    exact wp.done (hfail t')

theorem scpRdmaInit_safe (client : Bool) :
    Safe B E n scpRdmaInit (fun r s => s.1 = c ∧ (r = 0 → Before s.2)) (c, atStart client) := by
  refine safe_sets (rdmaContextInit_safe (sound_atStart client) nofun) (fun t₁ h₁ => ?_)
    fun _ => ⟨rfl, nofun⟩
  have hctx := h₁.set (f := .ibCtx) (by simp)
  refine safe_sets (pdCreate_safe h₁.sound hctx) (fun t₂ h₂ => ?_) fun _ => ⟨rfl, nofun⟩
  replace h₂ := h₁.trans h₂
  refine safe_sets (cqCreateAsync_safe h₂.sound (h₂.set (by simp)) (h₂.unset (by simp) rfl)
    (h₂.unset (by simp) rfl)) (fun t₃ h₃ => ?_) fun _ => ⟨rfl, nofun⟩
  replace h₃ := h₂.trans h₃
  refine wp.bind (qpCreate_safe h₃.sound (h₃.set (by simp)) (h₃.set (by simp))) ?_
  rintro (_ | _) ⟨_, t₄⟩ ⟨rfl, h₄⟩
  · exact wp.done ⟨rfl, nofun⟩
  replace h₄ := h₃.trans (h₄ rfl)
  refine safe_acquire nofun ?_ fun _ => wp.done ⟨rfl, nofun⟩
  have h₅ := h₄.trans (.acquired h₄.sound (f := .sessionBuf) (by decide) nofun)
  have hready : ∀ t' fs, Gains fs (atStart client) t' →
      (∀ f ∈ [Field.ibCtx, .pd, .compChannel, .cq, .epollFd, .qp], f ∈ fs) →
      (∀ f ∈ [Field.sgeMr, .sessionMr, .cdcMr], f ∉ fs) → Before t' := by
    intro t' fs h hset hunset
    simp only [List.forall_mem_cons] at hset hunset
    obtain ⟨hctx, hpd, hchannel, hcq, hepoll, hqp, -⟩ := hset
    obtain ⟨hsge, hsession, hcdc, -⟩ := hunset
    exact ⟨⟨h.set hqp, h.set hcq, h.set hpd, h.set hctx, h.set hchannel, h.set hepoll⟩, h.sound,
      h.unset hsge rfl, h.unset hsession rfl, h.unset hcdc rfl⟩
  refine safe_acquire nofun ?_ fun _ => ?_
  · have h₆ := h₅.trans (.acquired h₅.sound (f := .sessionSge) (by decide) nofun)
    exact wp.done ⟨rfl, fun _ => hready _ _ h₆ (by simp) (by simp)⟩
  · have h₆ := h₅.trans (.cleared h₅.sound (f := .sessionSge) (h₅.unset (by simp) rfl))
    exact wp.done ⟨rfl, fun _ => hready _ _ h₆ (by simp) (by simp)⟩

/-! ## The connection -/

/-- The session's region and the buffers for signals are registered. -/
structure Registered (t : Resources) : Prop extends Base t where
  sound : Sound .sgeMr t
  sgeMr : t.var .sgeMr ≠ none
  sessionMr : t.var .sessionMr = none
  cdcMr : t.var .cdcMr ≠ none
  sock : t.var .sock ≠ none

theorem safe_setMessage {k : Unit → Life S β} {Q : β → γ × Resources → Prop} {x : Message}
    (h : Safe B E n (k ()) Q (c, { t with message := x })) :
    Safe B E n (verb (.setMessage x) >>= k) Q (c, t) :=
  wp.op (D := duties S γ) trivial fun _ _ => h

theorem Gains.message (hs : Sound .sgeMr t) (x : Message) : Gains [] t { t with message := x } :=
  ⟨⟨hs.held, hs.distinct, hs.regions, hs.fresh⟩, fun _ => by simp⟩

theorem mrCreate_safe (peerLength : Bool) (hb : Before t) (hsock : t.var .sock ≠ none) :
    Safe B E n (mrCreate peerLength) (fun r s => s.1 = c ∧ r = true ∧ Registered s.2) (c, t) := by
  have hmr : Site.mrCreate ≠ .elsewhere := nofun
  have hregister : ∀ t₀, Gains [] t t₀ → Safe B E n ((do
      if !(← acquire .sgeMr [.pd] .mrCreate) then
        return false
      if ← isSet .cdcMr then
        return true
      if !(← acquire .cdcBuffers [] .mrCreate) then
        return false
      if !(← acquire .cdcMr [.pd] .mrCreate) then
        release .cdcBuffers
        return false
      if !(← acquire .cdcRecvBufs [] .mrCreate) then
        release .cdcMr
        clear .cdcMr
        release .cdcBuffers
        return false
      return true : Life S Bool)) (fun r s => s.1 = c ∧ r = true ∧ Registered s.2) (c, t₀) := by
    intro t₀ h₀
    have hpd := h₀.sound.holds (f := .pd) (by decide) (h₀.kept hb.pd)
    refine safe_acquire (by simpa using hpd) ?_ (absurd · hmr)
    have h₁ := h₀.trans (.acquired h₀.sound (f := .sgeMr) (by decide) fun _ =>
      h₀.unset (by simp) hb.sgeMr)
    refine safe_isSet ?_
    rw [h₁.unset (f := .cdcMr) (by simp) hb.cdcMr]
    refine safe_acquire nofun ?_ (absurd · hmr)
    have h₂ := h₁.trans (.acquired h₁.sound (f := .cdcBuffers) (by decide) nofun)
    have hpd := h₂.sound.holds (f := .pd) (by decide) (h₂.kept hb.pd)
    refine safe_acquire (by simpa using hpd) ?_ (absurd · hmr)
    have h₃ := h₂.trans (.acquired h₂.sound (f := .cdcMr) (by decide) fun _ =>
      h₂.unset (by simp) hb.cdcMr)
    refine safe_acquire nofun (wp.done ⟨rfl, rfl, ?_⟩) (absurd · hmr)
    have h₄ := h₃.trans (.acquired h₃.sound (f := .cdcRecvBufs) (by decide) nofun)
    exact ⟨⟨h₄.kept hb.qp, h₄.kept hb.cq, h₄.kept hb.pd, h₄.kept hb.ibCtx, h₄.kept hb.compChannel,
      h₄.kept hb.epollFd⟩, h₄.sound, h₄.set (by simp), h₄.unset (by simp) hb.sessionMr,
      h₄.set (by simp), h₄.kept hsock⟩
  refine safe_setMessage ?_
  have h₀ := Gains.message hb.sound .session
  cases peerLength with
  | false => exact hregister _ h₀
  | true => exact safe_use nofun (hregister _ h₀) (absurd · hmr)

theorem Registered.of_gains {fs : List Field} {t' : Resources} (hr : Registered t)
    (h : Gains fs t t') (hfs : Field.sessionMr ∉ fs) : Registered t' :=
  ⟨⟨h.kept hr.qp, h.kept hr.cq, h.kept hr.pd, h.kept hr.ibCtx, h.kept hr.compChannel,
    h.kept hr.epollFd⟩, h.sound, h.kept hr.sgeMr, h.unset hfs hr.sessionMr, h.kept hr.cdcMr,
    h.kept hr.sock⟩

theorem exchange_safe (gid : Bool) (hr : Registered t) :
    Safe B E n (exchange gid) (fun r s => s.1 = c ∧ r = true ∧ Registered s.2) (c, t) := by
  have hheld : ∀ f, f.Owned .sgeMr → t.var f ≠ none → t.Held f := fun f => hr.sound.holds
  have hconnect : Site.connectQp ≠ .elsewhere := nofun
  have hdata : Safe B E n ((do
      let _ ← use [.sgeMr, .qp] .elsewhere
      if !(← use [.sock] .connectQp) then
        return false
      let _ ← acquire .remoteProps [] .elsewhere
      return true : Life S Bool)) (fun r s => s.1 = c ∧ r = true ∧ Registered s.2) (c, t) := by
    have hsend : Safe B E n ((do
        if !(← use [.sock] .connectQp) then
          return false
        let _ ← acquire .remoteProps [] .elsewhere
        return true : Life S Bool)) (fun r s => s.1 = c ∧ r = true ∧ Registered s.2) (c, t) := by
      refine safe_use (by simpa using hheld _ (by decide) hr.sock) ?_ (absurd · hconnect)
      refine safe_acquire nofun (wp.done ⟨rfl, rfl, ?_⟩) fun _ => wp.done ⟨rfl, rfl, ?_⟩
      · exact hr.of_gains (.acquired hr.sound (by decide) nofun) (by simp)
      · exact ⟨⟨by simpa using hr.qp, by simpa using hr.cq, by simpa using hr.pd,
          by simpa using hr.ibCtx, by simpa using hr.compChannel, by simpa using hr.epollFd⟩,
          hr.sound.lost nofun, by simpa using hr.sgeMr, by simpa using hr.sessionMr,
          by simpa using hr.cdcMr, by simpa using hr.sock⟩
    refine safe_use ?_ hsend fun _ => hsend
    simp [hheld _ (by decide) hr.sgeMr, hheld _ (by decide) hr.qp]
  cases gid with
  | false => exact hdata
  | true => exact safe_use (by simpa using hheld _ (by decide) hr.ibCtx) hdata (absurd · hconnect)

/-! ## The session -/

/-- The session is established. -/
structure During (t : Resources) : Prop extends Base t where
  sound : Sound .sessionMr t
  sgeMr : t.var .sgeMr = t.var .sessionMr
  sessionMr : t.var .sessionMr ≠ none
  cdcMr : t.var .cdcMr ≠ none

theorem Registered.during (hr : Registered t) :
    During (t.setVar .sessionMr (t.var .sgeMr)) :=
  ⟨⟨by simpa using hr.qp, by simpa using hr.cq, by simpa using hr.pd, by simpa using hr.ibCtx,
    by simpa using hr.compChannel, by simpa using hr.epollFd⟩, hr.sound.captured, by simp,
    by simpa using hr.sgeMr, by simpa using hr.cdcMr⟩

theorem During.message (hd : During t) (x : Message) : During { t with message := x } :=
  ⟨⟨hd.qp, hd.cq, hd.pd, hd.ibCtx, hd.compChannel, hd.epollFd⟩,
    ⟨hd.sound.held, hd.sound.distinct, hd.sound.regions, hd.sound.fresh⟩, hd.sgeMr, hd.sessionMr,
    hd.cdcMr⟩

theorem During.holds (hd : During t) (hset : t.var f ≠ none) (hf : f.Owned .sessionMr) :
    t.Held f := hd.sound.holds hf hset

/-- The handles that a request needs. -/
theorem During.region (hd : During t) (x : Message) : t.Held x.mr := by
  have hsession := hd.holds hd.sessionMr (by decide)
  cases x with
  | session =>
    obtain ⟨h, hv, hl⟩ := hsession
    exact ⟨h, hd.sgeMr.trans hv, hl⟩
  | chunk => exact hsession

theorem postSendCdc_safe (hd : During t) :
    Safe B E n postSendCdc (fun _ s => s = (c, t)) (c, t) := by
  have hcdc := hd.holds hd.cdcMr (by decide)
  have hqp := hd.holds hd.qp (by decide)
  have hsend : Safe B E n (use [.qp] .elsewhere : Life S Bool) (fun _ s => s = (c, t)) (c, t) :=
    wp.op (D := duties S γ) (List.forall_mem_singleton.mpr hqp) fun _ _ => wp.done rfl
  exact safe_use (by simpa using hcdc) hsend fun _ => hsend

/-- Before the session it is `connect_qp` that posts the receive, and it succeeds. -/
theorem postReceiveCdc_safe {established : Bool} (hcdc : t.Held .cdcMr) (hqp : t.Held .qp) :
    Safe B E n (postReceiveCdc established)
      (fun r s => s = (c, t) ∧ (established = false → r = true)) (c, t) := by
  have hpost : Safe B E n (use [.qp] (if established then .elsewhere else .connectQp) : Life S Bool)
      (fun r s => s = (c, t) ∧ (established = false → r = true)) (c, t) := by
    refine wp.op (D := duties S γ) (List.forall_mem_singleton.mpr hqp) fun r hr => wp.done ⟨rfl, ?_⟩
    rintro rfl
    exact hr.2 rfl nofun
  exact safe_use (by simpa using hcdc) hpost fun _ => hpost

theorem postSend_safe (hd : During t) (x : Message) :
    Safe B E n (postSend x) (fun r s => s = (c, { t with message := x }) ∧ r = true) (c, t) := by
  have hd' := hd.message x
  refine safe_setMessage ?_
  have hpost : Safe B E n (use [.qp] .transPost : Life S Bool)
      (fun r s => s = (c, { t with message := x }) ∧ r = true) (c, { t with message := x }) := by
    refine wp.op (D := duties S γ) ?_ fun r hr => wp.done ⟨rfl, hr.2 rfl nofun⟩
    exact List.forall_mem_singleton.mpr (hd'.holds hd'.qp (by decide))
  exact safe_use (by simpa using hd'.region x) hpost fun _ => hpost

/-! ## `scp_rdma_destroy` -/

theorem Before.sound_sessionMr (hb : Before t) : Sound .sessionMr t := by
  have h := hb.sound.captured
  rwa [hb.sgeMr, ← hb.sessionMr, Resources.setVar, Function.update_eq_self] at h

theorem safe_cqDestroy {k' : Unit → Life S β} {Q : β → γ × Resources → Prop}
    (hs : Sound .sessionMr t) (h : ∀ t', Sound .sessionMr t' →
      (∀ g, t.var g = none → t'.var g = none) → Safe B E n (k' ()) Q (c, t')) :
    Safe B E n (cqDestroy >>= k') Q (c, t) := by
  have hassoc : (cqDestroy : Life S Unit) >>= k' = dispose .cq >>= fun _ =>
      dispose .epollFd >>= fun _ => dispose .compChannel >>= k' := by
    simp only [cqDestroy, Program.bind_eq, Program.bind_assoc]
  rw [hassoc]
  refine safe_dispose hs (by decide) nofun fun t₁ hs₁ h₁ => ?_
  refine safe_dispose hs₁ (by decide) nofun fun t₂ hs₂ h₂ => ?_
  refine safe_dispose hs₂ (by decide) nofun fun t₃ hs₃ h₃ => h t₃ hs₃ fun g hg => ?_
  simp [h₃, h₂, h₁, hg]

theorem scpRdmaDestroy_safe (hs : Sound .sessionMr t) :
    Safe B E n scpRdmaDestroy (fun _ _ => True) (c, t) := by
  refine safe_dispose hs (by decide) nofun fun t₁ hs₁ h₁ => ?_
  refine safe_dispose hs₁ (by decide) nofun fun t₂ hs₂ h₂ => ?_
  refine safe_dispose hs₂ (by decide) nofun fun t₃ hs₃ h₃ => ?_
  refine safe_dispose hs₃ (by decide) nofun fun t₄ hs₄ h₄ => ?_
  refine safe_dispose hs₄ (by decide) nofun fun t₅ hs₅ h₅ => ?_
  refine safe_cqDestroy hs₅ fun t₆ hs₆ h₆ => ?_
  have hregions : ∀ g : Field, g.Owned .sessionMr → g.kind = .mr → t₆.var g = none := by
    intro g hg hk
    cases g <;>
      first
      | exact absurd hk (by decide)
      | exact absurd hg (by decide)
      | exact h₆ _ (by simp [*])
  refine safe_dispose hs₆ (by decide) (fun _ => hregions) fun t₇ hs₇ h₇ => ?_
  refine safe_dispose hs₇ (by decide) nofun fun t₈ hs₈ h₈ => ?_
  rw [← Program.bind_done (dispose .sock)]
  exact safe_dispose hs₈ (by decide) nofun fun _ _ _ => wp.done trivial

end ScpRdma.Lifecycle

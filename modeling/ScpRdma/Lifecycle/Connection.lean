import ScpRdma.Lifecycle.Sockets

/-!
# Setting up a session, with the handles

Where the calls inside the three functions succeed, `rdma_trans_init` does too, and
`rdma_trans_destroy` is not called.
-/
namespace ScpRdma.Lifecycle
open Foundations

/-- What the handled verbs of a side do: `P` before the region of the session is registered, `Q`
behind it. -/
structure Connecting {S : Signature} {σ : Type} (h : Handler S (Op S) (Response S))
    (V : Session.Verbs S) (B : Bodies (signature S)) (M : Semantics (signature S) σ)
    (D : Duties (signature S) σ) (P Q : σ → Prop) : Prop where
  mrCreate : ∀ n s, P s → wp B M D n (h.run (Session.mrCreate V)) (fun r t => r = 0 ∧ Q t) s
  exchange : ∀ n s, Q s → wp B M D n (h.run V.exchange) (fun r t => r = true ∧ Q t) s
  queryQp : ∀ n s, Q s → wp B M D n (h.run V.queryQp) (fun r t => r ≠ none ∧ Q t) s
  modifyQp : ∀ st n s, Q s → wp B M D n (h.run (V.modifyQp st)) (fun r t => r = true ∧ Q t) s
  acquirePostBuf : ∀ n s, Q s → wp B M D n (h.run V.acquirePostBuf) (fun r t => r ≠ none ∧ Q t) s
  postRecv : ∀ buf n s, Q s → wp B M D n (h.run (V.postRecv buf 0)) (fun r t => r = true ∧ Q t) s

section

variable {S : Signature} {σ : Type} {h : Handler S (Op S) (Response S)} {V : Session.Verbs S}
  {B : Bodies (signature S)} {M : Semantics (signature S) σ} {D : Duties (signature S) σ}
  {P Q : σ → Prop} {n : Nat} {s : σ}

theorem Connecting.rdmaTransInit (hv : Connecting h V B M D P Q) (hs : P s) :
    wp B M D n (h.run (Session.rdmaTransInit V)) (fun r t => r = 0 ∧ Q t) s := by
  have hok : ∀ {s}, Q s → wp B M D n (h.run (pure 0 : Program S Int)) (fun r t => r = 0 ∧ Q t) s :=
    fun hs => wp.done ⟨rfl, hs⟩
  refine Handler.wp_bind (hv.mrCreate n s hs) ?_
  rintro _ s₁ ⟨rfl, h₁⟩
  refine Handler.wp_bind (P := fun r t => r = 0 ∧ Q t) ?_ ?_
  · refine Handler.wp_bind (hv.exchange n s₁ h₁) ?_
    rintro _ s₂ ⟨rfl, h₂⟩
    refine Handler.wp_bind (hv.queryQp n s₂ h₂) ?_
    rintro (_ | st) s₃ ⟨hst, h₃⟩
    · exact absurd rfl hst
    by_cases hreset : st = .reset
    · subst hreset
      refine Handler.wp_bind (hv.modifyQp .init n s₃ h₃) ?_
      rintro _ s₄ ⟨rfl, h₄⟩
      refine Handler.wp_bind (hv.acquirePostBuf n s₄ h₄) ?_
      rintro (_ | buf) s₅ ⟨hbuf, h₅⟩
      · exact absurd rfl hbuf
      refine Handler.wp_bind (hv.postRecv buf n s₅ h₅) ?_
      rintro _ s₆ ⟨rfl, h₆⟩
      refine Handler.wp_bind (hv.modifyQp .rtr n s₆ h₆) ?_
      rintro _ s₇ ⟨rfl, h₇⟩
      refine Handler.wp_bind (hv.modifyQp .rts n s₇ h₇) ?_
      rintro _ s₈ ⟨rfl, h₈⟩
      exact hok h₈
    · simp only [ne_eq, hreset, not_false_eq_true, if_true]
      exact hok h₃
  · rintro _ t ⟨rfl, ht⟩
    exact hok ht

end

/-- The handles before and in the session. -/
def Ready : Bool → Resources → Prop
  | true, t => During t
  | false, t => Before t

/-- What either side keeps; `b` says that the session is known to be established. -/
structure Opened (b established : Bool) (t : Resources) : Prop where
  ready : Ready established t
  opened : b = true → established = true

theorem Opened.sound {b established : Bool} {t : Resources} (hs : Opened b established t) :
    Sound .sessionMr t := by
  cases established with
  | true => exact During.sound hs.ready
  | false => exact Before.sound_sessionMr hs.ready

end ScpRdma.Lifecycle

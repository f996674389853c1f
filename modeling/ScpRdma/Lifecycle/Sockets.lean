import ScpRdma.Lifecycle.Setup

/-!
# The connection with the peer

`sock_established`, with the calls of `sock_connect`: where the `bind` of a server does not fail,
the variables of the function hold live descriptors wherever they are used, and a result that is
not negative is a live socket.
-/
namespace ScpRdma.Lifecycle
open Foundations Connection

variable {S : Signature} {γ : Type} {B : Bodies (signature S)} {E : Semantics S γ} {n : Nat}
  {c : γ} {t t' : Resources} {f g : Field} {client : Bool}

/-- The variables that `sock_established` changes. -/
def socketFields : List Field := [.sock, .sockfd, .listenfd, .resolvedAddr]

theorem Before.of_var (hb : Before t) (hs : Sound .sgeMr t')
    (hvar : ∀ f, f ∉ socketFields → t'.var f = t.var f) : Before t' where
  sound := hs
  qp := by simpa [hvar .qp (by decide)] using hb.qp
  cq := by simpa [hvar .cq (by decide)] using hb.cq
  pd := by simpa [hvar .pd (by decide)] using hb.pd
  ibCtx := by simpa [hvar .ibCtx (by decide)] using hb.ibCtx
  compChannel := by simpa [hvar .compChannel (by decide)] using hb.compChannel
  epollFd := by simpa [hvar .epollFd (by decide)] using hb.epollFd
  sgeMr := by simpa [hvar .sgeMr (by decide)] using hb.sgeMr
  sessionMr := by simpa [hvar .sessionMr (by decide)] using hb.sessionMr
  cdcMr := by simpa [hvar .cdcMr (by decide)] using hb.cdcMr

theorem socketField_owned : ∀ f ∈ socketFields, f.Owned .sgeMr ∧ f.kind ≠ .mr := by decide

theorem Before.acquired (hb : Before t) (hf : f ∈ socketFields) : Before (t.acquired f) := by
  obtain ⟨hown, hmr⟩ := socketField_owned f hf
  refine hb.of_var (hb.sound.acquired hown (absurd · hmr)) fun x hx => ?_
  rw [Resources.var_acquired, if_neg (ne_of_mem_of_not_mem hf hx).symm]

theorem Before.lost (hb : Before t) (hf : f ∈ socketFields) : Before (t.setVar f none) := by
  obtain ⟨-, hmr⟩ := socketField_owned f hf
  refine hb.of_var (hb.sound.lost (absurd · hmr)) fun x hx => ?_
  rw [Resources.var_setVar, if_neg (ne_of_mem_of_not_mem hf hx).symm]

theorem Before.disposed (hb : Before t) (hf : f ∈ socketFields) (hset : t.var f ≠ none) :
    Before (t.disposed f) := by
  obtain ⟨hown, -⟩ := socketField_owned f hf
  refine hb.of_var (hb.sound.disposed hown hset) fun x hx => ?_
  rw [Resources.var_disposed, if_neg (ne_of_mem_of_not_mem hf hx).symm]

theorem Before.moved (hb : Before t) (hf : f ∈ socketFields) (hg : g ∈ socketFields)
    (hk : f.kind = g.kind) : Before (t.moved f g) := by
  obtain ⟨hown, hmr⟩ := socketField_owned f hf
  refine hb.of_var (hb.sound.moved hown hk hmr) fun x hx => ?_
  rw [Resources.var_moved, if_neg (ne_of_mem_of_not_mem hf hx).symm,
    if_neg (ne_of_mem_of_not_mem hg hx).symm]

theorem Before.holds (hb : Before t) (hf : f ∈ socketFields) (hset : t.var f ≠ none) : t.Held f :=
  hb.sound.holds (socketField_owned f hf).1 hset

section Rules

variable {β : Type} {Q : β → γ × Resources → Prop}

theorem safe_number {k : Nat → Life S β} (h : ∀ x, Safe B E n (k x) Q (c, t)) :
    Safe B E n (verb .number >>= k) Q (c, t) :=
  wp.op (D := duties S γ) trivial fun x _ => h x

/-- `g = f; f = NULL;` -/
theorem safe_move {k : Unit → Life S β} (h : Safe B E n (k ()) Q (c, t.moved f g)) :
    Safe B E n (verb (.copy f g) >>= fun _ => clear f >>= k) Q (c, t) :=
  wp.op (D := duties S γ) trivial fun _ _ => safe_clear h

end Rules

/-! ## `sock_connect` -/

/-- There is a list of addresses. -/
structure Resolved (t : Resources) : Prop extends Before t where
  resolvedAddr : t.var .resolvedAddr ≠ none

theorem Resolved.held (hr : Resolved t) : t.Held .resolvedAddr :=
  hr.toBefore.holds (by decide) hr.resolvedAddr

/-- The variable with the socket that `socket` returned. -/
def newSocket (client : Bool) : Field := if client then .sockfd else .listenfd

theorem socket_safe (hr : Resolved t) (ai : Address.AddrInfo) :
    Safe B E n (sockets client (.socket ai)) (fun fd s => s.1 = c ∧ Resolved s.2 ∧
      (fd ≠ none → s.2.var (newSocket client) ≠ none)) (c, t) := by
  have hacquired : Resolved (t.acquired .sockfd) :=
    ⟨hr.toBefore.acquired (by decide), by simpa using hr.resolvedAddr⟩
  refine safe_acquire (by simpa using hr.held) ?_ fun _ => wp.done ⟨rfl, ?_, absurd rfl⟩
  · cases client with
    | true => exact safe_number fun x => wp.done ⟨rfl, hacquired, fun _ => by simp [newSocket]⟩
    | false =>
      refine safe_move (safe_number fun x => wp.done ⟨rfl, ?_, fun _ => by simp [newSocket]⟩)
      exact ⟨hacquired.toBefore.moved (by decide) (by decide) rfl,
        by simpa using hr.resolvedAddr⟩
  · exact ⟨hr.toBefore.lost (by decide), by simpa using hr.resolvedAddr⟩

theorem accept_safe (hr : Resolved t) (hlisten : t.var .listenfd ≠ none) (fd : Nat) :
    Safe B E n (sockets client (.accept fd)) (fun fd s => s.1 = c ∧ Resolved s.2 ∧
      (fd ≠ none → s.2.var .sockfd ≠ none)) (c, t) := by
  have hheld := hr.toBefore.holds (by decide) hlisten
  refine safe_acquire (by simpa using hheld) ?_ fun _ => wp.done ⟨rfl, ?_, absurd rfl⟩
  · refine safe_number fun x => wp.done ⟨rfl, ?_, fun _ => by simp⟩
    exact ⟨hr.toBefore.acquired (by decide), by simpa using hr.resolvedAddr⟩
  · exact ⟨hr.toBefore.lost (by decide), by simpa using hr.resolvedAddr⟩

/-- A call on descriptors that leaves them as they are. -/
theorem useSockets_safe {fs : List Field} {site : Site} (hheld : ∀ f ∈ fs, t.Held f) :
    Safe B E n (use fs site : Life S Bool)
      (fun r s => s = (c, t) ∧ (site ≠ .elsewhere → r = true)) (c, t) :=
  wp.op (D := duties S γ) hheld fun _ hr => wp.done ⟨rfl, hr.2 rfl⟩

/-- The same, where the result is not looked at. -/
theorem touchSockets_safe {fs : List Field} {site : Site} (hheld : ∀ f ∈ fs, t.Held f) :
    Safe B E n (do let _ ← use fs site : Life S Unit) (fun _ s => s = (c, t)) (c, t) :=
  wp.op (D := duties S γ) hheld fun _ _ => wp.done rfl

/-- The loop over the addresses, with what it leaves in `sockfd`. -/
theorem addressLoop_safe (rs : List Address.AddrInfo) (sockfd : Int) (hr : Resolved t)
    (hsock : rs = [] → 0 ≤ sockfd → t.var .sockfd ≠ none) :
    Safe B E n ((Address.addressLoop client rs sockfd).interpret (sockets client))
      (fun r s => s.1 = c ∧ Before s.2 ∧ (0 ≤ r → s.2.var .sockfd ≠ none)) (c, t) := by
  induction rs generalizing sockfd t with
  | nil => exact wp.done ⟨rfl, hr.toBefore, hsock rfl⟩
  | cons ai rest ih =>
    refine wp.bind (socket_safe hr ai) ?_
    rintro (_ | fd) ⟨_, t₁⟩ ⟨rfl, hr₁, hset⟩
    · exact ih (-1) hr₁ (by omega)
    replace hset := hset nofun
    cases client with
    | true =>
      have hheld := hr₁.toBefore.holds (f := .sockfd) (by decide) hset
      refine wp.bind (useSockets_safe (by simpa using ⟨hheld, hr₁.held⟩)) ?_
      rintro (_ | _) _ ⟨rfl, -⟩
      · -- the refused socket is closed
        refine safe_drop hr₁.sound (by decide) hset nofun fun _ => ih (-1) ⟨?_, ?_⟩ (by omega)
        · exact hr₁.toBefore.disposed (by decide) hset
        · simpa using hr₁.resolvedAddr
      · exact ih fd hr₁ fun _ _ => hset
    | false =>
      have hheld := hr₁.toBefore.holds (f := .listenfd) (by decide) hset
      have hlisten := List.forall_mem_singleton.mpr hheld
      have hboth : ∀ f ∈ [Field.listenfd, .resolvedAddr], t₁.Held f := by
        simpa using ⟨hheld, hr₁.held⟩
      refine wp.bind (touchSockets_safe hlisten) ?_
      rintro _ _ rfl
      refine wp.bind (useSockets_safe hboth) ?_
      rintro _ _ ⟨rfl, hbind⟩
      obtain rfl := hbind nofun
      refine wp.bind (touchSockets_safe hlisten) ?_
      rintro _ _ rfl
      refine wp.bind (accept_safe hr₁ hset fd) ?_
      rintro (_ | fd') ⟨_, t₂⟩ ⟨rfl, hr₂, hset₂⟩
      · exact ih (-1) hr₂ (by omega)
      · exact ih fd' hr₂ fun _ _ => hset₂ nofun

theorem sockConnect_safe (hb : Before t) :
    Safe B E n ((Address.sockConnect client).interpret (sockets client))
      (fun r s => s.1 = c ∧ Before s.2 ∧ (0 ≤ r → s.2.var .sockfd ≠ none)) (c, t) := by
  refine safe_acquire nofun ?_ fun _ => ?_
  · have hset : (t.acquired .resolvedAddr).var .resolvedAddr ≠ none := by simp
    refine wp.op (D := duties S γ) trivial fun resolved hresolved => ?_
    exact addressLoop_safe resolved 0 ⟨hb.acquired (by decide), hset⟩ (absurd · hresolved.1)
  · exact safe_number fun x => wp.done ⟨rfl, hb.lost (by decide), by omega⟩

/-! ## `sock_established` -/

theorem sockEstablished_safe (hb : Before t) :
    Safe B E n sockEstablished
      (fun r s => s.1 = c ∧ Before s.2 ∧ (r = true → s.2.var .sock ≠ none)) (c, t) := by
  -- the exchange of the lengths, on a socket that is there
  have hlengths : ∀ t', Before t' → t'.var .sock ≠ none →
      Safe B E n ((do
        if !(← use [.sock] .elsewhere) then
          release .sock
          clear .sock
          return false
        return true : Life S Bool))
        (fun r s => s.1 = c ∧ Before s.2 ∧ (r = true → s.2.var .sock ≠ none)) (c, t') := by
    intro t' hb' hset
    refine safe_use (by simpa using hb'.holds (by decide) hset)
      (wp.done ⟨rfl, hb', fun _ => hset⟩) fun _ => ?_
    exact safe_drop hb'.sound (by decide) hset nofun fun _ =>
      wp.done ⟨rfl, hb'.disposed (by decide) hset, nofun⟩
  refine safe_isSet ?_
  cases hv : t.var .sock with
  | some x => exact hlengths t hb (by simp [hv])
  | none =>
    refine safe_isSet (wp.bind (sockConnect_safe hb) ?_)
    rintro rc ⟨_, t₁⟩ ⟨rfl, hb₁, hset⟩
    refine safe_move (safe_clear (safe_clear ?_))
    have hb₂ := ((hb₁.moved (f := .sockfd) (g := .sock) (by decide) (by decide) rfl).lost
      (f := .listenfd) (by decide)).lost (f := .resolvedAddr) (by decide)
    by_cases hrc : rc < 0
    · rw [if_pos hrc]
      exact wp.done ⟨rfl, hb₂, nofun⟩
    · rw [if_neg hrc]
      exact hlengths _ hb₂ (by simpa using hset (by omega))

end ScpRdma.Lifecycle

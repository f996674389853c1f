import ScpRdma.Connection.Handshake

/-!
# Both sides over one TCP connection

The two handshakes over a byte stream in either direction. The stream has no marks: a read
returns any part of what has arrived. A side may go away at any point, and its peer then reads
what is left and the end of the stream.
-/
namespace ScpRdma.Connection
open Foundations

/-- The hosts have one byte order; the client's buffer has the length `len`. The surroundings
may take a side away, and may make calls fail. -/
structure Setup where
  order : ByteOrder
  len : BitVec 64
  attrs : Side → CmConData
  leaves : Side → Prop
  fails : Prop

structure Party where
  prog : Connecting Int
  state : State
  gone : Bool

abbrev Config := Side → Party

/-- The end of the stream is behind what this side has written. -/
def Party.HungUp (p : Party) : Prop := p.gone = true ∨ p.state.closed = true

/-- What a side can still read. -/
def incoming (c : Config) (side : Side) : Bytes :=
  (c side.peer).state.sent.drop (c side).state.got.length

namespace Setup

variable (S : Setup)

/-- What a side can be told. The write of a record is complete unless calls may fail. -/
def sees (c : Config) (side : Side) : (o : Op) → Response o → Prop
  | .write bs, some n => n = bs.length ∨ bs.length ≤ sizeT ∨ S.fails
  | .write _, none => S.fails ∨ (c side.peer).HungUp
  | .read _, .data bs => bs <+: incoming c side
  | .read _, .closed => incoming c side = [] ∧ (c side.peer).HungUp
  | .read _, .failed => S.fails ∨ (c side.peer).HungUp
  | .malloc, ok => ok = true ∨ S.fails
  | _, _ => True

end Setup

inductive Step (S : Setup) : Config → Config → Prop where
  | op {c side o k} (r) : (c side).gone = false → (c side).prog = .op o k →
      Possible o (c side).state r → S.sees c side o r →
      Step S c (Function.update c side
        { c side with prog := k r, state := next o (c side).state r })
  | call {c side f k} : (c side).gone = false → (c side).prog = .call f k →
      Step S c (Function.update c side { c side with prog := (bodies f).bind k })
  | leave {c side} : S.leaves side → (c side).gone = false →
      Step S c (Function.update c side { c side with gone := true })

namespace Setup

variable (S : Setup)

def start : Config := fun side =>
  ⟨handshake S.order side (S.attrs side), initState S.len side, false⟩

def system : System Config where
  init c := c = S.start
  step := Step S

/-- Nobody leaves and nothing fails. -/
def Reliable : Prop := ¬ S.fails ∧ ∀ side, ¬ S.leaves side

/-- All that a side is to write. -/
def stream (side : Side) : Bytes := Connection.stream S.order side (S.attrs side) S.len

/-- The attributes that a side tells. -/
def told (side : Side) : CmConData := (S.attrs side).withLen S.len

/-- The world of either side. -/
def world : World := fun o r => S.Reliable → o.Succeeds r

abbrev duties (side : Side) : Duties signature State :=
  Connection.duties S.order side (S.attrs side) S.len S.world

end Setup

variable {S : Setup} {c d : Config} {side : Side}

theorem world_reliable (h : S.Reliable) : S.world.Reliable := fun _ _ hW => hW h

/-- What holds of the two sides in every state of every run. -/
structure Sound (S : Setup) (c : Config) : Prop where
  verified : ∀ side, Verified bodies (semantics S.world) (S.duties side) (c side).prog
    (Ended S.world) (c side).state
  tracks : ∀ side, Tracks S.order side (S.attrs side) S.len (c side).state
  arrived : ∀ side, (c side).state.got <+: (c side.peer).state.sent
  steady : S.Reliable → ∀ side, ¬ (c side).HungUp

@[simp] theorem Side.peer_peer (side : Side) : side.peer.peer = side := by cases side <;> rfl

theorem Side.peer_ne (side : Side) : side.peer ≠ side := by cases side <;> decide

theorem Side.eq_peer {x y : Side} (h : x ≠ y) : x = y.peer := by
  cases x <;> cases y <;> first | rfl | exact absurd rfl h

theorem sound_start : Sound S S.start :=
  ⟨fun _ _ => handshake_spec, fun _ => tracks_init,
    fun side => by cases side <;> exact List.nil_prefix,
    fun _ side => by cases side <;> simp [Party.HungUp, Setup.start, initState]⟩

/-- The stream only grows. -/
theorem sent_next {o : Op} {s : State} {r : Response o} : s.sent <+: (next o s r).sent := by
  cases o with
  | write bs =>
    cases r with
    | none => exact List.prefix_rfl
    | some n => exact List.prefix_append _ _
  | read count => cases r <;> exact List.prefix_rfl
  | close | malloc | getWrLen | setWrLen _ | setRemoteProps _ | undefined => exact List.prefix_rfl

/-- A side reads what its peer has written. -/
theorem got_next {o : Op} {r : Response o} (h : (c side).state.got <+: (c side.peer).state.sent)
    (hr : S.sees c side o r) :
    (next o (c side).state r).got <+: (c side.peer).state.sent := by
  cases o with
  | read count =>
    cases r with
    | closed | failed => exact h
    | data bs =>
      obtain ⟨rest, hrest⟩ := h
      have hbs : bs <+: incoming c side := hr
      rw [incoming, ← hrest, List.drop_left] at hbs
      rw [← hrest]
      exact (List.prefix_append_right_inj _).mpr hbs
  | write bs => cases r <;> exact h
  | close | malloc | getWrLen | setWrLen _ | setRemoteProps _ | undefined => exact h

/-- In a reliable setup every call of either side succeeds. -/
theorem Sound.succeeds (h : Sound S c) {o : Op} {r : Response o} (hr : S.sees c side o r) :
    S.world o r := by
  intro hS
  have hpeer := h.steady hS side.peer
  cases o with
  | write bs =>
    cases r with
    | none => exact (hr.elim hS.1 hpeer).elim
    | some n => exact hr.imp id fun h => h.resolve_right hS.1
  | read count =>
    cases r with
    | data bs => exact trivial
    | closed => exact hpeer hr.2
    | failed => exact hr.elim hS.1 hpeer
  | malloc => exact hr.resolve_right hS.1
  | close | getWrLen | setWrLen _ | setRemoteProps _ | undefined => exact trivial

/-- Replacing one side by a sound one, whose stream has grown and which has read no more than
was written. -/
theorem Sound.update (h : Sound S c) {p : Party}
    (hverified : Verified bodies (semantics S.world) (S.duties side) p.prog (Ended S.world) p.state)
    (htracks : Tracks S.order side (S.attrs side) S.len p.state)
    (hsent : (c side).state.sent <+: p.state.sent)
    (hgot : p.state.got <+: (c side.peer).state.sent)
    (hsteady : S.Reliable → ¬ p.HungUp) : Sound S (Function.update c side p) := by
  have hpeer : Function.update c side p side.peer = c side.peer :=
    Function.update_of_ne side.peer_ne _ _
  refine ⟨fun x => ?_, fun x => ?_, fun x => ?_, fun hS x => ?_⟩ <;>
    by_cases hx : x = side
  · subst hx
    rwa [Function.update_self]
  · rw [Function.update_of_ne hx]
    exact h.verified x
  · subst hx
    rwa [Function.update_self]
  · rw [Function.update_of_ne hx]
    exact h.tracks x
  · subst hx
    rwa [Function.update_self, hpeer]
  · obtain rfl := Side.eq_peer hx
    rw [hpeer, Side.peer_peer, Function.update_self]
    have harrived := h.arrived side.peer
    rw [Side.peer_peer] at harrived
    exact harrived.trans hsent
  · subst hx
    rw [Function.update_self]
    exact hsteady hS
  · rw [Function.update_of_ne hx]
    exact h.steady hS x

theorem Sound.step (h : Sound S c) (hstep : Step S c d) : Sound S d := by
  cases hstep with
  | @op side o k r hgone hprog hr hsees =>
    have hv := hprog ▸ h.verified side
    have hW := h.succeeds hsees
    refine h.update (hv.response r ⟨hr, hW⟩) ((h.tracks side).next hv.duty hr) sent_next
      (got_next (h.arrived side) hsees) fun hS => ?_
    rintro (hg | hclosed)
    · exact Bool.false_ne_true (hgone.symm.trans hg)
    · cases o with
      | close => exact hv.duty (world_reliable hS)
      | write bs => cases r <;> exact h.steady hS side (.inr hclosed)
      | read count => cases r <;> exact h.steady hS side (.inr hclosed)
      | malloc | getWrLen | setWrLen _ | setRemoteProps _ | undefined =>
        exact h.steady hS side (.inr hclosed)
  | @call side f k hgone hprog =>
    have hv := hprog ▸ h.verified side
    exact h.update hv.enter (h.tracks side) List.prefix_rfl (h.arrived side)
      fun hS => h.steady hS side
  | @leave side hleaves hgone =>
    exact h.update (h.verified side) (h.tracks side) List.prefix_rfl (h.arrived side)
      fun hS => absurd hleaves (hS.2 side)

theorem sound (S : Setup) : S.system.Invariant (Sound S) :=
  System.invariant_of_inductive (by rintro _ rfl; exact sound_start) fun _ _ h hstep => h.step hstep

/-! ## What arrives -/

/-- A side that knows a length knows the one of the client. -/
theorem Sound.wrLen (h : Sound S c) (hknows : (c side).state.Knows S.order side S.len) :
    (c side).state.wrLen = S.len := by
  cases side with
  | client => exact hknows
  | server =>
    obtain ⟨h8, hlen⟩ := hknows
    have hclient := (h.tracks .client).sent
    rw [show (c .client).state.wrLen = S.len from (h.tracks .client).knows (.inl rfl)] at hclient
    -- the first bytes of the server's stream are the length that the client wrote
    have htake := ((h.arrived .server).trans hclient).take sizeT
    have hbytes : (c .server).state.got.take sizeT = lengthBytes S.order S.len := by
      refine (htake.eq_of_length ?_).trans ?_
      · simp [h8, length_stream, Side.peer, Side.skip]
      · exact List.take_left' (length_lengthBytes _ _)
    rw [hlen, hbytes]
    exact S.order.load_store (k := 8) S.len

/-- Neither side writes anything else. -/
theorem Sound.sent (h : Sound S c) (side : Side) : (c side).state.sent <+: S.stream side := by
  have htracks := h.tracks side
  by_cases hsent : (c side).state.sent = []
  · rw [hsent]
    exact List.nil_prefix
  · have hlen := h.wrLen (htracks.knows (.inr hsent))
    have := htracks.sent
    rwa [hlen] at this

theorem Sound.got (h : Sound S c) (side : Side) : (c side).state.got <+: S.stream side.peer :=
  (h.arrived side).trans (h.sent side.peer)

theorem length_stream_peer : (S.stream side.peer).length = side.skip + cmConDataSize := by
  rw [Setup.stream, length_stream, Side.peer_peer]

/-- A side that has the length and the record of its peer. -/
structure Framed (S : Setup) (c : Config) (side : Side) : Prop where
  wrLen : (c side).state.wrLen = S.len
  got : (c side).state.got = S.stream side.peer
  remoteProps : (c side).state.remoteProps = some (CmConData.remoteProps S.order (S.told side.peer))
  incoming : incoming c side = []

theorem drop_skip : (S.stream side.peer).drop side.skip =
    recordBytes S.order (S.attrs side.peer) S.len := by
  cases side with
  | client => rfl
  | server => exact List.drop_left' (length_lengthBytes _ _)

theorem Sound.framed (h : Sound S c) (hdone : (c side).prog = .done 0) : Framed S c side := by
  have htracks := h.tracks side
  obtain ⟨hset, -⟩ := Verified.post (hdone ▸ h.verified side)
  obtain ⟨props, hprops⟩ := Option.ne_none_iff_exists'.mp (hset.mp rfl)
  obtain ⟨hsaid, hheard, hdecoded⟩ := htracks.props props hprops
  have hgot : (c side).state.got = S.stream side.peer :=
    (h.got side).eq_of_length (hheard.trans length_stream_peer.symm)
  have hsent : (c side).state.sent ≠ [] := by
    rw [hsaid]
    refine List.ne_nil_of_length_pos ?_
    rw [length_stream]
    exact Nat.lt_of_lt_of_le (by decide : 0 < cmConDataSize) (Nat.le_add_left _ _)
  refine ⟨h.wrLen (htracks.knows (.inr hsent)), hgot, ?_, ?_⟩
  · rw [hprops, hdecoded, hgot, drop_skip]
    rfl
  · rw [Connection.incoming, hgot, List.drop_eq_nil_iff]
    exact (h.sent side.peer).length_le

/-! ## No side waits for ever -/

/-- The party has ended or gone after at most `k` more steps. -/
def Party.Within (p : Party) (k : Nat) : Prop :=
  ∃ j, Program.EndsWithin bodies (semantics .any) j p.prog p.state ∧
    j + (if p.gone then 0 else 1) ≤ k

/-- At most `n` more steps are taken. -/
def Within (n : Nat) (c : Config) : Prop :=
  ∃ k : Side → Nat, (∀ side, (c side).Within (k side)) ∧ k .client + k .server ≤ n

/-- Each step is one of the side that takes it. -/
theorem Within.update {n : Nat} {p : Party} (h : Within n c)
    (hp : ∀ k, (c side).Within k → ∃ j < k, p.Within j) :
    ∃ m < n, Within m (Function.update c side p) := by
  obtain ⟨k, hk, hn⟩ := h
  obtain ⟨j, hj, hpj⟩ := hp _ (hk side)
  refine ⟨n - 1, ?_, Function.update k side j, fun x => ?_, ?_⟩
  · cases side <;> omega
  · by_cases hx : x = side
    · subst hx
      rwa [Function.update_self, Function.update_self]
    · rw [Function.update_of_ne hx, Function.update_of_ne hx]
      exact hk x
  · cases side <;> simp <;> omega

theorem Within.step {n : Nat} (h : Within n c) (hstep : Step S c d) : ∃ m < n, Within m d := by
  cases hstep with
  | @op side o k r hgone hprog hr hsees =>
    refine h.update fun b ⟨j, hends, hj⟩ => ?_
    rw [hprog] at hends
    cases j with
    | zero => exact hends.elim
    | succ j =>
      refine ⟨b - 1, by omega, j, hends r ⟨hr, trivial⟩, ?_⟩
      simp only [hgone] at hj ⊢
      omega
  | @call side f k hgone hprog =>
    refine h.update fun b ⟨j, hends, hj⟩ => ?_
    rw [hprog] at hends
    cases j with
    | zero => exact hends.elim
    | succ j => exact ⟨b - 1, by omega, j, hends, by simp only [hgone] at hj ⊢; omega⟩
  | @leave side hleaves hgone =>
    refine h.update fun b ⟨j, hends, hj⟩ => ⟨b - 1, ?_, j, hends, ?_⟩ <;>
      simp only [hgone, Bool.false_eq_true, if_false, if_true] at hj ⊢ <;> omega

/-- A side that has not ended can take a step, unless it reads and nothing has arrived. -/
theorem Sound.can_step (h : Sound S c) (hgone : (c side).gone = false)
    (hdone : ∀ rc, (c side).prog ≠ .done rc)
    (hread : ∀ count, Duty S.order side (S.attrs side) S.len S.world (.read count) (c side).state →
      incoming c side ≠ [] ∨ (c side.peer).HungUp)
    (hundef : ¬ Duty S.order side (S.attrs side) S.len S.world .undefined (c side).state) :
    ∃ d, Step S c d := by
  have hv := h.verified side
  cases hprog : (c side).prog with
  | done rc => exact absurd hprog (hdone rc)
  | call f k => exact ⟨_, .call hgone hprog⟩
  | op o k =>
    rw [hprog] at hv
    have hduty := hv.duty
    have answer : ∀ r, Possible o (c side).state r → S.sees c side o r → ∃ d, Step S c d :=
      fun r hr hsees => ⟨_, .op r hgone hprog hr hsees⟩
    cases o with
    | write bs => exact answer (some bs.length) ⟨List.length_pos_iff.mpr hduty.1, le_rfl⟩ (.inl rfl)
    | read count =>
      by_cases hin : incoming c side = []
      · exact answer .closed trivial ⟨hin, (hread count hduty).resolve_left (not_not.mpr hin)⟩
      · -- one byte is enough
        refine answer (.data ((incoming c side).take 1)) ⟨?_, ?_⟩ (List.take_prefix _ _)
        · simpa using hin
        · exact (List.length_take_le _ _).trans hduty.1
    | malloc => exact answer true trivial (.inl rfl)
    | getWrLen => exact answer (c side).state.wrLen rfl trivial
    | close | setWrLen _ | setRemoteProps _ => exact answer () trivial trivial
    | undefined => exact absurd hduty hundef

theorem start_within : Within 222 S.start :=
  ⟨fun _ => 111, fun _ => ⟨110, handshake_ends _, le_rfl⟩, le_rfl⟩

/-- Where `P` is reached unless no side can go on, every run reaches it. -/
theorem inevitable {I P : Config → Prop} (hI : ∀ c d, I c → Step S c d → I d)
    (hstep : ∀ c, I c → ¬ P c → ∃ d, Step S c d) (hc : S.system.Reachable c) (h : I c) :
    S.system.Inevitable P c := by
  have hwithin : S.system.Invariant fun c => ∃ n, Within n c :=
    System.invariant_of_inductive (by rintro _ rfl; exact ⟨_, start_within⟩) fun _ _ hn hstep => by
      obtain ⟨n, hn⟩ := hn
      obtain ⟨m, -, hm⟩ := hn.step hstep
      exact ⟨m, hm⟩
  obtain ⟨n, hn⟩ := hwithin c hc
  exact System.inevitable_of_budget hI (fun _ _ _ _ hn hstep => hn.step hstep) hstep h hn

/-- A side that waits for its peer. -/
def Waits (S : Setup) (c : Config) (side : Side) : Prop :=
  incoming c side = [] ∧
    ∃ count, Duty S.order side (S.attrs side) S.len S.world (.read count) (c side).state

/-- The peer of a side that waits has not said everything. -/
theorem Waits.peer_short (hwaits : Waits S c side) :
    (c side.peer).state.sent.length < (S.stream side.peer).length := by
  obtain ⟨hin, count, hpos, hcount, -⟩ := hwaits
  have hle := List.drop_eq_nil_iff.mp hin
  rw [length_stream_peer]
  omega

theorem State.Said.length_sent {s : State} {o : ByteOrder} {a : CmConData} (h : s.Said o side a) :
    s.sent.length = side.peer.skip + cmConDataSize := by
  rw [h, length_stream]

/-- In a reliable setup a side that cannot go on has ended or waits. -/
theorem Sound.stuck (h : Sound S c) (hS : S.Reliable) (hstuck : ¬ ∃ d, Step S c d) (side : Side) :
    (c side).state.Said S.order side (S.attrs side) ∧ (c side).prog = .done 0 ∨ Waits S c side := by
  have hgone : (c side).gone = false := Bool.eq_false_iff.mpr fun hg => h.steady hS side (.inl hg)
  by_cases hdone : ∃ rc, (c side).prog = .done rc
  · obtain ⟨rc, hrc⟩ := hdone
    obtain ⟨hset, hrel⟩ := Verified.post (hrc ▸ h.verified side)
    obtain rfl := hrel (world_reliable hS)
    obtain ⟨props, hprops⟩ := Option.ne_none_iff_exists'.mp (hset.mp rfl)
    exact .inl ⟨((h.tracks side).props props hprops).1, hrc⟩
  · refine .inr ?_
    by_contra hwaits
    refine hstuck (h.can_step hgone (not_exists.mp hdone)
      (fun count hduty => .inl fun hin => ?_) ?_)
    · exact hwaits ⟨hin, count, hduty⟩
    · exact fun hduty => hduty.1 (world_reliable hS)

/-- Both sides cannot wait: the client has said everything when it reads, and the server then
has something to read. -/
theorem Sound.not_stuck (h : Sound S c) (hS : S.Reliable)
    (hdone : ¬ ∀ side, (c side).prog = .done 0) : ∃ d, Step S c d := by
  by_contra hstuck
  have hends := h.stuck hS hstuck
  obtain ⟨side, hside⟩ := not_forall.mp hdone
  have hwaits := (hends side).resolve_left fun hd => hside hd.2
  have hshort := hwaits.peer_short
  have hpeer : Waits S c side.peer := (hends side.peer).resolve_left fun hd => by
    have := hd.1.length_sent
    rw [Setup.stream, length_stream] at hshort
    omega
  have hboth : ∀ x, Waits S c x := fun x => by
    by_cases hx : x = side
    · exact hx ▸ hwaits
    · exact Side.eq_peer hx ▸ hpeer
  obtain ⟨-, count, hpos, -, hsaid | hskip⟩ := hboth .client
  · have hclient := (hboth .server).peer_short
    have := hsaid.length_sent
    rw [Setup.stream, length_stream] at hclient
    simp only [Side.peer] at this hclient
    omega
  · simp only [Side.skip] at hskip
    omega

/-! ## The handshake -/

theorem reliable_handshake (hS : S.Reliable) :
    S.system.Inevitable (fun c => ∀ side, (c side).prog = .done 0) S.start :=
  inevitable (fun _ _ h => h.step) (fun _ h hdone => h.not_stuck hS hdone) (.of_init rfl)
    sound_start

/-- The peer of `side` has hung up before it wrote everything, and `side` is still there. -/
structure CutShort (S : Setup) (side : Side) (c : Config) : Prop where
  sound : Sound S c
  here : (c side).gone = false
  peer : (c side.peer).HungUp
  short : (c side.peer).state.sent ≠ S.stream side.peer

/-- The side has ended with an error, and has stored nothing about its peer. -/
def Refused (side : Side) (c : Config) : Prop :=
  ∃ rc, rc ≠ 0 ∧ (c side).prog = .done rc ∧ (c side).state.remoteProps = none

theorem closed_next {o : Op} {s : State} {r : Response o} (h : s.closed = true) :
    (next o s r).closed = true := by
  cases o with
  | write bs => cases r <;> exact h
  | read count => cases r <;> exact h
  | close => rfl
  | malloc | getWrLen | setWrLen _ | setRemoteProps _ | undefined => exact h

/-- A side that has closed its socket writes no more. -/
theorem sent_closed {o : Op} {s : State} {r : Response o}
    (hD : Duty S.order side (S.attrs side) S.len S.world o s) (h : s.closed = true) :
    (next o s r).sent = s.sent := by
  cases o with
  | write bs => exact absurd (h.symm.trans hD.2.1) (by decide)
  | read count => cases r <;> rfl
  | close | malloc | getWrLen | setWrLen _ | setRemoteProps _ | undefined => rfl

/-- A step of the side that is still there. -/
theorem CutShort.near (h : CutShort S side c) {p : Party} (hs : Sound S (Function.update c side p))
    (hp : p.gone = false) : CutShort S side (Function.update c side p) := by
  have hpeer : Function.update c side p side.peer = c side.peer :=
    Function.update_of_ne side.peer_ne _ _
  refine ⟨hs, ?_, ?_, ?_⟩
  · rwa [Function.update_self]
  · rw [hpeer]
    exact h.peer
  · rw [hpeer]
    exact h.short

/-- A step of the side that has hung up. -/
theorem CutShort.far (h : CutShort S side c) {p : Party}
    (hs : Sound S (Function.update c side.peer p)) (hup : p.HungUp)
    (hsent : p.state.sent = (c side.peer).state.sent) :
    CutShort S side (Function.update c side.peer p) := by
  refine ⟨hs, ?_, ?_, ?_⟩
  · rw [Function.update_of_ne side.peer_ne.symm]
    exact h.here
  · rwa [Function.update_self]
  · rw [Function.update_self, hsent]
    exact h.short

theorem CutShort.step (h : CutShort S side c) (hleaves : ¬ S.leaves side) (hstep : Step S c d) :
    CutShort S side d := by
  have hsound := h.sound.step hstep
  cases hstep with
  | @op x o k r hgone hprog hr hsees =>
    by_cases hx : x = side
    · subst hx
      exact h.near hsound hgone
    · obtain rfl := Side.eq_peer hx
      have hclosed := h.peer.resolve_left (by simp [hgone])
      have hduty := Verified.duty (hprog ▸ h.sound.verified side.peer)
      exact h.far hsound (.inr (closed_next hclosed)) (sent_closed hduty hclosed)
  | @call x f k hgone hprog =>
    by_cases hx : x = side
    · subst hx
      exact h.near hsound hgone
    · obtain rfl := Side.eq_peer hx
      exact h.far hsound h.peer rfl
  | @leave x hx hgone =>
    obtain rfl := Side.eq_peer fun heq : x = side => hleaves (heq ▸ hx)
    exact h.far hsound (.inl rfl) rfl

/-- The record of a side that was cut short is not read. -/
theorem CutShort.length_got (h : CutShort S side c) :
    (c side).state.got.length < side.skip + cmConDataSize := by
  have hle := (h.sound.arrived side).length_le
  have hsent := h.sound.sent side.peer
  have hne : (c side.peer).state.sent.length ≠ (S.stream side.peer).length :=
    fun heq => h.short (hsent.eq_of_length heq)
  have := hsent.length_le
  rw [length_stream_peer] at this hne
  omega

theorem CutShort.refused (h : CutShort S side c) {rc : Int} (hdone : (c side).prog = .done rc) :
    Refused side c := by
  have hshort := h.length_got
  obtain ⟨hset, -⟩ := Verified.post (hdone ▸ h.sound.verified side)
  have hnone : (c side).state.remoteProps = none := by
    by_contra hsome
    obtain ⟨props, hprops⟩ := Option.ne_none_iff_exists'.mp hsome
    have := ((h.sound.tracks side).props props hprops).2.1
    omega
  exact ⟨rc, fun hrc => hset.mp hrc hnone, hdone, hnone⟩

theorem cut_short_refused (hleaves : ¬ S.leaves side) (hc : S.system.Reachable c)
    (hup : (c side.peer).HungUp) (hshort : (c side.peer).state.sent ≠ S.stream side.peer)
    (hhere : (c side).gone = false) : S.system.Inevitable (Refused side) c := by
  refine inevitable (fun _ _ h => h.step hleaves) (fun c h hrefused => ?_) hc
    (I := CutShort S side) ⟨sound S c hc, hhere, hup, hshort⟩
  refine h.sound.can_step h.here (fun rc hdone => hrefused (h.refused hdone))
    (fun _ _ => .inr h.peer) fun hduty => ?_
  have := h.length_got
  exact absurd hduty.2 (by omega)

/-- However the streams split and whenever a side goes away: neither side reads past the record
of its peer; a side that ends without error has the client's length and its peer's record,
and left nothing behind; if nobody leaves both sides end so; and a side whose peer hangs up
early ends with an error and stores nothing. -/
theorem handshake_framing (S : Setup) :
    S.system.Invariant (fun c => ∀ side, (c side).state.got <+: S.stream side.peer ∧
      ((c side).prog = .done 0 → Framed S c side)) ∧
    (S.Reliable → S.system.Inevitable (fun c => ∀ side, (c side).prog = .done 0) S.start) ∧
    ∀ side c, S.system.Reachable c → ¬ S.leaves side → (c side.peer).HungUp →
      (c side.peer).state.sent ≠ S.stream side.peer →
      S.system.Inevitable (Refused side) c := by
  refine ⟨fun c hc side => ?_, reliable_handshake, fun side c hc hleaves hup hshort => ?_⟩
  · have h := sound S c hc
    exact ⟨h.got side, h.framed⟩
  · have hhere : S.system.Invariant fun c => (c side).gone = false := by
      refine System.invariant_of_inductive (by rintro _ rfl; rfl) fun c d h hstep => ?_
      cases hstep with
      | @op x o k r hgone hprog hr hsees => by_cases hx : side = x <;> simp_all
      | @call x f k hgone hprog => by_cases hx : side = x <;> simp_all
      | @leave x hx hgone =>
        have hne : side ≠ x := fun heq => hleaves (heq ▸ hx)
        simpa [hne] using h
    exact cut_short_refused hleaves hc hup hshort (hhere c hc)

end ScpRdma.Connection

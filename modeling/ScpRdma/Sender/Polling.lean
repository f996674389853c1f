import ScpRdma.Sender.Semantics

/-!
# Polling and acknowledgements

`Live` relates the context to the ledger while a session is up, and `Harvest` is what a
polling loop may change. Every loop is proved against them in every world, so whatever a
batch or an acknowledgement says.
-/
namespace ScpRdma.Sender
open Foundations

/-- The precondition of a part of the sender: it meets every duty for `n` steps. -/
abbrev Meets {α : Type} (cfg : Config) (W : World) (n : Nat) (p : Sender α)
    (Q : α → State → Prop) (s : State) : Prop :=
  wp (bodies cfg) (semantics W) duties n p Q s

/-- The verbs of the session never fail. -/
def Op.Succeeds : (o : Op) → Response o → Prop
  | .postRecv _ _, b | .postWrite _ _ _, b | .postSend _, b => b = true
  | .waitCompletion _ _ _, r => ∃ wcs, r = some wcs ∧ ∀ wc ∈ wcs, wc.ok = true
  | _, _ => True

def World.Reliable (W : World) : Prop := ∀ o r, W o r → o.Succeeds r

variable {cfg : Config} {W : World} {n k : Nat} {α : Type} {Q : α → State → Prop} {s t u : State}

section Rules

theorem meets_get {f : Ctx → Sender α} (h : Meets cfg W n (f s.ctx) Q s) :
    Meets cfg W n (get >>= f) Q s :=
  wp.op trivial (by rintro r ⟨rfl, -⟩; exact h)

theorem meets_update {up : Update} {f : Unit → Sender α} (hD : Duty (.update up) s)
    (h : Meets cfg W n (f ()) Q { s with ctx := up.apply s.ctx }) :
    Meets cfg W n (update up >>= f) Q s :=
  wp.op hD fun _ _ => h

theorem meets_store {addr : Nat} {bs : Bytes} {f : Unit → Sender α}
    (hD : MayFill s addr bs.length)
    (h : ∀ m, m = s.mem.store addr bs → Meets cfg W n (f ()) Q { s with mem := m }) :
    Meets cfg W n (store addr bs >>= f) Q s :=
  wp.op hD fun _ _ => h _ rfl

/-- Any other operation, by its duty and its responses. -/
theorem meets_ask {D : Duties signature State} {o : Op} {f : Response o → Sender α} (hD : D.op o s)
    (h : ∀ r, Possible o s r → W o r → wp (bodies cfg) (semantics W) D n (f r) Q (next o s r)) :
    wp (bodies cfg) (semantics W) D n (ask o >>= f) Q s :=
  wp.op hD fun r hr => h r hr.1 hr.2

theorem meets_postSend {msg : Cdc} {f : Bool → Sender α} (hD : Duty (.postSend msg) s)
    (hfail : W (.postSend msg) false → Meets cfg W n (f false) Q s)
    (hok : Meets cfg W n (f true) Q { s with ledger := s.ledger.announce }) :
    Meets cfg W n (postSend msg >>= f) Q s := by
  refine wp.op hD fun ok h => ?_
  cases ok with
  | false => exact hfail h.2
  | true => exact hok

/-- Mutually recursive procedures of the sender, each proved of its body from all of them. -/
theorem meets_recursion {ι : Type} (c : ι → Call) (P : ι → State → Prop)
    (R : ι → State → Int → State → Prop)
    (h : ∀ n, (∀ i s, P i s → Meets cfg W n (invoke (c i)) (R i s) s) →
      ∀ i s, P i s → Meets cfg W n (bodies cfg (c i)) (R i s) s)
    {i : ι} (hs : P i s) : Meets cfg W n (invoke (c i)) (R i s) s :=
  wp.recursion (S := signature) c P R (fun _ _ _ => trivial) h n i s hs

end Rules

/-! ## The invariant of a session -/

/-- While a session is up: the ring indices count, a slot is free when its ACK was consumed,
one receive is posted ahead and `k` more for a packet that is not announced yet. -/
structure Live (k : Nat) (s : State) : Prop where
  slots : s.ctx.cdcRecvSlots = rdmaCdcRecvSlots
  postIdx : s.ctx.cdcRecvPostIdx = s.ledger.posted % rdmaCdcRecvSlots
  consIdx : s.ctx.cdcRecvConsIdx = s.ledger.handled % rdmaCdcRecvSlots
  free : ∀ x, s.ctx.slotFree x = true ↔ x ∉ s.ledger.unacked
  nodup : s.ledger.unacked.Nodup
  pending : s.ctx.pendingAcks = s.ledger.unacked.length
  posted : s.ledger.posted = s.ledger.sent.length + 1 + k
  handled : s.ledger.sent.length ≤ s.ledger.handled + s.ledger.unacked.length

/-- What polling may change: slots, the consumed receives and the polled completions. -/
structure Harvested (s t : State) : Prop where
  mem : t.mem = s.mem
  ctx : t.ctx = { s.ctx with
    slotFree := t.ctx.slotFree
    pendingAcks := t.ctx.pendingAcks
    cdcRecvConsIdx := t.ctx.cdcRecvConsIdx }
  ledger : t.ledger = { s.ledger with
    polled := t.ledger.polled
    handled := t.ledger.handled
    unacked := t.ledger.unacked
    writePending := t.ledger.writePending }
  handled : s.ledger.handled ≤ t.ledger.handled
  unacked : t.ledger.unacked ⊆ s.ledger.unacked

namespace Harvested

theorem refl (s : State) : Harvested s s := ⟨rfl, rfl, rfl, le_rfl, fun _ h => h⟩

theorem trans (h : Harvested s t) (g : Harvested t u) : Harvested s u where
  mem := g.mem.trans h.mem
  ctx := g.ctx.trans (by rw [h.ctx])
  ledger := g.ledger.trans (by rw [h.ledger])
  handled := h.handled.trans g.handled
  unacked := fun _ hx => h.unacked (g.unacked hx)

theorem sent (h : Harvested s t) : t.ledger.sent = s.ledger.sent := by rw [h.ledger]

theorem phase (h : Harvested s t) : t.ledger.phase = s.ledger.phase := by rw [h.ledger]

theorem session (h : Harvested s t) :
    t.ctx.sessionEstablished = s.ctx.sessionEstablished := by rw [h.ctx]

theorem sge (h : Harvested s t) : t.ctx.sessionSge = s.ctx.sessionSge := by rw [h.ctx]

theorem currentSlot (h : Harvested s t) : t.ctx.currentSlot = s.ctx.currentSlot := by
  rw [h.ctx]

end Harvested

theorem Live.booked (h : Live k s) : Booked s := ⟨h.free, h.nodup, h.pending⟩

theorem GoesRound.harvested (h : GoesRound s) (g : Harvested s t) : GoesRound t := by
  obtain ⟨before, n, hsent, hle, hcur⟩ := h
  exact ⟨before, n, g.sent ▸ hsent, hle.trans g.handled, g.currentSlot.trans hcur⟩

theorem Turn.harvested {x : Slot} (h : Turn x s) (g : Harvested s t) : Turn x t :=
  h.imp (fun h => ⟨h.1.harvested g, h.2.trans g.currentSlot.symm⟩)
    fun h => List.Subset.trans g.unacked h

/-- The end of a polling loop: every polled receive was consumed. -/
structure Harvest (k : Nat) (s t : State) : Prop where
  live : Live k t
  settled : t.ledger.polled = t.ledger.handled
  frame : Harvested s t

theorem Harvest.refl (h : Live k s) (hs : s.ledger.polled = s.ledger.handled) : Harvest k s s :=
  ⟨h, hs, .refl s⟩

theorem Harvest.trans (h : Harvest k s t) (g : Harvest k t u) : Harvest k s u :=
  ⟨g.live, g.settled, h.frame.trans g.frame⟩

/-! ## Consuming acknowledgements -/

/-- An ACK for a slot that is free, or for no slot, changes no slot. -/
theorem Live.ignore {msg : Cdc} (h : Live k s)
    (hx : ∀ x, msg.slot? = some x → x ∉ s.ledger.unacked) :
    Live k { s with ctx := Update.consume.apply s.ctx, ledger := s.ledger.consume msg } := by
  have hu : (s.ledger.consume msg).unacked = s.ledger.unacked := by
    unfold Ledger.consume
    cases hm : msg.slot? with
    | none => rfl
    | some x => exact List.erase_of_not_mem (hx x hm)
  have hc := h.consIdx
  have hh := h.handled
  refine ⟨h.slots, h.postIdx, ?_, ?_, ?_, ?_, h.posted, ?_⟩
  · simp only [Update.apply, Ledger.consume, h.slots, hc, Nat.mod_add_mod]
  · simpa only [hu, Update.apply] using h.free
  · simpa only [hu] using h.nodup
  · simpa only [hu, Update.apply] using h.pending
  · simp only [hu]
    simp only [Ledger.consume]
    omega

/-- An ACK for a busy slot frees it. -/
theorem Live.release {msg : Cdc} {x : Slot} (h : Live k s) (hx : msg.slot? = some x)
    (hmem : x ∈ s.ledger.unacked) :
    Live k { s with
      ctx := (Update.freeSlot x).apply (Update.consume.apply s.ctx)
      ledger := s.ledger.consume msg } := by
  have hu : (s.ledger.consume msg).unacked = s.ledger.unacked.erase x := by
    simp [Ledger.consume, hx]
  have hlen := List.length_erase_of_mem hmem
  have hpos := List.length_pos_of_mem hmem
  have hc := h.consIdx
  have hh := h.handled
  have hp := h.pending
  refine ⟨h.slots, h.postIdx, ?_, fun y => ?_, ?_, ?_, h.posted, ?_⟩
  · simp only [Update.apply, Ledger.consume, h.slots, hc, Nat.mod_add_mod]
  · simp only [hu, Update.apply, Function.update_apply]
    by_cases hy : y = x
    · simp [hy, h.nodup.not_mem_erase]
    · simp [hy, List.mem_erase_of_ne hy, h.free y]
  · simpa only [hu] using h.nodup.erase x
  · simp only [hu, hlen, Update.apply, hp]
    omega
  · simp only [hu, hlen]
    simp only [Ledger.consume]
    omega

theorem Harvested.consume (msg : Cdc) (c : Ctx)
    (hc : c = { s.ctx with
      slotFree := c.slotFree
      pendingAcks := c.pendingAcks
      cdcRecvConsIdx := c.cdcRecvConsIdx }) :
    Harvested s { s with ctx := c, ledger := s.ledger.consume msg } := by
  refine ⟨rfl, hc, rfl, Nat.le_succ _, fun x hx => ?_⟩
  simp only [Ledger.consume] at hx
  split at hx
  · exact List.mem_of_mem_erase hx
  · exact hx

theorem rdmaCdcConsumeBuf_spec (h : Live k s) :
    Meets cfg W n rdmaCdcConsumeBuf (fun r t => r = some (s.ledger.handled % rdmaCdcRecvSlots) ∧
      t = { s with ctx := Update.consume.apply s.ctx }) s := by
  refine meets_get (wp.guard (fun h0 => ?_) fun _ => ?_)
  · simp [h.slots, rdmaCdcRecvSlots] at h0
  · exact meets_update trivial (wp.done ⟨by rw [h.consIdx], rfl⟩)

theorem handleAckRecv_spec {wrId j : Nat} (h : Live k s)
    (hp : s.ledger.polled = s.ledger.handled + (j + 1)) :
    Meets cfg W n (handleAckRecv wrId) (fun _ t => Live k t ∧
      t.ledger.polled = t.ledger.handled + j ∧
      t.ledger.writePending = s.ledger.writePending ∧ Harvested s t) s := by
  have hp' : ∀ msg, s.ledger.polled = (s.ledger.consume msg).handled + j := by
    intro msg
    simp only [Ledger.consume]
    omega
  unfold handleAckRecv
  refine wp.bind (R := fun i t => ∃ msg : Cdc, i = (msg.slotId.toNat : Int) ∧
    t = { s with ctx := Update.consume.apply s.ctx, ledger := s.ledger.consume msg }) ?_ ?_
  · refine wp.bind (rdmaCdcConsumeBuf_spec h) ?_
    rintro _ _ ⟨rfl, rfl⟩
    refine meets_ask ⟨rfl, by change s.ledger.handled < s.ledger.polled; omega⟩ fun msg _ _ => ?_
    exact wp.done ⟨msg, rfl, rfl⟩
  · rintro _ _ ⟨msg, rfl, rfl⟩
    cases hm : slotOfInt msg.slotId.toNat with
    | none =>
      refine wp.done ⟨h.ignore ?_, hp' msg, rfl, .consume msg _ rfl⟩
      simp [Cdc.slot?, hm]
    | some x =>
      refine meets_get ?_
      split
      · rename_i hfree
        have hx : x ∉ s.ledger.unacked := (h.free x).mp hfree
        refine wp.done ⟨h.ignore ?_, hp' msg, rfl, .consume msg _ rfl⟩
        simpa [Cdc.slot?, hm] using hx
      · rename_i hbusy
        have hx : x ∈ s.ledger.unacked := by
          by_contra hx
          exact hbusy ((h.free x).mpr hx)
        refine wp.op (Bool.eq_false_iff.mpr hbusy) fun _ _ => ?_
        exact wp.done ⟨h.release hm hx, hp' msg, rfl, .consume msg _ rfl⟩

theorem Harvested.polled {site : Site} {maxWc : Nat} {timeoutMs : Int} (wcs : List Wc) :
    Harvested s (next (.waitCompletion site maxWc timeoutMs) s (some wcs)) :=
  ⟨rfl, rfl, rfl, le_rfl, fun _ hx => hx⟩

theorem harvestBatch_spec {wcs : List Wc} {a e : Nat} (h : Live k s)
    (hp : s.ledger.polled = s.ledger.handled + recvCount wcs) :
    Meets cfg W n (harvestBatch wcs a e) (fun r t => Harvest k s t ∧
      ((∀ wc ∈ wcs, wc.ok = true) → r.2 = e)) s := by
  induction wcs generalizing s a e with
  | nil => exact wp.done ⟨.refl h hp, fun _ => rfl⟩
  | cons wc rest ih =>
    rw [harvestBatch]
    cases hok : wc.ok with
    | false =>
      have hp' : s.ledger.polled = s.ledger.handled + recvCount rest := by
        simpa [recvCount, hok] using hp
      exact (ih h hp').mono fun r t ht => ⟨ht.1, fun hall => by simp [hok] at hall⟩
    | true =>
      cases hop : wc.opcode with
      | recv =>
        refine wp.bind (handleAckRecv_spec (j := recvCount rest) h ?_) ?_
        · simpa [recvCount, hok, hop, List.countP_cons] using hp
        rintro _ t ⟨ht, hpt, -, hf⟩
        refine (ih ht hpt).mono ?_
        rintro r u ⟨hu, hr⟩
        exact ⟨⟨hu.live, hu.settled, hf.trans hu.frame⟩, fun hall => hr (by simp_all)⟩
      | rdmaWrite | send =>
        have hp' : s.ledger.polled = s.ledger.handled + recvCount rest := by
          simpa [recvCount, hok, hop] using hp
        exact (ih h hp').mono fun r t ht => ⟨ht.1, fun hall => ht.2 (by simp_all)⟩

theorem harvestCompletions_spec {site : Site} {blocking : Bool} (h : Live k s)
    (hs : s.ledger.polled = s.ledger.handled) (hW : WaitsFor s site) :
    Meets cfg W n (harvestCompletions site blocking)
      (fun r t => r < 0 ∧ ¬W.Reliable ∨ 0 ≤ r ∧ Harvest k s t) s := by
  unfold harvestCompletions
  refine meets_ask ⟨hs, hW⟩ fun r _ hr => ?_
  cases r with
  | none =>
    refine wp.done (.inl ⟨by decide, fun hrel => ?_⟩)
    obtain ⟨_, h0, -⟩ := hrel _ _ hr
    cases h0
  | some wcs =>
    have hlive : Live k (next (.waitCompletion site 16 (if blocking then 100 else 0)) s
        (some wcs)) := ⟨h.1, h.2, h.3, h.4, h.5, h.6, h.7, h.8⟩
    refine wp.bind (harvestBatch_spec (e := 0) (a := 0) hlive ?_) ?_
    · change s.ledger.polled + _ = s.ledger.handled + _
      rw [hs]
    rintro ⟨harvested, errors⟩ t ⟨ht, he⟩
    refine wp.guard (fun herr => .inl ⟨by decide, fun hrel => ?_⟩) fun _ => ?_
    · obtain ⟨_, h0, hall⟩ := hrel _ _ hr
      cases h0
      have : errors = 0 := he hall
      omega
    · refine wp.done (.inr ⟨Int.natCast_nonneg _, ht.live, ht.settled, ?_⟩)
      exact Harvested.trans (.polled wcs) ht.frame

/-! ## The polling loops -/

theorem waitForSlot_spec {x : Slot} (h : Live k s) (hx : Turn x s)
    (hs : s.ledger.polled = s.ledger.handled) :
    Meets cfg W n (waitForSlot x) (fun r t => r < 0 ∧ ¬W.Reliable ∨
      r = 0 ∧ Harvest k s t ∧ x ∉ t.ledger.unacked) s := by
  refine meets_recursion (fun _ : Unit => Call.waitForSlot x)
    (fun _ s => Live k s ∧ Turn x s ∧ s.ledger.polled = s.ledger.handled)
    (fun _ s r t => r < 0 ∧ ¬W.Reliable ∨
      r = 0 ∧ Harvest k s t ∧ x ∉ t.ledger.unacked) ?_ (i := ()) ⟨h, hx, hs⟩
  rintro n ih - s ⟨h, hturn, hs⟩
  change Meets cfg W n (waitForSlotBody x) _ s
  refine meets_get (wp.guard (fun hfree => ?_) fun hbusy => ?_)
  · exact .inr ⟨rfl, .refl h hs, (h.free x).mp hfree⟩
  · have hx : x ∈ s.ledger.unacked := by
      by_contra hx
      exact hbusy ((h.free x).mpr hx)
    refine wp.bind (harvestCompletions_spec h hs ⟨hx, hturn, h.booked⟩) ?_
    rintro r t (⟨hr, hrel⟩ | ⟨hr, ht⟩)
    · exact wp.guard (fun _ => .inl ⟨by decide, hrel⟩) fun hr' => absurd hr hr'
    · refine wp.guard (fun hr' => absurd hr (by omega)) fun _ => ?_
      refine (ih () t ⟨ht.live, hturn.harvested ht.frame, ht.settled⟩).mono ?_
      rintro r u (hr | ⟨hr, hu, hx⟩)
      · exact .inl hr
      · exact .inr ⟨hr, ht.trans hu, hx⟩

theorem drainPendingAcks_spec (h : Live k s) (hs : s.ledger.polled = s.ledger.handled) :
    Meets cfg W n drainPendingAcks (fun r t => r < 0 ∧ ¬W.Reliable ∨
      r = 0 ∧ Harvest k s t ∧ t.ledger.unacked = []) s := by
  refine meets_recursion (fun _ : Unit => Call.drainPendingAcks)
    (fun _ s => Live k s ∧ s.ledger.polled = s.ledger.handled)
    (fun _ s r t => r < 0 ∧ ¬W.Reliable ∨
      r = 0 ∧ Harvest k s t ∧ t.ledger.unacked = []) ?_ (i := ()) ⟨h, hs⟩
  rintro n ih - s ⟨h, hs⟩
  change Meets cfg W n drainPendingAcksBody _ s
  have hp := h.pending
  refine meets_get (wp.guard (fun hnone => ?_) fun hsome => ?_)
  · exact .inr ⟨rfl, .refl h hs, List.eq_nil_of_length_eq_zero (by omega)⟩
  · have hne : s.ledger.unacked ≠ [] := by
      intro h0
      simp [h0] at hp
      omega
    refine wp.bind (harvestCompletions_spec h hs hne) ?_
    rintro r t (⟨hr, hrel⟩ | ⟨hr, ht⟩)
    · exact wp.guard (fun _ => .inl ⟨by decide, hrel⟩) fun hr' => absurd hr hr'
    · refine wp.guard (fun hr' => absurd hr (by omega)) fun _ => ?_
      refine (ih () t ⟨ht.live, ht.settled⟩).mono ?_
      rintro r u (hr | ⟨hr, hu, hx⟩)
      · exact .inl hr
      · exact .inr ⟨hr, ht.trans hu, hx⟩

/-- A batch without a write completion leaves the write outstanding. -/
theorem writeBatch_spec {wcs : List Wc} {b : Bool} (h : Live k s)
    (hp : s.ledger.polled = s.ledger.handled + recvCount wcs) :
    Meets cfg W n (writeBatch wcs b) (fun r t =>
      r = none ∧ ¬(∀ wc ∈ wcs, wc.ok = true) ∨
      r = some (b || hasWrite wcs) ∧ Harvest k s t ∧
        t.ledger.writePending = s.ledger.writePending) s := by
  induction wcs generalizing s b with
  | nil => exact wp.done (.inr ⟨by simp [hasWrite], .refl h hp, rfl⟩)
  | cons wc rest ih =>
    rw [writeBatch]
    cases hok : wc.ok with
    | false => exact wp.done (.inl ⟨rfl, fun hall => by simp [hok] at hall⟩)
    | true =>
      cases hop : wc.opcode with
      | recv =>
        refine wp.bind (handleAckRecv_spec (j := recvCount rest) h ?_) ?_
        · simpa [recvCount, hok, hop, List.countP_cons] using hp
        rintro _ t ⟨ht, hpt, hwp, hf⟩
        refine (ih ht hpt).mono ?_
        rintro r u (⟨hr, hall⟩ | ⟨hr, hu, hw⟩)
        · exact .inl ⟨hr, fun h => hall (by simp_all)⟩
        · refine .inr ⟨by simp [hr, hasWrite, hop], ?_, hw.trans hwp⟩
          exact ⟨hu.live, hu.settled, hf.trans hu.frame⟩
      | rdmaWrite | send =>
        have hp' : s.ledger.polled = s.ledger.handled + recvCount rest := by
          simpa [recvCount, hok, hop] using hp
        refine (ih h hp').mono ?_
        rintro r u (⟨hr, hall⟩ | ⟨hr, hu⟩)
        · exact .inl ⟨hr, fun h => hall (by simp_all)⟩
        · exact .inr ⟨by simp [hr, hasWrite, hok, hop], hu⟩

theorem waitForRdmaWriteCompletion_spec (h : Live k s)
    (hs : s.ledger.polled = s.ledger.handled) (hw : s.ledger.writePending = true) :
    Meets cfg W n waitForRdmaWriteCompletion
      (fun r t => r < 0 ∧ ¬W.Reliable ∨ r = 0 ∧ Harvest k s t) s := by
  refine meets_recursion (fun _ : Unit => Call.waitForRdmaWriteCompletion)
    (fun _ s => Live k s ∧ s.ledger.polled = s.ledger.handled ∧ s.ledger.writePending = true)
    (fun _ s r t => r < 0 ∧ ¬W.Reliable ∨ r = 0 ∧ Harvest k s t) ?_ (i := ()) ⟨h, hs, hw⟩
  rintro n ih - s ⟨h, hs, hw⟩
  change Meets cfg W n waitForRdmaWriteCompletionBody _ s
  refine meets_ask ⟨hs, hw⟩ fun r _ hr => ?_
  have again : ∀ {t}, Harvest k s t → t.ledger.writePending = true →
      Meets cfg W n waitForRdmaWriteCompletion
        (fun r u => r < 0 ∧ ¬W.Reliable ∨ r = 0 ∧ Harvest k s u) t := by
    intro t ht hwt
    refine (ih () t ⟨ht.live, ht.settled, hwt⟩).mono ?_
    rintro r u (hr | ⟨hr, hu⟩)
    · exact .inl hr
    · exact .inr ⟨hr, ht.trans hu⟩
  match r with
  | none =>
    refine wp.done (.inl ⟨by decide, fun hrel => ?_⟩)
    obtain ⟨_, h0, -⟩ := hrel _ _ hr
    cases h0
  | some [] =>
    exact again ⟨⟨h.1, h.2, h.3, h.4, h.5, h.6, h.7, h.8⟩, hs, .polled []⟩
      (by simpa [next, hasWrite] using hw)
  | some (wc :: rest) =>
    have hlive : Live k (next (.waitCompletion .waitForRdmaWriteCompletion 16 100) s
        (some (wc :: rest))) := ⟨h.1, h.2, h.3, h.4, h.5, h.6, h.7, h.8⟩
    refine wp.bind (writeBatch_spec (b := false) hlive ?_) ?_
    · change s.ledger.polled + _ = s.ledger.handled + _
      rw [hs]
    rintro r t (⟨rfl, hbad⟩ | ⟨rfl, ht, hwt⟩)
    · refine wp.done (.inl ⟨by decide, fun hrel => ?_⟩)
      obtain ⟨_, h0, hall⟩ := hrel _ _ hr
      exact hbad (by cases h0; exact hall)
    · have hst : Harvest k s t := ⟨ht.live, ht.settled,
        Harvested.trans (.polled _) ht.frame⟩
      cases hwr : hasWrite (wc :: rest) with
      | true => exact wp.done (.inr ⟨rfl, hst⟩)
      | false => exact again hst (by simpa [next, hwr, hw] using hwt)

end ScpRdma.Sender

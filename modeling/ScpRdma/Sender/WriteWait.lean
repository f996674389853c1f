import ScpRdma.Sender.Completeness
import ScpRdma.Sender.Quiet

/-!
# Waiting for a write

All requests are signaled and complete with `wr_id` 0, and the completions of a send queue come in
posting order. `wait_for_rdma_write_completion` takes any successful write for the one that
`scp_rdma_send_sync` has just posted. The chunk loop does not wait for its writes, and
`drain_pending_acks` ends with the last ACK.
-/
namespace ScpRdma.Sender
open Foundations

/-- A request of the send queue. -/
inductive Request where
  | rdmaWrite
  | send
  deriving DecidableEq

/-- The request that a completion is for, if it is one of the send queue. -/
def Wc.request? (wc : Wc) : Option Request :=
  match wc.opcode with
  | .rdmaWrite => some .rdmaWrite
  | .send => some .send
  | .recv => none

/-- The `wr_id` of a receive completion. -/
def Wc.recvId? (wc : Wc) : Option Nat := if wc.opcode = .recv then some wc.wrId else none

/-- The requests whose completion was not polled, in posting order: those of the send queue, and the
`wr_id` of those of the receive queue. -/
structure Unpolled where
  sends : List Request
  recvs : List Nat

/-- Each queue completes in posting order, and in a batch the completions of the two mix freely. -/
def Unpolled.Completes (q : Unpolled) (wcs : List Wc) : Prop :=
  wcs.filterMap Wc.request? <+: q.sends ∧ wcs.filterMap Wc.recvId? <+: q.recvs

def Unpolled.poll (q : Unpolled) (wcs : List Wc) : Unpolled :=
  ⟨q.sends.drop (wcs.filterMap Wc.request?).length, q.recvs.drop (wcs.filterMap Wc.recvId?).length⟩

def Unpolled.next (q : Unpolled) : (o : Op) → Response o → Unpolled
  | .postWrite _ _ _, true => { q with sends := q.sends ++ [.rdmaWrite] }
  | .postSend _, true => { q with sends := q.sends ++ [.send] }
  | .postRecv _ wrId, true => { q with recvs := q.recvs ++ [wrId] }
  | .waitCompletion _ _ _, some wcs => q.poll wcs
  | _, _ => q

def InPostingOrder (q : Unpolled) : (o : Op) → Response o → Prop
  | .waitCompletion _ _ _, some wcs => q.Completes wcs
  | _, _ => True

abbrev Queued := State × Unpolled

/-- The sender over its two queues; everything else can happen. -/
def queued : Semantics signature Queued where
  allow o t r := (semantics .any).allow o t.1 r ∧ InPostingOrder t.2 o r
  next o t r := (next o t.1 r, t.2.next o r)

/-- No write completion is still to be polled. -/
def WritesPolled (t : Queued) : Prop := .rdmaWrite ∉ t.2.sends

/-- A run of `scp_rdma_send_sync` signals its packet only when the write it has posted was polled.
That is the last one, so no other is left either. -/
def SignalsOwnWrite (cfg : Config) (wr : TransWr) (t : Queued) : Prop :=
  ((scpRdmaSendSync wr).system (bodies cfg) queued t).Invariant fun c =>
    ∀ msg k, c.1 = .op (.postSend msg) k → WritesPolled c.2

/-- The call does not get to its write: there is no buffer for the ACK, or it waits for slot 0 while
no receive is posted. -/
def CannotPost (t : Queued) : Prop :=
  t.1.ctx.cdcRecvSlots = 0 ∨ t.1.ctx.slotFree 0 = false ∧ t.2.recvs = []

/-- What holds where the sender signals. -/
def signalDuties : Duties signature Queued where
  op
    | .postSend _, t => WritesPolled t
    | _, _ => True
  call _ _ := True

/-- The precondition of a part of the sender that must signal nothing too early. -/
abbrev Waits {α : Type} (cfg : Config) (n : Nat) (p : Sender α) (Q : α → Queued → Prop)
    (t : Queued) : Prop := wp (bodies cfg) queued signalDuties n p Q t

variable {cfg : Config} {wr : TransWr} {t u : Queued} {n : Nat} {α β : Type}

theorem waits_ask {o : Op} {f : Response o → Sender α} {Q : α → Queued → Prop}
    (hD : signalDuties.op o t)
    (h : ∀ r, queued.allow o t r → Waits cfg n (f r) Q (queued.next o t r)) :
    Waits cfg n (ask o >>= f) Q t := wp.op hD h

theorem waits_get {f : Ctx → Sender α} {Q : α → Queued → Prop} (h : Waits cfg n (f t.1.ctx) Q t) :
    Waits cfg n (get >>= f) Q t := by
  refine waits_ask trivial fun c hc => ?_
  obtain rfl : c = t.1.ctx := hc.1.1
  exact h

/-- A part that polls and posts receives signals nothing. -/
theorem waits_working {p : Sender α} {I : Queued → Prop} (hp : Working p) (ht : I t)
    (hI : ∀ o u r, Tends o → I u → I (queued.next o u r)) : Waits cfg n p (fun _ u => I u) t := by
  refine hp.wp_keeps (polls_working cfg) ?_ (fun _ _ _ => trivial) hI ht
  intro o u ho _
  cases o <;> trivial

/-! ## Polling -/

/-- At most one write is to be polled, and none if `done`. -/
structure Awaits (done : Prop) (t : Queued) : Prop where
  one : t.2.sends.count .rdmaWrite ≤ 1
  none : done → WritesPolled t

theorem Awaits.next {done : Prop} {o : Op} {x : Response o} (h : Awaits done t) (ho : Tends o) :
    Awaits done (queued.next o t x) := by
  cases o with
  | postRecv => cases x <;> exact ⟨h.one, h.none⟩
  | waitCompletion =>
    cases x with
    | none => exact ⟨h.one, h.none⟩
    | some wcs =>
      exact ⟨((List.drop_sublist _ _).count_le _).trans h.one,
        fun hd hmem => h.none hd (List.mem_of_mem_drop hmem)⟩
  | get | readCdc | update => exact ⟨h.one, h.none⟩
  | _ => exact ho.elim

/-- A batch that reports a write reports the last one. -/
theorem Awaits.poll {done : Prop} {wcs : List Wc} (h : Awaits done t) (hcomp : t.2.Completes wcs) :
    Awaits (.rdmaWrite ∈ wcs.filterMap Wc.request?) (t.1, t.2.poll wcs) := by
  obtain ⟨rest, hrest⟩ := hcomp.1
  have hdrop : (t.2.poll wcs).sends = rest := by
    rw [Unpolled.poll, ← hrest, List.drop_left]
  have hcount : (wcs.filterMap Wc.request?).count .rdmaWrite + rest.count .rdmaWrite ≤ 1 := by
    rw [← List.count_append, hrest]
    exact h.one
  constructor
  · rw [hdrop]
    omega
  · intro hwrite
    have hpos := List.count_pos_iff.mpr hwrite
    rw [WritesPolled, hdrop, ← List.count_eq_zero]
    omega

theorem writeBatch_waits {wcs : List Wc} {done : Bool}
    (h : Awaits (.rdmaWrite ∈ wcs.filterMap Wc.request? ∨ done = true) t) :
    Waits cfg n (writeBatch wcs done) (fun r u => Awaits (r = some true) u) t := by
  induction wcs generalizing done t with
  | nil => exact wp.done ⟨h.one, fun hd => h.none (.inr (Option.some.inj hd))⟩
  | cons wc wcs ih =>
    rw [writeBatch]
    split
    · exact wp.done ⟨h.one, by simp⟩
    cases hop : wc.opcode with
    | recv =>
      rw [List.filterMap_cons_none (by rw [Wc.request?, hop])] at h
      exact wp.bind (waits_working (handleAckRecv_working _) h fun _ _ _ ho hu => hu.next ho)
        fun _ u hu => ih hu
    | rdmaWrite =>
      rw [List.filterMap_cons_some (b := .rdmaWrite) (by rw [Wc.request?, hop])] at h
      exact ih ⟨h.one, fun _ => h.none (.inl List.mem_cons_self)⟩
    | send =>
      rw [List.filterMap_cons_some (b := .send) (by rw [Wc.request?, hop])] at h
      exact ih ⟨h.one, fun hd => h.none (hd.imp_left (List.mem_cons_of_mem _))⟩

theorem waitForRdmaWriteCompletion_waits (h : Awaits False t) :
    Waits cfg n waitForRdmaWriteCompletion (fun r u => Awaits (r = 0) u) t := by
  refine wp.recursion (S := signature) (fun _ : Unit => Call.waitForRdmaWriteCompletion)
    (fun _ => Awaits False) (fun _ _ (r : Int) u => Awaits (r = 0) u) 
    (fun _ _ _ => trivial) ?_ n () t h
  rintro n ih - t ht
  have again : ∀ {u}, Awaits False u →
      Waits cfg n waitForRdmaWriteCompletion (fun r u => Awaits (r = 0) u) u := fun hu => ih () _ hu
  refine waits_ask trivial fun r hr => ?_
  match r with
  | none => exact wp.done ⟨ht.one, nofun⟩
  | some [] => exact again (ht.next trivial)
  | some (wc :: wcs) =>
    have hpoll := ht.poll hr.2
    refine wp.bind
      (writeBatch_waits ⟨hpoll.one, fun hd => hpoll.none (hd.resolve_right nofun)⟩) ?_
    intro r u hu
    match r with
    | none => exact wp.done ⟨hu.one, nofun⟩
    | some true => exact wp.done ⟨hu.one, fun _ => hu.none rfl⟩
    | some false => exact again ⟨hu.one, False.elim⟩

/-- After the wait the packet is signaled, and its ACK waited for. -/
theorem scpRdmaSendSync_waits (h : WritesPolled t) :
    Waits cfg n (scpRdmaSendSync wr) (fun _ _ => True) t := by
  have hawaits : Awaits True t := ⟨(List.count_eq_zero.mpr h).le.trans zero_le_one, fun _ => h⟩
  have hnext : ∀ {done} o u r, Tends o → Awaits done u → Awaits done (queued.next o u r) :=
    fun _ _ _ ho hu => hu.next ho
  refine wp.bind (waits_working (waitForSlot_working 0) hawaits hnext) fun r u hu => ?_
  split
  · exact wp.done trivial
  refine wp.bind (waits_working (postAckRecv_working 0) hu hnext) fun r v hv => ?_
  split
  · exact wp.done trivial
  refine wp.bind (R := fun _ w => Awaits False w) ?_ fun r w hw => ?_
  · refine wp.bind (R := fun _ w => Awaits True w) ?_ fun sges w hw => ?_
    · cases wr.sges with
      | session => exact waits_ask trivial fun _ _ => wp.done ⟨hv.one, hv.none⟩
      | own sges => exact wp.done hv
    refine waits_ask trivial fun ok _ => ?_
    cases ok with
    | true =>
      refine wp.done ⟨?_, False.elim⟩
      have hnone : w.2.sends.count .rdmaWrite = 0 := List.count_eq_zero.mpr (hw.none trivial)
      change (w.2.sends ++ [Request.rdmaWrite]).count Request.rdmaWrite ≤ 1
      rw [List.count_append, hnone]
      rfl
    | false => exact waits_ask trivial fun _ _ => wp.done ⟨hw.one, False.elim⟩
  split
  · exact wp.done trivial
  refine wp.bind (waitForRdmaWriteCompletion_waits hw) fun r x hx => ?_
  split
  · exact wp.done trivial
  rename_i hr
  refine waits_ask trivial fun _ _ => waits_ask (hx.none (not_not.mp hr)) fun ok _ => ?_
  split
  · exact waits_ask trivial fun _ _ => wp.done trivial
  refine wp.bind (waits_working (I := fun _ => True) (waitForSlot_working 0) trivial
    fun _ _ _ _ _ => trivial) fun r _ _ => ?_
  split <;> exact wp.done trivial

/-- A batch without receive completions changes nothing. -/
theorem harvestBatch_sends {wcs : List Wc} (h : wcs.filterMap Wc.recvId? = [])
    (harvested errors : Nat) :
    ∃ e, harvestBatch wcs harvested errors = pure (harvested, e) := by
  induction wcs generalizing errors with
  | nil => exact ⟨errors, rfl⟩
  | cons wc wcs ih =>
    rw [List.filterMap_eq_nil_iff, List.forall_mem_cons] at h
    have hrest := ih (List.filterMap_eq_nil_iff.mpr h.2)
    rw [harvestBatch]
    split
    · exact hrest _
    cases hop : wc.opcode with
    | recv => simp [Wc.recvId?, hop] at h
    | rdmaWrite | send => exact hrest _

/-- Without a receive there is no ACK. -/
theorem waitForSlot_stuck (h : t.1.ctx.slotFree 0 = false ∧ t.2.recvs = []) :
    Waits cfg n (waitForSlot 0) (fun r _ => r < 0) t := by
  refine wp.recursion (S := signature) (fun _ : Unit => Call.waitForSlot 0)
    (fun _ t => t.1.ctx.slotFree 0 = false ∧ t.2.recvs = []) (fun _ _ (r : Int) _ => r < 0)
    (fun _ _ _ => trivial) ?_ n () t h
  rintro n ih - t ⟨hbusy, hnone⟩
  refine waits_get ?_
  rw [if_neg (by rw [hbusy]; exact Bool.false_ne_true)]
  refine wp.bind (R := fun _ u => u.1.ctx.slotFree 0 = false ∧ u.2.recvs = []) ?_
    fun r u hu => ?_
  · refine waits_ask trivial fun r hr => ?_
    cases r with
    | none => exact wp.done ⟨hbusy, hnone⟩
    | some wcs =>
      have hrecvs := hr.2.2
      rw [hnone, List.prefix_nil] at hrecvs
      obtain ⟨e, he⟩ := harvestBatch_sends hrecvs 0 0
      have hpoll : (t.2.poll wcs).recvs = [] := by rw [Unpolled.poll, hnone, List.drop_nil]
      dsimp only
      rw [he, Program.pure_bind]
      split <;> exact wp.done ⟨hbusy, hpoll⟩
  · split
    · exact wp.done (by decide)
    · exact ih () u hu

/-- A call that cannot post its write signals nothing. -/
theorem cannotPost_waits (h : CannotPost t) :
    Waits cfg n (scpRdmaSendSync wr) (fun _ _ => True) t := by
  rcases h with hring | hstuck
  · have hkeep : ∀ o (u : Queued) r, Tends o → u.1.ctx.cdcRecvSlots = 0 →
        (queued.next o u r).1.ctx.cdcRecvSlots = 0 := by
      intro o u r ho hu
      cases o with
      | update up => cases up <;> first | exact hu | exact ho.elim
      | postRecv | waitCompletion => cases r <;> exact hu
      | get | readCdc => exact hu
      | _ => exact ho.elim
    refine wp.bind (waits_working (waitForSlot_working 0) hring hkeep) fun r u hu => ?_
    split
    · exact wp.done trivial
    refine wp.bind (R := fun r _ => r = -1) ?_ fun r _ hr => ?_
    · refine wp.bind (R := fun r _ => r = none) ?_ fun r _ hr => ?_
      · refine waits_get ?_
        rw [if_pos hu]
        exact wp.done rfl
      · rw [hr]
        exact wp.done rfl
    · rw [if_pos (by rw [hr]; decide)]
      exact wp.done trivial
  · refine wp.bind (waitForSlot_stuck hstuck) fun r _ hr => ?_
    rw [if_pos hr]
    exact wp.done trivial

/-! ## A write that was left over -/

/-- The sender may get from `t` to `u` in a part that returns `a`. -/
abbrev Gives {α : Type} (cfg : Config) (p : Sender α) (t : Queued) (a : α) (u : Queued) : Prop :=
  Program.Returns (bodies cfg) queued p t a u

theorem gives_ask {o : Op} (r : Response o) (h : (semantics .any).allow o t.1 r)
    (hr : InPostingOrder t.2 o r) : Gives cfg (ask o) t r (queued.next o t r) :=
  .op r ⟨h, hr⟩ .done

theorem gives_get {f : Ctx → Sender α} {a : α} (h : Gives cfg (f t.1.ctx) t a u) :
    Gives cfg (get >>= f) t a u := .op t.1.ctx ⟨⟨rfl, trivial⟩, trivial⟩ h

theorem gives_update {v : Update} {f : Unit → Sender α} {a : α}
    (h : Gives cfg (f ()) ({ t.1 with ctx := v.apply t.1.ctx }, t.2) a u) :
    Gives cfg (update v >>= f) t a u := .op () ⟨⟨trivial, trivial⟩, trivial⟩ h

theorem gives_invoke {c : Call} {r : Int} (h : Gives cfg (bodies cfg c) t r u) :
    Gives cfg (invoke c) t r u := .call ((Program.bind_done (bodies cfg c)).symm ▸ h)

theorem waitForSlot_gives (h : t.1.ctx.slotFree 0 = true) : Gives cfg (waitForSlot 0) t 0 t := by
  refine gives_invoke (gives_get ?_)
  rw [if_pos h]
  exact .done

theorem handleAckRecv_gives {wrId : Nat} (hring : t.1.ctx.cdcRecvSlots ≠ 0)
    (hbusy : t.1.ctx.slotFree 0 = false) :
    ∃ u, Gives cfg (handleAckRecv wrId) t () u ∧ u.1.ctx.cdcRecvSlots ≠ 0 ∧
      u.1.ctx.slotFree 0 = true ∧ u.2 = t.2 := by
  let v : Queued := ({ t.1 with ctx := Update.consume.apply t.1.ctx }, t.2)
  let w : Queued := queued.next (.readCdc t.1.ctx.cdcRecvConsIdx) v (Cdc.dataReady 0)
  have hconsume : Gives cfg rdmaCdcConsumeBuf t (some t.1.ctx.cdcRecvConsIdx) v := by
    refine gives_get ?_
    rw [if_neg hring]
    exact gives_update .done
  have hread : Gives cfg (ask (.readCdc t.1.ctx.cdcRecvConsIdx)) v (Cdc.dataReady 0) w :=
    gives_ask _ ⟨trivial, trivial⟩ trivial
  refine ⟨({ w.1 with ctx := (Update.freeSlot 0).apply w.1.ctx }, w.2),
    .bind (.bind hconsume (.bind hread .done)) ?_, hring, ?_, rfl⟩
  · have hslot : slotOfInt ((Cdc.dataReady 0).slotId.toNat : Int) = some 0 := rfl
    rw [hslot]
    refine gives_get ?_
    rw [if_neg (by rw [show w.1.ctx.slotFree 0 = false from hbusy]; exact Bool.false_ne_true)]
    exact gives_update .done
  · exact Function.update_self (0 : Slot) true w.1.ctx.slotFree

/-- An ACK frees the slot, and leaves the send queue as it is. -/
theorem waitForSlot_gives_ack (hring : t.1.ctx.cdcRecvSlots ≠ 0) (hrecvs : t.2.recvs ≠ []) :
    ∃ u, Gives cfg (waitForSlot 0) t 0 u ∧ u.1.ctx.cdcRecvSlots ≠ 0 ∧ u.2.sends = t.2.sends := by
  cases hfree : t.1.ctx.slotFree 0 with
  | true => exact ⟨t, waitForSlot_gives hfree, hring, rfl⟩
  | false =>
    obtain ⟨wrId, rest, hwrId⟩ := List.exists_cons_of_ne_nil hrecvs
    let v : Queued :=
      queued.next (.waitCompletion (.waitForSlot 0) 16 100) t (some [⟨.recv, true, wrId⟩])
    obtain ⟨u, hu, hringu, hfreeu, hq⟩ := handleAckRecv_gives (t := v) hring hfree
    have hharvest : Gives cfg (harvestCompletions (.waitForSlot 0) true) t 1 u := by
      have hbatch : [(⟨.recv, true, wrId⟩ : Wc)].length ≤ 16 := Nat.le_of_ble_eq_true rfl
      refine Program.Returns.bind (gives_ask (o := .waitCompletion (.waitForSlot 0) 16 100)
        (some [⟨.recv, true, wrId⟩]) ⟨hbatch, trivial⟩ ?_) ?_
      · exact ⟨List.nil_prefix, hwrId ▸ ⟨rest, rfl⟩⟩
      · exact Program.Returns.bind (hu.bind .done) .done
    refine ⟨u, gives_invoke (gives_get ?_), hringu, hq ▸ rfl⟩
    rw [if_neg (by rw [hfree]; exact Bool.false_ne_true)]
    exact hharvest.bind (waitForSlot_gives hfreeu)

theorem postAckRecv_gives (hring : t.1.ctx.cdcRecvSlots ≠ 0) :
    ∃ u, Gives cfg (postAckRecv 0) t 0 u ∧ u.2.sends = t.2.sends := by
  have hacquire : Gives cfg rdmaCdcAcquirePostBuf t (some t.1.ctx.cdcRecvPostIdx)
      ({ t.1 with ctx := Update.acquire.apply t.1.ctx }, t.2) := by
    refine gives_get ?_
    rw [if_neg hring]
    exact gives_update .done
  exact ⟨_, hacquire.bind (.bind (gives_ask (o := .postRecv _ 0) true ⟨trivial, trivial⟩ trivial)
    .done), rfl⟩

theorem rdmaTransPost_gives (wr : TransWr) :
    ∃ u, Gives cfg (rdmaTransPost wr) t 0 u ∧ u.2.sends = t.2.sends ++ [.rdmaWrite] := by
  refine ⟨_, Program.Returns.bind (a := wr.sges.resolve t.1.ctx) (t := t) ?_
    (.bind (gives_ask (o := .postWrite _ _ _) true ⟨trivial, trivial⟩ trivial) .done), rfl⟩
  cases wr.sges with
  | session => exact gives_get .done
  | own sges => exact .done

/-- A completion of the send queue alone may be all that a poll brings. -/
theorem pollSend_gives {r : Request} {after : List Request} {w : Wc} (h : t.2.sends = r :: after)
    (hwc : Wc.request? w = some r) (hid : Wc.recvId? w = none) :
    ∃ u, Gives cfg (ask (.waitCompletion .waitForRdmaWriteCompletion 16 100)) t (some [w]) u ∧
      u.2.sends = after := by
  have hbatch : [w].length ≤ 16 := Nat.le_of_ble_eq_true rfl
  have hsends : [w].filterMap Wc.request? = [r] := List.filterMap_cons_some hwc
  have hrecvs : [w].filterMap Wc.recvId? = [] := List.filterMap_cons_none hid
  have hcomp : t.2.Completes [w] := by
    rw [Unpolled.Completes, hsends, hrecvs, h]
    exact ⟨⟨after, rfl⟩, List.nil_prefix⟩
  refine ⟨_, gives_ask (o := .waitCompletion _ 16 100) (some [w]) ⟨hbatch, trivial⟩ hcomp, ?_⟩
  change (t.2.poll [w]).sends = after
  rw [Unpolled.poll, hsends, h]
  rfl

/-- The wait may end with the first write in the queue. -/
theorem waitForRdmaWriteCompletion_gives {before after : List Request}
    (h : t.2.sends = before ++ .rdmaWrite :: after) (hsend : .rdmaWrite ∉ before) :
    ∃ u, Gives cfg waitForRdmaWriteCompletion t 0 u ∧ u.2.sends = after := by
  induction before generalizing t with
  | nil =>
    obtain ⟨u, hpoll, hu⟩ := pollSend_gives (w := ⟨.rdmaWrite, true, 0⟩) h rfl rfl
    exact ⟨u, gives_invoke (hpoll.bind .done), hu⟩
  | cons r before ih =>
    cases r with
    | rdmaWrite => exact absurd List.mem_cons_self hsend
    | send =>
      obtain ⟨u, hpoll, hu⟩ := pollSend_gives (w := ⟨.send, true, 0⟩) h rfl rfl
      obtain ⟨v, hwait, hv⟩ := ih hu fun hmem => hsend (List.mem_cons_of_mem _ hmem)
      exact ⟨v, gives_invoke (hpoll.bind hwait), hv⟩

/-- A write that was left over may end the wait. -/
theorem not_signalsOwnWrite (hleft : ¬ WritesPolled t) (hpost : ¬ CannotPost t) :
    ¬ SignalsOwnWrite cfg wr t := by
  intro hall
  rw [CannotPost, not_or, not_and_or] at hpost
  obtain ⟨hring, hslot⟩ := hpost
  obtain ⟨u, hwait, hringu, hu⟩ : ∃ u, Gives cfg (waitForSlot 0) t 0 u ∧
      u.1.ctx.cdcRecvSlots ≠ 0 ∧ u.2.sends = t.2.sends := by
    rcases hslot with hfree | hrecvs
    · exact ⟨t, waitForSlot_gives (Bool.not_eq_false _ ▸ hfree), hring, rfl⟩
    · exact waitForSlot_gives_ack hring hrecvs
  obtain ⟨v, hack, hv⟩ := postAckRecv_gives hringu
  obtain ⟨w, hwrite, hw⟩ := rdmaTransPost_gives (t := v) wr
  obtain ⟨before, after, hsplit, hsend⟩ := List.eq_append_cons_of_mem (not_not.mp hleft)
  have hqueue : w.2.sends = before ++ .rdmaWrite :: (after ++ [.rdmaWrite]) := by
    rw [hw, hv, hu, hsplit, List.append_assoc, List.cons_append]
  obtain ⟨x, hdone, hx⟩ := waitForRdmaWriteCompletion_gives hqueue hsend
  have hlast := hdone.past (hwrite.past (hack.past (hwait.past hall)))
  have hsignal := Program.now (Program.after hlast () ⟨⟨trivial, trivial⟩, trivial⟩)
  refine hsignal _ _ rfl ?_
  change .rdmaWrite ∈ x.2.sends
  rw [hx]
  exact List.mem_append_right _ (List.mem_singleton_self _)

/-- `scp_rdma_send_sync` signals its packet on the strength of its own write, in every run from a
state, exactly when no earlier write is still to be polled there, or else it does not get to its
write. -/
theorem signalsOwnWrite_iff (cfg : Config) (wr : TransWr) (t : Queued) :
    SignalsOwnWrite cfg wr t ↔ WritesPolled t ∨ CannotPost t := by
  constructor
  · intro hall
    by_contra hno
    rw [not_or] at hno
    exact not_signalsOwnWrite hno.1 hno.2 hall
  · intro h
    have hv : Verified (bodies cfg) queued signalDuties (scpRdmaSendSync wr) (fun _ _ => True) t :=
      fun _ => h.elim scpRdmaSendSync_waits cannotPost_waits
    rintro ⟨_, u⟩ hc msg k rfl
    have hop : Verified (bodies cfg) queued signalDuties (.op (.postSend msg) k) _ u := hv.runs _ hc
    exact hop.duty

/-! ## A file of one chunk -/

def startQueued : Queued := (initState, ⟨[], []⟩)

/-- The file has ten bytes. Every wait for a slot and the last one get an ACK, and nothing else; the
wait for a write gets that. -/
def chunkAnswers (o : Op) (t : Queued) : Option (Response o) :=
  match o with
  | .pread _ _ len off => some (some (((List.replicate 10 7).drop off).take len))
  | .waitCompletion .chunkLoop _ _ => some (some [])
  | .waitCompletion .waitForRdmaWriteCompletion (_ + 1) _ =>
    match t.2.sends with
    | .rdmaWrite :: _ => some (some [⟨.rdmaWrite, true, 0⟩])
    | _ => none
  | .waitCompletion _ (_ + 1) _ =>
    match t.2.recvs with
    | wrId :: _ => some (some [⟨.recv, true, wrId⟩])
    | [] => none
  | .waitCompletion _ _ _ => none
  | o => obliging o t.1

theorem chunkAnswers_allowed (o : Op) (t : Queued) (r : Response o)
    (h : chunkAnswers o t = some r) :
    queued.allow o t r := by
  unfold chunkAnswers at h
  split at h
  · cases h
    exact ⟨⟨List.length_take_le _ _, trivial⟩, trivial⟩
  · cases h
    exact ⟨⟨Nat.zero_le _, trivial⟩, List.nil_prefix, List.nil_prefix⟩
  · split at h
    · rename_i hsends
      cases h
      exact ⟨⟨Nat.le_add_left 1 _, trivial⟩, hsends ▸ ⟨_, rfl⟩, List.nil_prefix⟩
    · cases h
  · split at h
    · rename_i hrecvs
      cases h
      exact ⟨⟨Nat.le_add_left 1 _, trivial⟩, List.nil_prefix, hrecvs ▸ ⟨_, rfl⟩⟩
    · cases h
  · cases h
  · rename_i hread hloop hwrite hslot hwait
    refine ⟨⟨(obliging_allowed o t.1 r h).1, trivial⟩, ?_⟩
    cases o with
    | waitCompletion site maxWc timeoutMs => exact absurd rfl (hwait _ _ _)
    | _ => trivial

/-- Where `scp_send_file` ends. -/
def afterChunk : Sender Int × Queued :=
  Program.exec (bodies ⟨true, false⟩) queued chunkAnswers 150 (scpSendFile [97] [97], startQueued)

theorem afterChunk_result : afterChunk.1 = .done 0 :=
  Program.eq_done_of_result? (by decide +kernel)

/-- In a session the end packet is sent. -/
theorem signals_in_session {ctx : Ctx} {q : Sender Int} {k : Int → Sender Int}
    (hsession : ctx.sessionEstablished = true)
    (h : ((if ctx.sessionEstablished then (scpRdmaSendSync wr).bind k else q).system (bodies cfg)
      queued t).Invariant fun c => ∀ wr k, c.1 = (scpRdmaSendSync wr).bind k →
        SignalsOwnWrite cfg wr c.2) : SignalsOwnWrite cfg wr t := by
  rw [if_pos hsession] at h
  exact Program.now h _ _ rfl

/-- The wait may end with the completion of another write: that of the only chunk is not polled when
the file is done, and it may end the wait of the end packet. -/
theorem signals_leftover :
    ¬ ∀ (cfg : Config) (l r : Path),
      ((scpSenderRun cfg l r).system (bodies cfg) queued startQueued).Invariant fun c =>
        ∀ wr k, c.1 = (scpRdmaSendSync wr).bind k → SignalsOwnWrite cfg wr c.2 := by
  intro hall
  have hfile : Gives ⟨true, false⟩ (scpSendFile [97] [97]) startQueued 0 afterChunk.2 := by
    have hruns : ((scpSendFile [97] [97]).system (bodies ⟨true, false⟩) queued startQueued).Runs
        (scpSendFile [97] [97], startQueued) afterChunk :=
      Program.exec_runs chunkAnswers_allowed 150 _
    rwa [show afterChunk = (.done 0, afterChunk.2) from Prod.ext afterChunk_result rfl] at hruns
  have hstat : (semantics .any).allow (.stat [97]) initState (some ⟨.regular, 10, 0⟩) :=
    ⟨show 10 < 2 ^ 63 by decide, trivial⟩
  have hstart := Program.after (Program.after (hall ⟨true, false⟩ [97] [97])
    (some ⟨.regular, 10, 0⟩) ⟨hstat, trivial⟩) (some ⟨.regular, 10, 0⟩) ⟨hstat, trivial⟩
  have hend := Program.after (Program.after (Program.after (hfile.past hstart) ()
    ⟨⟨trivial, trivial⟩, trivial⟩) () ⟨⟨trivial, trivial⟩, trivial⟩) _ ⟨⟨rfl, trivial⟩, trivial⟩
  have hsession : afterChunk.2.1.ctx.sessionEstablished = true := by decide +kernel
  have hleft : .rdmaWrite ∈ afterChunk.2.2.sends := by decide +kernel
  have hring : afterChunk.2.1.ctx.cdcRecvSlots ≠ 0 := by decide +kernel
  have hfree : afterChunk.2.1.ctx.slotFree 0 = true := by decide +kernel
  have hsignal := signals_in_session (q := pure 0) hsession hend
  rcases (signalsOwnWrite_iff _ _ _).mp hsignal with hpolled | hzero | ⟨hbusy, -⟩
  · exact hpolled hleft
  · exact hring hzero
  · exact Bool.false_ne_true (hbusy.symm.trans hfree)

end ScpRdma.Sender

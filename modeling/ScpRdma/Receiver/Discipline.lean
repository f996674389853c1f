import ScpRdma.Receiver.Decoding

/-!
# The receiver keeps its discipline

Where a peer announces the packets of a feed, the receiving program meets its duties: each
packet is handled before its acknowledgement, and the receive of the next one is posted
first. `Ready` is the state at the head of the loop.
-/
namespace ScpRdma.Receiver
open Foundations

variable {F : Type} {M : Semantics fileSignature F} {pkts : Feed} {outputDir : Option Path}
  {os₀ : F} {n : Nat} {α : Type} {Q : α → State F → Prop} {s t u : State F}

/-! ## The session -/

/-- Before the session: nothing was posted. -/
structure Fresh (s : State F) : Prop where
  slots : s.ctx.cdcRecvSlots = 0
  qp : s.qp = .reset
  posted : s.ledger.posted = 0
  polled : s.ledger.polled = 0
  acked : s.ledger.acked = []
  current : s.ledger.current = none
  session : s.ctx.sessionEstablished = false

/-- In a session: eight receives are posted ahead of the acknowledged packets, `k` of them were
polled and consumed. -/
structure Live (k : Nat) (s : State F) : Prop where
  slots : s.ctx.cdcRecvSlots = rdmaCdcRecvSlots
  postIdx : s.ctx.cdcRecvPostIdx = s.ledger.posted % rdmaCdcRecvSlots
  consIdx : s.ctx.cdcRecvConsIdx = (s.ledger.acked.length + k) % rdmaCdcRecvSlots
  posted : s.ledger.posted = s.ledger.acked.length + rdmaCdcRecvSlots
  polled : s.ledger.polled = s.ledger.acked.length + k
  credits : s.ctx.localCredits = (rdmaCdcRecvSlots : Int) - k
  session : s.ctx.sessionEstablished = true

/-- At the head of the loop, in a session. -/
structure Ready (s : State F) : Prop extends Live 0 s where
  current : s.ledger.current = none

/-- What setting up a session leaves as it was. -/
structure Kept (s t : State F) : Prop where
  os : t.os = s.os
  acked : t.ledger.acked = s.ledger.acked
  current : t.ledger.current = s.ledger.current
  metaType : t.ctx.metaType = s.ctx.metaType

/-- The buffers are registered, and `k` receives are posted. -/
structure Window (k : Nat) (s t : State F) : Prop extends Kept s t where
  slots : t.ctx.cdcRecvSlots = rdmaCdcRecvSlots
  postIdx : t.ctx.cdcRecvPostIdx = k % rdmaCdcRecvSlots
  consIdx : t.ctx.cdcRecvConsIdx = 0
  posted : t.ledger.posted = k
  polled : t.ledger.polled = 0

theorem mrCreate_spec : Serves M pkts outputDir os₀ n (Session.mrCreate verbs)
    (fun _ t => t = s ∨ t = { s with ctx := Update.cdcBuffers.apply s.ctx }) s := by
  refine meets_ask trivial fun ok _ _ => ?_
  cases ok with
  | false => exact wp.done (.inl rfl)
  | true => exact meets_update trivial (wp.done (.inr rfl))

/-- Acquire the next buffer and post it, when that is due. -/
theorem postNextRecv_spec (hslots : s.ctx.cdcRecvSlots = rdmaCdcRecvSlots)
    (hidx : s.ctx.cdcRecvPostIdx = s.ledger.posted % rdmaCdcRecvSlots)
    (hdue : s.ledger.posted ≤ s.ledger.acked.length + rdmaCdcRecvSlots)
    (hroom : s.ledger.posted < s.ledger.polled + rdmaCdcRecvSlots) :
    Serves M pkts outputDir os₀ n postNextRecv (fun ok t => ok = true → t = { s with
      ctx := Update.acquire.apply s.ctx
      ledger := { s.ledger with posted := s.ledger.posted + 1 } }) s := by
  refine wp.bind (R := fun r t => r = some (s.ledger.posted % rdmaCdcRecvSlots) ∧
    t = { s with ctx := Update.acquire.apply s.ctx }) ?_ ?_
  · refine meets_get trivial (wp.guard (fun h0 => ?_) fun _ => ?_)
    · simp [hslots, rdmaCdcRecvSlots] at h0
    · exact meets_update trivial (wp.done ⟨by rw [hidx], rfl⟩)
  rintro _ _ ⟨rfl, rfl⟩
  refine wp.op ⟨rfl, hdue, hroom⟩ fun ok _ => wp.done ?_
  rintro rfl
  rfl

theorem connectQp_spec (h : Fresh s) {c : Ctx}
    (hc : c = s.ctx ∨ c = Update.cdcBuffers.apply s.ctx) :
    Serves M pkts outputDir os₀ n (Session.connectQp verbs) (fun r t => r = 0 → Window 1 s t)
      { s with ctx := c } := by
  refine meets_ask trivial fun ok _ _ => ?_
  cases ok with
  | false => exact wp.done nofun
  | true =>
  refine meets_ask trivial fun st hst _ => ?_
  cases st with
  | none => exact wp.done nofun
  | some st =>
  obtain rfl : st = .reset := Eq.trans hst h.qp
  refine wp.guard (fun hne => absurd rfl hne) fun _ => ?_
  refine meets_ask trivial fun ok _ _ => ?_
  cases ok with
  | false => exact wp.done nofun
  | true =>
  obtain rfl | rfl := hc
  · refine wp.bind (R := fun r _ => r = none) ?_ ?_
    · exact meets_get trivial (wp.guard (fun _ => rfl) fun hne => absurd h.slots hne)
    rintro _ t rfl
    exact meets_ask trivial fun r => nomatch r
  refine wp.bind (R := fun r t => r = some 0 ∧
    t = { s with qp := .init, ctx := Update.acquire.apply (Update.cdcBuffers.apply s.ctx) }) ?_ ?_
  · refine meets_get trivial (wp.guard (fun h0 => absurd h0 (Nat.succ_ne_zero 7)) fun _ => ?_)
    exact meets_update trivial (wp.done ⟨rfl, rfl⟩)
  rintro _ _ ⟨rfl, rfl⟩
  refine meets_ask ⟨by simp [h.posted], by simp [h.posted], ?_⟩ fun ok _ _ => ?_
  · simp [h.posted, rdmaCdcRecvSlots]
  cases ok with
  | false => exact wp.done nofun
  | true =>
  refine meets_ask (o := .modifyQp .rtr) (Nat.succ_le_succ (Nat.zero_le _)) fun ok _ _ => ?_
  cases ok with
  | false => exact wp.done nofun
  | true =>
  refine meets_ask (o := .modifyQp .rts) (Nat.succ_le_succ (Nat.zero_le _)) fun ok _ _ => ?_
  cases ok with
  | false => exact wp.done nofun
  | true =>
  refine wp.done fun _ => ⟨⟨rfl, rfl, rfl, rfl⟩, rfl, rfl, rfl, ?_, h.polled⟩
  simp [next, h.posted]

theorem rdmaTransInit_spec (h : Fresh s) :
    Serves M pkts outputDir os₀ n (Session.rdmaTransInit verbs)
      (fun r t => r = 0 → Window 1 s t) s := by
  refine wp.bind mrCreate_spec fun mr t ht => ?_
  obtain ⟨c, hc, rfl⟩ : ∃ c, (c = s.ctx ∨ c = Update.cdcBuffers.apply s.ctx) ∧
      t = { s with ctx := c } := by
    obtain rfl | rfl := ht
    · exact ⟨_, .inl rfl, rfl⟩
    · exact ⟨_, .inr rfl, rfl⟩
  refine wp.bind (connectQp_spec h hc) fun qp u hu => ?_
  split
  · exact meets_ask trivial fun _ _ _ => wp.done nofun
  · rename_i hok
    exact wp.done fun _ => hu (not_not.mp fun hq => hok (.inr hq))

theorem extendWindow_spec {extra k : Nat} (h : Window k s t)
    (hest : t.ctx.sessionEstablished = true) (hk : k + extra ≤ rdmaCdcRecvSlots) :
    Serves M pkts outputDir os₀ n (extendWindow extra) (fun ok u => ok = true →
      Window (k + extra) s u ∧ u.ctx.sessionEstablished = true) t := by
  induction extra generalizing k t with
  | zero => exact wp.done fun _ => ⟨h, hest⟩
  | succ extra ih =>
    have hdue : t.ledger.posted ≤ t.ledger.acked.length + rdmaCdcRecvSlots := by
      rw [h.posted]
      omega
    have hroom : t.ledger.posted < t.ledger.polled + rdmaCdcRecvSlots := by
      rw [h.posted, h.polled]
      omega
    refine wp.bind (postNextRecv_spec h.slots (by rw [h.postIdx, h.posted]) hdue hroom) ?_
    rintro ok u hu
    cases ok with
    | false => exact wp.done nofun
    | true =>
      obtain rfl := hu rfl
      rw [show k + (extra + 1) = k + 1 + extra by omega] at hk ⊢
      refine ih ⟨⟨h.os, h.acked, h.current, h.metaType⟩, h.slots, ?_, h.consIdx, ?_, h.polled⟩
        hest hk
      · simp [Update.apply, h.postIdx, h.slots]
      · simp [h.posted]

/-- The context in which the session starts. -/
theorem scpPrepareReceiveResources_spec (h : Fresh s) :
    Serves M pkts outputDir os₀ n scpPrepareReceiveResources
      (fun r t => r = 0 → Window 1 s t) s := by
  have rest : ∀ {t : State F}, Fresh t → Kept s t →
      Serves M pkts outputDir os₀ n (do
        if !(← sockEstablished) then
          return -1
        if (← Session.rdmaTransInit verbs) ≠ 0 then
          return -1
        return 0) (fun r u => r = 0 → Window 1 s u) t := by
    intro t ht hkept
    refine meets_ask trivial fun ok _ _ => ?_
    cases ok with
    | false => exact wp.done nofun
    | true =>
      refine wp.bind (rdmaTransInit_spec ht) fun r u hu => ?_
      refine wp.guard (fun _ => nofun) fun hr => wp.done fun _ => ?_
      obtain ⟨⟨h1, h2, h3, h4⟩, h5, h6, h7, h8, h9⟩ := hu (not_not.mp hr)
      exact ⟨⟨h1.trans hkept.os, h2.trans hkept.acked, h3.trans hkept.current,
        h4.trans hkept.metaType⟩, h5, h6, h7, h8, h9⟩
  unfold scpPrepareReceiveResources
  refine meets_get trivial ?_
  split
  · refine meets_ask trivial fun ok _ _ => ?_
    cases ok with
    | false => exact wp.done nofun
    | true =>
      refine meets_update trivial (rest ⟨h.1, h.2, h.3, h.4, h.5, h.6, h.7⟩ ⟨rfl, rfl, rfl, rfl⟩)
  · exact rest h ⟨rfl, rfl, rfl, rfl⟩

theorem establishSession_spec (h : Fresh s ∨ Ready s) :
    Serves M pkts outputDir os₀ n establishSession
      (fun ok t => ok = true → Ready t ∧ Kept s t) s := by
  unfold establishSession
  refine meets_get trivial (wp.guard (fun hest _ => ?_) fun hnot => ?_)
  · obtain h | h := h
    · simp [h.session] at hest
    · exact ⟨h, rfl, rfl, rfl, rfl⟩
  have hf : Fresh s := h.resolve_right fun hr => hnot hr.session
  refine wp.bind (scpPrepareReceiveResources_spec hf) fun r t ht => ?_
  refine wp.guard (fun _ => nofun) fun hr => ?_
  have ht := ht (not_not.mp hr)
  refine meets_update trivial (meets_get trivial ?_)
  have ht' : Window 1 s { t with ctx := Update.establish.apply t.ctx } :=
    ⟨⟨ht.os, ht.acked, ht.current, ht.metaType⟩, ht.slots, ht.postIdx, ht.consIdx, ht.posted,
      ht.polled⟩
  refine wp.bind (extendWindow_spec ht' rfl ?_) fun ok u hu => ?_
  · simp [Update.apply, ht.slots, rdmaCdcRecvSlots]
  cases ok with
  | false => exact wp.done nofun
  | true =>
  obtain ⟨hu, hsession⟩ := hu rfl
  have hposted := hu.posted
  have hacked : u.ledger.acked = [] := hu.acked.trans hf.acked
  simp only [Update.apply, ht.slots, rdmaCdcRecvSlots] at hposted
  refine meets_get trivial (meets_update trivial (wp.done fun _ => ⟨⟨?_, ?_⟩, ?_⟩))
  · refine ⟨hu.slots, ?_, ?_, ?_, ?_, ?_, hsession⟩
    · simp [Update.apply, hu.postIdx, ht.slots, hposted, rdmaCdcRecvSlots]
    · simp [Update.apply, hu.consIdx, hacked]
    · simp [hposted, hacked, rdmaCdcRecvSlots]
    · simp [hu.polled, hacked]
    · simp [Update.apply, hu.slots]
  · exact hu.current.trans hf.current
  · exact ⟨hu.os, hu.acked, hu.current, hu.metaType⟩

/-! ## One iteration of the loop -/

theorem rdmaCdcCompletion_spec (h : Ready s) :
    Serves M pkts outputDir os₀ n rdmaCdcCompletion (fun r t => r = 0 →
      t = { s with ledger := { s.ledger with polled := s.ledger.polled + 1 } }) s := by
  have hduty : CallDuty .cdcCompletion s := by
    have := h.credits
    have := h.posted
    have := h.polled
    simp only [CallDuty]
    omega
  refine wp.recursion (S := signature) (fun _ : Unit => Call.cdcCompletion) (fun _ t => t = s)
    (fun _ _ (r : Int) t => r = 0 →
      t = { s with ledger := { s.ledger with polled := s.ledger.polled + 1 } })
    ?_ ?_ n () s rfl
  · rintro _ _ rfl
    exact hduty
  rintro n ih ⟨⟩ _ rfl
  refine meets_ask ⟨h.current, h.polled, h.posted⟩ fun r _ _ => ?_
  obtain _ | _ | ⟨opcode, ok, wrId⟩ := r
  · exact wp.done nofun
  · exact ih () _ rfl
  · cases ok with
    | false => exact wp.done nofun
    | true =>
      cases opcode with
      | recv => exact wp.done fun _ => rfl
      | rdmaWrite | send => exact ih () _ rfl

theorem rdmaCdcConsumeBuf_spec (h : s.ctx.cdcRecvSlots = rdmaCdcRecvSlots) :
    Serves M pkts outputDir os₀ n rdmaCdcConsumeBuf (fun r t =>
      r = some s.ctx.cdcRecvConsIdx ∧ t = { s with ctx := Update.consume.apply s.ctx }) s := by
  refine meets_get trivial (wp.guard (fun h0 => ?_) fun _ => ?_)
  · simp [h, rdmaCdcRecvSlots] at h0
  · exact meets_update trivial (wp.done ⟨rfl, rfl⟩)

/-- A receive was polled and consumed, and its packet is not acknowledged yet. -/
structure Taken (s : State F) : Prop extends Live 1 s where
  current : s.ledger.current = none

theorem scpValidateHeader_encode (p : Packet) :
    scpValidateHeader (field p.encode 0 packetHeaderSize) = 0 := by
  have hmagic : leNat (field (field p.encode 0 packetHeaderSize) 0 4) = scpProtocolMagic := by
    rw [field_field (by decide), p.field_magic]
    rfl
  have hversion : leNat (field (field p.encode 0 packetHeaderSize) 4 1) = scpProtocolVersion := by
    rw [field_field (by decide), p.field_version]
    rfl
  rw [scpValidateHeader, if_neg (not_not.mpr hmagic), if_neg (not_not.mpr hversion)]

theorem cmdType_encode (p : Packet) :
    cmdType (field p.encode 0 packetHeaderSize) = p.cmd.byte.toNat := by
  rw [cmdType, field_field (by decide), p.field_cmd]
  simp [leNat]

theorem slotOffset_slot (x : Slot) : slotOffset (UInt8.ofNat x.val) = pure (slotBase x) := by
  have hx : (UInt8.ofNat x.val).toNat = x.val := by
    simp only [UInt8.toNat_ofNat']
    omega
  rw [slotOffset, hx, scpCombinedChunkSize_eq, if_pos (by omega), slotBase, scpCombinedChunkSize_eq]

theorem cmd_eq_transferEnd (p : Packet) :
    p.cmd.byte.toNat = CmdType.transferEnd.byte.toNat ↔ p = .transferEnd := by
  cases p <;> simp [Packet.cmd, CmdType.byte]

/-- The state at the end of an iteration, in which the packet was acknowledged. -/
structure Next (M : Semantics fileSignature F) (pkts : Feed) (outputDir : Option Path) (os₀ : F)
    (loc : Locals) (s : State F) : Prop extends Ready s where
  served : Served M pkts outputDir os₀ s.ledger.acked.length ⟨loc, s.ctx.metaType⟩ s.os

theorem Served.packet {k : Nat} {v w : View} {τ : Tally} {os os' : F}
    (h : Served M pkts outputDir os₀ k v os)
    (hp : Program.Outcome M (applyPacket v (pkts k).2) os (w, τ) os') :
    Served M pkts outputDir os₀ (k + 1) w os' := by
  obtain ⟨hbase, happlied⟩ := h
  exact ⟨hbase, .packet happlied hp⟩

/-- The state after one more receive was posted and counted. -/
def State.reposted (s : State F) : State F := { s with
  ctx := (Update.setCredits (s.ctx.localCredits + 1)).apply (Update.acquire.apply s.ctx)
  ledger := { s.ledger with posted := s.ledger.posted + 1 } }

theorem repost_spec {isEndPacket : Bool} (h : Live 1 s) :
    Serves M pkts outputDir os₀ n (repost isEndPacket) (fun ok t => ok = true →
      t = if isEndPacket then s else s.reposted) s := by
  cases isEndPacket with
  | true => exact wp.done fun _ => rfl
  | false =>
    have hroom : s.ledger.posted < s.ledger.polled + rdmaCdcRecvSlots := by
      rw [h.posted, h.polled]
      omega
    refine wp.bind (postNextRecv_spec h.slots h.postIdx h.posted.le hroom) fun ok t ht => ?_
    cases ok with
    | false => exact wp.done nofun
    | true =>
      obtain rfl := ht rfl
      exact meets_get trivial (meets_update trivial (wp.done fun _ => rfl))

theorem sendAck_spec {x : Slot} {p : Packet} {buf : Nat} {v : View} (h : InHand pkts x p s)
    (hbuf : buf = s.ledger.acked.length % rdmaCdcRecvSlots)
    (hposted : s.ledger.acked.length + rdmaCdcRecvSlots ≤ s.ledger.posted)
    (hserved : Served M pkts outputDir os₀ (s.ledger.acked.length + 1) v s.os) :
    Serves M pkts outputDir os₀ n (sendAck buf (UInt8.ofNat x.val)) (fun ok t => ok = true →
      t = { s with ledger := s.ledger.acknowledge }) s := by
  obtain ⟨loads, hcur⟩ := h.current
  have hkeep : ∀ msg, next M (.readCdc buf) s msg = s := by
    intro msg
    simp [next, Ledger.receive, hcur]
  refine meets_get trivial (meets_ask ⟨hbuf, fun h0 => absurd h0 h.ne_none⟩ fun msg _ _ => ?_)
  rw [hkeep]
  refine wp.op ⟨⟨_, hcur, rfl⟩, hposted, v, hserved⟩ fun ok _ => wp.done ?_
  rintro rfl
  rfl

/-- The acknowledged packet is behind the receiver. -/
theorem Live.acknowledged {x : Slot} {p : Packet} (h : Live 1 s) (hin : InHand pkts x p s) :
    Ready { s.reposted with ledger := s.reposted.ledger.acknowledge } := by
  obtain ⟨loads, hcur⟩ := hin.current
  have hacked : (s.reposted.ledger.acknowledge).acked.length = s.ledger.acked.length + 1 := by
    simp [Ledger.acknowledge, State.reposted, hcur]
  refine ⟨⟨h.slots, ?_, ?_, ?_, ?_, ?_, h.session⟩, rfl⟩
  · simp [State.reposted, Update.apply, h.slots, h.postIdx, Ledger.acknowledge]
  · rw [hacked]
    exact h.consIdx
  · rw [hacked]
    have := h.posted
    simp only [State.reposted, Ledger.acknowledge]
    omega
  · rw [hacked]
    exact h.polled
  · simp [State.reposted, Update.apply, h.credits]

theorem Live.handled {k : Nat} {x : Slot} {p : Packet} {loc loc' : Locals} (h : Live k s)
    (ht : Handled M pkts x p loc s loc' t) : Live k t := by
  obtain ⟨τ, -, hctx⟩ := ht.effect
  have hposted : t.ledger.posted = s.ledger.posted := by rw [ht.ledger]
  have hpolled : t.ledger.polled = s.ledger.polled := by rw [ht.ledger]
  have hacked : t.ledger.acked = s.ledger.acked := by rw [ht.ledger]
  refine ⟨(congrArg Ctx.cdcRecvSlots hctx).trans h.slots, ?_, ?_, ?_, ?_,
    (congrArg Ctx.localCredits hctx).trans h.credits,
    (congrArg Ctx.sessionEstablished hctx).trans h.session⟩
  · rw [hposted]
    exact (congrArg Ctx.cdcRecvPostIdx hctx).trans h.postIdx
  · rw [hacked]
    exact (congrArg Ctx.cdcRecvConsIdx hctx).trans h.consIdx
  · rw [hposted, hacked, h.posted]
  · rw [hpolled, hacked, h.polled]

theorem serves_header {x : Slot} {p : Packet} {f : Bytes → Receiver α} (h : InHand pkts x p s)
    (hf : ∀ c, InHand pkts x p (s.hold c) →
      Serves M pkts outputDir os₀ n (f (field p.encode 0 packetHeaderSize)) Q (s.hold c)) :
    Serves M pkts outputDir os₀ n (load (slotBase x) packetHeaderSize >>= f) Q s := by
  rw [← Nat.add_zero (slotBase x)]
  refine serves_load h ?_ hf
  rw [Nat.zero_add]
  exact p.packetHeaderSize_le

theorem handleSignal_spec {loc : Locals} (h : Taken s) (hfit : ∀ i, (pkts i).2.Fits)
    (hserved : Served M pkts outputDir os₀ s.ledger.acked.length ⟨loc, s.ctx.metaType⟩ s.os) :
    Serves M pkts outputDir os₀ n (handleSignal loc (s.ledger.acked.length % rdmaCdcRecvSlots))
      (fun r t => ∀ loc', r = some loc' → Next M pkts outputDir os₀ loc' t) s := by
  obtain ⟨⟨x, p⟩, hp⟩ : ∃ e, pkts s.ledger.acked.length = e := ⟨_, rfl⟩
  have hfit := hfit s.ledger.acked.length
  rw [hp] at hfit
  unfold handleSignal
  refine meets_ask ⟨rfl, fun _ => ⟨h.polled, h.posted⟩⟩ fun msg _ hmsg => ?_
  have hslot : msg.slotId = UInt8.ofNat x.val := by
    have := hmsg h.current
    rwa [hp] at this
  rw [show next M (.readCdc (s.ledger.acked.length % rdmaCdcRecvSlots)) s msg =
    s.hold (some ⟨UInt8.ofNat x.val, []⟩) by
      simp [next, Ledger.receive, h.current, hslot, State.hold]]
  have h₁ : InHand pkts x p (s.hold (some ⟨UInt8.ofNat x.val, []⟩)) := ⟨⟨[], rfl⟩, hp⟩
  rw [hslot]
  unfold handlePacket
  rw [slotOffset_slot]
  change Serves M pkts outputDir os₀ n (load (slotBase x) packetHeaderSize >>= _) _ _
  refine serves_header h₁ fun c h₂ => ?_
  rw [if_neg (not_not.mpr (scpValidateHeader_encode p)), cmdType_encode]
  refine wp.bind (handleCommand_spec h₂ hfit) fun loc' t ht => ?_
  obtain ⟨τ, hout, -⟩ := ht.effect
  have hlive : Live 1 t := Live.handled (s := (s.hold _).hold c)
    ⟨h.slots, h.postIdx, h.consIdx, h.posted, h.polled, h.credits, h.session⟩ ht
  have hacked : t.ledger.acked = s.ledger.acked := by rw [ht.ledger]; rfl
  have hnext : Served M pkts outputDir os₀ (t.ledger.acked.length + 1) ⟨loc', t.ctx.metaType⟩
      t.os := by
    rw [hacked]
    exact hserved.packet (τ := τ) (by rw [hp]; exact hout)
  refine wp.bind (repost_spec hlive) fun ok u hu => ?_
  cases ok with
  | false => exact wp.done (by simp)
  | true =>
  obtain rfl := hu rfl
  have hposted := hlive.posted
  by_cases hend : p = .transferEnd
  · rw [decide_eq_true ((cmd_eq_transferEnd p).mpr hend)]
    refine wp.bind (sendAck_spec ht.inHand (hacked ▸ rfl) hposted.ge hnext) fun ok u _ => ?_
    exact wp.guard (fun _ => by simp) fun _ => wp.done (by simp)
  · rw [decide_eq_false (mt (cmd_eq_transferEnd p).mp hend)]
    have hin : InHand pkts x p t.reposted := ⟨ht.inHand.1, ht.inHand.2⟩
    have hmore : t.reposted.ledger.acked.length + rdmaCdcRecvSlots ≤ t.reposted.ledger.posted := by
      simp only [State.reposted]
      omega
    refine wp.bind (sendAck_spec hin (hacked ▸ rfl) hmore hnext) fun ok u hu => ?_
    cases ok with
    | false => exact wp.done (by simp)
    | true =>
      obtain rfl := hu rfl
      refine wp.done fun loc'' hloc => ?_
      obtain rfl : loc' = loc'' := Option.some.inj hloc
      refine ⟨hlive.acknowledged ht.inHand, ?_⟩
      obtain ⟨loads, hcur⟩ := ht.inHand.current
      have : t.reposted.ledger.acknowledge.acked.length = t.ledger.acked.length + 1 := by
        simp [Ledger.acknowledge, State.reposted, hcur]
      change Served M pkts outputDir os₀ t.reposted.ledger.acknowledge.acked.length _ _
      rw [this]
      exact hnext

/-! ## The loop and the whole run -/

/-- At the head of the loop, before the session or in it. -/
structure Head (M : Semantics fileSignature F) (pkts : Feed) (outputDir : Option Path) (os₀ : F)
    (loc : Locals) (s : State F) : Prop where
  phase : Fresh s ∨ Ready s
  served : Served M pkts outputDir os₀ s.ledger.acked.length ⟨loc, s.ctx.metaType⟩ s.os

theorem Head.credits {loc : Locals} (h : Head M pkts outputDir os₀ loc s) :
    CallDuty (.receiveLoop loc) s := by
  intro hest
  obtain h | h := h.phase
  · simp [h.session] at hest
  · have := h.credits
    have := h.posted
    have := h.polled
    omega

theorem receiveLoop_spec {loc : Locals} (hfit : ∀ i, (pkts i).2.Fits)
    (h : Head M pkts outputDir os₀ loc s) :
    Serves M pkts outputDir os₀ n (receiveLoop loc) (fun _ _ => True) s := by
  refine wp.recursion (S := signature) Call.receiveLoop (Head M pkts outputDir os₀)
    (fun _ _ _ _ => True) (fun _ _ h => h.credits) ?_ n loc s h
  intro n ih loc s h
  refine wp.bind (establishSession_spec h.phase) fun ok t ht => ?_
  cases ok with
  | false => exact wp.done trivial
  | true =>
  obtain ⟨hready, hkept⟩ := ht rfl
  have hserved : Served M pkts outputDir os₀ t.ledger.acked.length ⟨loc, t.ctx.metaType⟩ t.os := by
    rw [hkept.acked, hkept.metaType, hkept.os]
    exact h.served
  refine wp.bind (rdmaCdcCompletion_spec hready) fun r u hu => ?_
  refine wp.guard (fun _ => trivial) fun hr => ?_
  obtain rfl := hu (not_not.mp hr)
  refine meets_get trivial ?_
  have hpos : t.ctx.localCredits > 0 := by simp [hready.credits, rdmaCdcRecvSlots]
  rw [if_pos hpos]
  refine meets_update trivial ?_
  refine wp.bind (rdmaCdcConsumeBuf_spec hready.slots) ?_
  rintro _ v ⟨rfl, hv⟩
  have htaken : Taken v := by
    subst hv
    refine ⟨⟨hready.slots, hready.postIdx, ?_, hready.posted, ?_, ?_, hready.session⟩,
      hready.current⟩
    · simp [Update.apply, hready.slots, hready.consIdx]
    · simp [hready.polled]
    · simp [Update.apply, hready.credits]
  have hidx : t.ctx.cdcRecvConsIdx = v.ledger.acked.length % rdmaCdcRecvSlots := by
    rw [hv]
    exact hready.consIdx
  have hserved' : Served M pkts outputDir os₀ v.ledger.acked.length ⟨loc, v.ctx.metaType⟩ v.os := by
    rw [hv]
    exact hserved
  change Serves M pkts outputDir os₀ n (handleSignal loc t.ctx.cdcRecvConsIdx >>= _) _ v
  rw [hidx]
  refine wp.bind (handleSignal_spec htaken hfit hserved') fun r w hw => ?_
  cases r with
  | none => exact wp.done trivial
  | some loc' => exact ih loc' w ⟨.inr (hw loc' rfl).toReady, (hw loc' rfl).served⟩

theorem Fresh.init (os : F) : Fresh (initState os) := ⟨rfl, rfl, rfl, rfl, rfl, rfl, rfl⟩

theorem scpReceiverRun_spec (hfit : ∀ i, (pkts i).2.Fits) :
    Serves M pkts outputDir os₀ n (scpReceiverRun outputDir) (fun _ _ => True)
      (initState os₀) := by
  unfold scpReceiverRun
  cases outputDir with
  | some dir =>
    refine meets_mkdirRecursive (fun _ _ _ => rfl) (fun _ => trivial) fun r os hos => ?_
    exact receiveLoop_spec hfit ⟨.inl (Fresh.init os), .mk (hos.bind .done) .start⟩
  | none =>
    refine meets_ask (fun _ => rfl) fun r hr _ => ?_
    cases r with
    | none => exact wp.done trivial
    | some base =>
      exact receiveLoop_spec hfit ⟨.inl (Fresh.init _), .mk (.op (some base) hr .done) .start⟩

/-- Every run of the receiver that is fed encoded packets meets its duties. -/
theorem verified (M : Semantics fileSignature F) (pkts : Feed) (hfit : ∀ i, (pkts i).2.Fits)
    (outputDir : Option Path) (os : F) :
    Verified bodies (semantics M (.feed pkts)) (duties M pkts outputDir os)
      (scpReceiverRun outputDir) (fun _ _ => True) (initState os) :=
  fun _ => scpReceiverRun_spec hfit

end ScpRdma.Receiver

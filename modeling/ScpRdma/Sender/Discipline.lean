import ScpRdma.Sender.Polling
import ScpRdma.Sender.Emission

/-!
# The sender keeps its discipline

In every world the sending program meets its duties, and a run that returns 0 has announced
the packets of its source. `Up` is the state between two packets; each function has one
specification, proved from those of the functions it calls.
-/
namespace ScpRdma.Sender
open Foundations

variable {cfg : Config} {W : World} {n k : Nat} {α : Type} {Q : α → State → Prop} {s t u : State}

/-! ## Posting one packet -/

/-- A session that has no packet half posted. -/
structure Running (s : State) : Prop where
  live : Live 0 s
  settled : s.ledger.polled = s.ledger.handled
  idle : s.ledger.phase = .idle
  session : s.ctx.sessionEstablished = true

/-- A session in which every packet was acknowledged. -/
structure Up (s : State) : Prop extends Running s where
  clear : s.ledger.unacked = []

/-- Changes of the context that the invariant does not speak about. -/
def Update.Plain : Update → Prop
  | .nextSlot _ | .addBytes _ | .countFile | .countDir | .countSymlink | .setSge _ => True
  | _ => False

theorem Live.update (h : Live k s) (up : Update) (hup : up.Plain) :
    Live k { s with ctx := up.apply s.ctx } := by
  cases up
  case freeSlot | busySlot | restart | establish | acquire | consume | cdcBuffers => cases hup
  all_goals exact ⟨h.1, h.2, h.3, h.4, h.5, h.6, h.7, h.8⟩

theorem Live.mem {m : Memory} (h : Live k s) : Live k { s with mem := m } :=
  ⟨h.1, h.2, h.3, h.4, h.5, h.6, h.7, h.8⟩

theorem Update.Plain.session {up : Update} {c : Ctx} (hup : up.Plain) :
    (up.apply c).sessionEstablished = c.sessionEstablished := by
  cases up
  case freeSlot | busySlot | restart | establish | acquire | consume | cdcBuffers => cases hup
  all_goals rfl

theorem Running.update (h : Running s) (up : Update) (hup : up.Plain) :
    Running { s with ctx := up.apply s.ctx } :=
  ⟨h.live.update up hup, h.settled, h.idle, hup.session.trans h.session⟩

theorem Up.update (h : Up s) (up : Update) (hup : up.Plain) :
    Up { s with ctx := up.apply s.ctx } := ⟨h.toRunning.update up hup, h.clear⟩

theorem Running.mem {m : Memory} (h : Running s) : Running { s with mem := m } :=
  ⟨h.live.mem, h.settled, h.idle, h.session⟩

theorem Up.mem {m : Memory} (h : Up s) : Up { s with mem := m } := ⟨h.toRunning.mem, h.clear⟩

theorem Running.harvest (h : Running s) (g : Harvest 0 s t) : Running t :=
  ⟨g.live, g.settled, g.frame.phase.trans h.idle, g.frame.session.trans h.session⟩

theorem Up.harvest (h : Up s) (g : Harvest 0 s t) : Up t :=
  ⟨h.toRunning.harvest g, List.eq_nil_of_subset_nil (h.clear ▸ g.frame.unacked)⟩

/-- A free slot leaves room for at most three unacknowledged packets. -/
theorem Live.room {x : Slot} (h : Live k s) (hx : x ∉ s.ledger.unacked) :
    s.ledger.unacked.length ≤ 3 := by
  have := (List.nodup_cons.mpr ⟨hx, h.nodup⟩).length_le_card
  simpa [Nat.lt_succ_iff] using this

/-- One more receive is posted for the ACK of the packet that is being prepared. -/
theorem Live.acquire (h : Live 0 s) : Live 1 { s with
    ctx := Update.acquire.apply s.ctx
    ledger := { s.ledger with posted := s.ledger.posted + 1 } } := by
  refine ⟨h.1, ?_, h.3, h.4, h.5, h.6, ?_, h.8⟩
  · simp only [Update.apply, h.slots, h.postIdx, Nat.mod_add_mod]
  · simp only [h.posted]

/-- The packet in a free slot is announced and its slot marked busy. -/
theorem Live.announce {x : Slot} {bytes : Bytes} (h : Live 1 s)
    (hphase : s.ledger.phase = .written x bytes) (hx : x ∉ s.ledger.unacked) :
    Live 0 { s with
      ctx := (Update.busySlot x).apply s.ctx
      ledger := s.ledger.announce } := by
  rw [Ledger.announce_written hphase]
  have hp := h.pending
  have hh := h.handled
  refine ⟨h.1, h.2, h.3, fun y => ?_, ?_, ?_, ?_, ?_⟩
  · by_cases hy : y = x
    · simp [Update.apply, hy]
    · simp [Update.apply, hy, h.free y]
  · simpa [List.nodup_append, hx] using ⟨h.nodup, fun a ha hax => hx (hax ▸ ha)⟩
  · simp [Update.apply, hp]
  · simp [h.posted]
  · simp only [List.length_append, List.length_singleton]
    omega

theorem postAckRecv_spec {wrId : Nat} {x : Slot} (h : Live 0 s) (hx : x ∉ s.ledger.unacked) :
    Meets cfg W n (postAckRecv wrId) (fun r t => r ≠ 0 ∧ ¬W.Reliable ∨ r = 0 ∧
      t = { s with
        ctx := Update.acquire.apply s.ctx
        ledger := { s.ledger with posted := s.ledger.posted + 1 } }) s := by
  have hroom := h.room hx
  have hp := h.posted
  have hh := h.handled
  refine wp.bind (R := fun r t => r = some (s.ledger.posted % rdmaCdcRecvSlots) ∧
    t = { s with ctx := Update.acquire.apply s.ctx }) ?_ ?_
  · refine meets_get (wp.guard (fun h0 => ?_) fun _ => ?_)
    · simp [h.slots, rdmaCdcRecvSlots] at h0
    · exact meets_update trivial (wp.done ⟨by rw [h.postIdx], rfl⟩)
  rintro _ _ ⟨rfl, rfl⟩
  refine meets_ask ⟨rfl, ?_⟩ fun ok _ hok => ?_
  · simp only [dualBufferSlots]
    omega
  cases ok with
  | false => exact wp.done (.inl ⟨by decide, fun hrel => absurd (hrel _ _ hok) Bool.false_ne_true⟩)
  | true => exact wp.done (.inr ⟨rfl, rfl⟩)

/-- The state after the write of a packet was posted. -/
def State.written (s : State) (x : Slot) (bytes : Bytes) : State :=
  { s with ledger := { s.ledger with phase := .written x bytes, writePending := true } }

/-- The entries a request names, with the session's own entry read from the context. -/
def SgeList.resolve (c : Ctx) : SgeList → List Sge
  | .session => [c.sessionSge]
  | .own sges => sges

theorem rdmaTransPost_spec {wr : TransWr} {x : Slot} {p : Packet}
    (hidle : s.ledger.phase = .idle) (hlen : HasLength s (wr.sges.resolve s.ctx) wr.wrLen)
    (hremote : wr.remoteOffset = slotBase x) (hx : x ∉ s.ledger.unacked)
    (hin : ∀ e ∈ wr.sges.resolve s.ctx, InSlot x e.addr e.length)
    (hfit : p.Fits) (hmem : gather s.mem (wr.sges.resolve s.ctx) = p.encode) :
    Meets cfg W n (rdmaTransPost wr) (fun r t => r ≠ 0 ∧ ¬W.Reliable ∨
      r = 0 ∧ t = s.written x p.encode) s := by
  obtain ⟨sges, wrLen, remote⟩ := wr
  obtain rfl : remote = slotBase x := hremote
  refine wp.bind (R := fun r t => r = sges.resolve s.ctx ∧ t = s) ?_ ?_
  · cases sges with
    | session => exact meets_get (wp.done ⟨rfl, rfl⟩)
    | own sges => exact wp.done ⟨rfl, rfl⟩
  rintro _ _ ⟨rfl, rfl⟩
  refine meets_ask ⟨hidle, hlen, x, rfl, hx, hin, p, hfit, hmem⟩ fun ok _ hok => ?_
  cases ok with
  | false =>
    exact meets_ask trivial fun _ _ _ =>
      wp.done (.inl ⟨by decide, fun hrel => nomatch hrel _ _ hok⟩)
  | true =>
    refine wp.done (.inr ⟨rfl, ?_⟩)
    simp only [next, State.written, slotAt_slotBase, ← hmem]

theorem Live.written (h : Live k s) (x : Slot) (bytes : Bytes) : Live k (s.written x bytes) :=
  ⟨h.1, h.2, h.3, h.4, h.5, h.6, h.7, h.8⟩

/-- Once every ACK was consumed, none is missing from the count. -/
theorem Live.first (h : Live k s) (hclear : s.ledger.unacked = []) :
    s.ledger.sent = [] ∨ 1 ≤ s.ledger.handled := by
  have hh := h.handled
  rw [hclear, List.length_nil] at hh
  rcases Nat.eq_zero_or_pos s.ledger.sent.length with h0 | h1
  · exact .inl (List.eq_nil_of_length_eq_zero h0)
  · exact .inr (by omega)

/-- Announcing the packet of slot `x` meets the duty of `postSend`. -/
theorem Live.mayAnnounce {x : Slot} {bytes : Bytes} (h : Live 1 s)
    (hphase : s.ledger.phase = .written x bytes) (hx : x ∉ s.ledger.unacked)
    (hfirst : s.ledger.sent = [] ∨ 1 ≤ s.ledger.handled) :
    Duty (.postSend (Cdc.dataReady x)) s :=
  ⟨x, bytes, hphase, rfl, hx, by have := h.posted; omega, hfirst⟩

theorem scpRdmaSendSync_spec {wrLen off : Nat} {p : Packet} (h : Up s) (hoff : off = slotBase 0)
    (hlen : HasLength s [s.ctx.sessionSge] wrLen) (hfit : p.Fits)
    (hin : InSlot 0 s.ctx.sessionSge.addr s.ctx.sessionSge.length)
    (hmem : gather s.mem [s.ctx.sessionSge] = p.encode) :
    Meets cfg W n (scpRdmaSendSync ⟨.session, wrLen, off⟩) (fun r t => r ≠ 0 ∧ ¬W.Reliable ∨
      r = 0 ∧ Up t ∧ t.ledger.sent = s.ledger.sent ++ announce [(0, p)]) s := by
  unfold scpRdmaSendSync
  refine wp.bind (waitForSlot_spec h.live (.inr (by simp [h.clear])) h.settled) ?_
  rintro r t (⟨hr, hrel⟩ | ⟨rfl, ht, hfree⟩)
  · exact wp.guard (fun _ => .inl ⟨by decide, hrel⟩) fun hr' => absurd hr hr'
  refine wp.guard (fun hr => absurd hr (by decide)) fun _ => ?_
  have hup := h.harvest ht
  have hsge : t.ctx.sessionSge = s.ctx.sessionSge := ht.frame.sge
  refine wp.bind (postAckRecv_spec hup.live hfree) ?_
  rintro r _ (⟨hr, hrel⟩ | ⟨rfl, rfl⟩)
  · exact wp.guard (fun _ => .inl ⟨by decide, hrel⟩) fun hr' => absurd hr hr'
  refine wp.guard (fun hr => absurd rfl hr) fun _ => ?_
  refine wp.bind (rdmaTransPost_spec (x := 0) hup.idle ?_ hoff hfree ?_ hfit ?_) ?_
  · exact hlen.imp (fun h => by simpa [SgeList.resolve, Update.apply, hsge] using h)
      fun h => ⟨h.1, ht.frame.sent.trans h.2⟩
  · simpa [SgeList.resolve, Update.apply, hsge] using hin
  · simpa [SgeList.resolve, Update.apply, hsge, ht.frame.mem] using hmem
  rintro r _ (⟨hr, hrel⟩ | ⟨rfl, rfl⟩)
  · exact wp.guard (fun _ => .inl ⟨by decide, hrel⟩) fun hr' => absurd hr hr'
  refine wp.guard (fun hr => absurd rfl hr) fun _ => ?_
  refine wp.bind (waitForRdmaWriteCompletion_spec (hup.live.acquire.written _ _) hup.settled rfl) ?_
  rintro r u (⟨hr, hrel⟩ | ⟨rfl, hu⟩)
  · exact wp.guard (fun _ => .inl ⟨by decide, hrel⟩) fun hr' => absurd hr (by omega)
  refine wp.guard (fun hr => absurd rfl hr) fun _ => ?_
  have hclear : u.ledger.unacked = [] :=
    List.eq_nil_of_subset_nil (hup.clear ▸ hu.frame.unacked)
  have hfree' : (0 : Slot) ∉ u.ledger.unacked := by simp [hclear]
  have hphase : u.ledger.phase = .written 0 p.encode := hu.frame.phase
  have hsent : u.ledger.sent = s.ledger.sent := hu.frame.sent.trans ht.frame.sent
  refine meets_update ((hu.live.free 0).mpr hfree') ?_
  refine meets_postSend (hu.live.mayAnnounce hphase hfree' (hu.live.first hclear))
    (fun hfail => ?_) ?_
  · refine meets_update (by simp [Duty, Update.apply]) ?_
    exact wp.done (.inl ⟨by decide, fun hrel => absurd (hrel _ _ hfail) Bool.false_ne_true⟩)
  have hlive := hu.live.announce hphase hfree'
  have hl := Ledger.announce_written hphase
  refine wp.bind (waitForSlot_spec hlive (.inr ?_) ?_) ?_
  · rw [hl, hclear]
    exact List.Subset.refl _
  · rw [hl]
    exact hu.settled
  rintro r v (⟨hr, hrel⟩ | ⟨rfl, hv, hlast⟩)
  · exact wp.guard (fun _ => .inl ⟨by decide, hrel⟩) fun hr' => absurd hr hr'
  refine wp.guard (fun hr => absurd hr (by decide)) fun _ => wp.done (.inr ⟨rfl, ?_, ?_⟩)
  · refine ⟨⟨hv.live, hv.settled, ?_, ?_⟩, ?_⟩
    · rw [hv.frame.phase, hl]
    · rw [hv.frame.session]
      exact hu.frame.session.trans hup.session
    · refine List.eq_nil_iff_forall_not_mem.mpr fun x hx => ?_
      have hx0 := hv.frame.unacked hx
      rw [hl, hclear] at hx0
      obtain rfl : x = 0 := by simpa using hx0
      exact hlast hx
  · rw [hv.frame.sent, hl, hsent]
    rfl

/-! ## The session -/

/-- Before the session: nothing was posted. -/
structure Fresh (s : State) : Prop where
  slots : s.ctx.cdcRecvSlots = 0
  qp : s.qp = .reset
  free : ∀ x, s.ctx.slotFree x = true
  pending : s.ctx.pendingAcks = 0
  posted : s.ledger.posted = 0
  polled : s.ledger.polled = 0
  handled : s.ledger.handled = 0
  unacked : s.ledger.unacked = []
  sent : s.ledger.sent = []
  idle : s.ledger.phase = .idle
  session : s.ctx.sessionEstablished = false

/-- Between two packets, before the session or in it. -/
def Rest (s : State) : Prop := Fresh s ∨ Up s

theorem Rest.init : Rest initState :=
  .inl ⟨rfl, rfl, fun _ => rfl, rfl, rfl, rfl, rfl, rfl, rfl, rfl, rfl⟩

theorem Rest.mayFill {addr len : Nat} {x : Slot} (h : Rest s) (hin : InSlot x addr len) :
    MayFill s addr len := by
  obtain h | h := h
  · exact ⟨h.idle, x, hin, by simp [h.unacked]⟩
  · exact ⟨h.idle, x, hin, by simp [h.clear]⟩

theorem Rest.mem {m : Memory} (h : Rest s) : Rest { s with mem := m } := by
  obtain h | h := h
  · exact .inl ⟨h.1, h.2, h.3, h.4, h.5, h.6, h.7, h.8, h.9, h.10, h.11⟩
  · exact .inr h.mem

/-- The session is up, with the memory as it was. -/
structure Established (s t : State) : Prop where
  up : Up t
  mem : t.mem = s.mem
  sent : t.ledger.sent = s.ledger.sent

/-- What a function that returns 0 on success leaves. -/
abbrev Ends (P : State → Prop) (r : Int) (t : State) : Prop := r = 0 → P t

theorem mrCreate_spec : Meets cfg W n (Session.mrCreate verbs) (fun r t => r ≠ 0 ∧ t = s ∨ r = 0 ∧
    t = { s with ctx := Update.cdcBuffers.apply s.ctx }) s := by
  refine meets_ask trivial fun ok _ _ => ?_
  cases ok with
  | false => exact wp.done (.inl ⟨by decide, rfl⟩)
  | true => exact meets_update trivial (wp.done (.inr ⟨rfl, rfl⟩))

/-- The state in which the queue pair is connected and one receive is posted. -/
structure Connected (s t : State) : Prop where
  live : Live 0 t
  settled : t.ledger.polled = t.ledger.handled
  idle : t.ledger.phase = .idle
  clear : t.ledger.unacked = []
  mem : t.mem = s.mem
  sent : t.ledger.sent = s.ledger.sent

/-- With the buffers registered the first of them is posted; without them there is none. -/
theorem connectQp_spec {c : Ctx} (h : Fresh s)
    (hc : c = s.ctx ∨ c = Update.cdcBuffers.apply s.ctx) :
    Meets cfg W n (Session.connectQp verbs) (Ends (Connected s)) { s with ctx := c } := by
  refine meets_ask trivial fun ok _ _ => ?_
  cases ok with
  | false => exact wp.done nofun
  | true =>
  refine meets_ask trivial fun st hst _ => ?_
  cases st with
  | none => exact wp.done nofun
  | some st =>
  obtain rfl : st = .reset := Eq.trans hst h.qp
  refine wp.guard (fun hne => absurd rfl hne) fun _ => ?_
  refine meets_ask trivial fun ok _ _ => ?_
  cases ok with
  | false => exact wp.done nofun
  | true =>
  obtain rfl | rfl := hc
  · refine wp.bind (R := fun r _ => r = none) ?_ ?_
    · exact meets_get (wp.guard (fun _ => rfl) fun hne => absurd h.slots hne)
    rintro _ t rfl
    exact meets_ask trivial fun r => nomatch r
  refine wp.bind (R := fun r t => r = some 0 ∧
    t = { s with qp := .init, ctx := Update.acquire.apply (Update.cdcBuffers.apply s.ctx) }) ?_ ?_
  · refine meets_get (wp.guard (fun h0 => absurd h0 (Nat.succ_ne_zero 7)) fun _ => ?_)
    exact meets_update trivial (wp.done ⟨rfl, rfl⟩)
  rintro _ _ ⟨rfl, rfl⟩
  refine meets_ask ⟨by simp [h.posted], ?_⟩ fun ok _ _ => ?_
  · simp [h.posted]
  cases ok with
  | false => exact wp.done nofun
  | true =>
  refine meets_ask (o := .modifyQp .rtr) (by simp [duties, Duty, next]) fun ok _ _ => ?_
  cases ok with
  | false => exact wp.done nofun
  | true =>
  refine meets_ask trivial fun ok _ _ => ?_
  cases ok with
  | false => exact wp.done nofun
  | true =>
  refine wp.done fun _ => ⟨⟨rfl, ?_, ?_, fun x => ?_, ?_, ?_, ?_, ?_⟩, ?_, ?_, ?_, rfl, rfl⟩
  · simp [next, Update.apply, h.posted]
  · simp [next, Update.apply, h.handled]
  · simp [next, Update.apply, h.unacked, h.free x]
  · simp [next, h.unacked]
  · simp [next, Update.apply, h.unacked, h.pending]
  · simp [next, h.posted, h.sent]
  · simp [next, h.sent]
  · exact h.polled.trans h.handled.symm
  · exact h.idle
  · exact h.unacked

theorem rdmaTransInit_spec (h : Fresh s) :
    Meets cfg W n (Session.rdmaTransInit verbs) (Ends (Connected s)) s := by
  refine wp.bind (R := fun _ t => ∃ c, (c = s.ctx ∨ c = Update.cdcBuffers.apply s.ctx) ∧
    t = { s with ctx := c }) (mrCreate_spec.mono ?_) ?_
  · rintro r t (⟨-, rfl⟩ | ⟨-, rfl⟩)
    · exact ⟨_, .inl rfl, rfl⟩
    · exact ⟨_, .inr rfl, rfl⟩
  rintro mr _ ⟨c, hc, rfl⟩
  refine wp.bind (connectQp_spec h hc) fun qp t ht => ?_
  split
  · exact meets_ask trivial fun _ _ _ => wp.done nofun
  · rename_i hok
    exact wp.done fun _ => ht (not_not.mp fun hq => hok (.inr hq))

theorem scpPrepareTransferResources_spec {wr : TransWr} (h : Fresh s) :
    Meets cfg W n (scpPrepareTransferResources wr) (fun r t => ∀ wr', r = some wr' →
      Connected s t ∧ wr' = { wr with wrLen := scpMultiBufferTotalSize }) s := by
  refine meets_ask trivial fun ok _ _ => ?_
  cases ok with
  | false => exact wp.done nofun
  | true =>
    refine wp.bind (rdmaTransInit_spec h) fun r t ht => ?_
    refine wp.guard (fun _ => nofun) fun hr => wp.done ?_
    rintro _ ⟨⟩
    exact ⟨ht (not_not.mp hr), rfl⟩

/-- The request comes back as it was, or as the set-up of the session has changed it. -/
theorem establishSession_spec {wr : TransWr} (h : Rest s) :
    Meets cfg W n (establishSession wr) (fun r t => ∀ wr', r = some wr' → Established s t ∧
      (wr' = wr ∨ wr' = { wr with wrLen := scpMultiBufferTotalSize } ∧ t.ledger.sent = [])) s := by
  unfold establishSession
  refine meets_get (wp.guard (fun hest => ?_) fun hnot => ?_)
  · rintro _ ⟨⟩
    obtain h | h := h
    · simp [h.session] at hest
    · exact ⟨⟨h, rfl, rfl⟩, .inl rfl⟩
  have hf : Fresh s := h.resolve_right fun hup => hnot hup.session
  refine wp.bind (scpPrepareTransferResources_spec hf) fun r t ht => ?_
  cases r with
  | none => exact wp.done nofun
  | some wr' =>
    obtain ⟨hcon, rfl⟩ := ht wr' rfl
    have hl := hcon.live
    refine meets_update trivial (wp.done ?_)
    rintro _ ⟨⟩
    refine ⟨⟨⟨⟨?_, hcon.settled, hcon.idle, rfl⟩, hcon.clear⟩, hcon.mem, hcon.sent⟩,
      .inr ⟨rfl, hcon.sent.trans hf.sent⟩⟩
    exact ⟨hl.1, hl.2, hl.3, hl.4, hl.5, hl.6, hl.7, hl.8⟩

/-! ## Links and files -/

/-- One packet laid out at the start of the session buffer is sent. -/
theorem sendSessionBuf_spec {wrLen len : Nat} {p : Packet} (h : Up s) (hfit : p.Fits)
    (hlen : HasLength s [⟨0, len⟩] wrLen) (hin : InSlot 0 0 len)
    (hmem : s.mem.load 0 len = p.encode) :
    Meets cfg W n (sendSessionBuf ⟨.session, wrLen, 0⟩ len) (fun r t => r ≠ 0 ∧ ¬W.Reliable ∨
      r = 0 ∧ Up t ∧ t.ledger.sent = s.ledger.sent ++ announce [(0, p)]) s := by
  refine meets_update trivial (scpRdmaSendSync_spec (h.update (.setSge ⟨0, len⟩) trivial) rfl
    hlen hfit hin ?_)
  simpa [gather, Update.apply] using hmem

theorem dataChunkSize_le : dataChunkSize ≤ scpCombinedChunkSize := by
  simp [dataChunkSize, scpCombinedChunkSize_eq]

/-- A control packet: it is laid out, the session is set up where there is none, and it is
sent; `fail` is what the function does otherwise. -/
theorem sendControl_spec {p : Packet} {len : Nat} {fail rest : Sender Int} {P : State → Prop}
    (h : Rest s) (hfit : p.Fits) (hlen : p.encode.length = len)
    (hfail : ∀ t, Meets cfg W n fail (Ends P) t)
    (hrest : ∀ t, Up t → t.ledger.sent = s.ledger.sent ++ announce [(0, p)] →
      Meets cfg W n rest (Ends P) t) :
    Meets cfg W n (do
      store 0 p.encode
      match ← establishSession ⟨.session, len, 0⟩ with
      | none => fail
      | some wr =>
        if (← sendSessionBuf wr len) ≠ 0 then
          fail
        else rest) (Ends P) s := by
  have hin : p.encode.length ≤ scpCombinedChunkSize := Packet.length_encode_le hfit
  refine meets_store (h.mayFill (inSlot_zero hin)) fun m hm => ?_
  refine wp.bind (establishSession_spec h.mem) fun r t ht => ?_
  cases r with
  | none => exact hfail t
  | some wr =>
  obtain ⟨hest, hreq⟩ := ht wr rfl
  obtain ⟨wrLen, rfl, hwr⟩ : ∃ wrLen, wr = ⟨.session, wrLen, 0⟩ ∧
      HasLength t [⟨0, len⟩] wrLen := by
    rcases hreq with rfl | ⟨rfl, hnone⟩
    · exact ⟨_, rfl, .inl (by simp)⟩
    · exact ⟨_, rfl, .inr ⟨rfl, hnone⟩⟩
  refine wp.bind (sendSessionBuf_spec hest.up hfit hwr (inSlot_zero (hlen ▸ hin)) ?_) ?_
  · rw [show t.mem = s.mem.store 0 p.encode from hest.mem.trans hm]
    exact Memory.load_store_eq hlen
  rintro r u (⟨hr, -⟩ | ⟨rfl, hu, hsent⟩)
  · rw [if_pos hr]
    exact hfail u
  · exact hrest u hu (hsent.trans (by rw [hest.sent]))

theorem meets_cleanup {o : Op} {P : State → Prop} (hD : Duty o s) :
    Meets cfg W n (ask o >>= fun _ => pure (-1)) (Ends P) s :=
  meets_ask hD fun _ _ _ => wp.done nofun

/-- Header and target stand next to each other. -/
theorem gather_link {m : Memory} {base : Nat} {target : Bytes} :
    gather ((m.store base (dataChunkHeader 0 0 target.length)).store (base + dataChunkSize) target)
      [⟨base, dataChunkSize + target.length⟩] = (Packet.fileData 0 0 target).encode := by
  simp only [gather, List.flatMap_cons, List.flatMap_nil, List.append_nil, Memory.load_add,
    Packet.encode]
  rw [Memory.load_store_self, Memory.load_store_disjoint (by simp),
    Memory.load_store_eq (length_dataChunkHeader _ _ _)]

theorem scpSendSymlink_spec {l r : Path} {st : Stat} (h : Rest s) :
    Meets cfg W n (scpSendSymlink l r st) (Ends fun t => Up t ∧ ∃ out,
      EmitsLink W l r st out ∧ t.ledger.sent = s.ledger.sent ++ announce out) s := by
  refine meets_ask trivial fun resp hpos hresp => ?_
  cases resp with
  | none => exact wp.done nofun
  | some target =>
  have hlen : target.length ≤ scpMaxPathLen - 1 := hpos
  have hsmall : target.length ≤ 4095 := hlen
  refine sendControl_spec (p := .fileMeta r target.length st.mode .symlink 1) h
    ⟨by omega, by decide⟩ (Packet.length_encode _) (fun _ => wp.done nofun) fun u hu hsent => ?_
  have hmay : ∀ {v : State} {i len : Nat}, Up v → i + len ≤ 4131 →
      MayFill v (slotBase 0 + i) len := fun hv hi =>
    Rest.mayFill (.inr hv) (inSlot_base (by rw [scpCombinedChunkSize_eq]; omega))
  refine meets_store (hmay (i := 0) hu (by simp [dataChunkSize])) fun m hm => ?_
  refine meets_store (hmay hu.mem (by simp only [dataChunkSize]; omega)) fun m' hm' => ?_
  refine meets_update trivial ?_
  refine wp.bind (scpRdmaSendSync_spec (p := .fileData 0 0 target)
    (hu.mem.mem.update (.setSge ⟨slotBase 0, dataChunkSize + target.length⟩) trivial)
    rfl (.inl (by simp [Update.apply])) ⟨by decide, by decide, ?_⟩ (inSlot_start ?_) ?_) ?_
  · rw [scpChunkSize_eq]
    omega
  · simp only [dataChunkSize, scpCombinedChunkSize_eq, Update.apply]
    omega
  · simp only [Update.apply, hm', hm]
    exact gather_link
  rintro ret v (⟨hr, -⟩ | ⟨rfl, hv, hsent'⟩)
  · exact wp.guard (fun _ => nofun) fun hr' => absurd hr hr'
  refine wp.guard (fun _ => nofun) fun _ => ?_
  refine meets_update trivial (wp.done fun _ =>
    ⟨hv.update .countSymlink trivial, _, .mk target hresp hlen, ?_⟩)
  change v.ledger.sent = _
  rw [hsent', hsent]
  simp [next]

/-! ### The chunk loop -/

theorem alignedSize_le {toRead : Nat} (h : toRead ≤ scpChunkSize) :
    alignedSize toRead ≤ scpChunkSize := by
  rw [scpChunkSize_eq] at *
  unfold alignedSize
  omega

theorem chunkToRead_le (fileSize offset : Nat) (h : offset ≤ fileSize) :
    chunkToRead fileSize offset ≤ scpChunkSize ∧
      offset + chunkToRead fileSize offset ≤ fileSize := by
  unfold chunkToRead
  split <;> omega

theorem askSize_le (direct : Bool) {toRead : Nat} (h : toRead ≤ scpChunkSize) :
    askSize direct toRead ≤ scpChunkSize := by
  unfold askSize
  split
  · exact alignedSize_le h
  · exact h

theorem inSlot_data {x : Slot} {len : Nat} (h : len ≤ scpChunkSize) :
    InSlot x (slotBase x + scpDataOffset) len :=
  inSlot_base (by rw [scpDataOffset_eq, scpCombinedChunkSize_eq]; rw [scpChunkSize_eq] at h; omega)

/-- The ways to read a chunk: the loop ends, or a chunk of `m + 1` bytes is in the slot. -/
inductive ReadsChunk (W : World) (fd : Handle) (direct : Bool) (addr toRead off : Nat) (s : State) :
    Option Nat → State → Prop where
  | stop {r} (resp : Option Bytes) (mem : Memory) :
      W (.pread fd addr (askSize direct toRead) off) resp →
      (resp.getD []).take toRead = [] → r = none ∨ r = some 0 →
      ReadsChunk W fd direct addr toRead off s r { s with mem := mem }
  | chunk (data : Bytes) (mem : Memory) (m : Nat) :
      W (.pread fd addr (askSize direct toRead) off) (some data) →
      mem = s.mem.store addr data → (data.take toRead).length = m + 1 →
      ReadsChunk W fd direct addr toRead off s (some (m + 1)) { s with mem := mem }

theorem ReadsChunk.of_data {fd : Handle} {direct : Bool} {addr toRead off : Nat} {data : Bytes}
    (hW : W (.pread fd addr (askSize direct toRead) off) (some data)) :
    ReadsChunk W fd direct addr toRead off s (some (data.take toRead).length)
      { s with mem := s.mem.store addr data } := by
  cases hn : (data.take toRead).length with
  | zero => exact .stop (some data) _ hW (List.eq_nil_of_length_eq_zero hn) (.inr rfl)
  | succ m => exact .chunk data _ m hW rfl hn

/-- A chunk is what the read brought, cut to what the file still has. -/
theorem readChunk_spec {fd : Handle} {direct : Bool} {addr toRead off : Nat}
    (hmay : MayFill s addr (askSize direct toRead)) :
    Meets cfg W n (readChunk fd direct addr toRead off)
      (ReadsChunk W fd direct addr toRead off s) s := by
  unfold readChunk
  cases direct with
  | true =>
    refine meets_ask (o := .pread fd addr (alignedSize toRead) off) hmay fun resp _ hW => ?_
    cases resp with
    | none => exact wp.done (.stop none s.mem hW (by simp) (.inl rfl))
    | some data =>
      have hlen : min data.length toRead = (data.take toRead).length := by
        rw [List.length_take, Nat.min_comm]
      exact wp.done (hlen ▸ .of_data hW)
  | false =>
    refine meets_ask (o := .pread fd addr toRead off) hmay fun resp hpos hW => ?_
    cases resp with
    | none => exact wp.done (.stop none s.mem hW (by simp) (.inl rfl))
    | some data =>
      have hlen : data.length = (data.take toRead).length := by
        rw [List.take_of_length_le hpos]
      exact wp.done (hlen ▸ .of_data hW)

/-- The two entries of a chunk gather its header and its data into one packet. -/
theorem gather_chunk {m : Memory} {x : Slot} {i off : Nat} {data : Bytes} {len : Nat} :
    gather ((m.store (slotBase x + scpDataOffset) data).store (slotBase x)
        (dataChunkHeader i off (data.take len).length))
      [⟨slotBase x, dataChunkSize⟩, ⟨slotBase x + scpDataOffset, (data.take len).length⟩] =
    (Packet.fileData i off (data.take len)).encode := by
  simp only [gather, List.flatMap_cons, List.flatMap_nil, List.append_nil, Packet.encode]
  rw [Memory.load_store_eq (length_dataChunkHeader _ _ _), Memory.load_store_disjoint (by
    rw [length_dataChunkHeader, scpDataOffset_eq]; right; simp [dataChunkSize])]
  have hread := @Memory.load_store_within m (slotBase x + scpDataOffset) 0
    (data.take len).length data (by simp)
  rw [Nat.add_zero, List.drop_zero] at hread
  rw [hread]
  simp [List.take_eq_take_iff]

/-- Posting one chunk: the receive for its ACK, its write and its signal; then its slot is
busy. -/
theorem postChunk_spec {x : Slot} {p : Packet} {sges : List Sge} {wrLen : Nat} {rest : Sender Int}
    {P : State → Prop} (h : Running s) (hx : x ∉ s.ledger.unacked)
    (hfirst : 1 ≤ s.ledger.handled) (hlen : wrLen = (sges.map Sge.length).sum) (hfit : p.Fits)
    (hin : ∀ e ∈ sges, InSlot x e.addr e.length) (hmem : gather s.mem sges = p.encode)
    (hrest : ∀ t, Running t → t.ctx.currentSlot = s.ctx.currentSlot →
      t.ledger.handled = s.ledger.handled →
      t.ledger.sent = s.ledger.sent ++ announce [(x, p)] → Meets cfg W n rest (Ends P) t) :
    Meets cfg W n (do
      if (← postAckRecv x) ≠ 0 then
        return -1
      if (← rdmaTransPost ⟨.own sges, wrLen, slotBase x⟩) ≠ 0 then
        return -1
      if !(← postSend (Cdc.dataReady x)) then
        return -1
      update (.busySlot x)
      rest) (Ends P) s := by
  refine wp.bind (postAckRecv_spec h.live hx) ?_
  rintro r _ (⟨hr, -⟩ | ⟨rfl, rfl⟩)
  · exact wp.guard (fun _ => nofun) fun hr' => absurd hr hr'
  refine wp.guard (fun _ => nofun) fun _ => ?_
  refine wp.bind (rdmaTransPost_spec (x := x) h.idle (.inl hlen) rfl hx hin hfit hmem) ?_
  rintro r _ (⟨hr, -⟩ | ⟨rfl, rfl⟩)
  · exact wp.guard (fun _ => nofun) fun hr' => absurd hr hr'
  refine wp.guard (fun _ => nofun) fun _ => ?_
  have hlive := h.live.acquire.written x p.encode
  refine meets_postSend (hlive.mayAnnounce rfl hx (.inr hfirst)) (fun _ => wp.done nofun) ?_
  refine meets_update ((h.live.free x).mpr hx) (hrest _ ⟨hlive.announce rfl hx, ?_, rfl, ?_⟩ rfl
    rfl rfl)
  · exact h.settled
  · exact h.session

theorem GoesRound.next {t : State} {p : Packet} (h : GoesRound s)
    (hhand : s.ledger.handled ≤ t.ledger.handled)
    (hsent : t.ledger.sent = s.ledger.sent ++ announce [(s.ctx.currentSlot, p)])
    (hcur : t.ctx.currentSlot = s.ctx.currentSlot + 1) : GoesRound t := by
  obtain ⟨before, n, hs, hle, hslot⟩ := h
  refine ⟨before, n + 1, ?_, hle.trans hhand, ?_⟩
  · rw [hsent, List.map_append, hs, rotation_succ, List.append_assoc, ← hslot]
    rfl
  · rw [hcur, hslot, ofNat_add_one]

theorem chunkLoop_spec {fd : Handle} {direct : Bool} {size remaining i off : Nat}
    (h : Running s) (hround : GoesRound s) (hfirst : 1 ≤ s.ledger.handled)
    (hi : i + remaining ≤ 2 ^ 32)
    (hoff : off ≤ size) (hsize : size < 2 ^ 63) :
    Meets cfg W n (chunkLoop fd direct size remaining i off) (Ends fun t => Running t ∧ ∃ out,
      EmitsChunks W fd direct size remaining i off s.ctx.currentSlot out ∧
      t.ledger.sent = s.ledger.sent ++ announce out) s := by
  induction remaining generalizing s i off with
  | zero => exact wp.done fun _ => ⟨h, [], .finish, by simp⟩
  | succ remaining ih =>
    obtain ⟨hto, hend⟩ := chunkToRead_le size off hoff
    have hask := askSize_le direct hto
    rw [chunkLoop]
    refine meets_ask ⟨hround, h.live.booked⟩ fun _ hcur _ => ?_
    obtain rfl : _ = s.ctx.currentSlot := hcur
    change Meets cfg W n _ _ s
    refine wp.bind (waitForSlot_spec h.live (.inl ⟨hround, rfl⟩) h.settled) ?_
    rintro r t (⟨hr, -⟩ | ⟨rfl, ht, hfree⟩)
    · exact wp.guard (fun _ => nofun) fun hr' => absurd hr hr'
    refine wp.guard (fun _ => nofun) fun _ => ?_
    have hrun := h.harvest ht
    have hone : 1 ≤ t.ledger.handled := hfirst.trans ht.frame.handled
    refine wp.bind (readChunk_spec ⟨hrun.idle, _, inSlot_data hask, hfree⟩) ?_
    rintro r u hread
    cases hread with
    | stop resp mem hW hnil hr =>
      obtain rfl | rfl := hr
      all_goals exact wp.done fun _ => ⟨hrun.mem, [], .stop resp hW hnil, by simp [ht.frame.sent]⟩
    | chunk data mem m hW hmem hn =>
    have hm : m + 1 ≤ chunkToRead size off := by
      rw [← hn]
      exact List.length_take_le _ _
    have hhead := inSlot_start (x := s.ctx.currentSlot) dataChunkSize_le
    dsimp only
    refine meets_store ⟨hrun.idle, s.ctx.currentSlot, ?_, hfree⟩ fun mem' hmem' => ?_
    · rwa [length_dataChunkHeader]
    refine postChunk_spec (p := .fileData i off (data.take (chunkToRead size off)))
      hrun.mem.mem hfree hone (by simp) ⟨by omega, by omega, by omega⟩ ?_ ?_
      fun u hu hcur hhand hsent' => ?_
    · simp only [List.mem_cons, List.not_mem_nil, or_false, forall_eq_or_imp, forall_eq]
      exact ⟨hhead, inSlot_data (hm.trans hto)⟩
    · rw [hmem', hmem, ← hn]
      exact gather_chunk
    refine meets_update trivial (meets_update trivial ?_)
    refine meets_ask (o := .progress _ _) (by change off + (m + 1) ≤ size; omega) fun _ _ _ => ?_
    have hu' := (hu.update (.nextSlot s.ctx.currentSlot) trivial).update
      (.addBytes (m + 1)) trivial
    refine wp.bind (harvestCompletions_spec hu'.live hu'.settled trivial) ?_
    rintro r v (⟨hr, -⟩ | ⟨hr, hv⟩)
    · exact wp.guard (fun _ => nofun) fun hr' => absurd hr hr'
    refine wp.guard (fun _ => nofun) fun _ => ?_
    have hsentv : v.ledger.sent = s.ledger.sent ++ announce [(s.ctx.currentSlot,
        .fileData i off (data.take (chunkToRead size off)))] := by
      rw [hv.frame.sent]
      change u.ledger.sent = _
      rw [hsent']
      change t.ledger.sent ++ _ = _
      rw [ht.frame.sent]
    have hhandv : t.ledger.handled ≤ v.ledger.handled := hhand.ge.trans hv.frame.handled
    refine (ih (hu'.harvest hv) ?_ (hone.trans hhandv) (by omega) (by omega)).mono ?_
    · exact hround.next (ht.frame.handled.trans hhandv) hsentv hv.frame.currentSlot
    rintro r w hw hr
    obtain ⟨hrunw, out, hout, hsentw⟩ := hw hr
    refine ⟨hrunw, _ :: out, .chunk data _ hW rfl (by intro h0; simp [h0] at hn) ?_, ?_⟩
    · rw [hn]
      have hslot : v.ctx.currentSlot = s.ctx.currentSlot + 1 := hv.frame.currentSlot
      exact hslot ▸ hout
    · rw [hsentw, hsentv, announce_cons, announce_nil, List.append_assoc]
      rfl

theorem openSource_spec {path : Path} : Meets cfg W n (openSource path) (fun r t => t = s ∧
    ∀ fd direct, r = some (fd, direct) → W (.openFile path direct) (some fd) ∧
      (direct = false → W (.openFile path true) none)) s := by
  refine meets_ask trivial fun resp _ hW => ?_
  cases resp with
  | some fd => exact wp.done ⟨rfl, fun _ _ h => by cases h; exact ⟨hW, nofun⟩⟩
  | none =>
    refine meets_ask trivial fun resp _ hW' => ?_
    cases resp with
    | some fd => exact wp.done ⟨rfl, fun _ _ h => by cases h; exact ⟨hW', fun _ => hW⟩⟩
    | none => exact wp.done ⟨rfl, nofun⟩

/-- With every slot free the restart of the pipeline forgets nothing. -/
theorem Up.restart (h : Up s) : Up { s with ctx := Update.restart.apply s.ctx } := by
  have hl := h.live
  refine ⟨⟨⟨hl.1, hl.2, hl.3, fun x => ?_, hl.5, ?_, hl.7, hl.8⟩, h.settled, h.idle, h.session⟩,
    h.clear⟩
  · simp [Update.apply, h.clear]
  · simp [Update.apply, h.clear]

theorem Up.mayRestart (h : Up s) : Duty (.update .restart) s := by
  have hp := h.live.pending
  rw [h.clear] at hp
  exact ⟨fun x => (h.live.free x).mpr (by simp [h.clear]), hp, h.clear⟩

theorem scpSendFile_spec {l r : Path} (h : Rest s) :
    Meets cfg W n (scpSendFile l r) (Ends fun t => Up t ∧ ∃ out,
      EmitsFile W l r out ∧ t.ledger.sent = s.ledger.sent ++ announce out) s := by
  refine meets_ask trivial fun resp hpos hstat => ?_
  cases resp with
  | none => exact wp.done nofun
  | some st =>
  have hsize : st.size < 2 ^ 63 := hpos
  refine wp.bind openSource_spec ?_
  rintro src _ ⟨rfl, hsrc⟩
  obtain _ | ⟨fd, direct⟩ := src
  · exact wp.done nofun
  obtain ⟨hopen, hplain⟩ := hsrc fd direct rfl
  refine sendControl_spec (p := .fileMeta r st.size st.mode .regular (totalChunks st.size)) h
    ⟨by omega, totalChunks_lt _⟩ (Packet.length_encode _) (fun _ => meets_cleanup trivial)
    fun u hu hsent => ?_
  have hne : u.ledger.sent ≠ [] := by simp [hsent]
  have hfirst := (hu.live.first hu.clear).resolve_left hne
  refine meets_update hu.mayRestart ?_
  have hround : GoesRound { u with ctx := Update.restart.apply u.ctx } := by
    refine ⟨u.ledger.sent.map Announced.slot, 0, by simp [rotation], ?_, rfl⟩
    have hh := hu.live.handled
    rw [hu.clear] at hh
    simpa using hh
  refine wp.bind (chunkLoop_spec hu.restart.toRunning hround hfirst ?_ (Nat.zero_le _) hsize) ?_
  · rw [Nat.zero_add]
    exact (totalChunks_lt _).le
  intro ret v hv
  split
  · exact meets_cleanup trivial
  rename_i hret
  obtain ⟨hrun, out, hout, hsent'⟩ := hv (not_not.mp hret)
  refine wp.bind (drainPendingAcks_spec hrun.live hrun.settled) ?_
  rintro ret w (⟨hr, -⟩ | ⟨rfl, hw, hclear⟩)
  · rw [if_pos hr]
    exact meets_cleanup trivial
  refine meets_ask trivial fun _ _ _ => meets_update trivial (wp.done fun _ => ?_)
  refine ⟨Up.update ⟨hrun.harvest hw, hclear⟩ .countFile trivial, _,
    .mk st direct fd hstat hsize hopen hplain hout, ?_⟩
  change w.ledger.sent = _
  rw [hw.frame.sent, hsent']
  change u.ledger.sent ++ _ = _
  rw [hsent, announce_cons, announce_cons, announce_nil, List.append_assoc]
  rfl

/-! ## Directories -/

/-- The loops that come with no specification of their own here. -/
def DirCall : Call → State → Prop
  | .sendDirectory _ _, s => Rest s
  | .readdirLoop _ _ _ _, s => Up s
  | _, _ => False

/-- What a directory call leaves: the packets of its task. -/
def DirEnds (cfg : Config) (W : World) : Call → State → Int → State → Prop
  | .sendDirectory l r, s => Ends fun t => Up t ∧ ∃ out, Emits W cfg (.dir l r) out ∧
      t.ledger.sent = s.ledger.sent ++ announce out
  | .readdirLoop dir pos l r, s => Ends fun t => Up t ∧ ∃ out,
      Emits W cfg (.entries dir pos l r) out ∧ t.ledger.sent = s.ledger.sent ++ announce out
  | _, _ => fun _ _ => True

theorem statEntry_spec {path : Path} :
    Meets cfg W n (statEntry cfg path) (fun r t => t = s ∧ Examines W cfg path r) s := by
  unfold statEntry Examines
  cases cfg.noLink with
  | true => exact wp.op trivial fun r hr => wp.done ⟨by cases r <;> rfl, hr.2⟩
  | false => exact wp.op trivial fun r hr => wp.done ⟨by cases r <;> rfl, hr.2⟩

section Directories

variable (ih : ∀ c s, DirCall c s → Meets cfg W n (invoke c) (DirEnds cfg W c s) s)
include ih

theorem sendObject_spec {l r : Path} {st : Stat} (h : Rest s) :
    Meets cfg W n (sendObject l r st) (Ends fun t => Up t ∧ ∃ out,
      Emits W cfg (.object l r st) out ∧ t.ledger.sent = s.ledger.sent ++ announce out) s := by
  unfold sendObject
  cases hk : st.kind with
  | directory =>
    refine (ih (.sendDirectory l r) s h).mono fun ret t ht hr => ?_
    obtain ⟨hup, out, hout, hsent⟩ := ht hr
    exact ⟨hup, out, .directory hk hout, hsent⟩
  | symlink =>
    refine (scpSendSymlink_spec h).mono fun ret t ht hr => ?_
    obtain ⟨hup, out, hout, hsent⟩ := ht hr
    exact ⟨hup, out, .link hk hout, hsent⟩
  | regular | other =>
    refine (scpSendFile_spec h).mono fun ret t ht hr => ?_
    obtain ⟨hup, out, hout, hsent⟩ := ht hr
    exact ⟨hup, out, .file (by simp [hk]) hout, hsent⟩

/-- An entry that is passed over. -/
theorem skipEntry_spec {dir : Handle} {pos : Nat} {l r : Path} (h : Up s)
    (hcons : ∀ out, Emits W cfg (.entries dir (pos + 1) l r) out →
      Emits W cfg (.entries dir pos l r) out) :
    Meets cfg W n (invoke (.readdirLoop dir (pos + 1) l r))
      (DirEnds cfg W (.readdirLoop dir pos l r) s) s := by
  refine (ih (.readdirLoop dir (pos + 1) l r) s h).mono fun ret t ht hr => ?_
  obtain ⟨hup, out, hout, hsent⟩ := ht hr
  exact ⟨hup, out, hcons out hout, hsent⟩

/-- An entry that is sent, and the rest of the directory. -/
theorem sendEntry_spec {dir : Handle} {pos : Nat} {l r : Path} {p : Sender Int}
    {object : List Parcel → Prop}
    (hp : Meets cfg W n p (Ends fun t => Up t ∧ ∃ out, object out ∧
      t.ledger.sent = s.ledger.sent ++ announce out) s)
    (hcons : ∀ out rest, object out → Emits W cfg (.entries dir (pos + 1) l r) rest →
      Emits W cfg (.entries dir pos l r) (out ++ rest)) :
    Meets cfg W n (do
      if (← p) ≠ 0 then
        return -1
      invoke (.readdirLoop dir (pos + 1) l r)) (DirEnds cfg W (.readdirLoop dir pos l r) s) s := by
  refine wp.bind hp fun ret t ht => wp.guard (fun _ => nofun) fun hret => ?_
  obtain ⟨hup, out, hout, hsent⟩ := ht (not_not.mp hret)
  refine (ih (.readdirLoop dir (pos + 1) l r) t hup).mono fun ret u hu hr => ?_
  obtain ⟨hup, rest, hrest, hsent'⟩ := hu hr
  exact ⟨hup, _, hcons out rest hout hrest, by rw [hsent', hsent, announce_append,
    List.append_assoc]⟩

theorem readdirLoopBody_spec {dir : Handle} {pos : Nat} {l r : Path} (h : Up s) :
    Meets cfg W n (readdirLoopBody cfg dir pos l r)
      (DirEnds cfg W (.readdirLoop dir pos l r) s) s := by
  refine meets_ask trivial fun resp _ hread => ?_
  cases resp with
  | finish | failure =>
    exact wp.done fun _ => ⟨h, [], .finish _ hread (by simp), by simp [next]⟩
  | entry name =>
  change Meets cfg W n _ _ s
  dsimp only
  split
  · rename_i hdots
    exact skipEntry_spec ih h fun out hout => .dots hread hdots hout
  rename_i hdots
  refine wp.bind statEntry_spec ?_
  rintro st _ ⟨rfl, hst⟩
  cases st with
  | none =>
    exact skipEntry_spec ih h fun out hout => .skip none hread hdots hst (by simp) hout
  | some st =>
  dsimp only
  cases hk : st.kind with
  | directory =>
    cases hrec : cfg.recursive with
    | false =>
      refine skipEntry_spec ih h fun out hout => .skip (some st) hread hdots hst ?_ hout
      simp [hk, hrec]
    | true =>
      refine sendEntry_spec ih (ih (.sendDirectory _ _) _ (.inr h)) fun out rest hout => ?_
      exact .entry st hread hdots hst (fun _ => hrec) (.directory hk hout)
  | symlink =>
    refine sendEntry_spec ih (scpSendSymlink_spec (.inr h)) fun out rest hout => ?_
    exact .entry st hread hdots hst (by simp [hk]) (.link hk hout)
  | regular | other =>
    refine sendEntry_spec ih (scpSendFile_spec (.inr h)) fun out rest hout => ?_
    exact .entry st hread hdots hst (by simp [hk]) (.file (by simp [hk]) hout)

theorem scpSendDirectoryBody_spec {l r : Path} (h : Rest s) :
    Meets cfg W n (scpSendDirectoryBody l r) (DirEnds cfg W (.sendDirectory l r) s) s := by
  refine meets_ask trivial fun resp _ hopen => ?_
  cases resp with
  | none => exact wp.done nofun
  | some dir =>
  refine sendControl_spec (p := .dirEnter r) h trivial (Packet.length_encode _)
    (fun _ => meets_cleanup trivial) fun t ht hsent => ?_
  refine wp.bind (ih (.readdirLoop dir 0 l r) t ht) fun ret u hu => ?_
  split
  · exact meets_cleanup trivial
  rename_i hret
  obtain ⟨hup, out, hout, hsent'⟩ := hu (not_not.mp hret)
  refine meets_update trivial ?_
  have hup' := hup.update .countDir trivial
  have hlen : (Packet.encode .dirLeave).length = packetHeaderSize := Packet.length_encode _
  refine meets_store (Rest.mayFill (.inr hup') (inSlot_zero ?_)) fun m hm => ?_
  · rw [List.length_append, hlen, List.length_replicate]
    decide
  refine wp.bind (sendSessionBuf_spec (p := .dirLeave) hup'.mem trivial (.inl rfl)
    (inSlot_zero (by decide)) ?_) ?_
  · rw [hm]
    dsimp only
    exact Memory.load_store_append hlen
  rintro ret v (⟨hr, -⟩ | ⟨rfl, hv, hsent''⟩)
  · rw [if_pos hr]
    exact meets_cleanup trivial
  refine meets_ask trivial fun _ _ _ => wp.done fun _ => ⟨hv, _, .dir dir hopen hout, ?_⟩
  change v.ledger.sent = _
  rw [hsent'']
  change u.ledger.sent ++ _ = _
  rw [hsent', hsent]
  simp [next]

end Directories

theorem directory_spec {c : Call} (h : DirCall c s) :
    Meets cfg W n (invoke c) (DirEnds cfg W c s) s := by
  refine meets_recursion id DirCall (DirEnds cfg W) (fun n ih c s h => ?_) h
  cases c with
  | sendDirectory l r => exact scpSendDirectoryBody_spec ih h
  | readdirLoop dir pos l r => exact readdirLoopBody_spec ih h
  | waitForSlot | drainPendingAcks | waitForRdmaWriteCompletion => exact h.elim

/-! ## The whole run -/

/-- What a run that returns 0 leaves: the packets of the source were announced and
acknowledged, and after them the end packet, unless a verb failed there. -/
structure Finished (cfg : Config) (W : World) (l r : Path) (s t : State) : Prop where
  emitted : ∃ st out, Examines W cfg l (some st) ∧ Emits W cfg (.object l r st) out ∧
    (t.ledger.sent = s.ledger.sent ++ announce (out ++ [(0, .transferEnd)]) ∧ Up t ∨
      ¬W.Reliable)

theorem scpSenderRun_spec {l r : Path} (h : Rest s) :
    Meets cfg W n (scpSenderRun cfg l r) (Ends (Finished cfg W l r s)) s := by
  refine meets_ask trivial fun resp _ _ => ?_
  cases resp with
  | none => exact wp.done nofun
  | some _ =>
  refine wp.bind (statEntry_spec (s := s)) ?_
  rintro st _ ⟨rfl, hst⟩
  cases st with
  | none => exact wp.done nofun
  | some st =>
  refine wp.bind (sendObject_spec (fun _ _ h => directory_spec h) h) fun ret t ht => ?_
  refine wp.guard (fun hne hret => absurd hret hne) fun hret => ?_
  obtain ⟨hup, out, hout, hsent⟩ := ht (not_not.mp hret)
  have hend : (Packet.encode .transferEnd).length ≤ scpCombinedChunkSize :=
    Packet.length_encode_le trivial
  refine meets_store (Rest.mayFill (.inr hup) (inSlot_zero hend)) fun m hm => ?_
  refine meets_update trivial (meets_get ?_)
  have hup' := hup.mem (m := m)
  split
  case isFalse hno => exact absurd hup.session hno
  refine wp.bind (scpRdmaSendSync_spec (p := .transferEnd)
    (hup'.update (.setSge ⟨0, transferEndSize⟩) trivial) rfl (.inl rfl) trivial
    (inSlot_zero (show transferEndSize ≤ _ by decide)) ?_) ?_
  · simp only [gather, Update.apply, List.flatMap_cons, List.flatMap_nil, List.append_nil, hm]
    exact Memory.load_store_self _ _ _
  rintro ret u (⟨-, hrel⟩ | ⟨-, hu, hsent'⟩)
  · exact wp.done fun _ => ⟨st, out, hst, hout, .inr hrel⟩
  · refine wp.done fun _ => ⟨st, out, hst, hout, .inl ⟨?_, hu⟩⟩
    rw [hsent']
    change t.ledger.sent ++ _ = _
    rw [hsent, announce_append, List.append_assoc]

/-- Every run of the sender meets its duties, in every world. -/
theorem verified (cfg : Config) (W : World) (l r : Path) :
    Verified (bodies cfg) (semantics W) duties (scpSenderRun cfg l r)
      (Ends (Finished cfg W l r initState)) initState := fun _ => scpSenderRun_spec .init

end ScpRdma.Sender

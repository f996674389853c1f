import ScpRdma.Transfer.Operations

/-!
# Safety of a transfer

`Sound` holds in every state of every run: both programs are verified from where they stand,
the receiver against every feed that begins with the announced packets, and the two sides
agree. What the composed system guarantees is read off it: packets are decoded in order and
once, their slots are left alone until they are acknowledged, every signal finds a posted
receive, the rings of receive buffers are never overrun, and the sides never wait for each
other.
-/
namespace ScpRdma.Transfer
open Foundations

variable {F : Type} {S : Setup F} {c c' : Config F}

structure Sound (S : Setup F) (c : Config F) : Prop where
  sender : Verified (Sender.bodies S.cfg) (Sender.semantics S.world) Sender.duties c.sender
    (Sender.Ends (Sender.Finished S.cfg S.world S.localPath S.remotePath Sender.initState))
    c.sstate
  receiver : ∀ pkts, Continues pkts c.sstate.ledger.sent →
    Verified Receiver.bodies (Receiver.semantics S.files (.feed pkts))
      (Receiver.duties S.files pkts S.outputDir S.os) c.receiver (fun _ _ => True) c.rstate
  agree : Agree c.sstate.mem c.sstate.ledger c.rstate.qp c.rstate.ledger c.net

theorem Agree.init : Agree Sender.initState.mem Sender.initState.ledger .reset ⟨0, 0, [], none⟩
    .init where
  stream := rfl
  sources := nofun
  encoded := nofun
  slots := List.nodup_nil
  unacked := rfl
  landed := nofun
  acks := ⟨[], fun _ => rfl, rfl⟩
  orderFwd := ⟨[], rfl⟩
  orderBwd := ⟨[], rfl⟩
  ringFwd := .init _ _
  ringBwd := .init _ _
  recvCq := rfl
  sendCq := rfl
  recvOk := nofun
  sendOk := nofun
  handled := le_rfl
  taken := le_rfl
  decoded := nofun
  ready := by rintro (h | h) <;> cases h
  window := .inl rfl
  full := Nat.zero_le _
  first := .inl (Nat.zero_le _)
  ahead := .inl rfl
  posted := Nat.zero_le _
  writing := nofun

namespace Sound

theorem init (S : Setup F) : Sound S S.start where
  sender := Sender.verified S.cfg S.world S.localPath S.remotePath
  receiver := fun pkts h => Receiver.verified S.files pkts h.fits S.outputDir S.os
  agree := .init

/-- The packets that were announced are the beginning of some feed. -/
theorem continues (h : Sound S c) : ∃ pkts, Continues pkts c.sstate.ledger.sent :=
  exists_continues fun a ha => h.agree.encoded a (List.mem_append_left _ ha)

theorem senderDuty (h : Sound S c) {o : Sender.Op} {k : Sender.Response o → Sender Int}
    (hc : c.sender = .op o k) : Sender.Duty o c.sstate := by
  have := h.sender
  rw [hc] at this
  exact this.duty

theorem receiverDuty (h : Sound S c) {o : Receiver.Op} {k : Receiver.Response o → Receiver Int}
    (hc : c.receiver = .op o k) {pkts : Receiver.Feed}
    (hp : Continues pkts c.sstate.ledger.sent) :
    Receiver.Duty S.files pkts S.outputDir S.os o c.rstate := by
  have := h.receiver pkts hp
  rw [hc] at this
  exact this.duty

theorem callDuty (h : Sound S c) {f : Receiver.Call} {k : Int → Receiver Int}
    (hc : c.receiver = .call f k) : Receiver.CallDuty f c.rstate := by
  obtain ⟨pkts, hp⟩ := h.continues
  have := h.receiver pkts hp
  rw [hc] at this
  exact this.callDuty

/-- What was announced stays announced. -/
theorem sent_grows (o : Sender.Op) (st : Sender.State) (r : Sender.Response o) :
    st.ledger.sent <+: (Sender.next o st r).ledger.sent := by
  cases o with
  | postSend msg =>
    cases r with
    | false => exact List.prefix_rfl
    | true =>
      change st.ledger.sent <+: st.ledger.announce.sent
      unfold Sender.Ledger.announce
      split
      · exact List.prefix_rfl
      · exact List.prefix_append _ _
  | pread | modifyQp | postRecv | postWrite | waitCompletion => cases r <;> exact List.prefix_rfl
  | _ => exact List.prefix_rfl

/-- A step of either side, or of the adapter, keeps the whole system sound. -/
theorem step (h : Sound S c) (hstep : Step S c c') : Sound S c' := by
  have ⟨hs, hr, ha⟩ := h
  cases hstep with
  | senderOp r hc hallow hsee =>
    rw [hc] at hs
    exact ⟨hs.response r hallow, fun pkts hp => hr pkts (hp.of_prefix (sent_grows _ _ r)),
      ha.senderOp hs.duty hallow.1 hsee⟩
  | senderCall hc =>
    rw [hc] at hs
    exact ⟨hs.enter, hr, ha⟩
  | receiverOp r hc hpos hsee =>
    obtain ⟨pkts, hp⟩ := h.continues
    refine ⟨hs, fun pkts hp => ?_, ha.receiverOp hp (h.receiverDuty hc hp) hpos hsee⟩
    have hv := hr pkts hp
    rw [hc] at hv
    exact hv.response r ⟨hpos, ha.feeds hp hv.duty hsee⟩
  | receiverCall hc =>
    refine ⟨hs, fun pkts hp => ?_, ha⟩
    have hv := hr pkts hp
    rw [hc] at hv
    exact hv.enter
  | move hm => exact ⟨hs, hr, ha.move hm⟩

end Sound

/-- Every reachable state of a transfer is sound. -/
theorem sound (S : Setup F) : S.system.Invariant (Sound S) :=
  System.invariant_of_inductive (by rintro _ rfl; exact .init S) fun _ _ h hstep => h.step hstep

/-! ## Slots and packets -/

/-- The packets that were announced and whose ACK was not handled. -/
def unhandled (l : Sender.Ledger) : List Sender.Announced := l.sent.drop l.handled

/-- The range shares no byte with slot `s`. -/
def Apart (s : Slot) (off len : Nat) : Prop :=
  off + len ≤ slotBase s ∨ slotBase s + scpCombinedChunkSize ≤ off

/-- The operation changes no byte of slot `s` and posts no write into it. -/
def Spares (s : Slot) : Sender.Op → Prop
  | .store addr bs => Apart s addr bs.length
  | .pread _ addr len _ => Apart s addr len
  | .postWrite sges _ remote => ∀ m, Apart s remote (gather m sges).length
  | _ => True

/-- What the receiver decodes, and that its handling of a packet is what the packet says. -/
structure InOrder (S : Setup F) (c : Config F) : Prop where
  encoded : ∀ a ∈ c.sstate.ledger.sent, ∃ p : Packet, p.Fits ∧ a.bytes = p.encode
  decoded : ∀ (i : Nat) (d : Receiver.Decoded), (decodings c.rstate.ledger)[i]? = some d →
    ∃ a, c.sstate.ledger.sent[i]? = some a ∧ DecodedFrom d a
  applied : ∀ msg k pkts, c.receiver = .op (.postSend msg) k →
    Continues pkts c.sstate.ledger.sent → ∃ v, Receiver.Served S.files pkts S.outputDir S.os
      (c.rstate.ledger.acked.length + 1) v c.rstate.os

/-- Packets whose ACK was not handled keep their slots on both sides. -/
structure SlotsOwned (c : Config F) : Prop where
  distinct : ((unhandled c.sstate.ledger).map (·.slot)).Nodup
  spared : ∀ o k, c.sender = .op o k → ∀ a ∈ unhandled c.sstate.ledger, Spares a.slot o
  restart : ∀ k, c.sender = .op (.update .restart) k → unhandled c.sstate.ledger = []
  standing : ∀ i a, c.sstate.ledger.handled ≤ i → i < c.net.fwd.received.length →
    c.sstate.ledger.sent[i]? = some a →
    c.net.buf.load (slotBase a.slot) a.bytes.length = a.bytes

theorem apart_of_inSlot {s t : Slot} {off len : Nat} (h : InSlot t off len) (hne : s ≠ t) :
    Apart s off len := by
  have := InSlot.disjoint (inSlot_start (x := s) le_rfl) h hne
  unfold Apart
  omega

namespace Sound

theorem inOrder (h : Sound S c) : InOrder S c where
  encoded := fun a ha => h.agree.encoded a (List.mem_append_left _ ha)
  decoded := h.agree.decoded
  applied := fun _ _ _ hc hp => (h.receiverDuty hc hp).2.2

theorem slot_mem (h : Sound S c) {a : Sender.Announced} (ha : a ∈ unhandled c.sstate.ledger) :
    a.slot ∈ c.sstate.ledger.unacked := by
  rw [h.agree.unacked]
  exact List.mem_map_of_mem ha

theorem spares (h : Sound S c) {o : Sender.Op} {k : Sender.Response o → Sender Int}
    (hc : c.sender = .op o k) {a : Sender.Announced} (ha : a ∈ unhandled c.sstate.ledger) :
    Spares a.slot o := by
  have hD := h.senderDuty hc
  have hmem := h.slot_mem ha
  cases o with
  | store addr bs =>
    obtain ⟨-, s, hin, hs⟩ := hD
    exact apart_of_inSlot hin fun heq => hs (heq ▸ hmem)
  | pread fd addr len off =>
    obtain ⟨-, s, hin, hs⟩ := hD
    exact apart_of_inSlot hin fun heq => hs (heq ▸ hmem)
  | postWrite sges _ remote =>
    obtain ⟨-, -, s, rfl, hs, -, p, hfit, hp⟩ := hD
    intro m
    refine apart_of_inSlot (inSlot_start ?_) fun heq => hs (heq ▸ hmem)
    have := Packet.length_encode_le hfit
    rwa [← hp, length_gather, ← length_gather] at this
  | _ => trivial

theorem slotsOwned (h : Sound S c) : SlotsOwned c where
  distinct := by
    have := (List.nodup_append.mp h.agree.slots).1
    rwa [h.agree.unacked] at this
  spared := fun _ _ hc _ ha => h.spares hc ha
  restart := fun k hc => by
    have hnil := (h.senderDuty hc).2.2
    rw [h.agree.unacked, List.map_eq_nil_iff] at hnil
    exact hnil
  standing := fun i a hi hlt ha => by
    refine h.agree.landed i a hi (hlt.trans_le h.agree.received_le_writes) ?_
    rw [packets, List.getElem?_append_left (List.getElem?_eq_some_iff.mp ha).1, ha]

end Sound

/-- Packets are decoded in the order in which they were announced, each once and from the bytes
that were encoded; until its ACK is handled, nobody touches the slot of a packet. -/
theorem in_order_exactly_once (S : Setup F) :
    S.system.Invariant fun c => InOrder S c ∧ SlotsOwned c :=
  (sound S).mono fun _ h => ⟨h.inOrder, h.slotsOwned⟩

/-! ## Receives and credits -/

/-- Whatever arrives finds a posted receive, and the receiver's credits count those whose
completion it did not poll. -/
structure Provided (c : Config F) : Prop where
  signal : ∀ msg rest, c.net.fwd.wire = .send msg :: rest → Receives c.rstate.qp →
    c.net.fwd.rq ≠ []
  ack : ∀ msg rest, c.net.bwd.wire = .send msg :: rest → Receives c.sstate.qp →
    c.net.bwd.rq ≠ []
  head : ∀ loc k, c.receiver = .call (.receiveLoop loc) k →
    c.rstate.ctx.sessionEstablished = true →
    c.rstate.ctx.localCredits = c.net.fwd.rq.length + arrivals c.net.recvCq
  built : ∀ k, c.receiver = .call .cdcCompletion k →
    c.rstate.ctx.localCredits = c.net.fwd.rq.length + arrivals c.net.recvCq

namespace Sound

theorem signal_provided (h : Sound S c) {msg : Cdc} {rest : List (Frame Cdc)}
    (hwire : c.net.fwd.wire = .send msg :: rest) (hqp : Receives c.rstate.qp) :
    c.net.fwd.rq ≠ [] := by
  have ha := h.agree
  have hlt : c.net.fwd.received.length < c.sstate.ledger.sent.length := by
    have := congrArg (fun fs => (messages fs).length) ha.stream
    simp only [messages_traffic, Channel.stream, hwire, messages_append, messages,
      List.length_append, List.length_cons, List.length_map] at this
    simp only [Channel.received]
    omega
  refine ha.ringFwd.rq_ne_nil ?_
  have hready := ha.ready hqp
  rcases ha.first with hone | hfirst
  · omega
  · have hacked := ha.handled_le_acked
    have hunacked := ha.unacked_le
    have hne : c.rstate.ledger.acked ≠ [] := List.ne_nil_of_length_pos (by omega)
    have hwindow := ha.window.resolve_left hne
    simp only [dualBufferSlots] at hunacked
    omega

theorem ack_provided (h : Sound S c) {msg : Cdc} {rest : List (Frame Cdc)}
    (hwire : c.net.bwd.wire = .send msg :: rest) : c.net.bwd.rq ≠ [] := by
  have ha := h.agree
  obtain ⟨msgs, hstream, hids⟩ := ha.acks
  have hlt : c.net.bwd.received.length < c.rstate.ledger.acked.length := by
    have hlen := congrArg List.length hids
    have := congrArg (fun fs => (messages fs).length) (hstream c.sstate.mem)
    simp only [messages_map_send, Channel.stream, hwire, messages_append, messages,
      List.length_append, List.length_cons, List.length_map] at this hlen
    simp only [Channel.received]
    omega
  refine ha.ringBwd.rq_ne_nil ?_
  have hdec := ha.decoded_le_received
  have hrec := ha.received_le
  simp only [decodings, List.length_append] at hdec
  rcases ha.ahead with hnil | hahead
  · rw [hnil, List.length_nil] at hrec
    omega
  · omega

theorem credits (h : Sound S c) : (c.rstate.ledger.posted : Int) - c.rstate.ledger.polled =
    c.net.fwd.rq.length + arrivals c.net.recvCq := by
  have hlen := h.agree.ringFwd.length_rq
  have hbound := h.agree.ringFwd.bound
  have hcq := h.agree.recvCq
  omega

theorem provided (h : Sound S c) : Provided c where
  signal := fun _ _ hwire hqp => h.signal_provided hwire hqp
  ack := fun _ _ hwire _ => h.ack_provided hwire
  head := fun _ _ hc hest => (h.callDuty hc hest).trans h.credits
  built := fun _ hc => (h.callDuty hc).trans h.credits

end Sound

/-- No signal and no ACK ever comes before its receive. -/
theorem receiver_always_ready (S : Setup F) : S.system.Invariant Provided :=
  (sound S).mono fun _ h => h.provided

/-! ## Waiting for each other -/

/-- What a polling loop of the sender looks for. -/
def Seeks : Sender.Site → Wc → Prop
  | .waitForSlot _, wc | .drainPendingAcks, wc => wc.opcode = .recv
  | .waitForRdmaWriteCompletion, wc => wc.opcode = .rdmaWrite
  | .chunkLoop, _ => False

/-- Nothing is posted, under way or still to be reported. -/
def Settled (ch : Channel Cdc) : Prop := ch.sq = [] ∧ ch.wire = [] ∧ ch.retiring = []

/-- Both sides wait for a completion, and none of them will come. -/
structure Deadlocked (c : Config F) : Prop where
  sender : ∃ site maxWc timeoutMs k, site ≠ .chunkLoop ∧
    c.sender = .op (.waitCompletion site maxWc timeoutMs) k ∧
    ∀ wc ∈ c.net.sendCq, ¬Seeks site wc
  receiver : ∃ k, c.receiver = .op .pollCq k
  recvCq : ∀ wc ∈ c.net.recvCq, wc.opcode ≠ .recv
  fwd : Settled c.net.fwd
  bwd : Settled c.net.bwd

theorem arrivals_eq_zero {cq : List Wc} (h : ∀ wc ∈ cq, wc.opcode ≠ .recv) : arrivals cq = 0 := by
  refine List.countP_eq_zero.mpr fun wc hwc => ?_
  simp [h wc hwc]

namespace Sound

/-- Once everything has arrived and was polled, the receiver has acknowledged every packet. -/
theorem all_acked (h : Sound S c) {k} (hc : c.receiver = .op .pollCq k)
    (hcq : arrivals c.net.recvCq = 0) (hfwd : Settled c.net.fwd) :
    c.sstate.ledger.sent.length = c.rstate.ledger.acked.length := by
  obtain ⟨pkts, hp⟩ := h.continues
  obtain ⟨-, hpolled, -⟩ := h.receiverDuty hc hp
  have hsum := h.agree.recvCq
  have := congrArg (fun fs => (messages fs).length) h.agree.stream
  simp only [messages_traffic, Channel.stream, hfwd.1, hfwd.2.1, List.append_nil, List.map_nil,
    List.length_map] at this
  simp only [Channel.received] at hsum
  omega

/-- Once every ACK has arrived, the sender has the completions of all of them. -/
theorem acks_arrived (h : Sound S c) (hbwd : Settled c.net.bwd) :
    c.net.bwd.received.length = c.rstate.ledger.acked.length := by
  obtain ⟨msgs, hstream, hids⟩ := h.agree.acks
  have hlen := congrArg List.length hids
  have := congrArg (fun fs => (messages fs).length) (hstream c.sstate.mem)
  simp only [messages_map_send, Channel.stream, hbwd.1, hbwd.2.1, List.append_nil, List.map_nil,
    List.length_map] at this hlen
  simp only [Channel.received]
  omega

theorem not_deadlocked (h : Sound S c) : ¬Deadlocked c := by
  rintro ⟨⟨site, maxWc, timeoutMs, k, hsite, hc, hseek⟩, ⟨k', hc'⟩, hcq, hfwd, hbwd⟩
  obtain ⟨hsettled, hwaits⟩ := h.senderDuty hc
  have hacked := h.all_acked hc' (arrivals_eq_zero hcq) hfwd
  have harrived := h.acks_arrived hbwd
  -- a loop that looks for an ACK waits for one that was announced
  have hack : (∀ wc ∈ c.net.sendCq, wc.opcode ≠ .recv) → c.sstate.ledger.unacked = [] := by
    intro hnone
    have := h.agree.sendCq
    rw [arrivals_eq_zero hnone] at this
    rw [h.agree.unacked, List.drop_eq_nil_of_le (by omega), List.map_nil]
  cases site with
  | waitForSlot s =>
    have hmem : s ∈ c.sstate.ledger.unacked := hwaits.1
    simp [hack hseek] at hmem
  | drainPendingAcks => exact hwaits (hack hseek)
  | waitForRdmaWriteCompletion =>
    obtain ⟨sges, remote, hmem⟩ | ⟨remote, data, hmem⟩ | hmem | ⟨wc, hmem, hop⟩ :=
      h.agree.writing hwaits
    · rw [hfwd.1] at hmem
      cases hmem
    · rw [hfwd.2.1] at hmem
      cases hmem
    · rw [hfwd.2.2] at hmem
      cases hmem
    · exact hseek wc hmem hop
  | chunkLoop => exact hsite rfl

end Sound

/-- The two sides never wait for each other with nothing left to come. -/
theorem deadlock_free (S : Setup F) : S.system.Invariant fun c => ¬Deadlocked c :=
  (sound S).mono fun _ h => h.not_deadlocked

/-! ## The rings of receive buffers -/

/-- The sender's ring: the `k`-th receive is posted into buffer `k % 8`, which no outstanding
receive uses, and the `k`-th ACK is read from there. -/
structure SenderRing (c : Config F) : Prop where
  acquired : ∀ buf wrId k, c.sender = .op (.postRecv buf wrId) k →
    buf = c.sstate.ledger.posted % rdmaCdcRecvSlots ∧
    ∀ j, c.sstate.ledger.handled ≤ j → j < c.sstate.ledger.posted → buf ≠ j % rdmaCdcRecvSlots
  outstanding : c.sstate.ledger.posted ≤ c.sstate.ledger.handled + 5
  consumed : ∀ buf k, c.sender = .op (.readCdc buf) k →
    buf = c.sstate.ledger.handled % rdmaCdcRecvSlots ∧
    c.sstate.ledger.handled < c.sstate.ledger.polled ∧
    c.net.bwd.received[c.sstate.ledger.handled]? = some (c.net.bwd.bufs buf)
  settled : ∀ site maxWc timeoutMs k, c.sender = .op (.waitCompletion site maxWc timeoutMs) k →
    c.sstate.ledger.polled = c.sstate.ledger.handled

/-- The receiver's ring, and the second read of the buffer that was posted again. -/
structure ReceiverRing (c : Config F) : Prop where
  acquired : ∀ buf wrId k, c.receiver = .op (.postRecv buf wrId) k →
    buf = c.rstate.ledger.posted % rdmaCdcRecvSlots ∧
    ∀ j, c.rstate.ledger.polled ≤ j → j < c.rstate.ledger.posted → buf ≠ j % rdmaCdcRecvSlots
  outstanding : c.rstate.ledger.posted ≤ c.rstate.ledger.polled + rdmaCdcRecvSlots
  read : ∀ buf k, c.receiver = .op (.readCdc buf) k →
    buf = c.rstate.ledger.acked.length % rdmaCdcRecvSlots ∧
    c.net.fwd.received[c.rstate.ledger.acked.length]? = some (c.net.fwd.bufs buf)
  consumed : ∀ buf k, c.receiver = .op (.readCdc buf) k → c.rstate.ledger.current = none →
    c.rstate.ledger.polled = (decodings c.rstate.ledger).length + 1
  settled : ∀ k, c.receiver = .op .pollCq k →
    c.rstate.ledger.polled = (decodings c.rstate.ledger).length

/-- Fewer than `n` indices behind, a buffer of the ring is another one. -/
theorem ring_ne {n i j : Nat} (hij : j < i) (hlt : i < j + n) : i % n ≠ j % n := by
  intro heq
  have := Nat.le_of_dvd (by omega) ((Nat.modEq_iff_dvd' hij.le).mp heq.symm)
  omega

namespace Sound

theorem senderRing (h : Sound S c) : SenderRing c where
  acquired := fun buf wrId k hc => by
    obtain ⟨hbuf, hle⟩ := h.senderDuty hc
    refine ⟨hbuf, fun j hj hlt => hbuf ▸ ring_ne hlt ?_⟩
    simp only [dualBufferSlots, rdmaCdcRecvSlots] at *
    omega
  outstanding := h.agree.posted
  consumed := fun buf k hc => by
    obtain ⟨rfl, hlt⟩ := h.senderDuty hc
    have hrec : c.sstate.ledger.handled < c.net.bwd.received.length := by
      have := h.agree.sendCq
      omega
    exact ⟨rfl, hlt, h.agree.ack_kept hrec⟩
  settled := fun _ _ _ _ hc => (h.senderDuty hc).1

theorem receiverRing (h : Sound S c) : ReceiverRing c := by
  obtain ⟨pkts, hp⟩ := h.continues
  refine ⟨fun buf wrId k hc => ?_, h.agree.full, fun buf k hc => ?_, fun buf k hc hcur => ?_,
    fun k hc => ?_⟩
  · obtain ⟨hbuf, -, hlt⟩ := h.receiverDuty hc hp
    refine ⟨hbuf, fun j hj hlt' => hbuf ▸ ring_ne hlt' ?_⟩
    omega
  · obtain ⟨rfl, hnone⟩ := h.receiverDuty hc hp
    refine ⟨rfl, ?_⟩
    cases hcur : c.rstate.ledger.current with
    | none =>
      obtain ⟨hpolled, hposted⟩ := hnone hcur
      exact h.agree.signal_kept (by omega) (hposted ▸ h.agree.ringFwd.bound)
    | some d =>
      -- the buffer is posted again, and at most four packets wait for their ACK
      have hdec := h.agree.decoded_le_received
      have hrec := h.agree.received_le
      have hunacked := h.agree.unacked_le
      have hhandled := h.agree.handled_le_acked
      simp only [decodings, hcur, List.length_append, Option.toList_some, List.length_singleton,
        dualBufferSlots] at *
      refine h.agree.ringFwd.kept _ (by omega) ?_
      simp only [rdmaCdcRecvSlots]
      omega
  · obtain ⟨-, hnone⟩ := h.receiverDuty hc hp
    simp [decodings, hcur, (hnone hcur).1]
  · obtain ⟨hcur, hpolled, -⟩ := h.receiverDuty hc hp
    simp [decodings, hcur, hpolled]

end Sound

/-- On both sides buffers are used in posting order and still hold their message when they are
read, even the one that was posted again. -/
theorem receive_rings (S : Setup F) :
    S.system.Invariant fun c => SenderRing c ∧ ReceiverRing c :=
  (sound S).mono fun _ h => ⟨h.senderRing, h.receiverRing⟩

end ScpRdma.Transfer

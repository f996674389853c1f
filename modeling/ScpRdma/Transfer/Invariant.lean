import ScpRdma.Transfer.Composition

/-!
# What holds between the two sides

`Agree` relates the ledgers of the two programs to the network between them. Each operation
that meets its duty keeps it, and so does each move of the adapter; neither side's program is
looked at again.
-/
namespace ScpRdma.Transfer
open Foundations Sender

/-! ## The frames of the announced packets -/

/-- The write of a packet and the signal that announces it. -/
def frames (a : Announced) : List (Frame Cdc) :=
  [.write (slotBase a.slot) a.bytes, .send (Cdc.dataReady a.slot)]

/-- The packet whose write is posted and that is not announced yet. -/
def pending : Phase → List Announced
  | .idle => []
  | .written s bytes => [⟨s, bytes⟩]

/-- The packets whose write is posted. -/
def packets (l : Sender.Ledger) : List Announced := l.sent ++ pending l.phase

/-- Everything that was posted to the receiver. -/
def traffic (l : Sender.Ledger) : List (Frame Cdc) :=
  l.sent.flatMap frames ++ (pending l.phase).map fun a => .write (slotBase a.slot) a.bytes

/-- Where a packet goes and what it holds. -/
def placed (a : Announced) : Nat × Bytes := (slotBase a.slot, a.bytes)

@[simp] theorem messages_pending (ps : List Announced) :
    messages (ps.map fun a => (.write (slotBase a.slot) a.bytes : Frame Cdc)) = [] := by
  induction ps with
  | nil => rfl
  | cons a ps ih => simpa [messages] using ih

@[simp] theorem writes_pending (ps : List Announced) :
    writes (ps.map fun a => (.write (slotBase a.slot) a.bytes : Frame Cdc)) = ps.map placed := by
  induction ps with
  | nil => rfl
  | cons a ps ih => simpa [writes, placed] using ih

theorem messages_map_send (ms : List Cdc) : messages (ms.map Frame.send) = ms := by
  induction ms with
  | nil => rfl
  | cons a ms ih => simp [messages, ih]

theorem messages_frames (ps : List Announced) :
    messages (ps.flatMap frames) = ps.map fun a => Cdc.dataReady a.slot := by
  induction ps with
  | nil => rfl
  | cons a ps ih => simp [frames, messages, ih]

theorem writes_frames (ps : List Announced) : writes (ps.flatMap frames) = ps.map placed := by
  induction ps with
  | nil => rfl
  | cons a ps ih => simp [frames, writes, placed, ih]

theorem messages_traffic (l : Sender.Ledger) :
    messages (traffic l) = l.sent.map fun a => Cdc.dataReady a.slot := by
  simp [traffic, messages_frames]

theorem writes_traffic (l : Sender.Ledger) : writes (traffic l) = (packets l).map placed := by
  simp [traffic, packets, writes_frames]

/-- In what has landed no signal is ahead of its write. -/
theorem messages_le_writes {sent ps : List Announced} {landed rest : List (Frame Cdc)}
    (h : landed ++ rest = sent.flatMap frames ++
      ps.map fun a => .write (slotBase a.slot) a.bytes) :
    (messages landed).length ≤ (writes landed).length := by
  induction sent generalizing landed with
  | nil =>
    have := congrArg messages h
    simp only [messages_append, List.flatMap_nil, List.nil_append, messages_pending,
      List.append_eq_nil_iff] at this
    simp [this.1]
  | cons a sent ih =>
    match landed with
    | [] => simp [messages]
    | [f] =>
      simp only [List.flatMap_cons, frames, List.cons_append, List.nil_append,
        List.cons.injEq] at h
      simp [h.1, messages, writes]
    | f :: g :: landed =>
      simp only [List.flatMap_cons, frames, List.cons_append, List.nil_append,
        List.cons.injEq] at h
      have := ih h.2.2
      simp only [h.1, h.2.1, messages, writes, List.length_cons]
      omega

/-! ## The relation -/

/-- What was read of a packet are parts of its bytes, at their places in its slot. -/
structure DecodedFrom (d : Receiver.Decoded) (a : Announced) : Prop where
  slot : d.slotId = UInt8.ofNat a.slot.val
  loads : ∀ off bs, (off, bs) ∈ d.loads → ∃ i, off = slotBase a.slot + i ∧
    i + bs.length ≤ a.bytes.length ∧ bs = field a.bytes i bs.length

/-- The packets that the receiver decoded, the one in hand included. -/
def decodings (r : Receiver.Ledger) : List Receiver.Decoded := r.acked ++ r.current.toList

/-- A write whose completion was not polled. -/
def WriteOutstanding (net : Net) : Prop :=
  (∃ sges remote, .write sges remote ∈ net.fwd.sq) ∨
    (∃ remote data, .write remote data ∈ net.fwd.wire) ∨
    .rdmaWrite ∈ net.fwd.retiring ∨ ∃ wc ∈ net.sendCq, wc.opcode = .rdmaWrite

/-- The successful receive completions of a queue. -/
abbrev arrivals (cq : List Wc) : Nat := recvCount cq

structure Agree (m : Memory) (l : Sender.Ledger) (rqp : QpState) (r : Receiver.Ledger)
    (net : Net) : Prop where
  stream : net.fwd.stream m = traffic l
  sources : ∀ sges remote, .write sges remote ∈ net.fwd.sq →
    ∀ e ∈ sges, InSlot (slotAt remote) e.addr e.length
  encoded : ∀ a ∈ packets l, ∃ p : Packet, p.Fits ∧ a.bytes = p.encode
  slots : (l.unacked ++ (pending l.phase).map (·.slot)).Nodup
  unacked : l.unacked = (l.sent.drop l.handled).map (·.slot)
  landed : ∀ i a, l.handled ≤ i → i < (writes net.fwd.landed).length →
    (packets l)[i]? = some a → net.buf.load (slotBase a.slot) a.bytes.length = a.bytes
  acks : ∃ msgs : List Cdc, (∀ m', net.bwd.stream m' = msgs.map .send) ∧
    msgs.map (·.slotId) = r.acked.map (·.slotId)
  orderFwd : net.fwd.Orderly
  orderBwd : net.bwd.Orderly
  ringFwd : net.fwd.Ring rdmaCdcRecvSlots r.posted
  ringBwd : net.bwd.Ring rdmaCdcRecvSlots l.posted
  recvCq : r.polled + arrivals net.recvCq = net.fwd.received.length
  sendCq : l.polled + arrivals net.sendCq = net.bwd.received.length
  recvOk : ∀ wc ∈ net.recvCq, wc.ok = true
  sendOk : ∀ wc ∈ net.sendCq, wc.ok = true
  handled : l.handled ≤ l.polled
  taken : (decodings r).length ≤ r.polled
  decoded : ∀ (i : Nat) (d : Receiver.Decoded), (decodings r)[i]? = some d →
    ∃ a, l.sent[i]? = some a ∧ DecodedFrom d a
  ready : Receives rqp → 1 ≤ r.posted
  window : r.acked = [] ∨ r.acked.length + 7 ≤ r.posted
  full : r.posted ≤ r.polled + rdmaCdcRecvSlots
  first : l.sent.length ≤ 1 ∨ 1 ≤ l.handled
  ahead : l.sent = [] ∨ l.sent.length + 1 ≤ l.posted
  posted : l.posted ≤ l.handled + dualBufferSlots + 1
  writing : l.writePending = true → WriteOutstanding net

namespace Agree

variable {m : Memory} {l : Sender.Ledger} {rqp : QpState} {r : Receiver.Ledger} {net : Net}

theorem received_prefix (h : Agree m l rqp r net) :
    net.fwd.received <+: l.sent.map fun a => Cdc.dataReady a.slot := by
  refine ⟨messages (net.fwd.wire ++ net.fwd.sq.map (Wqe.frame m)), ?_⟩
  rw [← messages_traffic, ← h.stream]
  simp [Channel.stream, Channel.received]

theorem received_le (h : Agree m l rqp r net) : net.fwd.received.length ≤ l.sent.length := by
  simpa using h.received_prefix.length_le

theorem writes_prefix (h : Agree m l rqp r net) :
    writes net.fwd.landed <+: (packets l).map placed := by
  refine ⟨writes (net.fwd.wire ++ net.fwd.sq.map (Wqe.frame m)), ?_⟩
  rw [← writes_traffic, ← h.stream]
  simp [Channel.stream]

/-- The signal of a packet comes after its write. -/
theorem received_le_writes (h : Agree m l rqp r net) :
    net.fwd.received.length ≤ (writes net.fwd.landed).length := by
  have hs := h.stream
  rw [Channel.stream, List.append_assoc] at hs
  exact messages_le_writes hs

/-- The ACKs that arrived name the slots of the acknowledged packets. -/
theorem ack_slots (h : Agree m l rqp r net) :
    net.bwd.received.map (·.slotId) <+: r.acked.map (·.slotId) := by
  obtain ⟨msgs, hstream, hids⟩ := h.acks
  have hmsgs := congrArg messages (hstream m)
  rw [messages_map_send, Channel.stream, List.append_assoc, messages_append] at hmsgs
  rw [← hids, ← hmsgs, List.map_append]
  exact List.prefix_append _ _

theorem acked_received_le (h : Agree m l rqp r net) :
    net.bwd.received.length ≤ r.acked.length := by
  simpa using h.ack_slots.length_le

/-- The ends of the chain: what the sender handled the receiver acknowledged, and what that
decoded the sender announced. -/
theorem handled_le_acked (h : Agree m l rqp r net) : l.handled ≤ r.acked.length := by
  have := h.handled
  have := h.sendCq
  have := h.acked_received_le
  omega

theorem decoded_le_received (h : Agree m l rqp r net) :
    (decodings r).length ≤ net.fwd.received.length := by
  have := h.taken
  have := h.recvCq
  omega

theorem handled_le_received (h : Agree m l rqp r net) :
    l.handled ≤ net.fwd.received.length := by
  have := h.handled_le_acked
  have := h.decoded_le_received
  simp only [decodings, List.length_append] at this
  omega

theorem handled_le_sent (h : Agree m l rqp r net) : l.handled ≤ l.sent.length :=
  h.handled_le_received.trans h.received_le

/-- The packets that wait for their acknowledgement use different slots. -/
theorem nodup_packets (h : Agree m l rqp r net) :
    (((packets l).drop l.handled).map (·.slot)).Nodup := by
  have hs := h.slots
  rw [h.unacked] at hs
  rw [packets, List.drop_append_of_le_length h.handled_le_sent, List.map_append]
  exact hs

theorem slot_ne {i j : Nat} {a b : Announced} (h : Agree m l rqp r net) (hi : l.handled ≤ i)
    (hij : i < j) (ha : (packets l)[i]? = some a) (hb : (packets l)[j]? = some b) :
    a.slot ≠ b.slot := by
  have hget : ∀ {k : Nat} {c : Announced}, l.handled ≤ k → (packets l)[k]? = some c →
      (((packets l).drop l.handled).map (·.slot))[k - l.handled]? = some c.slot := by
    intro k c hk hc
    rw [List.getElem?_map, List.getElem?_drop, Nat.add_sub_cancel' hk, hc]
    rfl
  intro heq
  have hia := hget hi ha
  have hjb := hget (by omega) hb
  rw [← heq] at hjb
  have := (List.getElem?_inj (List.getElem?_eq_some_iff.mp hia).1 h.nodup_packets).mp
    (hia.trans hjb.symm)
  omega

theorem bytes_le {i : Nat} {a : Announced} (h : Agree m l rqp r net)
    (ha : (packets l)[i]? = some a) : a.bytes.length ≤ scpCombinedChunkSize := by
  obtain ⟨p, hfit, hp⟩ := h.encoded a (List.mem_of_getElem? ha)
  rw [hp]
  exact Packet.length_encode_le hfit

/-! ## Moves of the adapter -/

theorem arrivals_append (cq : List Wc) (wc : Wc) : arrivals (cq ++ [wc]) =
    arrivals cq + if wc.ok && wc.opcode = .recv then 1 else 0 := by
  simp [recvCount, List.countP_append, List.countP_cons]

theorem takeFwd {fwd : Channel Cdc} (h : Agree m l rqp r net)
    (ht : Channel.Take m net.fwd fwd) : Agree m l rqp r { net with fwd := fwd } := by
  have hstream := ht.stream
  have horder := h.orderFwd.take ht
  obtain ⟨hsq⟩ := ht
  rename_i w rest
  refine { h with
    stream := hstream.trans h.stream
    orderFwd := horder
    sources := fun sges remote hmem => h.sources sges remote (hsq ▸ List.mem_cons_of_mem _ hmem)
    ringFwd := h.ringFwd.of_eq rfl rfl rfl
    writing := fun hw => ?_ }
  obtain ⟨sges, remote, hmem⟩ | ⟨remote, data, hmem⟩ | hmem | hmem := h.writing hw
  · rw [hsq] at hmem
    obtain rfl | hmem := List.mem_cons.mp hmem
    · exact .inr (.inl ⟨remote, gather m sges, by simp [Wqe.frame]⟩)
    · exact .inl ⟨sges, remote, hmem⟩
  · exact .inr (.inl ⟨remote, data, List.mem_append_left _ hmem⟩)
  · exact .inr (.inr (.inl hmem))
  · exact .inr (.inr (.inr hmem))

theorem takeBwd {bwd : Channel Cdc} {m' : Memory} (h : Agree m l rqp r net)
    (ht : Channel.Take m' net.bwd bwd) : Agree m l rqp r { net with bwd := bwd } := by
  obtain ⟨msgs, hmsgs, hids⟩ := h.acks
  have horder := h.orderBwd.take ht
  obtain ⟨hsq⟩ := ht
  rename_i w rest
  refine { h with
    acks := ⟨msgs, fun m'' => ?_, hids⟩
    orderBwd := horder
    ringBwd := h.ringBwd.of_eq rfl rfl rfl }
  -- the request is a signal: the channel holds nothing else in any memory
  have hw : w.frame m' = w.frame m'' := by
    have := (hmsgs m').trans (hmsgs m'').symm
    simp only [Channel.stream, hsq, List.map_cons] at this
    exact (List.cons.inj (List.append_cancel_left this)).1
  have := hmsgs m''
  simp only [Channel.stream, hsq, List.map_cons] at this
  simpa [Channel.stream, hw] using this

/-- A write lands in a slot that no other waiting packet uses. -/
theorem landWrite {fwd : Channel Cdc} {remote : Nat} {data : Bytes} (h : Agree m l rqp r net)
    (hl : Channel.Land net.fwd (.write remote data) fwd) :
    Agree m l rqp r { net with fwd := fwd, buf := net.buf.store remote data } := by
  have hstream := hl.stream (m := m)
  have hring := h.ringFwd.land hl
  have horder := h.orderFwd.land hl
  have hrec := h.received_le_writes
  have hhandled := h.handled_le_received
  obtain ⟨hwire⟩ := hl
  rename_i rest
  have hwrites : writes (net.fwd.landed ++ [.write remote data]) =
      writes net.fwd.landed ++ [(remote, data)] := by simp [writes]
  have hreceived : messages (net.fwd.landed ++ [.write remote data]) = net.fwd.received := by
    simp [messages, Channel.received]
  have hprefix : writes net.fwd.landed ++ [(remote, data)] <+: (packets l).map placed := by
    rw [← writes_traffic, ← h.stream]
    exact ⟨writes rest ++ writes (net.fwd.sq.map (Wqe.frame m)), by
      simp [Channel.stream, hwire, writes]⟩
  -- the packet that lands
  obtain ⟨b, hb, hplaced⟩ : ∃ b, (packets l)[(writes net.fwd.landed).length]? = some b ∧
      placed b = (remote, data) := by
    have hj := List.prefix_iff_getElem?.mp hprefix (writes net.fwd.landed).length (by simp)
    rw [List.getElem?_map, Option.map_eq_some_iff] at hj
    simpa using hj
  obtain ⟨rfl, rfl⟩ := Prod.mk.inj hplaced
  refine { h with
    stream := hstream.trans h.stream
    landed := fun i a hi hlt ha => ?_
    orderFwd := horder
    ringFwd := hring
    recvCq := ?_
    writing := fun hw => ?_ }
  · change (net.buf.store (slotBase b.slot) b.bytes).load _ _ = _
    have hlt : i < (writes net.fwd.landed).length + 1 := by
      have := hwrites ▸ hlt
      simpa using this
    by_cases hib : i = (writes net.fwd.landed).length
    · subst hib
      obtain rfl : a = b := Option.some.inj (ha.symm.trans hb)
      exact Memory.load_store_self _ _ _
    · have hne := h.slot_ne hi (by omega) ha hb
      have hdisj :=
        InSlot.disjoint (inSlot_start (h.bytes_le ha)) (inSlot_start (h.bytes_le hb)) hne
      rw [Memory.load_store_disjoint hdisj]
      exact h.landed i a hi (by omega) ha
  · change r.polled + arrivals net.recvCq = (messages _).length
    rw [hreceived]
    exact h.recvCq
  · obtain hw | ⟨remote, data, hmem⟩ | hw | hw := h.writing hw
    · exact .inl hw
    · exact .inr (.inr (.inl (by simp)))
    · exact .inr (.inr (.inl (List.mem_append_left _ hw)))
    · exact .inr (.inr (.inr hw))

theorem landSignal {fwd : Channel Cdc} {wrId : Nat} (h : Agree m l rqp r net)
    (hl : Channel.Land net.fwd (.recv wrId) fwd) :
    Agree m l rqp r { net with fwd := fwd, recvCq := net.recvCq ++ [⟨.recv, true, wrId⟩] } := by
  have hstream := hl.stream (m := m)
  have hring := h.ringFwd.land hl
  have horder := h.orderFwd.land hl
  cases hl with
  | send hwire hrq =>
    rename_i msg rest buf rq
    refine { h with
      stream := hstream.trans h.stream
      landed := fun i a hi hlt => h.landed i a hi (by simpa [writes] using hlt)
      orderFwd := horder
      ringFwd := hring
      recvCq := ?_
      recvOk := fun wc hwc => ?_
      writing := fun hw => ?_ }
    · rw [arrivals_append]
      have := h.recvCq
      simp [Channel.received, messages] at this ⊢
      omega
    · obtain hwc | hwc := List.mem_append.mp hwc
      · exact h.recvOk wc hwc
      · simp at hwc
        simp [hwc]
    · obtain hw | ⟨remote, data, hmem⟩ | hw | hw := h.writing hw
      · exact .inl hw
      · rw [hwire] at hmem
        obtain hmem | hmem := List.mem_cons.mp hmem
        · cases hmem
        · exact .inr (.inl ⟨remote, data, hmem⟩)
      · exact .inr (.inr (.inl (List.mem_append_left _ hw)))
      · exact .inr (.inr (.inr hw))

theorem landAck {bwd : Channel Cdc} {wrId : Nat} (h : Agree m l rqp r net)
    (hl : Channel.Land net.bwd (.recv wrId) bwd) :
    Agree m l rqp r { net with bwd := bwd, sendCq := net.sendCq ++ [⟨.recv, true, wrId⟩] } := by
  obtain ⟨msgs, hmsgs, hids⟩ := h.acks
  have hring := h.ringBwd.land hl
  have hstream := fun m' => (hl.stream (m := m')).trans (hmsgs m')
  have hrec : bwd.received.length = net.bwd.received.length + 1 := by
    cases hl with
    | send => simp [Channel.received, messages]
  refine { h with
    acks := ⟨msgs, hstream, hids⟩
    orderBwd := h.orderBwd.land hl
    ringBwd := hring
    sendCq := ?_
    sendOk := fun wc hwc => ?_
    writing := fun hw => ?_ }
  · rw [hrec, arrivals_append]
    have := h.sendCq
    simp only [Bool.true_and, decide_true, if_true]
    omega
  · obtain hwc | hwc := List.mem_append.mp hwc
    · exact h.sendOk wc hwc
    · simp at hwc
      simp [hwc]
  · obtain hw | hw | hw | ⟨wc, hmem, hop⟩ := h.writing hw
    · exact .inl hw
    · exact .inr (.inl hw)
    · exact .inr (.inr (.inl hw))
    · exact .inr (.inr (.inr ⟨wc, List.mem_append_left _ hmem, hop⟩))

theorem retireFwd {fwd : Channel Cdc} {wc : Wc} (h : Agree m l rqp r net)
    (hr : Channel.Retire net.fwd wc fwd) :
    Agree m l rqp r { net with fwd := fwd, sendCq := net.sendCq ++ [wc] } := by
  have hstream := hr.stream (m := m)
  have horder := h.orderFwd.retire hr
  obtain ⟨hretiring⟩ := hr
  rename_i op rest
  have hne : op ≠ .recv := h.orderFwd.ne_recv (by simp [hretiring])
  refine { h with
    stream := hstream.trans h.stream
    orderFwd := horder
    ringFwd := h.ringFwd.of_eq rfl rfl rfl
    sendCq := ?_
    sendOk := fun wc hwc => ?_
    writing := fun hw => ?_ }
  · rw [arrivals_append]
    simpa [hne] using h.sendCq
  · obtain hwc | hwc := List.mem_append.mp hwc
    · exact h.sendOk wc hwc
    · simp at hwc
      simp [hwc]
  · obtain hw | hw | hw | ⟨wc, hmem, hw⟩ := h.writing hw
    · exact .inl hw
    · exact .inr (.inl hw)
    · rw [hretiring] at hw
      obtain hw | hw := List.mem_cons.mp hw
      · exact .inr (.inr (.inr ⟨⟨op, true, 0⟩, by simp, hw.symm⟩))
      · exact .inr (.inr (.inl hw))
    · exact .inr (.inr (.inr ⟨wc, List.mem_append_left _ hmem, hw⟩))

theorem retireBwd {bwd : Channel Cdc} {wc : Wc} (h : Agree m l rqp r net)
    (hr : Channel.Retire net.bwd wc bwd) :
    Agree m l rqp r { net with bwd := bwd, recvCq := net.recvCq ++ [wc] } := by
  have hstream := fun m' => hr.stream (m := m')
  have horder := h.orderBwd.retire hr
  obtain ⟨msgs, hmsgs, hids⟩ := h.acks
  obtain ⟨hretiring⟩ := hr
  rename_i op rest
  have hne : op ≠ .recv := h.orderBwd.ne_recv (by simp [hretiring])
  refine { h with
    acks := ⟨msgs, fun m' => (hstream m').trans (hmsgs m'), hids⟩
    orderBwd := horder
    ringBwd := h.ringBwd.of_eq rfl rfl rfl
    recvCq := ?_
    recvOk := fun wc hwc => ?_ }
  · rw [arrivals_append]
    simpa [hne] using h.recvCq
  · obtain hwc | hwc := List.mem_append.mp hwc
    · exact h.recvOk wc hwc
    · simp at hwc
      simp [hwc]

/-- Every move of the adapter keeps the two sides in agreement. -/
theorem move {sqp : QpState} {net' : Net} (h : Agree m l rqp r net) (hm : Move m sqp rqp net net') :
    Agree m l rqp r net' := by
  cases hm with
  | takeFwd _ ht => exact h.takeFwd ht
  | takeBwd _ ht => exact h.takeBwd ht
  | landWrite _ hl => exact h.landWrite hl
  | landSignal _ hl => exact h.landSignal hl
  | landAck _ hl => exact h.landAck hl
  | retireFwd hr => exact h.retireFwd hr
  | retireBwd hr => exact h.retireBwd hr

end Agree

end ScpRdma.Transfer

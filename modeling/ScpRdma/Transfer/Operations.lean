import ScpRdma.Transfer.Invariant

/-!
# Operations that keep both sides in agreement

Each operation of a side that meets its duty keeps `Agree`, whatever the network answers. The
operations of the receiver also need that the feed it is verified against begins with what the
sender announced; then what the network answers is what the feed would.
-/
namespace ScpRdma.Transfer
open Foundations Sender

namespace Agree

variable {m : Memory} {l : Sender.Ledger} {rqp : QpState} {r : Receiver.Ledger} {net : Net}

/-! ## Operations of the sender -/

/-- A waiting write reads from a slot that its packet still holds. -/
theorem source_slot (h : Agree m l rqp r net) {sges : List Sge} {remote : Nat}
    (hmem : .write sges remote ∈ net.fwd.sq) :
    slotAt remote ∈ l.unacked ++ (pending l.phase).map (·.slot) := by
  have hrest : (remote, gather m sges) ∈ ((packets l).map placed).drop
      (writes net.fwd.landed).length := by
    rw [← writes_traffic, ← h.stream, Channel.stream, writes_append, writes_append,
      List.append_assoc, List.drop_left]
    refine List.mem_append_right _ (mem_writes (List.mem_map.mpr ⟨_, hmem, rfl⟩))
  rw [← List.map_drop] at hrest
  obtain ⟨a, ha, hplaced⟩ := List.mem_map.mp hrest
  obtain ⟨rfl, -⟩ := Prod.mk.inj hplaced
  have hle := h.handled_le_received.trans h.received_le_writes
  have ha : a ∈ (packets l).drop l.handled := (List.drop_sublist_drop_left _ hle).subset ha
  rw [packets, List.drop_append_of_le_length h.handled_le_sent] at ha
  rw [slotAt_slotBase, h.unacked, ← List.map_append]
  exact List.mem_map.mpr ⟨a, ha, rfl⟩

theorem unacked_le (h : Agree m l rqp r net) : l.sent.length ≤ l.handled + dualBufferSlots := by
  have hlen := (List.nodup_append.mp h.slots).1.length_le_card
  rw [h.unacked] at hlen
  simp at hlen
  simp only [dualBufferSlots]
  omega

/-- The sender fills a slot that no waiting write reads. -/
theorem fill {s : Slot} {addr : Nat} {bs : Bytes} (h : Agree m l rqp r net)
    (hidle : l.phase = .idle) (hin : InSlot s addr bs.length) (hs : s ∉ l.unacked) :
    Agree (m.store addr bs) l rqp r net := by
  refine { h with stream := ?_ }
  refine Eq.trans (Channel.stream_congr fun sges remote hmem => ?_).symm h.stream
  refine gather_congr fun e he i hi hlt => (Memory.store_outside ?_).symm
  have hslot := h.source_slot hmem
  simp only [hidle, pending, List.map_nil, List.append_nil] at hslot
  have hne : slotAt remote ≠ s := fun heq => hs (heq ▸ hslot)
  have := InSlot.disjoint (h.sources sges remote hmem e he) hin hne
  omega

theorem postAckRecv {wrId : Nat} (h : Agree m l rqp r net)
    (hle : l.posted ≤ l.handled + dualBufferSlots) :
    Agree m { l with posted := l.posted + 1 } rqp r
      { net with bwd := net.bwd.postRecv (l.posted % rdmaCdcRecvSlots) wrId } := by
  refine { h with
    ringBwd := h.ringBwd.postRecv
    orderBwd := h.orderBwd.of_eq rfl rfl
    ahead := ?_
    posted := Nat.succ_le_succ hle }
  rcases h.ahead with hnil | hlt
  · exact .inl hnil
  · exact .inr (Nat.le_succ_of_le hlt)

theorem postWrite {s : Slot} {sges : List Sge} {p : Packet} (h : Agree m l rqp r net)
    (hidle : l.phase = .idle) (hs : s ∉ l.unacked) (hsges : ∀ e ∈ sges, InSlot s e.addr e.length)
    (hfit : p.Fits) (hp : gather m sges = p.encode) :
    Agree m { l with phase := .written s (gather m sges), writePending := true } rqp r
      { net with fwd := net.fwd.post (.write sges (slotBase s)) } := by
  have hpackets : packets l = l.sent := by simp [packets, hidle, pending]
  refine { h with
    stream := ?_
    sources := fun sges' remote hmem => ?_
    encoded := fun a ha => ?_
    slots := ?_
    landed := fun i a hi hlt ha => ?_
    orderFwd := h.orderFwd.of_eq rfl rfl
    ringFwd := h.ringFwd.of_eq rfl rfl rfl
    writing := fun _ => .inl ⟨sges, slotBase s, ?_⟩ }
  · rw [Channel.stream_post, h.stream]
    simp [traffic, hidle, pending, Wqe.frame]
  · obtain hmem | hmem := List.mem_append.mp hmem
    · exact h.sources sges' remote hmem
    · obtain ⟨rfl, rfl⟩ : sges' = sges ∧ remote = slotBase s := by simpa using hmem
      rw [slotAt_slotBase]
      exact hsges
  · obtain ha | ha := List.mem_append.mp ha
    · exact h.encoded a (hpackets.symm ▸ ha)
    · obtain rfl : a = ⟨s, gather m sges⟩ := by simpa [pending] using ha
      exact ⟨p, hfit, hp⟩
  · have hnodup := h.slots
    simp only [hidle, pending, List.map_nil, List.append_nil] at hnodup
    refine List.nodup_append.mpr ⟨hnodup, List.nodup_singleton _, fun x hx y hy => ?_⟩
    obtain rfl : y = s := by simpa [pending] using hy
    exact fun hxy => hs (hxy ▸ hx)
  · have hlen := h.writes_prefix.length_le
    rw [List.length_map, hpackets] at hlen
    refine h.landed i a hi hlt ?_
    rw [hpackets, ← ha, packets]
    exact (List.getElem?_append_left (lt_of_lt_of_le hlt hlen)).symm
  · exact List.mem_append_right _ List.mem_cons_self

theorem postSignal {s : Slot} {bytes : Bytes} (h : Agree m l rqp r net)
    (hphase : l.phase = .written s bytes) (hahead : l.sent.length + 2 ≤ l.posted)
    (hfirst : l.sent = [] ∨ 1 ≤ l.handled) :
    Agree m l.announce rqp r { net with fwd := net.fwd.post (.send (Cdc.dataReady s)) } := by
  rw [Ledger.announce_written hphase]
  have hpackets : packets l = l.sent ++ [⟨s, bytes⟩] := by simp [packets, hphase, pending]
  have hpackets' : packets { l with
      unacked := l.unacked ++ [s], phase := .idle, sent := l.sent ++ [⟨s, bytes⟩] } =
      packets l := by simp [packets, hphase, pending]
  refine { h with
    stream := ?_
    sources := fun sges remote hmem => ?_
    encoded := fun a ha => h.encoded a (hpackets' ▸ ha)
    slots := ?_
    unacked := ?_
    landed := fun i a hi hlt ha => h.landed i a hi hlt (hpackets' ▸ ha)
    orderFwd := h.orderFwd.of_eq rfl rfl
    ringFwd := h.ringFwd.of_eq rfl rfl rfl
    decoded := fun i d hd => ?_
    first := ?_
    ahead := .inr ?_
    writing := fun hw => ?_ }
  · rw [Channel.stream_post, h.stream]
    simp [traffic, hphase, pending, frames, Wqe.frame]
  · obtain hmem | hmem := List.mem_append.mp hmem
    · exact h.sources sges remote hmem
    · simp at hmem
  · have hnodup := h.slots
    simp only [hphase, pending, List.map_cons, List.map_nil] at hnodup
    simpa [pending] using hnodup
  · change l.unacked ++ [s] = _
    rw [h.unacked, List.drop_append_of_le_length h.handled_le_sent, List.map_append]
    rfl
  · obtain ⟨a, ha, hda⟩ := h.decoded i d hd
    exact ⟨a, by rw [List.getElem?_append_left (List.getElem?_eq_some_iff.mp ha).1, ha], hda⟩
  · rcases hfirst with hnil | hpos
    · exact .inl (by simp [hnil])
    · exact .inr hpos
  · simp only [List.length_append, List.length_singleton]
    omega
  · obtain ⟨sges, remote, hmem⟩ | hw | hw | hw := h.writing hw
    · exact .inl ⟨sges, remote, List.mem_append_left _ hmem⟩
    · exact .inr (.inl hw)
    · exact .inr (.inr (.inl hw))
    · exact .inr (.inr (.inr hw))

theorem arrivals_append_list (cq cq' : List Wc) :
    arrivals (cq ++ cq') = arrivals cq + arrivals cq' := List.countP_append

/-- A batch of completions leaves the queue. -/
theorem waitCompletion {wcs : List Wc} (h : Agree m l rqp r net) (hpre : wcs <+: net.sendCq) :
    Agree m { l with
        polled := l.polled + recvCount wcs
        writePending := l.writePending && !hasWrite wcs } rqp r
      { net with sendCq := net.sendCq.drop wcs.length } := by
  obtain ⟨rest, hrest⟩ := hpre
  have hdrop : net.sendCq.drop wcs.length = rest := by rw [← hrest, List.drop_left]
  rw [hdrop]
  have hsub : ∀ wc ∈ rest, wc ∈ net.sendCq := fun wc hwc => hrest ▸ List.mem_append_right _ hwc
  refine { h with
    sendCq := ?_
    sendOk := fun wc hwc => h.sendOk wc (hsub wc hwc)
    handled := Nat.le_add_right_of_le h.handled
    writing := fun hw => ?_ }
  · have := h.sendCq
    rw [← hrest, arrivals_append_list] at this
    simp only [arrivals] at this ⊢
    omega
  · obtain ⟨hwp, hno⟩ : l.writePending = true ∧ hasWrite wcs = false := by
      simpa using hw
    obtain hw | hw | hw | ⟨wc, hmem, hop⟩ := h.writing hwp
    · exact .inl hw
    · exact .inr (.inl hw)
    · exact .inr (.inr (.inl hw))
    · refine .inr (.inr (.inr ⟨wc, ?_, hop⟩))
      have hok := h.sendOk wc hmem
      rw [← hrest] at hmem
      refine (List.mem_append.mp hmem).resolve_left fun hin => ?_
      have : hasWrite wcs = true := List.any_eq_true.mpr ⟨wc, hin, by simp [hok, hop]⟩
      simp [this] at hno

/-- Fewer than eight ACKs are ever unhandled, so each is still in its buffer. -/
theorem acked_le (h : Agree m l rqp r net) : r.acked.length ≤ l.handled + dualBufferSlots := by
  have := h.decoded_le_received
  have := h.received_le
  have := h.unacked_le
  simp only [decodings, List.length_append] at *
  omega

theorem ack_kept (h : Agree m l rqp r net) (hlt : l.handled < net.bwd.received.length) :
    net.bwd.received[l.handled]? = some (net.bwd.bufs (l.handled % rdmaCdcRecvSlots)) := by
  refine h.ringBwd.kept l.handled hlt ?_
  have := h.acked_received_le
  have := h.acked_le
  simp only [dualBufferSlots, rdmaCdcRecvSlots] at *
  omega

/-- The oldest unhandled ACK is for the oldest unacknowledged packet. -/
theorem oldest_ack (h : Agree m l rqp r net) (hlt : l.handled < net.bwd.received.length) :
    ∃ a, l.sent[l.handled]? = some a ∧
      (net.bwd.bufs (l.handled % rdmaCdcRecvSlots)).slotId = UInt8.ofNat a.slot.val := by
  have hkept := h.ack_kept hlt
  have hacked : l.handled < r.acked.length := lt_of_lt_of_le hlt h.acked_received_le
  have hdec : (decodings r)[l.handled]? = some r.acked[l.handled] := by
    rw [decodings, List.getElem?_append_left hacked, List.getElem?_eq_getElem hacked]
  obtain ⟨a, ha, hda⟩ := h.decoded _ _ hdec
  refine ⟨a, ha, ?_⟩
  have hslot := List.prefix_iff_getElem?.mp h.ack_slots l.handled (by simpa using hlt)
  rw [List.getElem?_map, List.getElem?_eq_getElem hacked] at hslot
  have hget : net.bwd.received[l.handled] = net.bwd.bufs (l.handled % rdmaCdcRecvSlots) :=
    Option.some.inj ((List.getElem?_eq_getElem hlt).symm.trans hkept)
  simp only [Option.map_some, List.getElem_map, Option.some.injEq] at hslot
  rw [← hget, ← hslot, hda.slot]

theorem readAck (h : Agree m l rqp r net) (hlt : l.handled < l.polled) :
    Agree m (l.consume (net.bwd.bufs (l.handled % rdmaCdcRecvSlots))) rqp r net := by
  have hrec : l.handled < net.bwd.received.length := by
    have := h.sendCq
    omega
  obtain ⟨a, ha, hslot⟩ := h.oldest_ack hrec
  have hdrop : l.sent.drop l.handled = a :: l.sent.drop (l.handled + 1) := by
    obtain ⟨hlen, hget⟩ := List.getElem?_eq_some_iff.mp ha
    rw [List.drop_eq_getElem_cons hlen, hget]
  have hunacked : l.unacked = a.slot :: (l.sent.drop (l.handled + 1)).map (·.slot) := by
    rw [h.unacked, hdrop, List.map_cons]
  have hconsume : l.consume (net.bwd.bufs (l.handled % rdmaCdcRecvSlots)) = { l with
      handled := l.handled + 1
      unacked := (l.sent.drop (l.handled + 1)).map (·.slot) } := by
    simp only [Ledger.consume, Cdc.slot?_of_slotId hslot, hunacked, List.erase_cons_head]
  rw [hconsume]
  have hnodup := h.slots
  rw [hunacked, List.cons_append] at hnodup
  exact { h with
    slots := (List.nodup_cons.mp hnodup).2
    unacked := rfl
    landed := fun i b hi => h.landed i b (Nat.le_of_succ_le hi)
    handled := hlt
    first := .inr (Nat.le_add_left _ _)
    posted := Nat.le_succ_of_le h.posted }

/-- Every operation of the sender that meets its duty keeps the two sides in agreement. -/
theorem senderOp {st : Sender.State} {o : Sender.Op} {resp : Sender.Response o}
    (h : Agree st.mem st.ledger rqp r net) (hD : Sender.Duty o st)
    (hP : Sender.Possible o st resp) (hsee : net.senderSees o resp) :
    Agree (Sender.next o st resp).mem (Sender.next o st resp).ledger rqp r
      (net.afterSender o resp) := by
  cases o with
  | store addr bs =>
    obtain ⟨hidle, s, hin, hs⟩ := hD
    exact h.fill hidle hin hs
  | pread fd addr len off =>
    obtain ⟨hidle, s, hin, hs⟩ := hD
    cases resp with
    | none => exact h
    | some data =>
      exact h.fill hidle ⟨hin.1, (Nat.add_le_add_left hP addr).trans hin.2⟩ hs
  | postRecv buf wrId =>
    obtain ⟨rfl, hle⟩ := hD
    cases resp with
    | false => exact h
    | true => exact h.postAckRecv hle
  | postWrite sges _ remote =>
    obtain ⟨hidle, -, s, rfl, hs, hsges, p, hfit, hp⟩ := hD
    cases resp with
    | false => exact h
    | true =>
      have := h.postWrite hidle hs hsges hfit hp
      simpa only [Sender.next, Net.afterSender, slotAt_slotBase] using this
  | postSend msg =>
    obtain ⟨s, bytes, hphase, rfl, -, hahead, hfirst⟩ := hD
    cases resp with
    | false => exact h
    | true => exact h.postSignal hphase hahead hfirst
  | waitCompletion site maxWc timeoutMs =>
    cases resp with
    | none => exact h
    | some wcs => exact h.waitCompletion hsee
  | readCdc buf =>
    obtain ⟨rfl, hlt⟩ := hD
    obtain rfl : resp = _ := hsee
    exact h.readAck hlt
  | modifyQp qp => cases resp <;> exact h
  | _ => exact h

/-! ## Operations of the receiver -/

theorem postSignalRecv {wrId : Nat} (h : Agree m l rqp r net)
    (hlt : r.posted < r.polled + rdmaCdcRecvSlots) :
    Agree m l rqp { r with posted := r.posted + 1 }
      { net with fwd := net.fwd.postRecv (r.posted % rdmaCdcRecvSlots) wrId } := by
  refine { h with
    ringFwd := h.ringFwd.postRecv
    orderFwd := h.orderFwd.of_eq rfl rfl
    ready := fun _ => Nat.le_add_left _ _
    window := ?_
    full := hlt }
  rcases h.window with hnil | hle
  · exact .inl hnil
  · exact .inr (Nat.le_succ_of_le hle)

theorem postAck {d : Receiver.Decoded} {msg : Cdc} (h : Agree m l rqp r net)
    (hcur : r.current = some d) (hmsg : msg.slotId = d.slotId)
    (hposted : r.acked.length + rdmaCdcRecvSlots ≤ r.posted) :
    Agree m l rqp r.acknowledge { net with bwd := net.bwd.post (.send msg) } := by
  have hdec : decodings r.acknowledge = decodings r := by
    simp [decodings, Receiver.Ledger.acknowledge]
  obtain ⟨msgs, hstream, hids⟩ := h.acks
  refine { h with
    acks := ⟨msgs ++ [msg], fun m' => ?_, ?_⟩
    orderBwd := h.orderBwd.of_eq rfl rfl
    ringBwd := h.ringBwd.of_eq rfl rfl rfl
    taken := hdec ▸ h.taken
    decoded := hdec ▸ h.decoded
    window := .inr ?_ }
  · rw [Channel.stream_post, hstream, List.map_append]
    rfl
  · simp [Receiver.Ledger.acknowledge, hcur, hids, hmsg]
  · simp only [Receiver.Ledger.acknowledge, hcur, rdmaCdcRecvSlots] at *
    simp
    omega

theorem pollCq {wc : Wc} {cq : List Wc} {polled : Nat} (h : Agree m l rqp r net)
    (hcq : net.recvCq = wc :: cq)
    (hpolled : polled = r.polled + if wc.opcode = .recv then 1 else 0) :
    Agree m l rqp { r with polled := polled } { net with recvCq := cq } := by
  have hok : wc.ok = true := h.recvOk wc (hcq ▸ List.mem_cons_self)
  refine { h with
    recvCq := ?_
    recvOk := fun wc' hwc' => h.recvOk wc' (hcq ▸ List.mem_cons_of_mem _ hwc')
    taken := h.taken.trans ?_
    full := h.full.trans ?_ }
  · have hsum := h.recvCq
    rw [hcq] at hsum
    simp only [arrivals, recvCount, List.countP_cons, hok, Bool.true_and, decide_eq_true_eq] at *
    omega
  · change r.polled ≤ polled
    omega
  · change r.polled + _ ≤ polled + _
    omega

theorem signal_kept (h : Agree m l rqp r net) (hpolled : r.acked.length < r.polled)
    (hle : net.fwd.received.length ≤ r.acked.length + rdmaCdcRecvSlots) :
    net.fwd.received[r.acked.length]? =
      some (net.fwd.bufs (r.acked.length % rdmaCdcRecvSlots)) := by
  refine h.ringFwd.kept _ ?_ hle
  have := h.recvCq
  omega

/-- The packet whose signal was polled last. -/
theorem next_signal (h : Agree m l rqp r net) (hpolled : r.acked.length < r.polled)
    (hposted : r.posted = r.acked.length + rdmaCdcRecvSlots) :
    ∃ a, l.sent[r.acked.length]? = some a ∧
      net.fwd.bufs (r.acked.length % rdmaCdcRecvSlots) = Cdc.dataReady a.slot := by
  have hlt : r.acked.length < net.fwd.received.length := by
    have := h.recvCq
    omega
  have hkept := h.signal_kept hpolled (hposted ▸ h.ringFwd.bound)
  have hpre := List.prefix_iff_getElem?.mp h.received_prefix _ hlt
  rw [List.getElem?_eq_getElem hlt, Option.some.injEq] at hkept
  rw [List.getElem?_map, hkept, Option.map_eq_some_iff] at hpre
  obtain ⟨a, ha, hmsg⟩ := hpre
  exact ⟨a, ha, hmsg.symm⟩

theorem readSignal (h : Agree m l rqp r net) (hcur : r.current = none)
    (hpolled : r.polled = r.acked.length + 1)
    (hposted : r.posted = r.acked.length + rdmaCdcRecvSlots) :
    Agree m l rqp (r.receive (net.fwd.bufs (r.acked.length % rdmaCdcRecvSlots))) net := by
  obtain ⟨a, ha, hmsg⟩ := h.next_signal (by omega) hposted
  have hdec : decodings r = r.acked := by simp [decodings, hcur]
  simp only [Receiver.Ledger.receive, hcur]
  refine { h with
    taken := ?_
    decoded := fun i d hd => ?_ }
  · simp [decodings, hpolled]
  · obtain hlt | rfl | hgt := Nat.lt_trichotomy i r.acked.length
    · refine h.decoded i d ?_
      rw [hdec]
      simpa [decodings, List.getElem?_append_left hlt] using hd
    · obtain rfl : _ = d := by simpa [decodings] using hd
      exact ⟨a, ha, congrArg Cdc.slotId hmsg, by simp⟩
    · obtain ⟨hlen, -⟩ := List.getElem?_eq_some_iff.mp hd
      simp [decodings] at hlen
      omega

/-- A read of the packet in hand finds its bytes. -/
theorem current_load {d : Receiver.Decoded} (h : Agree m l rqp r net)
    (hcur : r.current = some d) : ∃ a, l.sent[r.acked.length]? = some a ∧
      DecodedFrom d a ∧ net.buf.load (slotBase a.slot) a.bytes.length = a.bytes := by
  have hget : (decodings r)[r.acked.length]? = some d := by simp [decodings, hcur]
  obtain ⟨a, ha, hda⟩ := h.decoded _ _ hget
  refine ⟨a, ha, hda, h.landed _ a h.handled_le_acked ?_ ?_⟩
  · have := h.decoded_le_received
    have := h.received_le_writes
    simp only [decodings, hcur, List.length_append, Option.toList_some, List.length_singleton] at *
    omega
  · rw [packets, List.getElem?_append_left (List.getElem?_eq_some_iff.mp ha).1, ha]

theorem load {d : Receiver.Decoded} {a : Announced} {i : Nat} {bs : Bytes}
    (h : Agree m l rqp r net) (hcur : r.current = some d)
    (ha : l.sent[r.acked.length]? = some a) (hin : i + bs.length ≤ a.bytes.length)
    (hbs : bs = field a.bytes i bs.length) :
    Agree m l rqp (r.read (slotBase a.slot + i) bs) net := by
  have hlen : (decodings (r.read (slotBase a.slot + i) bs)).length = (decodings r).length := by
    simp [decodings, Receiver.Ledger.read, hcur]
  refine { h with
    taken := hlen.symm ▸ h.taken
    decoded := fun j d' hd' => ?_ }
  obtain ⟨a', ha', hda⟩ := h.decoded r.acked.length d (by simp [decodings, hcur])
  obtain rfl : a' = a := Option.some.inj (ha'.symm.trans ha)
  obtain hlt | rfl | hgt := Nat.lt_trichotomy j r.acked.length
  · refine h.decoded j d' ?_
    simp only [decodings, Receiver.Ledger.read, List.getElem?_append_left hlt] at hd' ⊢
    exact hd'
  · obtain rfl : _ = d' := by simpa [decodings, Receiver.Ledger.read, hcur] using hd'
    refine ⟨a', ha, hda.slot, fun off bs' hmem => ?_⟩
    obtain hmem | hmem := List.mem_append.mp hmem
    · exact hda.loads off bs' hmem
    · obtain ⟨rfl, rfl⟩ : off = slotBase a'.slot + i ∧ bs' = bs := by simpa using hmem
      exact ⟨i, rfl, hin, hbs⟩
  · obtain ⟨hj, -⟩ := List.getElem?_eq_some_iff.mp hd'
    rw [hlen] at hj
    simp [decodings, hcur] at hj
    omega

end Agree

/-! ## The feed of the receiver -/

/-- The feed begins with the announced packets. -/
def Extends (pkts : Receiver.Feed) (sent : List Announced) : Prop :=
  ∀ (i : Nat) (a : Announced), sent[i]? = some a →
    (pkts i).1 = a.slot ∧ (pkts i).2.encode = a.bytes

/-- Every packet of the feed fits its slot, and the announced packets come first. -/
structure Continues (pkts : Receiver.Feed) (sent : List Announced) : Prop where
  fits : ∀ i, (pkts i).2.Fits
  sent : Extends pkts sent

theorem Continues.of_prefix {pkts : Receiver.Feed} {sent sent' : List Announced}
    (h : Continues pkts sent') (hpre : sent <+: sent') : Continues pkts sent := by
  obtain ⟨rest, rfl⟩ := hpre
  refine ⟨h.fits, fun i a ha => h.sent i a ?_⟩
  rw [List.getElem?_append_left (List.getElem?_eq_some_iff.mp ha).1, ha]

/-- What was announced is the beginning of some feed. -/
theorem exists_continues {sent : List Announced}
    (h : ∀ a ∈ sent, ∃ p : Packet, p.Fits ∧ a.bytes = p.encode) :
    ∃ pkts, Continues pkts sent := by
  have : Nonempty Packet := ⟨.dirLeave⟩
  choose! p hp using h
  refine ⟨fun i => match sent[i]? with
    | some a => (a.slot, p a)
    | none => (0, .dirLeave), fun i => ?_, fun i a ha => ?_⟩
  · cases ha : sent[i]? with
    | some a => exact (hp a (List.mem_of_getElem? ha)).1
    | none => trivial
  · rw [ha]
    exact ⟨rfl, (hp a (List.mem_of_getElem? ha)).2.symm⟩

section Receiver

variable {F : Type} {M : Semantics Receiver.fileSignature F} {pkts : Receiver.Feed}
  {outputDir : Option Receiver.Path} {os : F} {m : Memory} {l : Sender.Ledger}
  {st : Receiver.State F} {net : Net}

/-- The packet in hand, as the feed has it. -/
theorem Agree.current_feed {d : Receiver.Decoded} (h : Agree m l st.qp st.ledger net)
    (hp : Continues pkts l.sent) (hcur : st.ledger.current = some d) :
    ∃ a, l.sent[st.ledger.acked.length]? = some a ∧
      (pkts st.ledger.acked.length).1 = a.slot ∧
      (pkts st.ledger.acked.length).2.encode = a.bytes ∧
      net.buf.load (slotBase a.slot) a.bytes.length = a.bytes := by
  obtain ⟨a, ha, -, hload⟩ := h.current_load hcur
  obtain ⟨hslot, hbytes⟩ := hp.sent _ _ ha
  exact ⟨a, ha, hslot, hbytes, hload⟩

theorem load_drop {buf : Memory} {base i : Nat} {bs : Bytes}
    (h : buf.load base bs.length = bs) (hi : i ≤ bs.length) :
    buf.load (base + i) (bs.drop i).length = bs.drop i := by
  rw [List.length_drop, Memory.load_slice h (by omega), ← List.length_drop, List.take_length]

/-- What the network answers the receiver is what the feed would. -/
theorem Agree.feeds {o : Receiver.Op} {resp : Receiver.Response o}
    (h : Agree m l st.qp st.ledger net) (hp : Continues pkts l.sent)
    (hD : Receiver.Duty M pkts outputDir os o st) (hsee : net.receiverSees o resp) :
    Receiver.World.feed pkts o st resp := by
  cases o with
  | readCdc buf =>
    obtain ⟨rfl, hnone⟩ := hD
    obtain rfl : resp = _ := hsee
    intro hcur
    obtain ⟨hpolled, hposted⟩ := hnone hcur
    obtain ⟨a, ha, hmsg⟩ := h.next_signal (by omega) hposted
    rw [hmsg, (hp.sent _ _ ha).1]
    rfl
  | load off len =>
    obtain ⟨d, hcur⟩ := Option.ne_none_iff_exists'.mp hD.1
    obtain ⟨a, ha, hslot, hbytes, hload⟩ := h.current_feed hp hcur
    obtain rfl : resp = _ := hsee
    rintro i rfl hin
    rw [hbytes] at hin
    rw [hslot, hbytes]
    exact Memory.load_slice hload hin
  | loadCString off =>
    obtain ⟨d, hcur⟩ := Option.ne_none_iff_exists'.mp hD.1
    obtain ⟨a, ha, hslot, hbytes, hload⟩ := h.current_feed hp hcur
    rintro i rfl h0
    have htext : net.buf.StringAt (slotBase a.slot + i) resp := hslot ▸ hsee
    rw [hbytes] at h0 ⊢
    have hi : i ≤ a.bytes.length := by
      by_contra hlt
      rw [List.drop_eq_nil_of_le (by omega)] at h0
      cases h0
    exact (stringAt_eq htext (load_drop hload hi) h0).1
  | _ => trivial

/-- Every operation of the receiver that meets its duty keeps the two sides in agreement. -/
theorem Agree.receiverOp {o : Receiver.Op} {resp : Receiver.Response o}
    (h : Agree m l st.qp st.ledger net) (hp : Continues pkts l.sent)
    (hD : Receiver.Duty M pkts outputDir os o st) (hP : Receiver.Possible M o st resp)
    (hsee : net.receiverSees o resp) :
    Agree m l (Receiver.next M o st resp).qp (Receiver.next M o st resp).ledger
      (net.afterReceiver o resp) := by
  cases o with
  | load off len =>
    obtain ⟨d, hcur⟩ := Option.ne_none_iff_exists'.mp hD.1
    obtain ⟨i, rfl, hin⟩ := hD.2
    obtain ⟨a, ha, hslot, hbytes, hload⟩ := h.current_feed hp hcur
    obtain rfl : resp = _ := hsee
    rw [hbytes] at hin
    rw [hslot]
    refine h.load hcur ha (by simpa using hin) ?_
    rw [Memory.length_load]
    exact Memory.load_slice hload hin
  | loadCString off =>
    obtain ⟨d, hcur⟩ := Option.ne_none_iff_exists'.mp hD.1
    obtain ⟨i, rfl, h0⟩ := hD.2
    obtain ⟨a, ha, hslot, hbytes, hload⟩ := h.current_feed hp hcur
    have htext : net.buf.StringAt (slotBase a.slot + i) resp := hslot ▸ hsee
    rw [hbytes] at h0
    have hi : i < a.bytes.length := by
      by_contra hlt
      rw [List.drop_eq_nil_of_le (by omega)] at h0
      cases h0
    obtain ⟨-, hlen, htake⟩ := stringAt_eq htext (load_drop hload hi.le) h0
    rw [List.length_drop] at hlen
    have := h.load hcur ha (by omega) htake
    rwa [← hslot] at this
  | modifyQp qp =>
    cases resp with
    | false => exact h
    | true =>
      refine { h with ready := ?_ }
      rintro (rfl | rfl)
      · exact hD
      · exact hD
  | transDestroy => exact { h with ready := fun hqp => hqp.elim nofun nofun }
  | postRecv buf wrId =>
    obtain ⟨rfl, -, hlt⟩ := hD
    cases resp with
    | false => exact h
    | true => exact h.postSignalRecv hlt
  | postSend msg =>
    obtain ⟨⟨d, hcur, hmsg⟩, hposted, -⟩ := hD
    cases resp with
    | false => exact h
    | true => exact h.postAck hcur hmsg hposted
  | pollCq =>
    rcases resp with _ | _ | ⟨op, ok, wrId⟩
    · exact h
    · exact h
    · obtain ⟨cq, hcq⟩ := List.head?_eq_some_iff.mp hsee
      have hok : ok = true := h.recvOk _ (hcq ▸ List.mem_cons_self)
      subst hok
      have hpop := h.pollCq hcq rfl
      have htail : net.recvCq.tail = cq := by rw [hcq, List.tail_cons]
      simp only [Net.afterReceiver, htail]
      cases op with
      | recv => exact hpop
      | rdmaWrite => exact hpop
      | send => exact hpop
  | readCdc buf =>
    obtain ⟨rfl, hnone⟩ := hD
    obtain rfl : resp = _ := hsee
    cases hcur : st.ledger.current with
    | none =>
      obtain ⟨hpolled, hposted⟩ := hnone hcur
      exact h.readSignal hcur hpolled hposted
    | some d =>
      simp only [Receiver.next, Receiver.Ledger.receive, hcur]
      exact h
  | _ => exact h

end Receiver

end ScpRdma.Transfer

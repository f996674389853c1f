import ScpRdma.Transfer.Copy
import ScpRdma.Transfer.Safety

/-!
# The queues stay short

Both sides signal every request and poll only while they look for a receive completion, so the
queues are bounded only if the completions of a packet come in time. `Prompt` states that
order: a packet's own completions before that of its ACK, and those of an ACK before the
signal of any packet that could not be sent without it. `Reaped` is the invariant that ties
the order of a completion queue to what was polled; the bounds follow by counting.
-/
namespace ScpRdma.Transfer
open Foundations

/-- `QP_MAX_SEND_WR` -/
def qpMaxSendWr : Nat := 512
/-- `QP_MAX_RECV_WR` -/
def qpMaxRecvWr : Nat := 64
/-- `CQ_MAX_SIZE` -/
def cqMaxSize : Nat := (qpMaxSendWr + qpMaxRecvWr) * 3 / 2

/-- The completions of send requests in a queue. -/
def sends (cq : List Wc) : Nat := cq.countP fun wc => wc.opcode ≠ .recv

/-- The requests whose completion was queued. -/
def completed (ch : Channel Cdc) : Nat := ch.landed.length - ch.retiring.length

/-- The send requests that were posted and whose completion was not polled. -/
def unpolled (ch : Channel Cdc) (cq : List Wc) : Nat :=
  ch.sq.length + ch.wire.length + ch.retiring.length + sends cq

/-- When the ACK of packet `i` completes, so have its write and its signal. When the signal of
packet `k` completes, so have the ACKs without which it could not be sent: all but four of
those before it. -/
structure Prompt (net net' : Net) : Prop where
  ack : net.bwd.received.length < net'.bwd.received.length →
    2 * net'.bwd.received.length ≤ completed net.fwd
  signal : net.fwd.received.length < net'.fwd.received.length →
    net'.fwd.received.length ≤ completed net.bwd + dualBufferSlots

variable {F : Type} {S : Setup F} {c c' : Config F}

/-- The runs in which completions are prompt. -/
def Setup.prompt (S : Setup F) : System (Config F) where
  init c := c = S.start
  step c c' := Step S c c' ∧ Prompt c.net c'.net

/-! ## Polling in order -/

/-- Up to any place in the completion queue, `k` send completions come for every receive
completion, except for the first `slack`. -/
def Reaped (k slack polled : Nat) (ch : Channel Cdc) (cq : List Wc) : Prop :=
  ∀ pre, pre <+: cq → k * (polled + arrivals pre) + sends cq + ch.retiring.length ≤
    ch.landed.length + sends pre + slack

namespace Reaped

variable {k slack polled : Nat} {ch ch' : Channel Cdc} {cq : List Wc} {m : Memory}

theorem sends_append (cq cq' : List Wc) : sends (cq ++ cq') = sends cq + sends cq' :=
  List.countP_append

theorem now (h : Reaped k slack polled ch cq) :
    k * polled + sends cq + ch.retiring.length ≤ ch.landed.length + slack := by
  simpa [arrivals, Sender.recvCount, sends] using h [] List.nil_prefix

theorem of_eq (h : Reaped k slack polled ch cq) (hr : ch'.retiring = ch.retiring)
    (hl : ch'.landed = ch.landed) : Reaped k slack polled ch' cq := by
  intro pre hpre
  rw [hr, hl]
  exact h pre hpre

theorem land {a : Channel.Arrival} (h : Reaped k slack polled ch cq)
    (hl : Channel.Land ch a ch') : Reaped k slack polled ch' cq := by
  intro pre hpre
  have := h pre hpre
  cases hl with
  | write => simpa using by omega
  | send => simpa using by omega

/-- One more completion is queued; of a prefix only the whole queue is new. -/
theorem push {wc : Wc} (h : Reaped k slack polled ch cq)
    (hold : sends (cq ++ [wc]) + ch'.retiring.length + ch.landed.length ≤
      sends cq + ch.retiring.length + ch'.landed.length)
    (hnew : k * (polled + arrivals (cq ++ [wc])) + ch'.retiring.length ≤
      ch'.landed.length + slack) : Reaped k slack polled ch' (cq ++ [wc]) := by
  intro pre hpre
  rcases List.prefix_concat_iff.mp hpre with rfl | hpre
  · omega
  · have := h pre hpre
    omega

theorem retire {wc : Wc} (h : Reaped k slack polled ch cq) (horder : ch.Orderly)
    (hr : Channel.Retire ch wc ch') : Reaped k slack polled ch' (cq ++ [wc]) := by
  have hall := h cq List.prefix_rfl
  obtain ⟨hretiring⟩ := hr
  rename_i op rest
  have hop : op ≠ .recv := horder.ne_recv (by simp [hretiring])
  have hlen : ch.retiring.length = rest.length + 1 := by simp [hretiring]
  have harr : arrivals (cq ++ [⟨op, true, 0⟩]) = arrivals cq := by
    simp [Agree.arrivals_append, hop]
  have hsends : sends (cq ++ [⟨op, true, 0⟩]) = sends cq + 1 := by
    simp [sends, hop]
  refine h.push ?_ ?_
  · simp only [hsends]
    omega
  · rw [harr]
    simp only
    omega

/-- A receive completion comes behind the send completions that it presupposes. -/
theorem arrive {wrId : Nat} (h : Reaped k slack polled ch cq)
    (hprompt : k * (polled + arrivals cq + 1) ≤ completed ch + slack)
    (horder : ch.retiring.length ≤ ch.landed.length) :
    Reaped k slack polled ch (cq ++ [⟨.recv, true, wrId⟩]) := by
  refine h.push ?_ ?_
  · simp [sends]
  · have harr : arrivals (cq ++ [⟨.recv, true, wrId⟩]) = arrivals cq + 1 := by
      simp [Agree.arrivals_append]
    rw [harr, ← Nat.add_assoc]
    simp only [completed] at hprompt
    omega

theorem poll (wcs : List Wc) {rest : List Wc} (h : Reaped k slack polled ch (wcs ++ rest)) :
    Reaped k slack (polled + arrivals wcs) ch rest := by
  intro pre hpre
  have := h (wcs ++ pre) ((List.prefix_append_right_inj wcs).mpr hpre)
  rw [sends_append, sends_append, Agree.arrivals_append_list] at this
  rw [Nat.add_assoc polled]
  omega

end Reaped

/-! ## The bounds -/

/-- What prompt completions add to a sound state. -/
structure Counted (S : Setup F) (c : Config F) : Prop where
  sound : Sound S c
  sender : Reaped 2 0 c.sstate.ledger.polled c.net.fwd c.net.sendCq
  receiver : Reaped 1 dualBufferSlots c.rstate.ledger.polled c.net.bwd c.net.recvCq

theorem orderly_length {ch : Channel Cdc} (h : ch.Orderly) :
    ch.retiring.length ≤ ch.landed.length := by
  simpa using List.IsSuffix.length_le h

theorem received_recv {ch ch' : Channel Cdc} {wrId : Nat} (h : Channel.Land ch (.recv wrId) ch') :
    ch'.received.length = ch.received.length + 1 := by
  cases h with
  | send => simp [Channel.received, messages]

namespace Counted

theorem init (S : Setup F) : Counted S S.start := by
  refine ⟨.init S, fun pre hpre => ?_, fun pre hpre => ?_⟩
  all_goals
    obtain rfl := List.prefix_nil.mp hpre
    exact Nat.zero_le _

theorem move {net : Net} (h : Counted S c)
    (hm : Move c.sstate.mem c.sstate.qp c.rstate.qp c.net net) (hp : Prompt c.net net) :
    Reaped 2 0 c.sstate.ledger.polled net.fwd net.sendCq ∧
      Reaped 1 dualBufferSlots c.rstate.ledger.polled net.bwd net.recvCq := by
  have ha := h.sound.agree
  cases hm with
  | takeFwd _ ht => obtain ⟨-⟩ := ht; exact ⟨h.sender.of_eq rfl rfl, h.receiver⟩
  | takeBwd _ ht => obtain ⟨-⟩ := ht; exact ⟨h.sender, h.receiver.of_eq rfl rfl⟩
  | landWrite _ hl => exact ⟨h.sender.land hl, h.receiver⟩
  | landSignal _ hl =>
    have hrec := received_recv hl
    have hsignal := hp.signal (by simp only [hrec]; omega)
    refine ⟨h.sender.land hl, h.receiver.arrive ?_ (orderly_length ha.orderBwd)⟩
    rw [ha.recvCq]
    simp only [hrec] at hsignal
    omega
  | landAck _ hl =>
    have hrec := received_recv hl
    have hack := hp.ack (by simp only [hrec]; omega)
    refine ⟨h.sender.arrive ?_ (orderly_length ha.orderFwd), h.receiver.land hl⟩
    rw [ha.sendCq]
    simpa only [hrec, Nat.add_zero] using hack
  | retireFwd hr => exact ⟨h.sender.retire ha.orderFwd hr, h.receiver⟩
  | retireBwd hr => exact ⟨h.sender, h.receiver.retire ha.orderBwd hr⟩

theorem senderOp {o : Sender.Op} {r : Sender.Response o} (h : Counted S c)
    (hsee : c.net.senderSees o r) :
    Reaped 2 0 (Sender.next o c.sstate r).ledger.polled (c.net.afterSender o r).fwd
        (c.net.afterSender o r).sendCq ∧
      Reaped 1 dualBufferSlots c.rstate.ledger.polled (c.net.afterSender o r).bwd
        (c.net.afterSender o r).recvCq := by
  cases o with
  | postRecv | postWrite =>
    cases r with
    | false => exact ⟨h.sender, h.receiver⟩
    | true => exact ⟨h.sender.of_eq rfl rfl, h.receiver.of_eq rfl rfl⟩
  | postSend msg =>
    cases r with
    | false => exact ⟨h.sender, h.receiver⟩
    | true =>
      refine ⟨?_, h.receiver⟩
      have hpolled : c.sstate.ledger.announce.polled = c.sstate.ledger.polled := by
        unfold Sender.Ledger.announce
        split <;> rfl
      change Reaped 2 0 c.sstate.ledger.announce.polled _ _
      rw [hpolled]
      exact h.sender.of_eq rfl rfl
  | waitCompletion site maxWc timeoutMs =>
    cases r with
    | none => exact ⟨h.sender, h.receiver⟩
    | some wcs =>
      obtain ⟨rest, hrest⟩ := hsee
      refine ⟨?_, h.receiver⟩
      have hs := h.sender
      rw [← hrest] at hs
      have hdrop : c.net.sendCq.drop wcs.length = rest := by rw [← hrest, List.drop_left]
      change Reaped 2 0 (c.sstate.ledger.polled + arrivals wcs) c.net.fwd (c.net.sendCq.drop _)
      rw [hdrop]
      exact hs.poll
  | pread | modifyQp => cases r <;> exact ⟨h.sender, h.receiver⟩
  | _ => exact ⟨h.sender, h.receiver⟩

theorem receiverOp {o : Receiver.Op} {r : Receiver.Response o} (h : Counted S c)
    (hsee : c.net.receiverSees o r) :
    Reaped 2 0 c.sstate.ledger.polled (c.net.afterReceiver o r).fwd
        (c.net.afterReceiver o r).sendCq ∧
      Reaped 1 dualBufferSlots (Receiver.next S.files o c.rstate r).ledger.polled
        (c.net.afterReceiver o r).bwd (c.net.afterReceiver o r).recvCq := by
  cases o with
  | postRecv | postSend =>
    cases r with
    | false => exact ⟨h.sender, h.receiver⟩
    | true => exact ⟨h.sender.of_eq rfl rfl, h.receiver.of_eq rfl rfl⟩
  | pollCq =>
    rcases r with _ | _ | ⟨op, ok, wrId⟩
    · exact ⟨h.sender, h.receiver⟩
    · exact ⟨h.sender, h.receiver⟩
    · obtain ⟨cq, hcq⟩ := List.head?_eq_some_iff.mp hsee
      have hok : ok = true := h.sound.agree.recvOk _ (hcq ▸ List.mem_cons_self)
      subst hok
      refine ⟨h.sender, ?_⟩
      have hr := h.receiver
      rw [hcq] at hr
      have hpop := Reaped.poll [⟨op, true, wrId⟩] hr
      simp only [Net.afterReceiver, hcq, List.tail_cons]
      cases op <;> exact hpop
  | readCdc buf =>
    refine ⟨h.sender, ?_⟩
    have hpolled : (c.rstate.ledger.receive r).polled = c.rstate.ledger.polled := by
      unfold Receiver.Ledger.receive
      split <;> rfl
    change Reaped 1 dualBufferSlots (c.rstate.ledger.receive r).polled _ _
    rw [hpolled]
    exact h.receiver
  | modifyQp => cases r <;> exact ⟨h.sender, h.receiver⟩
  | _ => exact ⟨h.sender, h.receiver⟩

theorem step (h : Counted S c) (hstep : Step S c c') (hp : Prompt c.net c'.net) :
    Counted S c' := by
  have hsound := h.sound.step hstep
  cases hstep with
  | senderOp r _ _ hsee => exact ⟨hsound, (h.senderOp hsee).1, (h.senderOp hsee).2⟩
  | senderCall => exact ⟨hsound, h.sender, h.receiver⟩
  | receiverOp r _ _ hsee => exact ⟨hsound, (h.receiverOp hsee).1, (h.receiverOp hsee).2⟩
  | receiverCall => exact ⟨hsound, h.sender, h.receiver⟩
  | move hm => exact ⟨hsound, (h.move hm hp).1, (h.move hm hp).2⟩

end Counted

theorem counted (S : Setup F) : S.prompt.Invariant (Counted S) :=
  System.invariant_of_inductive (by rintro _ rfl; exact .init S) fun _ _ h hstep =>
    h.step hstep.1 hstep.2

theorem length_traffic (l : Sender.Ledger) :
    (traffic l).length = 2 * l.sent.length + (pending l.phase).length := by
  have : ∀ ps : List Sender.Announced, (ps.flatMap frames).length = 2 * ps.length := by
    intro ps
    induction ps with
    | nil => rfl
    | cons a ps ih => simp [frames, ih]; omega
  simp [traffic, this]

theorem length_cq {cq : List Wc} (h : ∀ wc ∈ cq, wc.ok = true) :
    cq.length = arrivals cq + sends cq := by
  induction cq with
  | nil => rfl
  | cons wc cq ih =>
    have hok := h wc List.mem_cons_self
    have := ih fun wc' hwc' => h wc' (List.mem_cons_of_mem _ hwc')
    by_cases hop : wc.opcode = .recv
    all_goals
      simp [arrivals, Sender.recvCount, sends, hok, hop] at this ⊢
      omega

/-- What waits in the queues of a side: posted send requests, posted receives and completions,
each until its completion is polled. -/
structure Bounded (c : Config F) : Prop where
  reaped : 2 * c.sstate.ledger.polled + sends c.net.sendCq + c.net.fwd.retiring.length ≤
    c.net.fwd.landed.length
  waiting : (packets c.sstate.ledger).length ≤ c.sstate.ledger.polled + dualBufferSlots
  sendQueue : unpolled c.net.fwd c.net.sendCq ≤ 2 * dualBufferSlots
  recvQueue : c.net.bwd.rq.length + arrivals c.net.sendCq ≤ dualBufferSlots + 1
  sendCq : c.net.sendCq.length ≤ 3 * dualBufferSlots
  ackQueue : unpolled c.net.bwd c.net.recvCq ≤ dualBufferSlots
  signalQueue : c.net.fwd.rq.length + arrivals c.net.recvCq ≤ rdmaCdcRecvSlots
  recvCq : c.net.recvCq.length ≤ 2 * dualBufferSlots

namespace Counted

theorem waiting (h : Counted S c) :
    (packets c.sstate.ledger).length ≤ c.sstate.ledger.handled + dualBufferSlots := by
  have hlen := h.sound.agree.nodup_packets.length_le_card
  simp only [List.length_map, List.length_drop, Fintype.card_fin] at hlen
  simp only [dualBufferSlots]
  omega

/-- At most two requests of each waiting packet were not polled. -/
theorem sendQueue (h : Counted S c) :
    unpolled c.net.fwd c.net.sendCq ≤ 2 * dualBufferSlots := by
  have hfwd := congrArg List.length h.sound.agree.stream
  have hreaped := h.sender.now
  have hwaiting := h.waiting
  have hhandled := h.sound.agree.handled
  rw [length_traffic] at hfwd
  simp only [packets, Channel.stream, List.length_append, List.length_map, unpolled,
    dualBufferSlots] at *
  omega

theorem ackQueue (h : Counted S c) : unpolled c.net.bwd c.net.recvCq ≤ dualBufferSlots := by
  obtain ⟨msgs, hstream, hids⟩ := h.sound.agree.acks
  have hbwd := congrArg List.length (hstream c.sstate.mem)
  have hmsgs := congrArg List.length hids
  have hreaped := h.receiver.now
  have htaken := h.sound.agree.taken
  simp only [decodings, Channel.stream, List.length_append, List.length_map, unpolled] at *
  omega

theorem recvQueue (h : Counted S c) :
    c.net.bwd.rq.length + arrivals c.net.sendCq ≤ dualBufferSlots + 1 := by
  have hrq := h.sound.agree.ringBwd.length_rq
  have hbound := h.sound.agree.ringBwd.bound
  have hposted := h.sound.agree.posted
  have hhandled := h.sound.agree.handled
  have hcq := h.sound.agree.sendCq
  omega

theorem signalQueue (h : Counted S c) :
    c.net.fwd.rq.length + arrivals c.net.recvCq ≤ rdmaCdcRecvSlots := by
  have hrq := h.sound.agree.ringFwd.length_rq
  have hbound := h.sound.agree.ringFwd.bound
  have hfull := h.sound.agree.full
  have hcq := h.sound.agree.recvCq
  omega

theorem sendCq_le (h : Counted S c) : c.net.sendCq.length ≤ 3 * dualBufferSlots := by
  have hlen := length_cq h.sound.agree.sendOk
  have hsends := h.sendQueue
  have hacked := h.sound.agree.acked_received_le
  have hle := h.sound.agree.acked_le
  have hhandled := h.sound.agree.handled
  have hcq := h.sound.agree.sendCq
  simp only [unpolled] at hsends
  omega

theorem recvCq_le (h : Counted S c) : c.net.recvCq.length ≤ 2 * dualBufferSlots := by
  have hlen := length_cq h.sound.agree.recvOk
  have hsends := h.ackQueue
  have hrec := h.sound.agree.received_le
  have hunacked := h.sound.agree.unacked_le
  have hacked := h.sound.agree.handled_le_acked
  have htaken := h.sound.agree.taken
  have hcq := h.sound.agree.recvCq
  simp only [unpolled, decodings, List.length_append] at hsends htaken
  omega

theorem bounded (h : Counted S c) : Bounded c where
  reaped := h.sender.now
  waiting := h.waiting.trans (Nat.add_le_add_right h.sound.agree.handled _)
  sendQueue := h.sendQueue
  recvQueue := h.recvQueue
  sendCq := h.sendCq_le
  ackQueue := h.ackQueue
  signalQueue := h.signalQueue
  recvCq := h.recvCq_le

end Counted

/-- However long the transfer, no queue of either side overflows. -/
theorem queues_bounded (S : Setup F) : S.prompt.Invariant fun c => Bounded c ∧
    unpolled c.net.fwd c.net.sendCq ≤ qpMaxSendWr ∧
    unpolled c.net.bwd c.net.recvCq ≤ qpMaxSendWr ∧
    c.net.bwd.rq.length + arrivals c.net.sendCq ≤ qpMaxRecvWr ∧
    c.net.fwd.rq.length + arrivals c.net.recvCq ≤ qpMaxRecvWr ∧
    c.net.sendCq.length ≤ cqMaxSize ∧ c.net.recvCq.length ≤ cqMaxSize := by
  refine (counted S).mono fun c h => ?_
  have hb := h.bounded
  refine ⟨hb, hb.sendQueue.trans (by decide), hb.ackQueue.trans (by decide),
    hb.recvQueue.trans (by decide), hb.signalQueue.trans (by decide),
    hb.sendCq.trans (by decide), hb.recvCq.trans (by decide)⟩

/-! ## A prompt run -/

instance (net net' : Net) : Decidable (Prompt net net') :=
  decidable_of_iff _ ⟨fun h => ⟨h.1, h.2⟩, fun h => And.intro h.ack h.signal⟩

/-- Whether each of `n` steps is prompt. -/
def promptly (D : Sender.Disk) (S : Setup FileSystem) : Nat → Config FileSystem → Bool
  | 0, _ => true
  | n + 1, c =>
    match advance D S c with
    | some c' => decide (Prompt c.net c'.net) && promptly D S n c'
    | none => true

theorem drive_prompt {D : Sender.Disk} {S : Setup FileSystem} (hD : Regular D)
    (hworld : S.world = working D) (hfiles : S.files = Receiver.unfailing) {n : Nat}
    (h : promptly D S n S.start = true) : S.prompt.Reachable (drive D S n S.start) := by
  have hall : ∀ c, S.prompt.Reachable c → promptly D S n c = true →
      S.prompt.Reachable (drive D S n c) := by
    clear h
    induction n with
    | zero => exact fun _ h _ => h
    | succ n ih =>
      intro c hreach hprompt
      unfold promptly at hprompt
      unfold drive
      cases hc : advance D S c with
      | none => exact hreach
      | some c' =>
        simp only [hc, Bool.and_eq_true, decide_eq_true_eq] at hprompt
        have hstep := step_of_advance hD hworld hfiles hc
        exact ih c' (hreach.tail ⟨hstep, hprompt.1⟩) hprompt.2
  exact hall _ (.of_init rfl) h

/-- A whole transfer with prompt completions. -/
theorem smallRun_prompt :
    (copying smallDisk [115] [100] (some Receiver.outputBase)
      Receiver.outputRoot).prompt.Reachable smallRun :=
  drive_prompt smallDisk_regular rfl rfl (by decide +kernel)

theorem queues_bounded_small : smallRun.sender = .done 0 ∧ Bounded smallRun :=
  ⟨smallRun_done, (queues_bounded _ smallRun smallRun_prompt).1⟩

end ScpRdma.Transfer

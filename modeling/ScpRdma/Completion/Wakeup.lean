import ScpRdma.Completion.Program

/-!
# No lost wake-up, no lost completion

Between the two polls of a call a completion that arrives stays in the queue, so whatever
event it causes is no secret: `Quiet` says that an empty queue comes with an empty channel.
Nothing that arrives breaks it, and draining the channel establishes it. The second poll
therefore finds the queue empty only if nothing has arrived since it was armed.
-/
namespace ScpRdma.Completion
open Foundations

variable {α : Type} {n : Nat} {Q : α → Device → Prop} {d e f : Device}

/-! ## Arrivals -/

@[simp] theorem foldl_arrive_queue (wcs : List Wc) (d : Device) :
    (wcs.foldl Device.arrive d).queue = d.queue ++ wcs := by
  induction wcs generalizing d with
  | nil => simp
  | cons wc wcs ih => simp [ih, Device.arrive]

/-- Apart from queue, event and arming, an arrival changes nothing. -/
theorem foldl_arrive_frame (wcs : List Wc) (d : Device) :
    wcs.foldl Device.arrive d = { d with
      queue := (wcs.foldl Device.arrive d).queue
      armed := (wcs.foldl Device.arrive d).armed
      events := (wcs.foldl Device.arrive d).events } := by
  induction wcs generalizing d with
  | nil => rfl
  | cons wc wcs ih => rw [List.foldl_cons, ih]; rfl

theorem events_le_foldl_arrive (wcs : List Wc) (d : Device) :
    d.events ≤ (wcs.foldl Device.arrive d).events := by
  induction wcs generalizing d with
  | nil => exact le_rfl
  | cons wc wcs ih =>
    refine le_trans ?_ (ih _)
    simp only [Device.arrive]
    split <;> omega

/-- Any arrival at an armed queue leaves an event for `epoll_wait`. -/
theorem arrive_wakes {wcs : List Wc} (h : wcs ≠ []) (harmed : d.armed = true) :
    0 < (wcs.foldl Device.arrive d).events := by
  cases wcs with
  | nil => exact absurd rfl h
  | cons wc wcs =>
    refine lt_of_lt_of_le ?_ (events_le_foldl_arrive wcs _)
    simp [Device.arrive, harmed]

@[simp] theorem tick_queue (d : Device) : d.tick.queue = d.queue ++ d.arrivals d.clock := by
  simp [Device.tick]

@[simp] theorem tick_clock (d : Device) : d.tick.clock = d.clock + 1 := rfl

theorem tick_frame (d : Device) : d.tick = { d with
    queue := d.tick.queue
    armed := d.tick.armed
    events := d.tick.events
    clock := d.clock + 1 } := by
  conv_lhs => rw [Device.tick, foldl_arrive_frame]
  rfl

@[simp] theorem tick_taken (d : Device) : d.tick.taken = d.taken := by rw [tick_frame]
@[simp] theorem tick_acked (d : Device) : d.tick.acked = d.acked := by rw [tick_frame]
@[simp] theorem tick_reports (d : Device) : d.tick.reports = d.reports := by rw [tick_frame]
@[simp] theorem tick_faults (d : Device) : d.tick.faults = d.faults := by rw [tick_frame]
@[simp] theorem tick_arrivals (d : Device) : d.tick.arrivals = d.arrivals := by rw [tick_frame]

/-- Without arrivals nothing happens between two verbs. -/
theorem tick_idle (h : d.arrivals d.clock = []) : d.tick = { d with clock := d.clock + 1 } := by
  simp [Device.tick, h]

/-- An event on the channel is the sign of a completion in the queue. -/
def Device.Quiet (d : Device) : Prop := d.queue = [] → d.events = 0

/-- The queue reports the next arrival. -/
def Device.Alert (d : Device) : Prop := d.queue = [] → d.events = 0 ∧ d.armed = true

theorem Device.Quiet.tick (h : d.Quiet) : d.tick.Quiet := by
  intro hq
  rw [tick_queue, List.append_eq_nil_iff] at hq
  rw [tick_idle hq.2]
  exact h hq.1

theorem Device.Alert.tick (h : d.Alert) : d.tick.Alert := by
  intro hq
  rw [tick_queue, List.append_eq_nil_iff] at hq
  rw [tick_idle hq.2]
  exact h hq.1

/-! ## What a piece of a call does to the device -/

/-- What arrived from one verb to another. -/
def Device.arrived (d : Device) (clock : Nat) : List Wc :=
  (List.range' d.clock (clock - d.clock)).flatMap d.arrivals

/-- The completions `out` were taken from the front of the queue, and nothing was lost. -/
structure Flow (d e : Device) (out : List Wc) : Prop where
  arrivals : e.arrivals = d.arrivals
  clock : d.clock ≤ e.clock
  queue : out ++ e.queue = d.queue ++ d.arrived e.clock

theorem Flow.refl (d : Device) : Flow d d [] := ⟨rfl, le_rfl, by simp [Device.arrived]⟩

theorem Flow.trans {out out' : List Wc} (h : Flow d e out) (g : Flow e f out') :
    Flow d f (out ++ out') := by
  refine ⟨g.arrivals.trans h.arrivals, h.clock.trans g.clock, ?_⟩
  have hsplit : d.arrived f.clock = d.arrived e.clock ++ e.arrived f.clock := by
    have hc := h.clock
    have gc := g.clock
    rw [Device.arrived, Device.arrived, Device.arrived, h.arrivals, ← List.flatMap_append,
      show f.clock - d.clock = (e.clock - d.clock) + (f.clock - e.clock) by omega,
      ← List.range'_append_1, show d.clock + (e.clock - d.clock) = e.clock by omega]
  rw [List.append_assoc, g.queue, ← List.append_assoc, h.queue, hsplit, List.append_assoc]

theorem arrived_succ (d : Device) : d.arrived (d.clock + 1) = d.arrivals d.clock := by
  simp [Device.arrived]

/-- One verb. -/
theorem Flow.tick {out : List Wc} (harr : e.arrivals = d.arrivals) (hclock : e.clock = d.clock + 1)
    (hq : out ++ e.queue = d.tick.queue) : Flow d e out :=
  ⟨harr, by omega, by rw [hq, hclock, arrived_succ, tick_queue]⟩

/-- A piece of a call: `pending` events are taken but not acknowledged, `epoll_wait` has
reported `woken` times, and no verb has failed. -/
structure Track (d e : Device) (pending woken : Nat) (out : List Wc) : Prop where
  flow : Flow d e out
  balance : e.acked + pending + d.taken = e.taken + d.acked
  reports : e.reports = d.reports + woken
  faults : e.faults = d.faults

namespace Track

variable {pending woken : Nat}

theorem refl (d : Device) : Track d d 0 0 [] := ⟨.refl d, by omega, rfl, rfl⟩

theorem pollCq {maxWc : Nat} {wcs : List Wc} (h : Track d e pending woken [])
    (hr : allow (.pollCq maxWc) e (some wcs)) :
    Track d (next (.pollCq maxWc) e (some wcs)) pending woken wcs := by
  obtain ⟨rest, hrest⟩ := hr.1
  refine ⟨h.flow.trans (.tick (tick_arrivals e) (tick_clock e) ?_), ?_, ?_, ?_⟩
  · simp only [next]
    rw [← hrest, List.drop_left]
  · simpa [next] using h.balance
  · simpa [next] using h.reports
  · simpa [next] using h.faults

theorem getCqEvent (h : Track d e pending woken []) :
    Track d (next .getCqEvent e true) (pending + 1) woken [] := by
  refine ⟨h.flow.trans (.tick (tick_arrivals e) (tick_clock e) rfl), ?_, ?_, ?_⟩
  · have := h.balance
    simp only [next, tick_acked, tick_taken]
    omega
  · simpa [next] using h.reports
  · simpa [next] using h.faults

theorem noEvent (h : Track d e pending woken []) :
    Track d (next .getCqEvent e false) pending woken [] := by
  refine ⟨h.flow.trans (.tick (tick_arrivals e) (tick_clock e) rfl), ?_, ?_, ?_⟩
  · simpa [next] using h.balance
  · simpa [next] using h.reports
  · simpa [next] using h.faults

theorem ackCqEvents (h : Track d e pending woken []) :
    Track d (next (.ackCqEvents pending) e ()) 0 woken [] := by
  refine ⟨h.flow.trans (.tick (tick_arrivals e) (tick_clock e) rfl), ?_, ?_, ?_⟩
  · have := h.balance
    simp only [next, tick_acked, tick_taken]
    omega
  · simpa [next] using h.reports
  · simpa [next] using h.faults

theorem reqNotifyCq (h : Track d e pending woken []) :
    Track d (next .reqNotifyCq e true) pending woken [] := by
  refine ⟨h.flow.trans (.tick (tick_arrivals e) (tick_clock e) rfl), ?_, ?_, ?_⟩
  · simpa [next] using h.balance
  · simpa [next] using h.reports
  · simpa [next] using h.faults

theorem ready {timeoutMs : Int} (h : Track d e pending woken []) :
    Track d (next (.epollWait timeoutMs) e .ready) pending (woken + 1) [] := by
  refine ⟨h.flow.trans (.tick (tick_arrivals e) (tick_clock e) rfl), ?_, ?_, ?_⟩
  · simpa [next] using h.balance
  · have := h.reports
    simp only [next, tick_reports]
    omega
  · simpa [next] using h.faults

theorem quietWait (h : Track d e pending woken []) :
    Track d e.tick pending woken [] :=
  ⟨h.flow.trans (.tick (tick_arrivals e) (tick_clock e) rfl), by simpa using h.balance,
    by simpa using h.reports, by simpa using h.faults⟩

end Track

/-! ## One call -/

/-- Where `epoll_wait` is entered nothing is unpolled, no event waits, and the next arrival
is reported. -/
def Duty : Op → Device → Prop
  | .epollWait _, d => d.queue = [] ∧ d.events = 0 ∧ d.armed = true
  | _, _ => True

def duties : Duties signature Device := ⟨Duty, fun _ _ => True⟩

abbrev Meets (n : Nat) (p : Completing α) (Q : α → Device → Prop) (d : Device) : Prop :=
  wp bodies device duties n p Q d

theorem meets_ask {o : Op} {g : Response o → Completing α} (hD : Duty o d)
    (h : ∀ r, allow o d r → Meets n (g r) Q (next o d r)) : Meets n (ask o >>= g) Q d :=
  wp.op hD h

/-- What a call returns: a prefix of the queue, which is not empty after a report, with every
event acknowledged. Only a verb that fails makes it an error. -/
structure Returned (maxWc : Nat) (d : Device) (r : Option (List Wc)) (e : Device) : Prop where
  flow : Flow d e (r.getD [])
  short : (r.getD []).length ≤ maxWc
  woken : d.reports < e.reports → e.faults = d.faults → ∃ wc wcs, r = some (wc :: wcs)
  balanced : r ≠ none → e.acked + d.taken = e.taken + d.acked
  failed : r = none → d.faults < e.faults

variable {maxWc woken : Nat} {timeoutMs : Int}

/-- The call returns `wcs`, which is not empty when `epoll_wait` has reported. -/
theorem Track.returned {wcs : List Wc} (h : Track d e 0 woken wcs) (hlen : wcs.length ≤ maxWc)
    (hne : wcs = [] → woken = 0) : Returned maxWc d (some wcs) e := by
  have hr := h.reports
  refine ⟨h.flow, hlen, fun hw _ => ?_, fun _ => by simpa using h.balance, nofun⟩
  cases wcs with
  | nil => have := hne rfl; omega
  | cons wc wcs => exact ⟨wc, wcs, rfl⟩

/-- A verb fails and the call returns -1. -/
theorem Track.broken {pending : Nat} (h : Track d e pending woken []) :
    Returned maxWc d none { e.tick with faults := e.tick.faults + 1 } := by
  have hf := h.faults
  refine ⟨h.flow.trans (.tick (tick_arrivals e) (tick_clock e) rfl), Nat.zero_le _, ?_, nofun, ?_⟩
  · intro _ he
    simp only [tick_faults] at he
    omega
  · intro _
    simp only [tick_faults]
    omega

/-- The drained channel is empty. -/
theorem drain_spec {drained : Nat} (h : Track d e drained 0 []) :
    Meets n (drain drained) (fun k f => Track d f k 0 [] ∧ f.Quiet) e := by
  refine wp.recursion (S := signature) (fun k : Nat => Call.drain k) (fun k e => Track d e k 0 [])
    (fun _ _ k f => Track d f k 0 [] ∧ f.Quiet) (fun _ _ _ => trivial) ?_ n drained e h
  intro n ih drained e h
  refine meets_ask trivial fun ok hok => ?_
  cases ok with
  | true => exact ih (drained + 1) _ h.getCqEvent
  | false =>
    have hnone : e.tick.events = 0 := by
      have : false = decide (0 < e.tick.events) := hok
      simpa using this.symm
    exact wp.done ⟨h.noEvent, fun _ => hnone⟩

/-- After a report the queue is not empty, so the last poll brings a completion. -/
theorem harvestEvent_spec (hmax : 0 < maxWc) (h : Track d e 0 woken []) (hevent : 0 < e.events)
    (hne : e.queue ≠ []) :
    Meets n (harvestEvent maxWc) (Returned maxWc d) e := by
  refine meets_ask trivial fun ok hok => ?_
  have htick : 0 < e.tick.events := hevent.trans_le (events_le_foldl_arrive _ e)
  obtain rfl : ok = true := Eq.trans hok (decide_eq_true htick)
  have hne₁ : e.tick.queue ≠ [] := by simp [hne]
  refine meets_ask trivial fun _ _ => meets_ask trivial fun ok _ => ?_
  have h₂ := h.getCqEvent.ackCqEvents
  cases ok with
  | false => exact wp.done h₂.broken
  | true =>
  have h₃ := h₂.reqNotifyCq
  refine wp.op trivial fun r hr => ?_
  cases r with
  | none => exact wp.done h₃.broken
  | some wcs =>
    refine wp.done ((h₃.pollCq hr).returned hr.2.1 fun h0 => absurd (hr.2.2 h0 hmax) ?_)
    simp [next, hne]

theorem armAndWait_spec (hmax : 0 < maxWc) (h : Track d e 0 0 []) (hquiet : e.Quiet) :
    Meets n (armAndWait maxWc timeoutMs) (Returned maxWc d) e := by
  refine meets_ask trivial fun ok _ => ?_
  cases ok with
  | false => exact wp.done h.broken
  | true =>
  have h₁ := h.reqNotifyCq
  have halert : (next .reqNotifyCq e true).Alert := fun hq => ⟨hquiet.tick hq, rfl⟩
  refine meets_ask trivial fun r hr => ?_
  match r with
  | none => exact wp.done h₁.broken
  | some (wc :: wcs) => exact wp.done ((h₁.pollCq hr).returned hr.2.1 fun _ => rfl)
  | some [] =>
  have h₂ := h₁.pollCq hr
  have hempty := hr.2.2 rfl hmax
  obtain ⟨hevents, harmed⟩ := halert.tick hempty
  refine meets_ask (o := .epollWait timeoutMs) ⟨hempty, hevents, harmed⟩ fun w hw => ?_
  cases w with
  | interrupted | timeout => exact wp.done (h₂.quietWait.returned (Nat.zero_le _) fun _ => rfl)
  | error => exact wp.done h₂.broken
  | ready =>
    refine harvestEvent_spec hmax h₂.ready hw fun hq => ?_
    have hquiet₂ : (next (.pollCq maxWc) (next .reqNotifyCq e true) (some [])).Quiet :=
      fun _ => hevents
    exact absurd (hquiet₂.tick hq) (Nat.ne_of_gt hw)

theorem rdmaAsyncWaitCompletion_spec (hmax : 0 < maxWc) :
    Meets n (rdmaAsyncWaitCompletion maxWc timeoutMs) (Returned maxWc d) d := by
  have h := Track.refl d
  unfold rdmaAsyncWaitCompletion
  refine meets_ask trivial fun r hr => ?_
  match r with
  | none => exact wp.done h.broken
  | some (wc :: wcs) => exact wp.done ((h.pollCq hr).returned hr.2.1 fun _ => rfl)
  | some [] =>
  refine wp.bind (drain_spec (h.pollCq hr)) ?_
  rintro drained e ⟨he, hquiet⟩
  dsimp only
  split
  · refine meets_ask trivial fun _ _ => armAndWait_spec hmax he.ackCqEvents ?_
    exact fun hq => hquiet.tick hq
  · rename_i hnone
    obtain rfl : drained = 0 := by omega
    exact armAndWait_spec hmax he hquiet

/-- Over successive calls every completion is returned once, in the order of the queue. -/
theorem waits_spec (calls : List (Nat × Int)) :
    Meets n (waits (calls.map fun c => (c.1 + 1, c.2))) (fun out e => Flow d e out) d := by
  induction calls generalizing d with
  | nil => exact wp.done (.refl d)
  | cons c calls ih =>
    refine wp.bind (rdmaAsyncWaitCompletion_spec (Nat.succ_pos c.1)) fun wcs e he => ?_
    refine wp.bind ih fun rest f hf => ?_
    exact wp.done (he.flow.trans hf)

/-! ## The call ends -/

/-- The events that a drain may still take: an armed queue may report one more. -/
def Device.reportable (d : Device) : Nat := d.events + if d.armed then 1 else 0

theorem reportable_foldl_arrive (wcs : List Wc) (d : Device) :
    (wcs.foldl Device.arrive d).reportable ≤ d.reportable := by
  induction wcs generalizing d with
  | nil => exact le_rfl
  | cons wc wcs ih =>
    refine (ih _).trans ?_
    simp only [Device.reportable, Device.arrive]
    split <;> simp

theorem reportable_tick (d : Device) : d.tick.reportable ≤ d.reportable := by
  have := reportable_foldl_arrive (d.arrivals d.clock) d
  simpa [Device.reportable, Device.tick] using this

theorem drain_ends {drained k : Nat} (h : d.reportable ≤ k) :
    Program.EndsWithin bodies device (2 * k + 2) (drain drained) d := by
  induction k generalizing d drained with
  | zero =>
    intro ok hok
    cases ok with
    | true =>
      have hpos : 0 < d.tick.events := by simpa using Eq.symm (show true = _ from hok)
      have := (reportable_tick d).trans h
      simp only [Device.reportable] at this
      omega
    | false => trivial
  | succ k ih =>
    intro ok hok
    cases ok with
    | true =>
      have hpos : 0 < d.tick.events := by simpa using Eq.symm (show true = _ from hok)
      refine ih (d := next .getCqEvent d true) ?_
      have := (reportable_tick d).trans h
      cases hb : d.tick.armed <;> simp [Device.reportable, next, hb] at this ⊢ <;> omega
    | false => exact .done

theorem harvestEvent_ends : Program.EndsWithin bodies device 4 (harvestEvent maxWc) d := by
  intro ok _
  cases ok with
  | false => exact .done
  | true =>
    intro _ _ ok _
    cases ok with
    | false => exact .done
    | true => exact fun _ _ => .done

theorem armAndWait_ends : Program.EndsWithin bodies device 7 (armAndWait maxWc timeoutMs) d := by
  intro ok _
  cases ok with
  | false => exact .done
  | true =>
    intro r _
    match r with
    | none | some (_ :: _) => exact .done
    | some [] =>
      intro w _
      cases w with
      | ready => exact harvestEvent_ends
      | _ => exact .done

/-- Only `epoll_wait` may keep a call waiting: everything else is a bounded number of verbs. -/
theorem rdmaAsyncWaitCompletion_ends : Program.EndsWithin bodies device (2 * d.reportable + 11)
    (rdmaAsyncWaitCompletion maxWc timeoutMs) d := by
  rw [show 2 * d.reportable + 11 = (2 * d.reportable + 2 + 8) + 1 by omega]
  intro r _
  match r with
  | none | some (_ :: _) => exact .done
  | some [] =>
    change Program.EndsWithin bodies device (2 * d.reportable + 2 + 8) (drain 0 >>= _)
      (next (.pollCq maxWc) d (some []))
    refine Program.EndsWithin.bind (drain_ends (reportable_tick d)) fun drained e => ?_
    dsimp only
    split
    · exact fun _ _ => armAndWait_ends
    · exact armAndWait_ends.mono (by omega)

/-! ## The guarantees of the function -/

/-- The runs of one call, and of a sequence of calls, on a device in any state. -/
abbrev callRun (maxWc : Nat) (timeoutMs : Int) (d : Device) :
    System (Completing (Option (List Wc)) × Device) :=
  Program.system bodies device (rdmaAsyncWaitCompletion maxWc timeoutMs) d

abbrev callsRun (calls : List (Nat × Int)) (d : Device) : System (Completing (List Wc) × Device) :=
  Program.system bodies device (waits calls) d

/-- For any content of queue and channel and any arrivals. Whenever `epoll_wait` is entered,
nothing is unpolled, no event waits, and every later arrival is reported. A call ends after a
bounded number of verbs; after a report, and with no failed verb, it returns a completion;
unless it returns an error, it has acknowledged the events that it took. Successive calls
return every completion once and in order. -/
theorem no_lost_wakeup (d : Device) (maxWc : Nat) (timeoutMs : Int) (calls : List (Nat × Int)) :
    (callRun (maxWc + 1) timeoutMs d).Invariant (fun c =>
      (∀ timeoutMs k, c.1 = .op (.epollWait timeoutMs) k →
        c.2.queue = [] ∧ c.2.events = 0 ∧ c.2.armed = true ∧
          ∀ wcs ≠ [], 0 < (wcs.foldl Device.arrive c.2).events) ∧
      ∀ r, c.1 = .done r →
        (d.reports < c.2.reports → c.2.faults = d.faults → ∃ wc wcs, r = some (wc :: wcs)) ∧
        (r ≠ none → c.2.acked + d.taken = c.2.taken + d.acked)) ∧
    Program.EndsWithin bodies device (2 * d.reportable + 11)
      (rdmaAsyncWaitCompletion (maxWc + 1) timeoutMs) d ∧
    (callsRun (calls.map fun c => (c.1 + 1, c.2)) d).Invariant (fun c =>
      ∀ out, c.1 = .done out → out ++ c.2.queue = d.queue ++ d.arrived c.2.clock) := by
  have hcall : Verified bodies device duties (rdmaAsyncWaitCompletion (maxWc + 1) timeoutMs) _ d :=
    fun _ => rdmaAsyncWaitCompletion_spec (Nat.succ_pos maxWc)
  have hcalls : Verified bodies device duties (waits (calls.map fun c => (c.1 + 1, c.2))) _ d :=
    fun _ => waits_spec calls
  refine ⟨hcall.runs.mono ?_, rdmaAsyncWaitCompletion_ends, hcalls.runs.mono ?_⟩
  · rintro ⟨p, e⟩ he
    refine ⟨?_, ?_⟩
    · rintro timeoutMs k rfl
      obtain ⟨hq, hevents, harmed⟩ := he.duty
      exact ⟨hq, hevents, harmed, fun _ hne => arrive_wakes hne harmed⟩
    · rintro r rfl
      exact ⟨he.post.woken, he.post.balanced⟩
  · rintro ⟨p, e⟩ he out rfl
    exact he.post.queue

end ScpRdma.Completion

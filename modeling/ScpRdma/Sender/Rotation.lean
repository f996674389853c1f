import ScpRdma.Sender.Accounting

/-!
# The rotation of the slots

When ACKs come in the order of the packets, the busy slots are a window: they are the
`pending_acks` slots before `current_slot`, going round. The window is stored nowhere. It follows
from the packets announced so far, of which those not acknowledged are the last ones, and from the
slots of the last ones, which went round from slot 0.
-/
namespace ScpRdma.Sender
open Foundations

variable {cfg : Config} {W : World} {l r : Path} {st : State}

/-- An ACK is for the packet that waits longest for one. -/
def AcksInOrder : (o : Op) → State → Response o → Prop
  | .readCdc _, st, msg => ∃ s rest, st.ledger.unacked = s :: rest ∧ msg.slot? = some s
  | _, _, _ => True

/-- The sender with a peer that acknowledges in order. -/
def inOrder (W : World) : Semantics signature State where
  allow o st r := (semantics W).allow o st r ∧ AcksInOrder o st r
  next := next

/-- The packets that are not acknowledged are the last ones. -/
structure Trailing (st : State) : Prop where
  handled : st.ledger.handled ≤ st.ledger.sent.length
  unacked : st.ledger.unacked = (st.ledger.sent.map Announced.slot).drop st.ledger.handled

theorem Trailing.announce (h : Trailing st) :
    Trailing { st with ledger := st.ledger.announce } := by
  cases hphase : st.ledger.phase with
  | idle =>
    have hsame : st.ledger.announce = st.ledger := by rw [Ledger.announce, hphase]
    rwa [hsame]
  | written s bytes =>
    rw [Ledger.announce_written hphase]
    refine ⟨h.handled.trans (by simp), ?_⟩
    simp only [List.map_append, List.map_cons, List.map_nil]
    rw [List.drop_append_of_le_length (by simpa using h.handled), h.unacked]

theorem Trailing.consume {msg : Cdc} {s : Slot} {rest : List Slot} (h : Trailing st)
    (hu : st.ledger.unacked = s :: rest) (hs : msg.slot? = some s) :
    Trailing { st with ledger := st.ledger.consume msg } := by
  have hdrop := h.unacked
  rw [hu] at hdrop
  have hlt : st.ledger.handled < st.ledger.sent.length := by
    by_contra hle
    rw [List.drop_eq_nil_of_le (by simpa using hle)] at hdrop
    cases hdrop
  refine ⟨hlt, ?_⟩
  simp only [Ledger.consume, hs, hu, List.erase_cons_head]
  rw [← List.drop_drop, ← hdrop]
  rfl

theorem Trailing.next {o : Op} {x : Response o} (h : Trailing st) (hx : AcksInOrder o st x) :
    Trailing (next o st x) := by
  cases o with
  | readCdc buf =>
    obtain ⟨s, rest, hu, hs⟩ := hx
    exact h.consume hu hs
  | postSend msg =>
    cases x with
    | false => exact h
    | true => exact h.announce
  | undefined => nomatch x
  | pread | modifyQp | postRecv | postWrite | waitCompletion =>
    cases x <;> exact ⟨h.handled, h.unacked⟩
  | _ => exact ⟨h.handled, h.unacked⟩

/-! ## The window -/

/-- The `k` slots before `s`, going round. -/
def preceding (s : Slot) (k : Nat) : Finset Slot :=
  (Finset.range k).image fun d => s - Fin.ofNat 4 (d + 1)

/-- The busy slots are the `pending_acks` slots before the current one, going round. -/
structure Ctx.Windowed (c : Ctx) : Prop where
  bounds : 0 ≤ c.pendingAcks ∧ c.pendingAcks ≤ dualBufferSlots
  busy : c.busySlots = preceding c.currentSlot c.pendingAcks.toNat

theorem mem_drop_rotation {m n : Nat} {x : Slot} :
    x ∈ (rotation n).drop m ↔ ∃ d < n - m, Fin.ofNat 4 n - Fin.ofNat 4 (d + 1) = x := by
  have hsub : ∀ d < n - m, Fin.ofNat 4 n - Fin.ofNat 4 (d + 1) = Fin.ofNat 4 (n - (d + 1)) := by
    intro d hd
    ext
    simp only [Fin.sub_def, Fin.ofNat]
    omega
  rw [rotation, ← List.map_drop, List.mem_map]
  simp only [List.mem_drop_iff_getElem, List.getElem_range, List.length_range]
  constructor
  · rintro ⟨_, ⟨i, hi, rfl⟩, rfl⟩
    have hd : n - (m + i + 1) < n - m := by omega
    refine ⟨n - (m + i + 1), hd, ?_⟩
    rw [hsub _ hd]
    congr 1
    omega
  · rintro ⟨d, hd, rfl⟩
    refine ⟨n - (d + 1), ⟨n - (d + 1) - m, by omega, by omega⟩, (hsub d hd).symm⟩

/-- Packets that went round and are acknowledged in order leave a window of busy slots. -/
theorem windowed_of_trailing (h : Trailing st) (hround : GoesRound st) (hbook : Booked st) :
    st.ctx.Windowed := by
  obtain ⟨before, n, hsent, hle, hcur⟩ := hround
  have hu : st.ledger.unacked = (rotation n).drop (st.ledger.handled - before.length) := by
    rw [h.unacked, hsent, List.drop_append, List.drop_eq_nil_of_le hle, List.nil_append]
  have hlen : st.ledger.unacked.length = n - (st.ledger.handled - before.length) := by
    rw [hu]
    simp [rotation]
  refine ⟨⟨hbook.pending ▸ Int.natCast_nonneg _, ?_⟩, ?_⟩
  · have hcard := hbook.nodup.length_le_card
    rw [Fintype.card_fin] at hcard
    rw [hbook.pending]
    exact Int.ofNat_le.mpr hcard
  · ext x
    have hbusy : st.ctx.slotFree x = false ↔ x ∈ st.ledger.unacked := by
      rw [← Bool.not_eq_true, hbook.free, not_not]
    rw [mem_busySlots, hbusy, hu, mem_drop_rotation, preceding, Finset.mem_image, hcur,
      hbook.pending, Int.toNat_natCast, hlen]
    simp only [Finset.mem_range]

/-- A window that holds the current slot holds all. -/
theorem Ctx.Windowed.full {c : Ctx} (h : c.Windowed) (hbusy : c.slotFree c.currentSlot = false) :
    ∀ s, c.slotFree s = false := by
  obtain ⟨hlo, hhi⟩ := h.bounds
  have hmem := mem_busySlots.mpr hbusy
  rw [h.busy, preceding, Finset.mem_image] at hmem
  obtain ⟨d, hd, heq⟩ := hmem
  have hfour : c.pendingAcks.toNat = 4 := by
    have hval := congrArg Fin.val heq
    simp only [Fin.sub_def, Fin.ofNat] at hval
    simp only [Finset.mem_range, dualBufferSlots] at hd hhi
    omega
  intro s
  rw [← mem_busySlots, h.busy, hfour]
  revert s
  generalize c.currentSlot = cur
  revert cur
  decide

/-! ## The documented policy -/

/-- The first free slot from the current one on, going round; none while all are busy. -/
def Ctx.firstFree (c : Ctx) : Option Slot :=
  ([0, 1, 2, 3].map (c.currentSlot + ·)).find? c.slotFree

/-- What the chunk loop does: it takes the current slot or waits for it. -/
def Ctx.rotated (c : Ctx) : Option Slot :=
  if c.slotFree c.currentSlot then some c.currentSlot else none

theorem Ctx.Windowed.firstFree {c : Ctx} (h : c.Windowed) : c.firstFree = c.rotated := by
  rw [Ctx.firstFree, Ctx.rotated]
  split
  · rename_i hfree
    simp [hfree]
  · rename_i hbusy
    have hall := h.full (Bool.eq_false_iff.mpr hbusy)
    exact List.find?_eq_none.mpr fun s _ => by simp [hall s]

/-! ## Runs -/

theorem inOrder_trailing (cfg : Config) (W : World) (l r : Path) :
    ((scpSenderRun cfg l r).system (bodies cfg) (inOrder W) initState).Invariant fun c =>
      Trailing c.2 ∧ ∀ o k, c.1 = .op o k → Duty o c.2 := by
  have hv : Verified (bodies cfg) (inOrder W) duties (scpSenderRun cfg l r)
      (Ends (Finished cfg W l r initState)) initState :=
    (verified cfg W l r).weaken rfl fun _ _ _ _ h => h.1
  rintro ⟨p, st⟩ hc
  refine ⟨hv.keeps ⟨le_rfl, rfl⟩ (fun _ _ _ h _ hx => h.next hx.2) _ hc, ?_⟩
  rintro o k rfl
  have hop : Verified (bodies cfg) (inOrder W) duties (.op o k) _ st := hv.runs _ hc
  exact hop.duty

/-- At the head of the chunk loop the busy slots are the window before the current slot, so the
loop takes or waits for the slot that the policy of skipping busy slots takes or waits for. It
waits only while all slots are busy; the other wait for a slot is that of the synchronous send for
its own packet. -/
theorem rotation_windowed (cfg : Config) (W : World) (l r : Path) :
    ((scpSenderRun cfg l r).system (bodies cfg) (inOrder W) initState).Invariant fun c =>
      (∀ k, c.1 = .op .currentSlot k → c.2.ctx.Windowed ∧ c.2.ctx.firstFree = c.2.ctx.rotated ∧
        (c.2.ctx.slotFree c.2.ctx.currentSlot = false → ∀ s, c.2.ctx.slotFree s = false)) ∧
      ∀ s maxWc timeoutMs k, c.1 = .op (.waitCompletion (.waitForSlot s) maxWc timeoutMs) k →
        (∀ x, c.2.ctx.slotFree x = false) ∨ c.2.ledger.unacked = [s] := by
  rintro ⟨p, st⟩ hc
  obtain ⟨htrail, hduty⟩ := inOrder_trailing cfg W l r _ hc
  constructor
  · intro k hk
    obtain ⟨hround, hbook⟩ := hduty _ k hk
    have hwin := windowed_of_trailing htrail hround hbook
    exact ⟨hwin, hwin.firstFree, hwin.full⟩
  · intro s maxWc timeoutMs k hk
    obtain ⟨-, hs, hturn, hbook⟩ := hduty _ k hk
    rcases hturn with ⟨hround, rfl⟩ | honly
    · left
      refine (windowed_of_trailing htrail hround hbook).full ?_
      rw [Bool.eq_false_iff, ne_eq, hbook.free, not_not]
      exact hs
    · right
      refine List.perm_singleton.mp ?_
      refine (List.perm_ext_iff_of_nodup hbook.nodup (List.nodup_singleton s)).mpr fun x => ?_
      exact ⟨fun hx => honly hx, fun hx => List.mem_singleton.mp hx ▸ hs⟩

end ScpRdma.Sender

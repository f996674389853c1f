import ScpRdma.Sender.Discipline
import Mathlib.Data.Fintype.Card

/-!
# Slot accounting

`pending_acks` counts the busy slots in every state of every run, whatever the
acknowledgements say and however completions are batched: each change of the counter goes
with a change of one flag, and its duty says that the flag really changes.
-/
namespace ScpRdma.Sender
open Foundations

/-- The slots with `slot_free` false. -/
def Ctx.busySlots (c : Ctx) : Finset Slot := Finset.univ.filter fun s => c.slotFree s = false

/-- `pending_acks` is the number of busy slots. -/
def Ctx.Accounted (c : Ctx) : Prop := c.pendingAcks = c.busySlots.card

theorem mem_busySlots {c : Ctx} {s : Slot} : s ∈ c.busySlots ↔ c.slotFree s = false := by
  simp [Ctx.busySlots]

theorem busySlots_freeSlot (c : Ctx) (s : Slot) :
    ((Update.freeSlot s).apply c).busySlots = c.busySlots.erase s := by
  ext x
  rw [Finset.mem_erase, mem_busySlots, mem_busySlots]
  by_cases hx : x = s <;> simp [Update.apply, hx]

theorem busySlots_busySlot (c : Ctx) (s : Slot) :
    ((Update.busySlot s).apply c).busySlots = insert s c.busySlots := by
  ext x
  rw [Finset.mem_insert, mem_busySlots, mem_busySlots]
  by_cases hx : x = s <;> simp [Update.apply, hx]

theorem Ctx.Accounted.le_four {c : Ctx} (h : c.Accounted) :
    0 ≤ c.pendingAcks ∧ c.pendingAcks ≤ dualBufferSlots := by
  have hcard : c.busySlots.card ≤ 4 := by simpa using Finset.card_le_univ c.busySlots
  rw [h]
  exact ⟨Int.natCast_nonneg _, by simpa [dualBufferSlots] using hcard⟩

theorem Ctx.Accounted.freeSlot {c : Ctx} {s : Slot} (h : c.Accounted)
    (hs : c.slotFree s = false) : ((Update.freeSlot s).apply c).Accounted := by
  have hmem : s ∈ c.busySlots := by simp [mem_busySlots, hs]
  have hpos := Finset.card_pos.mpr ⟨s, hmem⟩
  unfold Ctx.Accounted at h ⊢
  rw [busySlots_freeSlot, Finset.card_erase_of_mem hmem]
  change c.pendingAcks - 1 = _
  omega

theorem Ctx.Accounted.busySlot {c : Ctx} {s : Slot} (h : c.Accounted)
    (hs : c.slotFree s = true) : ((Update.busySlot s).apply c).Accounted := by
  have hmem : s ∉ c.busySlots := by simp [mem_busySlots, hs]
  unfold Ctx.Accounted at h ⊢
  rw [busySlots_busySlot, Finset.card_insert_of_notMem hmem]
  change c.pendingAcks + 1 = _
  omega

/-- An update keeps the account when it meets its duty. -/
theorem Ctx.Accounted.update {st : State} {up : Update} (h : st.ctx.Accounted)
    (hD : Duty (.update up) st) : (up.apply st.ctx).Accounted := by
  cases up with
  | freeSlot s => exact h.freeSlot hD
  | busySlot s => exact h.busySlot hD
  | restart => simp [Ctx.Accounted, Ctx.busySlots, Update.apply]
  | _ => exact h

theorem next_ctx (o : Op) (st : State) (r : Response o) : (next o st r).ctx = match o with
    | .update up => up.apply st.ctx
    | _ => st.ctx := by
  cases o
  case update | get | store | stat | lstat | openFile | close | readlink | opendir | readdir |
    closedir | sockEstablished | registerMr | exchange | queryQp | readCdc | transDestroy => rfl
  case undefined => nomatch r
  all_goals cases r <;> rfl

theorem Ctx.Accounted.next {o : Op} {st : State} {r : Response o} (h : st.ctx.Accounted)
    (hD : Duty o st) : (next o st r).ctx.Accounted := by
  rw [next_ctx]
  cases o with
  | update up => exact h.update hD
  | _ => exact h

/-- Undoing the mark of a free slot gives the context back. -/
theorem freeSlot_busySlot {c : Ctx} {s : Slot} (hs : c.slotFree s = true) :
    (Update.freeSlot s).apply ((Update.busySlot s).apply c) = c := by
  have : Function.update (Function.update c.slotFree s false) s true = c.slotFree := by
    rw [Function.update_idem, ← hs, Function.update_eq_self]
  simp [Update.apply, this]

theorem restart_eq {c : Ctx} (hfree : ∀ s, c.slotFree s = true) (hp : c.pendingAcks = 0) :
    Update.restart.apply c = { c with currentSlot := 0 } := by
  have : c.slotFree = fun _ => true := funext hfree
  simp [Update.apply, this, hp]

/-- The runs of the sender when everything around it may fail or lie. -/
abbrev anyRun (cfg : Config) (localPath remotePath : Path) : System (Sender Int × State) :=
  Program.system (bodies cfg) (semantics .any) (scpSenderRun cfg localPath remotePath) initState

theorem accounted (cfg : Config) (l r : Path) :
    (anyRun cfg l r).Invariant fun c => c.2.ctx.Accounted :=
  (verified cfg .any l r).keeps (I := fun st => st.ctx.Accounted) rfl
    fun _ _ _ h hD _ => h.next hD

/-- In every state of every run: the counter is the number of busy slots and in range; the
roll-back after a signal that could not be posted gives the context back; and where the
slots are set free for the data of a file, they are free and no packet is unacknowledged. -/
theorem slot_accounting (cfg : Config) (localPath remotePath : Path) :
    (anyRun cfg localPath remotePath).Invariant fun c =>
      (c.2.ctx.pendingAcks = c.2.ctx.busySlots.card ∧
        0 ≤ c.2.ctx.pendingAcks ∧ c.2.ctx.pendingAcks ≤ dualBufferSlots) ∧
      (∀ s msg k k' k'', c.1 = .op (.update (.busySlot s)) k → k () = .op (.postSend msg) k' →
        k' false = .op (.update (.freeSlot s)) k'' →
        (Update.freeSlot s).apply ((Update.busySlot s).apply c.2.ctx) = c.2.ctx) ∧
      (∀ k, c.1 = .op (.update .restart) k →
        Update.restart.apply c.2.ctx = { c.2.ctx with currentSlot := 0 } ∧
        c.2.ledger.unacked = []) := by
  refine ((accounted cfg localPath remotePath).and
    (verified cfg .any localPath remotePath).runs).mono ?_
  rintro ⟨p, st⟩ ⟨hacc, hver⟩
  refine ⟨⟨hacc, hacc.le_four⟩, ?_, ?_⟩
  · rintro s msg k k' k'' rfl - -
    exact freeSlot_busySlot hver.duty
  · rintro k rfl
    obtain ⟨hfree, hpending, hclear⟩ := hver.duty
    exact ⟨restart_eq hfree hpending, hclear⟩

end ScpRdma.Sender

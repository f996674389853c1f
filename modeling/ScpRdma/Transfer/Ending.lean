import ScpRdma.Sender.Completeness
import ScpRdma.Receiver.Decoding

/-!
# What a result of 0 says

`scp_sender_run` does not look at the result of its last exchange, and every way out of the
loop of `scp_receiver_run` leads to the same `return 0`. A result of 0 stands for a finished
session in the runs where none of those ways out is taken: nothing fails on the sender's side
once `TRANSFER_END` is laid out, and nothing at all on the receiver's.
-/
namespace ScpRdma.Transfer
open Foundations

/-! ## The sender -/

/-- A state of the sender, and whether `TRANSFER_END` was laid out in its session buffer. -/
abbrev Marked := Sender.State × Bool

def markNext (o : Sender.Op) (s : Marked) (r : Sender.Response o) : Marked :=
  (Sender.next o s.1 r, s.2 || match o with
    | .store addr bs => decide (addr = 0 ∧ bs = Packet.transferEnd.encode)
    | _ => false)

/-- Everything can fail until `TRANSFER_END` is laid out, no verb and no completion after. -/
def endReliable : Semantics Sender.signature Marked where
  allow o s r := Sender.Possible o s.1 r ∧ (s.2 = true → o.Succeeds r)
  next := markNext

/-- Every packet was announced and acknowledged, `TRANSFER_END` last. -/
structure SenderFinished (t : Sender.State) : Prop where
  idle : t.ledger.phase = .idle
  last : t.ledger.sent.getLast? = some ⟨0, Packet.transferEnd.encode⟩
  acked : t.ledger.unacked = []

section Sender

variable {cfg : Sender.Config} {α : Type} {n : Nat}

/-- Nothing is asked of the program. -/
abbrev free {S : Signature} {σ : Type} : Duties S σ := ⟨fun _ _ => True, fun _ _ => True⟩

/-- The precondition of a part of the sender where only the last exchange is reliable. -/
abbrev EndMeets (cfg : Sender.Config) (n : Nat) (p : Sender α) (Q : α → Marked → Prop)
    (s : Marked) : Prop := wp (Sender.bodies cfg) endReliable free n p Q s

theorem endMeets_ask {o : Sender.Op} {f : Sender.Response o → Sender α} {Q : α → Marked → Prop}
    {s : Marked} (h : ∀ r, Sender.Possible o s.1 r → EndMeets cfg n (f r) Q (markNext o s r)) :
    EndMeets cfg n (Sender.ask o >>= f) Q s :=
  wp.op trivial fun r hr => h r hr.1

/-- A specification for every world holds before `TRANSFER_END`. -/
theorem before_end {p : Sender α} {Q : α → Sender.State → Prop} {s : Marked}
    (h : Sender.Meets cfg .any n p Q s.1) : EndMeets cfg n p (fun a t => Q a t.1) s :=
  (wp.lift (M := Sender.semantics .any) (N := endReliable) (F := free) Prod.fst
    (fun _ => True) (fun _ _ _ => rfl) (fun _ _ _ _ _ => trivial)
    (fun _ _ _ _ _ hr => ⟨hr.1, trivial⟩) (fun _ _ _ => trivial)
    (fun _ _ _ => trivial) h trivial).mono fun _ _ h => h.2

/-- A specification for reliable worlds holds from `TRANSFER_END` on. -/
theorem after_end {p : Sender α} {Q : α → Sender.State → Prop} {s : Marked}
    (h : Sender.Meets cfg (fun o r => o.Succeeds r) n p Q s.1) (hs : s.2 = true) :
    EndMeets cfg n p (fun a t => Q a t.1) s :=
  (wp.lift (M := Sender.semantics fun o r => o.Succeeds r) (N := endReliable) (F := free)
    Prod.fst (fun t => t.2 = true) (fun _ _ _ => rfl)
    (fun _ _ _ ht _ => by simp [endReliable, markNext, ht])
    (fun _ _ _ ht _ hr => ⟨hr.1, hr.2 ht⟩) (fun _ _ _ => trivial) (fun _ _ _ => trivial)
    h hs).mono fun _ _ h => h.2

/-- The last part of `scp_sender_run`, once every packet of the source was acknowledged. -/
theorem last_exchange {s : Sender.State} {b : Bool} (h : Sender.Up s) :
    EndMeets cfg n (do
      Sender.store 0 Packet.transferEnd.encode
      Sender.update (.setSge ⟨0, transferEndSize⟩)
      let ctx ← Sender.get
      if ctx.sessionEstablished then
        let _ ← Sender.scpRdmaSendSync ⟨.session, transferEndSize, 0⟩
      return 0 : Sender Int) (fun a t => a = 0 → SenderFinished t.1) (s, b) := by
  refine endMeets_ask fun _ _ => endMeets_ask fun _ _ => endMeets_ask ?_
  rintro _ rfl
  have hup : Sender.Up _ := (h.mem (m := s.mem.store 0 Packet.transferEnd.encode)).update
    (.setSge ⟨0, transferEndSize⟩) trivial
  split
  case isFalse hno => exact absurd hup.session hno
  refine wp.bind (after_end (Sender.scpRdmaSendSync_spec (p := .transferEnd) hup rfl
    (.inl rfl) trivial (inSlot_zero (show transferEndSize ≤ _ by decide)) ?_)
    (by simp [markNext])) ?_
  · simp only [gather, List.flatMap_cons, List.flatMap_nil, List.append_nil]
    change (s.mem.store 0 Packet.transferEnd.encode).load 0 transferEndSize = _
    exact Memory.load_store_eq (Packet.length_encode _)
  rintro r t (⟨-, hrel⟩ | ⟨-, ht, hsent⟩)
  · exact absurd (fun o r hr => hr) hrel
  · refine wp.done fun _ => ⟨ht.idle, ?_, ht.clear⟩
    rw [hsent]
    exact List.getLast?_concat

theorem sender_finishes (l r : Sender.Path) :
    EndMeets cfg n (Sender.scpSenderRun cfg l r) (fun a t => a = 0 → SenderFinished t.1)
      (Sender.initState, false) := by
  refine endMeets_ask fun st _ => ?_
  cases st with
  | none => exact wp.done nofun
  | some _ =>
  refine wp.bind (before_end (s := (Sender.initState, false)) Sender.statEntry_spec) ?_
  rintro st ⟨s, b⟩ ⟨rfl, -⟩
  cases st with
  | none => exact wp.done nofun
  | some st =>
  have hobject : Sender.Meets cfg .any n (Sender.sendObject l r st) _ Sender.initState :=
    Sender.sendObject_spec (fun _ _ h => Sender.directory_spec h) Sender.Rest.init
  refine wp.bind (before_end (s := (Sender.initState, b)) hobject) ?_
  rintro ret ⟨t, b⟩ ht
  by_cases hret : ret = 0
  · rw [if_neg (not_not.mpr hret)]
    exact last_exchange (ht hret).1
  · rw [if_pos hret]
    exact wp.done fun h0 => absurd h0 hret

end Sender

/-! ## The receiver -/

section Receiver

open Receiver

variable {F : Type} {M : Semantics fileSignature F} {n : Nat} {α β : Type}
  {Q : α → Receiver.State F → Prop} {s t : Receiver.State F}

/-- Nothing fails: every verb succeeds, every completion is good, and what is read first of a
packet is a valid header. Files may fail. -/
def smooth : Receiver.World F
  | .qpCreate, _, ok | .sockEstablished, _, ok | .registerMr, _, ok | .exchange, _, ok
  | .modifyQp _, _, ok | .postRecv _ _, _, ok | .postSend _, _, ok => ok = true
  | .queryQp, _, qp => qp ≠ none
  | .pollCq, _, r => ∃ polled, r = some polled ∧ ∀ wc, polled = some wc → wc.ok = true
  | .load _ _, s, bs => (∃ id, s.ledger.current = some ⟨id, []⟩) → scpValidateHeader bs = 0
  | _, _, _ => True

/-- The precondition of a part of the receiver where nothing fails. -/
abbrev Glides (M : Semantics fileSignature F) (n : Nat) (p : Receiver α)
    (Q : α → Receiver.State F → Prop) (s : Receiver.State F) : Prop :=
  Receiver.Meets M smooth free n p Q s

/-- The packet that was acknowledged last had the header of `TRANSFER_END`. -/
def EndAcked (t : Receiver.State F) : Prop :=
  ∃ d off header rest, t.ledger.acked.getLast? = some d ∧ d.loads = (off, header) :: rest ∧
    scpValidateHeader header = 0 ∧ cmdType header = CmdType.transferEnd.byte.toNat

/-- The buffers are registered, and no packet is in hand. -/
structure Prepared (t : Receiver.State F) : Prop where
  slots : t.ctx.cdcRecvSlots = rdmaCdcRecvSlots
  current : t.ledger.current = none

/-- A packet whose header was read is in hand. -/
structure Holding (id : UInt8) (off : Nat) (header : Bytes) (t : Receiver.State F) : Prop where
  slots : t.ctx.cdcRecvSlots = rdmaCdcRecvSlots
  current : ∃ rest, t.ledger.current = some ⟨id, (off, header) :: rest⟩

theorem slots_update {up : Update} {c : Receiver.Ctx} (h : c.cdcRecvSlots = rdmaCdcRecvSlots) :
    (up.apply c).cdcRecvSlots = rdmaCdcRecvSlots := by
  cases up <;> first | exact h | rfl

theorem Prepared.update (h : Prepared t) (up : Update) :
    Prepared { t with ctx := up.apply t.ctx } := ⟨slots_update h.slots, h.current⟩

/-! ### The session -/

theorem postNextRecv_glides (h : Prepared s) :
    Glides M n postNextRecv (fun ok t => ok = true ∧ Prepared t) s := by
  unfold postNextRecv
  refine wp.bind (R := fun buf t => (∃ b, buf = some b) ∧ Prepared t) ?_ ?_
  · refine meets_get trivial ?_
    rw [if_neg (by simp [h.slots, rdmaCdcRecvSlots])]
    exact meets_update trivial (wp.done ⟨⟨_, rfl⟩, h.update .acquire⟩)
  · rintro _ t ⟨⟨b, rfl⟩, ht⟩
    refine wp.op trivial fun ok hok => ?_
    obtain rfl : ok = true := hok.2
    exact wp.done ⟨rfl, ht.slots, ht.current⟩

theorem extendWindow_glides {extra : Nat} (h : Prepared s) :
    Glides M n (extendWindow extra) (fun ok t => ok = true ∧ Prepared t) s := by
  induction extra generalizing s with
  | zero => exact wp.done ⟨rfl, h⟩
  | succ extra ih =>
    refine wp.bind (postNextRecv_glides h) ?_
    rintro _ t ⟨rfl, ht⟩
    exact ih ht

theorem connectQp_glides (h : Prepared s) :
    Glides M n (Session.connectQp Receiver.verbs) (fun r t => r = 0 ∧ Prepared t) s := by
  unfold Session.connectQp
  refine meets_ask trivial fun ok _ hok => ?_
  obtain rfl : ok = true := hok
  refine meets_ask trivial fun qp _ hqp => ?_
  obtain ⟨qp, rfl⟩ := Option.ne_none_iff_exists'.mp hqp
  dsimp only
  split
  · exact wp.done ⟨rfl, h.slots, h.current⟩
  refine meets_ask trivial fun ok _ hok => ?_
  obtain rfl : ok = true := hok
  refine wp.bind (R := fun buf t => (∃ b, buf = some b) ∧ Prepared t) ?_ ?_
  · refine meets_get trivial ?_
    rw [if_neg (by simp [next, h.slots, rdmaCdcRecvSlots])]
    exact meets_update trivial (wp.done ⟨⟨_, rfl⟩, slots_update h.slots, h.current⟩)
  rintro _ t ⟨⟨b, rfl⟩, ht⟩
  refine meets_ask trivial fun ok _ hok => ?_
  obtain rfl : ok = true := hok
  refine meets_ask trivial fun ok _ hok => ?_
  obtain rfl : ok = true := hok
  refine meets_ask trivial fun ok _ hok => ?_
  obtain rfl : ok = true := hok
  exact wp.done ⟨rfl, ht.slots, ht.current⟩

theorem rdmaTransInit_glides (hcur : s.ledger.current = none) :
    Glides M n (Session.rdmaTransInit Receiver.verbs) (fun r t => r = 0 ∧ Prepared t) s := by
  unfold Session.rdmaTransInit
  refine wp.bind (R := fun r t => r = 0 ∧ Prepared t) ?_ ?_
  · unfold Session.mrCreate
    refine meets_ask trivial fun ok _ hok => ?_
    obtain rfl : ok = true := hok
    exact meets_update trivial (wp.done ⟨rfl, rfl, hcur⟩)
  rintro _ t ⟨rfl, ht⟩
  refine wp.bind (connectQp_glides ht) ?_
  rintro _ u ⟨rfl, hu⟩
  exact wp.done ⟨rfl, hu⟩

theorem scpPrepareReceiveResources_glides (hcur : s.ledger.current = none) :
    Glides M n scpPrepareReceiveResources (fun r t => r = 0 ∧ Prepared t) s := by
  have hrest : ∀ t : Receiver.State F, t.ledger.current = none → Glides M n (do
      if !(← Receiver.sockEstablished) then
        return -1
      if (← Session.rdmaTransInit Receiver.verbs) ≠ 0 then
        return -1
      return 0 : Receiver Int) (fun r t => r = 0 ∧ Prepared t) t := by
    intro t ht
    refine meets_ask trivial fun ok _ hok => ?_
    obtain rfl : ok = true := hok
    refine wp.bind (rdmaTransInit_glides ht) ?_
    rintro _ u ⟨rfl, hu⟩
    exact wp.done ⟨rfl, hu⟩
  unfold scpPrepareReceiveResources
  refine meets_get trivial ?_
  split
  · refine meets_ask trivial fun ok _ hok => ?_
    obtain rfl : ok = true := hok
    exact meets_update trivial (hrest _ hcur)
  · exact hrest s hcur

theorem establishSession_glides (hcur : s.ledger.current = none)
    (h : s.ctx.sessionEstablished = true → s.ctx.cdcRecvSlots = rdmaCdcRecvSlots) :
    Glides M n Receiver.establishSession (fun ok t => ok = true ∧ Prepared t) s := by
  unfold Receiver.establishSession
  refine meets_get trivial ?_
  split
  · rename_i hest
    exact wp.done ⟨rfl, h hest, hcur⟩
  refine wp.bind (scpPrepareReceiveResources_glides hcur) ?_
  rintro _ t ⟨rfl, ht⟩
  refine meets_update trivial (meets_get trivial ?_)
  refine wp.bind (extendWindow_glides (ht.update .establish)) ?_
  rintro _ u ⟨rfl, hu⟩
  exact meets_get trivial (meets_update trivial (wp.done ⟨rfl, hu.update _⟩))

theorem rdmaCdcCompletion_glides (h : Prepared s) :
    Glides M n rdmaCdcCompletion (fun r t => r = 0 ∧ Prepared t) s := by
  refine wp.recursion (S := Receiver.signature) (fun _ : Unit => Receiver.Call.cdcCompletion)
    (fun _ s => Prepared s) (fun _ _ (r : Int) t => r = 0 ∧ Prepared t)
    (fun _ _ _ => trivial) ?_ n () s h
  intro n ih _ s h
  refine meets_ask trivial fun r _ hr => ?_
  obtain ⟨polled, rfl, hok⟩ := hr
  cases polled with
  | none => exact ih () _ h
  | some wc =>
    obtain ⟨op, ok, wrId⟩ := wc
    obtain rfl : ok = true := hok _ rfl
    cases op with
    | recv => exact wp.done ⟨rfl, h.slots, h.current⟩
    | rdmaWrite | send => exact ih () _ h

/-! ### One packet -/

variable {id : UInt8} {off : Nat} {header : Bytes}

theorem Holding.update (h : Holding id off header t) (up : Update) :
    Holding id off header { t with ctx := up.apply t.ctx } := ⟨slots_update h.slots, h.current⟩

theorem Holding.read {off' : Nat} {bs : Bytes} (h : Holding id off header t) :
    Holding id off header { t with ledger := t.ledger.read off' bs } := by
  obtain ⟨rest, hrest⟩ := h.current
  exact ⟨h.slots, rest ++ [(off', bs)], by simp [Ledger.read, hrest]⟩

theorem holds_load {off' len : Nat} {f : Bytes → Receiver α} (h : Holding id off header s)
    (hf : ∀ bs t, Holding id off header t → Glides M n (f bs) Q t) :
    Glides M n (load off' len >>= f) Q s :=
  meets_ask trivial fun bs _ _ => hf bs _ h.read

theorem holds_loadCString {off' : Nat} {f : Bytes → Receiver α} (h : Holding id off header s)
    (hf : ∀ text t, Holding id off header t → Glides M n (f text) Q t) :
    Glides M n (loadCString off' >>= f) Q s :=
  meets_ask trivial fun text _ _ => hf text _ h.read

theorem holds_files {p : Files β} {f : β → Receiver α} (h : Holding id off header s)
    (hf : ∀ b t, Holding id off header t → Glides M n (f b) Q t) :
    Glides M n (files p >>= f) Q s :=
  meets_files (fun _ _ => trivial) fun b _ _ => hf b _ ⟨h.slots, h.current⟩

theorem holds_mkdirRecursive {path : Receiver.Path} {f : Int → Receiver α}
    (h : Holding id off header s)
    (hf : ∀ r t, Holding id off header t → Glides M n (f r) Q t) :
    Glides M n (mkdirRecursive path >>= f) Q s :=
  meets_mkdirRecursive (fun _ _ => trivial) (fun _ => trivial) fun r _ _ =>
    hf r _ ⟨h.slots, h.current⟩

theorem handleFileMeta_glides {loc : Locals} {base : Nat} (h : Holding id off header s) :
    Glides M n (handleFileMeta loc base) (fun _ t => Holding id off header t) s := by
  unfold handleFileMeta
  refine holds_load h fun type t ht => meets_update trivial ?_
  refine holds_loadCString (ht.update _) fun name t ht => ?_
  refine holds_files ht fun isDir t ht => ?_
  cases isDir with
  | true => exact holds_files ht fun _ t ht => wp.done ht
  | false =>
    refine wp.bind (R := fun _ t => Holding id off header t) ?_ fun _ t ht => ?_
    · unfold mkdirParent
      split
      · exact holds_mkdirRecursive ht fun _ t ht => wp.done ht
      · exact wp.done ht
    refine holds_files ht fun _ t ht => ?_
    dsimp only
    split
    · refine holds_load ht fun mode t ht => meets_ask trivial fun fd _ _ => ?_
      exact meets_update trivial (wp.done ⟨slots_update ht.slots, ht.current⟩)
    · exact wp.done ht

theorem handleFileData_glides {loc : Locals} {base : Nat} (h : Holding id off header s) :
    Glides M n (handleFileData loc base) (fun _ t => Holding id off header t) s := by
  unfold handleFileData
  refine meets_get trivial ?_
  split
  · refine holds_load h fun size t ht => holds_load ht fun target t ht => ?_
    refine holds_files ht fun ok t ht => ?_
    split
    · exact meets_update trivial (wp.done (ht.update _))
    · exact wp.done ht
  · split
    · exact wp.done h
    · refine holds_load h fun off t ht => holds_load ht fun size t ht => ?_
      refine holds_load ht fun data t ht => holds_files ht fun _ t ht => ?_
      exact meets_update trivial (wp.done (ht.update _))

/-- Whatever a packet says, its handling keeps it in hand. -/
theorem handleCommand_glides {loc : Locals} {base cmd : Nat} (h : Holding id off header s) :
    Glides M n (handleCommand loc base cmd) (fun _ t => Holding id off header t) s := by
  unfold handleCommand
  split
  · exact handleFileMeta_glides h
  split
  · exact handleFileData_glides h
  split
  · refine holds_loadCString h fun name t ht => holds_mkdirRecursive ht fun _ t ht => ?_
    exact meets_update trivial (wp.done (ht.update _))
  split
  · exact holds_files h fun _ t ht => wp.done ht
  split
  · exact holds_files h fun _ t ht => wp.done ht
  · exact wp.done h

theorem repost_glides {isEndPacket : Bool} (h : Holding id off header s) :
    Glides M n (repost isEndPacket) (fun ok t => ok = true ∧ Holding id off header t) s := by
  unfold repost
  split
  · exact wp.done ⟨rfl, h⟩
  refine wp.bind (R := fun ok t => ok = true ∧ Holding id off header t) ?_ ?_
  · unfold postNextRecv
    refine wp.bind (R := fun buf t => (∃ b, buf = some b) ∧ Holding id off header t) ?_ ?_
    · refine meets_get trivial ?_
      rw [if_neg (by simp [h.slots, rdmaCdcRecvSlots])]
      exact meets_update trivial (wp.done ⟨⟨_, rfl⟩, h.update .acquire⟩)
    · rintro _ t ⟨⟨b, rfl⟩, ht⟩
      refine wp.op trivial fun ok hok => ?_
      obtain rfl : ok = true := hok.2
      exact wp.done ⟨rfl, ht.slots, ht.current⟩
  · rintro _ t ⟨rfl, ht⟩
    exact meets_get trivial (meets_update trivial (wp.done ⟨rfl, ht.update _⟩))

theorem sendAck_glides {buf : Nat} {slotId : UInt8} (h : Holding id off header s) :
    Glides M n (sendAck buf slotId) (fun ok t => ok = true ∧ Prepared t ∧
      ∃ rest, t.ledger.acked.getLast? = some ⟨id, (off, header) :: rest⟩) s := by
  obtain ⟨rest, hrest⟩ := h.current
  unfold sendAck
  refine meets_get trivial (meets_ask trivial fun msg _ _ => ?_)
  have hsame : next M (.readCdc buf) s msg = s := by simp [next, Ledger.receive, hrest]
  rw [hsame]
  refine wp.op trivial fun ok hok => ?_
  obtain rfl : ok = true := hok.2
  refine wp.done ⟨rfl, ⟨h.slots, rfl⟩, rest, ?_⟩
  change (s.ledger.acked ++ s.ledger.current.toList).getLast? = _
  rw [hrest]
  exact List.getLast?_concat

/-- What is read first of a packet is a valid header. -/
theorem glides_header {len : Nat} {f : Bytes → Receiver α}
    (hcur : s.ledger.current = some ⟨id, []⟩)
    (hf : ∀ header t, scpValidateHeader header = 0 → t.ctx = s.ctx →
      t.ledger.current = some ⟨id, [(off, header)]⟩ → Glides M n (f header) Q t) :
    Glides M n (load off len >>= f) Q s := by
  refine meets_ask trivial fun header _ hheader => hf header _ (hheader ⟨id, hcur⟩) rfl ?_
  simp only [next, Ledger.read, hcur, Option.map_some, List.nil_append]

/-- A packet whose handling leaves the loop was the last one, and was acknowledged. -/
theorem handleSignal_glides {loc : Locals} {buf : Nat} (h : Prepared s) :
    Glides M n (handleSignal loc buf)
      (fun r t => (r = none → EndAcked t) ∧ (r ≠ none → Prepared t)) s := by
  unfold handleSignal handlePacket
  refine meets_ask trivial fun msg _ _ => ?_
  have hmsg : next M (.readCdc buf) s msg =
      { s with ledger := { s.ledger with current := some ⟨msg.slotId, []⟩ } } := by
    simp [next, Ledger.receive, h.current]
  rw [hmsg]
  refine wp.bind (R := fun _ t => t =
    { s with ledger := { s.ledger with current := some ⟨msg.slotId, []⟩ } }) ?_ ?_
  · unfold slotOffset
    split
    · exact wp.done rfl
    · exact wp.op trivial fun r => r.elim
  rintro base _ rfl
  refine glides_header rfl fun header t hvalid hctx hcur => ?_
  rw [if_neg (not_not.mpr hvalid)]
  refine wp.bind (handleCommand_glides ⟨hctx ▸ h.slots, [], hcur⟩) fun loc' t ht => ?_
  refine wp.bind (repost_glides ht) ?_
  rintro _ u ⟨rfl, hu⟩
  refine wp.bind (sendAck_glides hu) ?_
  rintro _ v ⟨rfl, hv, rest, hlast⟩
  by_cases hend : cmdType header = CmdType.transferEnd.byte.toNat
  · rw [if_pos (decide_eq_true hend)]
    exact wp.done ⟨fun _ => ⟨_, base, header, rest, hlast, rfl, hvalid, hend⟩,
      fun hne => absurd rfl hne⟩
  · rw [decide_eq_false hend]
    exact wp.done ⟨by simp, fun _ => hv⟩

/-! ### The whole run -/

theorem receiveLoop_glides {loc : Locals} (hcur : s.ledger.current = none)
    (h : s.ctx.sessionEstablished = true → s.ctx.cdcRecvSlots = rdmaCdcRecvSlots) :
    Glides M n (receiveLoop loc) (fun r t => r = 0 → EndAcked t) s := by
  refine wp.recursion (S := Receiver.signature) Receiver.Call.receiveLoop
    (fun _ s => s.ledger.current = none ∧
      (s.ctx.sessionEstablished = true → s.ctx.cdcRecvSlots = rdmaCdcRecvSlots))
    (fun _ _ (r : Int) t => r = 0 → EndAcked t) (fun _ _ _ => trivial) ?_ n loc s ⟨hcur, h⟩
  rintro n ih loc s ⟨hcur, h⟩
  refine wp.bind (establishSession_glides hcur h) ?_
  rintro _ t ⟨rfl, ht⟩
  refine wp.bind (rdmaCdcCompletion_glides ht) ?_
  rintro _ u ⟨rfl, hu⟩
  rw [if_neg (not_not.mpr rfl)]
  refine meets_get trivial ?_
  refine meets_charge trivial (fun _ h => h.update _) hu fun v hv => ?_
  refine wp.bind (R := fun buf t => (∃ b, buf = some b) ∧ Prepared t) ?_ ?_
  · refine meets_get trivial ?_
    rw [if_neg (by simp [hv.slots, rdmaCdcRecvSlots])]
    exact meets_update trivial (wp.done ⟨⟨_, rfl⟩, hv.update .consume⟩)
  rintro _ w ⟨⟨buf, rfl⟩, hw⟩
  refine wp.bind (handleSignal_glides hw) fun r v hv => ?_
  cases r with
  | none => exact wp.done fun _ => hv.1 rfl
  | some loc' =>
    have hv := hv.2 (Option.some_ne_none loc')
    exact ih loc' v ⟨hv.current, fun _ => hv.slots⟩

theorem receiver_finishes (outputDir : Option Receiver.Path) (os : F) :
    Glides M n (scpReceiverRun outputDir) (fun r t => r = 0 → EndAcked t)
      (Receiver.initState os) := by
  unfold scpReceiverRun
  cases outputDir with
  | some dir =>
    refine meets_mkdirRecursive (fun _ _ => trivial) (fun _ => trivial) fun _ _ _ => ?_
    exact receiveLoop_glides rfl nofun
  | none =>
    refine meets_ask trivial fun r _ _ => ?_
    cases r with
    | none => exact wp.done nofun
    | some base => exact receiveLoop_glides rfl nofun

end Receiver

/-! ## Both sides -/

/-- The sender's runs in which nothing fails once `TRANSFER_END` is laid out. -/
abbrev senderRuns (cfg : Sender.Config) (localPath remotePath : Sender.Path) :
    System (Sender Int × Marked) :=
  (Sender.scpSenderRun cfg localPath remotePath).system (Sender.bodies cfg) endReliable
    (Sender.initState, false)

/-- The receiver's runs in which nothing fails. -/
abbrev receiverRuns {F : Type} (M : Semantics Receiver.fileSignature F)
    (outputDir : Option Receiver.Path) (os : F) : System (Receiver Int × Receiver.State F) :=
  (Receiver.scpReceiverRun outputDir).system Receiver.bodies (Receiver.semantics M smooth)
    (Receiver.initState os)

/-- Where nothing fails after `TRANSFER_END` is laid out, a sender that returns 0 has seen the
ACK of every packet; where nothing fails at all, a receiver that returns 0 has acknowledged
`TRANSFER_END`. -/
theorem session_ends_sound (cfg : Sender.Config) (localPath remotePath : Sender.Path) :
    (senderRuns cfg localPath remotePath).Invariant (fun c =>
      c.1 = .done 0 → SenderFinished c.2.1) ∧
    ∀ {F : Type} (M : Semantics Receiver.fileSignature F) (outputDir : Option Receiver.Path)
      (os : F), (receiverRuns M outputDir os).Invariant fun c => c.1 = .done 0 → EndAcked c.2 := by
  refine ⟨?_, fun M outputDir os => ?_⟩
  · have hver : Verified (Sender.bodies cfg) endReliable free
        (Sender.scpSenderRun cfg localPath remotePath) _ (Sender.initState, false) :=
      fun _ => sender_finishes localPath remotePath
    refine hver.runs.mono ?_
    rintro ⟨_, t⟩ ht rfl
    exact ht.post rfl
  · have hver : Verified Receiver.bodies (Receiver.semantics M smooth) free
        (Receiver.scpReceiverRun outputDir) _ (Receiver.initState os) :=
      fun _ => receiver_finishes outputDir os
    refine hver.runs.mono ?_
    rintro ⟨_, t⟩ ht rfl
    exact ht.post rfl

/-- Verbs that succeed until the first packet is announced; then no receive can be posted. -/
def failingLast : (o : Sender.Op) → Sender.State → Option (Sender.Response o)
  | .postRecv _ _, s => some s.ledger.sent.isEmpty
  | o, s => Sender.obliging o s

theorem failingLast_allowed (o : Sender.Op) (s : Sender.State) (r : Sender.Response o)
    (h : failingLast o s = some r) : (Sender.semantics .any).allow o s r := by
  cases o
  case postRecv => exact ⟨trivial, trivial⟩
  all_goals exact ⟨(Sender.obliging_allowed _ s r h).1, trivial⟩

/-- The state in which such a sender ends. -/
def afterLastExchange : Sender Int × Sender.State :=
  Program.exec (Sender.bodies ⟨true, false⟩) (Sender.semantics .any) failingLast 200
    (Sender.scpSenderRun ⟨true, false⟩ [97] [97], Sender.initState)

theorem afterLastExchange_result : afterLastExchange.1 = .done 0 :=
  Program.eq_done_of_result? (by decide +kernel)

/-- Files that answer nothing but the working directory. -/
def homeFiles : Semantics Receiver.fileSignature Unit := ⟨fun _ _ _ => True, fun _ _ _ => ()⟩

/-- A connection that was never made. -/
def unconnected : (o : Receiver.Op) → Receiver.State Unit → Option (Receiver.Response o)
  | .get, s => some s.ctx
  | .file .getcwd, _ => some (some [47])
  | .sockEstablished, _ => some false
  | _, _ => none

theorem unconnected_allowed (o : Receiver.Op) (s : Receiver.State Unit) (r : Receiver.Response o)
    (h : unconnected o s = some r) :
    (Receiver.semantics homeFiles fun _ _ _ => True).allow o s r := by
  cases o
  case get => cases h; exact ⟨rfl, trivial⟩
  case file o => cases o <;> exact ⟨trivial, trivial⟩
  case sockEstablished => exact ⟨trivial, trivial⟩
  all_goals cases h

/-- The state in which such a receiver ends. -/
def afterNoConnection : Receiver Int × Receiver.State Unit :=
  Program.exec Receiver.bodies (Receiver.semantics homeFiles fun _ _ _ => True) unconnected 20
    (Receiver.scpReceiverRun none, Receiver.initState ())

theorem afterNoConnection_result : afterNoConnection.1 = .done 0 :=
  Program.eq_done_of_result? (by decide +kernel)

/-- Either side may return 0 before the session is over: a sender whose last exchange fails, and a
receiver that is never connected. -/
theorem session_ends_early :
    (¬∀ (cfg : Sender.Config) (localPath remotePath : Sender.Path),
      ((Sender.scpSenderRun cfg localPath remotePath).system (Sender.bodies cfg)
        (Sender.semantics .any) Sender.initState).Invariant fun c =>
          c.1 = .done 0 → SenderFinished c.2) ∧
    ¬∀ (F : Type) (M : Semantics Receiver.fileSignature F) (outputDir : Option Receiver.Path)
      (os : F), ((Receiver.scpReceiverRun outputDir).system Receiver.bodies
        (Receiver.semantics M fun _ _ _ => True) (Receiver.initState os)).Invariant fun c =>
          c.1 = .done 0 → EndAcked c.2 := by
  refine ⟨fun hall => ?_, fun hall => ?_⟩
  · have hfin := hall ⟨true, false⟩ [97] [97] afterLastExchange
      ⟨_, rfl, Program.exec_runs failingLast_allowed 200 _⟩ afterLastExchange_result
    have hlen : afterLastExchange.2.ledger.sent.map (·.bytes.length) = [300] := by decide +kernel
    obtain ⟨rest, hrest⟩ := List.getLast?_eq_some_iff.mp hfin.last
    rw [hrest, List.map_append] at hlen
    have := congrArg List.getLast? hlen
    rw [List.map_singleton, List.getLast?_concat, Packet.length_encode] at this
    cases this
  · obtain ⟨d, _, _, _, hlast, -⟩ := hall Unit homeFiles none () afterNoConnection
      ⟨_, rfl, Program.exec_runs unconnected_allowed 20 _⟩ afterNoConnection_result
    have hnone : afterNoConnection.2.ledger.acked.isEmpty = true := by decide +kernel
    rw [List.isEmpty_iff.mp hnone] at hlast
    cases hlast

end ScpRdma.Transfer

import ScpRdma.Receiver.Discipline

/-!
# The totals of the receiver

The totals of the context are counted in three places of the loop. Over a run they are the sum of
what its packets add, in order and each once, whatever failed in between.
-/
namespace ScpRdma.Receiver
open Foundations

/-! ## Sums of packets -/

def Tally.add (σ τ : Tally) : Tally :=
  ⟨σ.bytes + τ.bytes, σ.files + τ.files, σ.dirs + τ.dirs, σ.symlinks + τ.symlinks⟩

theorem Tally.add_assoc (σ τ υ : Tally) : (σ.add τ).add υ = σ.add (τ.add υ) := by
  simp only [Tally.add, Nat.add_assoc]

theorem Tally.add_none (σ : Tally) : σ.add .none = σ := by simp [Tally.add, Tally.none]

theorem Tally.none_add (σ : Tally) : Tally.none.add σ = σ := by simp [Tally.add, Tally.none]

variable {F : Type}

/-- The first `k` packets, handled one after the other, and what they add to the totals. -/
inductive Summed (M : Semantics fileSignature F) (pkts : Feed) (v : View) (os : F) :
    Nat → View → F → Tally → Prop where
  | start : Summed M pkts v os 0 v os .none
  | packet {k w τ σ w' os' os''} : Summed M pkts v os k w os' σ →
      Program.Outcome M (applyPacket w (pkts k).2) os' (w', τ) os'' →
      Summed M pkts v os (k + 1) w' os'' (σ.add τ)

/-- So they are in a run of the receiver, from its start on. -/
inductive ServedSum (M : Semantics fileSignature F) (pkts : Feed) (outputDir : Option Path)
    (os : F) : Nat → View → F → Tally → Prop where
  | mk {k base w os' os'' σ} : Program.Outcome M (openBase outputDir) os (some base) os' →
      Summed M pkts ⟨⟨none, [], base⟩, FileType.regular.byte⟩ os' k w os'' σ →
      ServedSum M pkts outputDir os k w os'' σ

/-- The totals are these, in the widths of their counters. -/
structure Ctx.Totals (c : Ctx) (σ : Tally) : Prop where
  bytes : c.totalBytes = UInt64.ofNat σ.bytes
  files : c.totalFiles = UInt32.ofNat σ.files
  dirs : c.totalDirs = UInt32.ofNat σ.dirs
  symlinks : c.totalSymlinks = UInt32.ofNat σ.symlinks

theorem Ctx.Totals.tally {c : Ctx} {σ : Tally} (h : c.Totals σ) (τ : Tally) :
    (c.tally τ).Totals (σ.add τ) := by
  constructor
  · simp only [Ctx.tally, Tally.add, h.bytes, UInt64.ofNat_add]
  · simp only [Ctx.tally, Tally.add, h.files, UInt32.ofNat_add]
  · simp only [Ctx.tally, Tally.add, h.dirs, UInt32.ofNat_add]
  · simp only [Ctx.tally, Tally.add, h.symlinks, UInt32.ofNat_add]

/-! ## What leaves the books as they are -/

/-- The operations that neither read nor handle nor acknowledge a packet. -/
def Steady : Op → Prop
  | .file _ | .load _ _ | .loadCString _ | .readCdc _ | .postSend _ | .update (.setMetaType _)
  | .update (.addBytes _) | .update .countFile | .update .countDir | .update .countSymlink => False
  | _ => True

/-- Neither the files nor the totals nor the record of packets changed. -/
structure SameBooks (s t : State F) : Prop where
  os : t.os = s.os
  metaType : t.ctx.metaType = s.ctx.metaType
  bytes : t.ctx.totalBytes = s.ctx.totalBytes
  files : t.ctx.totalFiles = s.ctx.totalFiles
  dirs : t.ctx.totalDirs = s.ctx.totalDirs
  symlinks : t.ctx.totalSymlinks = s.ctx.totalSymlinks
  acked : t.ledger.acked = s.ledger.acked
  current : t.ledger.current = s.ledger.current

variable {M : Semantics fileSignature F} {s t u : State F}

theorem SameBooks.refl (s : State F) : SameBooks s s := ⟨rfl, rfl, rfl, rfl, rfl, rfl, rfl, rfl⟩

theorem SameBooks.trans (h : SameBooks s t) (h' : SameBooks t u) : SameBooks s u :=
  ⟨h'.os.trans h.os, h'.metaType.trans h.metaType, h'.bytes.trans h.bytes, h'.files.trans h.files,
    h'.dirs.trans h.dirs, h'.symlinks.trans h.symlinks, h'.acked.trans h.acked,
    h'.current.trans h.current⟩

theorem SameBooks.totals {σ : Tally} (h : SameBooks s t) (hs : s.ctx.Totals σ) :
    t.ctx.Totals σ :=
  ⟨h.bytes.trans hs.bytes, h.files.trans hs.files, h.dirs.trans hs.dirs,
    h.symlinks.trans hs.symlinks⟩

theorem SameBooks.next {o : Op} {r : Response o} (h : SameBooks s t) (ho : Steady o) :
    SameBooks s (next M o t r) := by
  refine h.trans ?_
  cases o with
  | update u =>
    cases u with
    | setMetaType | addBytes | countFile | countDir | countSymlink => exact ho.elim
    | _ => exact ⟨rfl, rfl, rfl, rfl, rfl, rfl, rfl, rfl⟩
  | file | load | loadCString | readCdc | postSend => exact ho.elim
  | undefined => exact r.elim
  | modifyQp | postRecv => cases r <;> exact ⟨rfl, rfl, rfl, rfl, rfl, rfl, rfl, rfl⟩
  | pollCq =>
    obtain _ | _ | ⟨op, ok, wrId⟩ := r
    · exact .refl _
    · exact .refl _
    · cases op <;> cases ok <;> exact ⟨rfl, rfl, rfl, rfl, rfl, rfl, rfl, rfl⟩
  | _ => exact ⟨rfl, rfl, rfl, rfl, rfl, rfl, rfl, rfl⟩

/-- The loop that polls. -/
def Polls : Call → Prop
  | .cdcCompletion => True
  | .receiveLoop _ => False

/-- A part of the receiver of such operations, which may poll. -/
abbrev Bookless {α : Type} (p : Receiver α) : Prop := Program.Only Steady Polls p

section Bookless

variable {α β : Type}

theorem rdmaCdcAcquirePostBuf_bookless : Bookless rdmaCdcAcquirePostBuf := by
  refine .bind (.ask trivial) fun c => .ite .done ?_
  exact .bind (.ask trivial) fun _ => .done

theorem rdmaCdcConsumeBuf_bookless : Bookless rdmaCdcConsumeBuf := by
  refine .bind (.ask trivial) fun c => .ite .done ?_
  exact .bind (.ask trivial) fun _ => .done

theorem postNextRecv_bookless : Bookless postNextRecv := by
  refine .bind rdmaCdcAcquirePostBuf_bookless fun buf => ?_
  cases buf with
  | none => exact .done
  | some buf => exact .ask trivial

theorem rdmaTransInit_bookless : Bookless (Session.rdmaTransInit verbs) := by
  refine .bind ?_ fun _ => .bind ?_ fun _ => ?_
  · refine .bind (.ask trivial) fun _ => .ite ?_ .done
    exact .bind (.ask trivial) fun _ => .done
  · refine .bind (.ask trivial) fun _ => .ite .done ?_
    refine .bind (.ask trivial) fun qp => ?_
    cases qp with
    | none => exact .done
    | some qp =>
      refine .ite .done (.bind (.ask trivial) fun _ => ?_)
      refine .ite .done ?_
      refine .bind rdmaCdcAcquirePostBuf_bookless fun buf => ?_
      cases buf with
      | none => exact .bind (.ask trivial) fun r => r.elim
      | some buf =>
        refine .bind (.ask trivial) fun _ => .ite .done ?_
        refine .bind (.ask trivial) fun _ => .ite .done ?_
        refine .bind (.ask trivial) fun _ => ?_
        exact .ite .done .done
  · refine .ite ?_ .done
    exact .bind (.ask trivial) fun _ => .done

theorem scpPrepareReceiveResources_bookless : Bookless scpPrepareReceiveResources := by
  have hrest : Bookless (do
      if !(← sockEstablished) then
        return -1
      if (← Session.rdmaTransInit verbs) ≠ 0 then
        return -1
      return (0 : Int)) := by
    refine .bind (.ask trivial) fun _ => .ite .done ?_
    exact .bind rdmaTransInit_bookless fun _ => .ite .done .done
  refine .bind (.ask trivial) fun c => .ite ?_ hrest
  refine .bind (.ask trivial) fun _ => .ite .done ?_
  exact .bind (.ask trivial) fun _ => hrest

theorem extendWindow_bookless (extra : Nat) : Bookless (extendWindow extra) := by
  induction extra with
  | zero => exact .done
  | succ extra ih =>
    exact .bind postNextRecv_bookless fun _ => .ite .done ih

theorem establishSession_bookless : Bookless establishSession := by
  refine .bind (.ask trivial) fun c => .ite .done ?_
  refine .bind scpPrepareReceiveResources_bookless fun _ => ?_
  refine .ite .done (.bind (.ask trivial) fun _ => ?_)
  refine .bind (.ask trivial) fun _ => ?_
  refine .bind (extendWindow_bookless _) fun _ => .ite .done ?_
  refine .bind (.ask trivial) fun _ => ?_
  exact .bind (.ask trivial) fun _ => .done

theorem repost_bookless (isEndPacket : Bool) : Bookless (repost isEndPacket) := by
  refine .ite .done ?_
  refine .bind postNextRecv_bookless fun _ => .ite .done ?_
  refine .bind (.ask trivial) fun _ => ?_
  exact .bind (.ask trivial) fun _ => .done

theorem rdmaCdcCompletion_bookless : Bookless rdmaCdcCompletion := ⟨trivial, fun _ => trivial⟩

theorem cdcCompletionBody_bookless : Bookless cdcCompletionBody := by
  refine .bind (.ask trivial) fun r => ?_
  obtain _ | _ | ⟨op, ok, wrId⟩ := r
  · exact .done
  · exact rdmaCdcCompletion_bookless
  · refine .ite .done ?_
    cases op with
    | recv => exact .done
    | rdmaWrite | send => exact rdmaCdcCompletion_bookless

theorem polls_bookless (c : Call) (h : Polls c) : Bookless (bodies c) := by
  cases c with
  | receiveLoop => exact h.elim
  | cdcCompletion => exact cdcCompletionBody_bookless

end Bookless

/-! ## One packet -/

/-- An operation other than posting a signal. -/
def NoSignal : Op → Prop
  | .postSend _ => False
  | _ => True

/-- A part of the receiver that posts no signal. -/
abbrev Signalless {α : Type} (p : Receiver α) : Prop :=
  Program.Only NoSignal (fun _ => False) p

section Signalless

variable {α β : Type}

theorem signalless_files (p : Files α) : Signalless (files p) := by
  induction p with
  | done a => trivial
  | op o k ih => exact ⟨trivial, ih⟩
  | call c k => cases c

theorem signalless_undefined (why : Undefined) (α : Type) : Signalless (undefined why α) :=
  ⟨trivial, fun r => r.elim⟩

theorem mkdirRecursive_signalless (path : Path) : Signalless (mkdirRecursive path) :=
  .ite (signalless_undefined _ _) (signalless_files _)

theorem mkdirParent_signalless (path : Path) : Signalless (mkdirParent path) := by
  unfold mkdirParent
  cases parentPath path with
  | none => exact .done
  | some parent =>
    exact .bind (mkdirRecursive_signalless _) fun _ => .done

theorem handleFileMeta_signalless (loc : Locals) (base : Nat) :
    Signalless (handleFileMeta loc base) := by
  refine .bind (.ask trivial) fun type => ?_
  refine .bind (.ask trivial) fun _ => ?_
  refine .bind (.ask trivial) fun name => ?_
  refine .bind (signalless_files _) fun isDir => .ite ?_ ?_
  · exact .bind (signalless_files _) fun _ => .done
  refine .bind (mkdirParent_signalless _) fun _ => ?_
  refine .bind (signalless_files _) fun _ => .ite ?_ .done
  refine .bind (.ask trivial) fun mode => ?_
  refine .bind (.ask trivial) fun fd => ?_
  exact .bind (.ask trivial) fun _ => .done

theorem handleFileData_signalless (loc : Locals) (base : Nat) :
    Signalless (handleFileData loc base) := by
  refine .bind (.ask trivial) fun c => .ite ?_ ?_
  · refine .bind (.ask trivial) fun size => ?_
    refine .bind (.ask trivial) fun target => ?_
    refine .bind (signalless_files _) fun ok => .ite ?_ .done
    exact .bind (.ask trivial) fun _ => .done
  · cases loc.currentFd with
    | none => exact .done
    | some fd =>
      refine .bind (.ask trivial) fun off => ?_
      refine .bind (.ask trivial) fun size => ?_
      refine .bind (.ask trivial) fun data => ?_
      refine .bind (signalless_files _) fun _ => ?_
      exact .bind (.ask trivial) fun _ => .done

theorem handleCommand_signalless (loc : Locals) (base cmd : Nat) :
    Signalless (handleCommand loc base cmd) := by
  refine .ite (handleFileMeta_signalless _ _) ?_
  refine .ite (handleFileData_signalless _ _) (.ite ?_ ?_)
  · refine .bind (.ask trivial) fun name => ?_
    refine .bind (mkdirRecursive_signalless _) fun _ => ?_
    exact .bind (.ask trivial) fun _ => .done
  · refine .ite ?_ (.ite ?_ .done) <;>
      exact .bind (signalless_files _) fun _ => .done

end Signalless

section Run

variable (M : Semantics fileSignature F) (pkts : Feed) (outputDir : Option Path) (os₀ : F)

/-- The totals are the sum over the first `k` packets, which left the files as they are. -/
def SumsTo (k : Nat) (w : View) (s : State F) : Prop :=
  ∃ σ, ServedSum M pkts outputDir os₀ k w s.os σ ∧ s.ctx.Totals σ

/-- Where an ACK is posted the packet in hand is counted, and nothing is counted but for a packet
in hand. -/
def countDuties : Duties signature (State F) where
  op o s := match o with
    | .postSend _ => ∃ w, SumsTo M pkts outputDir os₀ (s.ledger.acked.length + 1) w s
    | .update (.setMetaType _) | .update (.addBytes _) | .update .countFile | .update .countDir
    | .update .countSymlink => s.ledger.current ≠ none
    | _ => True
  call _ _ := True

/-- At the head of the loop. -/
structure Books (loc : Locals) (s : State F) : Prop where
  current : s.ledger.current = none
  sums : SumsTo M pkts outputDir os₀ s.ledger.acked.length ⟨loc, s.ctx.metaType⟩ s

/-- Behind the loop. A packet that was handled may be left without its ACK. -/
def Closed (s : State F) : Prop :=
  ∃ k w, s.ledger.acked.length ≤ k ∧ k ≤ s.ledger.acked.length + 1 ∧
    SumsTo M pkts outputDir os₀ k w s

end Run

variable {pkts : Feed} {outputDir : Option Path} {os₀ : F} {n : Nat} {α β : Type}
  {Q : α → State F → Prop} {x : Slot} {p : Packet} {loc : Locals} {k : Nat} {w : View}

/-- The precondition of a part of the receiver that keeps its books. -/
abbrev Counts (M : Semantics fileSignature F) (pkts : Feed) (outputDir : Option Path) (os₀ : F)
    (n : Nat) (p : Receiver α) (Q : α → State F → Prop) (s : State F) : Prop :=
  Meets M (.feed pkts) (countDuties M pkts outputDir os₀) n p Q s

theorem SumsTo.same (h : SumsTo M pkts outputDir os₀ k w s) (hst : SameBooks s t) :
    SumsTo M pkts outputDir os₀ k w t := by
  obtain ⟨σ, hserved, htotals⟩ := h
  exact ⟨σ, hst.os ▸ hserved, hst.totals htotals⟩

theorem Books.same (h : Books M pkts outputDir os₀ loc s) (hst : SameBooks s t) :
    Books M pkts outputDir os₀ loc t := by
  refine ⟨hst.current.trans h.current, ?_⟩
  rw [hst.acked, hst.metaType]
  exact h.sums.same hst

theorem Books.closed (h : Books M pkts outputDir os₀ loc s) : Closed M pkts outputDir os₀ s :=
  ⟨_, _, le_rfl, Nat.le_succ _, h.sums⟩

theorem counts_bookless {p : Receiver α} (hp : Bookless p) :
    Counts M pkts outputDir os₀ n p (fun _ t => SameBooks s t) s := by
  refine hp.wp_keeps polls_bookless ?_ (fun _ _ _ => trivial) (fun _ _ _ ho h => h.next ho)
    (.refl s)
  intro o t ho _
  cases o with
  | postSend => exact ho.elim
  | update u =>
    cases u with
    | setMetaType | addBytes | countFile | countDir | countSymlink => exact ho.elim
    | _ => trivial
  | _ => trivial

/-- A packet stays in hand until its signal is posted. -/
theorem inHand_next {o : Op} {r : Response o} (ho : NoSignal o) (h : s.ledger.current ≠ none) :
    (next M o s r).ledger.current ≠ none := by
  obtain ⟨d, hd⟩ := Option.ne_none_iff_exists'.mp h
  cases o with
  | postSend => exact ho.elim
  | undefined => exact r.elim
  | load | loadCString =>
    simp [next, Ledger.read, Ledger.readCString, hd]
  | readCdc => simp [next, Ledger.receive, hd]
  | modifyQp | postRecv => cases r <;> exact h
  | pollCq =>
    obtain _ | _ | ⟨op, ok, wrId⟩ := r
    · exact h
    · exact h
    · cases op <;> cases ok <;> exact h
  | _ => exact h

theorem handleCommand_counts (h : InHand pkts x p s) (hfit : p.Fits) :
    Counts M pkts outputDir os₀ n (handleCommand loc (slotBase x) p.cmd.byte.toNat)
      (Handled M pkts x p loc s) s := by
  have hspec : Serves M pkts outputDir os₀ n (handleCommand loc (slotBase x) p.cmd.byte.toNat)
      (Handled M pkts x p loc s) s := handleCommand_spec h hfit
  obtain ⟨loads, hcur⟩ := h.current
  have hin : s.ledger.current ≠ none := by simp [hcur]
  refine (handleCommand_signalless _ _ _).wp_duties (I := fun t => t.ledger.current ≠ none)
    (fun _ h => h.elim) ?_ (fun _ _ h => h.elim) (fun _ _ _ ho ht => inHand_next ho ht) hin hspec
  intro o t ho hin
  cases o with
  | postSend => exact ho.elim
  | update u => cases u <;> first | exact hin | trivial
  | _ => trivial

/-- A packet that was handled is one more of the sum. -/
theorem Handled.sums {loc' : Locals} (h : Handled M pkts x p loc s loc' t)
    (hp : (pkts s.ledger.acked.length).2 = p)
    (hs : SumsTo M pkts outputDir os₀ s.ledger.acked.length ⟨loc, s.ctx.metaType⟩ s) :
    SumsTo M pkts outputDir os₀ (t.ledger.acked.length + 1) ⟨loc', t.ctx.metaType⟩ t := by
  obtain ⟨σ, ⟨hopen, hsummed⟩, htotals⟩ := hs
  obtain ⟨τ, hout, hctx⟩ := h.effect
  have hacked : t.ledger.acked = s.ledger.acked := by rw [h.ledger]
  have hsum := htotals.tally τ
  rw [hacked]
  refine ⟨σ.add τ, ⟨hopen, .packet hsummed (hp ▸ hout)⟩, ?_⟩
  rw [hctx]
  exact ⟨hsum.bytes, hsum.files, hsum.dirs, hsum.symlinks⟩

theorem sendAck_counts {buf : Nat} {slotId : UInt8} {d : Decoded}
    (hcur : s.ledger.current = some d)
    (h : SumsTo M pkts outputDir os₀ (s.ledger.acked.length + 1) w s) :
    Counts M pkts outputDir os₀ n (sendAck buf slotId) (fun ok t =>
      t = if ok then { s with ledger := s.ledger.acknowledge } else s) s := by
  refine meets_get trivial (meets_ask trivial fun msg _ _ => ?_)
  have hkeep : next M (.readCdc buf) s msg = s := by
    simp [next, Ledger.receive, hcur]
  rw [hkeep]
  refine wp.op ⟨w, h⟩ fun ok _ => wp.done ?_
  cases ok <;> rfl

/-- The packet is handled, counted and acknowledged. -/
theorem handleSignal_counts {buf : Nat} (hfit : ∀ i, (pkts i).2.Fits)
    (h : Books M pkts outputDir os₀ loc s) :
    Counts M pkts outputDir os₀ n (handleSignal loc buf) (fun r t =>
      Closed M pkts outputDir os₀ t ∧
        ∀ loc', r = some loc' → Books M pkts outputDir os₀ loc' t) s := by
  obtain ⟨⟨x, p⟩, hp⟩ : ∃ e, pkts s.ledger.acked.length = e := ⟨_, rfl⟩
  have hfit := hfit s.ledger.acked.length
  rw [hp] at hfit
  refine meets_ask trivial fun msg _ hmsg => ?_
  have hslot : msg.slotId = UInt8.ofNat x.val := by
    have := hmsg h.current
    rwa [hp] at this
  rw [show next M (.readCdc buf) s msg = s.hold (some ⟨UInt8.ofNat x.val, []⟩) by
    simp [next, Ledger.receive, h.current, hslot, State.hold], hslot]
  unfold handlePacket
  rw [slotOffset_slot]
  -- the header is read, and found valid
  refine meets_ask (o := .load (slotBase x) packetHeaderSize) trivial fun header _ hheader => ?_
  obtain rfl : header = field p.encode 0 packetHeaderSize := by
    have hread : header = field (pkts s.ledger.acked.length).2.encode 0 packetHeaderSize := by
      refine hheader 0 ?_ ?_
      · change slotBase x = slotBase (pkts s.ledger.acked.length).1 + 0
        rw [hp, Nat.add_zero]
      · change 0 + packetHeaderSize ≤ (pkts s.ledger.acked.length).2.encode.length
        rw [hp, Nat.zero_add]
        exact p.packetHeaderSize_le
    rwa [hp] at hread
  rw [if_neg (not_not.mpr (scpValidateHeader_encode p)), cmdType_encode]
  refine wp.bind (handleCommand_counts (x := x) (p := p) ⟨⟨_, rfl⟩, hp⟩ hfit) fun loc' t ht => ?_
  have hsums : SumsTo M pkts outputDir os₀ (t.ledger.acked.length + 1) ⟨loc', t.ctx.metaType⟩ t :=
    ht.sums (congrArg Prod.snd hp) h.sums
  refine wp.bind (counts_bookless (repost_bookless _)) fun ok u hu => ?_
  have hsumsu : SumsTo M pkts outputDir os₀ (u.ledger.acked.length + 1)
      ⟨loc', u.ctx.metaType⟩ u := by
    rw [hu.acked, hu.metaType]
    exact hsums.same hu
  have hclosed : Closed M pkts outputDir os₀ u := ⟨_, _, Nat.le_succ _, le_rfl, hsumsu⟩
  refine wp.guard (fun _ => ⟨hclosed, by simp⟩) fun _ => ?_
  obtain ⟨loads, hcur⟩ := ht.inHand.current
  refine wp.bind (sendAck_counts (hu.current.trans hcur) hsumsu) ?_
  rintro ok _ rfl
  cases ok with
  | false => exact wp.done ⟨hclosed, by simp⟩
  | true =>
    have hlen : (u.ledger.acknowledge).acked.length = u.ledger.acked.length + 1 := by
      simp [Ledger.acknowledge, hu.current.trans hcur]
    have hbooks : Books M pkts outputDir os₀ loc' { u with ledger := u.ledger.acknowledge } :=
      ⟨rfl, by rw [hlen]; exact hsumsu⟩
    refine wp.done ⟨hbooks.closed, fun loc'' hloc => ?_⟩
    have : loc' = loc'' := by
      split at hloc
      · cases hloc
      · exact Option.some.inj hloc
    exact this ▸ hbooks

theorem receiveLoop_counts (hfit : ∀ i, (pkts i).2.Fits)
    (h : Books M pkts outputDir os₀ loc s) :
    Counts M pkts outputDir os₀ n (receiveLoop loc)
      (fun _ t => Closed M pkts outputDir os₀ t) s := by
  refine wp.recursion (S := signature) Call.receiveLoop
    (fun loc s => Books M pkts outputDir os₀ loc s)
    (fun _ _ (_ : Int) t => Closed M pkts outputDir os₀ t) (fun _ _ _ => trivial) ?_ n loc s h
  intro n ih loc s h
  refine wp.bind (counts_bookless establishSession_bookless) fun ok t ht => ?_
  have hbt := h.same ht
  refine wp.guard (fun _ => hbt.closed) fun _ => ?_
  refine wp.bind (counts_bookless rdmaCdcCompletion_bookless) fun r u hu => ?_
  have hbu := hbt.same hu
  refine wp.guard (fun _ => hbu.closed) fun _ => meets_get trivial ?_
  have hcredits : ∀ t k, Books M pkts outputDir os₀ loc t →
      Books M pkts outputDir os₀ loc { t with ctx := (Update.setCredits k).apply t.ctx } :=
    fun t k ht => ht.same
      ((SameBooks.refl t).next (M := M) (o := .update (.setCredits k)) (r := ()) trivial)
  refine meets_charge trivial (fun t => hcredits t _) hbu fun v hv => ?_
  refine wp.bind (counts_bookless rdmaCdcConsumeBuf_bookless) fun buf w hw => ?_
  have hbw := hv.same hw
  cases buf with
  | none => exact wp.done hbw.closed
  | some buf =>
    refine wp.bind (handleSignal_counts hfit hbw) fun r z hz => ?_
    cases r with
    | none => exact wp.done hz.1
    | some loc' => exact ih loc' z (hz.2 loc' rfl)

theorem scpReceiverRun_counts (hfit : ∀ i, (pkts i).2.Fits) :
    Counts M pkts outputDir os₀ n (scpReceiverRun outputDir)
      (fun r t => r = 0 → Closed M pkts outputDir os₀ t) (initState os₀) := by
  have hzero : ∀ os : F, (initState os).ctx.Totals .none := fun _ => ⟨rfl, rfl, rfl, rfl⟩
  unfold scpReceiverRun
  cases outputDir with
  | some dir =>
    refine meets_mkdirRecursive (fun _ _ => trivial) (fun _ => trivial) fun r os hos => ?_
    refine (receiveLoop_counts (s := initState os) hfit ⟨rfl, _, ?_, hzero os⟩).mono
      fun _ _ h _ => h
    exact .mk (hos.bind .done) .start
  | none =>
    refine meets_ask trivial fun r hr _ => ?_
    cases r with
    | none => exact wp.done (by simp)
    | some base =>
      refine (receiveLoop_counts (s := initState (M.next .getcwd os₀ (some base))) hfit
        ⟨rfl, _, ?_, hzero _⟩).mono fun _ _ h _ => h
      exact .mk (.op (some base) hr .done) .start

/-- The runs of the receiver on the packets of a peer, whatever the files are. -/
abbrev feedRun (M : Semantics fileSignature F) (pkts : Feed) (outputDir : Option Path) (os : F) :
    System (Receiver Int × State F) :=
  Program.system bodies (semantics M (.feed pkts)) (scpReceiverRun outputDir) (initState os)

theorem counted (M : Semantics fileSignature F) (pkts : Feed) (hfit : ∀ i, (pkts i).2.Fits)
    (outputDir : Option Path) (os : F) :
    Verified bodies (semantics M (.feed pkts)) (countDuties M pkts outputDir os)
      (scpReceiverRun outputDir) (fun r t => r = 0 → Closed M pkts outputDir os t) (initState os) :=
  fun _ => scpReceiverRun_counts hfit

/-- Where a packet is acknowledged the totals are the sum of what the packets so far have added,
this one included, and at the end of a run nothing else was added. -/
theorem totals_summed (M : Semantics fileSignature F) (pkts : Feed)
    (hfit : ∀ i, (pkts i).2.Fits) (outputDir : Option Path) (os : F) :
    (feedRun M pkts outputDir os).Invariant fun c =>
      (∀ msg k, c.1 = .op (.postSend msg) k →
        ∃ w, SumsTo M pkts outputDir os (c.2.ledger.acked.length + 1) w c.2) ∧
      (c.1 = .done 0 → Closed M pkts outputDir os c.2) := by
  refine (counted M pkts hfit outputDir os).runs.mono ?_
  rintro ⟨_, t⟩ hc
  constructor
  · rintro msg k rfl
    exact hc.duty
  · rintro rfl
    exact hc.post rfl

/-- A file of three bytes, and the end. -/
def shortFeed : Feed
  | 0 => (0, .fileMeta [102] 3 0o644 .regular 1)
  | 1 => (0, .fileData 0 0 [1, 2, 3])
  | _ => (0, .transferEnd)

theorem shortFeed_fits (i : Nat) : (shortFeed i).2.Fits := by
  match i with
  | 0 => exact ⟨by decide, by decide⟩
  | 1 => exact ⟨by decide, by decide, by decide⟩
  | _ + 2 => trivial

theorem totals_summed_short : (feedRun (.log fileSignature) shortFeed (some [111]) []).Invariant
    fun c => (∀ msg k, c.1 = .op (.postSend msg) k →
        ∃ w, SumsTo (.log fileSignature) shortFeed (some [111]) [] (c.2.ledger.acked.length + 1) w
          c.2) ∧
      (c.1 = .done 0 → Closed (.log fileSignature) shortFeed (some [111]) [] c.2) :=
  totals_summed (.log fileSignature) shortFeed shortFeed_fits (some [111]) []

end ScpRdma.Receiver

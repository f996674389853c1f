import ScpRdma.Transfer.Stream
import ScpRdma.Sender.Completeness

/-!
# The sender sends the tree

On a disk that shows a tree, and with no call that fails, the sender returns 0: it has announced the
packets of the tree, every one is acknowledged, and its totals are those of the tree.
-/
namespace ScpRdma.Transfer
open Foundations Sender
open Receiver (Tally)

/-! ## The world -/

/-- No call and no verb fails. -/
def Works : (o : Sender.Op) → Sender.Response o → Prop
  | .sockEstablished, b | .registerMr, b | .exchange, b | .modifyQp _, b | .postRecv _ _, b
  | .postWrite _ _ _, b | .postSend _, b => b = true
  | .queryQp, r => r ≠ none
  | .waitCompletion _ _ _, r => ∃ wcs, r = some wcs ∧ ∀ wc ∈ wcs, wc.ok = true
  | _, _ => True

/-- The calls on the source answer as the disk does, and nothing fails. -/
def working (D : Disk) : Sender.World := fun o r => World.disk D o r ∧ Works o r

/-- From `pos` on the stream lists these names, with `.` and `..` anywhere between them. -/
def Lists (D : Disk) (dir : Handle) (pos : Nat) (names : List Name) : Prop :=
  ∃ order : List Name, (∀ i, D.readdir dir (pos + i) = .ofName? order[i]?) ∧
    order.filter (fun n => ¬(n = dot ∨ n = dotDot)) = names

mutual

/-- The disk shows the tree at the local path `l`. -/
def ShowsTree (D : Disk) : FileTree → Bytes → Prop
  | .file mode content, l =>
    (D.lstat l = some ⟨.regular, content.length, mode⟩ ∧
      D.stat l = some ⟨.regular, content.length, mode⟩) ∧
      ∃ fd direct, D.source l = some (fd, direct) ∧
        ∀ len off, D.pread fd len off = some ((content.drop off).take len)
  | .link mode target, l =>
    (∃ size, D.lstat l = some ⟨.symlink, size, mode⟩) ∧ D.readlink l = some target
  | .directory entries, l =>
    (∃ size mode, D.lstat l = some ⟨.directory, size, mode⟩) ∧
      (∃ dir, D.opendir l = some dir ∧ Lists D dir 0 entries.names) ∧ ShowsForest D entries l

def ShowsForest (D : Disk) : Forest → Bytes → Prop
  | .nil, _ => True
  | .cons name t rest, l => ShowsTree D t (childPath l name) ∧ ShowsForest D rest l

end

/-! ## The totals -/

/-- The totals of the sender, in the widths of their counters. -/
structure Counts (c : Sender.Ctx) (σ : Tally) : Prop where
  bytes : c.totalBytes = UInt64.ofNat σ.bytes
  files : c.totalFiles = UInt32.ofNat σ.files
  dirs : c.totalDirs = UInt32.ofNat σ.dirs
  symlinks : c.totalSymlinks = UInt32.ofNat σ.symlinks

/-- From `c` to `c'` the totals have grown by `τ`. -/
def Grows (c c' : Sender.Ctx) (τ : Tally) : Prop := ∀ σ, Counts c σ → Counts c' (σ.add τ)

section Totals

variable {c c' c'' : Sender.Ctx} {σ τ υ : Tally}

theorem Grows.trans (h : Grows c c' τ) (h' : Grows c' c'' υ) : Grows c c'' (τ.add υ) := by
  intro σ hσ
  rw [← Receiver.Tally.add_assoc]
  exact h' _ (h _ hσ)

theorem Grows.none (h : ∀ σ, Counts c σ → Counts c' σ) : Grows c c' .none := by
  intro σ hσ
  rw [Receiver.Tally.add_none]
  exact h σ hσ

theorem Grows.behind (h : Grows c c' .none) (h' : Grows c' c'' τ) : Grows c c'' τ :=
  Receiver.Tally.none_add τ ▸ h.trans h'

theorem Grows.before (h : Grows c c' τ) (h' : Grows c' c'' .none) : Grows c c'' τ :=
  Receiver.Tally.add_none τ ▸ h.trans h'

theorem grows_addBytes (c : Sender.Ctx) (k : Nat) :
    Grows c ((Update.addBytes k).apply c) { Tally.none with bytes := k } := by
  intro σ hσ
  refine ⟨?_, hσ.files, hσ.dirs, hσ.symlinks⟩
  simp only [Update.apply, Tally.add, hσ.bytes, UInt64.ofNat_add]

theorem grows_countFile (c : Sender.Ctx) :
    Grows c (Update.countFile.apply c) { Tally.none with files := 1 } := by
  intro σ hσ
  refine ⟨hσ.bytes, ?_, hσ.dirs, hσ.symlinks⟩
  simp only [Update.apply, Tally.add, hσ.files, UInt32.ofNat_add]
  rfl

theorem grows_countDir (c : Sender.Ctx) :
    Grows c (Update.countDir.apply c) { Tally.none with dirs := 1 } := by
  intro σ hσ
  refine ⟨hσ.bytes, hσ.files, ?_, hσ.symlinks⟩
  simp only [Update.apply, Tally.add, hσ.dirs, UInt32.ofNat_add]
  rfl

theorem grows_countSymlink (c : Sender.Ctx) :
    Grows c (Update.countSymlink.apply c) { Tally.none with symlinks := 1 } := by
  intro σ hσ
  refine ⟨hσ.bytes, hσ.files, hσ.dirs, ?_⟩
  simp only [Update.apply, Tally.add, hσ.symlinks, UInt32.ofNat_add]
  rfl

end Totals

/-- The operations that do not count. -/
def Uncounted : Sender.Op → Prop
  | .update (.addBytes _) | .update .countFile | .update .countDir | .update .countSymlink => False
  | _ => True

section Uncounted

variable {α : Type}

/-- A part of the sender that polls, posts and connects, and does not count. -/
abbrev Uncounting {α : Type} (p : Sender α) : Prop := Program.Only Uncounted Polls p

theorem grows_apply (u : Update) (hu : Uncounted (.update u)) (c : Sender.Ctx) :
    Grows c (u.apply c) .none := by
  refine .none fun σ hσ => ?_
  cases u with
  | addBytes | countFile | countDir | countSymlink => exact hu.elim
  | _ => exact ⟨hσ.bytes, hσ.files, hσ.dirs, hσ.symlinks⟩

theorem Grows.uncounted {o : Sender.Op} {c : Sender.Ctx} {s : Sender.State} {r : Sender.Response o}
    (h : Grows c s.ctx .none) (ho : Uncounted o) : Grows c (next o s r).ctx .none := by
  refine h.behind (.none fun σ hσ => ?_)
  cases o with
  | update u => exact Receiver.Tally.add_none σ ▸ grows_apply u ho s.ctx σ hσ
  | undefined => exact r.elim
  | pread | modifyQp | postRecv | postWrite | postSend | waitCompletion => cases r <;> exact hσ
  | _ => exact hσ

theorem uncounting_of_working {p : Sender α} (h : Working p) : Uncounting p :=
  h.mono (fun o ho => by
    cases o with
    | update u => cases u <;> trivial
    | _ => trivial) fun _ h => h

theorem polls_uncounting (cfg : Sender.Config) (c : Call) (h : Polls c) :
    Uncounting (bodies cfg c) := uncounting_of_working (polls_working cfg c h)

theorem rdmaTransPost_uncounting (wr : TransWr) : Uncounting (rdmaTransPost wr) := by
  refine .bind ?_ fun sges => .bind (.ask trivial) fun _ => ?_
  · cases wr.sges with
    | session => exact .bind (.ask trivial) fun _ => .done
    | own sges => exact .done
  · exact .ite .done (.bind (.ask trivial) fun _ => .done)

theorem scpRdmaSendSync_uncounting (wr : TransWr) : Uncounting (scpRdmaSendSync wr) := by
  refine .step (uncounting_of_working (waitForSlot_working 0)) ?_
  refine .step (uncounting_of_working (postAckRecv_working 0)) ?_
  refine .step (rdmaTransPost_uncounting wr) ?_
  refine .step (uncounting_of_working waitForRdmaWriteCompletion_working) ?_
  refine .bind (.ask trivial) fun _ => .bind (.ask trivial) fun _ => ?_
  refine .ite (.bind (.ask trivial) fun _ => .done) ?_
  exact .step (uncounting_of_working (waitForSlot_working 0)) .done

end Uncounted

/-! ## Parts that cannot fail -/

variable {D : Disk} {cfg : Sender.Config} {n : Nat} {α : Type} {Q : α → Sender.State → Prop}
  {s t : Sender.State}

theorem working_reliable (D : Disk) : (working D).Reliable := by
  rintro o r ⟨-, hr⟩
  cases o with
  | postRecv | postWrite | postSend | waitCompletion => exact hr
  | _ => trivial

/-- What can only fail with the verbs does not fail. -/
theorem meets_working {p : Sender α} {A : α → Sender.State → Prop}
    (h : Meets cfg (working D) n p (fun a t => A a t ∧ ¬(working D).Reliable ∨ Q a t) s) :
    Meets cfg (working D) n p Q s :=
  h.mono fun _ _ ht => ht.resolve_left fun hfail => hfail.2 (working_reliable D)

/-- A part that does not count leaves the totals. -/
theorem meets_uncounting {p : Sender α} (hp : Uncounting p)
    (h : Meets cfg (working D) n p Q s) :
    Meets cfg (working D) n p (fun a t => Q a t ∧ Grows s.ctx t.ctx .none) s := by
  have hkeeps : wp (bodies cfg) (semantics (working D))
      ⟨fun _ _ => True, fun _ _ => True⟩ n p (fun _ t => Grows s.ctx t.ctx Tally.none) s :=
    hp.wp_keeps (polls_uncounting cfg) (fun _ _ _ _ => trivial) (fun _ _ _ => trivial)
      (fun _ _ _ ho hs => hs.uncounted ho) (Grows.none fun _ h => h)
  exact h.and hkeeps

/-- What has been done: the packets are announced, and all are acknowledged. -/
structure Delivered (s : Sender.State) (out : List Parcel) (τ : Tally) (r : Int)
    (t : Sender.State) : Prop where
  ok : r = 0
  up : Up t
  sent : t.ledger.sent = s.ledger.sent ++ announce out
  totals : Grows s.ctx t.ctx τ

theorem sendSync_works {wrLen off : Nat} {p : Packet} (h : Up s) (hoff : off = slotBase 0)
    (hlen : HasLength s [s.ctx.sessionSge] wrLen) (hfit : p.Fits)
    (hin : InSlot 0 s.ctx.sessionSge.addr s.ctx.sessionSge.length)
    (hmem : gather s.mem [s.ctx.sessionSge] = p.encode) :
    Meets cfg (working D) n (scpRdmaSendSync ⟨.session, wrLen, off⟩)
      (Delivered s [(0, p)] .none) s :=
  (meets_uncounting (scpRdmaSendSync_uncounting _)
    (meets_working (scpRdmaSendSync_spec h hoff hlen hfit hin hmem))).mono
    fun _ _ ht => ⟨ht.1.1, ht.1.2.1, ht.1.2.2, ht.2⟩

/-- The session comes up. -/
theorem rdmaTransInit_works (h : Fresh s) :
    Meets cfg (working D) n (Session.rdmaTransInit verbs)
      (fun r t => r = 0 ∧ Grows s.ctx t.ctx .none) s := by
  refine wp.bind (R := fun r t => (r : Int) = 0 ∧
    t = { s with ctx := Update.cdcBuffers.apply s.ctx }) ?_ ?_
  · refine meets_ask trivial fun ok _ hok => ?_
    obtain rfl : ok = true := hok.2
    exact meets_update trivial (wp.done ⟨rfl, rfl⟩)
  rintro _ _ ⟨rfl, rfl⟩
  refine wp.bind (R := fun r t => (r : Int) = 0 ∧ Grows s.ctx t.ctx .none) ?_ ?_
  · refine meets_ask trivial fun ok _ hok => ?_
    obtain rfl : ok = true := hok.2
    refine meets_ask trivial fun st hst hsome => ?_
    cases st with
    | none => exact absurd rfl hsome.2
    | some st =>
    obtain rfl : st = .reset := Eq.trans hst h.qp
    refine wp.guard (fun hne => absurd rfl hne) fun _ => ?_
    refine meets_ask trivial fun ok _ hok => ?_
    obtain rfl : ok = true := hok.2
    refine wp.bind (R := fun r t => r = some 0 ∧ t = { s with
      qp := .init, ctx := Update.acquire.apply (Update.cdcBuffers.apply s.ctx) }) ?_ ?_
    · refine meets_get (wp.guard (fun h0 => absurd h0 (Nat.succ_ne_zero 7)) fun _ => ?_)
      exact meets_update trivial (wp.done ⟨rfl, rfl⟩)
    rintro _ _ ⟨rfl, rfl⟩
    refine meets_ask ⟨by simp [h.posted], ?_⟩ fun ok _ hok => ?_
    · simp [h.posted]
    obtain rfl : ok = true := hok.2
    refine meets_ask (o := .modifyQp .rtr) (by simp [duties, Duty, next]) fun ok _ hok => ?_
    obtain rfl : ok = true := hok.2
    refine meets_ask trivial fun ok _ hok => ?_
    obtain rfl : ok = true := hok.2
    exact wp.done ⟨rfl, .none fun σ hσ => ⟨hσ.bytes, hσ.files, hσ.dirs, hσ.symlinks⟩⟩
  rintro _ t ⟨rfl, ht⟩
  exact wp.done ⟨rfl, ht⟩

theorem establishSession_works {wr : TransWr} (h : Rest s) :
    Meets cfg (working D) n (establishSession wr)
      (fun r t => r ≠ none ∧ Grows s.ctx t.ctx .none) s := by
  refine meets_get (wp.guard (fun _ => ⟨by simp, .none fun _ h => h⟩) fun hnot => ?_)
  have hf : Fresh s := h.resolve_right fun hup => hnot hup.session
  refine wp.bind (R := fun r t => r ≠ none ∧ Grows s.ctx t.ctx .none) ?_ fun r t ht => ?_
  · refine meets_ask trivial fun ok _ hok => ?_
    obtain rfl : ok = true := hok.2
    refine wp.bind (rdmaTransInit_works hf) ?_
    rintro _ t ⟨rfl, ht⟩
    exact wp.guard (fun h0 => absurd rfl h0) fun _ => wp.done ⟨by simp, ht⟩
  obtain ⟨hr, ht⟩ := ht
  cases r with
  | none => exact absurd rfl hr
  | some wr =>
    exact meets_update trivial (wp.done ⟨by simp, ht.behind (grows_apply .establish trivial _)⟩)

/-- A control packet, and what comes behind it. -/
theorem sendControl_works {p : Packet} {len : Nat} {fail rest : Sender α} (h : Rest s)
    (hfit : p.Fits) (hlen : p.encode.length = len)
    (hrest : ∀ t, Delivered s [(0, p)] .none 0 t → Meets cfg (working D) n rest Q t) :
    Meets cfg (working D) n (do
      store 0 p.encode
      match ← establishSession ⟨.session, len, 0⟩ with
      | none => fail
      | some wr =>
        if (← sendSessionBuf wr len) ≠ 0 then
          fail
        else rest) Q s := by
  have hin : p.encode.length ≤ scpCombinedChunkSize := Packet.length_encode_le hfit
  refine meets_store (h.mayFill (inSlot_zero hin)) fun m hm => ?_
  refine wp.bind ((establishSession_spec h.mem).and (establishSession_works h.mem)) ?_
  rintro r t ⟨ht, hr, hgrow⟩
  cases r with
  | none => exact absurd rfl hr
  | some wr =>
  obtain ⟨hest, hreq⟩ := ht wr rfl
  obtain ⟨wrLen, rfl, hwr⟩ : ∃ wrLen, wr = ⟨.session, wrLen, 0⟩ ∧
      HasLength t [⟨0, len⟩] wrLen := by
    rcases hreq with rfl | ⟨rfl, hnone⟩
    · exact ⟨_, rfl, .inl (by simp)⟩
    · exact ⟨_, rfl, .inr ⟨rfl, hnone⟩⟩
  have hup := hest.up.update (.setSge ⟨0, len⟩) trivial
  refine wp.bind (meets_update trivial (sendSync_works hup rfl hwr hfit
    (inSlot_zero (hlen ▸ hin)) ?_)) fun r u hu => ?_
  · have hmem : t.mem = s.mem.store 0 p.encode := hest.mem.trans hm
    simp only [gather, Update.apply, List.flatMap_cons, List.flatMap_nil, List.append_nil, hmem]
    exact Memory.load_store_eq hlen
  rw [if_neg (not_not.mpr hu.ok)]
  have htotals := (grows_apply (.setSge ⟨0, len⟩) trivial t.ctx).behind hu.totals
  refine hrest u ⟨rfl, hu.up, hu.sent.trans ?_, Grows.behind hgrow htotals⟩
  change t.ledger.sent ++ _ = _
  rw [hest.sent]

/-! ## Links and files -/

section Objects

variable {out out' : List Parcel} {τ υ : Tally} {ret : Int} {l r : Bytes} {mode size : Nat}

/-- One packet behind another. -/
theorem Delivered.trans {u : Sender.State} {ret' : Int} (h : Delivered s out τ ret t)
    (h' : Delivered t out' υ ret' u) : Delivered s (out ++ out') (τ.add υ) ret' u :=
  ⟨h'.ok, h'.up, by rw [h'.sent, h.sent, announce_append, List.append_assoc],
    h.totals.trans h'.totals⟩

/-- Something is counted behind it. -/
theorem Delivered.count (h : Delivered s out τ ret t) {u : Update} (hu : u.Plain)
    (hgrow : Grows t.ctx (u.apply t.ctx) υ) :
    Delivered s out (τ.add υ) 0 { t with ctx := u.apply t.ctx } :=
  ⟨rfl, h.up.update u hu, h.sent, h.totals.trans hgrow⟩

theorem scpSendSymlink_works {target : Bytes} (h : Rest s)
    (hread : D.readlink l = some target) (hlen : target.length ≤ scpMaxPathLen - 1) :
    Meets cfg (working D) n (scpSendSymlink l r ⟨.symlink, size, mode⟩)
      (Delivered s (treeParcels (.link mode target) r) (treeTally (.link mode target))) s := by
  refine meets_ask trivial fun resp _ hresp => ?_
  obtain rfl : resp = some target := by
    have hresp : resp = (D.readlink l).map (·.take (scpMaxPathLen - 1)) := hresp.1
    rw [hresp, hread, Option.map_some, List.take_of_length_le hlen]
  have hsmall : target.length ≤ 4095 := hlen
  refine sendControl_works (p := .fileMeta r target.length mode .symlink 1) h ⟨by omega, by decide⟩
    (Packet.length_encode _) fun u hu => ?_
  have hmay : ∀ {v : Sender.State} {i len : Nat}, Up v → i + len ≤ 4131 →
      MayFill v (slotBase 0 + i) len := fun hv hi =>
    Rest.mayFill (.inr hv) (inSlot_base (by rw [scpCombinedChunkSize_eq]; omega))
  refine meets_store (hmay (i := 0) hu.up (by simp [dataChunkSize])) fun m hm => ?_
  refine meets_store (hmay hu.up.mem (by simp only [dataChunkSize]; omega)) fun m' hm' => ?_
  refine meets_update trivial ?_
  refine wp.bind (sendSync_works (p := .fileData 0 0 target)
    (hu.up.mem.mem.update (.setSge ⟨slotBase 0, dataChunkSize + target.length⟩) trivial) rfl
    (.inl (by simp [Update.apply])) ⟨by decide, by decide, ?_⟩ (inSlot_start ?_) ?_)
    fun ret v hv => ?_
  · rw [scpChunkSize_eq]
    omega
  · simp only [dataChunkSize, scpCombinedChunkSize_eq, Update.apply]
    omega
  · simp only [Update.apply, hm', hm]
    exact gather_link
  refine wp.guard (fun hne => absurd hv.ok hne) fun _ => ?_
  have hv' : Delivered u [(0, .fileData 0 0 target)] .none ret v :=
    ⟨hv.ok, hv.up, hv.sent, (grows_apply (.setSge _) trivial u.ctx).behind hv.totals⟩
  refine meets_update trivial (wp.done ?_)
  exact (hu.trans hv').count (u := .countSymlink) trivial (grows_countSymlink v.ctx)

theorem le_askSize (direct : Bool) (toRead : Nat) : toRead ≤ askSize direct toRead := by
  unfold askSize alignedSize
  split <;> omega

/-- A descriptor from which every read brings what is there. -/
def HasContent (D : Disk) (fd : Handle) (content : Bytes) : Prop :=
  ∀ len off, D.pread fd len off = some ((content.drop off).take len)

/-- Posting one chunk. -/
theorem postChunk_works {x : Slot} {p : Packet} {sges : List Sge} {wrLen : Nat}
    {rest : Sender Int} {Q : Int → Sender.State → Prop} (h : Running s)
    (hx : x ∉ s.ledger.unacked) (hfirst : 1 ≤ s.ledger.handled)
    (hlen : wrLen = (sges.map Sge.length).sum) (hfit : p.Fits)
    (hin : ∀ e ∈ sges, InSlot x e.addr e.length) (hmem : gather s.mem sges = p.encode)
    (hrest : ∀ t, Running t → t.ctx.currentSlot = s.ctx.currentSlot →
      t.ledger.handled = s.ledger.handled →
      t.ledger.sent = s.ledger.sent ++ announce [(x, p)] → Grows s.ctx t.ctx .none →
      Meets cfg (working D) n rest Q t) :
    Meets cfg (working D) n (do
      if (← postAckRecv x) ≠ 0 then
        return -1
      if (← rdmaTransPost ⟨.own sges, wrLen, slotBase x⟩) ≠ 0 then
        return -1
      if !(← postSend (Cdc.dataReady x)) then
        return -1
      update (.busySlot x)
      rest) Q s := by
  refine wp.bind (meets_working (postAckRecv_spec h.live hx)) ?_
  rintro r _ ⟨rfl, rfl⟩
  refine wp.guard (fun h0 => absurd rfl h0) fun _ => ?_
  refine wp.bind (meets_working
    (rdmaTransPost_spec (x := x) h.idle (.inl hlen) rfl hx hin hfit hmem)) ?_
  rintro r _ ⟨rfl, rfl⟩
  refine wp.guard (fun h0 => absurd rfl h0) fun _ => ?_
  have hlive := h.live.acquire.written x p.encode
  refine meets_postSend (hlive.mayAnnounce rfl hx (.inr hfirst)) (fun hfail => ?_) ?_
  · exact absurd hfail.2 Bool.false_ne_true
  refine meets_update ((h.live.free x).mpr hx) (hrest _ ⟨hlive.announce rfl hx, ?_, rfl, ?_⟩ rfl
    rfl rfl ?_)
  · exact h.settled
  · exact h.session
  · exact .none fun σ hσ => ⟨hσ.bytes, hσ.files, hσ.dirs, hσ.symlinks⟩

theorem Harvest.grows {s t : Sender.State} {k : Nat} (h : Harvest k s t) :
    Grows s.ctx t.ctx .none := by
  refine .none fun σ hσ => ?_
  rw [h.frame.ctx]
  exact ⟨hσ.bytes, hσ.files, hσ.dirs, hσ.symlinks⟩

theorem sub_split {a b c : Nat} (h : b + c ≤ a) : a - b = c + (a - (b + c)) := by omega

theorem chunkLoop_works {fd : Handle} {direct : Bool} {content : Bytes} {remaining i off : Nat}
    (hread : HasContent D fd content) (hsmall : content.length ≤ (2 ^ 32 - 1) * scpChunkSize)
    (h : Running s) (hround : GoesRound s) (hfirst : 1 ≤ s.ledger.handled)
    (hi : i + remaining = totalChunks content.length)
    (hoff : off = min (i * scpChunkSize) content.length)
    (hslot : s.ctx.currentSlot = Fin.ofNat 4 i) :
    Meets cfg (working D) n (chunkLoop fd direct content.length remaining i off) (fun r t => r = 0 ∧
      Running t ∧ t.ledger.sent = s.ledger.sent ++
        announce ((List.range' i remaining).map (chunkParcel content content.length)) ∧
      Grows s.ctx t.ctx { Tally.none with bytes := content.length - off }) s := by
  induction remaining generalizing s i off with
  | zero =>
    obtain rfl : i = totalChunks content.length := hi
    rw [min_eq_right (totalChunks_mul hsmall)] at hoff
    refine wp.done ⟨rfl, h, by simp, ?_⟩
    rw [hoff, Nat.sub_self]
    exact .none fun _ h => h
  | succ remaining ih =>
    have hlt : i < totalChunks content.length := by omega
    have hstart := (chunk_starts hsmall).mp hlt
    rw [min_eq_left hstart.le] at hoff
    obtain ⟨hto, hend⟩ := chunkToRead_le content.length off (hoff ▸ hstart.le)
    have hask := askSize_le direct hto
    have hnum := totalChunks_lt content.length
    rw [chunkLoop]
    refine meets_ask ⟨hround, h.live.booked⟩ fun x hcur _ => ?_
    obtain rfl : x = s.ctx.currentSlot := hcur
    change Meets cfg (working D) n _ _ s
    refine wp.bind (meets_working (waitForSlot_spec h.live (.inl ⟨hround, rfl⟩) h.settled)) ?_
    rintro r t ⟨rfl, ht, hfree⟩
    refine wp.guard (fun h0 => absurd h0 (by decide)) fun _ => ?_
    have hrun := h.harvest ht
    have hone : 1 ≤ t.ledger.handled := hfirst.trans ht.frame.handled
    refine wp.bind (readChunk_spec ⟨hrun.idle, _, inSlot_data hask, hfree⟩) ?_
    -- the read brings the chunk
    have hdata : ∀ data, working D (.pread fd (slotBase s.ctx.currentSlot + scpDataOffset)
        (askSize direct (chunkToRead content.length off)) off) (some data) →
        data.take (chunkToRead content.length off) = chunkBytes content content.length i := by
      intro data hW
      have hW : some data = D.pread fd _ off := hW.1
      rw [hread] at hW
      obtain rfl := Option.some.inj hW
      rw [List.take_take, min_eq_left (le_askSize direct _), hoff]
      exact take_grown (List.prefix_refl _) le_rfl hstart
    have hpos := chunkBytes_length_pos (le_refl content.length) hstart
    rintro r u hu
    cases hu with
    | stop resp mem hW hnil hr =>
      cases resp with
      | none =>
        have hW : none = D.pread fd _ off := hW.1
        rw [hread] at hW
        cases hW
      | some data =>
        have hnil : data.take (chunkToRead content.length off) = [] := hnil
        rw [← hdata data hW, hnil] at hpos
        exact absurd hpos (lt_irrefl 0)
    | chunk data mem m hW hmem hn =>
    have hchunk := hdata data hW
    have hm : m + 1 ≤ chunkToRead content.length off := hn ▸ List.length_take_le _ _
    have hhead := inSlot_start (x := s.ctx.currentSlot) dataChunkSize_le
    dsimp only
    refine meets_store ⟨hrun.idle, s.ctx.currentSlot, ?_, hfree⟩ fun mem' hmem' => ?_
    · rwa [length_dataChunkHeader]
    refine postChunk_works (p := .fileData i off (data.take (chunkToRead content.length off)))
      hrun.mem.mem hfree hone (by simp) ⟨by omega, ?_, by omega⟩ ?_ ?_
      fun u hu hcur hhand hsent hgrow => ?_
    · have hle := hsmall
      rw [scpChunkSize_eq] at hle
      omega
    · simp only [List.mem_cons, List.not_mem_nil, or_false, forall_eq_or_imp, forall_eq]
      exact ⟨hhead, inSlot_data (hm.trans hto)⟩
    · rw [hmem', hmem, ← hn]
      exact gather_chunk
    refine meets_update trivial (meets_update trivial ?_)
    refine meets_ask (o := .progress _ _) (by change off + (m + 1) ≤ content.length; omega)
      fun _ _ _ => ?_
    have hu' := (hu.update (.nextSlot s.ctx.currentSlot) trivial).update (.addBytes (m + 1)) trivial
    refine wp.bind (meets_working (harvestCompletions_spec hu'.live hu'.settled trivial)) ?_
    rintro r v ⟨hr, hv⟩
    refine wp.guard (fun hneg => absurd hneg (by omega)) fun _ => ?_
    have hsentv : v.ledger.sent = s.ledger.sent ++
        announce [chunkParcel content content.length i] := by
      rw [hv.frame.sent, chunkParcel, ← hchunk, ← hoff, ← hslot]
      refine Eq.trans (b := u.ledger.sent) rfl (hsent.trans ?_)
      exact congrArg (· ++ _) ht.frame.sent
    have hhandv : t.ledger.handled ≤ v.ledger.handled := hhand.ge.trans hv.frame.handled
    have hcurv : v.ctx.currentSlot = s.ctx.currentSlot + 1 := hv.frame.currentSlot
    have hnext : off + (m + 1) = min ((i + 1) * scpChunkSize) content.length := by
      rw [← hn, hchunk, hoff]
      exact chunk_end hstart
    have hroundv : GoesRound v := by
      refine hround.next (p := .fileData i (i * scpChunkSize) (chunkBytes content content.length i))
        (ht.frame.handled.trans hhandv) ?_ hcurv
      rw [hsentv, chunkParcel, hslot]
    refine (ih (hu'.harvest hv) hroundv (hone.trans hhandv) (by omega) hnext ?_).mono ?_
    · rw [hcurv, hslot, ofNat_add_one]
    rintro r w ⟨hr, hrunw, hsentw, hgroww⟩
    refine ⟨hr, hrunw, ?_, ?_⟩
    · rw [hsentw, hsentv, List.range'_succ, List.map_cons, List.append_assoc]
      rfl
    · have hsize := sub_split (hnext.trans_le (min_le_right _ _))
      have hfirst' : Grows s.ctx v.ctx { Tally.none with bytes := m + 1 } := by
        refine Grows.before ?_ (Harvest.grows hv)
        refine Grows.behind (Grows.behind (Harvest.grows ht) hgrow) ?_
        exact (grows_apply (.nextSlot s.ctx.currentSlot) trivial u.ctx).behind
          (grows_addBytes _ (m + 1))
      have hboth := hfirst'.trans hgroww
      rwa [Tally.add, ← hsize] at hboth

theorem openSource_works {fd : Handle} {direct : Bool} (h : D.source l = some (fd, direct)) :
    Meets cfg (working D) n (openSource l) (fun r t => r = some (fd, direct) ∧ t = s) s := by
  have hsource : ∀ {x d}, World.disk D (.openFile l d) (some x) →
      (d = false → World.disk D (.openFile l true) none) → (x, d) = (fd, direct) := fun hx hd =>
    Option.some.inj ((source_of_world hx hd).symm.trans h)
  refine meets_ask trivial fun resp _ hresp => ?_
  cases resp with
  | some x => exact wp.done ⟨congrArg some (hsource hresp.1 (by simp)), rfl⟩
  | none =>
    refine meets_ask trivial fun resp _ hresp' => ?_
    cases resp with
    | some x => exact wp.done ⟨congrArg some (hsource hresp'.1 fun _ => hresp.1), rfl⟩
    | none =>
      have htrue : none = D.openFile l true := hresp.1
      have hfalse : none = D.openFile l false := hresp'.1
      simp [Disk.source, ← htrue, ← hfalse] at h

theorem scpSendFile_works {content : Bytes} (h : Rest s)
    (hsmall : content.length ≤ (2 ^ 32 - 1) * scpChunkSize)
    (hshown : ShowsTree D (.file mode content) l) :
    Meets cfg (working D) n (scpSendFile l r)
      (Delivered s (treeParcels (.file mode content) r) (treeTally (.file mode content))) s := by
  obtain ⟨⟨-, hstat⟩, fd, direct, hsource, hread⟩ := hshown
  refine meets_ask trivial fun resp _ hresp => ?_
  obtain rfl : resp = some ⟨.regular, content.length, mode⟩ := Eq.trans hresp.1 hstat
  refine wp.bind (openSource_works hsource) ?_
  rintro _ _ ⟨rfl, rfl⟩
  have hsize : content.length < 2 ^ 64 := by
    rw [scpChunkSize_eq] at hsmall
    omega
  refine sendControl_works
    (p := .fileMeta r content.length mode .regular (totalChunks content.length)) h
    ⟨hsize, totalChunks_lt _⟩ (Packet.length_encode _) fun u hu => ?_
  have hfirst := (hu.up.live.first hu.up.clear).resolve_left (by simp [hu.sent])
  refine meets_update hu.up.mayRestart ?_
  have hround : GoesRound { u with ctx := Update.restart.apply u.ctx } := by
    refine ⟨u.ledger.sent.map Announced.slot, 0, by simp [Sender.rotation], ?_, rfl⟩
    have hh := hu.up.live.handled
    rw [hu.up.clear] at hh
    simpa using hh
  refine wp.bind (chunkLoop_works (i := 0) hread hsmall hu.up.restart.toRunning hround hfirst
    (Nat.zero_add _) (by simp) rfl) ?_
  rintro _ v ⟨rfl, hrun, hsent, hgrow⟩
  rw [if_neg (not_not.mpr rfl)]
  refine wp.bind (meets_working (drainPendingAcks_spec hrun.live hrun.settled)) ?_
  rintro _ w ⟨rfl, hw, hclear⟩
  rw [if_neg (by decide)]
  refine meets_ask trivial fun _ _ _ => meets_update trivial (wp.done ?_)
  have hchunks : Delivered u (chunkParcels content content.length (totalChunks content.length))
      { Tally.none with bytes := content.length } 0 w := by
    refine ⟨rfl, ⟨hrun.harvest hw, hclear⟩, ?_, ?_⟩
    · rw [hw.frame.sent, hsent, chunkParcels, List.range_eq_range']
    · refine Grows.before (Grows.behind (grows_apply .restart trivial u.ctx) ?_) (Harvest.grows hw)
      rwa [Nat.sub_zero] at hgrow
  have htally : (Tally.none.add { Tally.none with bytes := content.length }).add
      { Tally.none with files := 1 } = treeTally (.file mode content) := by
    simp [Tally.add, Tally.none, treeTally]
  exact htally ▸ (hu.trans hchunks).count (u := .countFile) trivial (grows_countFile w.ctx)

end Objects

/-! ## Directories -/

section Directories

variable {dir : Handle} {pos : Nat} {names : List Name} {name : Name} {f others : Forest}
  {tree : FileTree} {l r : Bytes}

theorem Lists.finish (h : Lists D dir pos names) (hread : ∀ name, D.readdir dir pos ≠ .entry name) :
    names = [] := by
  obtain ⟨order, horder, rfl⟩ := h
  cases order with
  | nil => rfl
  | cons name order => exact absurd (horder 0) (hread name)

/-- One name of the stream, and those behind it. -/
theorem Lists.step (h : Lists D dir pos names) (hread : D.readdir dir pos = .entry name) :
    (name = dot ∨ name = dotDot) ∧ Lists D dir (pos + 1) names ∨
      ¬(name = dot ∨ name = dotDot) ∧
        ∃ rest, names = name :: rest ∧ Lists D dir (pos + 1) rest := by
  obtain ⟨order, horder, rfl⟩ := h
  have hfirst := horder 0
  rw [Nat.add_zero, hread] at hfirst
  cases order with
  | nil => cases hfirst
  | cons x order =>
    cases hfirst
    have hrest : ∀ i, D.readdir dir (pos + 1 + i) = .ofName? order[i]? := fun i => by
      rw [Nat.add_assoc, Nat.add_comm 1 i, horder (i + 1), List.getElem?_cons_succ]
    by_cases hdots : name = dot ∨ name = dotDot
    · refine .inl ⟨hdots, order, hrest, ?_⟩
      rw [List.filter_cons_of_neg (by simp [hdots])]
    · refine .inr ⟨hdots, _, ?_, order, hrest, rfl⟩
      rw [List.filter_cons_of_pos (by simp [hdots])]

/-- The disk shows the entries of a directory, and their paths fit their buffers. -/
structure Shown (D : Disk) (f : Forest) (l r : Bytes) : Prop where
  fits : ForestFits f
  shows : ShowsForest D f l
  localPath : l.length + forestReach f < scpMaxPathLen
  remotePath : r.length + forestReach f < scpMaxPathLen

theorem Shown.rest (h : Shown D (.cons name tree others) l r) : Shown D others l r := by
  have hl := h.localPath
  have hr := h.remotePath
  rw [forestReach] at hl hr
  exact ⟨h.fits.2.2, h.shows.2, by omega, by omega⟩

theorem Shown.child (h : Shown D (.cons name (.directory f) others) l r) :
    Shown D f (childPath l name) (childPath r name) := by
  have hl := h.localPath
  have hr := h.remotePath
  rw [forestReach, treeReach] at hl hr
  refine ⟨h.fits.2.1, h.shows.1.2.2, ?_, ?_⟩ <;> rw [length_childPath] <;> omega

theorem Shown.subPaths (h : Shown D (.cons name tree others) l r) :
    subPath l name = childPath l name ∧ subPath r name = childPath r name := by
  have hl := h.localPath
  have hr := h.remotePath
  rw [forestReach] at hl hr
  constructor <;> refine subPath_eq_iff.mpr ?_ <;> rw [length_childPath] <;> omega

/-- A call for a directory, with what the directory holds. -/
inductive Job where
  | directory (f : Forest) (l r : Bytes)
  | entries (f : Forest) (dir : Handle) (pos : Nat) (l r : Bytes)

def Job.call : Job → Call
  | .directory _ l r => .sendDirectory l r
  | .entries _ dir pos l r => .readdirLoop dir pos l r

def Job.Ready (D : Disk) : Job → Sender.State → Prop
  | .directory f l r, s => Rest s ∧ ShowsTree D (.directory f) l ∧ Shown D f l r
  | .entries f dir pos l r, s => Up s ∧ Lists D dir pos f.names ∧ Shown D f l r

def Job.parcels : Job → List Parcel
  | .directory f _ r => treeParcels (.directory f) r
  | .entries f _ _ _ r => forestParcels f r

def Job.tally : Job → Tally
  | .directory f _ _ => treeTally (.directory f)
  | .entries f _ _ _ _ => forestTally f

/-- The sender walks into directories and does not follow links. -/
def walkCfg : Sender.Config := ⟨true, false⟩

variable (ih : ∀ (job : Job) s, job.Ready D s → Meets walkCfg (working D) n (invoke job.call)
  (Delivered s job.parcels job.tally) s)
include ih

/-- One entry, and the rest of the directory. -/
theorem sendEntry_works {p : Sender Int} (hp : Meets walkCfg (working D) n p
      (Delivered s (treeParcels tree (childPath r name)) (treeTally tree)) s)
    (hlist : Lists D dir (pos + 1) others.names) (hshown : Shown D others l r) :
    Meets walkCfg (working D) n (do
      if (← p) ≠ 0 then
        return -1
      invoke (.readdirLoop dir (pos + 1) l r))
      (Delivered s (forestParcels (.cons name tree others) r)
        (forestTally (.cons name tree others))) s := by
  refine wp.bind hp fun ret t ht => ?_
  refine wp.guard (fun hne => absurd ht.ok hne) fun _ => ?_
  exact (ih (.entries others dir (pos + 1) l r) t ⟨ht.up, hlist, hshown⟩).mono fun _ _ hu =>
    ht.trans hu

theorem readdirLoopBody_works (h : Up s) (hlist : Lists D dir pos f.names)
    (hshown : Shown D f l r) : Meets walkCfg (working D) n (readdirLoopBody walkCfg dir pos l r)
      (Delivered s (forestParcels f r) (forestTally f)) s := by
  refine meets_ask trivial fun resp _ hresp => ?_
  have hread : resp = D.readdir dir pos := hresp.1
  cases resp with
  | finish | failure =>
    have hnames := hlist.finish (by simp [← hread])
    cases f with
    | nil => exact wp.done ⟨rfl, h, by simp [forestParcels, next], .none fun _ h => h⟩
    | cons => cases hnames
  | entry name =>
  dsimp only
  rcases hlist.step hread.symm with ⟨hdots, hbehind⟩ | ⟨hdots, names, hnames, hbehind⟩
  · rw [if_pos hdots]
    exact ih (.entries f dir (pos + 1) l r) s ⟨h, hbehind, hshown⟩
  rw [if_neg hdots]
  cases f with
  | nil => cases hnames
  | cons name' tree others =>
  obtain ⟨rfl, rfl⟩ := List.cons.inj hnames
  obtain ⟨hl, hr⟩ := hshown.subPaths
  rw [hl, hr]
  have hrest := hshown.rest
  have hshows : ShowsTree D tree (childPath l name') := hshown.shows.1
  refine meets_ask (o := .lstat (childPath l name')) trivial fun st _ hst => ?_
  have hst : st = D.lstat (childPath l name') := hst.1
  cases tree with
  | file mode content =>
    obtain rfl := hst.trans hshows.1.1
    exact sendEntry_works ih (scpSendFile_works (.inr h) hshown.fits.2.1 hshows) hbehind hrest
  | link mode target =>
    obtain ⟨⟨size, hlstat⟩, htarget⟩ := hshows
    obtain rfl := hst.trans hlstat
    have hlen := hshown.fits.2.1.2.2
    exact sendEntry_works ih (scpSendSymlink_works (.inr h) htarget hlen) hbehind hrest
  | directory entries =>
    obtain ⟨size, mode, hlstat⟩ := hshows.1
    obtain rfl := hst.trans hlstat
    exact sendEntry_works ih (ih (.directory entries (childPath l name') (childPath r name')) s
      ⟨.inr h, hshows, hshown.child⟩) hbehind hrest

theorem scpSendDirectoryBody_works (h : Rest s) (hshows : ShowsTree D (.directory f) l)
    (hshown : Shown D f l r) : Meets walkCfg (working D) n (scpSendDirectoryBody l r)
      (Delivered s (treeParcels (.directory f) r) (treeTally (.directory f))) s := by
  obtain ⟨-, ⟨dir, hopen, hlist⟩, -⟩ := hshows
  refine meets_ask trivial fun resp _ hresp => ?_
  obtain rfl : resp = some dir := Eq.trans hresp.1 hopen
  refine sendControl_works (p := .dirEnter r) h trivial (Packet.length_encode _) fun t ht => ?_
  refine wp.bind (ih (.entries f dir 0 l r) t ⟨ht.up, hlist, hshown⟩) fun ret u hu => ?_
  rw [if_neg (not_not.mpr hu.ok)]
  refine meets_update trivial ?_
  have hcount := (ht.trans hu).count (u := .countDir) trivial (grows_countDir u.ctx)
  have hlen : (Packet.encode .dirLeave).length = packetHeaderSize := Packet.length_encode _
  refine meets_store (Rest.mayFill (.inr hcount.up) (inSlot_zero ?_)) fun m hm => ?_
  · rw [List.length_append, hlen, List.length_replicate]
    decide
  refine wp.bind (meets_update trivial (sendSync_works (p := .dirLeave)
    (hcount.up.mem.update (.setSge ⟨0, packetHeaderSize⟩) trivial) rfl (.inl rfl) trivial
    (inSlot_zero (show packetHeaderSize ≤ _ by decide)) ?_)) fun ret v hv => ?_
  · simp only [gather, Update.apply, List.flatMap_cons, List.flatMap_nil, List.append_nil, hm]
    exact Memory.load_store_append hlen
  rw [if_neg (not_not.mpr hv.ok)]
  refine meets_ask trivial fun _ _ _ => wp.done ?_
  have hleave : Delivered { u with ctx := Update.countDir.apply u.ctx } [(0, .dirLeave)] .none 0
      v := ⟨rfl, hv.up, hv.sent, (grows_apply (.setSge _) trivial _).behind hv.totals⟩
  have htally : (((Tally.none.add (forestTally f)).add { Tally.none with dirs := 1 }).add .none) =
      treeTally (.directory f) := by
    simp [Tally.add, Tally.none, treeTally, Nat.add_comm]
  exact htally ▸ hcount.trans hleave

end Directories

/-! ## The whole run -/

theorem job_works (job : Job) (h : job.Ready D s) :
    Meets walkCfg (working D) n (invoke job.call) (Delivered s job.parcels job.tally) s := by
  refine meets_recursion Job.call (Job.Ready D) (fun job s => Delivered s job.parcels job.tally)
    (fun n ih job s h => ?_) h
  cases job with
  | directory f l r => exact scpSendDirectoryBody_works ih h.1 h.2.1 h.2.2
  | entries f dir pos l r => exact readdirLoopBody_works ih h.1 h.2.1 h.2.2

/-- The disk shows the tree at the local path, which a program may examine, and the paths that the
sender builds fit its buffers. -/
structure Uploads (D : Disk) (t : FileTree) (l r : Bytes) : Prop where
  fits : TreeFits t
  shows : ShowsTree D t l
  present : D.stat l ≠ none
  localPath : l.length + treeReach t < scpMaxPathLen
  remotePath : r.length + treeReach t < scpMaxPathLen

theorem scpSenderRun_works {t : FileTree} {l r : Bytes} (hup : Uploads D t l r) (h : Rest s) :
    Meets walkCfg (working D) n (scpSenderRun walkCfg l r)
      (Delivered s (transferParcels t r) (treeTally t)) s := by
  refine meets_ask trivial fun resp _ hresp => ?_
  cases resp with
  | none => exact absurd (Eq.symm hresp.1) hup.present
  | some _ =>
  refine meets_ask (o := .lstat l) trivial fun st _ hst => ?_
  have hst : st = D.lstat l := hst.1
  have hrest : ∀ {p : Sender Int}, Meets walkCfg (working D) n p
      (Delivered s (treeParcels t r) (treeTally t)) s → Meets walkCfg (working D) n (do
        let ret ← p
        if ret ≠ 0 then
          return ret
        store 0 Packet.transferEnd.encode
        update (.setSge ⟨0, transferEndSize⟩)
        let ctx ← get
        if ctx.sessionEstablished then
          let _ ← scpRdmaSendSync ⟨.session, transferEndSize, 0⟩
        return 0) (Delivered s (transferParcels t r) (treeTally t)) s := by
    intro p hp
    refine wp.bind hp fun ret u hu => ?_
    refine wp.guard (fun hne => absurd hu.ok hne) fun _ => ?_
    have hend : (Packet.encode .transferEnd).length ≤ scpCombinedChunkSize :=
      Packet.length_encode_le trivial
    refine meets_store (Rest.mayFill (.inr hu.up) (inSlot_zero hend)) fun m hm => ?_
    refine meets_update trivial (meets_get ?_)
    have hup' := (hu.up.mem (m := m)).update (.setSge ⟨0, transferEndSize⟩) trivial
    split
    case isFalse hno => exact absurd hup'.session hno
    refine wp.bind (sendSync_works (p := .transferEnd) hup' rfl (.inl rfl) trivial
      (inSlot_zero (show transferEndSize ≤ _ by decide)) ?_) fun ret v hv => wp.done ?_
    · simp only [gather, Update.apply, List.flatMap_cons, List.flatMap_nil, List.append_nil, hm]
      exact Memory.load_store_self _ _ _
    have hlast : Delivered u [(0, .transferEnd)] .none 0 v :=
      ⟨rfl, hv.up, hv.sent, (grows_apply (.setSge _) trivial u.ctx).behind hv.totals⟩
    exact Receiver.Tally.add_none (treeTally t) ▸ hu.trans hlast
  cases t with
  | file mode content =>
    obtain rfl := hst.trans hup.shows.1.1
    exact hrest (scpSendFile_works h hup.fits hup.shows)
  | link mode target =>
    obtain ⟨⟨size, hlstat⟩, htarget⟩ := hup.shows
    obtain rfl := hst.trans hlstat
    exact hrest (scpSendSymlink_works h htarget hup.fits.2.2)
  | directory entries =>
    obtain ⟨size, mode, hlstat⟩ := hup.shows.1
    obtain rfl := hst.trans hlstat
    exact hrest (job_works (.directory entries l r)
      ⟨h, hup.shows, hup.fits, hup.shows.2.2, hup.localPath, hup.remotePath⟩)

/-- Every run of the sender on the tree meets its duties. If it ends, it returns 0, the word of the
tree is announced and acknowledged, and the totals are those of the tree. -/
theorem upload_verified {t : FileTree} {l r : Bytes} (hup : Uploads D t l r) :
    Verified (bodies walkCfg) (semantics (working D)) duties (scpSenderRun walkCfg l r)
      (Delivered initState (transferParcels t r) (treeTally t)) initState :=
  fun _ => scpSenderRun_works hup .init

end ScpRdma.Transfer

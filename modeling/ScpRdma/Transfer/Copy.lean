import ScpRdma.Transfer.Safety
import ScpRdma.Transfer.Upload
import ScpRdma.Transfer.Download
import ScpRdma.Transfer.Schedule

/-!
# A tree is copied

The sender on a disk that shows a tree, and the receiver with an empty output directory, over one
queue pair. Whatever the order of the steps, when the sender has returned 0 the receiver has handled
the word of the tree to its end, the totals of both sides are those of the tree, and the tree stands
below the output directory.
-/
namespace ScpRdma.Transfer
open Foundations

/-! ## The books of the receiver -/

section Books

variable {F : Type} {M : Semantics Receiver.fileSignature F} {pkts : Receiver.Feed}
  {outputDir : Option Bytes} {os : F} {s : Receiver.State F}

/-- Between two packets the totals are the sum of those that were acknowledged. -/
def Accounted (M : Semantics Receiver.fileSignature F) (pkts : Receiver.Feed)
    (outputDir : Option Bytes) (os : F) (s : Receiver.State F) : Prop :=
  s.ledger.current = none → s.ledger.acked ≠ [] →
    ∃ w, Receiver.SumsTo M pkts outputDir os s.ledger.acked.length w s

theorem Accounted.same {t : Receiver.State F} (h : Accounted M pkts outputDir os s)
    (hst : Receiver.SameBooks s t) : Accounted M pkts outputDir os t := by
  intro hcur hne
  rw [hst.current] at hcur
  rw [hst.acked] at hne ⊢
  obtain ⟨w, hw⟩ := h hcur hne
  exact ⟨w, hw.same hst⟩

/-- Every operation that meets its duties keeps the books. -/
theorem Accounted.next {o : Receiver.Op} {r : Receiver.Response o}
    (h : Accounted M pkts outputDir os s) (hD : Receiver.Duty M pkts outputDir os o s)
    (hC : (Receiver.countDuties M pkts outputDir os).op o s) :
    Accounted M pkts outputDir os (Receiver.next M o s r) := by
  by_cases ho : Receiver.Steady o
  · exact h.same ((Receiver.SameBooks.refl s).next ho)
  cases o with
  | file o => exact fun hcur hne => absurd (hD hcur) hne
  | load | loadCString =>
    exact fun hcur _ => absurd hcur (Receiver.inHand_next trivial hD.1)
  | readCdc =>
    intro hcur _
    cases hs : s.ledger.current <;>
      simp [Receiver.next, Receiver.Ledger.receive, hs] at hcur
  | postSend msg =>
    cases r with
    | false => exact h
    | true =>
      obtain ⟨⟨d, hd, -⟩, -, -⟩ := hD
      obtain ⟨w, hw⟩ := hC
      refine fun _ _ => ⟨w, ?_⟩
      have hlen : (Receiver.next M (.postSend msg) s true).ledger.acked.length =
          s.ledger.acked.length + 1 := by
        simp [Receiver.next, Receiver.Ledger.acknowledge, hd]
      rw [hlen]
      exact hw
  | update u =>
    cases u with
    | setMetaType | addBytes | countFile | countDir | countSymlink =>
      exact fun hcur _ => absurd hcur hC
    | _ => exact absurd trivial ho
  | _ => exact absurd trivial ho

end Books

/-! ## The packets of a tree as a feed -/

section Feed

variable {out : List Parcel} {t : FileTree} {r : Bytes}

/-- The receiver is fed these packets. -/
def parcelFeed (out : List Parcel) : Receiver.Feed := fun i => out.getD i (0, .dirLeave)

theorem parcelFeed_range (out : List Parcel) :
    (List.range out.length).map (fun i => (parcelFeed out i).2) = unslotted out := by
  refine List.ext_getElem (by simp) fun i hi _ => ?_
  simp only [List.length_map, List.length_range] at hi
  simp [parcelFeed, hi]

theorem parcelFeed_continues (h : ∀ e ∈ out, e.2.Fits) :
    Continues (parcelFeed out) (Sender.announce out) := by
  refine ⟨fun i => ?_, fun i a ha => ?_⟩
  · rw [parcelFeed, List.getD_eq_getElem?_getD]
    cases he : out[i]? with
    | none => trivial
    | some e => exact h e (List.mem_of_getElem? he)
  · rw [Sender.announce, List.getElem?_map, Option.map_eq_some_iff] at ha
    obtain ⟨e, he, rfl⟩ := ha
    rw [parcelFeed, List.getD_eq_getElem?_getD, he]
    exact ⟨rfl, rfl⟩

theorem fileParcels_fit {content : Bytes} {mode : Nat}
    (h : content.length ≤ (2 ^ 32 - 1) * scpChunkSize) :
    ∀ e ∈ Sender.fileParcels r ⟨.regular, content.length, mode⟩ content, e.2.Fits := by
  rw [Sender.fileParcels, List.forall_mem_cons]
  refine ⟨⟨?_, Sender.totalChunks_lt _⟩, fun e he => ?_⟩
  · rw [scpChunkSize_eq] at h
    exact lt_of_le_of_lt h (by decide)
  · obtain ⟨i, hi, rfl⟩ := List.mem_map.mp he
    have hi := List.mem_range.mp hi
    refine ⟨hi.trans (Sender.totalChunks_lt _), ?_, List.length_take_le _ _⟩
    have hstart := (Sender.chunk_starts h).mp hi
    rw [scpChunkSize_eq] at h hstart ⊢
    omega

mutual

theorem treeParcels_fit (t : FileTree) (h : TreeFits t) (r : Bytes) :
    ∀ e ∈ treeParcels t r, e.2.Fits := by
  cases t with
  | file mode content => exact fileParcels_fit h
  | link mode target =>
    have hlen : target.length < 2 ^ 64 ∧ target.length ≤ scpChunkSize := by
      have := h.2.2
      simp only [scpMaxPathLen, scpChunkSize] at this ⊢
      omega
    rw [treeParcels, List.forall_mem_cons, List.forall_mem_singleton]
    exact ⟨⟨hlen.1, by decide⟩, by decide, by decide, hlen.2⟩
  | directory entries =>
    rw [treeParcels]
    intro e he
    rcases List.mem_append.mp he with he | he
    · rcases List.mem_cons.mp he with rfl | he
      · trivial
      · exact forestParcels_fit entries h r e he
    · obtain rfl := List.mem_singleton.mp he
      trivial

theorem forestParcels_fit (f : Forest) (h : ForestFits f) (r : Bytes) :
    ∀ e ∈ forestParcels f r, e.2.Fits := by
  cases f with
  | nil => exact fun e he => absurd he (List.not_mem_nil)
  | cons name t rest =>
    rw [forestParcels]
    intro e he
    rcases List.mem_append.mp he with he | he
    · exact treeParcels_fit t h.2.1 _ e he
    · exact forestParcels_fit rest h.2.2 r e he

end

theorem transferParcels_fit (h : TreeFits t) (r : Bytes) : ∀ e ∈ transferParcels t r, e.2.Fits := by
  rw [transferParcels]
  intro e he
  rcases List.mem_append.mp he with he | he
  · exact treeParcels_fit t h r e he
  · obtain rfl := List.mem_singleton.mp he
    trivial

end Feed

/-! ## The two sides -/

/-- A transfer where nothing fails. -/
def copying (D : Sender.Disk) (l r : Bytes) (outputDir : Option Bytes) (fs : FileSystem) :
    Setup FileSystem where
  cfg := walkCfg
  world := working D
  localPath := l
  remotePath := r
  files := Receiver.unfailing
  outputDir := outputDir
  os := fs

/-- On its way to the end: the sender delivers the tree, and the receiver keeps its books. -/
structure Carried (S : Setup FileSystem) (t : FileTree) (c : Config FileSystem) : Prop where
  sound : Sound S c
  sender : Verified (Sender.bodies S.cfg) (Sender.semantics S.world) Sender.duties c.sender
    (Delivered Sender.initState (transferParcels t S.remotePath) (treeTally t)) c.sstate
  counted : ∀ pkts, Continues pkts c.sstate.ledger.sent →
    Verified Receiver.bodies (Receiver.semantics S.files (.feed pkts))
      (Receiver.countDuties S.files pkts S.outputDir S.os) c.receiver
      (fun r s => r = 0 → Receiver.Closed S.files pkts S.outputDir S.os s) c.rstate
  accounted : ∀ pkts, Continues pkts c.sstate.ledger.sent →
    Accounted S.files pkts S.outputDir S.os c.rstate

/-- What the sender has finished the receiver has acknowledged, and it holds nothing more. -/
theorem Agree.all_handled {m : Memory} {l : Sender.Ledger} {rqp : QpState} {r : Receiver.Ledger}
    {net : Net} (h : Agree m l rqp r net) (hclear : l.unacked = []) :
    r.acked.length = l.sent.length ∧ r.current = none := by
  have hdone : l.sent.length ≤ l.handled := by
    rw [h.unacked, List.map_eq_nil_iff, List.drop_eq_nil_iff] at hclear
    exact hclear
  have hacked := h.handled_le_acked
  have hdecoded := h.decoded_le_received.trans h.received_le
  rw [decodings, List.length_append] at hdecoded
  refine ⟨by omega, ?_⟩
  cases hcur : r.current with
  | none => rfl
  | some d =>
    rw [hcur] at hdecoded
    simp only [Option.toList_some, List.length_singleton] at hdecoded
    omega

namespace Carried

variable {S : Setup FileSystem} {t : FileTree} {c c' : Config FileSystem} {D : Sender.Disk}
  {l r : Bytes} {outputDir : Option Bytes} {fs : FileSystem} {loc : Location}

theorem init (hup : Uploads D t l r) :
    Carried (copying D l r outputDir fs) t (copying D l r outputDir fs).start where
  sound := .init _
  sender := upload_verified hup
  counted := fun pkts hp => Receiver.counted _ pkts hp.fits _ _
  accounted := fun _ _ _ hne => absurd rfl hne

/-- Where the sender has returned 0, both sides are at the end of the word. -/
theorem finished (h : Carried (copying D l r outputDir fs) t c) (hc : c.sender = .done 0) :
    Delivered Sender.initState (transferParcels t r) (treeTally t) 0 c.sstate ∧
      c.sstate.ledger.sent = Sender.announce (transferParcels t r) ∧
      c.rstate.ledger.acked.length = (transferParcels t r).length ∧
      c.rstate.ledger.current = none := by
  have hsender := h.sender
  rw [hc] at hsender
  have hdone := hsender.post
  have hsent : c.sstate.ledger.sent = Sender.announce (transferParcels t r) := hdone.sent
  obtain ⟨hlen, hcur⟩ := h.sound.agree.all_handled hdone.up.clear
  refine ⟨hdone, hsent, ?_, hcur⟩
  rw [hlen, hsent, Sender.announce, List.length_map]

/-- There the receiver has handled the packets of the tree, and counted them. -/
theorem served (h : Carried (copying D l r outputDir fs) t c) (ht : TreeFits t)
    (hc : c.sender = .done 0) : ∃ w σ, c.rstate.ctx.Totals σ ∧
      Receiver.ServedSum Receiver.unfailing (parcelFeed (transferParcels t r)) outputDir fs
        (transferParcels t r).length w c.rstate.os σ := by
  obtain ⟨-, hsent, hacked, hcur⟩ := h.finished hc
  have hfeed : Continues (parcelFeed (transferParcels t r)) c.sstate.ledger.sent :=
    hsent ▸ parcelFeed_continues (transferParcels_fit ht r)
  have hne : c.rstate.ledger.acked ≠ [] := by
    refine List.ne_nil_of_length_pos ?_
    rw [hacked, transferParcels, List.length_append]
    exact Nat.lt_add_left _ Nat.one_pos
  obtain ⟨w, σ, hserved, htotals⟩ := h.accounted _ hfeed hcur hne
  rw [hacked] at hserved
  exact ⟨w, σ, htotals, hserved⟩

/-- There the tree is copied, and counted on both sides. -/
theorem lands (h : Carried (copying D l r outputDir fs) t c) (ht : TreeFits t)
    (hland : Lands fs outputDir loc t r) (hc : c.sender = .done 0) :
    Copied fs loc (components pathSep r) t c.rstate.os ∧ Counts c.sstate.ctx (treeTally t) ∧
      c.rstate.ctx.Totals (treeTally t) := by
  obtain ⟨w, σ, htotals, hserved⟩ := h.served ht hc
  obtain ⟨rfl, hcopied⟩ := hland.served ht (parcelFeed_range _) hserved
  have hgrow := (h.finished hc).1.totals .none ⟨rfl, rfl, rfl, rfl⟩
  rw [Receiver.Tally.none_add] at hgrow
  exact ⟨hcopied, hgrow, htotals⟩

theorem step (h : Carried S t c) (hstep : Step S c c') : Carried S t c' := by
  have hsound := h.sound.step hstep
  have ⟨hs, hsender, hcounted, hacc⟩ := h
  cases hstep with
  | senderOp resp hc hallow hsee =>
    rw [hc] at hsender
    have hgrow := fun pkts (hp : Continues pkts _) =>
      hp.of_prefix (Sound.sent_grows _ c.sstate resp)
    exact ⟨hsound, hsender.response resp hallow, fun pkts hp => hcounted pkts (hgrow pkts hp),
      fun pkts hp => hacc pkts (hgrow pkts hp)⟩
  | senderCall hc =>
    rw [hc] at hsender
    exact ⟨hsound, hsender.enter, hcounted, hacc⟩
  | receiverOp resp hc hpos hsee =>
    refine ⟨hsound, hsender, fun pkts hp => ?_, fun pkts hp => ?_⟩
    · have hv := hcounted pkts hp
      rw [hc] at hv
      exact hv.response resp ⟨hpos, hs.agree.feeds hp (hs.receiverDuty hc hp) hsee⟩
    · have hv := hcounted pkts hp
      rw [hc] at hv
      exact (hacc pkts hp).next (hs.receiverDuty hc hp) hv.duty
  | receiverCall hc =>
    refine ⟨hsound, hsender, fun pkts hp => ?_, hacc⟩
    have hv := hcounted pkts hp
    rw [hc] at hv
    exact hv.enter
  | move hm => exact ⟨hsound, hsender, hcounted, hacc⟩

end Carried

/-- Every reachable state of such a transfer is on its way to the end. -/
theorem carried {D : Sender.Disk} {t : FileTree} {l r : Bytes} (hup : Uploads D t l r)
    (outputDir : Option Bytes) (fs : FileSystem) :
    (copying D l r outputDir fs).system.Invariant (Carried (copying D l r outputDir fs) t) :=
  System.invariant_of_inductive (by rintro _ rfl; exact .init hup) fun _ _ h hstep => h.step hstep

/-! ## Copies -/

section Copy

variable {D : Sender.Disk} {t : FileTree} {l r : Bytes} {outputDir : Option Bytes}
  {fs : FileSystem} {loc : Location}

/-- When `scp_sender_run` has returned 0, the receiver's files are the tree at the remote path, with
the directories above it, and nothing else. -/
theorem tree_copied (hup : Uploads D t l r) (hland : Lands fs outputDir loc t r) :
    (copying D l r outputDir fs).system.Invariant fun c =>
      c.sender = .done 0 → Copied fs loc (components pathSep r) t c.rstate.os :=
  (carried hup outputDir fs).mono fun _ h hc => (h.lands hup.fits hland hc).1

end Copy

/-- The directory `s` with a file of three bytes and a link to it. -/
def smallTree : FileTree :=
  .directory (.cons [97] (.file 0o644 [1, 2, 3]) (.cons [108] (.link 0o777 [97]) .nil))

def smallDisk : Sender.Disk where
  stat path := if path = [115] then some ⟨.directory, 0, 0o755⟩ else some ⟨.regular, 3, 0o644⟩
  lstat path :=
    if path = [115] then some ⟨.directory, 0, 0o755⟩
    else if path = [115, 47, 97] then some ⟨.regular, 3, 0o644⟩
    else some ⟨.symlink, 1, 0o777⟩
  openFile path _ := some path
  pread _ len off := some (([1, 2, 3].drop off).take len)
  readlink _ := some [97]
  opendir path := some path
  readdir _ pos := .ofName? [[46], [97], [46, 46], [108]][pos]?

theorem smallDisk_regular : Regular smallDisk where
  stat := fun path st h => by
    simp only [smallDisk] at h
    split at h <;> cases h <;> decide
  lstat := fun path st h => by
    simp only [smallDisk] at h
    split at h
    · cases h
      decide
    · split at h <;> cases h <;> decide
  pread := fun fd len off data h => by
    cases h
    exact List.length_take_le _ _

theorem smallDisk_uploads : Uploads smallDisk smallTree [115] [100] where
  fits := by
    refine ⟨⟨⟨⟨by decide, by decide⟩, by decide, by decide⟩, by simp [NoNul], by decide⟩,
      show 3 ≤ (2 ^ 32 - 1) * scpChunkSize by decide,
      ⟨⟨⟨by decide, by decide⟩, by decide, by decide⟩, by simp [NoNul], by decide⟩,
      ⟨by decide, by simp [NoNul], by decide⟩, trivial⟩
  shows := by
    refine ⟨⟨0, 0o755, rfl⟩, ⟨[115], rfl, [[46], [97], [46, 46], [108]], fun i => ?_, by decide⟩,
      ⟨⟨rfl, rfl⟩, [115, 47, 97], true, rfl, fun _ _ => rfl⟩, ⟨⟨1, rfl⟩, rfl⟩, trivial⟩
    rw [Nat.zero_add]
    rfl
  present := by simp [smallDisk]
  localPath := by decide
  remotePath := by decide

theorem outputRoot_empty {t : FileTree} {r : Bytes} (hnul : NoNul r)
    (hlen : r.length + treeReach t < scpMaxFilenameLen) :
    EmptyBase Receiver.outputRoot (some Receiver.outputBase) [[111]] t r where
  base := Receiver.outputRoot_ready
  empty := fun n names => by
    rw [Receiver.outputRoot_lookup]
    simp
  numbered := by
    refine ⟨fun x ino h => ?_, nofun⟩
    rw [Receiver.outputRoot_lookup] at h
    split at h <;> cases h
  noNul := hnul
  remotePath := hlen
  path := by
    have hbase : (Receiver.stripSlashes
        (Receiver.baseDir Receiver.outputRoot (some Receiver.outputBase))).length = 2 := by
      decide +kernel
    rw [hbase]
    simp only [scpMaxFilenameLen, scpMaxPathLen] at hlen ⊢
    omega

theorem smallTree_lands :
    Lands Receiver.outputRoot (some Receiver.outputBase) [[111]] smallTree [100] where
  toEmptyBase := outputRoot_empty (by simp [NoNul]) (by decide)
  down := by
    have hname : components pathSep [100] = [[100]] := by decide
    rw [hname]
    simp [Receiver.Downward, selfName, parentName]
  leaf := fun h => absurd rfl h

/-- Where a run ends that copies it to `/o/d`. -/
def smallRun : Config FileSystem :=
  drive smallDisk (copying smallDisk [115] [100] (some Receiver.outputBase) Receiver.outputRoot) 600
    (copying smallDisk [115] [100] (some Receiver.outputBase) Receiver.outputRoot).start

theorem smallRun_done : smallRun.sender = .done 0 :=
  Program.eq_done_of_result? (by decide +kernel)

theorem smallRun_reachable :
    (copying smallDisk [115] [100] (some Receiver.outputBase) Receiver.outputRoot).system.Reachable
      smallRun := drive_reachable smallDisk_regular rfl rfl 600

/-- A whole transfer leaves the tree at `/o/d`. -/
theorem small_tree_copied : smallRun.sender = .done 0 ∧
    Copied Receiver.outputRoot [[111]] [[100]] smallTree smallRun.rstate.os :=
  ⟨smallRun_done, tree_copied smallDisk_uploads smallTree_lands smallRun smallRun_reachable
    smallRun_done⟩

/-! ### An object that is refused -/

/-- An empty file. -/
def emptyFile : FileTree := .file 0o644 []

def fileDisk : Sender.Disk where
  stat _ := some ⟨.regular, 0, 0o644⟩
  lstat _ := some ⟨.regular, 0, 0o644⟩
  openFile path _ := some path
  pread _ _ _ := some []
  readlink _ := none
  opendir _ := none
  readdir _ _ := .finish

theorem fileDisk_regular : Regular fileDisk where
  stat := fun _ st h => by
    cases h
    decide
  lstat := fun _ st h => by
    cases h
    decide
  pread := fun _ len _ data h => by
    cases h
    exact Nat.zero_le len

theorem fileDisk_uploads {r : Bytes} (h : r.length < scpMaxPathLen) :
    Uploads fileDisk emptyFile [102] r where
  fits := Nat.zero_le _
  shows := ⟨⟨rfl, rfl⟩, [102], true, rfl, fun _ _ => by simp [fileDisk]⟩
  present := by simp [fileDisk]
  localPath := by decide
  remotePath := h

/-- The file is sent under the remote path `r`. -/
def fileSetup (r : Bytes) : Setup FileSystem :=
  copying fileDisk [102] r (some Receiver.outputBase) Receiver.outputRoot

def fileRun (r : Bytes) : Config FileSystem := drive fileDisk (fileSetup r) 200 (fileSetup r).start

theorem fileRun_reachable (r : Bytes) : (fileSetup r).system.Reachable (fileRun r) :=
  drive_reachable fileDisk_regular rfl rfl 200

/-- A file may not be copied though the sender returns 0: under the remote path `/` the receiver
finds a directory where the file should go, and passes the file over. -/
theorem not_every_tree_copied :
    ¬∀ (D : Sender.Disk) (t : FileTree) (l r : Bytes) (outputDir : Option Bytes) (fs : FileSystem)
      (loc : Location), Uploads D t l r → EmptyBase fs outputDir loc t r →
      Receiver.Downward (components pathSep r) →
      (copying D l r outputDir fs).system.Invariant fun c =>
        c.sender = .done 0 → Copied fs loc (components pathSep r) t c.rstate.os := by
  intro hall
  have hnames : components pathSep [47] = [] := by decide
  have hdone : (fileRun [47]).sender = .done 0 := Program.eq_done_of_result? (by decide +kernel)
  have hcopied := hall fileDisk emptyFile [102] [47] (some Receiver.outputBase)
    Receiver.outputRoot [[111]] (fileDisk_uploads (by decide))
    (outputRoot_empty (by simp [NoNul]) (by decide)) (by simp [Receiver.Downward, hnames])
    (fileRun [47]) (fileRun_reachable _) hdone
  have hdir : (fileRun [47]).rstate.os.object [[111]] = some .directory := by decide +kernel
  have hfile := hcopied.tree []
  rw [hnames, List.append_nil, List.append_nil, hdir] at hfile
  cases hfile

/-! ### Words and totals -/

/-- What holds when `scp_sender_run` has returned 0: the packets are a word of the grammar, the
receiver has acknowledged all of them, and the totals of both sides are those of the tree. -/
structure Tallied (t : FileTree) (r : Bytes) (c : Config FileSystem) : Prop where
  word : ∃ out, c.sstate.ledger.sent = Sender.announce out ∧ IsWord r (unslotted out)
  accepted : c.rstate.ledger.acked.length = c.sstate.ledger.sent.length
  sender : Counts c.sstate.ctx (treeTally t)
  receiver : c.rstate.ctx.Totals (treeTally t)

/-- When `scp_sender_run` has returned 0, the packets are one word for the tree, all of them
accepted, and the totals of both sides are those of the tree. -/
theorem word_tallied {D : Sender.Disk} {t : FileTree} {l r : Bytes} {outputDir : Option Bytes}
    {fs : FileSystem} {loc : Location} (hup : Uploads D t l r)
    (hland : Lands fs outputDir loc t r) :
    (copying D l r outputDir fs).system.Invariant fun c => c.sender = .done 0 → Tallied t r c := by
  refine (carried hup outputDir fs).mono fun c h hc => ?_
  obtain ⟨-, hsender, hreceiver⟩ := h.lands hup.fits hland hc
  obtain ⟨-, hsent, hacked, -⟩ := h.finished hc
  refine ⟨⟨_, hsent, transferParcels_isWord hup.fits r⟩, ?_, hsender, hreceiver⟩
  rw [hacked, hsent, Sender.announce, List.length_map]

/-- A whole transfer with its packets and totals. -/
theorem small_tree_tallied : smallRun.sender = .done 0 ∧ Tallied smallTree [100] smallRun :=
  ⟨smallRun_done, word_tallied smallDisk_uploads smallTree_lands smallRun smallRun_reachable
    smallRun_done⟩

/-- The receiver does not count the file where the sender does. -/
theorem fileRun_not_tallied {r : Bytes} (hdone : (fileRun r).sender = .done 0)
    (hnone : (fileRun r).rstate.ctx.totalFiles = 0)
    (h : (fileSetup r).system.Invariant fun c => c.sender = .done 0 → Tallied emptyFile r c) :
    False := by
  have hfiles := (h _ (fileRun_reachable r) hdone).receiver.files
  rw [hnone] at hfiles
  exact absurd hfiles (by decide)

/-- A file may not be counted by the receiver: under the remote path `..` and under the remote path
`/` it passes the file over. -/
theorem not_every_tree_tallied :
    (¬∀ (D : Sender.Disk) (t : FileTree) (l r : Bytes) (outputDir : Option Bytes) (fs : FileSystem)
      (loc : Location), Uploads D t l r → EmptyBase fs outputDir loc t r →
      (t.top ≠ .directory → Receiver.EndsInName r) →
      (copying D l r outputDir fs).system.Invariant fun c =>
        c.sender = .done 0 → Tallied t r c) ∧
    ¬∀ (D : Sender.Disk) (t : FileTree) (l r : Bytes) (outputDir : Option Bytes) (fs : FileSystem)
      (loc : Location), Uploads D t l r → EmptyBase fs outputDir loc t r →
      Receiver.Downward (components pathSep r) →
      (copying D l r outputDir fs).system.Invariant fun c =>
        c.sender = .done 0 → Tallied t r c := by
  constructor <;> intro hall
  · refine fileRun_not_tallied (r := [46, 46]) (Program.eq_done_of_result? (by decide +kernel))
      (by decide +kernel) ?_
    exact hall fileDisk emptyFile [102] [46, 46] (some Receiver.outputBase) Receiver.outputRoot
      [[111]] (fileDisk_uploads (by decide)) (outputRoot_empty (by simp [NoNul]) (by decide))
      fun _ => ⟨46, rfl, by decide⟩
  · have hnames : components pathSep [47] = [] := by decide
    refine fileRun_not_tallied (r := [47]) (Program.eq_done_of_result? (by decide +kernel))
      (by decide +kernel) ?_
    exact hall fileDisk emptyFile [102] [47] (some Receiver.outputBase) Receiver.outputRoot
      [[111]] (fileDisk_uploads (by decide)) (outputRoot_empty (by simp [NoNul]) (by decide))
      (by simp [Receiver.Downward, hnames])

end ScpRdma.Transfer

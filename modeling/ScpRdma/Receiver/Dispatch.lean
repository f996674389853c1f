import ScpRdma.Receiver.Discipline
import ScpRdma.Receiver.Recording

/-!
# What a chunk changes

A chunk goes to what the last `SCP_CMD_FILE_META` named: a regular file, which is open, or the
place of a link. `Tracked` follows a sequence of packets with what was named last; it says so
in terms of the file system, not of `current_fd`, `current_path` and `meta_type`.
-/
namespace ScpRdma.Receiver
open Foundations

/-- What `SCP_CMD_FILE_META` does once it knows whether its target is a directory. -/
def afterStat (v : View) (path : Path) (mode : Nat) (type : UInt8) (isDir : Bool) :
    Files (View × Tally) := do
  if isDir then
    closeCurrent v.loc.currentFd
    return (⟨⟨none, path, v.loc.baseDir⟩, type⟩, .none)
  else
    makeParent path
    closeCurrent v.loc.currentFd
    if type ≠ FileType.symlink.byte then
      let fd ← Files.ask (.openFile path mode)
      return (⟨⟨fd, path, v.loc.baseDir⟩, type⟩, { Tally.none with files := 1 })
    else
      return (⟨⟨none, path, v.loc.baseDir⟩, type⟩, .none)

theorem applyFileMeta_eq (v : View) (name : Path) (mode : Nat) (type : UInt8) :
    applyFileMeta v name mode type = isDirectory (targetPath v.loc.baseDir name) >>=
      afterStat v (targetPath v.loc.baseDir name) mode type := rfl

/-- What the last FILE_META named: nothing if there was none, if it was refused or if its open
failed. -/
inductive Named where
  | nothing
  | file (ino : Nat)
  | link (path : Path)

/-- What a FILE_META for `path` names, by the answer of `stat`, its type, the descriptor and the
files after it. -/
inductive Names (path : Path) (type : UInt8) :
    Bool → Option Handle → FileSystem → Named → Prop where
  | refused {fd fs} : Names path type true fd fs .nothing
  | link {fd fs} : type = FileType.symlink.byte → Names path type false fd fs (.link path)
  | failed {fs} : type ≠ FileType.symlink.byte → Names path type false none fs .nothing
  | file {fd fs loc ino} : type ≠ FileType.symlink.byte → fs.locate true path = some loc →
      fs.lookup loc = some (.file ino) → Names path type false (some fd) fs (.file ino)

/-- The first `k` packets, handled one after the other, and what was named last. -/
inductive Tracked (pkts : Feed) (v : View) (fs : FileSystem) :
    Nat → View → FileSystem → Named → Prop where
  | start : Tracked pkts v fs 0 v fs .nothing
  | fileMeta {k w τ w' fs₁ fs₂ fs₃ named named' name size mode type chunks isDir} :
      Tracked pkts v fs k w fs₁ named →
      (pkts k).2 = .fileMeta name size mode type chunks →
      Program.Outcome fileCalls (isDirectory (targetPath w.loc.baseDir (recordName name))) fs₁
        isDir fs₂ →
      Program.Outcome fileCalls (afterStat w (targetPath w.loc.baseDir (recordName name))
        (mode % 2 ^ 32) type.byte isDir) fs₂ (w', τ) fs₃ →
      Names (targetPath w.loc.baseDir (recordName name)) type.byte isDir w'.loc.currentFd fs₃
        named' →
      Tracked pkts v fs (k + 1) w' fs₃ named'
  | packet {k w τ w' fs₁ fs₂ named} : Tracked pkts v fs k w fs₁ named →
      (pkts k).2.cmd ≠ .fileMeta →
      Program.Outcome fileCalls (applyPacket w (pkts k).2) fs₁ (w', τ) fs₂ →
      Tracked pkts v fs (k + 1) w' fs₂ named

/-- The change stays with what was named: the bytes from `off` to `off + len` of the file, or the
entry at the path of the link. -/
def Named.Confines (named : Named) (off len : Nat) (fs fs' : FileSystem) : Prop :=
  match named with
  | .nothing => fs'.entry = fs.entry ∧ fs'.content = fs.content
  | .file ino => fs'.entry = fs.entry ∧ (∀ j, j ≠ ino → fs'.content j = fs.content j) ∧
    ∀ i, i < off ∨ off + len ≤ i → (fs'.content ino).getD i 0 = (fs.content ino).getD i 0
  | .link path => fs'.content = fs.content ∧
    ∀ loc, fs.locate false path ≠ some loc → fs'.entry loc = fs.entry loc

/-- The descriptor is at the offset when the chunk is written: `lseek` did not fail, or it was there
already. -/
def Placed (fd : Handle) (off : Nat) (fs : FileSystem) (log : List Answered) : Prop :=
  ¬ Answers log (.lseek fd off) false ∨ ∃ ino, fs.descriptor fd = some (ino, off)

theorem placed_iff {fd : Handle} {off : Nat} {data : Bytes} {fs g : FileSystem} {sought : Bool}
    {written : Option Nat} :
    Placed fd off fs [⟨fs, .lseek fd off, sought⟩, ⟨g, .write fd data, written⟩] ↔
      sought = true ∨ ∃ ino, fs.descriptor fd = some (ino, off) := by
  refine or_congr_left ((not_congr answers_lseek).trans ?_)
  cases sought <;> decide

/-- The chunk comes in order. For a link the path in `current_path` is still the one that was named,
or there is a directory; for a file that is open the descriptor comes to the offset. -/
def View.InOrder (v : View) (named : Named) (off : Nat) (fs : FileSystem) (log : List Answered) :
    Prop :=
  if v.metaType = FileType.symlink.byte then
    named = .link v.loc.currentPath ∨
      ∃ loc, fs.locate false v.loc.currentPath = some loc ∧ fs.lookup loc = some .directory
  else ∀ fd, v.loc.currentFd = some fd → Placed fd off fs log

/-! ## The calls for a chunk -/

variable {fs fs' : FileSystem} {v : View} {named : Named}

/-- Nothing changed but the entry at `path`, and nothing at all if a directory is there. -/
structure OnlyAt (path : Path) (fs fs' : FileSystem) : Prop where
  content : fs'.content = fs.content
  descriptor : fs'.descriptor = fs.descriptor
  entry : ∀ loc, fs.locate false path ≠ some loc → fs'.entry loc = fs.entry loc
  directory : ∀ loc, fs.locate false path = some loc → fs.lookup loc = some .directory →
    fs'.entry = fs.entry

theorem OnlyAt.refl (path : Path) (fs : FileSystem) : OnlyAt path fs fs :=
  ⟨rfl, rfl, fun _ _ => rfl, fun _ _ _ => rfl⟩

theorem OnlyAt.put {path : Path} {loc : Location} (hloc : fs.locate false path = some loc)
    (hdir : fs.lookup loc ≠ some .directory) (e : Option Entry) :
    OnlyAt path fs (fs.put loc e) where
  content := rfl
  descriptor := rfl
  entry _ hx := FileSystem.entry_put_of_ne fun h => hx (h ▸ hloc)
  directory _ hx h := absurd (Option.some.inj (hx.symm.trans hloc) ▸ h) hdir

theorem replaceByLink_changes (target path : Path) :
    Program.Ensures fileCalls (replaceByLink target path) (fun _ fs' => OnlyAt path fs fs') fs := by
  refine ensures_ask (o := .unlink path) fun removed hremoved => ?_
  refine ensures_last (o := .symlink target path) fun linked hlinked => ?_
  cases removed with
  | false =>
    cases linked with
    | false => exact .refl path fs
    | true =>
      obtain ⟨-, loc, hplace, hnone⟩ := hlinked rfl
      have hloc : fs.locate false path = some loc := hplace
      have hnotDir : fs.lookup loc ≠ some .directory := by
        rw [show fs.lookup loc = none from hnone]
        nofun
      change OnlyAt path fs (FileCall.next (.symlink target path) fs true)
      rw [FileCall.next_symlink hloc]
      exact .put hloc hnotDir _
  | true =>
    obtain ⟨loc, e, hloc, he, hdir⟩ := hremoved rfl
    have hne : loc ≠ [] := by
      rintro rfl
      exact hdir (Option.some.inj he).symm
    have hnotDir : fs.lookup loc ≠ some .directory := by
      rw [he]
      exact fun h => hdir (Option.some.inj h)
    change OnlyAt path fs (FileCall.next (.symlink target path)
      (FileCall.next (.unlink path) fs true) linked)
    rw [FileCall.next_unlink hloc]
    cases linked with
    | false => exact .put hloc hnotDir _
    | true =>
      obtain ⟨-, x, hx, -⟩ := hlinked rfl
      change (FileCall.next (.unlink path) fs true).locate false path = some x at hx
      rw [FileCall.next_unlink hloc] at hx
      obtain rfl := FileSystem.locate_removed hne hloc hx
      rw [FileCall.next_symlink hx]
      refine ⟨rfl, rfl, fun y hy => ?_, fun y hy h => ?_⟩
      · have hyx : y ≠ x := fun h => hy (h ▸ hloc)
        rw [FileSystem.entry_put_of_ne hyx, FileSystem.entry_put_of_ne hyx]
      · exact absurd (Option.some.inj (hy.symm.trans hloc) ▸ h) hnotDir

/-- Only the file of the descriptor changes, and where the descriptor was placed, only there. -/
structure OnlyIn (fd : Handle) (off len : Nat) (placed : Prop) (fs fs' : FileSystem) : Prop where
  entry : fs'.entry = fs.entry
  content : ∀ ino, (∀ pos, fs.descriptor fd ≠ some (ino, pos)) → fs'.content ino = fs.content ino
  bytes : placed → ∀ ino i, i < off ∨ off + len ≤ i →
    (fs'.content ino).getD i 0 = (fs.content ino).getD i 0
  descriptor : ∀ ino pos, fs'.descriptor fd = some (ino, pos) →
    ∃ pos', fs.descriptor fd = some (ino, pos')

/-- A seek changes the place of the descriptor. -/
theorem OnlyIn.seek (fd : Handle) (off len pos : Nat) (placed : Prop) :
    OnlyIn fd off len placed fs (fs.seek fd pos) := by
  unfold FileSystem.seek
  cases hd : fs.descriptor fd with
  | none => exact ⟨rfl, fun _ _ => rfl, fun _ _ _ _ => rfl, fun _ _ h => ⟨_, h⟩⟩
  | some d =>
    refine ⟨rfl, fun _ _ => rfl, fun _ _ _ _ => rfl, fun ino p h => ?_⟩
    rw [FileSystem.descriptor_setDescriptor_self] at h
    cases h
    exact ⟨_, hd⟩

/-- A write changes the bytes from where the descriptor stands on. -/
theorem OnlyIn.write {fd : Handle} {off len ino pos : Nat} {data : Bytes} {placed : Prop}
    (hd : fs.descriptor fd = some (ino, pos)) (hlen : data.length ≤ len)
    (hplaced : placed → pos = off) : OnlyIn fd off len placed fs (fs.write fd data) := by
  rw [FileSystem.write, hd]
  refine ⟨rfl, fun j hj => ?_, fun h j i hi => ?_, fun j p h => ?_⟩
  · refine FileSystem.content_setContent_of_ne ?_
    rintro rfl
    exact hj pos hd
  · obtain rfl := hplaced h
    by_cases hj : j = ino
    · subst hj
      simp only [FileSystem.content_setDescriptor, FileSystem.content_setContent_self]
      exact getD_splice_outside (by omega)
    · simp only [FileSystem.content_setDescriptor, FileSystem.content_setContent_of_ne hj]
  · rw [FileSystem.descriptor_setDescriptor_self] at h
    cases h
    exact ⟨_, hd⟩

theorem OnlyIn.trans {fd : Handle} {off len : Nat} {placed : Prop} {fs'' : FileSystem}
    (h : OnlyIn fd off len placed fs fs') (h' : OnlyIn fd off len placed fs' fs'') :
    OnlyIn fd off len placed fs fs'' where
  entry := h'.entry.trans h.entry
  content ino hino := by
    refine (h'.content ino fun pos hpos => ?_).trans (h.content ino hino)
    obtain ⟨pos', hpos'⟩ := h.descriptor ino pos hpos
    exact hino pos' hpos'
  bytes hp ino i hi := (h'.bytes hp ino i hi).trans (h.bytes hp ino i hi)
  descriptor ino pos hpos := by
    obtain ⟨pos', hpos'⟩ := h'.descriptor ino pos hpos
    exact h.descriptor ino pos' hpos'

theorem writeChunk_changes (fd : Handle) (off : Nat) (data : Bytes) :
    Program.Ensures recordedCalls (writeChunk fd off data) (fun _ s =>
      OnlyIn fd off data.length (Placed fd off fs s.2) fs s.1) (fs, []) := by
  intro sought hsought written hwritten
  -- the files that `write` meets
  have hseek : OnlyIn fd off data.length
      (Placed fd off fs [⟨fs, .lseek fd off, sought⟩, ⟨FileCall.next (.lseek fd off) fs sought,
        .write fd data, written⟩]) fs (FileCall.next (.lseek fd off) fs sought) := by
    cases sought with
    | false => exact ⟨rfl, fun _ _ => rfl, fun _ _ _ _ => rfl, fun _ _ h => ⟨_, h⟩⟩
    | true => exact .seek fd off _ off _
  cases written with
  | none => exact hseek
  | some n =>
    obtain ⟨hn, hopen⟩ := hwritten n rfl
    obtain ⟨⟨ino, pos⟩, hd⟩ := Option.ne_none_iff_exists'.mp hopen
    refine hseek.trans (.write hd ?_ fun hplaced => ?_)
    · rw [List.length_take]
      exact min_le_right ..
    · cases sought with
      | true =>
        obtain ⟨hne, -⟩ := hsought rfl
        obtain ⟨d, hd'⟩ := Option.ne_none_iff_exists'.mp hne
        change (fs.seek fd off).descriptor fd = some (ino, pos) at hd
        rw [FileSystem.seek, hd', FileSystem.descriptor_setDescriptor_self] at hd
        exact (congrArg Prod.snd (Option.some.inj hd)).symm
      | false =>
        obtain ⟨ino', hat⟩ := (placed_iff.mp hplaced).resolve_left Bool.false_ne_true
        exact congrArg Prod.snd (Option.some.inj (hd.symm.trans hat))

/-! ## What the variables mean -/

/-- The descriptor is that of the file that was named, if it is open; and the type is not that
of a link when a file was named. -/
structure View.Holds (v : View) (named : Named) (fs : FileSystem) : Prop where
  descriptor : ∀ fd, v.loc.currentFd = some fd → ∀ ino pos, fs.descriptor fd = some (ino, pos) →
    named = .file ino
  type : ∀ ino, named = .file ino → v.metaType ≠ FileType.symlink.byte

theorem Named.Confines.of_same (named : Named) (off len : Nat) (hentry : fs'.entry = fs.entry)
    (hcontent : fs'.content = fs.content) : named.Confines off len fs fs' := by
  cases named with
  | nothing => exact ⟨hentry, hcontent⟩
  | file ino => exact ⟨hentry, fun j _ => congrFun hcontent j, fun _ _ => by rw [hcontent]⟩
  | link path => exact ⟨hcontent, fun loc _ => congrFun hentry loc⟩

/-- A chunk in order stays with what was named. -/
theorem applyFileData_confined (h : v.Holds named fs) (off : Nat) (payload : Bytes) :
    Program.Ensures recordedCalls (applyFileData v off payload) (fun r s =>
      r.1.Holds named s.1 ∧
        (v.InOrder named off fs s.2 → named.Confines off payload.length fs s.1)) (fs, []) := by
  unfold applyFileData View.InOrder
  split
  · refine (ensures_recorded.mpr (replaceByLink_changes _ _)).bind fun ok s hs => ?_
    have hholds : v.Holds named s.1 := ⟨hs.descriptor ▸ h.descriptor, h.type⟩
    have hconf : (named = .link v.loc.currentPath ∨
        ∃ loc, fs.locate false v.loc.currentPath = some loc ∧ fs.lookup loc = some .directory) →
        named.Confines off payload.length fs s.1 := by
      rintro (rfl | ⟨loc, hloc, hdir⟩)
      · exact ⟨hs.content, hs.entry⟩
      · exact .of_same _ _ _ (hs.directory loc hloc hdir) hs.content
    cases ok <;> exact .done ⟨hholds, hconf⟩
  · cases hfd : v.loc.currentFd with
    | none => exact .done ⟨h, fun _ => .of_same _ _ _ rfl rfl⟩
    | some fd =>
      refine (writeChunk_changes fd off payload).bind fun _ s hs => .done ⟨⟨?_, h.type⟩, ?_⟩
      · intro fd' hfd' ino pos hd
        obtain rfl : fd = fd' := Option.some.inj (hfd.symm.trans hfd')
        obtain ⟨pos', hd'⟩ := hs.descriptor ino pos hd
        exact h.descriptor fd hfd ino pos' hd'
      · intro horder
        cases hd : fs.descriptor fd with
        | none =>
          refine .of_same _ _ _ hs.entry (funext fun ino => hs.content ino ?_)
          rw [hd]
          nofun
        | some d =>
          obtain rfl := h.descriptor fd hfd d.1 d.2 hd
          refine ⟨hs.entry, fun j hj => hs.content j fun pos hpos => hj ?_,
            fun i hi => hs.bytes (horder fd rfl) _ i hi⟩
          exact congrArg Prod.fst (Option.some.inj (hpos.symm.trans hd))

/-- Creating directories opens and closes nothing. -/
theorem mkdir_keeps {α : Type} {p : Files α} (h : Calls (fun o => ∃ path, o = .mkdir path) p) :
    Program.Ensures fileCalls p (fun _ fs' => fs'.descriptor = fs.descriptor) fs := by
  refine h.ensures (I := fun t : FileSystem => t.descriptor = fs.descriptor) ?_ rfl
  rintro _ t r ⟨path, rfl⟩ ht -
  cases r with
  | error | «exists» => exact ht
  | created =>
    refine Eq.trans (?_ : ((t.locateDir path).elim t fun loc =>
      t.put loc (some .directory)).descriptor = t.descriptor) ht
    cases t.locateDir path <;> rfl

theorem scpMkdirRecursive_keeps (path : Path) : Program.Ensures fileCalls (scpMkdirRecursive path)
    (fun _ fs' => fs'.descriptor = fs.descriptor) fs :=
  mkdir_keeps (scpMkdirRecursive_calls fun dir _ => ⟨dir, rfl⟩)

theorem closeCurrent_holds (h : v.Holds named fs) (fd : Option Handle) :
    Program.Ensures fileCalls (closeCurrent fd) (fun _ fs' => v.Holds named fs') fs := by
  cases fd with
  | none => exact .done h
  | some fd =>
    refine ensures_last (o := .close fd) fun _ _ => ⟨fun fd' hfd' ino pos hd => ?_, h.type⟩
    change (fs.setDescriptor fd none).descriptor fd' = some (ino, pos) at hd
    by_cases heq : fd' = fd
    · subst heq
      rw [FileSystem.descriptor_setDescriptor_self] at hd
      cases hd
    · exact h.descriptor fd' hfd' ino pos ((Function.update_of_ne heq ..).symm.trans hd)

/-- Another packet leaves what was named. -/
theorem applyPacket_holds {p : Packet} (h : v.Holds named fs) (hp : p.cmd ≠ .fileMeta) :
    Program.Ensures fileCalls (applyPacket v p) (fun r fs' => r.1.Holds named fs') fs := by
  cases p with
  | fileMeta => exact absurd rfl hp
  | fileData i off payload =>
    exact ensures_recorded.mp ((applyFileData_confined h off payload).mono fun _ _ h => h.1)
  | dirEnter name =>
    refine (scpMkdirRecursive_keeps _).bind fun _ fs' hfs' => .done ⟨?_, h.type⟩
    exact hfs' ▸ h.descriptor
  | dirLeave =>
    exact (closeCurrent_holds h _).bind fun _ _ h => .done ⟨nofun, h.type⟩
  | transferEnd => exact (closeCurrent_holds h _).bind fun _ _ h => .done h

/-- What FILE_META leaves, given what `stat` answered. -/
structure Opened (path : Path) (type : UInt8) (isDir : Bool) (w : View) (fs : FileSystem) :
    Prop where
  metaType : w.metaType = type
  refused : isDir = true → w.loc.currentFd = none
  link : type = FileType.symlink.byte → w.loc.currentFd = none
  file : ∀ fd, w.loc.currentFd = some fd → ∃ loc ino, fs.locate true path = some loc ∧
    fs.lookup loc = some (.file ino) ∧ fs.descriptor fd = some (ino, 0)

theorem afterStat_opened (path : Path) (mode : Nat) (type : UInt8) (isDir : Bool) :
    Program.Ensures fileCalls (afterStat v path mode type isDir)
      (fun r fs' => Opened path type isDir r.1 fs') fs := by
  unfold afterStat
  cases isDir with
  | true =>
    exact ensures_step ensures_true fun _ _ => .done ⟨rfl, fun _ => rfl, fun _ => rfl, nofun⟩
  | false =>
    refine ensures_step ensures_true fun _ _ => ensures_step ensures_true fun _ fs₁ => ?_
    refine .ite (fun htype => ?_) fun htype => .done ⟨rfl, nofun, fun _ => rfl, nofun⟩
    refine ensures_ask (o := .openFile path mode) fun fd hfd => .done ?_
    refine ⟨rfl, nofun, fun h => absurd h htype, fun fd' hfd' => ?_⟩
    obtain rfl : fd = some fd' := hfd'
    obtain ⟨-, loc, hloc, hfree⟩ := hfd fd' rfl
    obtain ⟨ino, hpath, hfile, hopen⟩ := FileSystem.locate_openAt fd' hloc hfree
    refine ⟨loc, ino, ?_⟩
    change (FileCall.next (.openFile path mode) fs₁ (some fd')).locate true path = some loc ∧
      (FileCall.next (.openFile path mode) fs₁ (some fd')).lookup loc = some (.file ino) ∧
      (FileCall.next (.openFile path mode) fs₁ (some fd')).descriptor fd' = some (ino, 0)
    rw [FileCall.next_openFile hloc]
    exact ⟨hpath, hfile, hopen⟩

variable {path : Path} {type : UInt8} {isDir : Bool} {w : View}

theorem Opened.holds (h : Opened path type isDir w fs)
    (hnames : Names path type isDir w.loc.currentFd fs named) : w.Holds named fs := by
  generalize hfd : w.loc.currentFd = fd at hnames
  cases hnames with
  | refused =>
    have hnone := h.refused rfl
    exact ⟨fun fd hfd => absurd (hfd.symm.trans hnone) nofun, nofun⟩
  | link htype =>
    have hnone := h.link htype
    exact ⟨fun fd hfd => absurd (hfd.symm.trans hnone) nofun, nofun⟩
  | failed => exact ⟨fun fd' hfd' => absurd (hfd'.symm.trans hfd) nofun, nofun⟩
  | @file fd _ loc ino htype hloc hino =>
    obtain ⟨loc', ino', hloc', hino', hopen⟩ := h.file fd hfd
    obtain rfl := Option.some.inj (hloc.symm.trans hloc')
    cases hino.symm.trans hino'
    refine ⟨fun fd' hfd' j pos hd => ?_, fun _ _ => h.metaType ▸ htype⟩
    obtain rfl := Option.some.inj (hfd.symm.trans hfd')
    cases hopen.symm.trans hd
    rfl

theorem Opened.names (h : Opened path type isDir w fs) :
    ∃ named, Names path type isDir w.loc.currentFd fs named := by
  cases isDir with
  | true => exact ⟨_, .refused⟩
  | false =>
    by_cases htype : type = FileType.symlink.byte
    · exact ⟨_, .link htype⟩
    · cases hfd : w.loc.currentFd with
      | none => exact ⟨_, .failed htype⟩
      | some fd =>
        obtain ⟨loc, ino, hloc, hino, -⟩ := h.file fd hfd
        exact ⟨_, .file htype hloc hino⟩

/-! ## Runs -/

variable {pkts : Feed} {k : Nat}

theorem Tracked.holds (h : Tracked pkts v fs k w fs' named) (hv : v.loc.currentFd = none) :
    w.Holds named fs' := by
  induction h with
  | start => exact ⟨fun fd hfd => absurd (hfd.symm.trans hv) nofun, nofun⟩
  | fileMeta _ _ _ hout hnames _ => exact ((afterStat_opened ..).outcome hout).holds hnames
  | packet _ hp hout ih => exact (applyPacket_holds ih hp).outcome hout

/-- Every sequence of packets can be tracked. -/
theorem Applied.tracked (h : Applied fileCalls pkts v fs k w fs') :
    ∃ named, Tracked pkts v fs k w fs' named := by
  induction h with
  | start => exact ⟨_, .start⟩
  | @packet k w τ w' fs₁ fs₂ _ hout ih =>
    obtain ⟨named, ih⟩ := ih
    by_cases hp : (pkts k).2.cmd = .fileMeta
    · obtain ⟨name, size, mode, type, chunks, hpkt⟩ :
          ∃ name size mode type chunks, (pkts k).2 = .fileMeta name size mode type chunks := by
        cases hpkt : (pkts k).2 <;> rw [hpkt] at hp <;>
          first | exact ⟨_, _, _, _, _, rfl⟩ | cases hp
      rw [hpkt] at hout
      obtain ⟨isDir, fs₃, hstat, hrest⟩ := Program.Outcome.of_bind hout
      obtain ⟨named', hnames⟩ := ((afterStat_opened ..).outcome hrest).names
      exact ⟨named', .fileMeta ih hpkt hstat hrest hnames⟩
    · exact ⟨named, .packet ih hp hout⟩

/-- The first `k` packets of a run of the receiver, from its start on, and what was named last. -/
def TrackedRun (pkts : Feed) (outputDir : Option Path) (fs : FileSystem) (k : Nat) (w : View)
    (fs' : FileSystem) (named : Named) : Prop :=
  ∃ base fs₁, Program.Outcome fileCalls (openBase outputDir) fs (some base) fs₁ ∧
    Tracked pkts ⟨⟨none, [], base⟩, FileType.regular.byte⟩ fs₁ k w fs' named

/-- The runs of the receiver on a file system, fed with the packets of a peer. -/
abbrev fileRun (pkts : Feed) (outputDir : Option Path) (fs : FileSystem) :
    System (Receiver Int × State FileSystem) :=
  Program.system bodies (semantics fileCalls (.feed pkts)) (scpReceiverRun outputDir) (initState fs)

theorem TrackedRun.confined {outputDir : Option Path} {i off : Nat} {payload : Bytes} {τ : Tally}
    {fs₁ fs₂ : FileSystem} {w' : View} {log : List Answered}
    (h : TrackedRun pkts outputDir fs k w fs₁ named) (hpkt : (pkts k).2 = .fileData i off payload)
    (hout : Program.Outcome recordedCalls (applyPacket w (pkts k).2) (fs₁, []) (w', τ) (fs₂, log))
    (horder : w.InOrder named off fs₁ log) : named.Confines off payload.length fs₁ fs₂ := by
  obtain ⟨base, fs₀, -, htracked⟩ := h
  rw [hpkt] at hout
  exact ((applyFileData_confined (htracked.holds rfl) off payload).outcome hout).2 horder

/-- Whatever packets arrive in whatever order, a chunk that comes in order changes only what
the last FILE_META named; and where a run of the receiver acknowledges a packet, it has made
one more step of such a sequence. -/
theorem chunk_confined (pkts : Feed) (outputDir : Option Path) (fs : FileSystem) :
    (∀ k w fs₁ named i off payload w' τ fs₂ log, TrackedRun pkts outputDir fs k w fs₁ named →
      (pkts k).2 = .fileData i off payload →
      Program.Outcome recordedCalls (applyPacket w (pkts k).2) (fs₁, []) (w', τ) (fs₂, log) →
      w.InOrder named off fs₁ log → named.Confines off payload.length fs₁ fs₂) ∧
    ((∀ i, (pkts i).2.Fits) → (fileRun pkts outputDir fs).Invariant fun c =>
      ∀ msg k, c.1 = .op (.postSend msg) k → ∃ w fs₁ named w' τ log,
        TrackedRun pkts outputDir fs c.2.ledger.acked.length w fs₁ named ∧
        Program.Outcome recordedCalls (applyPacket w (pkts c.2.ledger.acked.length).2) (fs₁, [])
          (w', τ) (c.2.os, log)) := by
  refine ⟨fun _ _ _ _ _ _ _ _ _ _ _ h hpkt hout => h.confined hpkt hout, fun hfit => ?_⟩
  refine (verified fileCalls pkts hfit outputDir fs).runs.mono ?_
  rintro ⟨p, t⟩ hc msg k rfl
  obtain ⟨-, -, v, hbase, happlied⟩ := hc.duty
  cases happlied with
  | packet hbefore hout =>
    obtain ⟨named, htracked⟩ := hbefore.tracked
    obtain ⟨log, hlog⟩ := remembers hout []
    exact ⟨_, _, named, _, _, _, ⟨_, _, hbase, htracked⟩, hlog⟩

/-! ### A directory in between -/

/-- The directory `o` with one file `x`. -/
def oneFile : FileSystem where
  entry loc := if loc = [[111]] then some .directory else
    if loc = [[111], [120]] then some (.file 0) else none
  content _ := []
  descriptor _ := none
  nextIno := 1
  cwd := []

/-- A link `l` is announced, then a directory `x`; then comes the target of the link. -/
def lateTarget : Feed
  | 0 => (0, .fileMeta [108] 1 0o777 .symlink 1)
  | 1 => (0, .dirEnter [120])
  | _ => (0, .fileData 0 0 [116])

/-- How `p` ends where nothing fails without need. -/
def settled {α : Type} (p : Files α) (a : α) (fs : FileSystem) : α × FileSystem :=
  (p.answered fileCalls (FileCall.answer 3) fs).getD (a, fs)

theorem settled_outcome {α : Type} {p : Files α} {a : α} {fs : FileSystem}
    (h : (p.answered fileCalls (FileCall.answer 3) fs).isSome = true) :
    Program.Outcome fileCalls p fs (settled p a fs).1 (settled p a fs).2 := by
  obtain ⟨r, hr⟩ := Option.isSome_iff_exists.mp h
  have hsettled : settled p a fs = r := by rw [settled, hr, Option.getD_some]
  rw [hsettled]
  exact Program.answered_outcome (fun o s => FileCall.answer_allowed 3 o s) hr

/-- `/o`, and the path of the link in it. -/
def lateBase : Path := [47, 111]
def latePath : Path := targetPath lateBase (recordName [108])

/-- The states before and after each of the packets. -/
def lateStart : View := ⟨⟨none, [], lateBase⟩, FileType.regular.byte⟩
def lateOpened := settled (openBase (some lateBase)) none oneFile
def lateStat := settled (isDirectory latePath) false lateOpened.2
def lateMeta := settled (afterStat lateStart latePath (0o777 % 2 ^ 32) FileType.symlink.byte false)
  (lateStart, Tally.none) lateStat.2
def lateEnter := settled (applyPacket lateMeta.1.1 (.dirEnter [120])) lateMeta.1 lateMeta.2
def lateData := settled (applyPacket lateEnter.1.1 (.fileData 0 0 [116])) lateEnter.1 lateEnter.2

theorem lateEnter_tracked :
    TrackedRun lateTarget (some lateBase) oneFile 2 lateEnter.1.1 lateEnter.2 (.link latePath) := by
  have hbase : lateOpened.1 = some lateBase := by decide +kernel
  have hstat : lateStat.1 = false := by decide +kernel
  refine ⟨lateBase, lateOpened.2, hbase ▸ settled_outcome (by decide +kernel), ?_⟩
  refine .packet (τ := lateEnter.1.2) ?_ (by decide) (settled_outcome (by decide +kernel))
  refine .fileMeta (τ := lateMeta.1.2) .start rfl
    (hstat ▸ settled_outcome (by decide +kernel)) ?_ (.link rfl)
  exact settled_outcome (by decide +kernel)

/-- A chunk may change what the last file packet did not name: behind a directory packet the target
of the link replaces the file that this one named. -/
theorem chunk_escapes :
    ¬∀ (pkts : Feed) (outputDir : Option Path) (fs : FileSystem) (k : Nat) (w : View)
      (fs₁ : FileSystem) (named : Named) (i off : Nat) (payload : Bytes) (w' : View) (τ : Tally)
      (fs₂ : FileSystem), TrackedRun pkts outputDir fs k w fs₁ named →
      (pkts k).2 = .fileData i off payload →
      Program.Outcome fileCalls (applyPacket w (pkts k).2) fs₁ (w', τ) fs₂ →
      named.Confines off payload.length fs₁ fs₂ := by
  intro hall
  have hout : Program.Outcome fileCalls (applyPacket lateEnter.1.1 (.fileData 0 0 [116]))
      lateEnter.2 lateData.1 lateData.2 := settled_outcome (by decide +kernel)
  have hconf := hall _ _ _ _ _ _ _ 0 0 [116] _ _ _ lateEnter_tracked rfl hout
  have hplace : lateEnter.2.locate false latePath ≠ some [[111], [120]] := by decide +kernel
  have hbefore : lateEnter.2.entry [[111], [120]] = some (.file 0) := by decide +kernel
  have hafter : lateData.2.entry [[111], [120]] = some (.link [116]) := by decide +kernel
  exact absurd ((hafter.symm.trans (hconf.2 _ hplace)).trans hbefore) (by decide)

end ScpRdma.Receiver

import ScpRdma.Receiver.Dispatch
import ScpRdma.Receiver.Totals
import ScpRdma.Receiver.Mkdir

/-!
# What an ACK stands for

The receiver acknowledges a packet whatever its file calls have answered. `Step.TookEffect` says
that a packet did what it is for, and `Step.Unhindered` when it does: it is a condition on the
variables and the files before, and on the answers of the calls.
-/
namespace ScpRdma.Receiver
open Foundations

/-- These `mkdir` calls lead to the directory. If the one for the path itself did not fail, nothing
but a directory stands where the path leads once its ancestors are made; if it failed, the path
names a directory with the ancestors that were made. -/
def Arrives (path : Path) (made : List Path) (fs : FileSystem) : Prop :=
  if mkdirTarget path ∈ made then
    ∀ fs₁, mkdirsPast fs made.dropLast = some fs₁ → Unobstructed path fs₁
  else ∃ fs₁, mkdirsPast fs made = some fs₁ ∧ fs₁.Directory path

/-- A packet that was handled: the variables and the files before and after, and its calls. -/
structure Step where
  before : View
  files : FileSystem
  packet : Packet
  log : List Answered
  after : View
  files' : FileSystem

namespace Step

/-- The path that the packet names, if it names one. -/
def target (e : Step) : Path :=
  match e.packet with
  | .fileMeta name .. | .dirEnter name => targetPath e.before.loc.baseDir (recordName name)
  | _ => e.before.loc.currentPath

/-- The packet did what it is for: the file is open, the bytes were written at their place, the
link or the directory is there. A FILE_META for a link names the place of the link, where no
directory may stand. -/
def TookEffect (e : Step) : Prop :=
  match e.packet with
  | .fileMeta _ _ _ type _ =>
    if type = .symlink then
      e.after.loc.currentPath = e.target ∧ e.after.metaType = type.byte ∧
        ¬ e.files'.Directory e.target
    else ∃ fd loc ino, e.after.loc.currentFd = some fd ∧ e.files'.locate true e.target = some loc ∧
      e.files'.lookup loc = some (.file ino) ∧ e.files'.descriptor fd = some (ino, 0)
  | .fileData _ off payload =>
    if e.before.metaType = FileType.symlink.byte then
      ∃ loc, e.files'.locate false e.target = some loc ∧
        e.files'.lookup loc = some (.link (cString (payload.take (scpMaxPathLen - 1))))
    else ∃ fd ino fs, e.before.loc.currentFd = some fd ∧
      ⟨fs, .write fd payload, some payload.length⟩ ∈ e.log ∧ fs.descriptor fd = some (ino, off) ∧
      e.files'.content ino = splice (e.files.content ino) off payload
  | .dirEnter _ => e.files'.Directory e.target
  | .dirLeave | .transferEnd => True

/-- What the packet adds to the totals when it takes effect. -/
def fullTally (e : Step) : Tally :=
  match e.packet with
  | .fileMeta _ _ _ type _ => if type = .symlink then .none else { Tally.none with files := 1 }
  | .fileData _ _ payload =>
    if e.before.metaType = FileType.symlink.byte then { Tally.none with symlinks := 1 }
    else { Tally.none with bytes := payload.length }
  | .dirEnter _ => { Tally.none with dirs := 1 }
  | .dirLeave | .transferEnd => .none

/-- Nothing is in the way of the packet. For a file, `stat` found no directory and `open` did not
fail; for the place of a link, no directory is there, also not once the directories above it are
made; for a chunk, a file is open, `lseek` did not fail or the descriptor is there already, and
`write` wrote everything; for a link, `symlink` did not fail; for a directory, see `Arrives`. -/
def Unhindered (e : Step) : Prop :=
  match e.packet with
  | .fileMeta _ _ mode type _ =>
    if type = .symlink then
      ∀ fs, mkdirsPast e.files (madePaths e.log) = some fs → ¬ fs.Directory e.target
    else ¬ Answers e.log (.stat e.target) (some true) ∧
      ¬ Answers e.log (.openFile e.target (mode % 2 ^ 32)) none
  | .fileData _ off payload =>
    if e.before.metaType = FileType.symlink.byte then
      ¬ Answers e.log (.symlink (cString (payload.take (scpMaxPathLen - 1))) e.target) false
    else ∃ fd d, e.before.loc.currentFd = some fd ∧ e.files.descriptor fd = some d ∧
      Placed fd off e.files e.log ∧
        ∀ r, Answers e.log (.write fd payload) r → r = some payload.length
  | .dirEnter _ => Arrives e.target (madePaths e.log) e.files
  | .dirLeave | .transferEnd => True

/-- In a run on these packets, `σ` was counted, and then this packet was handled. -/
structure LeadsTo (pkts : Feed) (outputDir : Option Path) (fs : FileSystem) (e : Step) (σ : Tally)
    (s : State Recorded) : Prop where
  packet : (pkts s.ledger.acked.length).2 = e.packet
  files : s.os.1 = e.files'
  handled : ∃ calls τ, s.os.2 = calls ++ e.log ∧
    ServedSum recordedCalls pkts outputDir (fs, []) s.ledger.acked.length e.before
      (e.files, calls) σ ∧
    Program.Outcome recordedCalls (applyPacket e.before e.packet) (e.files, calls) (e.after, τ) s.os

end Step

/-! ## One packet -/

variable {α β : Type} {fs fs' : FileSystem} {calls calls' : List Answered} {v w : View} {τ : Tally}

theorem isDirectory_answers {path : Path} {isDir : Bool} {s t : Recorded}
    (h : Program.Outcome recordedCalls (isDirectory path) s isDir t) :
    ∃ r, t = (s.1, s.2 ++ [⟨s.1, .stat path, r⟩]) ∧ (isDir = true ↔ r = some true) := by
  obtain ⟨r, t', hask, hrest⟩ := h.of_bind
  obtain ⟨-, rfl⟩ := outcome_ask hask
  refine ⟨r, ?_⟩
  cases r with
  | none =>
    cases hrest
    exact ⟨rfl, by simp⟩
  | some d =>
    cases hrest
    exact ⟨rfl, by simp⟩

/-- The calls that neither examine nor open a file. -/
def Prepares : FileOp → Prop
  | .mkdir _ | .close _ => True
  | _ => False

theorem makeParent_prepares (path : Path) : Calls Prepares (makeParent path) :=
  makeParent_calls fun _ _ _ _ => trivial

theorem closeCurrent_prepares (fd : Option Handle) : Calls Prepares (closeCurrent fd) :=
  closeCurrent_calls fun _ => trivial

/-- A file is opened and counted exactly where `stat` finds no directory and `open` does not
fail. -/
theorem fileMeta_step {name : Path} {mode : Nat} {type : UInt8}
    (htype : type ≠ FileType.symlink.byte)
    (h : Program.Outcome recordedCalls (applyFileMeta v name mode type) (fs, calls) (w, τ)
      (fs', calls')) :
    ∃ log, calls' = calls ++ log ∧
      (w.loc.currentFd ≠ none ↔
        ¬ Answers log (.stat (targetPath v.loc.baseDir name)) (some true) ∧
          ¬ Answers log (.openFile (targetPath v.loc.baseDir name) mode) none) ∧
      (w.loc.currentFd ≠ none → τ = { Tally.none with files := 1 }) := by
  rw [applyFileMeta_eq] at h
  generalize targetPath v.loc.baseDir name = path at h ⊢
  obtain ⟨isDir, s₁, hstat, h⟩ := h.of_bind
  obtain ⟨r, rfl, hr⟩ := isDirectory_answers hstat
  unfold afterStat at h
  cases isDir with
  | true =>
    obtain ⟨_, s₂, hclose, hdone⟩ := Program.Outcome.of_bind h
    cases hdone
    obtain ⟨log, hlog, -⟩ := (closeCurrent_prepares _).recorded hclose
    refine ⟨⟨fs, .stat path, r⟩ :: log, hlog.trans (List.append_assoc ..), ?_, ?_⟩
    case refine_2 => exact fun hw => absurd rfl hw
    have hdir : Answers (⟨fs, .stat path, r⟩ :: log) (.stat path) (some true) :=
      ⟨fs, hr.mp rfl ▸ List.mem_cons_self ..⟩
    constructor
    · exact fun hw => absurd rfl hw
    · exact fun hno => absurd hdir hno.1
  | false =>
    obtain ⟨_, s₂, hparent, h⟩ := Program.Outcome.of_bind h
    obtain ⟨_, s₃, hclose, h⟩ := Program.Outcome.of_bind h
    rw [if_pos htype] at h
    obtain ⟨fd, s₄, hopen, hdone⟩ := Program.Outcome.of_bind h
    cases hdone
    obtain ⟨-, hs₄⟩ := outcome_ask hopen
    obtain ⟨log₁, hlog₁, hall₁⟩ := (makeParent_prepares _).recorded hparent
    obtain ⟨log₂, hlog₂, hall₂⟩ := (closeCurrent_prepares _).recorded hclose
    refine ⟨[⟨fs, .stat path, r⟩] ++ (log₁ ++ log₂) ++ [⟨s₃.1, .openFile path mode, fd⟩], ?_, ?_,
      fun _ => rfl⟩
    · have hcalls : calls' = s₃.2 ++ [⟨s₃.1, .openFile path mode, fd⟩] := congrArg Prod.snd hs₄
      rw [hcalls, hlog₂, hlog₁]
      simp only [List.append_assoc]
    have hall : ∀ e ∈ log₁ ++ log₂, Prepares e.call := fun e he =>
      (List.mem_append.mp he).elim (hall₁ e) (hall₂ e)
    have hstats : ¬ Answers ([⟨fs, .stat path, r⟩] ++ (log₁ ++ log₂) ++
        [⟨s₃.1, .openFile path mode, fd⟩]) (.stat path) (some true) := by
      intro hany
      rcases answers_append.mp hany with hany | ⟨_, hlast⟩
      · rcases answers_append.mp hany with htrue | hmid
        · exact absurd (hr.mpr (answers_singleton.mp htrue).symm) (by simp)
        · exact not_answers hall id hmid
      · cases List.mem_singleton.mp hlast
    have hopens : Answers ([⟨fs, .stat path, r⟩] ++ (log₁ ++ log₂) ++
        [⟨s₃.1, .openFile path mode, fd⟩]) (.openFile path mode) none ↔ fd = none := by
      constructor
      · intro hany
        rcases answers_append.mp hany with hany | hlast
        · rcases answers_append.mp hany with ⟨_, hfirst⟩ | hmid
          · cases List.mem_singleton.mp hfirst
          · exact absurd hmid (not_answers hall id)
        · exact (answers_singleton.mp hlast).symm
      · exact fun hfd => answers_append.mpr (.inr (answers_singleton.mpr hfd.symm))
    rw [hopens]
    exact ⟨fun hw => ⟨hstats, hw⟩, fun hno => hno.2⟩

/-- A link is made and counted exactly where `symlink` does not fail. -/
theorem link_step {off : Nat} {payload : Bytes} (hlink : v.metaType = FileType.symlink.byte)
    (h : Program.Outcome recordedCalls (applyFileData v off payload) (fs, calls) (w, τ)
      (fs', calls')) :
    let target := cString (payload.take (scpMaxPathLen - 1))
    ∃ log, calls' = calls ++ log ∧
      (τ = { Tally.none with symlinks := 1 } ↔
        ¬ Answers log (.symlink target v.loc.currentPath) false) ∧
      (τ = { Tally.none with symlinks := 1 } → ∃ loc,
        fs'.locate false v.loc.currentPath = some loc ∧ fs'.lookup loc = some (.link target)) ∧
      (τ = .none ∨ τ = { Tally.none with symlinks := 1 }) := by
  intro target
  unfold applyFileData at h
  rw [if_pos hlink] at h
  obtain ⟨ok, s₂, hreplace, h⟩ := Program.Outcome.of_bind h
  obtain ⟨removed, s₁, hunlink, hsymlink⟩ := Program.Outcome.of_bind hreplace
  obtain ⟨-, rfl⟩ := outcome_ask hunlink
  obtain ⟨hallow, rfl⟩ := outcome_ask hsymlink
  have hanswers : ∀ g g' : FileSystem, Answers [⟨g, .unlink v.loc.currentPath, removed⟩,
      ⟨g', .symlink target v.loc.currentPath, ok⟩] (.symlink target v.loc.currentPath) false ↔
      ok = false := by
    intro g g'
    constructor
    · rintro ⟨_, hmem⟩
      rcases List.mem_cons.mp hmem with hfirst | hlast
      · cases hfirst
      · cases List.mem_singleton.mp hlast
        rfl
    · rintro rfl
      exact ⟨g', by simp⟩
  cases ok with
  | false =>
    cases h
    refine ⟨_, List.append_assoc .., ?_, by simp [Tally.none], .inl rfl⟩
    refine iff_of_false (by simp [Tally.none]) (not_not.mpr ((hanswers _ _).mpr rfl))
  | true =>
    cases h
    refine ⟨_, List.append_assoc .., ?_, fun _ => ?_, .inr rfl⟩
    · exact iff_of_true rfl (mt (hanswers _ _).mp (by simp))
    · obtain ⟨-, loc, hloc, hnone⟩ := hallow rfl
      refine ⟨loc, ?_⟩
      change (FileCall.next (.symlink target v.loc.currentPath) _ true).locate false _ = _ ∧
        (FileCall.next (.symlink target v.loc.currentPath) _ true).lookup loc = _
      rw [FileCall.next_symlink hloc]
      exact ⟨FileSystem.locate_put hnone hloc,
        FileSystem.lookup_put_self (FileSystem.entry_of_lookup_none hnone).1⟩

/-- A chunk for an open file is counted, and it is written at its place exactly where `lseek` did
not fail or the descriptor is there already, and `write` writes everything. -/
theorem chunk_step {fd : Handle} {off : Nat} {payload : Bytes}
    (hlink : v.metaType ≠ FileType.symlink.byte) (hfd : v.loc.currentFd = some fd)
    (h : Program.Outcome recordedCalls (applyFileData v off payload) (fs, calls) (w, τ)
      (fs', calls')) :
    ∃ log, calls' = calls ++ log ∧ τ = { Tally.none with bytes := payload.length } ∧
      ((∃ ino g, ⟨g, .write fd payload, some payload.length⟩ ∈ log ∧
          g.descriptor fd = some (ino, off) ∧
          fs'.content ino = splice (fs.content ino) off payload) ↔
        ∃ d, fs.descriptor fd = some d ∧ Placed fd off fs log ∧
          ∀ r, Answers log (.write fd payload) r → r = some payload.length) := by
  unfold applyFileData at h
  rw [if_neg hlink, hfd] at h
  obtain ⟨_, s₂, hwrites, hdone⟩ := Program.Outcome.of_bind h
  cases hdone
  obtain ⟨sought, written, g, hsought, hg, hwritten, heq⟩ := writeChunk_recorded hwrites
  obtain ⟨rfl, rfl⟩ := Prod.mk.inj heq
  refine ⟨_, rfl, rfl, ?_⟩
  have hmem : ∀ (g' : FileSystem) (r : Option Nat), (⟨g', .write fd payload, r⟩ : Answered) ∈
      [⟨fs, .lseek fd off, sought⟩, ⟨g, .write fd payload, written⟩] ↔ g' = g ∧ r = written := by
    intro g' r
    constructor
    · intro hm
      rcases List.mem_cons.mp hm with hfirst | hlast
      · cases hfirst
      · cases List.mem_singleton.mp hlast
        exact ⟨rfl, rfl⟩
    · rintro ⟨rfl, rfl⟩
      exact List.mem_cons_of_mem _ (List.mem_singleton_self _)
  -- where the descriptor is when `write` is called
  have hseek : ∀ ino, g.descriptor fd = some (ino, off) ↔
      (∃ pos, fs.descriptor fd = some (ino, pos)) ∧
      (sought = true ∨ fs.descriptor fd = some (ino, off)) := by
    intro ino
    cases sought with
    | true =>
      obtain ⟨hne, -⟩ := hsought rfl
      obtain ⟨⟨ino', pos⟩, hd⟩ := Option.ne_none_iff_exists'.mp hne
      have hgo : g = fs.setDescriptor fd (some (ino', off)) := by
        rw [hg]
        change fs.seek fd off = _
        rw [FileSystem.seek, hd]
      rw [hgo, FileSystem.descriptor_setDescriptor_self, hd]
      constructor
      · rintro ⟨⟩
        exact ⟨⟨pos, rfl⟩, .inl rfl⟩
      · rintro ⟨⟨_, ⟨⟩⟩, -⟩
        rfl
    | false =>
      have hstay : g = fs := hg
      rw [hstay]
      exact ⟨fun hd => ⟨⟨off, hd⟩, .inr hd⟩, fun h => h.2.resolve_left Bool.false_ne_true⟩
  have hcontent : g.content = fs.content := by
    rw [hg]
    cases sought with
    | true =>
      change (fs.seek fd off).content = _
      unfold FileSystem.seek
      cases fs.descriptor fd <;> rfl
    | false => rfl
  constructor
  · rintro ⟨ino, g', hin, hd, -⟩
    obtain ⟨rfl, hfull⟩ := (hmem _ _).mp hin
    obtain ⟨⟨pos, hopen⟩, hat⟩ := (hseek ino).mp hd
    refine ⟨_, hopen, placed_iff.mpr (hat.imp id fun hat => ⟨ino, hat⟩), fun r hr => ?_⟩
    obtain ⟨g'', hin'⟩ := hr
    exact ((hmem _ _).mp hin').2.trans hfull.symm
  · rintro ⟨⟨ino, pos⟩, hopen, hat, hall⟩
    have hdg : g.descriptor fd = some (ino, off) := by
      refine (hseek ino).mpr ⟨⟨pos, hopen⟩, (placed_iff.mp hat).imp id ?_⟩
      rintro ⟨ino', hat⟩
      cases hopen.symm.trans hat
      exact hat
    have hfull : written = some payload.length := hall written ⟨g, (hmem _ _).mpr ⟨rfl, rfl⟩⟩
    refine ⟨ino, g, (hmem _ _).mpr ⟨rfl, hfull.symm⟩, hdg, ?_⟩
    rw [hfull]
    change (g.write fd (payload.take payload.length)).content ino = _
    rw [FileSystem.write, hdg, List.take_length]
    simp [hcontent]

/-! ## The directories that were made -/

theorem madePaths_cons (e : Answered) (log : List Answered) :
    madePaths (e :: log) = e.made?.toList ++ madePaths log := by
  unfold madePaths
  cases h : e.made? with
  | none => rw [List.filterMap_cons_none h]; rfl
  | some path => rw [List.filterMap_cons_some h]; rfl

theorem mkdirAll_made {ps : List Path} {ret : Int}
    (h : Program.Outcome recordedCalls (mkdirAll ps) (fs, calls) ret (fs', calls')) :
    ∃ log, calls' = calls ++ log ∧ madePaths log <+: ps ∧
      mkdirsPast fs (madePaths log) = some fs' := by
  induction ps generalizing fs calls with
  | nil =>
    cases h
    exact ⟨[], (List.append_nil _).symm, List.nil_prefix, rfl⟩
  | cons p ps ih =>
    obtain ⟨r, s, hask, hrest⟩ := Program.Outcome.of_bind h
    obtain ⟨hr, rfl⟩ := outcome_ask hask
    have hpast : r ≠ .error →
        Program.Outcome recordedCalls (mkdirAll ps) (recordedCalls.next (.mkdir p) (fs, calls) r)
          ret (fs', calls') → (⟨fs, .mkdir p, r⟩ : Answered).made? = some p →
        ∃ log, calls' = calls ++ log ∧ madePaths log <+: p :: ps ∧
          mkdirsPast fs (madePaths log) = some fs' := by
      intro hne hrest hmade
      obtain ⟨log, hlog, hpre, hall⟩ := ih hrest
      refine ⟨⟨fs, .mkdir p, r⟩ :: log, hlog.trans (List.append_assoc ..), ?_, ?_⟩
      · rw [madePaths_cons, hmade]
        exact List.prefix_cons_inj p |>.mpr hpre
      · rw [madePaths_cons, hmade]
        change (mkdirPast fs p).bind _ = _
        rw [mkdirPast_of_answer hr hne]
        exact hall
    cases r with
    | error =>
      cases hrest
      exact ⟨[⟨fs, .mkdir p, .error⟩], rfl, List.nil_prefix, rfl⟩
    | created => exact hpast MkdirResult.noConfusion hrest rfl
    | «exists» => exact hpast MkdirResult.noConfusion hrest rfl

/-- What `scp_mkdir_recursive` leaves is what the calls that did not fail have made. -/
theorem scpMkdirRecursive_made {path : Path} {ret : Int}
    (h : Program.Outcome recordedCalls (scpMkdirRecursive path) (fs, calls) ret (fs', calls')) :
    ∃ log, calls' = calls ++ log ∧ mkdirsPast fs (madePaths log) = some fs' ∧
      (madePaths log = [mkdirTarget path] ∨
        madePaths log <+: withAncestors (mkdirTarget path)) := by
  obtain ⟨r, s, hask, hrest⟩ := Program.Outcome.of_bind h
  obtain ⟨hr, rfl⟩ := outcome_ask hask
  have hpast : r ≠ .error → recordedCalls.next (.mkdir (mkdirTarget path)) (fs, calls) r =
      (fs', calls') → (⟨fs, .mkdir (mkdirTarget path), r⟩ : Answered).made? =
        some (mkdirTarget path) → ∃ log, calls' = calls ++ log ∧
          mkdirsPast fs (madePaths log) = some fs' ∧ (madePaths log = [mkdirTarget path] ∨
            madePaths log <+: withAncestors (mkdirTarget path)) := by
    intro hne heq hmade
    obtain ⟨rfl, rfl⟩ := Prod.mk.inj heq
    refine ⟨_, rfl, ?_, .inl ?_⟩ <;> rw [madePaths_cons, hmade]
    · change (mkdirPast fs (mkdirTarget path)).bind _ = _
      rw [mkdirPast_of_answer hr hne]
      rfl
    · rfl
  cases r with
  | error =>
    obtain ⟨log, hlog, hpre, hall⟩ := mkdirAll_made hrest
    exact ⟨_, hlog.trans (List.append_assoc ..), hall, .inr hpre⟩
  | created => exact hpast MkdirResult.noConfusion (outcome_done hrest) rfl
  | «exists» => exact hpast MkdirResult.noConfusion (outcome_done hrest) rfl

theorem madePaths_append (log log' : List Answered) :
    madePaths (log ++ log') = madePaths log ++ madePaths log' := List.filterMap_append

theorem closeCurrent_made {fd : Option Handle} {u : Unit}
    (h : Program.Outcome recordedCalls (closeCurrent fd) (fs, calls) u (fs', calls')) :
    ∃ log, calls' = calls ++ log ∧ madePaths log = [] ∧ fs'.entry = fs.entry ∧
      fs'.cwd = fs.cwd := by
  cases fd with
  | none =>
    cases h
    exact ⟨[], (List.append_nil _).symm, rfl, rfl, rfl⟩
  | some fd =>
    obtain ⟨-, heq⟩ := outcome_ask h
    obtain ⟨rfl, rfl⟩ := Prod.mk.inj heq
    exact ⟨_, rfl, rfl, rfl, rfl⟩

theorem makeParent_made {path : Path} {u : Unit}
    (h : Program.Outcome recordedCalls (makeParent path) (fs, calls) u (fs', calls')) :
    ∃ log, calls' = calls ++ log ∧ mkdirsPast fs (madePaths log) = some fs' := by
  unfold makeParent at h
  cases hp : parentPath path with
  | none =>
    rw [hp] at h
    cases h
    exact ⟨[], (List.append_nil _).symm, rfl⟩
  | some parent =>
    rw [hp] at h
    obtain ⟨_, s, hmkdir, hdone⟩ := Program.Outcome.of_bind h
    obtain rfl := outcome_done hdone
    obtain ⟨log, hlog, hmade, -⟩ := scpMkdirRecursive_made hmkdir
    exact ⟨log, hlog, hmade⟩

/-- A FILE_META for a link makes a note of it and makes the directories above. -/
theorem linkMeta_step {name : Path} {mode : Nat}
    (h : Program.Outcome recordedCalls (applyFileMeta v name mode FileType.symlink.byte) (fs, calls)
      (w, τ) (fs', calls')) :
    ∃ log fs₁, calls' = calls ++ log ∧ mkdirsPast fs (madePaths log) = some fs₁ ∧
      (∀ path, fs'.Directory path ↔ fs₁.Directory path) ∧
      w.loc.currentPath = targetPath v.loc.baseDir name ∧ w.metaType = FileType.symlink.byte ∧
      τ = .none := by
  rw [applyFileMeta_eq] at h
  obtain ⟨isDir, s₁, hstat, h⟩ := h.of_bind
  obtain ⟨r, rfl, -⟩ := isDirectory_answers hstat
  unfold afterStat at h
  have hfirst : madePaths [⟨fs, .stat (targetPath v.loc.baseDir name), r⟩] = [] := rfl
  cases isDir with
  | true =>
    obtain ⟨_, ⟨fs₂, calls₂⟩, hclose, hdone⟩ := Program.Outcome.of_bind h
    cases hdone
    obtain ⟨log, hlog, hnone, hentry, hcwd⟩ := closeCurrent_made hclose
    refine ⟨_, fs, hlog.trans (List.append_assoc ..), ?_,
      fun _ => FileSystem.directory_congr hentry hcwd, rfl, rfl, rfl⟩
    rw [madePaths_append, hnone, hfirst]
    rfl
  | false =>
    obtain ⟨_, ⟨fs₂, calls₂⟩, hparent, h⟩ := Program.Outcome.of_bind h
    obtain ⟨_, ⟨fs₃, calls₃⟩, hclose, h⟩ := Program.Outcome.of_bind h
    rw [if_neg (not_not_intro rfl)] at h
    cases h
    obtain ⟨log, hlog, hmade⟩ := makeParent_made hparent
    obtain ⟨log', hlog', hnone, hentry, hcwd⟩ := closeCurrent_made hclose
    refine ⟨[⟨fs, .stat (targetPath v.loc.baseDir name), r⟩] ++ log ++ log', fs₂, ?_, ?_,
      fun _ => FileSystem.directory_congr hentry hcwd, rfl, rfl, rfl⟩
    · rw [hlog', hlog, List.append_assoc, List.append_assoc, List.append_assoc]
    · rw [madePaths_append, madePaths_append, hnone, hfirst, List.nil_append, List.append_nil]
      exact hmade

theorem not_mem_slashPrefixes (path : Path) : path ∉ slashPrefixes path := by
  intro h
  obtain ⟨i, hi, htake⟩ := List.mem_map.mp h
  have hlt := List.mem_range.mp (List.mem_filter.mp hi).1
  have hlen := congrArg List.length htake
  rw [List.length_take] at hlen
  omega

/-- Whether the directory is there afterwards. -/
theorem directory_iff_arrives {path : Path} {made : List Path}
    (hfits : path.length < scpMaxPathLen) (hne : path ≠ [])
    (hmade : made = [mkdirTarget path] ∨ made <+: withAncestors (mkdirTarget path))
    (hpast : mkdirsPast fs made = some fs') : fs'.Directory path ↔ Arrives path made fs := by
  unfold Arrives
  split
  case isFalse =>
    refine ⟨fun hdir => ⟨fs', hpast, hdir⟩, ?_⟩
    rintro ⟨fs₁, hfs₁, hdir⟩
    exact Option.some.inj (hpast.symm.trans hfs₁) ▸ hdir
  case isTrue hmem =>
    obtain ⟨above, rfl⟩ : ∃ above, made = above ++ [mkdirTarget path] := by
      rcases hmade with rfl | hpre
      · exact ⟨[], rfl⟩
      · rcases List.prefix_concat_iff.mp hpre with heq | hpre
        · exact ⟨_, heq⟩
        · exact absurd (hpre.subset hmem) (not_mem_slashPrefixes _)
    rw [mkdirsPast_append] at hpast
    obtain ⟨fs₁, hfs₁, hlast⟩ := Option.bind_eq_some_iff.mp hpast
    have hlast : mkdirPast fs₁ (mkdirTarget path) = some fs' := by simpa [mkdirsPast] using hlast
    rw [List.dropLast_concat]
    constructor
    · intro hdir fs₂ hfs₂ loc hloc hl
      obtain rfl := Option.some.inj (hfs₁.symm.trans hfs₂)
      rw [mkdirPast, hloc, Option.map_some, if_neg hl] at hlast
      exact Option.some.inj hlast ▸ hdir
    · intro hclear
      have hroot : path ≠ [slash] := by
        rintro rfl
        cases hlast
      exact directory_of_mkdirPast hfits hne hroot (hclear fs₁ hfs₁) hlast

/-! ## Effects and conditions -/

/-- The counts of one packet, which do not wrap. -/
structure Tally.Small (τ : Tally) : Prop where
  bytes : τ.bytes < 2 ^ 64
  files : τ.files < 2 ^ 32
  dirs : τ.dirs < 2 ^ 32
  symlinks : τ.symlinks < 2 ^ 32

theorem Ctx.Totals.inj {c : Ctx} {σ τ τ' : Tally} (h : c.Totals (σ.add τ))
    (h' : c.Totals (σ.add τ')) (hτ : τ.Small) (hτ' : τ'.Small) : τ = τ' := by
  have hbytes := congrArg UInt64.toNat (h.bytes.symm.trans h'.bytes)
  have hfiles := congrArg UInt32.toNat (h.files.symm.trans h'.files)
  have hdirs := congrArg UInt32.toNat (h.dirs.symm.trans h'.dirs)
  have hsymlinks := congrArg UInt32.toNat (h.symlinks.symm.trans h'.symlinks)
  simp only [Tally.add, UInt64.toNat_ofNat', UInt32.toNat_ofNat'] at hbytes hfiles hdirs hsymlinks
  obtain ⟨b, f, d, l⟩ := τ
  obtain ⟨b', f', d', l'⟩ := τ'
  obtain ⟨hb, hf, hd, hl⟩ := hτ
  obtain ⟨hb', hf', hd', hl'⟩ := hτ'
  simp only [Tally.mk.injEq] at *
  omega

theorem Tally.small_of {b f d l : Nat} (hb : b ≤ scpChunkSize) (hf : f ≤ 1) (hd : d ≤ 1)
    (hl : l ≤ 1) : (⟨b, f, d, l⟩ : Tally).Small := by
  rw [scpChunkSize_eq] at hb
  constructor <;> dsimp only <;> omega

theorem Tally.small_none : Tally.none.Small :=
  small_of (Nat.zero_le _) (Nat.zero_le _) (Nat.zero_le _) (Nat.zero_le _)

theorem fileMeta_opened {name : Path} {mode : Nat} {type : UInt8}
    (h : Program.Outcome fileCalls (applyFileMeta v name mode type) fs (w, τ) fs') :
    ∃ isDir, Opened (targetPath v.loc.baseDir name) type isDir w fs' := by
  rw [applyFileMeta_eq] at h
  obtain ⟨isDir, s₁, -, h⟩ := h.of_bind
  exact ⟨isDir, (afterStat_opened _ _ _ _).outcome h⟩

theorem applyPacket_tally (v : View) (p : Packet) (hfit : p.Fits) :
    Program.Ensures fileCalls (applyPacket v p) (fun r _ => r.2.Small) fs := by
  have h0 : ∀ n : Nat, 0 ≤ n := Nat.zero_le
  cases p with
  | fileMeta name size mode type chunks =>
    refine ensures_step ensures_true fun isDir _ => .ite (fun _ => ?_) fun _ => ?_
    · exact ensures_step ensures_true fun _ _ => .done Tally.small_none
    · refine ensures_step ensures_true fun _ _ => ensures_step ensures_true fun _ _ => ?_
      refine .ite (fun _ => ?_) fun _ => .done Tally.small_none
      exact ensures_step ensures_true fun _ _ => .done (Tally.small_of (h0 _) le_rfl (h0 _) (h0 _))
  | fileData i off payload =>
    refine .ite (fun _ => ?_) fun _ => ?_
    · refine ensures_step ensures_true fun ok _ => .ite (fun _ => ?_) fun _ => ?_
      · exact .done (Tally.small_of (h0 _) (h0 _) (h0 _) le_rfl)
      · exact .done Tally.small_none
    · cases v.loc.currentFd with
      | none => exact .done Tally.small_none
      | some fd =>
        refine ensures_step ensures_true fun _ _ => .done ?_
        exact Tally.small_of hfit.2.2 (h0 _) (h0 _) (h0 _)
  | dirEnter name =>
    exact ensures_step ensures_true fun _ _ => .done (Tally.small_of (h0 _) (h0 _) le_rfl (h0 _))
  | dirLeave | transferEnd => exact ensures_step ensures_true fun _ _ => .done Tally.small_none

theorem Step.small_fullTally (e : Step) (hfit : e.packet.Fits) : e.fullTally.Small := by
  have h0 : ∀ n : Nat, 0 ≤ n := Nat.zero_le
  unfold Step.fullTally
  split
  · split
    · exact Tally.small_none
    · exact Tally.small_of (h0 _) le_rfl (h0 _) (h0 _)
  · rename_i hp
    rw [hp] at hfit
    split
    · exact Tally.small_of (h0 _) (h0 _) (h0 _) le_rfl
    · exact Tally.small_of hfit.2.2 (h0 _) (h0 _) (h0 _)
  · exact Tally.small_of (h0 _) (h0 _) le_rfl (h0 _)
  · exact Tally.small_none
  · exact Tally.small_none

/-- A packet takes effect and is counted for it exactly where nothing is in its way. -/
theorem Step.effect_iff {e : Step}
    (h : Program.Outcome recordedCalls (applyPacket e.before e.packet) (e.files, calls) (e.after, τ)
      (e.files', calls ++ e.log)) : e.TookEffect ∧ τ = e.fullTally ↔ e.Unhindered := by
  obtain ⟨v, fs, p, log, w, fs'⟩ := e
  change Program.Outcome recordedCalls (applyPacket v p) (fs, calls) (w, τ) (fs', calls ++ log) at h
  have hsame : ∀ {log' : List Answered}, calls ++ log = calls ++ log' → log' = log :=
    fun heq => (List.append_cancel_left heq).symm
  cases p with
  | fileMeta name size mode type chunks =>
    by_cases htype : type = .symlink
    · subst htype
      obtain ⟨log', fs₁, hlog, hmade, hdir, hpath, hmeta, rfl⟩ := linkMeta_step h
      obtain rfl := hsame hlog
      constructor
      · rintro ⟨⟨-, -, hclear⟩, -⟩ fs₂ hfs₂
        obtain rfl := Option.some.inj (hmade.symm.trans hfs₂)
        exact mt (hdir _).mpr hclear
      · exact fun hclear => ⟨⟨hpath, hmeta, mt (hdir _).mp (hclear fs₁ hmade)⟩, rfl⟩
    · have hbyte : type.byte ≠ FileType.symlink.byte := by
        cases type <;> simp_all [FileType.byte]
      obtain ⟨log', hlog, hiff, htally⟩ := fileMeta_step hbyte h
      obtain rfl := hsame hlog
      obtain ⟨isDir, hopened⟩ := fileMeta_opened (forgets h)
      simp only [Step.TookEffect, Step.fullTally, Step.Unhindered, Step.target, if_neg htype]
      refine Iff.trans ?_ hiff
      constructor
      · rintro ⟨⟨fd, loc, ino, hfd, -⟩, -⟩
        simp [hfd]
      · intro hne
        obtain ⟨fd, hfd⟩ := Option.ne_none_iff_exists'.mp hne
        obtain ⟨loc, ino, hloc, hino, hopen⟩ := hopened.file fd hfd
        exact ⟨⟨fd, loc, ino, hfd, hloc, hino, hopen⟩, htally hne⟩
  | fileData i off payload =>
    by_cases hlink : v.metaType = FileType.symlink.byte
    · obtain ⟨log', hlog, hiff, hmade, -⟩ := link_step hlink h
      obtain rfl := hsame hlog
      simp only [Step.TookEffect, Step.fullTally, Step.Unhindered, Step.target, if_pos hlink]
      rw [← hiff]
      exact ⟨fun he => he.2, fun hτ => ⟨hmade hτ, hτ⟩⟩
    · simp only [Step.TookEffect, Step.fullTally, Step.Unhindered, if_neg hlink]
      cases hfd : v.loc.currentFd with
      | none => exact iff_of_false (by simp) (by simp)
      | some fd =>
        obtain ⟨log', hlog, rfl, hiff⟩ := chunk_step hlink hfd h
        obtain rfl := hsame hlog
        constructor
        · rintro ⟨⟨fd', ino, g, hfd', heffect⟩, -⟩
          cases hfd'
          obtain ⟨d, hcond⟩ := hiff.mp ⟨ino, g, heffect⟩
          exact ⟨fd, d, rfl, hcond⟩
        · rintro ⟨fd', d, hfd', hcond⟩
          cases hfd'
          obtain ⟨ino, g, heffect⟩ := hiff.mpr ⟨d, hcond⟩
          exact ⟨⟨fd, ino, g, rfl, heffect⟩, rfl⟩
  | dirEnter name =>
    obtain ⟨_, s₁, hmkdir, hdone⟩ := Program.Outcome.of_bind h
    cases hdone
    obtain ⟨log', hlog, hpast, hmade⟩ := scpMkdirRecursive_made hmkdir
    obtain rfl := hsame hlog
    have hiff := directory_iff_arrives (length_targetPath_lt _ _) (targetPath_ne_nil _ _) hmade
      hpast
    exact ⟨fun he => hiff.mp he.1, fun he => ⟨hiff.mpr he, rfl⟩⟩
  | dirLeave | transferEnd =>
    obtain ⟨_, s₁, -, hdone⟩ := Program.Outcome.of_bind h
    cases hdone
    exact iff_of_true ⟨trivial, rfl⟩ trivial

/-! ## Runs -/

/-- Where a packet is acknowledged, it has been handled, and it took effect and was counted for that
exactly if nothing was in its way. -/
theorem acknowledged_iff (pkts : Feed) (hfit : ∀ i, (pkts i).2.Fits) (outputDir : Option Path)
    (fs : FileSystem) : (feedRun recordedCalls pkts outputDir (fs, [])).Invariant fun c =>
      ∀ msg k, c.1 = .op (.postSend msg) k → ∃ (e : Step) (σ : Tally),
        e.LeadsTo pkts outputDir fs σ c.2 ∧
        (e.TookEffect ∧ c.2.ctx.Totals (σ.add e.fullTally) ↔ e.Unhindered) := by
  refine (counted recordedCalls pkts hfit outputDir (fs, [])).runs.mono ?_
  rintro ⟨_, t⟩ hc msg k rfl
  obtain ⟨w, _, hserved, htotals⟩ := hc.duty
  obtain ⟨hopen, hsummed⟩ := hserved
  generalize hk : t.ledger.acked.length + 1 = k' at hsummed
  cases hsummed with
  | start => simp at hk
  | @packet k' v τ σ w' s₁ s₂ hbefore hout =>
    obtain rfl : t.ledger.acked.length = k' := by omega
    have hfit := hfit t.ledger.acked.length
    obtain ⟨log, hlog, -⟩ := Calls.recorded (P := fun _ => True)
      (Calls.all (applyPacket v (pkts t.ledger.acked.length).2)) hout
    have hrun : Program.Outcome recordedCalls (applyPacket v (pkts t.ledger.acked.length).2)
        (s₁.1, s₁.2) (w, τ) (t.os.1, s₁.2 ++ log) := hlog ▸ hout
    have heffect := Step.effect_iff (e := ⟨v, s₁.1, (pkts t.ledger.acked.length).2, log, w, t.os.1⟩)
      hrun
    refine ⟨⟨v, s₁.1, (pkts t.ledger.acked.length).2, log, w, t.os.1⟩, σ,
      ⟨rfl, rfl, s₁.2, τ, hlog, ⟨hopen, hbefore⟩, hout⟩, ?_⟩
    rw [← heffect]
    refine and_congr_right fun _ => ⟨fun hfull => ?_, fun hfull => hfull ▸ htotals⟩
    exact htotals.inj hfull ((applyPacket_tally v _ hfit).outcome (forgets hout))
      (Step.small_fullTally _ hfit)

/-- A file and the end are announced to `/o`, where `open` is refused. -/
def refusedFeed : Feed
  | 0 => (0, .fileMeta [102] 1 0o644 .regular 1)
  | _ => (0, .transferEnd)

def refusedBase : Path := [47, 111]
def refusedPath : Path := targetPath refusedBase (recordName [102])

/-- A root with nothing in it. -/
def emptyRoot : FileSystem := ⟨fun _ => none, fun _ => [], fun _ => none, 0, []⟩

/-- All goes well, except for `open`. -/
def refusedAnswers : (o : Op) → State Recorded → Option (Response o)
  | .get, s => some s.ctx
  | .update _, _ | .transDestroy, _ => some ()
  | .file (.openFile _ _), _ => some none
  | .file o, s => some (FileCall.answer 3 o s.os.1)
  | .load off len, s =>
    let bytes := (refusedFeed s.ledger.acked.length).2.encode
    if off + len ≤ bytes.length then some (field bytes off len) else none
  | .loadCString off, s => some (cString ((refusedFeed s.ledger.acked.length).2.encode.drop off))
  | .qpCreate, _ | .sockEstablished, _ | .registerMr, _ | .exchange, _ | .modifyQp _, _
  | .postRecv _ _, _ => some true
  | .queryQp, s => some (some s.qp)
  | .pollCq, _ => some (some (some ⟨.recv, true, 0⟩))
  | .readCdc _, _ => some Cdc.zero
  | .postSend _, _ | .undefined _, _ => none

theorem refusedFeed_fits (i : Nat) : (refusedFeed i).2.Fits := by
  cases i with
  | zero => exact ⟨by decide, by decide⟩
  | succ i => trivial

theorem refusedFeed_slot (i : Nat) : (refusedFeed i).1 = 0 := by
  cases i <;> rfl

theorem refusedFile_allowed (o : FileOp) (s : State Recorded) (r : FileResponse o)
    (h : refusedAnswers (.file o) s = some r) : FileCall.allow o s.os.1 r := by
  cases o with
  | openFile =>
    cases h
    exact fun _ h => by cases h
  | mkdir path =>
    cases h
    exact FileCall.answer_allowed 3 (.mkdir path) s.os.1
  | stat path =>
    cases h
    exact FileCall.answer_allowed 3 (.stat path) s.os.1
  | close => trivial
  | lseek fd off =>
    cases h
    exact FileCall.answer_allowed 3 (.lseek fd off) s.os.1
  | write fd data =>
    cases h
    exact FileCall.answer_allowed 3 (.write fd data) s.os.1
  | unlink path =>
    cases h
    exact FileCall.answer_allowed 3 (.unlink path) s.os.1
  | symlink target path =>
    cases h
    exact FileCall.answer_allowed 3 (.symlink target path) s.os.1
  | getcwd =>
    cases h
    exact FileCall.answer_allowed 3 .getcwd s.os.1

theorem refusedAnswers_allowed (o : Op) (s : State Recorded) (r : Response o)
    (h : refusedAnswers o s = some r) :
    (semantics recordedCalls (.feed refusedFeed)).allow o s r := by
  have hbase : ∀ off i, off = slotBase (refusedFeed s.ledger.acked.length).1 + i → off = i := by
    intro off i hoff
    rwa [refusedFeed_slot, slotBase, Fin.val_zero, Nat.zero_mul, Nat.zero_add] at hoff
  cases o
  case load off len =>
    obtain ⟨hin, ⟨⟩⟩ := Option.ite_none_right_eq_some.mp h
    refine ⟨length_field hin, fun i hoff _ => ?_⟩
    rw [hbase off i hoff]
  case loadCString off =>
    cases h
    refine ⟨fun b hb => cString_nonzero hb, fun i hoff _ => ?_⟩
    rw [hbase off i hoff]
  case file o => exact ⟨refusedFile_allowed o s r h, trivial⟩
  case readCdc =>
    cases h
    exact ⟨trivial, fun _ => by rw [refusedFeed_slot]; rfl⟩
  case postSend | undefined => cases h
  all_goals cases h; first | exact ⟨rfl, trivial⟩ | exact ⟨trivial, trivial⟩

theorem acknowledged_iff_refused :
    (feedRun recordedCalls refusedFeed (some refusedBase) (emptyRoot, [])).Invariant fun c =>
      ∀ msg k, c.1 = .op (.postSend msg) k → ∃ (e : Step) (σ : Tally),
        e.LeadsTo refusedFeed (some refusedBase) emptyRoot σ c.2 ∧
        (e.TookEffect ∧ c.2.ctx.Totals (σ.add e.fullTally) ↔ e.Unhindered) :=
  acknowledged_iff refusedFeed refusedFeed_fits (some refusedBase) emptyRoot

/-- Where the receiver acknowledges the file. -/
def refusedRun : Receiver Int × State Recorded :=
  Program.exec bodies (semantics recordedCalls (.feed refusedFeed)) refusedAnswers 200
    (scpReceiverRun (some refusedBase), initState (emptyRoot, []))

/-- The signal that a program is about to post. -/
def signal? : Receiver Int → Option Cdc
  | .op (.postSend msg) _ => some msg
  | _ => none

theorem signal?_eq {p : Receiver Int} {msg : Cdc} (h : signal? p = some msg) :
    ∃ k, p = .op (.postSend msg) k := by
  unfold signal? at h
  split at h
  · cases h
    exact ⟨_, rfl⟩
  · cases h

/-- A packet that had no effect may be acknowledged: that of a file that could not be opened. -/
theorem not_acknowledged_effect :
    ¬∀ (pkts : Feed) (outputDir : Option Path) (fs : FileSystem), (∀ i, (pkts i).2.Fits) →
      (feedRun recordedCalls pkts outputDir (fs, [])).Invariant fun c =>
        ∀ msg k, c.1 = .op (.postSend msg) k → ∃ (e : Step) (σ : Tally),
          e.LeadsTo pkts outputDir fs σ c.2 ∧ e.TookEffect ∧
            c.2.ctx.Totals (σ.add e.fullTally) := by
  intro hall
  have hreach : (feedRun recordedCalls refusedFeed (some refusedBase) (emptyRoot, [])).Reachable
      refusedRun := ⟨_, rfl, Program.exec_runs refusedAnswers_allowed 200 _⟩
  have hsignal : signal? refusedRun.1 = some (ackMsg Cdc.zero 0 8) := by decide +kernel
  obtain ⟨k, hk⟩ := signal?_eq hsignal
  obtain ⟨e, σ, hleads, heffect, -⟩ := hall refusedFeed (some refusedBase) emptyRoot
    refusedFeed_fits _ hreach _ k hk
  have hacked : refusedRun.2.ledger.acked.length = 0 := by decide +kernel
  obtain ⟨hpacket, hfiles, calls, τ, -, ⟨hopen, hsummed⟩, -⟩ := hleads
  rw [hacked] at hpacket hsummed
  obtain ⟨v, fs, p, log, w, fs'⟩ := e
  cases hsummed
  have hcut : (cString refusedBase).take (scpMaxPathLen - 1) = refusedBase := by decide
  have hbase := Program.Ensures.outcome (Q := fun r _ => r = some refusedBase)
    (ensures_step ensures_true fun _ _ => .done (congrArg some hcut)) hopen
  cases hbase
  cases hpacket
  have hfiles : refusedRun.2.os.1 = fs' := hfiles
  obtain ⟨fd, loc, ino, -, hloc, hino, -⟩ := heffect
  have hpath : fs'.locate true refusedPath = some [[111], [102]] := by
    rw [← hfiles]
    decide +kernel
  have hnone : fs'.lookup [[111], [102]] = none := by
    rw [← hfiles]
    decide +kernel
  cases hpath.symm.trans hloc
  exact absurd (hnone.symm.trans hino) (by simp)

end ScpRdma.Receiver

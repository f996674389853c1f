import ScpRdma.Foundations.FileSystem
import ScpRdma.Receiver.Files

/-!
# The file calls on a file system

`fileCalls` says what each call may answer and does. A call may fail for reasons of its own, a
full disk, a missing permission or an offset above a limit, and a write may be short; what is
answered otherwise is true of the file system.
-/
namespace ScpRdma.Receiver
open Foundations

/-- `mkdir` where `e` is. -/
def mkdirAnswer : Option Entry → MkdirResult
  | none => .created
  | some e => .exists (decide (e = .directory))

def FileCall.allow : (o : FileOp) → FileSystem → FileResponse o → Prop
  | .mkdir path, fs, r => r = .error ∨
    ∃ loc, fs.locateDir path = some loc ∧ r = mkdirAnswer (fs.lookup loc)
  | .stat path, fs, r => r = none ∨
    ∃ loc e, fs.locate true path = some loc ∧ fs.lookup loc = some e ∧
      r = some (decide (e = .directory))
  | .openFile path _, fs, r => ∀ fd, r = some fd → fs.descriptor fd = none ∧
    ∃ loc, fs.locate true path = some loc ∧
      (fs.lookup loc = none ∨ ∃ ino, fs.lookup loc = some (.file ino))
  | .lseek fd off, fs, r => r = true → fs.descriptor fd ≠ none ∧ off < 2 ^ 63
  | .write fd data, fs, r => ∀ n, r = some n → n ≤ data.length ∧ fs.descriptor fd ≠ none
  | .unlink path, fs, r => r = true →
    ∃ loc e, fs.locate false path = some loc ∧ fs.lookup loc = some e ∧ e ≠ .directory
  | .symlink target path, fs, r => r = true →
    target ≠ [] ∧ ∃ loc, fs.locate false path = some loc ∧ fs.lookup loc = none
  | .getcwd, fs, r => ∀ path, r = some path →
    path = if fs.cwd = [] then [pathSep] else joinPath pathSep [] fs.cwd
  | .close _, _, _ => True

def FileCall.next : (o : FileOp) → FileSystem → FileResponse o → FileSystem
  | .mkdir path, fs, .created =>
    (fs.locateDir path).elim fs fun loc => fs.put loc (some .directory)
  | .openFile path _, fs, some fd => (fs.locate true path).elim fs fun loc => fs.openAt loc fd
  | .close fd, fs, _ => fs.setDescriptor fd none
  | .lseek fd off, fs, true => fs.seek fd off
  | .write fd data, fs, some n => fs.write fd (data.take n)
  | .unlink path, fs, true => (fs.locate false path).elim fs fun loc => fs.put loc none
  | .symlink target path, fs, true =>
    (fs.locate false path).elim fs fun loc => fs.put loc (some (.link target))
  | _, fs, _ => fs

def fileCalls : Semantics fileSignature FileSystem := ⟨FileCall.allow, FileCall.next⟩

/-- The answers where nothing fails without need; `fd` is the next descriptor. -/
def FileCall.answer (fd : Handle) : (o : FileOp) → FileSystem → FileResponse o
  | .mkdir path, fs => (fs.locateDir path).elim .error fun loc => mkdirAnswer (fs.lookup loc)
  | .stat path, fs => (fs.locate true path).bind fun loc =>
    (fs.lookup loc).map fun e => decide (e = .directory)
  | .openFile path _, fs =>
    match (fs.locate true path).map fs.lookup with
    | some none | some (some (.file _)) => if fs.descriptor fd = none then some fd else none
    | _ => none
  | .close _, _ => ()
  | .lseek fd off, fs => decide (fs.descriptor fd ≠ none ∧ off < 2 ^ 63)
  | .write fd data, fs => if fs.descriptor fd = none then none else some data.length
  | .unlink path, fs =>
    match (fs.locate false path).map fs.lookup with
    | some (some (.file _)) | some (some (.link _)) => true
    | _ => false
  | .symlink target path, fs =>
    decide (target ≠ [] ∧ (fs.locate false path).map fs.lookup = some none)
  | .getcwd, fs => some (if fs.cwd = [] then [pathSep] else joinPath pathSep [] fs.cwd)

theorem FileCall.answer_allowed (fd : Handle) (o : FileOp) (fs : FileSystem) :
    FileCall.allow o fs (FileCall.answer fd o fs) := by
  cases o with
  | mkdir path =>
    simp only [allow, answer]
    cases fs.locateDir path with
    | none => exact .inl rfl
    | some loc => exact .inr ⟨loc, rfl, rfl⟩
  | stat path =>
    simp only [allow, answer]
    cases fs.locate true path with
    | none => exact .inl rfl
    | some loc =>
      cases h : fs.lookup loc with
      | none => exact .inl (by rw [Option.bind_some, h]; rfl)
      | some e => exact .inr ⟨loc, e, rfl, h, by rw [Option.bind_some, h]; rfl⟩
  | openFile path mode =>
    intro fd' h
    simp only [answer] at h
    cases hloc : fs.locate true path with
    | none => simp [hloc] at h
    | some loc =>
      cases hl : fs.lookup loc with
      | none =>
        simp only [hloc, hl, Option.map_some] at h
        obtain ⟨hfree, ⟨⟩⟩ := Option.ite_none_right_eq_some.mp h
        exact ⟨hfree, loc, rfl, .inl hl⟩
      | some e =>
        cases e with
        | file ino =>
          simp only [hloc, hl, Option.map_some] at h
          obtain ⟨hfree, ⟨⟩⟩ := Option.ite_none_right_eq_some.mp h
          exact ⟨hfree, loc, rfl, .inr ⟨ino, hl⟩⟩
        | directory | link => simp [hloc, hl] at h
  | close => trivial
  | lseek fd off => exact of_decide_eq_true
  | write fd data =>
    intro n h
    obtain ⟨hopen, ⟨⟩⟩ := Option.ite_none_left_eq_some.mp h
    exact ⟨le_rfl, hopen⟩
  | unlink path =>
    intro h
    simp only [answer] at h
    cases hloc : fs.locate false path with
    | none => simp [hloc] at h
    | some loc =>
      cases hl : fs.lookup loc with
      | none => simp [hloc, hl] at h
      | some e =>
        refine ⟨loc, e, rfl, hl, ?_⟩
        rintro rfl
        simp [hloc, hl] at h
  | symlink target path =>
    intro h
    obtain ⟨ht, hnone⟩ := of_decide_eq_true h
    obtain ⟨loc, hloc, hl⟩ := Option.map_eq_some_iff.mp hnone
    exact ⟨ht, loc, hloc, hl⟩
  | getcwd =>
    intro path h
    exact (Option.some.inj h).symm

section Next

variable {fs : FileSystem} {path : Path} {loc : Location}

theorem FileCall.next_mkdir (h : fs.locateDir path = some loc) :
    FileCall.next (.mkdir path) fs .created = fs.put loc (some .directory) := by
  simp [FileCall.next, h]

theorem FileCall.next_openFile (h : fs.locate true path = some loc) (mode : Nat) (fd : Handle) :
    FileCall.next (.openFile path mode) fs (some fd) = fs.openAt loc fd := by
  simp [FileCall.next, h]

theorem FileCall.next_unlink (h : fs.locate false path = some loc) :
    FileCall.next (.unlink path) fs true = fs.put loc none := by
  simp [FileCall.next, h]

theorem FileCall.next_symlink (h : fs.locate false path = some loc) (target : Path) :
    FileCall.next (.symlink target path) fs true = fs.put loc (some (.link target)) := by
  simp [FileCall.next, h]

end Next

end ScpRdma.Receiver

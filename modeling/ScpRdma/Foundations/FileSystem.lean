import ScpRdma.Foundations.Bytes
import ScpRdma.Foundations.Paths

/-!
# A file system

Directories, regular files and symbolic links, at the names that lead to them from the root.
Files are numbered, so that a descriptor stays with its file. `locate` resolves a path as the
system calls do: through `.` and `..` and through links, at most `maxLinks` of them; a path
that ends with a slash has a `.` behind it.
-/
namespace ScpRdma.Foundations

/-- A name in a directory. -/
abbrev Name := Bytes

/-- The names from the root to an object, with no link on the way. -/
abbrev Location := List Name

inductive Entry where
  | directory
  | file (ino : Nat)
  | link (target : Bytes)
  deriving DecidableEq

/-- The entries, the contents of the files by their numbers, and for each open descriptor its
file and its place in it. Files have numbers below `nextIno`. -/
structure FileSystem where
  entry : Location → Option Entry
  content : Nat → Bytes
  descriptor : Nat → Option (Nat × Nat)
  nextIno : Nat
  cwd : Location

def pathSep : UInt8 := '/'.toUInt8
def selfName : Name := [46]
def parentName : Name := [46, 46]

/-- How many links a path may lead through. -/
def maxLinks : Nat := 40

/-- The names of a path, as they are walked. -/
def pathNames (path : Bytes) : List Name :=
  components pathSep path ++ if path.getLast? = some pathSep then [selfName] else []

/-- `bs` at `pos`, what is missing before it filled with zeros. -/
def splice (old : Bytes) (pos : Nat) (bs : Bytes) : Bytes :=
  old.take pos ++ List.replicate (pos - old.length) 0 ++ bs ++ old.drop (pos + bs.length)

theorem getD_splice_outside {old bs : Bytes} {pos i : Nat} (h : i < pos ∨ pos + bs.length ≤ i) :
    (splice old pos bs).getD i 0 = old.getD i 0 := by
  simp only [splice, List.getD_eq_getElem?_getD, List.getElem?_append, List.length_append,
    List.length_take, List.length_replicate, List.getElem?_take, List.getElem?_replicate,
    List.getElem?_drop]
  grind

theorem splice_length_self (old bs : Bytes) : splice old old.length bs = old ++ bs := by
  simp [splice]

namespace FileSystem

/-- What is at a location; the root is a directory. -/
def lookup (fs : FileSystem) (loc : Location) : Option Entry :=
  if loc = [] then some .directory else fs.entry loc

/-- Walk `names` from the directory `dir`. At a link, `jump` goes on, unless the link is the
last name and `follow` is false. -/
def walk (tree : Location → Option Entry) (follow : Bool)
    (jump : Location → List Name → Option Location) : Location → List Name → Option Location
  | dir, [] => some dir
  | dir, n :: rest =>
    if n = selfName then walk tree follow jump dir rest
    else if n = parentName then walk tree follow jump dir.dropLast rest
    else match tree (dir ++ [n]) with
      | some .directory => walk tree follow jump (dir ++ [n]) rest
      | some (.link target) =>
        if rest = [] ∧ follow = false then some (dir ++ [n])
        else jump (if target.head? = some pathSep then [] else dir) (pathNames target ++ rest)
      | some (.file _) | none => if rest = [] then some (dir ++ [n]) else none

/-- Walk through at most `links` links. -/
def resolve (tree : Location → Option Entry) (follow : Bool) :
    Nat → Location → List Name → Option Location
  | 0 => walk tree follow fun _ _ => none
  | links + 1 => walk tree follow (resolve tree follow links)

/-- Where a path leads: to an object, or to a place in a directory where there is none. -/
def locate (fs : FileSystem) (follow : Bool) (path : Bytes) : Option Location :=
  if path = [] then none
  else resolve fs.lookup follow maxLinks (if path.head? = some pathSep then [] else fs.cwd)
    (pathNames path)

/-- Where `mkdir` goes: it passes over slashes at the end. -/
def locateDir (fs : FileSystem) (path : Bytes) : Option Location :=
  if path = [] then none
  else resolve fs.lookup false maxLinks (if path.head? = some pathSep then [] else fs.cwd)
    (components pathSep path)

/-! ## Changes -/

def put (fs : FileSystem) (loc : Location) (e : Option Entry) : FileSystem :=
  { fs with entry := Function.update fs.entry loc e }

def setContent (fs : FileSystem) (ino : Nat) (bs : Bytes) : FileSystem :=
  { fs with content := Function.update fs.content ino bs }

def setDescriptor (fs : FileSystem) (fd : Nat) (d : Option (Nat × Nat)) : FileSystem :=
  { fs with descriptor := Function.update fs.descriptor fd d }

/-- A new empty file. -/
def create (fs : FileSystem) (loc : Location) : FileSystem :=
  { (fs.put loc (some (.file fs.nextIno))).setContent fs.nextIno [] with
    nextIno := fs.nextIno + 1 }

/-- Open the file at `loc` for writing, empty; if there is none it is created. -/
def openAt (fs : FileSystem) (loc : Location) (fd : Nat) : FileSystem :=
  match fs.lookup loc with
  | some (.file ino) => (fs.setContent ino []).setDescriptor fd (some (ino, 0))
  | _ => (fs.create loc).setDescriptor fd (some (fs.nextIno, 0))

def seek (fs : FileSystem) (fd pos : Nat) : FileSystem :=
  match fs.descriptor fd with
  | some (ino, _) => fs.setDescriptor fd (some (ino, pos))
  | none => fs

/-- Write `bs` where the descriptor stands. -/
def write (fs : FileSystem) (fd : Nat) (bs : Bytes) : FileSystem :=
  match fs.descriptor fd with
  | some (ino, pos) =>
    (fs.setContent ino (splice (fs.content ino) pos bs)).setDescriptor fd
      (some (ino, pos + bs.length))
  | none => fs

section Simp

variable (fs : FileSystem) (loc : Location) (e : Option Entry) (ino fd : Nat) (bs : Bytes)
  (d : Option (Nat × Nat))

@[simp] theorem content_put : (fs.put loc e).content = fs.content := rfl
@[simp] theorem descriptor_put : (fs.put loc e).descriptor = fs.descriptor := rfl
@[simp] theorem cwd_put : (fs.put loc e).cwd = fs.cwd := rfl
@[simp] theorem entry_setContent : (fs.setContent ino bs).entry = fs.entry := rfl
@[simp] theorem descriptor_setContent : (fs.setContent ino bs).descriptor = fs.descriptor := rfl
@[simp] theorem entry_setDescriptor : (fs.setDescriptor fd d).entry = fs.entry := rfl
@[simp] theorem content_setDescriptor : (fs.setDescriptor fd d).content = fs.content := rfl

@[simp] theorem lookup_nil : fs.lookup [] = some .directory := rfl

@[simp] theorem content_setContent_self : (fs.setContent ino bs).content ino = bs :=
  Function.update_self ..

@[simp] theorem descriptor_setDescriptor_self : (fs.setDescriptor fd d).descriptor fd = d :=
  Function.update_self ..

end Simp

theorem content_setContent_of_ne {fs : FileSystem} {ino j : Nat} {bs : Bytes} (h : j ≠ ino) :
    (fs.setContent ino bs).content j = fs.content j := Function.update_of_ne h ..

theorem lookup_of_ne {fs : FileSystem} {loc : Location} (h : loc ≠ []) :
    fs.lookup loc = fs.entry loc := if_neg h

theorem entry_of_lookup_none {fs : FileSystem} {loc : Location} (h : fs.lookup loc = none) :
    loc ≠ [] ∧ fs.entry loc = none := by
  unfold lookup at h
  split at h
  · cases h
  · exact ⟨‹_›, h⟩

theorem entry_put_of_ne {fs : FileSystem} {loc x : Location} {e : Option Entry} (h : x ≠ loc) :
    (fs.put loc e).entry x = fs.entry x := Function.update_of_ne h ..

@[simp] theorem entry_put_self (fs : FileSystem) (loc : Location) (e : Option Entry) :
    (fs.put loc e).entry loc = e := Function.update_self ..

/-- Where something is put at an empty place, a path leads where it led before, unless it is a link
that is followed. -/
theorem walk_filled {tree tree' : Location → Option Entry} {follow : Bool} {loc : Location}
    {jump jump' : Location → List Name → Option Location}
    (hsame : ∀ x, x ≠ loc → tree' x = tree x) (hnone : tree loc = none)
    (hplain : follow = true → ∀ target, tree' loc ≠ some (.link target))
    (hjump : ∀ dir names x, jump dir names = some x → jump' dir names = some x)
    {dir x : Location} {names : List Name} (h : walk tree follow jump dir names = some x) :
    walk tree' follow jump' dir names = some x := by
  induction names generalizing dir with
  | nil => exact h
  | cons n rest ih =>
    rw [walk] at h ⊢
    split
    · rw [if_pos ‹_›] at h
      exact ih h
    rw [if_neg ‹_›] at h
    split
    · rw [if_pos ‹_›] at h
      exact ih h
    rw [if_neg ‹_›] at h
    by_cases hx : dir ++ [n] = loc
    · rw [hx, hnone] at h
      obtain ⟨rfl, ⟨⟩⟩ := Option.ite_none_right_eq_some.mp h
      rw [hx]
      cases hl : tree' loc with
      | none => exact h
      | some e =>
        cases e with
        | directory | file => exact h
        | link target =>
          cases follow with
          | true => exact absurd hl (hplain rfl target)
          | false => exact (if_pos ⟨rfl, rfl⟩).trans h
    · rw [hsame _ hx]
      cases hl : tree (dir ++ [n]) with
      | none =>
        rw [hl] at h
        exact h
      | some e =>
        rw [hl] at h
        cases e with
        | directory => exact ih h
        | file => exact h
        | link target =>
          dsimp only at h ⊢
          split
          · rw [if_pos ‹_›] at h
            exact h
          · rw [if_neg ‹_›] at h
            exact hjump _ _ _ h

theorem resolve_filled {tree tree' : Location → Option Entry} {follow : Bool} {loc : Location}
    (hsame : ∀ x, x ≠ loc → tree' x = tree x) (hnone : tree loc = none)
    (hplain : follow = true → ∀ target, tree' loc ≠ some (.link target)) {links : Nat}
    {dir x : Location} {names : List Name} (h : resolve tree follow links dir names = some x) :
    resolve tree' follow links dir names = some x := by
  induction links generalizing dir names x with
  | zero => exact walk_filled hsame hnone hplain (fun _ _ _ h => h) h
  | succ links ih => exact walk_filled hsame hnone hplain (fun _ _ _ => ih) h

theorem walk_self {tree : Location → Option Entry} {follow : Bool}
    {jump : Location → List Name → Option Location} {dir : Location} {names : List Name}
    (h : ∀ n ∈ names, n = selfName) : walk tree follow jump dir names = some dir := by
  induction names with
  | nil => rfl
  | cons n names ih =>
    rw [List.forall_mem_cons] at h
    rw [walk, if_pos h.1]
    exact ih h.2

/-- Where a path leads to a directory, links are followed anyway, and a `.` behind it changes
nothing. -/
theorem walk_directory {tree : Location → Option Entry}
    {jump jump' : Location → List Name → Option Location} {tail : List Name}
    (htail : ∀ n ∈ tail, n = selfName)
    (hjump : ∀ dir names x, jump dir names = some x → tree x = some .directory →
      jump' dir (names ++ tail) = some x)
    {dir x : Location} {names : List Name} (h : walk tree false jump dir names = some x)
    (hx : tree x = some .directory) : walk tree true jump' dir (names ++ tail) = some x := by
  induction names generalizing dir with
  | nil =>
    cases h
    exact walk_self htail
  | cons n rest ih =>
    rw [List.cons_append]
    rw [walk] at h ⊢
    split
    · rw [if_pos ‹_›] at h
      exact ih h
    rw [if_neg ‹_›] at h
    split
    · rw [if_pos ‹_›] at h
      exact ih h
    rw [if_neg ‹_›] at h
    cases hl : tree (dir ++ [n]) with
    | none =>
      rw [hl] at h
      obtain ⟨rfl, ⟨⟩⟩ := Option.ite_none_right_eq_some.mp h
      exact nomatch hl.symm.trans hx
    | some e =>
      rw [hl] at h
      cases e with
      | directory => exact ih h
      | file =>
        obtain ⟨rfl, ⟨⟩⟩ := Option.ite_none_right_eq_some.mp h
        exact nomatch hl.symm.trans hx
      | link target =>
        dsimp only at h ⊢
        split at h
        · cases h
          exact nomatch hl.symm.trans hx
        · rw [if_neg (by simp), ← List.append_assoc]
          exact hjump _ _ _ h hx

theorem resolve_directory {tree : Location → Option Entry} {tail : List Name}
    (htail : ∀ n ∈ tail, n = selfName) {links : Nat} {dir x : Location} {names : List Name}
    (h : resolve tree false links dir names = some x) (hx : tree x = some .directory) :
    resolve tree true links dir (names ++ tail) = some x := by
  induction links generalizing dir names x with
  | zero => exact walk_directory htail (by simp) h hx
  | succ links ih => exact walk_directory htail (fun _ _ _ h hx => ih h hx) h hx

/-- Where an object is removed, a path leads there or where it led before. -/
theorem walk_emptied {tree tree' : Location → Option Entry} {follow : Bool} {loc : Location}
    {jump jump' : Location → List Name → Option Location}
    (hsame : ∀ x, x ≠ loc → tree' x = tree x) (hnone : tree' loc = none)
    (hjump : ∀ dir names x, jump' dir names = some x → x = loc ∨ jump dir names = some x)
    {dir x : Location} {names : List Name} (h : walk tree' follow jump' dir names = some x) :
    x = loc ∨ walk tree follow jump dir names = some x := by
  induction names generalizing dir with
  | nil => exact .inr h
  | cons n rest ih =>
    rw [walk] at h ⊢
    split at h
    · rw [if_pos ‹_›]
      exact ih h
    rw [if_neg ‹_›]
    split at h
    · rw [if_pos ‹_›]
      exact ih h
    rw [if_neg ‹_›]
    by_cases hx : dir ++ [n] = loc
    · rw [hx, hnone] at h
      dsimp only at h
      split at h
      · exact .inl (Option.some.inj h).symm
      · cases h
    · rw [hsame _ hx] at h
      cases hl : tree (dir ++ [n]) with
      | none =>
        rw [hl] at h
        exact .inr h
      | some e =>
        rw [hl] at h
        cases e with
        | directory => exact ih h
        | file => exact .inr h
        | link target =>
          dsimp only at h ⊢
          split at h
          · rw [if_pos ‹_›]
            exact .inr h
          · rw [if_neg ‹_›]
            exact hjump _ _ _ h

theorem resolve_emptied {tree tree' : Location → Option Entry} {follow : Bool} {loc : Location}
    (hsame : ∀ x, x ≠ loc → tree' x = tree x) (hnone : tree' loc = none)
    {links : Nat} {dir x : Location} {names : List Name}
    (h : resolve tree' follow links dir names = some x) :
    x = loc ∨ resolve tree follow links dir names = some x := by
  induction links generalizing dir names x with
  | zero => exact walk_emptied hsame hnone (fun _ _ _ h => .inr h) h
  | succ links ih => exact walk_emptied hsame hnone (fun _ _ _ => ih) h

theorem lookup_put_of_ne {fs : FileSystem} {loc x : Location} {e : Option Entry} (h : x ≠ loc) :
    (fs.put loc e).lookup x = fs.lookup x := by
  unfold lookup
  rw [entry_put_of_ne h]

theorem lookup_put_self {fs : FileSystem} {loc : Location} {e : Option Entry} (h : loc ≠ []) :
    (fs.put loc e).lookup loc = e := by
  rw [lookup_of_ne h, entry_put_self]

theorem locate_congr {fs fs' : FileSystem} (hentry : fs'.entry = fs.entry) (hcwd : fs'.cwd = fs.cwd)
    (follow : Bool) (path : Bytes) : fs'.locate follow path = fs.locate follow path := by
  have hlookup : fs'.lookup = fs.lookup := by
    funext x
    rw [lookup, lookup, hentry]
  rw [locate, locate, hlookup, hcwd]

/-- A path that led to an object which is removed leads there still, or nowhere. -/
theorem locate_removed {fs : FileSystem} {loc x : Location} {path : Bytes} (hne : loc ≠ [])
    (hloc : fs.locate false path = some loc)
    (h : (fs.put loc none).locate false path = some x) : x = loc := by
  unfold locate at hloc h
  split at h
  · cases h
  · rw [if_neg ‹_›] at hloc
    have := resolve_emptied (fun _ hx => lookup_put_of_ne hx) (lookup_put_self hne) h
    rcases this with hx | hx
    · exact hx
    · exact Option.some.inj (hx.symm.trans hloc)

/-- What is opened is at its path from then on. -/
theorem locate_openAt {fs : FileSystem} {loc : Location} {path : Bytes} (fd : Nat)
    (hloc : fs.locate true path = some loc)
    (hfree : fs.lookup loc = none ∨ ∃ ino, fs.lookup loc = some (.file ino)) :
    ∃ ino, (fs.openAt loc fd).locate true path = some loc ∧
      (fs.openAt loc fd).lookup loc = some (.file ino) ∧
      (fs.openAt loc fd).descriptor fd = some (ino, 0) := by
  rcases hfree with hl | ⟨ino, hl⟩
  · obtain ⟨hne, -⟩ := entry_of_lookup_none hl
    have hopen : fs.openAt loc fd = (fs.create loc).setDescriptor fd (some (fs.nextIno, 0)) := by
      rw [openAt, hl]
    have hfile : (fs.put loc (some (.file fs.nextIno))).lookup loc = some (.file fs.nextIno) :=
      lookup_put_self hne
    have hpath : (fs.put loc (some (.file fs.nextIno))).locate true path = some loc := by
      unfold locate at hloc ⊢
      split at hloc
      · cases hloc
      · rw [if_neg ‹_›]
        exact resolve_filled (fun x hx => lookup_put_of_ne hx) hl (by simp [hfile]) hloc
    rw [hopen]
    exact ⟨fs.nextIno, (locate_congr rfl rfl true path).trans hpath, hfile,
      descriptor_setDescriptor_self ..⟩
  · have hopen : fs.openAt loc fd = (fs.setContent ino []).setDescriptor fd (some (ino, 0)) := by
      rw [openAt, hl]
    rw [hopen]
    exact ⟨ino, (locate_congr rfl rfl true path).trans hloc, hl, descriptor_setDescriptor_self ..⟩

/-! ## Directories -/

/-- The path names a directory. -/
def Directory (fs : FileSystem) (path : Bytes) : Prop :=
  ∃ loc, fs.locate true path = some loc ∧ fs.lookup loc = some .directory

/-- Which paths name directories says nothing about open files. -/
theorem directory_congr {fs fs' : FileSystem} {path : Bytes} (hentry : fs'.entry = fs.entry)
    (hcwd : fs'.cwd = fs.cwd) : fs'.Directory path ↔ fs.Directory path := by
  cases fs
  cases fs'
  subst hentry hcwd
  rfl

/-- Where `mkdir` finds or makes a directory, the path names it, with a slash at the end too. -/
theorem directory_of_locateDir {fs : FileSystem} {loc : Location} {path tail : Bytes}
    (hloc : fs.locateDir path = some loc) (hdir : fs.lookup loc = some .directory)
    (htail : tail = [] ∨ tail = [pathSep]) : fs.Directory (path ++ tail) := by
  unfold locateDir at hloc
  split at hloc
  · cases hloc
  rename_i hne
  have hcomp : components pathSep (path ++ tail) = components pathSep path := by
    rcases htail with rfl | rfl
    · rw [List.append_nil]
    · rw [components_sep]
      exact List.append_nil _
  refine ⟨loc, ?_, hdir⟩
  have hself : ∀ b, ∀ n ∈ if b = true then [selfName] else [], n = selfName := by
    intro b n hn
    cases b <;> simp_all
  rw [locate, if_neg (by simp [hne]), List.head?_append_of_ne_nil _ hne, pathNames, hcomp]
  have hlast := hself (decide ((path ++ tail).getLast? = some pathSep))
  simp only [decide_eq_true_eq] at hlast
  exact resolve_directory hlast hloc hdir

/-- A directory is made at an empty place. -/
theorem locateDir_put {fs : FileSystem} {loc x : Location} {path : Bytes}
    (hnone : fs.lookup loc = none) (h : fs.locateDir path = some x) :
    (fs.put loc (some .directory)).locateDir path = some x := by
  have hput : (fs.put loc (some .directory)).lookup loc = some .directory :=
    lookup_put_self (entry_of_lookup_none hnone).1
  unfold locateDir at h ⊢
  split at h
  · cases h
  · rw [if_neg ‹_›]
    exact resolve_filled (fun _ hx => lookup_put_of_ne hx) hnone (by simp [hput]) h

/-- Where something is put at an empty place, a path whose last link is not followed leads where it
led before. -/
theorem locate_put {fs : FileSystem} {loc x : Location} {path : Bytes} {e : Entry}
    (hnone : fs.lookup loc = none) (h : fs.locate false path = some x) :
    (fs.put loc (some e)).locate false path = some x := by
  unfold locate at h ⊢
  split at h
  · cases h
  · rw [if_neg ‹_›]
    exact resolve_filled (fun _ hx => lookup_put_of_ne hx) hnone (by simp) h

/-! ## Below a directory -/

/-- Where a path leads, through at most `links` links. -/
def locateWithin (fs : FileSystem) (links : Nat) (follow : Bool) (path : Bytes) : Option Location :=
  if path = [] then none
  else resolve fs.lookup follow links (if path.head? = some pathSep then [] else fs.cwd)
    (pathNames path)

/-- A name behind a path that leads to a directory is looked for in that directory. -/
theorem walk_behind {tree : Location → Option Entry}
    {jump : Location → List Name → Option Location} {tail : List Name} {n : Name}
    (htail : ∀ m ∈ tail, m = selfName)
    (hjump : ∀ dir names x y, jump dir (names ++ tail) = some x → tree x = some .directory →
      jump dir (names ++ [n]) = some y → ∃ links, resolve tree true links x [n] = some y)
    (hhere : ∀ dir y, walk tree true jump dir [n] = some y →
      ∃ links, resolve tree true links dir [n] = some y)
    {dir x y : Location} {names : List Name} (h : walk tree true jump dir (names ++ tail) = some x)
    (hx : tree x = some .directory) (hy : walk tree true jump dir (names ++ [n]) = some y) :
    ∃ links, resolve tree true links x [n] = some y := by
  induction names generalizing dir with
  | nil =>
    rw [List.nil_append, walk_self htail] at h
    cases h
    exact hhere _ _ hy
  | cons m rest ih =>
    rw [List.cons_append, walk] at h hy
    split at h
    · rw [if_pos ‹_›] at hy
      exact ih h hy
    rw [if_neg ‹_›] at hy
    split at h
    · rw [if_pos ‹_›] at hy
      exact ih h hy
    rw [if_neg ‹_›] at hy
    cases hl : tree (dir ++ [m]) with
    | none =>
      rw [hl] at hy
      exact absurd (Option.ite_none_right_eq_some.mp hy).1 (by simp)
    | some e =>
      rw [hl] at h hy
      cases e with
      | directory => exact ih h hy
      | file => exact absurd (Option.ite_none_right_eq_some.mp hy).1 (by simp)
      | link target =>
        dsimp only at h hy
        rw [if_neg (by simp), ← List.append_assoc] at h hy
        exact hjump _ _ _ _ h hx hy

theorem resolve_behind {tree : Location → Option Entry} {tail : List Name} {n : Name}
    (htail : ∀ m ∈ tail, m = selfName) {links : Nat} {dir x y : Location} {names : List Name}
    (h : resolve tree true links dir (names ++ tail) = some x) (hx : tree x = some .directory)
    (hy : resolve tree true links dir (names ++ [n]) = some y) :
    ∃ links, resolve tree true links x [n] = some y := by
  induction links generalizing dir names x y with
  | zero => exact walk_behind htail (by simp) (fun _ _ hhere => ⟨0, hhere⟩) h hx hy
  | succ links ih =>
    exact walk_behind htail (fun _ _ _ _ h hx hy => ih h hx hy)
      (fun _ _ hhere => ⟨links + 1, hhere⟩) h hx hy

/-- What the name `n` in the directory `x` leads to. -/
def Names (fs : FileSystem) (x : Location) (n : Name) (y : Location) : Prop :=
  ∃ links, resolve fs.lookup true links x [n] = some y

theorem names_of_locateWithin {fs : FileSystem} {links : Nat} {path : Bytes} {n : Name}
    {x y : Location} (hn : IsComponent pathSep n) (h : fs.locateWithin links true path = some x)
    (hx : fs.lookup x = some .directory)
    (hy : fs.locateWithin links true (path ++ pathSep :: n) = some y) : fs.Names x n y := by
  unfold locateWithin at h hy
  split at h
  · cases h
  rename_i hne
  have hlast : (path ++ pathSep :: n).getLast? ≠ some pathSep := by
    have hback : (path ++ pathSep :: n).getLast? = n.getLast? := by
      obtain ⟨c, m, rfl⟩ := List.exists_cons_of_ne_nil hn.nonempty
      simp [List.getLast?_append, List.getLast?_cons]
    rw [hback]
    exact fun hlast => hn.noSep (List.mem_of_getLast? hlast)
  have hnames : pathNames (path ++ pathSep :: n) = components pathSep path ++ [n] := by
    rw [pathNames, components_sep, hn.components, if_neg hlast, List.append_nil]
  rw [if_neg (by simp [hne]), List.head?_append_of_ne_nil _ hne, hnames] at hy
  refine resolve_behind ?_ h hx hy
  intro m hm
  split at hm <;> simp_all

end FileSystem

end ScpRdma.Foundations

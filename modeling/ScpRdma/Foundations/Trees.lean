import ScpRdma.Foundations.Ways

/-!
# Trees in a file system

A tree is an object with all that is below it, the entries of a directory in the order in which they
are listed. A file system shows objects at its locations, whatever the numbers of its files.
`Planted` says that a tree stands at a location, with directories on the way to it, and that nothing
else has changed.
-/
namespace ScpRdma.Foundations

inductive FileObject where
  | directory
  | file (content : Bytes)
  | link (target : Bytes)
  deriving DecidableEq

mutual

inductive FileTree where
  | file (mode : Nat) (content : Bytes)
  | link (mode : Nat) (target : Bytes)
  | directory (entries : Forest)

/-- The entries of a directory. -/
inductive Forest where
  | nil
  | cons (name : Name) (tree : FileTree) (rest : Forest)

end

def FileTree.top : FileTree → FileObject
  | .file _ content => .file content
  | .link _ target => .link target
  | .directory _ => .directory

mutual

/-- What stands at the end of the names. -/
def FileTree.find : FileTree → List Name → Option FileObject
  | t, [] => some t.top
  | .directory entries, n :: names => entries.find n names
  | .file .., _ :: _ | .link .., _ :: _ => none

def Forest.find : Forest → Name → List Name → Option FileObject
  | .nil, _, _ => none
  | .cons name t rest, n, names => if name = n then t.find names else rest.find n names

end

def Forest.names : Forest → List Name
  | .nil => []
  | .cons name _ rest => name :: rest.names

theorem FileTree.find_nil (t : FileTree) : t.find [] = some t.top := by
  cases t <;> rfl

theorem Forest.find_of_notMem {f : Forest} {n : Name} (h : n ∉ f.names) (names : List Name) :
    f.find n names = none := by
  cases f with
  | nil => rfl
  | cons name t rest =>
    obtain ⟨hne, hrest⟩ := not_or.mp (mt List.mem_cons.mpr h)
    rw [find, if_neg (Ne.symm hne)]
    exact find_of_notMem hrest names

/-- A name that leads down: a component other than `.` and `..`. -/
structure IsName (n : Name) : Prop extends IsComponent pathSep n where
  notSelf : n ≠ selfName
  notParent : n ≠ parentName

namespace FileSystem

/-! ## Objects -/

section Objects

variable {fs fs' : FileSystem} {x y : Location} {e : Entry} {ino : Nat}

def shows (fs : FileSystem) : Entry → FileObject
  | .directory => .directory
  | .file ino => .file (fs.content ino)
  | .link target => .link target

/-- What stands at a location. -/
def object (fs : FileSystem) (x : Location) : Option FileObject := (fs.lookup x).map fs.shows

@[simp] theorem object_eq_none : fs.object x = none ↔ fs.lookup x = none := by
  simp [object]

@[simp] theorem object_eq_directory :
    fs.object x = some .directory ↔ fs.lookup x = some .directory := by
  cases h : fs.lookup x with
  | none => simp [object, h]
  | some e => cases e <;> simp [object, shows, h]

theorem object_file (h : fs.lookup x = some (.file ino)) :
    fs.object x = some (.file (fs.content ino)) := by
  rw [object, h, Option.map_some, shows]

theorem object_link {target : Bytes} (h : fs.lookup x = some (.link target)) :
    fs.object x = some (.link target) := by
  rw [object, h, Option.map_some, shows]

/-- The same entry is the same object, if it is no file whose content has changed. -/
theorem object_congr (hl : fs'.lookup x = fs.lookup x)
    (hc : ∀ ino, fs.lookup x = some (.file ino) → fs'.content ino = fs.content ino) :
    fs'.object x = fs.object x := by
  unfold object
  rw [hl]
  cases h : fs.lookup x with
  | none => rfl
  | some e =>
    cases e with
    | file ino => rw [Option.map_some, Option.map_some, shows, shows, hc ino h]
    | directory | link => rfl

/-- The files in use have numbers below the next one. -/
structure Numbered (fs : FileSystem) : Prop where
  entry : ∀ x ino, fs.lookup x = some (.file ino) → ino < fs.nextIno
  descriptor : ∀ fd ino pos, fs.descriptor fd = some (ino, pos) → ino < fs.nextIno

theorem Upholds.trans {fs'' : FileSystem} (h : Upholds fs fs') (h' : Upholds fs' fs'') :
    Upholds fs fs'' :=
  ⟨h'.cwd.trans h.cwd, fun x e hx hne => h'.keeps x e (h.keeps x e hx hne) hne⟩

end Objects

/-! ## Directories on a way -/

section Paved

variable {fs fs' : FileSystem} {base : Location} {ns ms : List Name} {n : Name}

/-- `fs'` is `fs` with directories at `base` and on the way from there. -/
structure Paved (fs : FileSystem) (base : Location) (ns : List Name) (fs' : FileSystem) : Prop where
  way : ∀ pre, pre <+: ns → fs'.lookup (base ++ pre) = some .directory
  other : ∀ x, (∀ pre, pre <+: ns → x ≠ base ++ pre) → fs'.lookup x = fs.lookup x
  content : fs'.content = fs.content
  cwd : fs'.cwd = fs.cwd
  numbered : fs.Numbered → fs'.Numbered

/-- On the way nothing stands but directories. -/
def Walkable (fs : FileSystem) (base : Location) (ns : List Name) : Prop :=
  ∀ pre, pre <+: ns → fs.lookup (base ++ pre) = none ∨ fs.lookup (base ++ pre) = some .directory

theorem Walkable.start (h : Walkable fs base ns) (hms : ms <+: ns) : Walkable fs base ms :=
  fun pre hpre => h pre (hpre.trans hms)

theorem Paved.refl (h : ∀ pre, pre <+: ns → fs.lookup (base ++ pre) = some .directory) :
    Paved fs base ns fs := ⟨h, fun _ _ => rfl, rfl, rfl, fun h => h⟩

theorem Numbered.put (h : fs.Numbered) (x : Location) {e : Entry} (he : ∀ ino, e ≠ .file ino) :
    (fs.put x (some e)).Numbered := by
  refine ⟨fun y ino hy => ?_, h.descriptor⟩
  by_cases hyx : y = x
  · subst hyx
    unfold lookup at hy
    split at hy
    · cases hy
    · rw [entry_put_self] at hy
      exact absurd (Option.some.inj hy) (he ino)
  · rw [lookup_put_of_ne hyx] at hy
    exact h.entry y ino hy

theorem Numbered.setDescriptor (h : fs.Numbered) (fd : Nat) {d : Option (Nat × Nat)}
    (hd : ∀ ino pos, d = some (ino, pos) → ino < fs.nextIno) :
    (fs.setDescriptor fd d).Numbered := by
  refine ⟨h.entry, fun e ino pos he => ?_⟩
  by_cases hef : e = fd
  · rw [hef, descriptor_setDescriptor_self] at he
    exact hd ino pos he
  · exact h.descriptor e ino pos ((Function.update_of_ne hef _ _).symm.trans he)

theorem Paved.close (h : Paved fs base ns fs') (fd : Nat) :
    Paved fs base ns (fs'.setDescriptor fd none) :=
  ⟨h.way, h.other, h.content, h.cwd, fun hfs => (h.numbered hfs).setDescriptor fd nofun⟩

/-- One more directory that is there or is made. -/
theorem Paved.step (h : Paved fs base ms fs') (hpass : Walkable fs base (ms ++ [n])) :
    (fs'.lookup (base ++ (ms ++ [n])) = some .directory ∧ Paved fs base (ms ++ [n]) fs') ∨
      fs'.lookup (base ++ (ms ++ [n])) = none ∧
        Paved fs base (ms ++ [n]) (fs'.put (base ++ (ms ++ [n])) (some .directory)) := by
  have hold : fs'.lookup (base ++ (ms ++ [n])) = fs.lookup (base ++ (ms ++ [n])) := by
    refine h.other _ fun pre hpre heq => ?_
    have hlen := hpre.length_le
    rw [← List.append_cancel_left heq] at hlen
    simp at hlen
  have hother : ∀ x, (∀ pre, pre <+: ms ++ [n] → x ≠ base ++ pre) → fs'.lookup x = fs.lookup x :=
    fun x hx => h.other x fun pre hpre => hx pre (hpre.trans (List.prefix_append _ _))
  rcases hpass _ (List.prefix_refl _) with hnone | hdir
  · refine .inr ⟨hold.trans hnone, fun pre hpre => ?_, fun x hx => ?_, h.content, h.cwd,
      fun hfs => (h.numbered hfs).put _ (by simp)⟩
    · rcases List.prefix_concat_iff.mp hpre with rfl | hpre'
      · exact lookup_put_self (by simp)
      · rw [lookup_put_of_ne, h.way pre hpre']
        intro heq
        have hlen := hpre'.length_le
        rw [List.append_cancel_left heq] at hlen
        simp at hlen
    · rw [lookup_put_of_ne (hx _ (List.prefix_refl _)), hother x hx]
  · refine .inl ⟨hold.trans hdir, fun pre hpre => ?_, hother, h.content, h.cwd, h.numbered⟩
    rcases List.prefix_concat_iff.mp hpre with rfl | hpre'
    · exact hold.trans hdir
    · exact h.way pre hpre'

theorem Paved.upholds (h : Paved fs base ns fs') (hpass : Walkable fs base ns) :
    Upholds fs fs' := by
  refine ⟨h.cwd, fun x e hx hne => ?_⟩
  by_cases hway : ∃ pre, pre <+: ns ∧ x = base ++ pre
  · obtain ⟨pre, hpre, rfl⟩ := hway
    rcases hpass pre hpre with hnone | hdir
    · simp [hnone] at hx
    · rw [h.way pre hpre, ← hx, hdir]
  · rw [h.other x fun pre hpre heq => hway ⟨pre, hpre, heq⟩, hx]

theorem Paved.object (h : Paved fs base ns fs') {x : Location}
    (hx : ∀ pre, pre <+: ns → x ≠ base ++ pre) : fs'.object x = fs.object x :=
  object_congr (h.other x hx) fun _ _ => congrFun h.content _

end Paved

/-! ## Trees at a location -/

section Planted

variable {fs fs₁ fs' : FileSystem} {base : Location} {ns : List Name} {t : FileTree} {f : Forest}
  {name : Name}

/-- `fs'` is `fs` with the tree at the end of the names `ns` below `base`, and with directories on
the way. -/
structure Planted (fs : FileSystem) (base : Location) (ns : List Name) (t : FileTree)
    (fs' : FileSystem) : Prop where
  tree : ∀ names, fs'.object (base ++ ns ++ names) = t.find names
  above : ∀ pre, pre <+: ns → pre ≠ ns → fs'.lookup (base ++ pre) = some .directory
  other : ∀ x, ¬ base ++ ns <+: x → (∀ pre, pre <+: ns → x ≠ base ++ pre) →
    fs'.object x = fs.object x
  upholds : Upholds fs fs'
  numbered : fs'.Numbered

/-- So it is with trees in the directory there. -/
structure PlantedAll (fs : FileSystem) (base : Location) (ns : List Name) (f : Forest)
    (fs' : FileSystem) : Prop where
  trees : ∀ n ∈ f.names, ∀ names, fs'.object (base ++ ns ++ n :: names) = f.find n names
  above : ∀ pre, pre <+: ns → fs'.lookup (base ++ pre) = some .directory
  other : ∀ x, (∀ n ∈ f.names, ¬ base ++ ns ++ [n] <+: x) →
    (∀ pre, pre <+: ns → x ≠ base ++ pre) → fs'.object x = fs.object x
  upholds : Upholds fs fs'
  numbered : fs'.Numbered

/-- There is room for a tree. -/
structure Room (fs : FileSystem) (base : Location) (ns : List Name) : Prop where
  walkable : Walkable fs base ns
  below : ∀ n names, fs.lookup (base ++ ns ++ n :: names) = none
  numbered : fs.Numbered

/-- There is a directory with room for these names. -/
structure RoomIn (fs : FileSystem) (base : Location) (ns names : List Name) : Prop where
  above : ∀ pre, pre <+: ns → fs.lookup (base ++ pre) = some .directory
  free : ∀ n ∈ names, ∀ rest, fs.lookup (base ++ ns ++ n :: rest) = none
  numbered : fs.Numbered

theorem not_below {pre rest : List Name} {n : Name} (h : pre <+: ns) :
    base ++ ns ++ n :: rest ≠ base ++ pre := by
  intro heq
  rw [List.append_assoc] at heq
  have hlen := h.length_le
  rw [← List.append_cancel_left heq] at hlen
  simp at hlen

theorem not_beside {n m : Name} {rest : List Name} (h : n ≠ m) :
    ¬ base ++ ns ++ [n] <+: base ++ ns ++ m :: rest := by
  rw [List.prefix_append_right_inj, List.cons_prefix_cons]
  exact fun hpre => h hpre.1

theorem Paved.planted (h : Paved fs base ns fs') (hroom : Room fs base ns) :
    Planted fs base ns (.directory .nil) fs' := by
  refine ⟨fun names => ?_, fun pre hpre _ => h.way pre hpre, fun x _ hx => h.object hx,
    h.upholds hroom.walkable, h.numbered hroom.numbered⟩
  cases names with
  | nil =>
    rw [List.append_nil, FileTree.find_nil]
    exact object_eq_directory.mpr (h.way ns (List.prefix_refl _))
  | cons n names =>
    rw [h.object fun pre hpre => not_below hpre]
    exact object_eq_none.mpr (hroom.below n names)

theorem Planted.roomIn (h : Planted fs base ns (.directory .nil) fs') (names : List Name) :
    RoomIn fs' base ns names := by
  refine ⟨fun pre hpre => ?_, fun n _ rest => ?_, h.numbered⟩
  · by_cases hne : pre = ns
    · rw [hne, ← object_eq_directory, ← List.append_nil (base ++ ns), h.tree []]
      rfl
    · exact h.above pre hpre hne
  · rw [← object_eq_none, h.tree]
    rfl

theorem RoomIn.room (h : RoomIn fs base ns (name :: f.names)) : Room fs base (ns ++ [name]) := by
  refine ⟨fun pre hpre => ?_, fun n rest => ?_, h.numbered⟩
  · rcases List.prefix_concat_iff.mp hpre with rfl | hpre
    · rw [← List.append_assoc]
      exact .inl (h.free name (List.mem_cons_self ..) [])
    · exact .inr (h.above pre hpre)
  · rw [← List.append_assoc, List.append_assoc (base ++ ns)]
    exact h.free name (List.mem_cons_self ..) (n :: rest)

theorem RoomIn.rest (h : RoomIn fs base ns (name :: f.names)) (hname : name ∉ f.names)
    (hp : Planted fs base (ns ++ [name]) t fs') : RoomIn fs' base ns f.names := by
  refine ⟨fun pre hpre => ?_, fun n hn rest => ?_, hp.numbered⟩
  · refine hp.above pre (hpre.trans (List.prefix_append _ _)) ?_
    rintro rfl
    simpa using hpre.length_le
  · have hne : name ≠ n := fun heq => hname (heq ▸ hn)
    rw [← object_eq_none, hp.other, object_eq_none]
    · exact h.free n (List.mem_cons_of_mem _ hn) rest
    · rw [← List.append_assoc]
      exact not_beside hne
    · intro pre hpre
      rcases List.prefix_concat_iff.mp hpre with rfl | hpre
      · rw [← List.append_assoc]
        intro heq
        exact not_beside hne ⟨[], (List.append_nil _).trans heq.symm⟩
      · exact not_below hpre

theorem RoomIn.done (h : RoomIn fs base ns []) : PlantedAll fs base ns .nil fs :=
  ⟨nofun, h.above, fun _ _ _ => rfl, .refl fs, h.numbered⟩

/-- One tree, and then the others beside it. -/
theorem Planted.cons (h : Planted fs base (ns ++ [name]) t fs₁) (hname : name ∉ f.names)
    (hrest : PlantedAll fs₁ base ns f fs') : PlantedAll fs base ns (.cons name t f) fs' := by
  refine ⟨fun n hn names => ?_, hrest.above, fun x hx hway => ?_, h.upholds.trans hrest.upholds,
    hrest.numbered⟩
  · by_cases hne : name = n
    · subst hne
      rw [Forest.find, if_pos rfl, ← h.tree names, ← List.append_assoc, List.append_assoc _ [name]]
      refine hrest.other _ (fun m hm => not_beside ?_) fun pre hpre => not_below hpre
      rintro rfl
      exact hname hm
    · rw [Forest.find, if_neg hne]
      exact hrest.trees n ((List.mem_cons.mp hn).resolve_left (Ne.symm hne)) names
  · rw [hrest.other x (fun n hn => hx n (List.mem_cons_of_mem _ hn)) hway, h.other x]
    · rw [← List.append_assoc]
      exact hx name (List.mem_cons_self ..)
    · intro pre hpre
      rcases List.prefix_concat_iff.mp hpre with rfl | hpre
      · rintro rfl
        rw [← List.append_assoc] at hx
        exact hx name (List.mem_cons_self ..) (List.prefix_refl _)
      · exact hway pre hpre

/-- A directory, and then its entries. -/
theorem Planted.directory (h : Planted fs base ns (.directory .nil) fs₁)
    (hall : PlantedAll fs₁ base ns f fs') : Planted fs base ns (.directory f) fs' := by
  refine ⟨fun names => ?_, fun pre hpre _ => hall.above pre hpre, fun x hx hway => ?_,
    h.upholds.trans hall.upholds, hall.numbered⟩
  · cases names with
    | nil =>
      rw [List.append_nil, FileTree.find_nil]
      exact object_eq_directory.mpr (hall.above ns (List.prefix_refl _))
    | cons n names =>
      rw [FileTree.find]
      by_cases hn : n ∈ f.names
      · exact hall.trees n hn names
      · rw [Forest.find_of_notMem hn, hall.other, h.tree]
        · rfl
        · exact fun m hm => not_beside fun heq => hn (heq ▸ hm)
        · exact fun pre hpre => not_below hpre
  · rw [hall.other x _ hway, h.other x hx hway]
    intro n _ hpre
    exact hx ((List.prefix_append _ _).trans hpre)

end Planted

/-! ## Files and links -/

section Leaves

variable {fs fs₁ fs' : FileSystem} {base x : Location} {ns pre : List Name} {n : Name}
  {t : FileTree} {mode fd ino : Nat} {bytes target : Bytes} {d : Option (Nat × Nat)}

/-- An object with nothing below it, in a directory that is there or was made. -/
theorem Paved.leaf (h : Paved fs base pre fs₁) (hroom : Room fs base (pre ++ [n]))
    (hfree : fs.lookup (base ++ (pre ++ [n])) = none)
    (hleaf : ∀ m names, t.find (m :: names) = none)
    (htop : fs'.object (base ++ (pre ++ [n])) = some t.top)
    (hlookup : ∀ x, x ≠ base ++ (pre ++ [n]) → fs'.lookup x = fs₁.lookup x)
    (hcontent : ∀ ino < fs₁.nextIno, fs'.content ino = fs₁.content ino) (hcwd : fs'.cwd = fs₁.cwd)
    (hnum : fs'.Numbered) : Planted fs base (pre ++ [n]) t fs' := by
  have hnum₁ := h.numbered hroom.numbered
  have hplace : ∀ names pre', pre' <+: pre → base ++ (pre ++ [n]) ++ names ≠ base ++ pre' := by
    intro names pre' hpre
    rw [← List.append_assoc, List.append_assoc (base ++ pre)]
    exact not_below hpre
  have hsame : ∀ x, x ≠ base ++ (pre ++ [n]) → fs'.object x = fs₁.object x := fun x hx =>
    object_congr (hlookup x hx) fun ino hino => hcontent ino (hnum₁.entry x ino hino)
  refine ⟨fun names => ?_, fun pre' hpre hne => ?_, fun x hx hway => ?_, ?_, hnum⟩
  · cases names with
    | nil => rw [List.append_nil, htop, FileTree.find_nil]
    | cons m names =>
      rw [hsame, hleaf, h.object (hplace (m :: names)), object_eq_none]
      · exact hroom.below m names
      · simp
  · have hpre' := (List.prefix_concat_iff.mp hpre).resolve_left hne
    rw [hlookup, h.way pre' hpre']
    intro heq
    exact hne (List.append_cancel_left heq)
  · rw [hsame x fun heq => hx (heq ▸ List.prefix_refl _), h.object]
    exact fun pre' hpre => hway pre' (hpre.trans (List.prefix_append _ _))
  · refine (h.upholds (hroom.walkable.start (List.prefix_append _ _))).trans ⟨hcwd, ?_⟩
    intro x e hx _
    rw [hlookup, hx]
    rintro rfl
    have hnone := h.other _ fun pre' hpre => (List.append_nil (base ++ (pre ++ [n]))) ▸
      hplace [] pre' hpre
    rw [hx, hfree] at hnone
    cases hnone

theorem Paved.link (h : Paved fs base pre fs₁) (hroom : Room fs base (pre ++ [n]))
    (hfree : fs.lookup (base ++ (pre ++ [n])) = none) :
    Planted fs base (pre ++ [n]) (.link mode target)
      (fs₁.put (base ++ (pre ++ [n])) (some (.link target))) := by
  have hself := @lookup_put_self fs₁ _ (some (.link target))
    (show base ++ (pre ++ [n]) ≠ [] by simp)
  exact h.leaf hroom hfree (fun _ _ => rfl) (object_link hself) (fun x hx => lookup_put_of_ne hx)
    (fun _ _ => rfl) rfl ((h.numbered hroom.numbered).put _ (by simp))

/-- The descriptor is on the file at `x`, which has no other name. -/
structure OpenedAt (fs : FileSystem) (x : Location) (fd ino : Nat) : Prop where
  entry : fs.lookup x = some (.file ino)
  alone : ∀ y, fs.lookup y = some (.file ino) → y = x
  descriptor : ∃ pos, fs.descriptor fd = some (ino, pos)

theorem Paved.file (h : Paved fs base pre fs₁) (hroom : Room fs base (pre ++ [n]))
    (hfree : fs.lookup (base ++ (pre ++ [n])) = none) (mode fd : Nat) :
    Planted fs base (pre ++ [n]) (.file mode []) (fs₁.openAt (base ++ (pre ++ [n])) fd) ∧
      OpenedAt (fs₁.openAt (base ++ (pre ++ [n])) fd) (base ++ (pre ++ [n])) fd fs₁.nextIno := by
  obtain ⟨x, hx⟩ : ∃ x, base ++ (pre ++ [n]) = x := ⟨_, rfl⟩
  have hnum := h.numbered hroom.numbered
  have hnone : fs₁.lookup x = none := by
    rw [h.other, ← hx, hfree]
    intro pre' hpre
    rw [← hx, ← List.append_assoc]
    exact not_below hpre
  have hopen : fs₁.openAt x fd =
      (fs₁.create x).setDescriptor fd (some (fs₁.nextIno, 0)) := by
    rw [openAt, hnone]
  have hself : ((fs₁.create x).setDescriptor fd (some (fs₁.nextIno, 0))).lookup x =
      some (.file fs₁.nextIno) :=
    @lookup_put_self fs₁ _ (some (.file fs₁.nextIno)) (entry_of_lookup_none hnone).1
  have hother : ∀ y, y ≠ x →
      ((fs₁.create x).setDescriptor fd (some (fs₁.nextIno, 0))).lookup y = fs₁.lookup y :=
    fun y hy => @lookup_put_of_ne fs₁ _ _ (some (.file fs₁.nextIno)) hy
  rw [hx, hopen]
  constructor
  · refine h.leaf hroom hfree (fun _ _ => rfl) ?_ (fun y hy => hother y (hx ▸ hy))
      (fun ino hino => content_setContent_of_ne hino.ne) rfl
      ⟨fun y ino hy => ?_, fun e ino pos hd => ?_⟩
    · rw [hx, object_file hself]
      exact congrArg (fun bs => some (FileObject.file bs))
        (content_setContent_self (fs₁.put x (some (.file fs₁.nextIno))) fs₁.nextIno [])
    · by_cases hyx : y = x
      · rw [hyx, hself] at hy
        cases hy
        exact Nat.lt_succ_self _
      · rw [hother y hyx] at hy
        exact (hnum.entry y ino hy).trans (Nat.lt_succ_self _)
    · by_cases he : e = fd
      · rw [he, descriptor_setDescriptor_self] at hd
        cases hd
        exact Nat.lt_succ_self _
      · have hd' : fs₁.descriptor e = some (ino, pos) :=
          (Function.update_of_ne he _ _).symm.trans hd
        exact (hnum.descriptor e ino pos hd').trans (Nat.lt_succ_self _)
  · refine ⟨hself, fun y hy => ?_, 0, descriptor_setDescriptor_self ..⟩
    by_contra hne
    rw [hother y hne] at hy
    exact absurd (hnum.entry y _ hy) (lt_irrefl _)

/-- A descriptor may be closed or moved. -/
theorem Planted.setDescriptor (h : Planted fs base ns t fs') (fd : Nat)
    (hd : ∀ ino pos, d = some (ino, pos) → ino < fs'.nextIno) :
    Planted fs base ns t (fs'.setDescriptor fd d) :=
  ⟨h.tree, h.above, h.other, ⟨h.upholds.cwd, h.upholds.keeps⟩, h.numbered.setDescriptor fd hd⟩

/-- The content of a file that has no other name may change. -/
theorem Planted.setContent (h : Planted fs base ns (.file mode bytes) fs')
    (hentry : fs'.lookup (base ++ ns) = some (.file ino))
    (halone : ∀ y, fs'.lookup y = some (.file ino) → y = base ++ ns) (bs : Bytes) :
    Planted fs base ns (.file mode bs) (fs'.setContent ino bs) := by
  have hself : (fs'.setContent ino bs).object (base ++ ns) = some (.file bs) := by
    have hfile : (fs'.setContent ino bs).lookup (base ++ ns) = some (.file ino) := hentry
    rw [object_file hfile, content_setContent_self]
  have hsame : ∀ y, y ≠ base ++ ns → (fs'.setContent ino bs).object y = fs'.object y := by
    intro y hy
    refine object_congr rfl fun j hj => content_setContent_of_ne ?_
    rintro rfl
    exact hy (halone y hj)
  refine ⟨fun names => ?_, h.above, fun y hy hway => ?_, ⟨h.upholds.cwd, h.upholds.keeps⟩,
    h.numbered.entry, h.numbered.descriptor⟩
  · cases names with
    | nil => exact (List.append_nil (base ++ ns)).symm ▸ hself
    | cons m names =>
      rw [hsame _ (by simp), h.tree]
      rfl
  · rw [hsame y fun heq => hy (heq ▸ List.prefix_refl _)]
    exact h.other y hy hway

/-- The bytes are written behind those that the file has. -/
theorem Planted.write (h : Planted fs base ns (.file mode bytes) fs')
    (ho : OpenedAt fs' (base ++ ns) fd ino) (more : Bytes) :
    Planted fs base ns (.file mode (bytes ++ more)) ((fs'.seek fd bytes.length).write fd more) ∧
      OpenedAt ((fs'.seek fd bytes.length).write fd more) (base ++ ns) fd ino := by
  obtain ⟨pos, hd⟩ := ho.descriptor
  have hino := h.numbered.descriptor fd ino pos hd
  have hbytes : fs'.content ino = bytes := by
    have htree := h.tree []
    rw [List.append_nil, object_file ho.entry] at htree
    exact FileObject.file.inj (Option.some.inj htree)
  have hresult : (fs'.seek fd bytes.length).write fd more =
      ((fs'.setDescriptor fd (some (ino, bytes.length))).setContent ino (bytes ++ more)
        ).setDescriptor fd (some (ino, bytes.length + more.length)) := by
    rw [seek, hd]
    dsimp only
    rw [FileSystem.write, descriptor_setDescriptor_self]
    dsimp only
    rw [content_setDescriptor, hbytes, splice_length_self]
  rw [hresult]
  refine ⟨?_, ho.entry, ho.alone, _, descriptor_setDescriptor_self ..⟩
  have hmoved := h.setDescriptor (d := some (ino, bytes.length)) fd fun _ _ hd' => by
    cases hd'
    exact hino
  refine (hmoved.setContent ho.entry ho.alone (bytes ++ more)).setDescriptor fd fun _ _ hd' => ?_
  cases hd'
  exact hino

end Leaves

end FileSystem

end ScpRdma.Foundations

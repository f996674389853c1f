import ScpRdma.Foundations.FileSystem

/-!
# Ways down from a directory

Where names lead from a directory is known from the names alone as long as no link is on the way:
`..` goes back up, and must not go above the start. A path that leads to a directory leads there
still when other objects have come and gone.
-/
namespace ScpRdma.Foundations

/-- Where the name `n` leads from `rel`; `none` for above the start. -/
def turn (rel : List Name) (n : Name) : Option (List Name) :=
  if n = selfName then some rel
  else if n = parentName then if rel = [] then none else some rel.dropLast
  else some (rel ++ [n])

/-- Where `names` lead from `rel`, through no links. -/
def way (rel : List Name) (names : List Name) : Option (List Name) := names.foldlM turn rel

theorem way_cons (rel : List Name) (n : Name) (names : List Name) :
    way rel (n :: names) = (turn rel n).bind fun r => way r names := rfl

theorem way_append (rel : List Name) (ns ms : List Name) :
    way rel (ns ++ ms) = (way rel ns).bind fun r => way r ms := List.foldlM_append

/-- The start of a way is one. -/
theorem way_start {rel ns ms x : List Name} (h : way rel (ns ++ ms) = some x) :
    ∃ y, way rel ns = some y := by
  rw [way_append] at h
  obtain ⟨y, hy, -⟩ := Option.bind_eq_some_iff.mp h
  exact ⟨y, hy⟩

/-- Names other than `.` and `..` lead down. -/
theorem way_names {rel ns : List Name} (h : ∀ n ∈ ns, n ≠ selfName ∧ n ≠ parentName) :
    way rel ns = some (rel ++ ns) := by
  induction ns generalizing rel with
  | nil => rw [List.append_nil]; rfl
  | cons n ns ih =>
    obtain ⟨⟨hself, hparent⟩, hrest⟩ := List.forall_mem_cons.mp h
    rw [way_cons, turn, if_neg hself, if_neg hparent, Option.bind_some, ih hrest, List.append_assoc]
    rfl

section Passes

variable {P : Option Entry → Prop} {tree : Location → Option Entry} {base : Location}
  {rel ns ms : List Name} {n : Name}

/-- `P` holds of what is passed on the way, the end apart. -/
def Passes (P : Option Entry → Prop) (tree : Location → Option Entry) (base : Location)
    (rel names : List Name) : Prop :=
  ∀ before after x, names = before ++ after → after ≠ [] → way rel before = some x →
    P (tree (base ++ x))

theorem passes_nil : Passes P tree base rel [] := by
  intro before after x h hne
  exact absurd (List.append_eq_nil_iff.mp h.symm).2 hne

theorem passes_cons : Passes P tree base rel (n :: ns) ↔
    P (tree (base ++ rel)) ∧ ∀ r, turn rel n = some r → Passes P tree base r ns := by
  constructor
  · intro h
    refine ⟨h [] (n :: ns) rel rfl (by simp) rfl, fun r hr before after x heq hne hx => ?_⟩
    refine h (n :: before) after x (by rw [heq, List.cons_append]) hne ?_
    rw [way_cons, hr]
    exact hx
  · rintro ⟨hhere, hrest⟩ before after x heq hne hx
    cases before with
    | nil =>
      cases hx
      exact hhere
    | cons m before =>
      obtain ⟨rfl, rfl⟩ := List.cons.inj heq
      rw [way_cons] at hx
      obtain ⟨r, hr, hx⟩ := Option.bind_eq_some_iff.mp hx
      exact hrest r hr before after x rfl hne hx

theorem Passes.start (h : Passes P tree base rel (ns ++ ms)) : Passes P tree base rel ns := by
  intro before after x heq hne hx
  refine h before (after ++ ms) x (by rw [heq, List.append_assoc]) (by simp [hne]) hx

/-- What such names pass. -/
theorem passes_names (hnames : ∀ n ∈ ns, n ≠ selfName ∧ n ≠ parentName) :
    Passes P tree base [] ns ↔ ∀ pre, pre <+: ns → pre ≠ ns → P (tree (base ++ pre)) := by
  constructor
  · rintro h pre ⟨after, rfl⟩ hne
    refine h pre after pre rfl ?_ ?_
    · rintro rfl
      exact hne (List.append_nil pre).symm
    · exact way_names fun n hn => hnames n (List.mem_append_left _ hn)
  · rintro h before after x rfl hne hx
    rw [way_names fun n hn => hnames n (List.mem_append_left _ hn)] at hx
    cases hx
    exact h before (List.prefix_append _ _) (by simpa using Ne.symm hne)

theorem Passes.mono {P' : Option Entry → Prop} {tree' : Location → Option Entry}
    (h : Passes P tree base rel ns) (hP : ∀ x, P (tree x) → P' (tree' x)) :
    Passes P' tree' base rel ns :=
  fun before after x heq hne hx => hP _ (h before after x heq hne hx)

end Passes

/-- Something else than a link. -/
def Plain (e : Option Entry) : Prop := ∀ target, e ≠ some (.link target)

namespace FileSystem

section Walks

variable {tree tree' : Location → Option Entry} {follow : Bool} {base dir x y : Location}
  {jump jump' : Location → List Name → Option Location} {names ns tail : List Name}

/-- From a directory, past no links, names lead to where their way ends, through directories. -/
theorem walk_below {rel m : List Name} (hway : way rel names = some m)
    (hplain : Passes Plain tree base rel names) (hlast : follow = true → Plain (tree (base ++ m)))
    (hdir : ∀ r, r <+: rel → tree (base ++ r) = some .directory)
    (h : walk tree follow jump (base ++ rel) names = some y) :
    y = base ++ m ∧ Passes (· = some .directory) tree base rel names := by
  induction names generalizing rel with
  | nil =>
    cases hway
    cases h
    exact ⟨rfl, passes_nil⟩
  | cons n rest ih =>
    rw [way_cons] at hway
    obtain ⟨r, hr, hway⟩ := Option.bind_eq_some_iff.mp hway
    have hrest := (passes_cons.mp hplain).2 r hr
    -- what is left, once it is known that the walk stands at `r`
    have hhere := hdir rel (List.prefix_refl rel)
    have hgo : (∀ r', r' <+: r → tree (base ++ r') = some .directory) →
        walk tree follow jump (base ++ r) rest = some y →
        y = base ++ m ∧ Passes (· = some .directory) tree base rel (n :: rest) := by
      intro hd hw
      obtain ⟨hy, hpass⟩ := ih hway hrest hd hw
      refine ⟨hy, passes_cons.mpr ⟨hhere, fun r' hr' => ?_⟩⟩
      cases hr.symm.trans hr'
      exact hpass
    rw [walk] at h
    unfold turn at hr
    split at hr
    · cases hr
      rw [if_pos ‹_›] at h
      exact hgo hdir h
    rw [if_neg ‹_›] at h
    split at hr
    · rw [if_pos ‹_›] at h
      split at hr
      · cases hr
      · cases hr
        rw [List.dropLast_append_of_ne_nil ‹_›] at h
        exact hgo (fun r' hr' => hdir r' (hr'.trans (List.dropLast_prefix rel))) h
    · cases hr
      rw [if_neg ‹_›, List.append_assoc] at h
      have hlink : ∀ target, tree (base ++ (rel ++ [n])) = some (.link target) →
          rest = [] ∧ follow = false := by
        intro target hl
        cases rest with
        | nil =>
          cases hway
          cases follow with
          | false => exact ⟨rfl, rfl⟩
          | true => exact absurd hl (hlast rfl target)
        | cons k rest => exact absurd hl ((passes_cons.mp hrest).1 target)
      have hend : rest = [] → y = base ++ (rel ++ [n]) →
          y = base ++ m ∧ Passes (· = some .directory) tree base rel (n :: rest) := by
        rintro rfl rfl
        cases hway
        exact ⟨rfl, passes_cons.mpr ⟨hhere, fun _ _ => passes_nil⟩⟩
      cases hl : tree (base ++ (rel ++ [n])) with
      | none =>
        rw [hl] at h
        obtain ⟨hnil, ⟨⟩⟩ := Option.ite_none_right_eq_some.mp h
        exact hend hnil rfl
      | some e =>
        rw [hl] at h
        cases e with
        | directory =>
          refine hgo (fun r' hr' => ?_) h
          rcases List.prefix_concat_iff.mp hr' with rfl | hr'
          · exact hl
          · exact hdir r' hr'
        | file =>
          obtain ⟨hnil, ⟨⟩⟩ := Option.ite_none_right_eq_some.mp h
          exact hend hnil rfl
        | link target =>
          have hlast := hlink target hl
          dsimp only at h
          rw [if_pos hlast] at h
          exact hend hlast.1 (Option.some.inj h).symm

/-- From the directory that a path leads to, the names behind it are walked. -/
theorem walk_into {P : Location → Prop} (htail : ∀ n ∈ tail, n = selfName) (hns : ns ≠ [])
    (hjump : ∀ dir names y, jump dir (names ++ tail) = some base →
      jump' dir (names ++ ns) = some y → P y)
    (hhere : ∀ y, walk tree follow jump' base ns = some y → P y)
    (h : walk tree true jump dir (names ++ tail) = some base)
    (hy : walk tree follow jump' dir (names ++ ns) = some y) : P y := by
  induction names generalizing dir with
  | nil =>
    rw [List.nil_append, walk_self htail] at h
    cases h
    exact hhere y hy
  | cons n rest ih =>
    rw [List.cons_append, walk] at h hy
    split at h
    · rw [if_pos ‹_›] at hy
      exact ih h hy
    rw [if_neg ‹_›] at hy
    split at h
    · rw [if_pos ‹_›] at hy
      exact ih h hy
    rw [if_neg ‹_›] at hy
    cases hl : tree (dir ++ [n]) with
    | none =>
      rw [hl] at hy
      exact absurd (Option.ite_none_right_eq_some.mp hy).1 (by simp [hns])
    | some e =>
      rw [hl] at h hy
      cases e with
      | directory => exact ih h hy
      | file => exact absurd (Option.ite_none_right_eq_some.mp hy).1 (by simp [hns])
      | link target =>
        dsimp only at h hy
        rw [if_neg (by simp)] at h
        rw [if_neg (by simp [hns])] at hy
        rw [← List.append_assoc] at h hy
        exact hjump _ _ _ h hy

/-- A path to a directory leads there in any tree that keeps the directories and the links. -/
theorem walk_stable (hkept : ∀ x e, tree x = some e → (∀ ino, e ≠ .file ino) → tree' x = some e)
    (hjump : ∀ dir names, jump dir names = some x → jump' dir names = some x)
    (hx : tree x = some .directory) (h : walk tree true jump dir names = some x) :
    walk tree' true jump' dir names = some x := by
  induction names generalizing dir with
  | nil => exact h
  | cons n rest ih =>
    rw [walk] at h ⊢
    split
    · rw [if_pos ‹_›] at h
      exact ih h
    rw [if_neg ‹_›] at h
    split
    · rw [if_pos ‹_›] at h
      exact ih h
    rw [if_neg ‹_›] at h
    cases hl : tree (dir ++ [n]) with
    | none =>
      rw [hl] at h
      obtain ⟨-, ⟨⟩⟩ := Option.ite_none_right_eq_some.mp h
      exact absurd (hl.symm.trans hx) (by simp)
    | some e =>
      rw [hl] at h
      cases e with
      | file =>
        obtain ⟨-, ⟨⟩⟩ := Option.ite_none_right_eq_some.mp h
        exact absurd (hl.symm.trans hx) (by simp)
      | directory =>
        rw [hkept _ _ hl (by simp)]
        exact ih h
      | link target =>
        rw [hkept _ _ hl (by simp)]
        dsimp only at h ⊢
        rw [if_neg (by simp)] at h ⊢
        exact hjump _ _ h

/-- On the way to a directory something is everywhere, in any tree that keeps the directories and
the links. -/
theorem walk_present (hkept : ∀ x e, tree x = some e → (∀ ino, e ≠ .file ino) → tree' x = some e)
    (hroot : tree [] = some .directory)
    (hup : ∀ x, tree x = some .directory → tree x.dropLast = some .directory)
    (hjump : ∀ dir names, tree dir = some .directory → jump dir (names ++ ns) = some x →
      jump' dir names = some y → tree' y ≠ none)
    (hx : tree x = some .directory) (hdir : tree dir = some .directory)
    (h : walk tree true jump dir (names ++ ns) = some x)
    (hy : walk tree' false jump' dir names = some y) : tree' y ≠ none := by
  induction names generalizing dir with
  | nil =>
    cases hy
    simp [hkept _ _ hdir]
  | cons n rest ih =>
    rw [List.cons_append, walk] at h
    rw [walk] at hy
    split at h
    · rw [if_pos ‹_›] at hy
      exact ih hdir h hy
    rw [if_neg ‹_›] at hy
    split at h
    · rw [if_pos ‹_›] at hy
      exact ih (hup _ hdir) h hy
    rw [if_neg ‹_›] at hy
    cases hl : tree (dir ++ [n]) with
    | none =>
      rw [hl] at h
      obtain ⟨-, ⟨⟩⟩ := Option.ite_none_right_eq_some.mp h
      exact absurd (hl.symm.trans hx) (by simp)
    | some e =>
      rw [hl] at h
      cases e with
      | file =>
        obtain ⟨-, ⟨⟩⟩ := Option.ite_none_right_eq_some.mp h
        exact absurd (hl.symm.trans hx) (by simp)
      | directory =>
        rw [hkept _ _ hl (by simp)] at hy
        exact ih hl h hy
      | link target =>
        have hl' := hkept _ _ hl (by simp)
        rw [hl'] at hy
        dsimp only at h hy
        rw [if_neg (by simp), ← List.append_assoc] at h
        split at hy
        · cases hy
          simp [hl']
        · refine hjump _ _ ?_ h hy
          split
          · exact hroot
          · exact hdir

/-- Names lead down through directories. -/
theorem walk_down (hnames : ∀ n ∈ names, n ≠ selfName ∧ n ≠ parentName)
    (hdirs : ∀ pre, pre <+: names → pre ≠ [] → pre ≠ names → tree (dir ++ pre) = some .directory)
    (hlast : follow = true → Plain (tree (dir ++ names))) :
    walk tree follow jump dir names = some (dir ++ names) := by
  induction names generalizing dir with
  | nil => rw [walk, List.append_nil]
  | cons n rest ih =>
    obtain ⟨⟨hself, hparent⟩, hrest⟩ := List.forall_mem_cons.mp hnames
    rw [walk, if_neg hself, if_neg hparent]
    by_cases hnil : rest = []
    · subst hnil
      cases hl : tree (dir ++ [n]) with
      | none => rfl
      | some e =>
        cases e with
        | file => rfl
        | directory => exact walk.eq_1 ..
        | link target =>
          cases follow with
          | false => rfl
          | true => exact absurd hl (hlast rfl target)
    · rw [hdirs [n] (by simp) (by simp) (by simpa using Ne.symm hnil)]
      have happ : ∀ pre, dir ++ n :: pre = dir ++ [n] ++ pre := by simp
      refine (ih hrest (fun pre hpre _ hne => ?_) fun h => ?_).trans
        (congrArg some (happ rest).symm)
      · rw [← happ]
        exact hdirs _ (List.cons_prefix_cons.mpr ⟨rfl, hpre⟩) (by simp) (by simpa using hne)
      · rw [← happ]
        exact hlast h

/-- Behind a path that leads to a directory names lead where they lead from there. -/
theorem walk_onto (htail : ∀ n ∈ tail, n = selfName) (hns : ns ≠ [])
    (hbase : tree base = some .directory)
    (hjump : ∀ dir names, jump dir (names ++ tail) = some base →
      jump' dir (names ++ ns) = some y)
    (hhere : walk tree follow jump' base ns = some y)
    (h : walk tree true jump dir (names ++ tail) = some base) :
    walk tree follow jump' dir (names ++ ns) = some y := by
  induction names generalizing dir with
  | nil =>
    rw [List.nil_append, walk_self htail] at h
    cases h
    exact hhere
  | cons n rest ih =>
    rw [List.cons_append, walk] at h ⊢
    split
    · rw [if_pos ‹_›] at h
      exact ih h
    rw [if_neg ‹_›] at h
    split
    · rw [if_pos ‹_›] at h
      exact ih h
    rw [if_neg ‹_›] at h
    cases hl : tree (dir ++ [n]) with
    | none =>
      rw [hl] at h
      obtain ⟨-, ⟨⟩⟩ := Option.ite_none_right_eq_some.mp h
      exact absurd (hl.symm.trans hbase) (by simp)
    | some e =>
      rw [hl] at h
      cases e with
      | file =>
        obtain ⟨-, ⟨⟩⟩ := Option.ite_none_right_eq_some.mp h
        exact absurd (hl.symm.trans hbase) (by simp)
      | directory => exact ih h
      | link target =>
        dsimp only at h ⊢
        rw [if_neg (by simp)] at h
        rw [if_neg (by simp [hns])]
        rw [← List.append_assoc] at h ⊢
        exact hjump _ _ h

/-- The first part of a path to a directory leads somewhere. -/
theorem walk_halfway (hx : tree x = some .directory)
    (hjump : ∀ dir names, jump dir (names ++ ns) = some x → ∃ y, jump' dir names = some y)
    (h : walk tree true jump dir (names ++ ns) = some x) :
    ∃ y, walk tree false jump' dir names = some y := by
  induction names generalizing dir with
  | nil => exact ⟨dir, rfl⟩
  | cons n rest ih =>
    rw [List.cons_append, walk] at h
    rw [walk]
    split
    · rw [if_pos ‹_›] at h
      exact ih h
    rw [if_neg ‹_›] at h
    split
    · rw [if_pos ‹_›] at h
      exact ih h
    rw [if_neg ‹_›] at h
    cases hl : tree (dir ++ [n]) with
    | none =>
      rw [hl] at h
      obtain ⟨-, ⟨⟩⟩ := Option.ite_none_right_eq_some.mp h
      exact absurd (hl.symm.trans hx) (by simp)
    | some e =>
      rw [hl] at h
      cases e with
      | file =>
        obtain ⟨-, ⟨⟩⟩ := Option.ite_none_right_eq_some.mp h
        exact absurd (hl.symm.trans hx) (by simp)
      | directory => exact ih h
      | link target =>
        dsimp only at h ⊢
        rw [if_neg (by simp), ← List.append_assoc] at h
        split
        · exact ⟨_, rfl⟩
        · exact hjump _ _ h

theorem resolve_down {links : Nat} (hnames : ∀ n ∈ names, n ≠ selfName ∧ n ≠ parentName)
    (hdirs : ∀ pre, pre <+: names → pre ≠ [] → pre ≠ names → tree (dir ++ pre) = some .directory)
    (hlast : follow = true → Plain (tree (dir ++ names))) :
    resolve tree follow links dir names = some (dir ++ names) := by
  cases links <;> exact walk_down hnames hdirs hlast

theorem resolve_onto {links : Nat} (htail : ∀ n ∈ tail, n = selfName) (hns : ns ≠ [])
    (hbase : tree base = some .directory)
    (hhere : ∀ links, resolve tree follow links base ns = some y)
    (h : resolve tree true links dir (names ++ tail) = some base) :
    resolve tree follow links dir (names ++ ns) = some y := by
  induction links generalizing dir names with
  | zero => exact walk_onto htail hns hbase (by simp) (hhere 0) h
  | succ links ih => exact walk_onto htail hns hbase (fun _ _ h => ih h) (hhere (links + 1)) h

theorem resolve_halfway {links : Nat} (hx : tree x = some .directory)
    (h : resolve tree true links dir (names ++ ns) = some x) :
    ∃ y, resolve tree false links dir names = some y := by
  induction links generalizing dir names with
  | zero => exact walk_halfway hx (by simp) h
  | succ links ih => exact walk_halfway hx (fun _ _ h => ih h) h

theorem resolve_below {links : Nat} {m : List Name} (hway : way [] ns = some m)
    (hplain : Passes Plain tree base [] ns) (hlast : follow = true → Plain (tree (base ++ m)))
    (hbase : tree base = some .directory) (h : resolve tree follow links base ns = some y) :
    y = base ++ m ∧ Passes (· = some .directory) tree base [] ns := by
  have hdir : ∀ r, r <+: [] → tree (base ++ r) = some .directory := by
    intro r hr
    rw [List.prefix_nil.mp hr, List.append_nil]
    exact hbase
  rw [← List.append_nil base] at h
  cases links <;> exact walk_below hway hplain hlast hdir h

theorem resolve_into {P : Location → Prop} {links : Nat} (htail : ∀ n ∈ tail, n = selfName)
    (hns : ns ≠ []) (hhere : ∀ links y, resolve tree follow links base ns = some y → P y)
    (h : resolve tree true links dir (names ++ tail) = some base)
    (hy : resolve tree follow links dir (names ++ ns) = some y) : P y := by
  induction links generalizing dir names y with
  | zero => exact walk_into htail hns (by simp) (hhere 0) h hy
  | succ links ih => exact walk_into htail hns (fun _ _ _ h hy => ih h hy) (hhere (links + 1)) h hy

theorem resolve_stable {links : Nat}
    (hkept : ∀ x e, tree x = some e → (∀ ino, e ≠ .file ino) → tree' x = some e)
    (hx : tree x = some .directory) (h : resolve tree true links dir names = some x) :
    resolve tree' true links dir names = some x := by
  induction links generalizing dir names with
  | zero => exact walk_stable hkept (by simp) hx h
  | succ links ih => exact walk_stable hkept (fun _ _ h => ih h) hx h

theorem resolve_present {links : Nat}
    (hkept : ∀ x e, tree x = some e → (∀ ino, e ≠ .file ino) → tree' x = some e)
    (hroot : tree [] = some .directory)
    (hup : ∀ x, tree x = some .directory → tree x.dropLast = some .directory)
    (hx : tree x = some .directory) (hdir : tree dir = some .directory)
    (h : resolve tree true links dir (names ++ ns) = some x)
    (hy : resolve tree' false links dir names = some y) : tree' y ≠ none := by
  induction links generalizing dir names y with
  | zero => exact walk_present hkept hroot hup (by simp) hx hdir h hy
  | succ links ih => exact walk_present hkept hroot hup (fun _ _ hd h hy => ih hd h hy) hx hdir h hy

end Walks

/-! ## Paths -/

/-- The root and the directories lead down to every directory, and to the working directory. -/
structure Rooted (fs : FileSystem) : Prop where
  cwd : fs.lookup fs.cwd = some .directory
  parent : ∀ x, fs.lookup x = some .directory → fs.lookup x.dropLast = some .directory

/-- `fs` has all the directories and links of `fs₀`. -/
structure Upholds (fs₀ fs : FileSystem) : Prop where
  cwd : fs.cwd = fs₀.cwd
  keeps : ∀ x e, fs₀.lookup x = some e → (∀ ino, e ≠ .file ino) → fs.lookup x = some e

section Paths

variable {fs₀ fs : FileSystem} {path root sub : Bytes} {base x : Location} {ns m : List Name}

theorem Upholds.refl (fs : FileSystem) : Upholds fs fs := ⟨rfl, fun _ _ h _ => h⟩

theorem Upholds.locate (h : Upholds fs₀ fs) (hpath : fs₀.locate true path = some x)
    (hx : fs₀.lookup x = some .directory) : fs.locate true path = some x := by
  unfold FileSystem.locate at hpath ⊢
  split at hpath
  · cases hpath
  · rw [if_neg ‹_›, h.cwd]
    exact resolve_stable h.keeps hx hpath

/-- Objects other than directories and links may come and go, and new ones come. -/
theorem Upholds.put {e : Option Entry} (h : Upholds fs₀ fs)
    (hold : ∀ e, fs₀.lookup x = some e → ∃ ino, e = .file ino) : Upholds fs₀ (fs.put x e) := by
  refine ⟨h.cwd, fun y e' hy hne => ?_⟩
  rw [lookup_put_of_ne, h.keeps y e' hy hne]
  rintro rfl
  obtain ⟨ino, rfl⟩ := hold e' hy
  exact hne ino rfl

theorem Upholds.congr {fs' : FileSystem} (h : Upholds fs₀ fs) (hentry : fs'.entry = fs.entry)
    (hcwd : fs'.cwd = fs.cwd) : Upholds fs₀ fs' := by
  refine ⟨hcwd.trans h.cwd, fun y e hy hne => ?_⟩
  rw [FileSystem.lookup, hentry]
  exact h.keeps y e hy hne

theorem tail_self (path : Bytes) : ∀ n ∈ if path.getLast? = some pathSep then [selfName] else [],
    n = selfName := by
  intro n hn
  split at hn <;> simp_all

theorem pathNames_ne_nil (h : path ≠ []) : pathNames path ≠ [] := by
  intro hnil
  obtain ⟨hcomp, hlast⟩ := List.append_eq_nil_iff.mp hnil
  have hsep := (eq_sep_of_componentsFrom hcomp).2 _ (List.getLast_mem h)
  rw [if_pos (by rw [List.getLast?_eq_some_getLast h, hsep])] at hlast
  cases hlast

/-- What a path behind `path` leads to. -/
theorem locate_behind {follow : Bool} (hcomp : components pathSep root = components pathSep path)
    (hhead : (root ++ [pathSep]).head? = path.head?) :
    fs.locate follow (root ++ pathSep :: sub) = resolve fs.lookup follow maxLinks
      (if path.head? = some pathSep then [] else fs.cwd)
      (components pathSep path ++ pathNames (pathSep :: sub)) := by
  have hnames : pathNames (root ++ pathSep :: sub) =
      components pathSep path ++ pathNames (pathSep :: sub) := by
    have hsub : components pathSep (pathSep :: sub) = components pathSep sub := by
      simp [components, componentsFrom]
    rw [pathNames, pathNames, components_sep, hcomp, hsub, List.append_assoc,
      List.getLast?_append_of_ne_nil _ (by simp)]
  have hstart : (root ++ pathSep :: sub).head? = path.head? := by
    rw [← hhead]
    cases root <;> simp
  rw [locate, if_neg (by simp), hstart, hnames]

/-- A path behind one that leads to a directory leads where its own way ends. -/
theorem locate_into {follow : Bool} (hbase : fs.locate true path = some base)
    (hdir : fs.lookup base = some .directory)
    (hcomp : components pathSep root = components pathSep path)
    (hhead : (root ++ [pathSep]).head? = path.head?)
    (hway : way [] (pathNames (pathSep :: sub)) = some m)
    (hplain : Passes Plain fs.lookup base [] (pathNames (pathSep :: sub)))
    (hlast : follow = true → Plain (fs.lookup (base ++ m)))
    (h : fs.locate follow (root ++ pathSep :: sub) = some x) :
    x = base ++ m ∧
      Passes (· = some .directory) fs.lookup base [] (pathNames (pathSep :: sub)) := by
  rw [locate_behind hcomp hhead] at h
  unfold locate at hbase
  split at hbase
  · cases hbase
  exact resolve_into (tail_self path) (pathNames_ne_nil (by simp))
    (fun _ _ hy => resolve_below hway hplain hlast hdir hy) hbase h

/-- A path down from a directory leads there, through directories. -/
theorem locate_down {follow : Bool} (hbase : fs.locate true path = some base)
    (hdir : fs.lookup base = some .directory)
    (hcomp : components pathSep root = components pathSep path)
    (hhead : (root ++ [pathSep]).head? = path.head?)
    (hns : pathNames (pathSep :: sub) = ns) (hnames : ∀ n ∈ ns, n ≠ selfName ∧ n ≠ parentName)
    (hdirs : ∀ pre, pre <+: ns → pre ≠ ns → fs.lookup (base ++ pre) = some .directory)
    (hlast : follow = true → Plain (fs.lookup (base ++ ns))) :
    fs.locate follow (root ++ pathSep :: sub) = some (base ++ ns) := by
  rw [locate_behind hcomp hhead, hns]
  unfold locate at hbase
  split at hbase
  · cases hbase
  · exact resolve_onto (tail_self path) (hns ▸ pathNames_ne_nil (by simp)) hdir
      (fun _ => resolve_down hnames (fun pre hpre _ => hdirs pre hpre) hlast) hbase

/-- So it does for `mkdir`. -/
theorem locateDir_down (hbase : fs.locate true path = some base)
    (hdir : fs.lookup base = some .directory)
    (hcomp : components pathSep root = components pathSep path ++ ns)
    (hhead : root.head? = path.head?) (hns : ns ≠ [])
    (hnames : ∀ n ∈ ns, n ≠ selfName ∧ n ≠ parentName)
    (hdirs : ∀ pre, pre <+: ns → pre ≠ ns → fs.lookup (base ++ pre) = some .directory) :
    fs.locateDir root = some (base ++ ns) := by
  unfold locateDir
  unfold locate at hbase
  split at hbase
  · cases hbase
  rename_i hne
  have hroot : root ≠ [] := by
    rintro rfl
    cases path with
    | nil => exact hne rfl
    | cons => cases hhead
  rw [if_neg hroot, hhead, hcomp]
  exact resolve_onto (tail_self path) hns hdir
    (fun _ => resolve_down hnames (fun pre hpre _ => hdirs pre hpre) (by simp)) hbase

/-- The first part of a path to a directory leads somewhere. -/
theorem locateDir_halfway (hbase : fs.locate true path = some base)
    (hdir : fs.lookup base = some .directory)
    (hcomp : components pathSep root ++ ns = components pathSep path)
    (hhead : root.head? = path.head?) : ∃ x, fs.locateDir root = some x := by
  unfold locateDir
  unfold locate at hbase
  split at hbase
  · cases hbase
  rename_i hne
  have hroot : root ≠ [] := by
    rintro rfl
    cases path with
    | nil => exact hne rfl
    | cons => cases hhead
  rw [if_neg hroot, hhead]
  rw [pathNames, ← hcomp, List.append_assoc] at hbase
  exact resolve_halfway hdir hbase

/-- Where a directory is made behind a path, and that only directories are passed. -/
theorem locateDir_way (hbase : fs.locate true path = some base)
    (hdir : fs.lookup base = some .directory)
    (hcomp : components pathSep root = components pathSep path ++ ns)
    (hhead : root.head? = path.head?) (hns : ns ≠ []) (hway : way [] ns = some m)
    (hplain : Passes Plain fs.lookup base [] ns) (h : fs.locateDir root = some x) :
    x = base ++ m ∧ Passes (· = some .directory) fs.lookup base [] ns := by
  unfold locateDir at h
  unfold locate at hbase
  split at hbase
  · cases hbase
  split at h
  · cases h
  rw [hhead, hcomp] at h
  exact resolve_into (tail_self path) hns
    (fun _ _ hy => resolve_below hway hplain (by simp) hdir hy) hbase h

theorem locateDir_into (hbase : fs.locate true path = some base)
    (hdir : fs.lookup base = some .directory)
    (hcomp : components pathSep root = components pathSep path ++ ns)
    (hhead : root.head? = path.head?) (hns : ns ≠ []) (hway : way [] ns = some m)
    (hplain : Passes Plain fs.lookup base [] ns) (h : fs.locateDir root = some x) :
    x = base ++ m := (locateDir_way hbase hdir hcomp hhead hns hway hplain h).1

/-- On the way to a directory that was there there is always something. -/
theorem locateDir_present (hfs : Upholds fs₀ fs) (hrooted : Rooted fs₀)
    (hbase : fs₀.locate true path = some base) (hdir : fs₀.lookup base = some .directory)
    (hcomp : components pathSep root ++ ns = components pathSep path)
    (hhead : root.head? = path.head?) (h : fs.locateDir root = some x) : fs.lookup x ≠ none := by
  unfold locateDir at h
  unfold locate at hbase
  split at hbase
  · cases hbase
  split at h
  · cases h
  rw [hhead, hfs.cwd] at h
  rw [pathNames, ← hcomp, List.append_assoc] at hbase
  refine resolve_present hfs.keeps (lookup_nil _) hrooted.parent hdir ?_ hbase h
  split
  · exact lookup_nil _
  · exact hrooted.cwd

end Paths

end FileSystem

end ScpRdma.Foundations

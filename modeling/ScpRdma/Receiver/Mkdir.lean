import ScpRdma.Receiver.FileCalls

/-!
# Making directories

`scp_mkdir_recursive` with its buffer, and what it makes of a file system.

## Main definitions

* `scpMkdirRecursiveAt` — the function, which cuts the path in place.
* `MakesDirectory` — what it should do.
* `Passable` — when it does.
-/
namespace ScpRdma.Receiver
open Foundations

/-- A path that fits its buffer, as a C string. -/
structure PathString where
  bytes : Bytes
  noNul : NoNul bytes
  fits : bytes.length < scpMaxPathLen

/-- What stands in the buffer before. -/
abbrev Stack := { bs : Bytes // bs.length = scpMaxPathLen }

/-! ## The code -/

/-- `snprintf(tmp, sizeof(tmp), "%s", path)` -/
def copyPath (stack : Stack) (path : Bytes) : Bytes :=
  let text := snprintf scpMaxPathLen path
  text ++ 0 :: stack.val.drop (text.length + 1)

/-- `mkdir(tmp, 0755) && errno != EEXIST` -/
def mkdirFails (tmp : Bytes) : Files Bool := do
  match ← Files.ask (.mkdir (cString tmp)) with
  | .error => return true
  | .created | .exists _ => return false

/-- The loop over `p` and the call behind it, when `left` bytes of `tmp` are left from `p` on. -/
def cutAtSlashes : Nat → Bytes → Nat → Files (Option Int)
  | 0, _, _ => return none
  | left + 1, tmp, p =>
    match tmp[p]? with
    | none => return none
    | some c => do
      if c = 0 then
        if ← mkdirFails tmp then
          return some (-1)
        return some 0
      else if c = slash then
        let cut := tmp.set p 0
        if ← mkdirFails cut then
          return some (-1)
        cutAtSlashes left (cut.set p slash) (p + 1)
      else
        cutAtSlashes left tmp (p + 1)

/-- `scp_mkdir_recursive`; `none` is an access outside of `tmp`. The index is a `size_t`. -/
def scpMkdirRecursiveAt (stack : Stack) (path : Bytes) : Files (Option Int) := do
  let tmp := copyPath stack path
  let last := ((cString tmp).length + 2 ^ 64 - 1) % 2 ^ 64
  match tmp[last]? with
  | none => return none
  | some c =>
    let tmp := if c = slash then tmp.set last 0 else tmp
    if ← mkdirFails tmp then
      cutAtSlashes (tmp.length - 1) tmp 1
    else
      return some 0

/-! ## What it should do -/

/-- The file calls where nothing fails without need. -/
def needful : Semantics fileSignature FileSystem where
  allow o fs r := FileCall.allow o fs r ∧ match o, r with
    | .mkdir path, .error => fs.locateDir path = none
    | _, _ => True
  next := FileCall.next

/-- What a `mkdir` leaves that does not fail, or fails with `EEXIST`. -/
def mkdirPast (fs : FileSystem) (path : Path) : Option FileSystem :=
  (fs.locateDir path).map fun loc =>
    if fs.lookup loc = none then fs.put loc (some .directory) else fs

def mkdirsPast : FileSystem → List Path → Option FileSystem
  | fs, [] => some fs
  | fs, path :: rest => (mkdirPast fs path).bind (mkdirsPast · rest)

/-- Each of the paths in turn names a directory, once it is made if it is missing. -/
inductive Creatable : FileSystem → List Path → Prop where
  | nil {fs} : Creatable fs []
  | cons {fs fs' path rest} : mkdirPast fs path = some fs' → fs'.Directory path →
      Creatable fs' rest → Creatable fs (path :: rest)

/-- New are only directories, and each of them is where one of the paths leads. -/
structure OnlyMakes (paths : List Path) (fs fs' : FileSystem) : Prop where
  entry : ∀ x, fs'.entry x = fs.entry x ∨ fs.entry x = none ∧ fs'.entry x = some .directory ∧
    ∃ p ∈ paths, fs'.locateDir p = some x
  content : fs'.content = fs.content
  descriptor : fs'.descriptor = fs.descriptor

/-- The ancestors of a path, and the path. -/
def withAncestors (path : Path) : List Path := slashPrefixes path ++ [path]

/-- `scp_mkdir_recursive` stays in its buffer, returns 0 only for a directory, and does so if that
can be had. It makes nothing but the path and its ancestors. -/
structure MakesDirectory (path : Path) (fs : FileSystem) : Prop where
  bounds : ∀ stack r fs', Program.Outcome fileCalls (scpMkdirRecursiveAt stack path) fs r fs' →
    r ≠ none
  directory : ∀ stack fs',
    Program.Outcome fileCalls (scpMkdirRecursiveAt stack path) fs (some 0) fs' → fs'.Directory path
  succeeds : Creatable fs (withAncestors path) → ∀ stack r fs',
    Program.Outcome needful (scpMkdirRecursiveAt stack path) fs r fs' → r = some 0
  only : ∀ stack r fs', Program.Outcome fileCalls (scpMkdirRecursiveAt stack path) fs r fs' →
    OnlyMakes (withAncestors path) fs fs'

/-- Where the path leads nothing stands, or the path names a directory. -/
def Unobstructed (path : Path) (fs : FileSystem) : Prop :=
  ∀ loc, fs.locateDir (mkdirTarget path) = some loc → fs.lookup loc ≠ none → fs.Directory path

/-- The path is neither empty nor `/`, and unobstructed both now and when its missing ancestors
are made. -/
structure Passable (path : Path) (fs : FileSystem) : Prop where
  nonempty : path ≠ []
  notRoot : path ≠ [slash]
  before : Unobstructed path fs
  after : ∀ fs', mkdirsPast fs (slashPrefixes (mkdirTarget path)) = some fs' → Unobstructed path fs'

/-! ## The buffer -/

variable {stack : Stack} {path s rest : Bytes} {p left : Nat}

/-- The slashes of `s` from `p` on, and what stands before each. -/
def cutsFrom (s : Bytes) (p : Nat) : List Path :=
  ((List.range' p (s.length - p)).filter fun i => s[i]? = some slash).map s.take

theorem slashPrefixes_eq (s : Bytes) : slashPrefixes s = cutsFrom s 1 := by
  unfold slashPrefixes cutsFrom
  cases s with
  | nil => rfl
  | cons c s =>
    rw [List.length_cons, List.range_succ_eq_map, List.range'_eq_map_range, Nat.add_sub_cancel,
      List.filter_cons_of_neg (by simp)]
    congr 1
    rw [List.filter_map, List.filter_map]
    simp [Function.comp_def, Nat.add_comm 1]

theorem cutsFrom_slash (h : s[p]? = some slash) :
    cutsFrom s p = s.take p :: cutsFrom s (p + 1) := by
  obtain ⟨hp, -⟩ := List.getElem?_eq_some_iff.mp h
  obtain ⟨m, hm⟩ : ∃ m, s.length - p = m + 1 := ⟨s.length - p - 1, by omega⟩
  rw [cutsFrom, cutsFrom, hm, List.range'_succ, List.filter_cons_of_pos (by simpa using h),
    List.map_cons, show s.length - (p + 1) = m by omega]

theorem cutsFrom_other (hp : p < s.length) (h : s[p]? ≠ some slash) :
    cutsFrom s p = cutsFrom s (p + 1) := by
  obtain ⟨m, hm⟩ : ∃ m, s.length - p = m + 1 := ⟨s.length - p - 1, by omega⟩
  rw [cutsFrom, cutsFrom, hm, List.range'_succ, List.filter_cons_of_neg (by simpa using h),
    show s.length - (p + 1) = m by omega]

theorem cutsFrom_end : cutsFrom s s.length = [] := by simp [cutsFrom]

/-- The loop makes the calls of `mkdirAll`, and stays in the string. -/
theorem cutAtSlashes_eq (hs : NoNul s) (hp : p ≤ s.length) (hleft : s.length - p < left) :
    cutAtSlashes left (s ++ 0 :: rest) p =
      (mkdirAll (cutsFrom s p ++ [s])).bind fun r => .done (some r) := by
  induction left generalizing p with
  | zero => omega
  | succ left ih =>
    rw [cutAtSlashes]
    rcases hp.lt_or_eq with hlt | rfl
    · have hc : (s ++ 0 :: rest)[p]? = some s[p] := by
        rw [List.getElem?_append_left hlt, List.getElem?_eq_getElem hlt]
      have hne : s[p] ≠ 0 := hs _ (List.getElem_mem hlt)
      rw [hc]
      dsimp only
      rw [if_neg hne]
      split
      · rename_i hslash
        have hget : s[p]? = some slash := by rw [List.getElem?_eq_getElem hlt, hslash]
        have hcut : cString ((s ++ 0 :: rest).set p 0) = s.take p := by
          rw [List.set_append_left _ _ hlt, List.set_eq_take_append_cons_drop, if_pos hlt,
            List.append_assoc, List.cons_append]
          exact cString_append_zero fun b hb => hs b (List.mem_of_mem_take hb)
        have hback : ((s ++ 0 :: rest).set p 0).set p slash = s ++ 0 :: rest := by
          rw [List.set_set, List.set_append_left _ _ hlt, ← hslash, List.set_getElem_self]
        rw [cutsFrom_slash hget, hback, ih hlt (by omega), mkdirFails, hcut]
        refine congrArg (Program.op _) (funext fun r => ?_)
        cases r <;> rfl
      · rw [cutsFrom_other hlt (by rw [List.getElem?_eq_getElem hlt]; simpa), ih hlt (by omega)]
    · have hzero : (s ++ 0 :: rest)[s.length]? = some 0 := by
        rw [List.getElem?_append_right le_rfl, Nat.sub_self]
        rfl
      rw [hzero]
      dsimp only
      rw [if_pos rfl, cutsFrom_end, mkdirFails, cString_append_zero hs]
      refine congrArg (Program.op _) (funext fun r => ?_)
      cases r <;> rfl

/-- What `scp_mkdir_recursive` does after the slash at the end is cut off. -/
theorem mkdirTmp_eq (hs : NoNul s) (hempty : s = [] → rest.head? = some 0)
    (hleft : s.length ≤ left) (hpos : 0 < left) : (do
      if ← mkdirFails (s ++ 0 :: rest) then
        cutAtSlashes left (s ++ 0 :: rest) 1
      else
        return some 0) = (do
      match ← Files.ask (.mkdir s) with
      | .created | .exists _ => return (0 : Int)
      | .error => mkdirAll (slashPrefixes s ++ [s])).bind fun r => .done (some r) := by
  have hloop : cutAtSlashes left (s ++ 0 :: rest) 1 =
      (mkdirAll (slashPrefixes s ++ [s])).bind fun r => .done (some r) := by
    rw [slashPrefixes_eq]
    rcases Nat.eq_zero_or_pos s.length with hzero | hlen
    · obtain rfl := List.length_eq_zero_iff.mp hzero
      obtain ⟨left, rfl⟩ := Nat.exists_eq_add_one.mpr hpos
      obtain ⟨rest, rfl⟩ := List.head?_eq_some_iff.mp (hempty rfl)
      refine congrArg (Program.op _) (funext fun r => ?_)
      cases r <;> rfl
    · exact cutAtSlashes_eq hs (by omega) (by omega)
  rw [mkdirFails, cString_append_zero hs]
  refine congrArg (Program.op _) (funext fun r => ?_)
  cases r with
  | error => exact hloop
  | created | «exists» => rfl

theorem length_copyPath (stack : Stack) (h : path.length < scpMaxPathLen) :
    (copyPath stack path).length = scpMaxPathLen := by
  rw [copyPath, snprintf_eq h, List.length_append, List.length_cons, List.length_drop,
    stack.property]
  omega

/-- All indices are inside of the buffer, unless the path is empty. -/
theorem scpMkdirRecursiveAt_eq (hnul : NoNul path) (hfits : path.length < scpMaxPathLen)
    (hne : path ≠ []) : scpMkdirRecursiveAt stack path =
      (scpMkdirRecursive path).bind fun r => .done (some r) := by
  obtain ⟨s, c, rfl⟩ : ∃ s c, path = s ++ [c] :=
    ⟨_, _, (List.dropLast_append_getLast hne).symm⟩
  have hs : NoNul s := fun b hb => hnul b (List.mem_append_left _ hb)
  have hcopy : copyPath stack (s ++ [c]) = s ++ c :: 0 :: stack.val.drop (s.length + 2) := by
    rw [copyPath, snprintf_eq hfits, List.length_append, List.append_assoc]
    rfl
  have hlen : (s ++ [c]).length = s.length + 1 := List.length_append
  have hstring : cString (s ++ c :: 0 :: stack.val.drop (s.length + 2)) = s ++ [c] := by
    rw [List.append_cons]
    exact cString_append_zero hnul
  have hlast : ((s ++ [c]).length + 2 ^ 64 - 1) % 2 ^ 64 = s.length := by
    rw [scpMaxPathLen] at hfits
    omega
  have hc : (s ++ c :: 0 :: stack.val.drop (s.length + 2))[s.length]? = some c := by
    rw [List.getElem?_append_right le_rfl, Nat.sub_self]
    rfl
  have hsize := length_copyPath stack hfits
  rw [hcopy] at hsize
  unfold scpMkdirRecursiveAt scpMkdirRecursive
  rw [hcopy]
  dsimp only
  rw [hstring, hlast, hc]
  dsimp only
  split
  · rename_i hslash
    have htarget : mkdirTarget (s ++ [c]) = s := by
      simp only [mkdirTarget, snprintf_eq hfits]
      simp [hslash]
    have hcut : (s ++ c :: 0 :: stack.val.drop (s.length + 2)).set s.length 0 =
        s ++ 0 :: 0 :: stack.val.drop (s.length + 2) := by
      rw [List.set_append_right _ _ le_rfl, Nat.sub_self]
      rfl
    rw [htarget, hcut]
    refine mkdirTmp_eq hs (fun _ => rfl) ?_ ?_ <;> rw [← hcut, List.length_set, hsize]
    · omega
    · decide
  · rename_i hslash
    have htarget : mkdirTarget (s ++ [c]) = s ++ [c] := by
      simp only [mkdirTarget, snprintf_eq hfits]
      simp [hslash]
    rw [htarget, List.append_cons]
    refine mkdirTmp_eq hnul (by simp) ?_ ?_ <;> rw [← List.append_cons, hsize]
    · omega
    · decide

/-! ## The calls -/

variable {fs fs' fs'' : FileSystem} {paths ps : List Path} {loc : Location}

theorem mkdirsPast_append (ps qs : List Path) (fs : FileSystem) :
    mkdirsPast fs (ps ++ qs) = (mkdirsPast fs ps).bind (mkdirsPast · qs) := by
  induction ps generalizing fs with
  | nil => rfl
  | cons p ps ih =>
    rw [List.cons_append, mkdirsPast, mkdirsPast, Option.bind_assoc]
    exact congrArg _ (funext fun fs' => ih fs')

/-- What `mkdir` leaves if it does not fail, or fails with `EEXIST`. -/
theorem mkdirPast_of_answer {r : MkdirResult} (hr : FileCall.allow (.mkdir path) fs r)
    (hne : r ≠ .error) : mkdirPast fs path = some (FileCall.next (.mkdir path) fs r) := by
  obtain ⟨loc, hloc, rfl⟩ := hr.resolve_left hne
  rw [mkdirPast, hloc, Option.map_some]
  cases hl : fs.lookup loc with
  | none =>
    rw [if_pos rfl, mkdirAnswer]
    exact congrArg some (FileCall.next_mkdir hloc).symm
  | some e =>
    rw [if_neg (by simp)]
    rfl

theorem mkdirPast_answer (h : mkdirPast fs path = some fs') :
    ∃ r, FileCall.allow (.mkdir path) fs r ∧ r ≠ .error ∧
      FileCall.next (.mkdir path) fs r = fs' := by
  obtain ⟨loc, hloc, rfl⟩ := Option.map_eq_some_iff.mp h
  refine ⟨mkdirAnswer (fs.lookup loc), .inr ⟨loc, hloc, rfl⟩, ?_, ?_⟩
  · cases fs.lookup loc <;> exact nofun
  · cases hl : fs.lookup loc with
    | none => rw [if_pos rfl, mkdirAnswer, FileCall.next_mkdir hloc]
    | some e => rfl

theorem OnlyMakes.refl (paths : List Path) (fs : FileSystem) : OnlyMakes paths fs fs :=
  ⟨fun _ => .inl rfl, rfl, rfl⟩

theorem OnlyMakes.step (h : OnlyMakes paths fs fs') (hp : path ∈ paths)
    (hpast : mkdirPast fs' path = some fs'') : OnlyMakes paths fs fs'' := by
  obtain ⟨loc, hloc, rfl⟩ := Option.map_eq_some_iff.mp hpast
  split
  swap
  · exact h
  rename_i hnone
  have hfree := (FileSystem.entry_of_lookup_none hnone).2
  refine ⟨fun x => ?_, h.content, h.descriptor⟩
  by_cases hx : x = loc
  · right
    rw [hx]
    refine ⟨?_, FileSystem.entry_put_self .., path, hp, FileSystem.locateDir_put hnone hloc⟩
    rcases h.entry loc with hsame | ⟨hno, -⟩
    · exact hsame ▸ hfree
    · exact hno
  · rw [FileSystem.entry_put_of_ne hx]
    rcases h.entry x with hsame | ⟨hno, hdir, p, hp, hlead⟩
    · exact .inl hsame
    · exact .inr ⟨hno, hdir, p, hp, FileSystem.locateDir_put hnone hlead⟩

/-- What the calls leave, and that 0 means that none of them failed otherwise. -/
theorem mkdirAll_ensures {start : FileSystem} (hps : ∀ p ∈ ps, p ∈ paths)
    (h : OnlyMakes paths start fs) : Program.Ensures fileCalls (mkdirAll ps) (fun r fs' =>
      OnlyMakes paths start fs' ∧ (r = 0 → mkdirsPast fs ps = some fs')) fs := by
  induction ps generalizing fs with
  | nil => exact ⟨h, fun _ => rfl⟩
  | cons p ps ih =>
    rw [List.forall_mem_cons] at hps
    have hpast : ∀ r, FileCall.allow (.mkdir p) fs r → r ≠ .error →
        Program.Ensures fileCalls (mkdirAll ps) (fun r fs' => OnlyMakes paths start fs' ∧
          (r = 0 → mkdirsPast fs (p :: ps) = some fs')) (FileCall.next (.mkdir p) fs r) := by
      intro r hr hne
      have hp := mkdirPast_of_answer hr hne
      refine (ih hps.2 (h.step hps.1 hp)).mono fun r fs' hend => ⟨hend.1, fun h0 => ?_⟩
      rw [mkdirsPast, hp, Option.bind_some, hend.2 h0]
    rintro (_ | isDir | _) hr
    · exact hpast _ hr nofun
    · exact hpast _ hr nofun
    · exact ⟨h, nofun⟩

/-- Calls that need not fail may all succeed. -/
theorem mkdirAll_outcome (h : mkdirsPast fs ps = some fs') :
    Program.Outcome fileCalls (mkdirAll ps) fs 0 fs' := by
  induction ps generalizing fs with
  | nil =>
    cases h
    exact .done
  | cons p ps ih =>
    obtain ⟨fs₁, hp, hps⟩ := Option.bind_eq_some_iff.mp h
    obtain ⟨r, hr, hne, rfl⟩ := mkdirPast_answer hp
    refine .op r hr ?_
    cases r with
    | error => exact absurd rfl hne
    | created | «exists» => exact ih hps

/-- Where each call can succeed and none fails without need, the result is 0. -/
theorem mkdirAll_succeeds (h : Creatable fs ps) :
    Program.Ensures needful (mkdirAll ps) (fun r _ => r = 0) fs := by
  induction h with
  | nil => rfl
  | @cons fs fs' p rest hpast hdir _ ih =>
    rintro (_ | isDir | _) hr
    · rw [mkdirPast_of_answer hr.1 nofun] at hpast
      cases hpast
      exact ih
    · rw [mkdirPast_of_answer hr.1 nofun] at hpast
      cases hpast
      exact ih
    · have hnone : fs.locateDir p = none := hr.2
      rw [mkdirPast, hnone] at hpast
      cases hpast

/-! ## The function -/

theorem mkdirTarget_eq (hfits : path.length < scpMaxPathLen) (hne : path ≠ [])
    (hroot : path ≠ [slash]) : mkdirTarget path ≠ [] ∧
      ∃ tail, (tail = [] ∨ tail = [pathSep]) ∧ path = mkdirTarget path ++ tail := by
  unfold mkdirTarget
  dsimp only
  rw [snprintf_eq hfits]
  split
  · rename_i hlast
    obtain ⟨s, rfl⟩ := List.getLast?_eq_some_iff.mp hlast
    rw [List.dropLast_concat]
    exact ⟨fun h => hroot (by rw [h]; rfl), [pathSep], .inr rfl, rfl⟩
  · exact ⟨hne, [], .inl rfl, (List.append_nil _).symm⟩

theorem slashPrefixes_concat (hne : s ≠ []) :
    slashPrefixes (s ++ [slash]) = slashPrefixes s ++ [s] := by
  unfold slashPrefixes
  rw [List.length_append, List.length_singleton, List.range_succ, List.filter_append,
    List.map_append]
  congr 1
  · have hfilter : (List.range s.length).filter (fun i => i ≠ 0 ∧ (s ++ [slash])[i]? = some slash) =
        (List.range s.length).filter fun i => i ≠ 0 ∧ s[i]? = some slash := by
      refine List.filter_congr fun i hi => ?_
      rw [List.getElem?_append_left (List.mem_range.mp hi)]
    rw [hfilter]
    refine List.map_congr_left fun i hi => ?_
    have hlt := List.mem_range.mp (List.mem_of_mem_filter hi)
    exact List.take_append_of_le_length hlt.le
  · simp [hne]

/-- The calls are for the path and its ancestors. -/
theorem withAncestors_target (hfits : path.length < scpMaxPathLen) (hne : path ≠ [])
    (hroot : path ≠ [slash]) : withAncestors (mkdirTarget path) <+: withAncestors path := by
  obtain ⟨htarget, tail, rfl | rfl, hpath⟩ := mkdirTarget_eq hfits hne hroot
  · rw [List.append_nil] at hpath
    rw [← hpath]
  · refine ⟨[path], ?_⟩
    have hprefixes :
        slashPrefixes path = slashPrefixes (mkdirTarget path) ++ [mkdirTarget path] := by
      conv_lhs => rw [hpath]
      exact slashPrefixes_concat htarget
    rw [withAncestors, withAncestors, hprefixes]

theorem OnlyMakes.mono {qs : List Path} (h : OnlyMakes ps fs fs') (hqs : ps ⊆ qs) :
    OnlyMakes qs fs fs' := by
  refine ⟨fun x => (h.entry x).imp id fun hx => ?_, h.content, h.descriptor⟩
  obtain ⟨hno, hdir, p, hp, hlead⟩ := hx
  exact ⟨hno, hdir, p, hqs hp, hlead⟩

theorem Creatable.of_prefix {qs : List Path} (h : Creatable fs qs) (hps : ps <+: qs) :
    Creatable fs ps := by
  obtain ⟨rest, rfl⟩ := hps
  induction ps generalizing fs with
  | nil => exact .nil
  | cons p ps ih =>
    cases h with
    | cons hpast hdir hrest => exact .cons hpast hdir (ih hrest)

theorem scpMkdirRecursive_ensures (path : Path) (fs : FileSystem) :
    Program.Ensures fileCalls (scpMkdirRecursive path) (fun r fs' =>
      OnlyMakes (withAncestors (mkdirTarget path)) fs fs' ∧ (r = 0 → ∃ fs₁,
        (fs₁ = fs ∨ mkdirsPast fs (slashPrefixes (mkdirTarget path)) = some fs₁) ∧
        mkdirPast fs₁ (mkdirTarget path) = some fs')) fs := by
  have hlast : mkdirTarget path ∈ withAncestors (mkdirTarget path) := by simp [withAncestors]
  have hpast : ∀ r, FileCall.allow (.mkdir (mkdirTarget path)) fs r → r ≠ .error →
      OnlyMakes (withAncestors (mkdirTarget path)) fs
        (FileCall.next (.mkdir (mkdirTarget path)) fs r) ∧
        ((0 : Int) = 0 → ∃ fs₁,
          (fs₁ = fs ∨ mkdirsPast fs (slashPrefixes (mkdirTarget path)) = some fs₁) ∧
          mkdirPast fs₁ (mkdirTarget path) =
            some (FileCall.next (.mkdir (mkdirTarget path)) fs r)) := by
    intro r hr hne
    have hp := mkdirPast_of_answer hr hne
    exact ⟨(OnlyMakes.refl _ fs).step hlast hp, fun _ => ⟨fs, .inl rfl, hp⟩⟩
  rintro (_ | isDir | _) hr
  · exact hpast _ hr nofun
  · exact hpast _ hr nofun
  · refine (mkdirAll_ensures (fun _ h => h) (.refl _ fs)).mono
      fun r fs' hend => ⟨hend.1, fun h0 => ?_⟩
    have hall := hend.2 h0
    rw [mkdirsPast_append] at hall
    obtain ⟨fs₁, hfs₁, hlast⟩ := Option.bind_eq_some_iff.mp hall
    exact ⟨fs₁, .inr hfs₁, by simpa [mkdirsPast] using hlast⟩

/-- A directory is there, if nothing else was. -/
theorem directory_of_mkdirPast (hfits : path.length < scpMaxPathLen) (hne : path ≠ [])
    (hroot : path ≠ [slash]) (hclear : Unobstructed path fs)
    (h : mkdirPast fs (mkdirTarget path) = some fs') : fs'.Directory path := by
  obtain ⟨loc, hloc, rfl⟩ := Option.map_eq_some_iff.mp h
  split
  · rename_i hnone
    obtain ⟨-, tail, htail, hpath⟩ := mkdirTarget_eq hfits hne hroot
    rw [hpath]
    exact FileSystem.directory_of_locateDir (FileSystem.locateDir_put hnone hloc)
      (FileSystem.lookup_put_self (FileSystem.entry_of_lookup_none hnone).1) htail
  · exact hclear loc hloc ‹_›

theorem scpMkdirRecursive_succeeds (h : Creatable fs (withAncestors (mkdirTarget path))) :
    Program.Ensures needful (scpMkdirRecursive path) (fun r _ => r = 0) fs := by
  rintro (_ | isDir | _) hr
  · rfl
  · rfl
  · exact mkdirAll_succeeds h

/-- Whatever the call for the path itself may find, it may return 0 there. -/
theorem scpMkdirRecursive_outcome {fs₁ : FileSystem} (hfs₁ : fs₁ = fs ∨
    mkdirsPast fs (slashPrefixes (mkdirTarget path)) = some fs₁)
    (h : mkdirPast fs₁ (mkdirTarget path) = some fs') :
    Program.Outcome fileCalls (scpMkdirRecursive path) fs 0 fs' := by
  rcases hfs₁ with rfl | hfs₁
  · obtain ⟨r, hr, hne, rfl⟩ := mkdirPast_answer h
    refine .op r hr ?_
    cases r with
    | error => exact absurd rfl hne
    | created | «exists» => exact .done
  · have hall : mkdirsPast fs (withAncestors (mkdirTarget path)) = some fs' := by
      rw [withAncestors, mkdirsPast_append, hfs₁, Option.bind_some, mkdirsPast, h]
      rfl
    -- the first call fails for another reason
    exact .op .error (.inl rfl) (mkdirAll_outcome hall)

theorem makesDirectory_of_passable (path : PathString) (h : Passable path.bytes fs) :
    MakesDirectory path.bytes fs := by
  obtain ⟨hne, hroot, hbefore, hafter⟩ := h
  have hall : ∀ {stack M P r fs'}, Program.Ensures M (scpMkdirRecursive path.bytes) P fs →
      Program.Outcome M (scpMkdirRecursiveAt stack path.bytes) fs r fs' →
        ∃ n, r = some n ∧ P n fs' := by
    intro stack M P r fs' hP hout
    rw [scpMkdirRecursiveAt_eq path.noNul path.fits hne] at hout
    obtain ⟨n, fs₁, hn, hdone⟩ := hout.of_bind
    cases hdone
    exact ⟨n, rfl, hP.outcome hn⟩
  have hpre := withAncestors_target path.fits hne hroot
  constructor
  · intro stack r fs' hout
    obtain ⟨n, rfl, -⟩ := hall (scpMkdirRecursive_ensures _ fs) hout
    exact nofun
  · intro stack fs' hout
    obtain ⟨n, hn, -, hdir⟩ := hall (scpMkdirRecursive_ensures _ fs) hout
    cases hn
    obtain ⟨fs₁, hfs₁, hpast⟩ := hdir rfl
    refine directory_of_mkdirPast path.fits hne hroot ?_ hpast
    rcases hfs₁ with rfl | hfs₁
    · exact hbefore
    · exact hafter fs₁ hfs₁
  · intro hcreate stack r fs' hout
    obtain ⟨n, rfl, rfl⟩ := hall (scpMkdirRecursive_succeeds (hcreate.of_prefix hpre)) hout
    rfl
  · intro stack r fs' hout
    obtain ⟨n, -, honly, -⟩ := hall (scpMkdirRecursive_ensures _ fs) hout
    exact honly.mono hpre.subset

/-- The last byte of an empty path is looked for outside of the buffer. -/
theorem scpMkdirRecursiveAt_empty (stack : Stack) : scpMkdirRecursiveAt stack [] = .done none := by
  have hlen := @length_copyPath [] stack (by decide)
  have hstring : cString (copyPath stack []) = [] := rfl
  unfold scpMkdirRecursiveAt
  dsimp only
  rw [hstring, List.getElem?_eq_none (by rw [hlen]; decide)]
  rfl

theorem locateDir_root (fs : FileSystem) : fs.locateDir [slash] = some [] := rfl

/-- The root is there, but what is asked for is a directory without a name. -/
theorem not_makesDirectory_root (fs : FileSystem) : ¬ MakesDirectory [slash] fs := by
  intro h
  have hpast : mkdirPast fs [slash] = some fs := rfl
  have hdir : fs.Directory [slash] := by
    simpa using FileSystem.directory_of_locateDir (locateDir_root fs) rfl (.inl rfl)
  have hcreate : Creatable fs (withAncestors [slash]) := .cons hpast hdir .nil
  have hfail : Program.Outcome needful (scpMkdirRecursive [slash]) fs (-1) fs :=
    .op .error ⟨.inl rfl, rfl⟩ (.op .error ⟨.inl rfl, rfl⟩ .done)
  have stack : Stack := ⟨List.replicate scpMaxPathLen 0, List.length_replicate⟩
  have hnul : NoNul [slash] := List.forall_mem_singleton.mpr (by decide)
  have hout : Program.Outcome needful (scpMkdirRecursiveAt stack [slash]) fs (some (-1)) fs := by
    rw [scpMkdirRecursiveAt_eq hnul (by decide) (List.cons_ne_nil _ _)]
    exact hfail.bind .done
  exact absurd (h.succeeds hcreate _ _ _ hout) (by decide)

/-- `scp_mkdir_recursive` makes the directory exactly where the path is neither empty nor `/`, and
nothing but a directory stands where it leads, when it is called and once its ancestors are made. -/
theorem makesDirectory_iff (path : PathString) (fs : FileSystem) :
    MakesDirectory path.bytes fs ↔ Passable path.bytes fs := by
  refine ⟨fun h => ?_, makesDirectory_of_passable path⟩
  have stack : Stack := ⟨List.replicate scpMaxPathLen 0, List.length_replicate⟩
  have hne : path.bytes ≠ [] := by
    intro hempty
    rw [hempty] at h
    exact h.bounds stack none fs (by rw [scpMkdirRecursiveAt_empty]; exact .done) rfl
  have hout : ∀ {fs₁ fs'},
      fs₁ = fs ∨ mkdirsPast fs (slashPrefixes (mkdirTarget path.bytes)) = some fs₁ →
      mkdirPast fs₁ (mkdirTarget path.bytes) = some fs' → fs'.Directory path.bytes := by
    intro fs₁ fs' hfs₁ hpast
    refine h.directory stack fs' ?_
    rw [scpMkdirRecursiveAt_eq path.noNul path.fits hne]
    exact (scpMkdirRecursive_outcome hfs₁ hpast).bind .done
  have hclear : ∀ fs₁,
      fs₁ = fs ∨ mkdirsPast fs (slashPrefixes (mkdirTarget path.bytes)) = some fs₁ →
      Unobstructed path.bytes fs₁ := by
    intro fs₁ hfs₁ loc hloc hl
    refine hout hfs₁ ?_
    rw [mkdirPast, hloc, Option.map_some, if_neg hl]
  have hroot : path.bytes ≠ [slash] := fun hroot => not_makesDirectory_root fs (hroot ▸ h)
  exact ⟨hne, hroot, hclear fs (.inl rfl), fun fs₁ hfs₁ => hclear fs₁ (.inr hfs₁)⟩

/-- A regular file `f`. -/
def fileInTheWay : FileSystem where
  entry loc := if loc = [[102]] then some (.file 0) else none
  content _ := []
  descriptor _ := none
  nextIno := 1
  cwd := []

/-- The result may be 0 without a directory: where a file stands. -/
theorem not_makesDirectory :
    ¬ ∀ (path : PathString) (fs : FileSystem), MakesDirectory path.bytes fs := by
  intro hall
  have hnul : NoNul [102] := by simp [NoNul]
  have hpass : Passable [102] fileInTheWay :=
    (makesDirectory_iff ⟨[102], hnul, by decide⟩ fileInTheWay).mp (hall _ _)
  obtain ⟨loc, hloc, hdir⟩ := hpass.before [[102]] (by decide) (by decide)
  have hfile : fileInTheWay.locate true [102] = some [[102]] := by decide
  rw [hfile] at hloc
  cases hloc
  exact absurd hdir (by decide)

end ScpRdma.Receiver

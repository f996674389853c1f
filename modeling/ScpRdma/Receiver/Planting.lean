import ScpRdma.Receiver.Paving

/-!
# What a packet plants

Each packet of an object with its effect on the file system, where no call fails that need not and
there is room at the place that its name leads to.
-/
namespace ScpRdma.Receiver
open Foundations FileSystem

/-! ## Names -/

/-- The name is taken whole, and leads down from the base to `rel`. -/
structure Reaches (base name : Path) (rel : List Name) : Prop where
  noNul : NoNul name
  short : name.length < scpMaxFilenameLen
  fits : (stripSlashes base).length + 1 + name.length < scpMaxPathLen
  names : components pathSep name = rel
  down : Downward rel

/-- The name does not end with a slash. -/
def EndsInName (name : Path) : Prop := ∃ c, name.getLast? = some c ∧ c ≠ slash

section Names

variable {base name a n : Path} {rel : List Name}

theorem recordName_eq (hnul : NoNul name) (hshort : name.length < scpMaxFilenameLen) :
    recordName name = name := by
  rw [recordName, cString_of_noNul hnul, List.take_of_length_le (by omega)]

theorem parentPath_last (hn : slash ∉ n) : parentPath (a ++ slash :: n) = some a := by
  have hback : ∀ x ∈ n.reverse, decide (x ≠ slash) = true := by
    intro x hx
    refine decide_eq_true ?_
    rintro rfl
    exact hn (List.mem_reverse.mp hx)
  rw [parentPath, if_pos (by simp)]
  simp only [List.reverse_append, List.reverse_cons, List.append_assoc]
  rw [List.dropWhile_append_of_pos hback]
  simp

theorem components_dropWhile (name : Path) :
    components pathSep (name.dropWhile (· = slash)) = components pathSep name := by
  induction name with
  | nil => rfl
  | cons x name ih =>
    by_cases hx : x = slash
    · subst hx
      rw [List.dropWhile_cons_of_pos (by simp), ih]
      simp [components, componentsFrom, slash, pathSep]
    · rw [List.dropWhile_cons_of_neg (by simpa using hx)]

/-- The path that a name makes. -/
theorem Reaches.target (h : Reaches base name rel) : ∃ sub,
    targetPath base (recordName name) = stripSlashes base ++ slash :: sub ∧
      (stripSlashes base ++ slash :: sub).length < scpMaxPathLen ∧
      components pathSep (slash :: sub) = rel ∧
      (EndsInName name → (slash :: sub).getLast? ≠ some slash) := by
  have hlen : (name.dropWhile (· = slash)).length ≤ name.length :=
    (List.dropWhile_suffix _).length_le
  have hfits : (stripSlashes base ++ slash :: name.dropWhile (· = slash)).length <
      scpMaxPathLen := by
    have := h.fits
    rw [List.length_append, List.length_cons]
    omega
  refine ⟨name.dropWhile (· = slash), ?_, hfits, ?_, ?_⟩
  · rw [recordName_eq h.noNul h.short, targetPath, snprintf_eq hfits]
  · have hslash : components pathSep (slash :: name.dropWhile (· = slash)) =
        components pathSep (name.dropWhile (· = slash)) := by
      simp [components, componentsFrom, slash, pathSep]
    rw [hslash, components_dropWhile, h.names]
  · rintro ⟨c, hc, hne⟩
    have hsplit : name.takeWhile (· = slash) ++ name.dropWhile (· = slash) = name :=
      List.takeWhile_append_dropWhile
    have hnil : name.dropWhile (· = slash) ≠ [] := by
      intro hnil
      have hall := List.dropWhile_eq_nil_iff.mp hnil c (List.mem_of_getLast? hc)
      exact hne (of_decide_eq_true hall)
    rw [← hsplit, List.getLast?_append_of_ne_nil _ hnil] at hc
    rw [← List.singleton_append, List.getLast?_append_of_ne_nil _ hnil, hc]
    exact fun heq => hne (Option.some.inj heq)

/-- The path of an object that is no directory, with its parent. -/
structure LeafPath (base : Path) (rel : List Name) (path : Path) (pre : List Name)
    (n : Name) (parent sub : Path) : Prop where
  names : rel = pre ++ [n]
  whole : path = stripSlashes base ++ slash :: sub
  walked : pathNames (slash :: sub) = rel
  parentOf : parentPath path = some (stripSlashes base ++ parent)
  behind : Behind parent
  above : components pathSep parent = pre
  fits : (stripSlashes base ++ parent).length < scpMaxPathLen

theorem Reaches.leaf (h : Reaches base name rel) (hleaf : EndsInName name) :
    ∃ pre n parent sub,
      LeafPath base rel (targetPath base (recordName name)) pre n parent sub := by
  obtain ⟨sub, hpath, hfits, hcomps, hlast⟩ := h.target
  have hlast := hlast hleaf
  obtain ⟨a, n, hsplit, hn⟩ := exists_last_slash (List.mem_cons_self (a := slash) (l := sub))
  have hne : n ≠ [] := by
    rintro rfl
    rw [hsplit] at hlast
    simp at hlast
  have hnames : components pathSep a ++ [n] = rel := by
    have hone : components pathSep n = [n] := IsComponent.components ⟨hne, hn⟩
    rw [← hcomps, hsplit, show slash = pathSep from rfl, components_sep, hone]
  refine ⟨components pathSep a, n, a, sub, hnames.symm, hpath, ?_, ?_, ?_, rfl, ?_⟩
  · rw [pathNames, show pathSep = slash from rfl, if_neg hlast, List.append_nil, ← hcomps]
    rfl
  · rw [hpath, hsplit, ← List.append_assoc]
    exact parentPath_last hn
  · cases a with
    | nil => exact .inl rfl
    | cons x a => exact .inr (congrArg some (List.cons.inj hsplit).1.symm)
  · rw [hsplit, ← List.append_assoc, List.length_append] at hfits
    omega

end Names

/-! ## Objects that are no directories -/

section Leaves

variable {outputDir : Option Path} {loc : Location} {fs₀ fs fs' : FileSystem}
  {path parent sub target : Path} {rel pre : List Name} {n : Name} {fd : Option Handle}

/-- There is no directory where there is nothing. -/
theorem isDirectory_free (h : OutputDir outputDir loc fs₀) (hfs : Upholds fs₀ fs)
    (hp : LeafPath (baseDir fs₀ outputDir) rel path pre n parent sub) (hdown : Downward rel)
    (hwalk : fs.Walkable loc rel) (hfree : fs.lookup (loc ++ rel) = none) :
    Program.Ensures unfailing (isDirectory path) (fun isDir t => isDir = false ∧ t = fs) fs := by
  obtain ⟨hbase, hdir⟩ := h.uphold hfs
  refine ensures_ask fun r hr => ?_
  obtain ⟨d, -, rfl⟩ := hr
  have hnone : FileCall.answer d (.stat path) fs = none := by
    rw [FileCall.answer]
    cases hx : fs.locate true path with
    | none => rfl
    | some x =>
      have hplain : Passes Plain fs.lookup loc [] rel := by
        refine (passes_names hdown).mpr fun pre hpre _ target htarget => ?_
        rcases hwalk pre hpre with hl | hl <;> rw [hl] at htarget <;> cases htarget
      rw [hp.whole] at hx
      have hway : way [] (pathNames (slash :: sub)) = some rel := by
        rw [hp.walked]
        exact way_names hdown
      obtain ⟨rfl, -⟩ := locate_into hbase hdir (components_stripSlashes _)
        (head?_stripSlashes (ne_nil_of_leads hbase)) hway (hp.walked.symm ▸ hplain)
        (fun _ => by simp [Plain, hfree]) hx
      rw [Option.bind_some, hfree]
      rfl
  rw [hnone]
  exact ⟨rfl, rfl⟩

theorem makeParent_paves (h : OutputDir outputDir loc fs₀) (hfs : Upholds fs₀ fs)
    (hp : LeafPath (baseDir fs₀ outputDir) rel path pre n parent sub) (hdown : Downward rel)
    (hwalk : fs.Walkable loc rel) :
    Program.Ensures unfailing (makeParent path) (fun _ t => fs.Paved loc pre t) fs := by
  have hpre : pre <+: rel := hp.names ▸ List.prefix_append _ _
  unfold makeParent
  rw [hp.parentOf]
  have hall := h.scpMkdirRecursive_paves hfs hp.behind (hp.above ▸ hdown.start hpre)
    (hp.above ▸ hwalk.start hpre) hp.fits
  rw [hp.above] at hall
  exact hall.bind fun _ _ ht => ht

theorem closeCurrent_unfailing {Q : FileSystem → Prop} (hsame : Q fs)
    (hclosed : ∀ fd, Q (fs.setDescriptor fd none)) :
    Program.Ensures unfailing (closeCurrent fd) (fun _ t => Q t) fs := by
  cases fd with
  | none => exact hsame
  | some fd => exact fun _ _ => hclosed fd

/-- Where a path leads whose parents are there. -/
theorem LeafPath.leads (hp : LeafPath (baseDir fs₀ outputDir) rel path pre n parent sub)
    (h : OutputDir outputDir loc fs₀) (hfs : Upholds fs₀ fs') (hdown : Downward rel)
    (hpaved : fs.Paved loc pre fs') {follow : Bool}
    (hlast : follow = true → Plain (fs'.lookup (loc ++ rel))) :
    fs'.locate follow path = some (loc ++ rel) := by
  obtain ⟨hbase, hdir⟩ := h.uphold hfs
  rw [hp.whole]
  refine locate_down hbase hdir (components_stripSlashes _)
    (head?_stripSlashes (ne_nil_of_leads hbase)) hp.walked hdown (fun pre' hpre hne => ?_) hlast
  rw [hp.names] at hpre hne
  exact hpaved.way pre' ((List.prefix_concat_iff.mp hpre).resolve_left hne)

/-- A place stays free while directories are made above it. -/
theorem LeafPath.free (hp : LeafPath (baseDir fs₀ outputDir) rel path pre n parent sub)
    (hfree : fs.lookup (loc ++ rel) = none) (hpaved : fs.Paved loc pre fs') :
    fs'.lookup (loc ++ rel) = none := by
  rw [hpaved.other, hfree]
  intro pre' hpre
  rw [hp.names, ← List.append_assoc]
  exact not_below hpre

/-- A file begins: it is there, empty and open. -/
theorem openFile_plants (h : OutputDir outputDir loc fs₀) (hfs : Upholds fs₀ fs)
    (hp : LeafPath (baseDir fs₀ outputDir) rel path pre n parent sub) (hdown : Downward rel)
    (hroom : fs.Room loc rel) (hfree : fs.lookup (loc ++ rel) = none)
    (hpaved : fs.Paved loc pre fs') (mode mode' : Nat) :
    Program.Ensures unfailing (Files.ask (.openFile path mode)) (fun r t => ∃ d ino, r = some d ∧
      fs.Planted loc rel (.file mode' []) t ∧ t.OpenedAt (loc ++ rel) d ino) fs' := by
  have hpre : pre <+: rel := hp.names ▸ List.prefix_append _ _
  have hup := hfs.trans (hpaved.upholds (hroom.walkable.start hpre))
  have hnone := hp.free hfree hpaved
  have hloc : fs'.locate true path = some (loc ++ rel) :=
    hp.leads h hup hdown hpaved fun _ => by simp [Plain, hnone]
  refine ensures_last fun r hr => ?_
  obtain ⟨d, hd, rfl⟩ := hr
  have hopen : FileCall.answer d (.openFile path mode) fs' = some d := by
    simp only [FileCall.answer, hloc, Option.map_some, hnone, hd]
    rfl
  have hnext : unfailing.next (.openFile path mode) fs'
      (FileCall.answer d (.openFile path mode) fs') = fs'.openAt (loc ++ rel) d := by
    rw [hopen]
    exact FileCall.next_openFile hloc mode d
  have hrel := hp.names
  subst hrel
  obtain ⟨hplanted, hopened⟩ := hpaved.file hroom hfree mode' d
  rw [hnext]
  exact ⟨d, fs'.nextIno, hopen, hplanted, hopened⟩

end Leaves

/-! ## Packets -/

/-- The view is on a regular file that is open. -/
structure AtFile (v : View) (x : Location) (fs : FileSystem) : Prop where
  metaType : v.metaType = FileType.regular.byte
  opened : ∃ d ino, v.loc.currentFd = some d ∧ fs.OpenedAt x d ino

/-- The view is on a link that is to be made. -/
structure AtLink (v : View) (path : Path) : Prop where
  metaType : v.metaType = FileType.symlink.byte
  currentPath : v.loc.currentPath = path

section Packets

variable {outputDir : Option Path} {loc : Location} {fs₀ fs fs' : FileSystem} {v : View}
  {path parent sub target name : Path} {rel pre : List Name} {n : Name} {t : FileTree}
  {mode mode' : Nat} {bytes payload : Bytes}

/-- Where nothing stands, `SCP_CMD_FILE_META` makes the parent and closes the file before. -/
theorem applyFileMeta_free {type : UInt8} {Q : View × Tally → FileSystem → Prop}
    (h : OutputDir outputDir loc fs₀) (hfs : Upholds fs₀ fs)
    (hp : LeafPath (baseDir fs₀ outputDir) rel path pre n parent sub) (hdown : Downward rel)
    (hroom : fs.Room loc rel) (hfree : fs.lookup (loc ++ rel) = none)
    (hpath : targetPath v.loc.baseDir name = path)
    (hrest : ∀ u, fs.Paved loc pre u → Program.Ensures unfailing (do
      if type ≠ FileType.symlink.byte then
        let fd ← Files.ask (.openFile path mode)
        return (⟨⟨fd, path, v.loc.baseDir⟩, type⟩, { Tally.none with files := 1 })
      else
        return (⟨⟨none, path, v.loc.baseDir⟩, type⟩, .none)) Q u) :
    Program.Ensures unfailing (applyFileMeta v name mode type) Q fs := by
  unfold applyFileMeta
  rw [hpath]
  refine (isDirectory_free h hfs hp hdown hroom.walkable hfree).bind ?_
  rintro _ t ⟨rfl, ht⟩
  rw [ht]
  refine (makeParent_paves h hfs hp hdown hroom.walkable).bind fun _ u hu => ?_
  refine (closeCurrent_unfailing (Q := fs.Paved loc pre) hu fun fd => hu.close fd).bind ?_
  exact fun _ w hw => hrest w hw

theorem applyFileMeta_file (h : OutputDir outputDir loc fs₀) (hfs : Upholds fs₀ fs)
    (hp : LeafPath (baseDir fs₀ outputDir) rel path pre n parent sub) (hdown : Downward rel)
    (hroom : fs.Room loc rel) (hfree : fs.lookup (loc ++ rel) = none)
    (hpath : targetPath v.loc.baseDir name = path) (mode' : Nat) :
    Program.Ensures unfailing (applyFileMeta v name mode FileType.regular.byte)
      (fun r u => r.1.loc.baseDir = v.loc.baseDir ∧ r.2 = { Tally.none with files := 1 } ∧
        AtFile r.1 (loc ++ rel) u ∧ fs.Planted loc rel (.file mode' []) u) fs := by
  refine applyFileMeta_free h hfs hp hdown hroom hfree hpath fun u hu => ?_
  rw [if_pos (by decide)]
  refine (openFile_plants h hfs hp hdown hroom hfree hu mode mode').bind ?_
  rintro _ w ⟨d, ino, rfl, hplanted, hopened⟩
  exact ⟨rfl, rfl, ⟨rfl, d, ino, rfl, hopened⟩, hplanted⟩

theorem applyFileMeta_link (h : OutputDir outputDir loc fs₀) (hfs : Upholds fs₀ fs)
    (hp : LeafPath (baseDir fs₀ outputDir) rel path pre n parent sub) (hdown : Downward rel)
    (hroom : fs.Room loc rel) (hfree : fs.lookup (loc ++ rel) = none)
    (hpath : targetPath v.loc.baseDir name = path) :
    Program.Ensures unfailing (applyFileMeta v name mode FileType.symlink.byte)
      (fun r u => r.1.loc.baseDir = v.loc.baseDir ∧ r.2 = .none ∧ AtLink r.1 path ∧
        fs.Paved loc pre u) fs := by
  refine applyFileMeta_free h hfs hp hdown hroom hfree hpath fun u hu => ?_
  rw [if_neg (by decide)]
  exact ⟨rfl, rfl, ⟨rfl, rfl⟩, hu⟩

/-- The target of a link that is not there yet. -/
theorem applyFileData_link (h : OutputDir outputDir loc fs₀) (hfs : Upholds fs₀ fs)
    (hp : LeafPath (baseDir fs₀ outputDir) rel path pre n parent sub) (hdown : Downward rel)
    (hroom : fs.Room loc rel) (hfree : fs.lookup (loc ++ rel) = none)
    (hpaved : fs.Paved loc pre fs') (hv : AtLink v path) (hne : target ≠ []) (hnul : NoNul target)
    (hlen : target.length ≤ scpMaxPathLen - 1) (mode off : Nat) :
    Program.Ensures unfailing (applyFileData v off target) (fun r u => r.1 = v ∧
      r.2 = { Tally.none with symlinks := 1 } ∧ fs.Planted loc rel (.link mode target) u) fs' := by
  have hpre : pre <+: rel := hp.names ▸ List.prefix_append _ _
  have hup := hfs.trans (hpaved.upholds (hroom.walkable.start hpre))
  have hnone := hp.free hfree hpaved
  have hloc : fs'.locate false path = some (loc ++ rel) := hp.leads h hup hdown hpaved nofun
  have htext : cString (target.take (scpMaxPathLen - 1)) = target := by
    rw [List.take_of_length_le hlen, cString_of_noNul hnul]
  unfold applyFileData
  rw [if_pos hv.metaType, htext, hv.currentPath]
  have hreplace : Program.Ensures unfailing (replaceByLink target path)
      (fun ok u => ok = true ∧ u = fs'.put (loc ++ rel) (some (.link target))) fs' := by
    refine ensures_ask fun removed hremoved => ensures_last fun linked hlinked => ?_
    obtain ⟨d, -, rfl⟩ := hremoved
    have hremove : FileCall.answer d (.unlink path) fs' = false := by
      simp only [FileCall.answer, hloc, hnone, Option.map_some]
      rfl
    rw [hremove] at hlinked ⊢
    obtain ⟨d', -, rfl⟩ := hlinked
    have hlink : FileCall.answer d' (.symlink target path) fs' = true :=
      decide_eq_true ⟨hne, by rw [hloc, Option.map_some, hnone]⟩
    refine ⟨hlink, ?_⟩
    change FileCall.next _ fs' (FileCall.answer d' (.symlink target path) fs') = _
    rw [hlink]
    exact FileCall.next_symlink hloc target
  refine hreplace.bind ?_
  rintro _ _ ⟨rfl, rfl⟩
  have hrel := hp.names
  subst hrel
  exact ⟨rfl, rfl, hpaved.link hroom hfree⟩

/-- A chunk behind the bytes that the file has. -/
theorem applyFileData_chunk (hplanted : fs.Planted loc rel (.file mode bytes) fs')
    (hv : AtFile v (loc ++ rel) fs') (hlen : bytes.length < 2 ^ 63) (payload : Bytes) :
    Program.Ensures unfailing (applyFileData v bytes.length payload) (fun r u => r.1 = v ∧
      r.2 = { Tally.none with bytes := payload.length } ∧ AtFile v (loc ++ rel) u ∧
        fs.Planted loc rel (.file mode (bytes ++ payload)) u) fs' := by
  obtain ⟨fd, ino, hfd, hopened⟩ := hv.opened
  obtain ⟨pos, hdesc⟩ := hopened.descriptor
  obtain ⟨hwritten, hopen'⟩ := hplanted.write hopened payload
  unfold applyFileData
  rw [if_neg (by rw [hv.metaType]; decide), hfd]
  have hwrite : Program.Ensures unfailing (writeChunk fd bytes.length payload)
      (fun _ u => u = (fs'.seek fd bytes.length).write fd payload) fs' := by
    refine ensures_ask fun moved hmoved => ensures_ask fun wrote hwrote => ?_
    obtain ⟨d, -, rfl⟩ := hmoved
    have hseek : FileCall.answer d (.lseek fd bytes.length) fs' = true :=
      decide_eq_true ⟨by simp [hdesc], hlen⟩
    rw [hseek] at hwrote ⊢
    obtain ⟨d', -, rfl⟩ := hwrote
    have hfull : FileCall.answer d' (.write fd payload) (fs'.seek fd bytes.length) =
        some payload.length := if_neg (by simp [seek, hdesc])
    change FileCall.next _ (fs'.seek fd bytes.length)
      (FileCall.answer d' (.write fd payload) (fs'.seek fd bytes.length)) = _
    rw [hfull]
    change (fs'.seek fd bytes.length).write fd (payload.take payload.length) = _
    rw [List.take_length]
  refine hwrite.bind ?_
  rintro _ _ rfl
  exact ⟨rfl, rfl, ⟨hv.metaType, fd, ino, hfd, hopen'⟩, hwritten⟩

theorem applyDirEnter_plants (h : OutputDir outputDir loc fs₀) (hfs : Upholds fs₀ fs)
    (hr : Reaches (baseDir fs₀ outputDir) name rel) (hroom : fs.Room loc rel)
    (hv : v.loc.baseDir = baseDir fs₀ outputDir) :
    Program.Ensures unfailing (applyDirEnter v (recordName name)) (fun r u =>
      r.1.loc.baseDir = v.loc.baseDir ∧ r.2 = { Tally.none with dirs := 1 } ∧
        fs.Planted loc rel (.directory .nil) u) fs := by
  obtain ⟨sub, hpath, hfits, hcomps, -⟩ := hr.target
  unfold applyDirEnter
  rw [hv, hpath]
  have hall := h.scpMkdirRecursive_paves hfs (.inr rfl) (hcomps ▸ hr.down) (hcomps ▸ hroom.walkable)
    hfits
  rw [hcomps] at hall
  exact hall.bind fun _ _ hu => ⟨hv, rfl, hu.planted hroom⟩

/-- Where a file is closed the tree stays. -/
theorem closeCurrent_plants {fd : Option Handle} (h : fs.Planted loc rel t fs') :
    Program.Ensures unfailing (closeCurrent fd) (fun _ u => fs.Planted loc rel t u) fs' :=
  closeCurrent_unfailing h fun fd => h.setDescriptor fd nofun

end Packets

end ScpRdma.Receiver

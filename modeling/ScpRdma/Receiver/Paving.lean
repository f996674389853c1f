import ScpRdma.Foundations.Trees
import ScpRdma.Receiver.Containment
import ScpRdma.Receiver.Mkdir

/-!
# Directories below the output directory

What `scp_mkdir_recursive` leaves of a path behind the output directory, where no call fails that
need not: directories on the way down, and everything else as it was.
-/
namespace ScpRdma.Receiver
open Foundations FileSystem

/-- No file call fails that need not, there is a free descriptor, and writes are not short. -/
def unfailing : Semantics fileSignature FileSystem where
  allow o fs r := ∃ fd, fs.descriptor fd = none ∧ r = FileCall.answer fd o fs
  next := FileCall.next

section Mkdir

variable {fs fs' : FileSystem} {path : Path} {ps : List Path} {P : FileSystem → Prop}

/-- `mkdir` makes or finds what is where the path leads. -/
theorem mkdir_unfailing {r : MkdirResult} (h : unfailing.allow (.mkdir path) fs r) :
    r ≠ .error ∧ mkdirPast fs path = some (FileCall.next (.mkdir path) fs r) ∨
      r = .error ∧ fs.locateDir path = none := by
  obtain ⟨fd, -, hr⟩ := h
  have hallow : FileCall.allow (.mkdir path) fs r := hr ▸ FileCall.answer_allowed fd _ fs
  cases hloc : fs.locateDir path with
  | none =>
    refine .inr ⟨?_, rfl⟩
    rw [hr, FileCall.answer, hloc]
    rfl
  | some x =>
    have hne : r ≠ .error := by
      rw [hr, FileCall.answer, hloc]
      change mkdirAnswer (fs.lookup x) ≠ .error
      cases fs.lookup x <;> simp [mkdirAnswer]
    exact .inl ⟨hne, mkdirPast_of_answer hallow hne⟩

theorem mkdirAll_unfailing (h : mkdirsPast fs ps = some fs') :
    Program.Ensures unfailing (mkdirAll ps) (fun r t => r = 0 ∧ t = fs') fs := by
  induction ps generalizing fs with
  | nil =>
    cases h
    exact ⟨rfl, rfl⟩
  | cons p ps ih =>
    obtain ⟨fs₁, hp, hps⟩ := Option.bind_eq_some_iff.mp h
    refine ensures_ask fun r hr => ?_
    rcases mkdir_unfailing hr with ⟨hne, hpast⟩ | ⟨-, hnone⟩
    · have hnext : FileCall.next (.mkdir p) fs r = fs₁ := Option.some.inj (hpast.symm.trans hp)
      subst hnext
      cases r with
      | error => exact absurd rfl hne
      | created | «exists» => exact ih hps
    · simp [mkdirPast, hnone] at hp

/-- The first call makes the directory, or the calls for the ancestors do. -/
theorem scpMkdirRecursive_unfailing
    (hfirst : ∀ t, mkdirPast fs (mkdirTarget path) = some t → P t)
    (hall : ∃ t, mkdirsPast fs (withAncestors (mkdirTarget path)) = some t ∧ P t) :
    Program.Ensures unfailing (scpMkdirRecursive path) (fun _ t => P t) fs := by
  refine ensures_ask fun r hr => ?_
  rcases mkdir_unfailing hr with ⟨hne, hpast⟩ | ⟨rfl, -⟩
  · cases r with
    | error => exact absurd rfl hne
    | created | «exists» => exact hfirst _ hpast
  · obtain ⟨t, ht, hP⟩ := hall
    exact (mkdirAll_unfailing ht).mono fun _ _ h => h.2 ▸ hP

/-- No directory has the empty path. -/
theorem scpMkdirRecursive_empty (h : mkdirTarget path = []) (hP : P fs) :
    Program.Ensures unfailing (scpMkdirRecursive path) (fun _ t => P t) fs := by
  have herror : ∀ r, unfailing.allow (.mkdir []) fs r → r = .error := by
    intro r hr
    rcases mkdir_unfailing hr with ⟨-, hpast⟩ | ⟨hr, -⟩
    · cases hpast
    · exact hr
  unfold scpMkdirRecursive
  rw [h]
  refine ensures_ask fun r hr => ?_
  obtain rfl := herror r hr
  refine ensures_ask fun r hr => ?_
  obtain rfl := herror r hr
  exact hP

end Mkdir

/-! ## Slashes -/

section Slashes

variable {a n path : Path}

theorem exists_last_slash (h : slash ∈ path) : ∃ a n, path = a ++ slash :: n ∧ slash ∉ n := by
  obtain ⟨back, front, hsplit, hno⟩ := List.eq_append_cons_of_mem (List.mem_reverse.mpr h)
  refine ⟨front.reverse, back.reverse, ?_, by simpa using hno⟩
  rw [← List.reverse_reverse path, hsplit]
  simp

theorem slashPrefixes_behind (h : slash ∉ n) (a : Path) :
    slashPrefixes (a ++ slash :: n) = slashPrefixes (a ++ [slash]) := by
  unfold slashPrefixes
  have hlen : (a ++ slash :: n).length = (a ++ [slash]).length + n.length := by
    simp
    omega
  rw [hlen, List.range_add, List.filter_append, List.map_append]
  have hback : ((List.range n.length).map ((a ++ [slash]).length + ·)).filter
      (fun i => i ≠ 0 ∧ (a ++ slash :: n)[i]? = some slash) = [] := by
    refine List.filter_eq_nil_iff.mpr fun i hi hslash => ?_
    obtain ⟨j, -, rfl⟩ := List.mem_map.mp hi
    have hget := (of_decide_eq_true hslash).2
    rw [List.append_cons, List.getElem?_append_right (Nat.le_add_right _ _),
      Nat.add_sub_cancel_left] at hget
    exact h (List.mem_of_getElem? hget)
  rw [hback, List.map_nil, List.append_nil]
  have hfront : ∀ i ∈ List.range (a ++ [slash]).length,
      (a ++ slash :: n)[i]? = (a ++ [slash])[i]? ∧
        (a ++ slash :: n).take i = (a ++ [slash]).take i := by
    intro i hi
    have hlt := List.mem_range.mp hi
    rw [List.append_cons, List.getElem?_append_left hlt, List.take_append_of_le_length hlt.le]
    exact ⟨rfl, rfl⟩
  rw [List.filter_congr fun i hi => by rw [(hfront i hi).1]]
  exact List.map_congr_left fun i hi => (hfront i (List.mem_of_mem_filter hi)).2

/-- The ancestors of a path are its parent and the ancestors of that. -/
theorem slashPrefixes_last (hn : slash ∉ n) :
    slashPrefixes (a ++ slash :: n) = if a = [] then [] else withAncestors a := by
  rw [slashPrefixes_behind hn]
  split
  · subst a
    rfl
  · exact slashPrefixes_concat ‹_›

theorem slashPrefixes_cut {dir : Path} (h : dir ∈ slashPrefixes path) :
    Cut dir path ∧ dir ≠ [] := by
  obtain ⟨i, hi, rfl⟩ := List.mem_map.mp h
  obtain ⟨hlt, hi⟩ := List.mem_filter.mp hi
  obtain ⟨h0, hget⟩ := of_decide_eq_true hi
  obtain ⟨hi, hget⟩ := List.getElem?_eq_some_iff.mp hget
  refine ⟨.inr ⟨path.drop (i + 1), ?_⟩, ?_⟩
  · rw [← hget, List.getElem_cons_drop, List.take_append_drop]
  · intro hnil
    have hlen := congrArg List.length hnil
    rw [List.length_take, List.length_nil] at hlen
    omega

theorem getLast?_stripSlashes (path : Path) : (stripSlashes path).getLast? ≠ some slash := by
  unfold stripSlashes
  rw [List.getLast?_reverse]
  intro h
  have := List.head?_dropWhile_not (fun x => decide (x = slash)) path.reverse
  rw [h] at this
  simp at this

/-- What stands behind the base in a path: nothing, or a slash and more. -/
def Behind (sub : Path) : Prop := sub = [] ∨ sub.head? = some slash

theorem Behind.components {base sub : Path} (h : Behind sub) :
    Foundations.components pathSep (stripSlashes base ++ sub) =
      Foundations.components pathSep base ++ Foundations.components pathSep sub := by
  rcases h with rfl | h
  · rw [List.append_nil, components_stripSlashes]
    exact (List.append_nil _).symm
  · obtain ⟨rest, rfl⟩ := List.head?_eq_some_iff.mp h
    have hrest : Foundations.components pathSep (slash :: rest) =
        Foundations.components pathSep rest := by
      simp [Foundations.components, componentsFrom, slash, pathSep]
    rw [hrest, show slash = pathSep from rfl, components_sep, components_stripSlashes]

theorem Behind.head {base sub : Path} (h : Behind sub) (hbase : base ≠ [])
    (hne : stripSlashes base ++ sub ≠ []) : (stripSlashes base ++ sub).head? = base.head? := by
  rw [← head?_stripSlashes hbase]
  cases hstrip : stripSlashes base with
  | cons x front => rfl
  | nil =>
    rcases h with rfl | h
    · exact absurd (by rw [hstrip]; rfl) hne
    · rw [List.nil_append, h]
      rfl

/-- `tmp` in `scp_mkdir_recursive`. -/
theorem Behind.target {base sub : Path} (h : Behind sub)
    (hlen : (stripSlashes base ++ sub).length < scpMaxPathLen) :
    ∃ sub', mkdirTarget (stripSlashes base ++ sub) = stripSlashes base ++ sub' ∧ Behind sub' ∧
      Foundations.components pathSep sub' = Foundations.components pathSep sub := by
  simp only [mkdirTarget, snprintf_eq hlen]
  split
  · rename_i hlast
    by_cases hnil : sub = []
    · rw [hnil, List.append_nil] at hlast
      exact absurd hlast (getLast?_stripSlashes base)
    rw [List.getLast?_append_of_ne_nil _ hnil] at hlast
    obtain ⟨front, rfl⟩ := List.getLast?_eq_some_iff.mp hlast
    refine ⟨front, ?_, ?_, ?_⟩
    · rw [← List.append_assoc, List.dropLast_concat]
    · by_cases hfront : front = []
      · exact .inl hfront
      · refine .inr ?_
        rw [← List.head?_append_of_ne_nil _ hfront]
        exact h.resolve_left hnil
    · exact (components_trailing (by simp [slash, pathSep])).symm
  · exact ⟨sub, rfl, h, rfl⟩

end Slashes

/-! ## Below the base -/

section Below

variable {outputDir : Option Path} {loc : Location} {fs₀ fs fs' : FileSystem} {dir sub : Path}
  {ns ms : List Name} {n : Name}

/-- The names lead down. -/
def Downward (ns : List Name) : Prop := ∀ n ∈ ns, n ≠ selfName ∧ n ≠ parentName

theorem Downward.start (h : Downward ns) (hms : ms <+: ns) : Downward ms :=
  fun n hn => h n (hms.subset hn)

/-- On the way to the base there is nothing to make. -/
theorem OutputDir.mkdirPast_cut (h : OutputDir outputDir loc fs₀) (hfs : Upholds fs₀ fs)
    (hcomp : components pathSep dir ++ ns = components pathSep (baseDir fs₀ outputDir))
    (hhead : dir.head? = (baseDir fs₀ outputDir).head?) : mkdirPast fs dir = some fs := by
  obtain ⟨hbase, hdir⟩ := h.uphold hfs
  obtain ⟨x, hx⟩ := locateDir_halfway hbase hdir hcomp hhead
  have hpresent := h.present hfs ⟨ns, hcomp.symm⟩ hhead hx
  rw [mkdirPast, hx, Option.map_some, if_neg hpresent]

/-- A directory that is there is not made again. -/
theorem OutputDir.mkdirPast_again (h : OutputDir outputDir loc fs₀) (hfs : Upholds fs₀ fs')
    (hpaved : fs.Paved loc ns fs') (hdown : Downward ns)
    (hcomp : components pathSep dir = components pathSep (baseDir fs₀ outputDir) ++ ns)
    (hhead : dir.head? = (baseDir fs₀ outputDir).head?) : mkdirPast fs' dir = some fs' := by
  by_cases hnil : ns = []
  · subst hnil
    exact h.mkdirPast_cut hfs ((List.append_nil _).trans (hcomp.trans (List.append_nil _))) hhead
  obtain ⟨hbase, hdir⟩ := h.uphold hfs
  have hx := locateDir_down hbase hdir hcomp hhead hnil hdown fun pre hpre _ => hpaved.way pre hpre
  rw [mkdirPast, hx, Option.map_some, hpaved.way ns (List.prefix_refl _), if_neg (by simp)]

/-- One more name on the way. -/
theorem OutputDir.mkdirPast_step (h : OutputDir outputDir loc fs₀) (hfs : Upholds fs₀ fs')
    (hpaved : fs.Paved loc ms fs') (hdown : Downward (ms ++ [n]))
    (hwalk : fs.Walkable loc (ms ++ [n]))
    (hcomp : components pathSep dir = components pathSep (baseDir fs₀ outputDir) ++ (ms ++ [n]))
    (hhead : dir.head? = (baseDir fs₀ outputDir).head?) :
    ∃ t, mkdirPast fs' dir = some t ∧ fs.Paved loc (ms ++ [n]) t := by
  obtain ⟨hbase, hdir⟩ := h.uphold hfs
  have hx := locateDir_down hbase hdir hcomp hhead (by simp) hdown fun pre hpre hne =>
    hpaved.way pre ((List.prefix_concat_iff.mp hpre).resolve_left hne)
  rcases hpaved.step hwalk with ⟨hl, ht⟩ | ⟨hl, ht⟩
  · exact ⟨fs', by rw [mkdirPast, hx, Option.map_some, hl, if_neg (by simp)], ht⟩
  · exact ⟨_, by rw [mkdirPast, hx, Option.map_some, if_pos hl], ht⟩

theorem mkdirsPast_same {ps : List Path} (h : ∀ p ∈ ps, mkdirPast fs p = some fs) :
    mkdirsPast fs ps = some fs := by
  induction ps with
  | nil => rfl
  | cons p ps ih =>
    obtain ⟨hp, hps⟩ := List.forall_mem_cons.mp h
    rw [mkdirsPast, hp, Option.bind_some, ih hps]

/-- Nor is there on the way to a path that has the names of the base. -/
theorem OutputDir.mkdirsPast_base (h : OutputDir outputDir loc fs₀) (hfs : Upholds fs₀ fs)
    (hne : dir ≠ []) (hcomp : components pathSep dir = components pathSep (baseDir fs₀ outputDir))
    (hhead : dir.head? = (baseDir fs₀ outputDir).head?) :
    mkdirsPast fs (withAncestors dir) = some fs := by
  have hcut : ∀ p ∈ withAncestors dir, Cut p dir ∧ p ≠ [] := by
    intro p hp
    rcases List.mem_append.mp hp with hp | hp
    · exact slashPrefixes_cut hp
    · obtain rfl := List.mem_singleton.mp hp
      exact ⟨.inl rfl, hne⟩
  refine mkdirsPast_same fun p hp => ?_
  obtain ⟨hcut, hpne⟩ := hcut p hp
  obtain ⟨ns, hns⟩ := hcut.components
  exact h.mkdirPast_cut hfs (hns.symm.trans hcomp) ((hcut.ne_nil_head hpne).trans hhead)

/-- The base without the slashes at its end. -/
theorem head?_base (h : OutputDir outputDir loc fs₀)
    (hne : stripSlashes (baseDir fs₀ outputDir) ≠ []) :
    (stripSlashes (baseDir fs₀ outputDir)).head? = (baseDir fs₀ outputDir).head? := by
  have hhead := @Behind.head (baseDir fs₀ outputDir) [] (.inl rfl) (ne_nil_of_leads h.leads)
  rw [List.append_nil] at hhead
  exact hhead hne

/-- All the directories to a place below the base. -/
theorem OutputDir.mkdirsPast_paves (h : OutputDir outputDir loc fs₀) (hfs : Upholds fs₀ fs)
    (hsub : sub.head? = some slash) (hdown : Downward (components pathSep sub))
    (hwalk : fs.Walkable loc (components pathSep sub)) :
    ∃ t, mkdirsPast fs (withAncestors (stripSlashes (baseDir fs₀ outputDir) ++ sub)) = some t ∧
      fs.Paved loc (components pathSep sub) t := by
  have hbase := ne_nil_of_leads h.leads
  obtain ⟨hleads, hdir⟩ := h.uphold hfs
  have hstart : fs.Paved loc [] fs := by
    refine .refl fun pre hpre => ?_
    rw [List.prefix_nil.mp hpre, List.append_nil]
    exact hdir
  induction hlen : sub.length using Nat.strong_induction_on generalizing sub with
  | _ k ih =>
    obtain ⟨a, n, rfl, hn⟩ := exists_last_slash (List.mem_of_mem_head? hsub)
    have ha : Behind a := by
      cases a with
      | nil => exact .inl rfl
      | cons x a => exact .inr hsub
    have hcomps : components pathSep (a ++ slash :: n) =
        components pathSep a ++ components pathSep n := components_sep a n
    have hpre : components pathSep a <+: components pathSep (a ++ slash :: n) :=
      hcomps ▸ List.prefix_append _ _
    have hnext := @Behind.components (baseDir fs₀ outputDir) _ (.inr hsub)
    have hhead := @Behind.head (baseDir fs₀ outputDir) _ (.inr hsub) hbase (by simp)
    -- what the calls for the ancestors leave
    obtain ⟨t, ht, hpaved⟩ : ∃ t, mkdirsPast fs
        (slashPrefixes (stripSlashes (baseDir fs₀ outputDir) ++ (a ++ slash :: n))) = some t ∧
        fs.Paved loc (components pathSep a) t := by
      rw [← List.append_assoc, slashPrefixes_last hn]
      split
      · rename_i hnil
        obtain rfl := (List.append_eq_nil_iff.mp hnil).2
        exact ⟨fs, rfl, hstart⟩
      · rename_i hne
        rcases ha with rfl | ha
        · rw [List.append_nil] at hne ⊢
          exact ⟨fs, h.mkdirsPast_base hfs hne (components_stripSlashes _) (head?_base h hne),
            hstart⟩
        · refine ih a.length ?_ ha (hdown.start hpre) (hwalk.start hpre) rfl
          rw [← hlen, List.length_append, List.length_cons]
          omega
    have hup := hfs.trans (hpaved.upholds (hwalk.start hpre))
    rw [withAncestors, mkdirsPast_append, ht, Option.bind_some]
    by_cases hnil : n = []
    · subst hnil
      rw [show components pathSep [] = [] from rfl, List.append_nil] at hcomps
      rw [hcomps] at hnext hdown ⊢
      refine ⟨t, ?_, hpaved⟩
      rw [mkdirsPast, h.mkdirPast_again hup hpaved hdown hnext hhead]
      rfl
    · have hone : components pathSep n = [n] := IsComponent.components ⟨hnil, hn⟩
      rw [hone] at hcomps
      rw [hcomps] at hnext hdown hwalk ⊢
      obtain ⟨u, hu, hpaved'⟩ := h.mkdirPast_step hup hpaved hdown hwalk hnext hhead
      refine ⟨u, ?_, hpaved'⟩
      rw [mkdirsPast, hu]
      rfl

/-- `scp_mkdir_recursive` makes the directories below the base. -/
theorem OutputDir.scpMkdirRecursive_paves (h : OutputDir outputDir loc fs₀) (hfs : Upholds fs₀ fs)
    (hsub : Behind sub) (hdown : Downward (components pathSep sub))
    (hwalk : fs.Walkable loc (components pathSep sub))
    (hlen : (stripSlashes (baseDir fs₀ outputDir) ++ sub).length < scpMaxPathLen) :
    Program.Ensures unfailing (scpMkdirRecursive (stripSlashes (baseDir fs₀ outputDir) ++ sub))
      (fun _ t => fs.Paved loc (components pathSep sub) t) fs := by
  have hbase := ne_nil_of_leads h.leads
  obtain ⟨hleads, hdir⟩ := h.uphold hfs
  have hstart : fs.Paved loc [] fs := by
    refine .refl fun pre hpre => ?_
    rw [List.prefix_nil.mp hpre, List.append_nil]
    exact hdir
  obtain ⟨sub', htarget, hsub', hcomps⟩ := hsub.target hlen
  rw [← hcomps] at hdown hwalk ⊢
  by_cases hempty : stripSlashes (baseDir fs₀ outputDir) ++ sub' = []
  · refine scpMkdirRecursive_empty (htarget.trans hempty) ?_
    rw [(List.append_eq_nil_iff.mp hempty).2]
    exact hstart
  have hnext := @Behind.components (baseDir fs₀ outputDir) _ hsub'
  have hhead := hsub'.head hbase hempty
  refine scpMkdirRecursive_unfailing ?_ ?_ <;> rw [htarget]
  · intro t ht
    rcases List.eq_nil_or_concat' (components pathSep sub') with hnil | ⟨ms, n, hconcat⟩
    · rw [hnil] at hnext ⊢
      rw [List.append_nil] at hnext
      rw [h.mkdirPast_cut hfs ((List.append_nil _).trans hnext) hhead] at ht
      exact Option.some.inj ht ▸ hstart
    · rw [hconcat] at hnext hdown hwalk ⊢
      obtain ⟨x, hx, -⟩ := Option.map_eq_some_iff.mp ht
      -- where the directory can be made at once, there are those above it
      have hplain : Passes Plain fs.lookup loc [] (ms ++ [n]) := by
        refine (passes_names hdown).mpr fun pre hpre _ target htarget => ?_
        rcases hwalk pre hpre with hl | hl <;> rw [hl] at htarget <;> cases htarget
      have hdirs := (passes_names hdown).mp (locateDir_way hleads hdir hnext hhead (by simp)
        (way_names hdown) hplain hx).2
      have hpaved : fs.Paved loc ms fs := by
        refine .refl fun pre hpre => hdirs pre (hpre.trans (List.prefix_append _ _)) ?_
        rintro rfl
        simpa using hpre.length_le
      obtain ⟨u, hu, hpaved'⟩ := h.mkdirPast_step hfs hpaved hdown hwalk hnext hhead
      exact Option.some.inj (ht.symm.trans hu) ▸ hpaved'
  · rcases hsub' with rfl | hsub'
    · rw [List.append_nil] at hempty ⊢
      exact ⟨fs, h.mkdirsPast_base hfs hempty (components_stripSlashes _) (head?_base h hempty),
        hstart⟩
    · exact h.mkdirsPast_paves hfs hsub' hdown hwalk

/-- `tmp` has the names of the path, and starts like it. -/
theorem mkdirTarget_same {path : Path} (h : path.length < scpMaxPathLen) :
    components pathSep (mkdirTarget path) = components pathSep path ∧
      (mkdirTarget path ≠ [] → (mkdirTarget path).head? = path.head?) := by
  simp only [mkdirTarget, snprintf_eq h]
  split
  · rename_i hlast
    obtain ⟨front, rfl⟩ := List.getLast?_eq_some_iff.mp hlast
    rw [List.dropLast_concat]
    exact ⟨(components_trailing (by simp [slash, pathSep])).symm,
      fun hne => (List.head?_append_of_ne_nil _ hne).symm⟩
  · exact ⟨rfl, fun _ => rfl⟩

/-- The receiver finds its base directory and makes nothing. -/
theorem openBase_unfailing (h : OutputDir outputDir loc fs) :
    Program.Ensures unfailing (openBase outputDir)
      (fun r t => r = some (baseDir fs outputDir) ∧ t = fs) fs := by
  cases outputDir with
  | none =>
    refine ensures_last fun r hr => ?_
    obtain ⟨fd, -, rfl⟩ := hr
    exact ⟨rfl, rfl⟩
  | some dir =>
    have hlen : (baseDir fs (some dir)).length < scpMaxPathLen := by
      have := List.length_take_le (scpMaxPathLen - 1) (cString dir)
      exact lt_of_le_of_lt this (by decide)
    obtain ⟨hcomp, hhead⟩ := mkdirTarget_same hlen
    have hmkdir : Program.Ensures unfailing (scpMkdirRecursive (baseDir fs (some dir)))
        (fun _ t => t = fs) fs := by
      by_cases hempty : mkdirTarget (baseDir fs (some dir)) = []
      · exact scpMkdirRecursive_empty hempty rfl
      have hhead := hhead hempty
      refine scpMkdirRecursive_unfailing (fun t ht => ?_)
        ⟨fs, h.mkdirsPast_base (.refl fs) hempty hcomp hhead, rfl⟩
      rw [h.mkdirPast_cut (.refl fs) ((List.append_nil _).trans hcomp) hhead] at ht
      exact (Option.some.inj ht).symm
    refine hmkdir.bind ?_
    rintro _ _ rfl
    exact ⟨rfl, rfl⟩

end Below

end ScpRdma.Receiver

import ScpRdma.Foundations.Ways
import ScpRdma.Receiver.Calls
import ScpRdma.Receiver.FileCalls
import ScpRdma.Receiver.Totals

/-!
# Which paths stay in the output directory

The receiver makes a path from its base directory and a name that the peer chose. It does not look
at the name, and it does not look at what the path leads through. As long as the names that come
stay below the directory themselves, and lead through no link, whatever is created, opened for
writing or removed is below it; otherwise the peer reaches any place.
-/
namespace ScpRdma.Receiver
open Foundations FileSystem

/-! ## Cuts of a path -/

/-- A part of `path` that ends before a slash, or all of it. -/
def Cut (part path : Path) : Prop := part = path ∨ ∃ rest, path = part ++ slash :: rest

theorem Cut.trans {a b c : Path} (h : Cut a b) (h' : Cut b c) : Cut a c := by
  rcases h with rfl | ⟨rest, rfl⟩
  · exact h'
  · rcases h' with rfl | ⟨rest', rfl⟩
    · exact .inr ⟨rest, rfl⟩
    · exact .inr ⟨rest ++ slash :: rest', by simp⟩

theorem Cut.length_le {a b : Path} (h : Cut a b) : a.length ≤ b.length := by
  rcases h with rfl | ⟨rest, rfl⟩
  · exact le_rfl
  · simp

theorem parentPath_cut {path parent : Path} (h : parentPath path = some parent) :
    Cut parent path := by
  obtain ⟨hmem, ⟨⟩⟩ := Option.ite_none_right_eq_some.mp h
  have hsplit : path.reverse.takeWhile (fun x => decide (x ≠ slash)) ++
      path.reverse.dropWhile (fun x => decide (x ≠ slash)) = path.reverse :=
    List.takeWhile_append_dropWhile
  cases hdrop : path.reverse.dropWhile fun x => decide (x ≠ slash) with
  | nil =>
    have := List.dropWhile_eq_nil_iff.mp hdrop slash (List.mem_reverse.mpr hmem)
    simp at this
  | cons x front =>
    have hx : x = slash := by
      have := List.head?_dropWhile_not (fun x => decide (x ≠ slash)) path.reverse
      rw [hdrop] at this
      simpa using this
    rw [hdrop, hx] at hsplit
    refine .inr ⟨(path.reverse.takeWhile fun x => decide (x ≠ slash)).reverse, ?_⟩
    have := congrArg List.reverse hsplit
    simpa using this.symm

theorem mkdirPaths_cut {path dir : Path} (hlen : path.length < scpMaxPathLen)
    (h : dir ∈ mkdirPaths path) : Cut dir path := by
  have htarget : Cut (mkdirTarget path) path := by
    simp only [mkdirTarget, snprintf_eq hlen]
    split
    · obtain ⟨front, hfront⟩ := List.getLast?_eq_some_iff.mp ‹_›
      exact .inr ⟨[], by simp [hfront]⟩
    · exact .inl rfl
  rcases List.mem_cons.mp h with rfl | h
  · exact htarget
  · obtain ⟨i, hi, rfl⟩ := List.mem_map.mp h
    obtain ⟨-, hi⟩ := List.mem_filter.mp hi
    have hslash : (mkdirTarget path)[i]? = some slash := (of_decide_eq_true hi).2
    obtain ⟨hlt, hget⟩ := List.getElem?_eq_some_iff.mp hslash
    refine Cut.trans (.inr ⟨(mkdirTarget path).drop (i + 1), ?_⟩) htarget
    rw [← hget, List.getElem_cons_drop, List.take_append_drop]

/-! ## Names that stay below the directory -/

theorem stripSlashes_append (path : Path) :
    ∃ tail, (∀ x ∈ tail, x = slash) ∧ stripSlashes path ++ tail = path := by
  refine ⟨(path.reverse.takeWhile fun x => decide (x = slash)).reverse, ?_, ?_⟩
  · intro x hx
    have := List.mem_takeWhile_imp (List.mem_reverse.mp hx)
    exact of_decide_eq_true this
  · unfold stripSlashes
    rw [← List.reverse_append, List.takeWhile_append_dropWhile, List.reverse_reverse]

theorem components_stripSlashes (path : Path) :
    components pathSep (stripSlashes path) = components pathSep path := by
  obtain ⟨tail, htail, hpath⟩ := stripSlashes_append path
  conv_rhs => rw [← hpath]
  exact (components_trailing htail).symm

theorem head?_stripSlashes {path : Path} (h : path ≠ []) :
    (stripSlashes path ++ [slash]).head? = path.head? := by
  obtain ⟨tail, htail, hpath⟩ := stripSlashes_append path
  cases hstrip : stripSlashes path with
  | cons x front =>
    rw [hstrip] at hpath
    rw [← hpath]
    rfl
  | nil =>
    rw [hstrip, List.nil_append] at hpath
    cases tail with
    | nil => exact absurd hpath.symm h
    | cons x tail =>
      rw [← hpath, htail x (List.mem_cons_self ..)]
      rfl

/-- `base_dir` at the start of the loop. -/
def baseDir (fs : FileSystem) : Option Path → Path
  | some dir => (cString dir).take (scpMaxPathLen - 1)
  | none => if fs.cwd = [] then [pathSep] else joinPath pathSep [] fs.cwd

/-- The base directory is the directory `loc`, and there is no link in it or below it. -/
structure OutputDir (outputDir : Option Path) (loc : Location) (fs : FileSystem) : Prop where
  rooted : fs.Rooted
  leads : fs.locate true (baseDir fs outputDir) = some loc
  directory : fs.lookup loc = some .directory
  plain : ∀ x, Plain (fs.lookup (loc ++ x))

section Tame

variable {base path dir : Path} {loc x : Location} {fs fs' fs₀ : FileSystem}
  {outputDir : Option Path} {follow : Bool}

/-- What stands behind the base in `path` stays below it at every name, and leads through no link,
the last name apart. -/
def Tame (base : Path) (loc : Location) (path : Path) (fs : FileSystem) : Prop :=
  ∃ rest m, path = stripSlashes base ++ slash :: rest ∧
    way [] (pathNames (slash :: rest)) = some m ∧
    Passes Plain fs.lookup loc [] (pathNames (slash :: rest))

/-- Nor does its last name lead to a link. -/
def NoLink (base : Path) (loc : Location) (path : Path) (fs : FileSystem) : Prop :=
  ∀ rest m, path = stripSlashes base ++ slash :: rest →
    way [] (pathNames (slash :: rest)) = some m → Plain (fs.lookup (loc ++ m))

theorem Tame.mono (h : Tame base loc path fs)
    (hplain : ∀ x, Plain (fs.lookup x) → Plain (fs'.lookup x)) : Tame base loc path fs' := by
  obtain ⟨rest, m, hpath, hway, hpass⟩ := h
  exact ⟨rest, m, hpath, hway, hpass.mono hplain⟩

theorem NoLink.mono (h : NoLink base loc path fs)
    (hplain : ∀ x, Plain (fs.lookup x) → Plain (fs'.lookup x)) : NoLink base loc path fs' :=
  fun rest m hpath hway => hplain _ (h rest m hpath hway)

theorem ne_nil_of_leads (h : fs.locate follow path = some x) : path ≠ [] := by
  rintro rfl
  cases h

/-- A tame path leads below the base, through directories. -/
theorem Tame.leads (h : Tame base loc path fs) (hbase : fs.locate true base = some loc)
    (hdir : fs.lookup loc = some .directory) (hlast : follow = true → NoLink base loc path fs)
    (hx : fs.locate follow path = some x) :
    ∃ rest m, path = stripSlashes base ++ slash :: rest ∧
      way [] (pathNames (slash :: rest)) = some m ∧ x = loc ++ m ∧
      Passes (· = some .directory) fs.lookup loc [] (pathNames (slash :: rest)) := by
  obtain ⟨rest, m, rfl, hway, hpass⟩ := h
  obtain ⟨hx, hdirs⟩ := locate_into hbase hdir (components_stripSlashes base)
    (head?_stripSlashes (ne_nil_of_leads hbase)) hway hpass
    (fun hf => hlast hf rest m rfl hway) hx
  exact ⟨rest, m, rfl, hway, hx, hdirs⟩

theorem Cut.ne_nil_head (h : Cut dir path) (hne : dir ≠ []) : dir.head? = path.head? := by
  rcases h with rfl | ⟨rest, rfl⟩
  · rfl
  · exact (List.head?_append_of_ne_nil _ hne).symm

theorem Cut.components (h : Cut dir path) :
    ∃ ns, components pathSep path = components pathSep dir ++ ns := by
  rcases h with rfl | ⟨rest, rfl⟩
  · exact ⟨[], (List.append_nil _).symm⟩
  · exact ⟨_, components_sep _ _⟩

/-- Where a directory is made on the way to the base, there is one. -/
theorem OutputDir.present (h : OutputDir outputDir loc fs₀) (hfs : Upholds fs₀ fs)
    (hcomp : ∃ ns, components pathSep (baseDir fs₀ outputDir) = components pathSep dir ++ ns)
    (hhead : dir.head? = (baseDir fs₀ outputDir).head?) (hx : fs.locateDir dir = some x) :
    fs.lookup x ≠ none := by
  obtain ⟨ns, hns⟩ := hcomp
  exact locateDir_present hfs h.rooted h.leads h.directory hns.symm hhead hx

theorem OutputDir.uphold (h : OutputDir outputDir loc fs₀) (hfs : Upholds fs₀ fs) :
    fs.locate true (baseDir fs₀ outputDir) = some loc ∧ fs.lookup loc = some .directory :=
  ⟨hfs.locate h.leads h.directory, hfs.keeps _ _ h.directory (by simp)⟩

/-- A directory that is made on a tame path is made below the base. -/
theorem Tame.mkdir (h : OutputDir outputDir loc fs₀) (hfs : Upholds fs₀ fs)
    (ht : Tame (baseDir fs₀ outputDir) loc path fs) (hcut : Cut dir path)
    (hx : fs.locateDir dir = some x) (hnone : fs.lookup x = none) : loc <+: x := by
  obtain ⟨rest, m, rfl, hway, hpass⟩ := ht
  obtain ⟨hbase, hdir⟩ := h.uphold hfs
  have hne : dir ≠ [] := by
    rintro rfl
    cases hx
  have hhead : dir.head? = (baseDir fs₀ outputDir).head? := by
    rw [hcut.ne_nil_head hne, ← head?_stripSlashes (ne_nil_of_leads hbase)]
    cases stripSlashes (baseDir fs₀ outputDir) <;> rfl
  obtain ⟨ns, hns⟩ := hcut.components
  rw [show slash = pathSep from rfl, components_sep, components_stripSlashes] at hns
  rcases List.append_eq_append_iff.mp hns with ⟨ms, hms, hrest⟩ | ⟨ms, hms, -⟩
  · by_cases hnil : ms = []
    · subst hnil
      exact absurd hnone (h.present hfs ⟨[], by simp [hms]⟩ hhead hx)
    · -- the names of the directory behind the base are the first of the path
      have hnames : pathNames (slash :: rest) =
          ms ++ (ns ++ if (slash :: rest).getLast? = some pathSep then [selfName] else []) := by
        have hsub : components pathSep (slash :: rest) = components pathSep rest := by
          simp [Foundations.components, componentsFrom, slash, pathSep]
        rw [pathNames, hsub, hrest, List.append_assoc]
      rw [hnames] at hway hpass
      obtain ⟨m', hm'⟩ := way_start hway
      exact ⟨m', (locateDir_into hbase hdir hms hhead hnil hm' hpass.start hx).symm⟩
  · exact absurd hnone (h.present hfs ⟨ms, hms⟩ hhead hx)

end Tame

/-! ## The calls -/

/-- What `o` creates as a directory, opens for writing, removes or creates as a link is at `loc` or
below it. -/
def Contained (loc : Location) : FileOp → FileSystem → Prop
  | .mkdir path, fs => ∀ x, fs.locateDir path = some x → fs.lookup x = none → loc <+: x
  | .openFile path _, fs => ∀ x, fs.locate true path = some x → loc <+: x
  | .unlink path, fs | .symlink _ path, fs => ∀ x, fs.locate false path = some x → loc <+: x
  | _, _ => True

section Calls

variable {base path : Path} {loc x : Location} {fs fs₀ : FileSystem} {outputDir : Option Path}
  {o : FileOp} {r : FileResponse o}

theorem plain_put {e : Option Entry} (he : Plain e) (y : Location) (hy : Plain (fs.lookup y)) :
    Plain ((fs.put x e).lookup y) := by
  by_cases hyx : y = x
  · subst hyx
    unfold FileSystem.lookup at hy ⊢
    split
    · exact fun _ => by simp
    · rwa [entry_put_self]
  · rwa [lookup_put_of_ne hyx]

theorem lookup_of_entry {fs' : FileSystem} (h : fs'.entry = fs.entry) : fs'.lookup = fs.lookup := by
  funext y
  rw [FileSystem.lookup, FileSystem.lookup, h]

/-- The entries after a call: a new object at an empty place, one object less, or the same. -/
inductive Entries (fs : FileSystem) : FileOp → FileSystem → Prop where
  | same {o fs'} : fs'.entry = fs.entry → fs'.cwd = fs.cwd → Entries fs o fs'
  | made {o fs'} (x : Location) (e : Entry) : fs.lookup x = none →
      ((∃ target path, o = .symlink target path ∧ fs.locate false path = some x) ∨ Plain (some e)) →
      fs'.entry = (fs.put x (some e)).entry → fs'.cwd = fs.cwd → Entries fs o fs'
  | removed {path fs'} (x : Location) : fs.locate false path = some x →
      fs.lookup x ≠ some .directory → fs' = fs.put x none → Entries fs (.unlink path) fs'

/-- The calls that are not about a path. -/
def OnDescriptor : FileOp → Prop
  | .close _ | .lseek _ _ | .write _ _ => True
  | _ => False

theorem next_onDescriptor (ho : OnDescriptor o) :
    (FileCall.next o fs r).entry = fs.entry ∧ (FileCall.next o fs r).cwd = fs.cwd := by
  cases o with
  | close => exact ⟨rfl, rfl⟩
  | lseek fd off =>
    cases r with
    | false => exact ⟨rfl, rfl⟩
    | true =>
      simp only [FileCall.next, seek]
      split <;> exact ⟨rfl, rfl⟩
  | write fd data =>
    cases r with
    | none => exact ⟨rfl, rfl⟩
    | some n =>
      simp only [FileCall.next, FileSystem.write]
      split <;> exact ⟨rfl, rfl⟩
  | _ => exact ho.elim

theorem entries_onDescriptor (ho : OnDescriptor o) : Entries fs o (FileCall.next o fs r) :=
  .same (next_onDescriptor ho).1 (next_onDescriptor ho).2

theorem entries_next (hr : FileCall.allow o fs r) : Entries fs o (FileCall.next o fs r) := by
  cases o with
  | mkdir path =>
    cases r with
    | error | «exists» => exact .same rfl rfl
    | created =>
      rcases hr with h | ⟨x, hx, h⟩
      · cases h
      · rw [FileCall.next_mkdir hx]
        refine .made x .directory ?_ (.inr (by simp [Plain])) rfl rfl
        cases hl : fs.lookup x with
        | none => rfl
        | some e => rw [hl] at h; cases h
  | openFile path mode =>
    cases r with
    | none => exact .same rfl rfl
    | some fd =>
      obtain ⟨-, x, hx, hfree⟩ := hr fd rfl
      rw [FileCall.next_openFile hx]
      rcases hfree with hl | ⟨ino, hl⟩
      · refine .made x (.file fs.nextIno) hl (.inr (by simp [Plain])) ?_ ?_ <;>
          simp [openAt, hl, create, setDescriptor, setContent, put]
      · refine .same ?_ ?_ <;> simp [openAt, hl, setDescriptor, setContent]
  | unlink path =>
    cases r with
    | false => exact .same rfl rfl
    | true =>
      obtain ⟨x, e, hx, hl, hne⟩ := hr rfl
      rw [FileCall.next_unlink hx]
      exact .removed x hx (by simp [hl, hne]) rfl
  | symlink target path =>
    cases r with
    | false => exact .same rfl rfl
    | true =>
      obtain ⟨-, x, hx, hl⟩ := hr rfl
      rw [FileCall.next_symlink hx]
      exact .made x (.link target) hl (.inl ⟨target, path, rfl, hx⟩) rfl rfl
  | stat | getcwd => exact .same rfl rfl
  | close | lseek | write =>
    exact entries_onDescriptor trivial

/-- No call in the output directory removes a directory or a link that was there before. -/
theorem upholds_next (h : OutputDir outputDir loc fs₀) (hfs : Upholds fs₀ fs)
    (hin : Contained loc o fs) (hr : FileCall.allow o fs r) :
    Upholds fs₀ (FileCall.next o fs r) := by
  have hnew : ∀ x, fs.lookup x = none → ∀ e, fs₀.lookup x = some e → ∃ ino, e = .file ino := by
    intro x hx e he
    by_contra hne
    have := hfs.keeps x e he fun ino hino => hne ⟨ino, hino⟩
    simp [hx] at this
  cases entries_next hr with
  | same hentry hcwd => exact hfs.congr hentry hcwd
  | made x e hnone _ hentry hcwd =>
    exact (hfs.put (hnew x hnone) (e := some e)).congr hentry hcwd
  | removed x hx hl hput =>
    rw [hput]
    refine hfs.put fun e he => ?_
    obtain ⟨m, rfl⟩ := hin x hx
    cases e with
    | file ino => exact ⟨ino, rfl⟩
    | directory => exact absurd (hfs.keeps _ _ he (by simp)) hl
    | link target => exact absurd he (h.plain m target)

/-- Any call but `symlink` leaves what is no link so. -/
theorem plain_next (hr : FileCall.allow o fs r) (ho : ∀ target path, o ≠ .symlink target path)
    (y : Location) (hy : Plain (fs.lookup y)) : Plain ((FileCall.next o fs r).lookup y) := by
  cases entries_next hr with
  | same hentry hcwd => rwa [lookup_of_entry hentry]
  | made x e hnone he hentry hcwd =>
    rcases he with ⟨target, path, rfl, -⟩ | he
    · exact absurd rfl (ho target path)
    · rw [lookup_of_entry hentry]
      exact plain_put he y hy
  | removed x hx hl hput =>
    rw [hput]
    exact plain_put (fun _ => by simp) y hy

/-- A link at the end of a tame path is not on its way. -/
theorem Tame.symlink {target : Path} {r : Bool} (h : OutputDir outputDir loc fs₀)
    (hfs : Upholds fs₀ fs) (ht : Tame (baseDir fs₀ outputDir) loc path fs)
    (hr : FileCall.allow (.symlink target path) fs r) :
    Tame (baseDir fs₀ outputDir) loc path (FileCall.next (.symlink target path) fs r) := by
  obtain ⟨hbase, hdir⟩ := h.uphold hfs
  cases r with
  | false => exact ht
  | true =>
    obtain ⟨-, x, hx, hnone⟩ := hr rfl
    rw [FileCall.next_symlink hx]
    have hlast : false = true → NoLink (baseDir fs₀ outputDir) loc path fs := by simp
    obtain ⟨rest, m, hpath, hway, -, hdirs⟩ := ht.leads hbase hdir hlast hx
    refine ⟨rest, m, hpath, hway, fun before after y hsplit hne hy => ?_⟩
    have hd := hdirs before after y hsplit hne hy
    rw [lookup_put_of_ne, hd]
    · exact fun _ => by simp
    · rintro rfl
      simp [hnone] at hd

end Calls

/-! ## Runs -/

/-- The names that come are tame, and where a file is to be opened there is no link. Everything
else that comes is arbitrary. -/
def World.mindful (base : Path) (loc : Location) : World FileSystem
  | .loadCString _, s, name => Tame base loc (targetPath base name) s.os
  | .file (.stat path), s, _ => s.ctx.metaType ≠ FileType.symlink.byte → NoLink base loc path s.os
  | _, _, _ => True

def containment (loc : Location) : Duties signature (State FileSystem) where
  op o s := match o with
    | .file o => Contained loc o s.os
    | _ => True
  call _ _ := True

section Rules

variable {F : Type} {M : Semantics fileSignature F} {W : World F} {D : Duties signature (State F)}
  {n : Nat} {α β : Type} {Q : β → State F → Prop} {s : State F}

/-- File calls of one kind keep what each of them keeps. -/
theorem meets_calls {P : FileOp → Prop} {J : F → Prop} {p : Files α} {f : α → Receiver β}
    (hp : Calls P p) (hD : ∀ o os, P o → J os → D.op (.file o) { s with os := os })
    (hJ : ∀ o os r, P o → J os → M.allow o os r → J (M.next o os r)) (hs : J s.os)
    (h : ∀ a os, J os → Meets M W D n (f a) Q { s with os := os }) :
    Meets M W D n (files p >>= f) Q s := by
  induction p generalizing s with
  | done a => exact h a s.os hs
  | op o k ih =>
    refine wp.op (hD o s.os hp.1 hs) fun r hr => ?_
    exact ih r (hp.2 r) (fun o os => hD o os) (hJ o s.os r hp.1 hs hr.1) h
  | call c k => cases c

theorem meets_isDirectory {path : Path} {f : Bool → Receiver β}
    (hD : D.op (.file (.stat path)) s)
    (h : ∀ r, M.allow (.stat path) s.os r → W (.file (.stat path)) s r → ∀ isDir,
      Meets M W D n (f isDir) Q { s with os := M.next (.stat path) s.os r }) :
    Meets M W D n (files (isDirectory path) >>= f) Q s := by
  refine meets_ask (o := .file (.stat path)) hD fun r hr hW => ?_
  cases r with
  | none => exact h none hr hW false
  | some isDir => exact h (some isDir) hr hW isDir

theorem meets_bookless {p : Receiver α} {f : α → Receiver β} (hp : Bookless p)
    (hD : ∀ o s, Steady o → D.op o s) (hC : ∀ c s, Polls c → D.call c s)
    (h : ∀ a t, SameBooks s t → Meets M W D n (f a) Q t) : Meets M W D n (p >>= f) Q s :=
  wp.bind (hp.wp_keeps polls_bookless (fun o s ho _ => hD o s ho) hC
    (fun _ _ _ ho hst => hst.next ho) (.refl s)) h

end Rules

section Session

variable {outputDir : Option Path} {loc : Location} {fs₀ : FileSystem} {n : Nat} {α : Type}
  {Q : α → State FileSystem → Prop} {s : State FileSystem} {path : Path} {q : Prop}
  {fs : FileSystem} {x : Location}

/-- The precondition of a part of the receiver whose every call is contained. -/
abbrev Stays (outputDir : Option Path) (loc : Location) (fs₀ : FileSystem) (n : Nat)
    (p : Receiver α) (Q : α → State FileSystem → Prop) (s : State FileSystem) : Prop :=
  Meets fileCalls (.mindful (baseDir fs₀ outputDir) loc) (containment loc) n p Q s

/-- What the calls for a tame path keep; for a path that is opened, that it is no link. -/
structure Aimed (outputDir : Option Path) (loc : Location) (fs₀ : FileSystem) (path : Path)
    (q : Prop) (fs : FileSystem) : Prop where
  upholds : Upholds fs₀ fs
  tame : Tame (baseDir fs₀ outputDir) loc path fs
  noLink : q → NoLink (baseDir fs₀ outputDir) loc path fs

theorem Aimed.opened (ha : Aimed outputDir loc fs₀ path q fs) (h : OutputDir outputDir loc fs₀)
    {follow : Bool} (hlink : follow = true → NoLink (baseDir fs₀ outputDir) loc path fs)
    (hx : fs.locate follow path = some x) : loc <+: x := by
  obtain ⟨hbase, hdir⟩ := h.uphold ha.upholds
  obtain ⟨rest, m, -, -, rfl, -⟩ := ha.tame.leads hbase hdir hlink hx
  exact List.prefix_append loc m

theorem Aimed.next {o : FileOp} {r : FileResponse o} (ha : Aimed outputDir loc fs₀ path q fs)
    (h : OutputDir outputDir loc fs₀) (hin : Contained loc o fs) (hr : FileCall.allow o fs r)
    (ho : ∀ target path, o ≠ .symlink target path) :
    Aimed outputDir loc fs₀ path q (FileCall.next o fs r) :=
  ⟨upholds_next h ha.upholds hin hr, ha.tame.mono (plain_next hr ho),
    fun hq => (ha.noLink hq).mono (plain_next hr ho)⟩

/-- The calls that come before a tame path is opened or made a link. -/
def Preparing (path : Path) : FileOp → Prop
  | .mkdir dir => Cut dir path
  | .close _ => True
  | _ => False

theorem Preparing.inside (h : OutputDir outputDir loc fs₀) {o : FileOp} {fs : FileSystem}
    (ho : Preparing path o) (ha : Aimed outputDir loc fs₀ path q fs) : Contained loc o fs := by
  cases o with
  | mkdir dir => exact fun x hx hnone => ha.tame.mkdir h ha.upholds ho hx hnone
  | close => trivial
  | _ => exact ho.elim

theorem Preparing.keeps (h : OutputDir outputDir loc fs₀) {o : FileOp} {fs : FileSystem}
    {r : FileResponse o} (ho : Preparing path o) (ha : Aimed outputDir loc fs₀ path q fs)
    (hr : FileCall.allow o fs r) : Aimed outputDir loc fs₀ path q (FileCall.next o fs r) :=
  ha.next h (ho.inside h ha) hr (by rintro target path rfl; exact ho)

theorem stays_prepare {p : Files α} {f : α → Receiver β} {Q : β → State FileSystem → Prop}
    (h : OutputDir outputDir loc fs₀) (hp : Calls (Preparing path) p)
    (ha : Aimed outputDir loc fs₀ path q s.os)
    (hf : ∀ a fs, Aimed outputDir loc fs₀ path q fs →
      Stays outputDir loc fs₀ n (f a) Q { s with os := fs }) :
    Stays outputDir loc fs₀ n (files p >>= f) Q s :=
  meets_calls hp (fun _ _ ho ha => ho.inside h ha) (fun _ _ _ ho ha hr => ho.keeps h ha hr) ha hf

theorem stays_mkdirRecursive {dir : Path} {f : Int → Receiver α} (h : OutputDir outputDir loc fs₀)
    (hlen : path.length < scpMaxPathLen) (hcut : Cut dir path)
    (ha : Aimed outputDir loc fs₀ path q s.os)
    (hf : ∀ a fs, Aimed outputDir loc fs₀ path q fs →
      Stays outputDir loc fs₀ n (f a) Q { s with os := fs }) :
    Stays outputDir loc fs₀ n (mkdirRecursive dir >>= f) Q s := by
  unfold mkdirRecursive
  split
  · exact wp.op trivial fun r => r.elim
  · refine stays_prepare h (scpMkdirRecursive_calls fun d hd => ?_) ha hf
    exact (mkdirPaths_cut (hcut.length_le.trans_lt hlen) hd).trans hcut

theorem stays_mkdirParent {f : Unit → Receiver α} (h : OutputDir outputDir loc fs₀)
    (hlen : path.length < scpMaxPathLen) (ha : Aimed outputDir loc fs₀ path q s.os)
    (hf : ∀ fs, Aimed outputDir loc fs₀ path q fs →
      Stays outputDir loc fs₀ n (f ()) Q { s with os := fs }) :
    Stays outputDir loc fs₀ n (mkdirParent path >>= f) Q s := by
  unfold mkdirParent
  cases hparent : parentPath path with
  | none => exact hf s.os ha
  | some parent =>
    change Stays outputDir loc fs₀ n (((mkdirRecursive parent).bind fun _ => .done ()).bind f) Q s
    rw [Program.bind_assoc]
    exact stays_mkdirRecursive h hlen (parentPath_cut hparent) ha fun _ fs ha => hf fs ha

/-- At the head of the loop: `current_path` is empty or tame. -/
structure Sheltered (outputDir : Option Path) (loc : Location) (fs₀ : FileSystem) (l : Locals)
    (fs : FileSystem) : Prop where
  base : l.baseDir = baseDir fs₀ outputDir
  upholds : Upholds fs₀ fs
  current : l.currentPath = [] ∨ Tame (baseDir fs₀ outputDir) loc l.currentPath fs

theorem Aimed.sheltered {l : Locals} {fs : FileSystem}
    (ha : Aimed outputDir loc fs₀ path q fs) (hbase : l.baseDir = baseDir fs₀ outputDir)
    (hpath : l.currentPath = path) : Sheltered outputDir loc fs₀ l fs :=
  ⟨hbase, ha.upholds, .inr (hpath ▸ ha.tame)⟩

theorem handleFileMeta_stays {l : Locals} {base : Nat} (h : OutputDir outputDir loc fs₀)
    (hl : Sheltered outputDir loc fs₀ l s.os) :
    Stays outputDir loc fs₀ n (handleFileMeta l base)
      (fun l' t => Sheltered outputDir loc fs₀ l' t.os) s := by
  refine meets_ask trivial fun bs hbs _ => meets_update trivial ?_
  refine meets_ask trivial fun name _ htame => ?_
  rw [hl.base]
  have htame : Tame (baseDir fs₀ outputDir) loc (targetPath (baseDir fs₀ outputDir) name) s.os :=
    htame
  refine meets_isDirectory trivial fun r _ hlink isDir => ?_
  have ha : Aimed outputDir loc fs₀ (targetPath (baseDir fs₀ outputDir) name)
      (UInt8.ofNat (leNat bs) ≠ FileType.symlink.byte) s.os := ⟨hl.upholds, htame, hlink⟩
  have hclose : ∀ fd,
      Calls (Preparing (targetPath (baseDir fs₀ outputDir) name)) (closeCurrent fd) := fun fd =>
    closeCurrent_calls fun _ => trivial
  cases isDir with
  | true =>
    refine stays_prepare h (hclose _) ha fun _ fs ha => ?_
    exact wp.done (ha.sheltered rfl rfl)
  | false =>
  refine stays_mkdirParent h (length_targetPath_lt _ _) ha fun fs ha => ?_
  refine stays_prepare h (hclose _) ha fun _ fs ha => ?_
  split
  · rename_i htype
    have htype : UInt8.ofNat (leNat bs) ≠ FileType.symlink.byte := by
      intro hlink
      have hlt : leNat bs < 256 := by
        have := leNat_lt bs
        rwa [show bs.length = 1 from hbs] at this
      refine htype ?_
      rw [← hlink, UInt8.toNat_ofNat_of_lt' hlt]
    refine meets_ask trivial fun mode _ _ => ?_
    have hin : ∀ mode,
        Contained loc (.openFile (targetPath (baseDir fs₀ outputDir) name) mode) fs :=
      fun _ x hx => ha.opened h (fun _ => ha.noLink htype) hx
    refine meets_ask (o := .file (.openFile _ _)) (hin (leNat mode)) fun fd hfd _ => ?_
    refine meets_update trivial ?_
    exact wp.done (Aimed.sheltered (ha.next h (hin (leNat mode)) hfd (by simp)) rfl rfl)
  · exact wp.done (ha.sheltered rfl rfl)

/-- What leaves the entries as they are. -/
theorem Sheltered.same {l : Locals} {fs fs' : FileSystem} (hl : Sheltered outputDir loc fs₀ l fs)
    (hentry : fs'.entry = fs.entry) (hcwd : fs'.cwd = fs.cwd) :
    Sheltered outputDir loc fs₀ l fs' := by
  refine ⟨hl.base, hl.upholds.congr hentry hcwd, hl.current.imp_right fun ht => ?_⟩
  exact ht.mono fun x hx => by rwa [lookup_of_entry hentry]

theorem stays_descriptor {l : Locals} {p : Files β} {f : β → Receiver α} (hp : Calls OnDescriptor p)
    (hl : Sheltered outputDir loc fs₀ l s.os)
    (hf : ∀ a fs, Sheltered outputDir loc fs₀ l fs →
      Stays outputDir loc fs₀ n (f a) Q { s with os := fs }) :
    Stays outputDir loc fs₀ n (files p >>= f) Q s := by
  refine meets_calls hp ?_ ?_ hl hf
  · intro o os ho _
    cases o with
    | close | lseek | write => trivial
    | _ => exact ho.elim
  · intro o os r ho hl _
    obtain ⟨hentry, hcwd⟩ := @next_onDescriptor os o r ho
    exact hl.same hentry hcwd

/-- A link takes the place of what was at `current_path`. -/
theorem stays_replaceByLink {l : Locals} {target : Path} {f : Bool → Receiver α}
    (h : OutputDir outputDir loc fs₀) (hl : Sheltered outputDir loc fs₀ l s.os)
    (hf : ∀ a fs, Sheltered outputDir loc fs₀ l fs →
      Stays outputDir loc fs₀ n (f a) Q { s with os := fs }) :
    Stays outputDir loc fs₀ n (files (replaceByLink target l.currentPath) >>= f) Q s := by
  have hin : ∀ fs, Sheltered outputDir loc fs₀ l fs →
      ∀ x, fs.locate false l.currentPath = some x → loc <+: x := by
    intro fs hl x hx
    rcases hl.current with hnil | ht
    · rw [hnil] at hx
      cases hx
    · exact Aimed.opened (q := False) ⟨hl.upholds, ht, False.elim⟩ h (by simp) hx
  refine meets_ask (o := .file (.unlink _)) (hin _ hl) fun r hr _ => ?_
  have hl' : Sheltered outputDir loc fs₀ l (FileCall.next (.unlink l.currentPath) s.os r) :=
    ⟨hl.base, upholds_next h hl.upholds (hin _ hl) hr,
      hl.current.imp_right fun ht => ht.mono (plain_next hr (by simp))⟩
  refine meets_ask (o := .file (.symlink _ _)) (hin _ hl') fun ok hok _ => ?_
  refine hf ok _ ⟨hl.base, upholds_next h hl'.upholds (hin _ hl') hok, ?_⟩
  exact hl'.current.imp_right fun ht => ht.symlink h hl'.upholds hok

theorem handleFileData_stays {l : Locals} {base : Nat} (h : OutputDir outputDir loc fs₀)
    (hl : Sheltered outputDir loc fs₀ l s.os) :
    Stays outputDir loc fs₀ n (handleFileData l base)
      (fun l' t => Sheltered outputDir loc fs₀ l' t.os) s := by
  refine meets_get trivial ?_
  split
  · refine meets_ask trivial fun size _ _ => meets_ask trivial fun target _ _ => ?_
    refine stays_replaceByLink h hl fun ok fs hl => ?_
    cases ok with
    | true => exact meets_update trivial (wp.done hl)
    | false => exact wp.done hl
  · cases l.currentFd with
    | none => exact wp.done hl
    | some fd =>
      refine meets_ask trivial fun off _ _ => meets_ask trivial fun size _ _ => ?_
      refine meets_ask trivial fun data _ _ => ?_
      refine stays_descriptor ?_ hl fun _ fs hl => meets_update trivial (wp.done hl)
      exact .bind (.ask trivial) fun _ => .bind (.ask trivial) fun _ => trivial

theorem handleDirEnter_stays {l : Locals} {base : Nat} (h : OutputDir outputDir loc fs₀)
    (hl : Sheltered outputDir loc fs₀ l s.os) :
    Stays outputDir loc fs₀ n (handleDirEnter l base)
      (fun l' t => Sheltered outputDir loc fs₀ l' t.os) s := by
  refine meets_ask trivial fun name _ htame => ?_
  rw [hl.base]
  have ha : Aimed outputDir loc fs₀ (targetPath (baseDir fs₀ outputDir) name) False s.os :=
    ⟨hl.upholds, htame, False.elim⟩
  refine stays_mkdirRecursive h (length_targetPath_lt _ _) (.inl rfl) ha fun _ fs ha => ?_
  exact meets_update trivial (wp.done (ha.sheltered rfl rfl))

theorem handleCommand_stays {l : Locals} {base cmd : Nat} (h : OutputDir outputDir loc fs₀)
    (hl : Sheltered outputDir loc fs₀ l s.os) :
    Stays outputDir loc fs₀ n (handleCommand l base cmd)
      (fun l' t => Sheltered outputDir loc fs₀ l' t.os) s := by
  have hclose : ∀ fd, Calls OnDescriptor (closeCurrent fd) :=
    fun fd => closeCurrent_calls fun _ => trivial
  unfold handleCommand
  split
  · exact handleFileMeta_stays h hl
  split
  · exact handleFileData_stays h hl
  split
  · exact handleDirEnter_stays h hl
  split
  · exact stays_descriptor (hclose _) hl fun _ _ hl => wp.done ⟨hl.base, hl.upholds, hl.current⟩
  split
  · exact stays_descriptor (hclose _) hl fun _ _ hl => wp.done hl
  · exact wp.done hl

theorem stays_bookless {p : Receiver β} {f : β → Receiver α} (hp : Bookless p)
    (hf : ∀ a t, t.os = s.os → Stays outputDir loc fs₀ n (f a) Q t) :
    Stays outputDir loc fs₀ n (p >>= f) Q s := by
  refine meets_bookless hp ?_ (fun _ _ _ => trivial) fun a t ht => hf a t ht.os
  intro o t ho
  cases o with
  | file => exact ho.elim
  | _ => trivial

theorem handleSignal_stays {l : Locals} {buf : Nat} (h : OutputDir outputDir loc fs₀)
    (hl : Sheltered outputDir loc fs₀ l s.os) :
    Stays outputDir loc fs₀ n (handleSignal l buf)
      (fun r t => ∀ l', r = some l' → Sheltered outputDir loc fs₀ l' t.os) s := by
  refine meets_ask trivial fun msg _ _ => ?_
  unfold handlePacket
  refine wp.bind (R := fun _ t => t.os = s.os) ?_ fun base t ht => ?_
  · unfold slotOffset
    split
    · exact wp.done rfl
    · exact wp.op trivial fun r => r.elim
  refine meets_ask trivial fun header _ _ => wp.guard (by simp) fun _ => ?_
  have hlt : Sheltered outputDir loc fs₀ l t.os := by rwa [ht]
  refine wp.bind (handleCommand_stays h hlt) fun l' u hu => ?_
  refine stays_bookless (repost_bookless _) fun ok v hv => wp.guard (by simp) fun _ => ?_
  have hlv : Sheltered outputDir loc fs₀ l' v.os := by rwa [hv]
  refine wp.bind (R := fun _ t => t.os = v.os) ?_ fun ok w hw => ?_
  · refine meets_get trivial (meets_ask trivial fun msg _ _ => wp.op trivial fun ok _ => wp.done ?_)
    cases ok <;> rfl
  refine wp.guard (by simp) fun _ => wp.done fun l'' hl'' => ?_
  split at hl''
  · cases hl''
  · cases hl''
    rwa [hw]

theorem receiveLoop_stays {l : Locals} (h : OutputDir outputDir loc fs₀)
    (hl : Sheltered outputDir loc fs₀ l s.os) :
    Stays outputDir loc fs₀ n (receiveLoop l) (fun _ _ => True) s := by
  refine wp.recursion (S := signature) Call.receiveLoop
    (fun l s => Sheltered outputDir loc fs₀ l s.os) (fun _ _ (_ : Int) _ => True)
    (fun _ _ _ => trivial) ?_ n l s hl
  intro n ih l s hl
  refine stays_bookless establishSession_bookless fun ok t ht => ?_
  refine wp.guard (fun _ => trivial) fun _ => ?_
  refine stays_bookless rdmaCdcCompletion_bookless fun r u hu => ?_
  refine wp.guard (fun _ => trivial) fun _ => ?_
  have hlu : Sheltered outputDir loc fs₀ l u.os := by rwa [hu, ht]
  refine meets_get trivial ?_
  refine meets_charge (I := fun t => Sheltered outputDir loc fs₀ l t.os) trivial (fun _ h => h) hlu
    fun v hv => ?_
  refine stays_bookless rdmaCdcConsumeBuf_bookless fun buf w hw => ?_
  have hlw : Sheltered outputDir loc fs₀ l w.os := by rwa [hw]
  cases buf with
  | none => exact wp.done trivial
  | some buf =>
    refine wp.bind (handleSignal_stays h hlw) fun r z hz => ?_
    cases r with
    | none => exact wp.done trivial
    | some l' => exact ih l' z (hz l' rfl)

theorem scpReceiverRun_stays (h : OutputDir outputDir loc fs₀) :
    Stays outputDir loc fs₀ n (scpReceiverRun outputDir) (fun _ _ => True) (initState fs₀) := by
  have hstart : ∀ {fs}, Upholds fs₀ fs →
      Sheltered outputDir loc fs₀ ⟨none, [], baseDir fs₀ outputDir⟩ fs :=
    fun hfs => ⟨rfl, hfs, .inl rfl⟩
  unfold scpReceiverRun
  cases outputDir with
  | some dir =>
    unfold mkdirRecursive
    dsimp only
    split
    · exact wp.op trivial fun r => r.elim
    have hin : ∀ o fs, Preparing (baseDir fs₀ (some dir)) o → Upholds fs₀ fs →
        Contained loc o fs := by
      intro o fs ho hfs
      cases o with
      | mkdir d =>
        intro x hx hnone
        have hne : d ≠ [] := by
          rintro rfl
          cases hx
        exact absurd hnone (h.present hfs ho.components (ho.ne_nil_head hne) hx)
      | close => trivial
      | _ => exact ho.elim
    have hlen : (baseDir fs₀ (some dir)).length < scpMaxPathLen := length_snprintf_lt (by decide) _
    refine meets_calls (P := Preparing (baseDir fs₀ (some dir))) (J := Upholds fs₀)
      (scpMkdirRecursive_calls fun d hd => mkdirPaths_cut hlen hd) (fun o fs => hin o fs)
      (fun o fs r ho hfs hr => upholds_next h hfs (hin o fs ho hfs) hr) (.refl _) fun _ fs hfs => ?_
    exact receiveLoop_stays h (hstart hfs)
  | none =>
    refine meets_ask (o := .file .getcwd) trivial fun base hbase _ => ?_
    cases base with
    | none => exact wp.done trivial
    | some base =>
      obtain rfl : base = baseDir fs₀ none := hbase base rfl
      exact receiveLoop_stays h (hstart (.refl _))

/-- Every run in which the names that come are tame stays in the output directory. -/
theorem contained (h : OutputDir outputDir loc fs₀) :
    (Program.system bodies (semantics fileCalls (.mindful (baseDir fs₀ outputDir) loc))
      (scpReceiverRun outputDir) (initState fs₀)).Invariant fun c =>
      ∀ o k, c.1 = .op (.file o) k → Contained loc o c.2.os := by
  have hverified : Verified bodies (semantics fileCalls (.mindful (baseDir fs₀ outputDir) loc))
      (containment loc) (scpReceiverRun outputDir) (fun _ _ => True) (initState fs₀) :=
    fun _ => scpReceiverRun_stays h
  refine hverified.runs.mono ?_
  rintro ⟨_, t⟩ hc o k rfl
  exact hc.duty

end Session

/-- A root with one directory, `/o`. -/
def outputRoot : FileSystem :=
  ⟨fun x => if x = [[111]] then some .directory else none, fun _ => [], fun _ => none, 0, []⟩

def outputBase : Path := [47, 111]

theorem outputRoot_lookup (x : Location) : outputRoot.lookup x =
    if x = [] ∨ x = [[111]] then some .directory else none := by
  unfold FileSystem.lookup outputRoot
  by_cases hx : x = [] <;> simp [hx]

theorem outputRoot_ready : OutputDir (some outputBase) [[111]] outputRoot := by
  refine ⟨⟨rfl, fun x hx => ?_⟩, by decide +kernel, rfl, fun x target h => ?_⟩
  · rw [outputRoot_lookup] at hx ⊢
    obtain ⟨hx | hx, -⟩ := Option.ite_none_right_eq_some.mp hx <;> simp [hx]
  · rw [outputRoot_lookup] at h
    obtain ⟨-, h⟩ := Option.ite_none_right_eq_some.mp h
    cases h

theorem contained_output :
    (Program.system bodies
      (semantics fileCalls (.mindful (baseDir outputRoot (some outputBase)) [[111]]))
      (scpReceiverRun (some outputBase)) (initState outputRoot)).Invariant fun c =>
      ∀ o k, c.1 = .op (.file o) k → Contained [[111]] o c.2.os := contained outputRoot_ready

/-- The directory `../x` is announced. -/
def climbingFeed : Feed
  | 0 => (0, .dirEnter [46, 46, 47, 120])
  | _ => (0, .transferEnd)

/-- All goes well, and the packets are read as they were announced. -/
def willing (pkts : Feed) : (o : Op) → State FileSystem → Option (Response o)
  | .get, s => some s.ctx
  | .update _, _ | .transDestroy, _ => some ()
  | .file o, s => some (FileCall.answer 3 o s.os)
  | .load off len, s =>
    let (x, p) := pkts s.ledger.acked.length
    let i := off - slotBase x
    if slotBase x ≤ off ∧ i + len ≤ p.encode.length then some (field p.encode i len) else none
  | .loadCString off, s =>
    let (x, p) := pkts s.ledger.acked.length
    if slotBase x ≤ off then some (cString (p.encode.drop (off - slotBase x))) else none
  | .qpCreate, _ | .sockEstablished, _ | .registerMr, _ | .exchange, _ | .modifyQp _, _
  | .postRecv _ _, _ | .postSend _, _ => some true
  | .queryQp, s => some (some s.qp)
  | .pollCq, _ => some (some (some ⟨.recv, true, 0⟩))
  | .readCdc _, s => some { Cdc.zero with slotId := UInt8.ofNat (pkts s.ledger.acked.length).1.val }
  | .undefined _, _ => none

theorem willing_allowed {pkts : Feed} (o : Op) (s : State FileSystem) (r : Response o)
    (h : willing pkts o s = some r) : (semantics fileCalls (.feed pkts)).allow o s r := by
  cases o
  case load off len =>
    obtain ⟨⟨hbase, hin⟩, ⟨⟩⟩ := Option.ite_none_right_eq_some.mp h
    refine ⟨length_field hin, fun i hoff _ => ?_⟩
    rw [hoff, Nat.add_sub_cancel_left]
  case loadCString off =>
    obtain ⟨hbase, ⟨⟩⟩ := Option.ite_none_right_eq_some.mp h
    refine ⟨fun b hb => cString_nonzero hb, fun i hoff _ => ?_⟩
    rw [hoff, Nat.add_sub_cancel_left]
  case file o =>
    cases h
    exact ⟨FileCall.answer_allowed 3 o s.os, trivial⟩
  case readCdc =>
    cases h
    exact ⟨trivial, fun _ => rfl⟩
  case undefined => cases h
  all_goals cases h; first | exact ⟨rfl, trivial⟩ | exact ⟨trivial, trivial⟩

/-- Where the receiver makes that directory. -/
def climbingRun : Receiver Int × State FileSystem :=
  Program.exec bodies (semantics fileCalls (.feed climbingFeed)) (willing climbingFeed) 49
    (scpReceiverRun (some outputBase), initState outputRoot)

/-- The directory that a program is about to make. -/
def mkdir? : Receiver Int → Option Path
  | .op (.file (.mkdir path)) _ => some path
  | _ => none

theorem mkdir?_eq {p : Receiver Int} {path : Path} (h : mkdir? p = some path) :
    ∃ k, p = .op (.file (.mkdir path)) k := by
  unfold mkdir? at h
  split at h
  · cases h
    exact ⟨_, rfl⟩
  · cases h

/-- A call may leave the base directory: for `../x` a directory is made beside `/o`. -/
theorem not_contained :
    ¬∀ (pkts : Feed) (outputDir : Option Path) (loc : Location) (fs₀ : FileSystem),
      (∀ i, (pkts i).2.Fits) → OutputDir outputDir loc fs₀ →
      (feedRun fileCalls pkts outputDir fs₀).Invariant fun c =>
        ∀ o k, c.1 = .op (.file o) k → Contained loc o c.2.os := by
  intro hall
  have hfits : ∀ i, (climbingFeed i).2.Fits := by
    intro i
    cases i with
    | zero => trivial
    | succ i => trivial
  have hreach : (feedRun fileCalls climbingFeed (some outputBase) outputRoot).Reachable
      climbingRun := ⟨_, rfl, Program.exec_runs willing_allowed 49 _⟩
  have hmkdir : mkdir? climbingRun.1 = some (targetPath outputBase [46, 46, 47, 120]) := by
    decide +kernel
  obtain ⟨k, hk⟩ := mkdir?_eq hmkdir
  have hin := hall climbingFeed (some outputBase) [[111]] outputRoot hfits outputRoot_ready
    _ hreach _ k hk
  have hx : climbingRun.2.os.locateDir (targetPath outputBase [46, 46, 47, 120]) =
      some [[120]] := by
    decide +kernel
  have hnone : climbingRun.2.os.lookup [[120]] = none := by decide +kernel
  exact absurd (hin _ hx hnone) (by decide)

end ScpRdma.Receiver

import ScpRdma.Receiver.Planting
import ScpRdma.Transfer.Stream

/-!
# The receiver plants the tree

Where there is room and no file call fails that need not, the packets of a tree, one after the
other, leave the tree at the end of the names that its path has, and they add to the totals what the
tree does.
-/
namespace ScpRdma.Transfer
open Foundations FileSystem Sender Receiver

/-! ## Packets one after the other -/

/-- Packets, one after the other, with what they add to the totals. -/
def applyAll (v : View) : List Packet → Files (View × Tally)
  | [] => return (v, .none)
  | p :: ps => do
    let r ← applyPacket v p
    let q ← applyAll r.1 ps
    return (q.1, r.2.add q.2)

section Sequence

variable {F : Type} {M : Semantics fileSignature F} {pkts : Feed} {v w w' : View}
  {os os' os'' : F} {p : Packet} {ps qs : List Packet} {k : Nat} {σ τ : Tally}

theorem applyAll_concat (h : Program.Outcome M (applyAll v ps) os (w, σ) os')
    (hp : Program.Outcome M (applyPacket w p) os' (w', τ) os'') :
    Program.Outcome M (applyAll v (ps ++ [p])) os (w', σ.add τ) os'' := by
  induction ps generalizing v os σ with
  | nil =>
    cases h
    have hone : Program.Outcome M (applyAll w [p]) os' (w', τ.add .none) os'' :=
      hp.bind (.done (a := (w', τ.add .none)))
    rwa [Tally.add_none, ← τ.none_add] at hone
  | cons q ps ih =>
    obtain ⟨r, t, hq, hrest⟩ := h.of_bind
    obtain ⟨r', t', hps, hdone⟩ := hrest.of_bind
    cases hdone
    rw [Tally.add_assoc]
    exact hq.bind (Program.Outcome.bind (ih hps) .done)

/-- The sum over the first packets is what they do as a list. -/
theorem applyAll_of_summed (h : Summed M pkts v os k w os' σ) :
    Program.Outcome M (applyAll v ((List.range k).map fun i => (pkts i).2)) os (w, σ) os' := by
  induction h with
  | start => exact .done
  | packet _ hp ih =>
    rw [List.range_succ, List.map_append]
    exact applyAll_concat ih hp

theorem applyAll_append {R Q : View × Tally → F → Prop}
    (h : Program.Ensures M (applyAll v ps) R os)
    (hrest : ∀ r t, R r t →
      Program.Ensures M (applyAll r.1 qs) (fun q u => Q (q.1, r.2.add q.2) u) t) :
    Program.Ensures M (applyAll v (ps ++ qs)) Q os := by
  induction ps generalizing v os R Q with
  | nil =>
    refine (hrest (v, .none) os h).mono fun q u hq => ?_
    rwa [Tally.none_add] at hq
  | cons p ps ih =>
    refine h.of_bind.bind fun r t hr => (ih hr.of_bind fun q u hq => ?_).bind fun _ _ hz => hz
    refine (hrest (q.1, r.2.add q.2) u hq).mono fun z x hz => ?_
    rwa [Tally.add_assoc] at hz

end Sequence

section Plants

variable {fs : FileSystem} {v : View} {p : Packet} {ps qs : List Packet} {σ τ : Tally}
  {P Q : View → FileSystem → Prop}

/-- Where no call fails the packets add `τ` to the totals and lead to `P`. -/
def Plants (v : View) (fs : FileSystem) (ps : List Packet) (τ : Tally)
    (P : View → FileSystem → Prop) : Prop :=
  Program.Ensures unfailing (applyAll v ps)
    (fun r u => r.1.loc.baseDir = v.loc.baseDir ∧ r.2 = τ ∧ P r.1 u) fs

theorem Plants.nil (h : P v fs) : Plants v fs [] .none P := ⟨rfl, rfl, h⟩

theorem Plants.mono (h : Plants v fs ps τ P) (hPQ : ∀ w u, P w u → Q w u) : Plants v fs ps τ Q :=
  Program.Ensures.mono h fun r u hr => ⟨hr.1, hr.2.1, hPQ r.1 u hr.2.2⟩

theorem Plants.append (h : Plants v fs ps τ P)
    (hrest : ∀ w u, w.loc.baseDir = v.loc.baseDir → P w u → Plants w u qs σ Q) :
    Plants v fs (ps ++ qs) (τ.add σ) Q := by
  refine applyAll_append h ?_
  rintro ⟨w, _⟩ u ⟨hbase, rfl, hP⟩
  refine Program.Ensures.mono (hrest w u hbase hP) ?_
  rintro ⟨z, _⟩ x ⟨hz, rfl, hQ⟩
  exact ⟨hz.trans hbase, rfl, hQ⟩

theorem Plants.packet (h : Program.Ensures unfailing (applyPacket v p)
    (fun r u => r.1.loc.baseDir = v.loc.baseDir ∧ r.2 = τ ∧ P r.1 u) fs) :
    Plants v fs [p] τ P := by
  refine h.bind ?_
  rintro ⟨w, _⟩ u ⟨hbase, rfl, hP⟩
  exact ⟨hbase, Tally.add_none _, hP⟩

end Plants

/-! ## Names -/

/-- The names that a path has, where `reach` more bytes fit behind it. -/
structure Span (base r : Bytes) (rel : List Name) (reach : Nat) : Prop where
  noNul : NoNul r
  short : r.length + reach < scpMaxFilenameLen
  fits : (stripSlashes base).length + 1 + r.length + reach < scpMaxPathLen
  names : components pathSep r = rel
  down : Downward rel

section Names

variable {base r : Bytes} {rel : List Name} {reach : Nat} {name : Name} {t : FileTree} {f : Forest}

theorem Span.mono (h : Span base r rel reach) {less : Nat} (hle : less ≤ reach) :
    Span base r rel less :=
  ⟨h.noNul, lt_of_le_of_lt (by omega) h.short, lt_of_le_of_lt (by omega) h.fits, h.names, h.down⟩

theorem Span.reaches (h : Span base r rel reach) : Reaches base r rel :=
  ⟨h.noNul, lt_of_le_of_lt (by omega) h.short, lt_of_le_of_lt (by omega) h.fits, h.names, h.down⟩

theorem Span.child (h : Span base r rel (name.length + 1 + reach)) (hname : IsName name)
    (hnul : NoNul name) : Span base (childPath r name) (rel ++ [name]) reach := by
  have hlen := length_childPath r name
  have hpath : childPath r name = r ++ pathSep :: name := rfl
  refine ⟨fun b hb => ?_, ?_, ?_, ?_, fun n hn => ?_⟩
  · rcases List.mem_append.mp hb with hb | hb
    · exact h.noNul b hb
    · rcases List.mem_cons.mp hb with rfl | hb
      · decide
      · exact hnul b hb
  · have := h.short
    omega
  · have := h.fits
    omega
  · rw [hpath, components_sep, h.names, hname.toIsComponent.components]
  · rcases List.mem_append.mp hn with hn | hn
    · exact h.down n hn
    · obtain rfl := List.mem_singleton.mp hn
      exact ⟨hname.notSelf, hname.notParent⟩

theorem endsInName_child (hname : IsName name) : EndsInName (childPath r name) := by
  obtain ⟨c, hc⟩ := Option.ne_none_iff_exists'.mp
    (mt List.getLast?_eq_none_iff.mp hname.toIsComponent.nonempty)
  refine ⟨c, ?_, ?_⟩
  · rw [childPath, List.getLast?_append_of_ne_nil _ (by simp), ← List.singleton_append,
      List.getLast?_append_of_ne_nil _ hname.toIsComponent.nonempty, hc]
  · rintro rfl
    exact hname.toIsComponent.noSep (List.mem_of_getLast? hc)

end Names

/-! ## Objects -/

section Objects

variable {outputDir : Option Bytes} {loc : Location} {fs₀ fs fs' : FileSystem} {v : View}
  {r : Bytes} {rel : List Name} {mode i k : Nat} {content target : Bytes}

/-- The bytes up to a chunk and the chunk are the bytes up to the next one. -/
theorem take_chunk (content : Bytes) (i : Nat) :
    content.take (i * scpChunkSize) ++ chunkBytes content content.length i =
      content.take ((i + 1) * scpChunkSize) := by
  rw [chunkBytes, List.take_length, Nat.succ_mul, ← List.take_add]

theorem bytes_left {a b c d : Nat} (h : a + b = min c d) (hlt : a < d) :
    b + (d - c) = d - a := by omega

/-- The chunks from `i` on follow the bytes before them. -/
theorem chunks_plant (hsmall : content.length ≤ (2 ^ 32 - 1) * scpChunkSize)
    (hk : i + k = totalChunks content.length)
    (hplanted : fs.Planted loc rel (.file mode (content.take (i * scpChunkSize))) fs')
    (hv : AtFile v (loc ++ rel) fs') :
    Plants v fs' (unslotted ((List.range' i k).map (chunkParcel content content.length)))
      { Tally.none with bytes := content.length - i * scpChunkSize }
      (fun _ u => fs.Planted loc rel (.file mode content) u) := by
  induction k generalizing i v fs' with
  | zero =>
    obtain rfl : i = totalChunks content.length := hk
    have hall := totalChunks_mul hsmall
    rw [List.take_of_length_le hall] at hplanted
    rw [Nat.sub_eq_zero_of_le hall]
    exact .nil hplanted
  | succ k ih =>
    have hlt : i * scpChunkSize < content.length := (chunk_starts hsmall).mp (by omega)
    have hlen : (content.take (i * scpChunkSize)).length = i * scpChunkSize := by
      rw [List.length_take, min_eq_left hlt.le]
    have hoff : i * scpChunkSize < 2 ^ 63 := by
      rw [scpChunkSize_eq] at hsmall hlt ⊢
      omega
    rw [List.range'_succ, List.map_cons, unslotted, List.map_cons, ← List.singleton_append]
    have hfirst : Plants v fs' [(chunkParcel content content.length i).2]
        { Tally.none with bytes := (chunkBytes content content.length i).length }
        (fun w u => AtFile w (loc ++ rel) u ∧
          fs.Planted loc rel (.file mode (content.take ((i + 1) * scpChunkSize))) u) := by
      refine .packet ?_
      have hchunk := applyFileData_chunk hplanted hv (hlen.symm ▸ hoff)
        (chunkBytes content content.length i)
      rw [hlen, take_chunk] at hchunk
      refine hchunk.mono ?_
      rintro ⟨w, _⟩ u ⟨rfl, rfl, hat, hplanted⟩
      exact ⟨rfl, rfl, hat, hplanted⟩
    have hbytes := bytes_left (chunk_end hlt) hlt
    rw [← hbytes]
    exact hfirst.append fun w u _ hw => ih (by omega) hw.2 hw.1

theorem file_plants (h : OutputDir outputDir loc fs₀) (hfs : Upholds fs₀ fs)
    (hsmall : content.length ≤ (2 ^ 32 - 1) * scpChunkSize)
    (hspan : Span (baseDir fs₀ outputDir) r rel 0) (hleaf : EndsInName r)
    (hroom : fs.Room loc rel) (hfree : fs.lookup (loc ++ rel) = none)
    (hv : v.loc.baseDir = baseDir fs₀ outputDir) :
    Plants v fs (unslotted (treeParcels (.file mode content) r)) (treeTally (.file mode content))
      (fun _ u => fs.Planted loc rel (.file mode content) u) := by
  obtain ⟨pre, n, parent, sub, hp⟩ := hspan.reaches.leaf hleaf
  rw [treeParcels, fileParcels, unslotted, List.map_cons, ← List.singleton_append]
  have hmeta : Plants v fs [.fileMeta r content.length mode .regular (totalChunks content.length)]
      { Tally.none with files := 1 } (fun w u => AtFile w (loc ++ rel) u ∧
        fs.Planted loc rel (.file mode (content.take (0 * scpChunkSize))) u) := by
    refine .packet ?_
    rw [Nat.zero_mul, List.take_zero]
    exact applyFileMeta_file h hfs hp hspan.down hroom hfree (by rw [hv]) mode
  have hchunks : ∀ w u, AtFile w (loc ++ rel) u ∧
      fs.Planted loc rel (.file mode (content.take (0 * scpChunkSize))) u →
      Plants w u (unslotted (chunkParcels content content.length (totalChunks content.length)))
        { Tally.none with bytes := content.length }
        (fun _ u => fs.Planted loc rel (.file mode content) u) := by
    intro w u hw
    have hall := chunks_plant hsmall (Nat.zero_add _) hw.2 hw.1
    rwa [Nat.zero_mul, Nat.sub_zero, ← List.range_eq_range'] at hall
  have htally : treeTally (.file mode content) =
      Tally.add { Tally.none with files := 1 } { Tally.none with bytes := content.length } := by
    simp [treeTally, Tally.add, Tally.none]
  rw [htally]
  exact hmeta.append fun w u _ hw => hchunks w u hw

theorem link_plants (h : OutputDir outputDir loc fs₀) (hfs : Upholds fs₀ fs)
    (hne : target ≠ []) (hnul : NoNul target) (hlen : target.length ≤ scpMaxPathLen - 1)
    (hspan : Span (baseDir fs₀ outputDir) r rel 0) (hleaf : EndsInName r)
    (hroom : fs.Room loc rel) (hfree : fs.lookup (loc ++ rel) = none)
    (hv : v.loc.baseDir = baseDir fs₀ outputDir) :
    Plants v fs (unslotted (treeParcels (.link mode target) r)) (treeTally (.link mode target))
      (fun _ u => fs.Planted loc rel (.link mode target) u) := by
  obtain ⟨pre, n, parent, sub, hp⟩ := hspan.reaches.leaf hleaf
  have hmeta : Plants v fs [.fileMeta r target.length mode .symlink 1] .none (fun w u =>
      AtLink w (targetPath (baseDir fs₀ outputDir) (recordName r)) ∧ fs.Paved loc pre u) :=
    .packet (applyFileMeta_link h hfs hp hspan.down hroom hfree (by rw [hv]))
  have hall : Plants v fs ([.fileMeta r target.length mode .symlink 1] ++ [.fileData 0 0 target])
      (Tally.add .none { Tally.none with symlinks := 1 })
      (fun _ u => fs.Planted loc rel (.link mode target) u) := by
    refine hmeta.append fun w u _ hw => .packet ?_
    have hlink := applyFileData_link h hfs hp hspan.down hroom hfree hw.2 hw.1 hne hnul hlen mode 0
    refine hlink.mono ?_
    rintro ⟨z, _⟩ x ⟨rfl, rfl, hx⟩
    exact ⟨rfl, rfl, hx⟩
  rwa [Tally.none_add] at hall

end Objects

/-! ## Trees -/

section Trees

variable {outputDir : Option Bytes} {loc : Location} {fs₀ : FileSystem}

mutual

/-- The packets of a tree leave it where its path leads. -/
theorem tree_plants (h : OutputDir outputDir loc fs₀) (t : FileTree) (ht : TreeFits t)
    {fs : FileSystem} (hfs : Upholds fs₀ fs) {r : Bytes} {rel : List Name}
    (hspan : Span (baseDir fs₀ outputDir) r rel (treeReach t))
    (hleaf : t.top ≠ .directory → EndsInName r ∧ fs.lookup (loc ++ rel) = none)
    (hroom : fs.Room loc rel) {v : View} (hv : v.loc.baseDir = baseDir fs₀ outputDir) :
    Plants v fs (unslotted (treeParcels t r)) (treeTally t)
      (fun _ u => fs.Planted loc rel t u) := by
  cases t with
  | file mode content =>
    obtain ⟨hend, hfree⟩ := hleaf nofun
    exact file_plants h hfs ht hspan hend hroom hfree hv
  | link mode target =>
    obtain ⟨hend, hfree⟩ := hleaf nofun
    exact link_plants h hfs ht.1 ht.2.1 ht.2.2 hspan hend hroom hfree hv
  | directory entries =>
    have henter : Plants v fs [.dirEnter r] { Tally.none with dirs := 1 }
        (fun _ u => fs.Planted loc rel (.directory .nil) u) :=
      .packet (applyDirEnter_plants h hfs (hspan.mono (Nat.zero_le _)).reaches hroom hv)
    have hbody := henter.append fun w u hw hu => (forest_plants h entries ht (hfs.trans hu.upholds)
      hspan (hu.roomIn entries.names) (hw.trans hv)).mono fun _ _ hall => hu.directory hall
    have hleave : ∀ w u, fs.Planted loc rel (.directory entries) u → Plants w u [.dirLeave] .none
        (fun _ u => fs.Planted loc rel (.directory entries) u) := fun _ _ hu =>
      .packet ((closeCurrent_plants hu).bind fun _ _ hx => ⟨rfl, rfl, hx⟩)
    have hall := hbody.append fun w u _ hu => hleave w u hu
    rw [Tally.add_none] at hall
    rw [treeParcels, unslotted, List.map_append]
    exact hall

theorem forest_plants (h : OutputDir outputDir loc fs₀) (f : Forest) (hf : ForestFits f)
    {fs : FileSystem} (hfs : Upholds fs₀ fs) {r : Bytes} {rel : List Name}
    (hspan : Span (baseDir fs₀ outputDir) r rel (forestReach f))
    (hroom : fs.RoomIn loc rel f.names) {v : View}
    (hv : v.loc.baseDir = baseDir fs₀ outputDir) :
    Plants v fs (unslotted (forestParcels f r)) (forestTally f)
      (fun _ u => fs.PlantedAll loc rel f u) := by
  cases f with
  | nil => exact .nil hroom.done
  | cons name t rest =>
    obtain ⟨⟨hname, hnul, hnew⟩, ht, hrest⟩ := hf
    have hchild := (hspan.mono (le_max_left _ _)).child hname hnul
    have hfirst := tree_plants h t ht hfs hchild (fun _ => ⟨endsInName_child hname, by
      rw [← List.append_assoc]
      exact hroom.free name (List.mem_cons_self ..) []⟩) hroom.room hv
    rw [forestParcels, unslotted, List.map_append]
    exact hfirst.append fun w u hw hu => (forest_plants h rest hrest (hfs.trans hu.upholds)
      (hspan.mono (le_max_right _ _)) (hroom.rest hnew hu) (hw.trans hv)).mono
        fun _ _ hall => hu.cons hnew hall

end

end Trees

/-! ## A whole transfer -/

/-- The output directory is there and empty, and the paths of the tree fit the buffers. -/
structure EmptyBase (fs : FileSystem) (outputDir : Option Bytes) (loc : Location) (t : FileTree)
    (r : Bytes) : Prop where
  base : OutputDir outputDir loc fs
  empty : ∀ n names, fs.lookup (loc ++ n :: names) = none
  numbered : fs.Numbered
  noNul : NoNul r
  remotePath : r.length + treeReach t < scpMaxFilenameLen
  path : (stripSlashes (baseDir fs outputDir)).length + 1 + r.length + treeReach t < scpMaxPathLen

/-- The remote path leads down from there, and it names an object that is no directory. -/
structure Lands (fs : FileSystem) (outputDir : Option Bytes) (loc : Location) (t : FileTree)
    (r : Bytes) : Prop extends EmptyBase fs outputDir loc t r where
  down : Downward (components pathSep r)
  leaf : t.top ≠ .directory → EndsInName r

/-- In the directory `loc`, which was empty, the tree stands at the end of the names `rel`, with
directories on the way, and nothing else. -/
structure Copied (fs : FileSystem) (loc : Location) (rel : List Name) (t : FileTree)
    (fs' : FileSystem) : Prop where
  tree : ∀ names, fs'.object (loc ++ rel ++ names) = t.find names
  above : ∀ pre, pre <+: rel → pre ≠ rel → fs'.object (loc ++ pre) = some .directory
  nothing : ∀ names, ¬ rel <+: names → ¬ names <+: rel → fs'.object (loc ++ names) = none
  elsewhere : ∀ x, ¬ loc <+: x → fs'.object x = fs.object x

section Whole

variable {fs fs' : FileSystem} {outputDir : Option Bytes} {loc : Location} {t : FileTree}
  {r : Bytes} {pkts : Feed} {k : Nat} {w : View} {σ : Tally}

theorem components_ne_nil (h : EndsInName r) : components pathSep r ≠ [] := by
  obtain ⟨c, hc, hne⟩ := h
  by_cases hslash : slash ∈ r
  · obtain ⟨a, n, rfl, hn⟩ := exists_last_slash hslash
    have hnil : n ≠ [] := by
      rintro rfl
      rw [List.getLast?_concat] at hc
      exact hne (Option.some.inj hc).symm
    have hone : components pathSep n = [n] := IsComponent.components ⟨hnil, hn⟩
    rw [show slash = pathSep from rfl, components_sep, hone]
    simp
  · have hone : components pathSep r = [r] :=
      IsComponent.components ⟨List.ne_nil_of_mem (List.mem_of_getLast? hc), hslash⟩
    rw [hone]
    simp

theorem Lands.free (h : Lands fs outputDir loc t r) (hne : components pathSep r ≠ []) :
    fs.lookup (loc ++ components pathSep r) = none := by
  obtain ⟨n, names, hcons⟩ := List.exists_cons_of_ne_nil hne
  rw [hcons]
  exact h.empty n names

theorem Lands.room (h : Lands fs outputDir loc t r) : fs.Room loc (components pathSep r) := by
  refine ⟨fun pre _ => ?_, fun n names => ?_, h.numbered⟩
  · cases pre with
    | nil =>
      rw [List.append_nil]
      exact .inr h.base.directory
    | cons n names => exact .inl (h.empty n names)
  · cases hrel : components pathSep r with
    | nil =>
      rw [List.append_nil]
      exact h.empty n names
    | cons m rest =>
      rw [List.append_assoc]
      exact h.empty m (rest ++ n :: names)

theorem Lands.copied (h : Lands fs outputDir loc t r)
    (hp : fs.Planted loc (components pathSep r) t fs') :
    Copied fs loc (components pathSep r) t fs' := by
  refine ⟨hp.tree, fun pre hpre hne => object_eq_directory.mpr (hp.above pre hpre hne),
    fun names hbelow habove => ?_, fun x hx => ?_⟩
  · rw [hp.other, object_eq_none]
    · cases names with
      | nil => exact absurd (List.nil_prefix) habove
      | cons n names => exact h.empty n names
    · rwa [List.prefix_append_right_inj]
    · intro pre hpre heq
      exact habove (List.append_cancel_left heq ▸ hpre)
  · refine hp.other x (fun hpre => hx ((List.prefix_append _ _).trans hpre)) ?_
    rintro pre - rfl
    exact hx (List.prefix_append _ _)

/-- The packets of a tree, handled from the start of the receiver on. -/
theorem Lands.served (h : Lands fs outputDir loc t r) (ht : TreeFits t)
    (hk : (List.range k).map (fun i => (pkts i).2) = unslotted (transferParcels t r))
    (hserved : ServedSum unfailing pkts outputDir fs k w fs' σ) :
    σ = treeTally t ∧ Copied fs loc (components pathSep r) t fs' := by
  obtain ⟨hopen, hsummed⟩ := hserved
  obtain ⟨hbase, hsame⟩ := (openBase_unfailing h.base).outcome hopen
  obtain rfl := Option.some.inj hbase
  rw [hsame] at hsummed
  have hout := applyAll_of_summed hsummed
  rw [hk] at hout
  have hspan : Span (baseDir fs outputDir) r (components pathSep r) (treeReach t) :=
    ⟨h.noNul, h.remotePath, h.path, rfl, h.down⟩
  have htree := tree_plants h.base t ht (.refl fs) hspan
    (fun htop => ⟨h.leaf htop, h.free (components_ne_nil (h.leaf htop))⟩) h.room
    (v := ⟨⟨none, [], baseDir fs outputDir⟩, FileType.regular.byte⟩) rfl
  have hend : ∀ w u, fs.Planted loc (components pathSep r) t u → Plants w u [.transferEnd] .none
      (fun _ u => fs.Planted loc (components pathSep r) t u) := fun _ _ hu =>
    .packet ((closeCurrent_plants hu).bind fun _ _ hx => ⟨rfl, rfl, hx⟩)
  have hall := htree.append fun w u _ hu => hend w u hu
  rw [Tally.add_none] at hall
  rw [transferParcels, unslotted, List.map_append] at hout
  obtain ⟨-, hσ, hplanted⟩ := Program.Ensures.outcome hall hout
  exact ⟨hσ, h.copied hplanted⟩

end Whole

end ScpRdma.Transfer

import ScpRdma.Foundations.Trees
import ScpRdma.Sender.Chunking
import ScpRdma.Receiver.Totals

/-!
# The packets of a tree

The word that a tree makes under a remote path, what it adds to the totals of either side, and the
grammar of such words.
-/
namespace ScpRdma.Transfer
open Foundations Sender Receiver

mutual

/-- The packets of a tree under the remote path `r`, each with its slot. -/
def treeParcels : FileTree → Bytes → List Parcel
  | .file mode content, r => fileParcels r ⟨.regular, content.length, mode⟩ content
  | .link mode target, r =>
    [(0, .fileMeta r target.length mode .symlink 1), (0, .fileData 0 0 target)]
  | .directory entries, r => (0, .dirEnter r) :: forestParcels entries r ++ [(0, .dirLeave)]

def forestParcels : Forest → Bytes → List Parcel
  | .nil, _ => []
  | .cons name t rest, r => treeParcels t (childPath r name) ++ forestParcels rest r

end

/-- The packets of a whole transfer. -/
def transferParcels (t : FileTree) (r : Bytes) : List Parcel :=
  treeParcels t r ++ [(0, .transferEnd)]

mutual

/-- What a tree adds to the totals. -/
def treeTally : FileTree → Tally
  | .file _ content => { Tally.none with bytes := content.length, files := 1 }
  | .link .. => { Tally.none with symlinks := 1 }
  | .directory entries => Tally.add { Tally.none with dirs := 1 } (forestTally entries)

def forestTally : Forest → Tally
  | .nil => .none
  | .cons _ t rest => (treeTally t).add (forestTally rest)

end

mutual

/-- Files that have room for their chunk numbers, links that have room for their targets, and
directories with one entry for each name. -/
def TreeFits : FileTree → Prop
  | .file _ content => content.length ≤ (2 ^ 32 - 1) * scpChunkSize
  | .link _ target => target ≠ [] ∧ NoNul target ∧ target.length ≤ scpMaxPathLen - 1
  | .directory entries => ForestFits entries

def ForestFits : Forest → Prop
  | .nil => True
  | .cons name t rest =>
    (IsName name ∧ NoNul name ∧ name ∉ rest.names) ∧ TreeFits t ∧ ForestFits rest

end

mutual

/-- How much longer than its own path the paths below a tree are. -/
def treeReach : FileTree → Nat
  | .file .. | .link .. => 0
  | .directory entries => forestReach entries

def forestReach : Forest → Nat
  | .nil => 0
  | .cons name t rest => max (name.length + 1 + treeReach t) (forestReach rest)

end

/-! ## The grammar -/

/-- Chunks with the numbers from `i` up to `n` that carry the bytes from `off` up to `size`. -/
inductive Contiguous (n size : Nat) : (i off : Nat) → List Packet → Prop where
  | finish : Contiguous n size n size []
  | chunk {i off payload rest} : payload ≠ [] →
      Contiguous n size (i + 1) (off + payload.length) rest →
      Contiguous n size i off (.fileData i off payload :: rest)

/-- The parts of a word: an object with its name, and the entries of a directory. -/
inductive Part where
  | object (p : Bytes)
  | entries (p : Bytes)

inductive Spells : Part → List Packet → Prop where
  | dir {p ws} : Spells (.entries p) ws → Spells (.object p) (.dirEnter p :: ws ++ [.dirLeave])
  | file {p size mode n ws} : Contiguous n size 0 0 ws →
      Spells (.object p) (.fileMeta p size mode .regular n :: ws)
  | link {p mode target} : Spells (.object p)
      [.fileMeta p target.length mode .symlink 1, .fileData 0 0 target]
  | none {p} : Spells (.entries p) []
  | entry {p name ws rest} : IsComponent pathSep name → Spells (.object (childPath p name)) ws →
      Spells (.entries p) rest → Spells (.entries p) (ws ++ rest)

/-- `S = Obj TRANSFER_END` -/
def IsWord (p : Bytes) (ws : List Packet) : Prop :=
  ∃ obj, Spells (.object p) obj ∧ ws = obj ++ [.transferEnd]

/-- The packets without their slots. -/
abbrev unslotted (out : List Parcel) : List Packet := out.map Prod.snd

/-- A chunk ends where the next one starts, or with the file. -/
theorem chunk_end {content : Bytes} {i : Nat} (h : i * scpChunkSize < content.length) :
    i * scpChunkSize + (chunkBytes content content.length i).length =
      min ((i + 1) * scpChunkSize) content.length := by
  rw [length_chunkBytes le_rfl, Nat.succ_mul]
  omega

theorem chunks_contiguous {content : Bytes} {i k : Nat}
    (h : content.length ≤ (2 ^ 32 - 1) * scpChunkSize)
    (hk : i + k = totalChunks content.length) :
    Contiguous (totalChunks content.length) content.length i (min (i * scpChunkSize) content.length)
      (unslotted ((List.range' i k).map (chunkParcel content content.length))) := by
  induction k generalizing i with
  | zero =>
    obtain rfl : i = totalChunks content.length := hk
    rw [min_eq_right (totalChunks_mul h)]
    exact .finish
  | succ k ih =>
    have hlt : i * scpChunkSize < content.length := (chunk_starts h).mp (by omega)
    rw [List.range'_succ, List.map_cons, unslotted, List.map_cons, min_eq_left hlt.le]
    refine .chunk (List.ne_nil_of_length_pos (chunkBytes_length_pos le_rfl hlt)) ?_
    rw [chunk_end hlt]
    exact ih (by omega)

theorem fileParcels_spells {r content : Bytes} (mode : Nat)
    (h : content.length ≤ (2 ^ 32 - 1) * scpChunkSize) :
    Spells (.object r)
      (unslotted (fileParcels r ⟨.regular, content.length, mode⟩ content)) := by
  rw [fileParcels, unslotted, List.map_cons]
  refine .file ?_
  have hchunks := chunks_contiguous h (Nat.zero_add _)
  rw [Nat.zero_mul, Nat.zero_min, ← List.range_eq_range'] at hchunks
  exact hchunks

mutual

theorem treeParcels_spells (t : FileTree) (h : TreeFits t) (r : Bytes) :
    Spells (.object r) (unslotted (treeParcels t r)) := by
  cases t with
  | file mode content => exact fileParcels_spells mode h
  | link mode target => exact .link
  | directory entries =>
    rw [treeParcels, unslotted, List.map_append]
    exact .dir (forestParcels_spells entries h r)

theorem forestParcels_spells (f : Forest) (h : ForestFits f) (r : Bytes) :
    Spells (.entries r) (unslotted (forestParcels f r)) := by
  cases f with
  | nil => exact .none
  | cons name t rest =>
    rw [forestParcels, unslotted, List.map_append]
    exact .entry h.1.1.toIsComponent (treeParcels_spells t h.2.1 _)
      (forestParcels_spells rest h.2.2 r)

end

theorem transferParcels_isWord {t : FileTree} (h : TreeFits t) (r : Bytes) :
    IsWord r (unslotted (transferParcels t r)) :=
  ⟨_, treeParcels_spells t h r, List.map_append⟩

end ScpRdma.Transfer

import ScpRdma.Sender.Semantics

/-!
# The packets of a source

What the sender says about a source, read off the answers of the system calls alone:
`Emits` relates an object of the file system to the packets that a successful run announces
for it, each with the slot that carries it. Control packets use slot 0, the chunks of a file
go round.
-/
namespace ScpRdma.Sender
open Foundations

variable (W : World)

def announce (out : List Parcel) : List Announced := out.map fun e => ⟨e.1, e.2.encode⟩

@[simp] theorem announce_nil : announce [] = [] := rfl

@[simp] theorem announce_cons (e : Parcel) (out : List Parcel) :
    announce (e :: out) = ⟨e.1, e.2.encode⟩ :: announce out := rfl

@[simp] theorem announce_append (out out' : List Parcel) :
    announce (out ++ out') = announce out ++ announce out' := List.map_append

/-- The size that `readChunk` asks `pread` for. -/
def askSize (direct : Bool) (toRead : Nat) : Nat := if direct then alignedSize toRead else toRead

/-- The chunk loop, with `remaining` iterations left: it stops early at a read that fails or
brings nothing. -/
inductive EmitsChunks (fd : Handle) (direct : Bool) (fileSize : Nat) :
    (remaining i offset : Nat) → Slot → List Parcel → Prop where
  | finish {i offset slot} : EmitsChunks fd direct fileSize 0 i offset slot []
  | stop {remaining i offset slot} (r : Option Bytes) :
      W (.pread fd (slotBase slot + scpDataOffset)
        (askSize direct (chunkToRead fileSize offset)) offset) r →
      (r.getD []).take (chunkToRead fileSize offset) = [] →
      EmitsChunks fd direct fileSize (remaining + 1) i offset slot []
  | chunk {remaining i offset slot out} (data payload : Bytes) :
      W (.pread fd (slotBase slot + scpDataOffset)
        (askSize direct (chunkToRead fileSize offset)) offset) (some data) →
      payload = data.take (chunkToRead fileSize offset) → payload ≠ [] →
      EmitsChunks fd direct fileSize remaining (i + 1) (offset + payload.length) (slot + 1) out →
      EmitsChunks fd direct fileSize (remaining + 1) i offset slot
        ((slot, .fileData i offset payload) :: out)

inductive EmitsLink (localPath remotePath : Path) (st : Stat) : List Parcel → Prop where
  | mk (target : Bytes) : W (.readlink localPath (scpMaxPathLen - 1)) (some target) →
      target.length ≤ scpMaxPathLen - 1 →
      EmitsLink localPath remotePath st
        [(0, .fileMeta remotePath target.length st.mode .symlink 1), (0, .fileData 0 0 target)]

inductive EmitsFile (localPath remotePath : Path) : List Parcel → Prop where
  | mk {out} (st : Stat) (direct : Bool) (fd : Handle) :
      W (.stat localPath) (some st) → st.size < 2 ^ 63 →
      W (.openFile localPath direct) (some fd) →
      (direct = false → W (.openFile localPath true) none) →
      EmitsChunks W fd direct st.size (totalChunks st.size) 0 0 0 out →
      EmitsFile localPath remotePath
        ((0, .fileMeta remotePath st.size st.mode .regular (totalChunks st.size)) :: out)

/-- How an entry is examined. -/
def Examines (cfg : Config) (path : Path) (r : Option Stat) : Prop :=
  if cfg.noLink then W (.stat path) r else W (.lstat path) r

inductive Task where
  | dir (localPath remotePath : Path)
  | entries (dir : Handle) (pos : Nat) (localPath remotePath : Path)
  | object (localPath remotePath : Path) (st : Stat)

/-- The packets of a successful run, whatever it passed over. -/
inductive Emits (cfg : Config) : Task → List Parcel → Prop where
  | link {l r st out} : st.kind = .symlink → EmitsLink W l r st out → Emits cfg (.object l r st) out
  | file {l r st out} : st.kind = .regular ∨ st.kind = .other → EmitsFile W l r out →
      Emits cfg (.object l r st) out
  | directory {l r st out} : st.kind = .directory → Emits cfg (.dir l r) out →
      Emits cfg (.object l r st) out
  | dir {l r out} (dir : Handle) : W (.opendir l) (some dir) →
      Emits cfg (.entries dir 0 l r) out →
      Emits cfg (.dir l r) ((0, .dirEnter r) :: out ++ [(0, .dirLeave)])
  | finish {dir pos l r} (resp : Dirent) : W (.readdir dir pos) resp →
      (∀ name, resp ≠ .entry name) → Emits cfg (.entries dir pos l r) []
  | dots {dir pos l r name out} : W (.readdir dir pos) (.entry name) →
      name = dot ∨ name = dotDot → Emits cfg (.entries dir (pos + 1) l r) out →
      Emits cfg (.entries dir pos l r) out
  | skip {dir pos l r name out} (st : Option Stat) : W (.readdir dir pos) (.entry name) →
      ¬(name = dot ∨ name = dotDot) → Examines W cfg (subPath l name) st →
      (∀ x ∈ st, x.kind = .directory ∧ cfg.recursive = false) →
      Emits cfg (.entries dir (pos + 1) l r) out → Emits cfg (.entries dir pos l r) out
  | entry {dir pos l r name out rest} (st : Stat) : W (.readdir dir pos) (.entry name) →
      ¬(name = dot ∨ name = dotDot) → Examines W cfg (subPath l name) (some st) →
      (st.kind = .directory → cfg.recursive = true) →
      Emits cfg (.object (subPath l name) (subPath r name) st) out →
      Emits cfg (.entries dir (pos + 1) l r) rest →
      Emits cfg (.entries dir pos l r) (out ++ rest)

end ScpRdma.Sender

import ScpRdma.Foundations.Program
import ScpRdma.Protocol

/-!
# The file calls of the receiver

The system calls of `scp_rdma_receiver.c` on files, and the parts of the program that make
nothing else. What a call answers and does is left to an operating system.
-/
namespace ScpRdma.Receiver
open Foundations

/-- A path or a name, as the bytes of a C string. -/
abbrev Path := Bytes

/-- An open file descriptor. -/
abbrev Handle := Nat

/-- What `mkdir` meets. With `EEXIST` the code does not see what it is that exists. -/
inductive MkdirResult where
  | created
  | exists (isDir : Bool)
  | error
  deriving DecidableEq, Repr

inductive FileOp where
  | mkdir (path : Path)
  | stat (path : Path)
  | openFile (path : Path) (mode : Nat)
  | close (fd : Handle)
  | lseek (fd : Handle) (off : Nat)
  | write (fd : Handle) (data : Bytes)
  | unlink (path : Path)
  | symlink (target path : Path)
  | getcwd

/-- Booleans are success, `none` is failure. `stat` answers whether the object is a
directory, `write` how many bytes were written. -/
def FileResponse : FileOp → Type
  | .mkdir _ => MkdirResult
  | .stat _ => Option Bool
  | .openFile _ _ => Option Handle
  | .close _ => Unit
  | .lseek _ _ | .unlink _ | .symlink _ _ => Bool
  | .write _ _ => Option Nat
  | .getcwd => Option Path

/-- `current_fd`, `current_path` and `base_dir`. -/
structure Locals where
  currentFd : Option Handle
  currentPath : Path
  baseDir : Path

def fileSignature : Signature := ⟨FileOp, FileResponse, Empty, nofun⟩

/-- A program that only makes file calls. -/
abbrev Files := Program fileSignature

namespace Files

abbrev ask (o : FileOp) : Files (FileResponse o) := Program.ask (S := fileSignature) o

end Files

def slash : UInt8 := '/'.toUInt8

/-- `while (blen > 0 && base_dir[blen - 1] == '/') blen--` -/
def stripSlashes (path : Path) : Path := (path.reverse.dropWhile (· = slash)).reverse

/-- `snprintf(current_path, sizeof(current_path), "%.*s/%s", blen, base_dir, fname)`, with the
leading slashes of the name skipped. -/
def targetPath (base name : Path) : Path :=
  snprintf scpMaxPathLen (stripSlashes base ++ slash :: name.dropWhile (· = slash))

theorem length_targetPath_lt (base name : Path) : (targetPath base name).length < scpMaxPathLen :=
  length_snprintf_lt (by decide) _

theorem targetPath_ne_nil (base name : Path) : targetPath base name ≠ [] := by
  unfold targetPath snprintf
  rw [ne_eq, List.take_eq_nil_iff]
  simp [scpMaxPathLen]

/-- What stands before the last slash. -/
def parentPath (path : Path) : Option Path :=
  if slash ∈ path then some (path.reverse.dropWhile (· ≠ slash)).tail.reverse else none

/-- The parts of a path that end before a slash, the first byte apart. -/
def slashPrefixes (path : Path) : List Path :=
  ((List.range path.length).filter fun i => i ≠ 0 ∧ path[i]? = some slash).map path.take

/-- The loop of `scp_mkdir_recursive`: -1 at the first failure. -/
def mkdirAll : List Path → Files Int
  | [] => return 0
  | path :: rest => do
    match ← Files.ask (.mkdir path) with
    | .error => return -1
    | .created | .exists _ => mkdirAll rest

/-- `tmp` in `scp_mkdir_recursive`: the copy of the path without a last slash. -/
def mkdirTarget (path : Path) : Path :=
  let tmp := snprintf scpMaxPathLen path
  if tmp.getLast? = some slash then tmp.dropLast else tmp

/-- `scp_mkdir_recursive`, for a path that is not empty. -/
def scpMkdirRecursive (path : Path) : Files Int := do
  let tmp := mkdirTarget path
  match ← Files.ask (.mkdir tmp) with
  | .created | .exists _ => return 0
  | .error => mkdirAll (slashPrefixes tmp ++ [tmp])

/-- `if (current_fd >= 0) close(current_fd)` -/
def closeCurrent : Option Handle → Files Unit
  | some fd => Files.ask (.close fd)
  | none => return ()

/-- `stat(...) == 0 && S_ISDIR(...)` -/
def isDirectory (path : Path) : Files Bool := do
  match ← Files.ask (.stat path) with
  | some isDir => return isDir
  | none => return false

/-- Replace whatever is at `path` by a link. -/
def replaceByLink (target path : Path) : Files Bool := do
  let _ ← Files.ask (.unlink path)
  Files.ask (.symlink target path)

/-- Write a chunk at its place. The results of `lseek` and `write` are not used. -/
def writeChunk (fd : Handle) (off : Nat) (data : Bytes) : Files Unit := do
  let _ ← Files.ask (.lseek fd off)
  let _ ← Files.ask (.write fd data)

/-! ## Packets

What the handling of a packet does to the files, as a program of file calls alone. -/

/-- What the handling of a packet depends on, apart from the files: the variables of
`scp_receiver_run` and `meta_type`. -/
structure View where
  loc : Locals
  metaType : UInt8

/-- What the handling of a packet adds to the totals. -/
structure Tally where
  bytes : Nat
  files : Nat
  dirs : Nat
  symlinks : Nat
  deriving DecidableEq

def Tally.none : Tally := ⟨0, 0, 0, 0⟩

/-- The name that a record holds. -/
def recordName (name : Bytes) : Path := (cString name).take (scpMaxFilenameLen - 1)

/-- The directory that `SCP_CMD_FILE_META` creates, if any. -/
def makeParent (path : Path) : Files Unit := do
  match parentPath path with
  | some parent =>
    let _ ← scpMkdirRecursive parent
  | none => return ()

def applyFileMeta (v : View) (name : Path) (mode : Nat) (type : UInt8) : Files (View × Tally) := do
  let path := targetPath v.loc.baseDir name
  if ← isDirectory path then
    closeCurrent v.loc.currentFd
    return (⟨⟨none, path, v.loc.baseDir⟩, type⟩, .none)
  else
    makeParent path
    closeCurrent v.loc.currentFd
    if type ≠ FileType.symlink.byte then
      let fd ← Files.ask (.openFile path mode)
      return (⟨⟨fd, path, v.loc.baseDir⟩, type⟩, { Tally.none with files := 1 })
    else
      return (⟨⟨none, path, v.loc.baseDir⟩, type⟩, .none)

def applyFileData (v : View) (off : Nat) (payload : Bytes) : Files (View × Tally) := do
  if v.metaType = FileType.symlink.byte then
    if ← replaceByLink (cString (payload.take (scpMaxPathLen - 1))) v.loc.currentPath then
      return (v, { Tally.none with symlinks := 1 })
    else
      return (v, .none)
  else
    match v.loc.currentFd with
    | none => return (v, .none)
    | some fd =>
      writeChunk fd off payload
      return (v, { Tally.none with bytes := payload.length })

def applyDirEnter (v : View) (name : Path) : Files (View × Tally) := do
  let path := targetPath v.loc.baseDir name
  let _ ← scpMkdirRecursive path
  return ({ v with loc := { v.loc with currentPath := path } }, { Tally.none with dirs := 1 })

def applyPacket (v : View) : Packet → Files (View × Tally)
  | .fileMeta name _ mode type _ => applyFileMeta v (recordName name) (mode % 2 ^ 32) type.byte
  | .fileData _ off payload => applyFileData v off payload
  | .dirEnter name => applyDirEnter v (recordName name)
  | .dirLeave => do
    closeCurrent v.loc.currentFd
    return ({ v with loc := { v.loc with currentFd := none } }, .none)
  | .transferEnd => do
    closeCurrent v.loc.currentFd
    return (v, .none)

/-- The packets that a peer announces, in order, each with its slot. -/
abbrev Feed := Nat → Parcel

variable {F : Type}

/-- The first `k` packets, handled one after the other, take `v` and `os` to these. -/
inductive Applied (M : Semantics fileSignature F) (pkts : Feed) (v : View) (os : F) :
    Nat → View → F → Prop where
  | start : Applied M pkts v os 0 v os
  | packet {k w τ w' os' os''} : Applied M pkts v os k w os' →
      Program.Outcome M (applyPacket w (pkts k).2) os' (w', τ) os'' →
      Applied M pkts v os (k + 1) w' os''

/-- How `scp_receiver_run` comes to its `base_dir`. -/
def openBase : Option Path → Files (Option Path)
  | some dir => do
    let base := (cString dir).take (scpMaxPathLen - 1)
    let _ ← scpMkdirRecursive base
    return some base
  | none => Files.ask .getcwd

/-- The first `k` packets of a run of the receiver, from its start on. -/
inductive Served (M : Semantics fileSignature F) (pkts : Feed) (outputDir : Option Path)
    (os : F) : Nat → View → F → Prop where
  | mk {k base w os' os''} : Program.Outcome M (openBase outputDir) os (some base) os' →
      Applied M pkts ⟨⟨none, [], base⟩, FileType.regular.byte⟩ os' k w os'' →
      Served M pkts outputDir os k w os''

end ScpRdma.Receiver

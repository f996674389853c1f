import Mathlib.Data.List.DropRight
import ScpRdma.Foundations.Paths
import ScpRdma.Protocol

/-!
# The destination path

What `main` makes of its two arguments as a client: the name of the server, and the path that it
passes to `scp_sender_run`. A remote path that is a directory gets the name of the source.

## Main definitions

* `clientPaths` — the branch of `main`.
* `destination` — the path that should be passed.
* `Deliverable` — when it is.
-/
namespace ScpRdma.Destination
open Foundations

/-- A path, as the bytes of a C string. -/
abbrev Path := Bytes

def slash : UInt8 := '/'.toUInt8
def dot : Path := ['.'.toUInt8]
def colon : UInt8 := ':'.toUInt8

/-! ## The code -/

/-- `strrchr(local_path, '/')`, behind the slash if there is one. -/
def baseName (localPath : Path) : Path := (localPath.reverse.takeWhile (· ≠ slash)).reverse

/-- `while (rlen > 0 && remote_path[rlen - 1] == '/') rlen--;` -/
def trimmedLength (remotePath : Path) : Nat → Nat
  | 0 => 0
  | rlen + 1 =>
    if remotePath[rlen]? = some slash then trimmedLength remotePath rlen else rlen + 1

/-- `%.*s` with the precision `(int)rlen`; a negative one counts as none. -/
def precise (rlen : Nat) (text : Path) : Path :=
  let precision := (rlen : Int).bmod (2 ^ 32)
  if precision < 0 then text else text.take precision.toNat

/-- The remote path is a directory. -/
def isDirectoryPath (remotePath : Path) : Bool :=
  remotePath = [] || remotePath.getLast? = some slash || remotePath = dot

/-- What `final_remote_path` holds; `stack` is what it holds before. -/
def finalRemotePath (stack localPath remotePath : Path) : Bytes :=
  if isDirectoryPath remotePath then
    let text := precise (trimmedLength remotePath remotePath.length) remotePath ++
      slash :: baseName localPath
    let written := snprintf scpMaxPathLen text
    written ++ 0 :: stack.drop (written.length + 1)
  else
    strncpyField remotePath (scpMaxPathLen - 1) (scpMaxPathLen - 1) ++
      stack.drop (scpMaxPathLen - 1)

/-- The server and the path that `main` goes on with; `none` is an error message. -/
def clientPaths (stack localPath destStr : Path) : Option (Path × Bytes) :=
  if colon ∈ destStr then
    let remotePath := (destStr.dropWhile (· ≠ colon)).tail
    some (destStr.takeWhile (· ≠ colon), finalRemotePath stack localPath remotePath)
  else none

/-! ## What it should do -/

/-- The last component of a path; the root has none. -/
def lastComponent (localPath : Path) : Path := (components slash localPath).getLast?.getD []

/-- Where the source should be stored. -/
def destination (localPath remotePath : Path) : Path :=
  if isDirectoryPath remotePath then
    remotePath.rdropWhile (· = slash) ++ slash :: lastComponent localPath
  else remotePath

/-- The buffer holds the C string. -/
structure Terminated (buf text : Bytes) : Prop where
  noNul : NoNul text
  ends : ∃ rest, buf = text ++ 0 :: rest

/-- `main` passes the destination, or reports an error where it does not fit. -/
def Delivers (stack localPath server remotePath : Path) : Prop :=
  if (destination localPath remotePath).length < scpMaxPathLen then
    ∃ buf, clientPaths stack localPath (server ++ colon :: remotePath) = some (server, buf) ∧
      Terminated buf (destination localPath remotePath)
  else clientPaths stack localPath (server ++ colon :: remotePath) = none

/-- Behind a directory the source has no trailing slash, unless it is the root, and the path fits.
Else the path is shorter by one byte, or the last byte of the buffer happens to be 0. -/
def Deliverable (stack localPath remotePath : Path) : Prop :=
  if isDirectoryPath remotePath then
    (localPath.getLast? ≠ some slash ∨ lastComponent localPath = []) ∧
      (destination localPath remotePath).length < scpMaxPathLen
  else
    remotePath.length < scpMaxPathLen - 1 ∨
      remotePath.length = scpMaxPathLen - 1 ∧ stack.getLast? = some 0

/-! ## The parts -/

variable {stack localPath server remotePath : Path}

theorem clientPaths_eq (hserver : colon ∉ server) :
    clientPaths stack localPath (server ++ colon :: remotePath) =
      some (server, finalRemotePath stack localPath remotePath) := by
  have hall : ∀ x ∈ server, decide (x ≠ colon) = true := fun x hx =>
    decide_eq_true fun h => hserver (h ▸ hx)
  have hcolon : decide (colon ≠ colon) = false := by decide
  rw [clientPaths, if_pos (by simp), List.takeWhile_append_of_pos hall,
    List.dropWhile_append_of_pos hall, List.takeWhile_cons, List.dropWhile_cons, hcolon]
  simp

theorem take_trimmedLength (path : Path) (k : Nat) (hk : k ≤ path.length) :
    path.take (trimmedLength path k) = (path.take k).rdropWhile (· = slash) := by
  induction k with
  | zero => simp [trimmedLength]
  | succ k ih =>
    have hlast : path.take (k + 1) = path.take k ++ [path[k]] := by simp
    rw [trimmedLength, List.getElem?_eq_getElem hk, hlast]
    by_cases hs : path[k] = slash
    · rw [if_pos (congrArg some hs), ih (by omega), hs]
      exact (List.rdropWhile_concat_pos (p := (· = slash)) _ _ (by simp)).symm
    · rw [if_neg (fun h => hs (Option.some.inj h))]
      rw [List.rdropWhile_concat_neg (p := (· = slash)) _ _ (by simpa using hs), hlast]

theorem trimmedLength_le (path : Path) (k : Nat) : trimmedLength path k ≤ k := by
  induction k with
  | zero => exact le_rfl
  | succ k ih =>
    rw [trimmedLength]
    split <;> omega

theorem precise_eq {rlen : Nat} (h : rlen < 2147483648) (text : Path) :
    precise rlen text = text.take rlen := by
  have hp : (rlen : Int).bmod (2 ^ 32) = rlen := by
    rw [Int.bmod_def]
    norm_num
    omega
  have hpos : ¬ (rlen : Int) < 0 := not_lt.mpr (Int.natCast_nonneg _)
  unfold precise
  simp only [hp]
  rw [if_neg hpos]
  rfl

/-- Behind the last slash of a path. -/
theorem baseName_split (path : Path) : slash ∉ baseName path ∧
    (baseName path = path ∨ ∃ pre, path = pre ++ slash :: baseName path) := by
  have hsplit : path = (path.reverse.dropWhile (· ≠ slash)).reverse ++ baseName path := by
    rw [baseName, ← List.reverse_append, List.takeWhile_append_dropWhile, List.reverse_reverse]
  constructor
  · intro hmem
    simpa using List.mem_takeWhile_imp (List.mem_reverse.mp hmem)
  · cases hdrop : path.reverse.dropWhile (· ≠ slash) with
    | nil =>
      rw [hdrop] at hsplit
      exact .inl hsplit.symm
    | cons x rest =>
      have hne : path.reverse.dropWhile (· ≠ slash) ≠ [] := by
        rw [hdrop]
        nofun
      have hx := List.head_dropWhile_not _ hne
      obtain rfl : x = slash := by
        simp only [hdrop, List.head_cons] at hx
        exact Decidable.not_not.mp (of_decide_eq_false hx)
      rw [hdrop, List.reverse_cons, List.append_assoc] at hsplit
      exact .inr ⟨rest.reverse, hsplit⟩

theorem baseName_of_slash (h : localPath.getLast? = some slash) : baseName localPath = [] := by
  obtain ⟨pre, rfl⟩ : ∃ pre, localPath = pre ++ [slash] :=
    ⟨_, (List.dropLast_append_getLast? _ h).symm⟩
  simp [baseName]

/-- A source without a trailing slash is named by what is behind its last slash. -/
theorem baseName_eq_lastComponent (h : localPath.getLast? ≠ some slash) :
    baseName localPath = lastComponent localPath := by
  obtain ⟨hno, hpath | ⟨pre, hpre⟩⟩ := baseName_split localPath
  · by_cases hne : localPath = []
    · subst hne
      rfl
    · rw [hpath] at hno ⊢
      have hcomponent : components slash localPath = [localPath] :=
        IsComponent.components ⟨hne, hno⟩
      rw [lastComponent, hcomponent]
      rfl
  · generalize baseName localPath = b at hno hpre
    subst hpre
    have hne : b ≠ [] := by
      rintro rfl
      simp at h
    have hcomponent : components slash b = [b] := IsComponent.components ⟨hne, hno⟩
    rw [lastComponent, components_sep, hcomponent]
    simp

/-! ## When it is delivered -/

theorem Terminated.inj {buf text text' : Bytes} (h : Terminated buf text)
    (h' : Terminated buf text') : text = text' := by
  obtain ⟨hno, rest, rfl⟩ := h
  obtain ⟨hno', rest', heq⟩ := h'
  rw [← cString_append_zero hno, heq, cString_append_zero hno']

/-- The entry `name` of a remote directory. -/
def entryOf (remotePath name : Path) : Path :=
  remotePath.take (trimmedLength remotePath remotePath.length) ++ slash :: name

theorem destination_directory (h : isDirectoryPath remotePath = true) :
    destination localPath remotePath = entryOf remotePath (lastComponent localPath) := by
  rw [destination, if_pos h, entryOf, take_trimmedLength _ _ le_rfl, List.take_length]

theorem length_entryOf (name : Path) : (entryOf remotePath name).length =
    trimmedLength remotePath remotePath.length + 1 + name.length := by
  have := trimmedLength_le remotePath remotePath.length
  simp only [entryOf, List.length_append, List.length_take, List.length_cons]
  omega

/-- Where the destination fits, the precision is that of the remote path. -/
theorem finalRemotePath_directory (h : isDirectoryPath remotePath = true)
    (hfit : (destination localPath remotePath).length < scpMaxPathLen) :
    ∃ rest, finalRemotePath stack localPath remotePath =
      snprintf scpMaxPathLen (entryOf remotePath (baseName localPath)) ++ 0 :: rest := by
  have hlen : trimmedLength remotePath remotePath.length < 2147483648 := by
    rw [destination_directory h, length_entryOf] at hfit
    have : scpMaxPathLen < 2147483648 := by decide
    omega
  rw [finalRemotePath, if_pos h, precise_eq hlen]
  exact ⟨_, rfl⟩

theorem noNul_sublist {a b : Bytes} (hb : NoNul b) (h : a.Sublist b) : NoNul a :=
  fun x hx => hb x (h.subset hx)

theorem noNul_baseName (h : NoNul localPath) : NoNul (baseName localPath) := by
  intro x hx
  have hmem := (List.takeWhile_sublist _).subset (List.mem_reverse.mp hx)
  exact h x (List.mem_reverse.mp hmem)

theorem noNul_entryOf {name : Path} (hremote : NoNul remotePath) (hname : NoNul name) :
    NoNul (entryOf remotePath name) := by
  intro x hx
  rcases List.mem_append.mp hx with hx | hx
  · exact hremote x (List.mem_of_mem_take hx)
  · rcases List.mem_cons.mp hx with rfl | hx
    · decide
    · exact hname x hx

theorem delivers_directory (hserver : colon ∉ server) (hlocal : NoNul localPath)
    (hremote : NoNul remotePath) (h : isDirectoryPath remotePath = true)
    (hfit : (destination localPath remotePath).length < scpMaxPathLen) :
    Delivers stack localPath server remotePath ↔
      localPath.getLast? ≠ some slash ∨ lastComponent localPath = [] := by
  obtain ⟨rest, hbuf⟩ := @finalRemotePath_directory stack _ _ h hfit
  have hentry := noNul_entryOf hremote (noNul_baseName hlocal)
  rw [Delivers, if_pos hfit, clientPaths_eq hserver, hbuf, destination_directory h]
  rw [destination_directory h] at hfit
  constructor
  · rintro ⟨_, ⟨⟩, hterm⟩
    by_contra hcut
    obtain ⟨hslash, hne⟩ := not_or.mp hcut
    -- nothing is behind the last slash, so the buffer holds less than the destination
    have hbase := baseName_of_slash (not_not.mp hslash)
    have hwritten := noNul_sublist hentry (List.take_sublist (scpMaxPathLen - 1) _)
    have hlen : (entryOf remotePath (lastComponent localPath)).length ≤
        (entryOf remotePath []).length := by
      rw [hterm.inj ⟨hwritten, rest, rfl⟩, hbase]
      exact List.length_take_le' ..
    rw [length_entryOf, length_entryOf, List.length_nil] at hlen
    exact hne (List.length_eq_zero_iff.mp (by omega))
  · intro hbase
    have hname : baseName localPath = lastComponent localPath := by
      by_cases hslash : localPath.getLast? = some slash
      · rw [hbase.resolve_left (not_not_intro hslash), baseName_of_slash hslash]
      · exact baseName_eq_lastComponent hslash
    rw [hname] at hentry ⊢
    exact ⟨_, rfl, hentry, rest, by rw [snprintf_eq hfit]⟩

theorem delivers_file (hstack : stack.length = scpMaxPathLen) (hserver : colon ∉ server)
    (hremote : NoNul remotePath) (h : isDirectoryPath remotePath = false)
    (hfit : remotePath.length < scpMaxPathLen) :
    Delivers stack localPath server remotePath ↔
      remotePath.length < scpMaxPathLen - 1 ∨ stack.getLast? = some 0 := by
  have hdest : destination localPath remotePath = remotePath := by
    rw [destination, if_neg (by simp [h])]
  have hbuf : finalRemotePath stack localPath remotePath = remotePath ++
      (List.replicate (scpMaxPathLen - 1 - remotePath.length) 0 ++
        stack.drop (scpMaxPathLen - 1)) := by
    rw [finalRemotePath, if_neg (by simp [h]), strncpyField, cString_of_noNul hremote,
      List.take_of_length_le (by omega), List.append_assoc]
  -- the last byte of the buffer is left as it is
  obtain ⟨b, hb⟩ : ∃ b, stack.drop (scpMaxPathLen - 1) = [b] :=
    List.length_eq_one_iff.mp (by rw [List.length_drop, hstack]; rfl)
  have hlast : stack.getLast? = some b := by
    rw [← List.take_append_drop (scpMaxPathLen - 1) stack, hb]
    simp
  rw [Delivers, hdest, if_pos hfit, clientPaths_eq hserver, hbuf, hb, hlast]
  constructor
  · rintro ⟨_, ⟨⟩, -, rest, hrest⟩
    by_contra hcut
    obtain ⟨hlen, hb0⟩ := not_or.mp hcut
    have hnone : scpMaxPathLen - 1 - remotePath.length = 0 := by omega
    rw [hnone] at hrest
    obtain ⟨rfl, -⟩ := List.cons.inj (List.append_cancel_left hrest)
    exact hb0 rfl
  · intro hzero
    refine ⟨_, rfl, hremote, ?_⟩
    by_cases hlen : remotePath.length < scpMaxPathLen - 1
    · obtain ⟨k, hk⟩ : ∃ k, scpMaxPathLen - 1 - remotePath.length = k + 1 :=
        ⟨scpMaxPathLen - 1 - remotePath.length - 1, by omega⟩
      exact ⟨_, by rw [hk, List.replicate_succ]; rfl⟩
    · obtain rfl := Option.some.inj (hzero.resolve_left hlen)
      have hnone : scpMaxPathLen - 1 - remotePath.length = 0 := by omega
      exact ⟨[], by rw [hnone]; rfl⟩

/-- `main` passes the destination, or reports that it does not fit, if and only if the paths can be
delivered. -/
theorem delivers_iff (hstack : stack.length = scpMaxPathLen) (hserver : colon ∉ server)
    (hlocal : NoNul localPath) (hremote : NoNul remotePath) :
    Delivers stack localPath server remotePath ↔ Deliverable stack localPath remotePath := by
  by_cases hfit : (destination localPath remotePath).length < scpMaxPathLen
  · cases h : isDirectoryPath remotePath with
    | true =>
      rw [delivers_directory hserver hlocal hremote h hfit, Deliverable, if_pos h]
      exact (and_iff_left hfit).symm
    | false =>
      have hfit' : remotePath.length < scpMaxPathLen := by
        rwa [destination, if_neg (by simp [h])] at hfit
      rw [delivers_file hstack hserver hremote h hfit', Deliverable, if_neg (by simp [h])]
      constructor
      · intro hzero
        by_cases hlen : remotePath.length < scpMaxPathLen - 1
        · exact .inl hlen
        · exact .inr ⟨by omega, hzero.resolve_left hlen⟩
      · exact fun hzero => hzero.imp id And.right
  · -- no error is reported
    rw [Delivers, if_neg hfit, clientPaths_eq hserver, Deliverable]
    refine iff_of_false nofun fun hd => hfit ?_
    split at hd
    · exact hd.2
    · rename_i h
      have hpos : 0 < scpMaxPathLen := by decide
      rw [destination, if_neg h]
      omega

/-- `scp_rdma f ip:d/` -/
theorem delivers_file_in_directory :
    Delivers (List.replicate scpMaxPathLen 255) [102] [105, 112] [100, 47] := by
  refine (delivers_iff ?_ (by decide) ?_ ?_).mpr ?_
  · exact List.length_replicate
  · exact fun b hb => by simp at hb; subst hb; decide
  · exact fun b hb => by rcases List.mem_pair.mp hb with rfl | rfl <;> decide
  · exact ⟨.inl (by decide), by decide⟩

/-- `scp_rdma -r s/ ip:d/` -/
theorem not_delivers : ¬ ∀ (stack localPath server remotePath : Path),
    stack.length = scpMaxPathLen → colon ∉ server → NoNul localPath → NoNul remotePath →
      Delivers stack localPath server remotePath := by
  intro h
  have hslash := h (List.replicate scpMaxPathLen 0) [115, 47] [105, 112] [100, 47]
    List.length_replicate (by decide)
    (fun b hb => by rcases List.mem_pair.mp hb with rfl | rfl <;> decide)
    (fun b hb => by rcases List.mem_pair.mp hb with rfl | rfl <;> decide)
  have hcut := (delivers_directory (by decide)
    (fun b hb => by rcases List.mem_pair.mp hb with rfl | rfl <;> decide)
    (fun b hb => by rcases List.mem_pair.mp hb with rfl | rfl <;> decide) rfl (by decide)).mp hslash
  exact absurd hcut (by decide)

end ScpRdma.Destination

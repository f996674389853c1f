import ScpRdma.Foundations.Paths
import ScpRdma.Sender.Completeness
import ScpRdma.Receiver.Files

/-!
# The paths of an object

An object of the source is named by its components below the top. The sender comes to its
local and to its remote path one component at a time, each time through a buffer of
`SCP_MAX_PATH_LEN` bytes; the remote path goes through a name field of the packet, and the
receiver joins it to its base directory in another buffer. `ShortPaths` says that nothing is
cut off on the way.
-/
namespace ScpRdma.Transfer
open Foundations Receiver

/-- `subPath` for one component after the other. -/
def subPaths (root : Path) (ns : List Path) : Path := ns.foldl Sender.subPath root

/-- The whole path of an object. -/
def wholePath (root : Path) (ns : List Path) : Path := joinPath slash root ns

/-- `base_dir` without its last slashes, a slash, the remote path without its first ones. -/
def wholeTarget (base remote : Path) : Path :=
  stripSlashes base ++ slash :: remote.dropWhile (· = slash)

/-- The path that the receiver makes of the record for remote path `remote`. -/
def recordedTarget (base remote : Path) : Path := targetPath base (recordName remote)

theorem subPaths_eq {root : Path} {ns : List Path} (h : ns ≠ []) :
    subPaths root ns = (wholePath root ns).take (scpMaxPathLen - 1) :=
  foldl_take_joinPath (scpMaxPathLen - 1) root ns h

theorem subPaths_concat (root : Path) (ns : List Path) (n : Path) :
    subPaths root (ns ++ [n]) = Sender.subPath (subPaths root ns) n := by simp [subPaths]

/-- The bytes of a record only depend on the first 255 bytes, which the buffers keep. -/
theorem take_subPaths (root : Path) (ns : List Path) :
    (subPaths root ns).take (scpMaxFilenameLen - 1) =
      (wholePath root ns).take (scpMaxFilenameLen - 1) := by
  by_cases h : ns = []
  · subst h
    simp [subPaths, wholePath]
  · rw [subPaths_eq h, List.take_take, min_eq_left (by decide)]

/-- Cutting a list that does not consist of `a` alone takes something of its later part. -/
theorem length_dropWhile_take_lt {l : Path} {k : Nat} {a : UInt8} (hk : k < l.length)
    (hl : ∃ b ∈ l, b ≠ a) :
    ((l.take k).dropWhile (· = a)).length < (l.dropWhile (· = a)).length := by
  induction l generalizing k with
  | nil => simp at hk
  | cons x l ih =>
    by_cases hx : x = a
    · obtain ⟨b, hb, hba⟩ := hl
      have hmem : b ∈ l := (List.mem_cons.mp hb).resolve_left fun h => hba (h.trans hx)
      cases k with
      | zero =>
        simp only [List.take_zero, List.dropWhile_nil, List.length_nil, List.dropWhile_cons, hx,
          decide_true, if_true]
        refine List.length_pos_iff.mpr fun h => hba ?_
        simpa using List.dropWhile_eq_nil_iff.mp h b hmem
      | succ k =>
        simp only [List.take_succ_cons, List.dropWhile_cons, hx, decide_true, if_true]
        exact ih (by simpa using hk) ⟨b, hmem, hba⟩
    · cases k with
      | zero => simp [hx]
      | succ k =>
        simp only [List.take_succ_cons, List.dropWhile_cons, hx, decide_false, Bool.false_eq_true,
          if_false, List.length_cons, List.length_take]
        simp only [List.length_cons] at hk
        omega

/-- The receiver's path is whole when the name fits its field, or is nothing but slashes, and
the path its buffer. -/
theorem recordedTarget_eq_iff {base remote : Path} (hno : NoNul remote) :
    recordedTarget base remote = wholeTarget base remote ↔
      (remote.length < scpMaxFilenameLen ∨ ∀ b ∈ remote, b = slash) ∧
        (wholeTarget base remote).length < scpMaxPathLen := by
  have hrecord : recordedTarget base remote =
      (wholeTarget base (remote.take (scpMaxFilenameLen - 1))).take (scpMaxPathLen - 1) := by
    rw [recordedTarget, recordName, cString_of_noNul hno]
    rfl
  rw [hrecord]
  simp only [scpMaxFilenameLen, scpMaxPathLen]
  constructor
  · intro h
    have hlen := congrArg List.length h
    rw [List.length_take] at hlen
    refine ⟨?_, by omega⟩
    by_contra hlong
    obtain ⟨hlong, hother⟩ := not_or.mp hlong
    push Not at hother
    have hcut := length_dropWhile_take_lt (k := 256 - 1) (by omega) hother
    simp only [wholeTarget, List.length_append, List.length_cons] at hlen
    omega
  · rintro ⟨hname, hpath⟩
    have hkeep : (remote.take (256 - 1)).dropWhile (· = slash) = remote.dropWhile (· = slash) := by
      rcases hname with hshort | hslashes
      · rw [List.take_of_length_le (by omega)]
      · have hnone : ∀ l : Path, (∀ b ∈ l, b = slash) → l.dropWhile (· = slash) = [] :=
          fun l hl => List.dropWhile_eq_nil_iff.mpr (by simpa using hl)
        rw [hnone _ hslashes, hnone _ fun b hb => hslashes b (List.mem_of_mem_take hb)]
    rw [wholeTarget, hkeep, ← wholeTarget, List.take_of_length_le (by omega)]

/-- No buffer and no name field cuts off a part of the paths of the object. -/
structure ShortPaths (localRoot remoteRoot base : Path) (ns : List Path) : Prop where
  localPath : ns ≠ [] → (wholePath localRoot ns).length < scpMaxPathLen
  remotePath : (wholePath remoteRoot ns).length < scpMaxFilenameLen ∨
    ∀ b ∈ wholePath remoteRoot ns, b = slash
  target : (wholeTarget base (wholePath remoteRoot ns)).length < scpMaxPathLen

/-- Components as a directory has them. -/
structure Proper (n : Path) : Prop extends IsComponent slash n where
  noNul : NoNul n

theorem noNul_wholePath {root : Path} {ns : List Path} (hroot : NoNul root)
    (hns : ∀ n ∈ ns, Proper n) : NoNul (wholePath root ns) := by
  intro b hb
  rcases List.mem_append.mp hb with h | h
  · exact hroot b h
  · obtain ⟨n, hn, hbn⟩ := List.mem_flatMap.mp h
    rcases List.mem_cons.mp hbn with rfl | hbn
    · decide
    · exact (hns n hn).noNul b hbn

/-- What the receiver makes of the remote path of an object, as the sender computes it. -/
theorem recordedTarget_subPaths {base root : Path} {ns : List Path} (hroot : NoNul root)
    (hns : ∀ n ∈ ns, Proper n) :
    recordedTarget base (subPaths root ns) = recordedTarget base (wholePath root ns) := by
  have hwhole := noNul_wholePath hroot hns
  have hsub : NoNul (subPaths root ns) := by
    by_cases h : ns = []
    · subst h
      exact hroot
    · rw [subPaths_eq h]
      exact fun b hb => hwhole b (List.mem_of_mem_take hb)
  rw [recordedTarget, recordedTarget, recordName, recordName, cString_of_noNul hsub,
    cString_of_noNul hwhole, take_subPaths]

/-- The sender and the receiver have the whole paths of an object exactly when they are short. -/
theorem paths_whole_iff {localRoot remoteRoot base : Path} {ns : List Path}
    (hroot : NoNul remoteRoot) (hns : ∀ n ∈ ns, Proper n) :
    (subPaths localRoot ns = wholePath localRoot ns ∧
      recordedTarget base (subPaths remoteRoot ns) =
        wholeTarget base (wholePath remoteRoot ns)) ↔
      ShortPaths localRoot remoteRoot base ns := by
  have hlocal : subPaths localRoot ns = wholePath localRoot ns ↔
      (ns ≠ [] → (wholePath localRoot ns).length < scpMaxPathLen) := by
    by_cases h : ns = []
    · subst h
      simp [subPaths, wholePath]
    · rw [subPaths_eq h, List.take_eq_self_iff]
      simp only [scpMaxPathLen, ne_eq, h, not_false_iff, true_imp_iff]
      omega
  rw [hlocal, recordedTarget_subPaths hroot hns,
    recordedTarget_eq_iff (noNul_wholePath hroot hns)]
  constructor
  · intro h
    exact ⟨h.1, h.2.1, h.2.2⟩
  · intro h
    exact ⟨h.localPath, h.remotePath, h.target⟩

/-- Whole targets of different objects differ. -/
theorem wholeTarget_inj {base root : Path} {ns ns' : List Path} (hns : ∀ n ∈ ns, Proper n)
    (hns' : ∀ n ∈ ns', Proper n)
    (h : wholeTarget base (wholePath root ns) = wholeTarget base (wholePath root ns')) :
    ns = ns' := by
  have htail := List.append_cancel_left h
  exact dropWhile_joinPath_inj (fun n hn => (hns n hn).toIsComponent)
    (fun n hn => (hns' n hn).toIsComponent) (List.cons.inj htail).2

end ScpRdma.Transfer

import Mathlib.Data.List.TakeWhile
import Mathlib.Data.List.GetD
import Mathlib.Tactic

/-!
# Byte memory, little-endian integers and C strings

Memory is a total function from offsets to bytes, so a range that leaves a buffer still has
bytes, and a bound has to be proved. Records are byte lists in the order of their fields.
-/
namespace ScpRdma.Foundations

abbrev Bytes := List UInt8

abbrev Memory := Nat → UInt8

namespace Memory

def load (m : Memory) (off len : Nat) : Bytes := (List.range len).map fun i => m (off + i)

def store (m : Memory) (off : Nat) (bs : Bytes) : Memory :=
  fun i => if off ≤ i then (bs[i - off]?).getD (m i) else m i

@[simp] theorem length_load (m : Memory) (off len : Nat) : (m.load off len).length = len := by
  simp [load]

@[simp] theorem getElem_load (m : Memory) (off len i : Nat) (h : i < (m.load off len).length) :
    (m.load off len)[i] = m (off + i) := by simp [load]

theorem load_congr {m m' : Memory} {off len : Nat}
    (h : ∀ i, off ≤ i → i < off + len → m i = m' i) : m.load off len = m'.load off len := by
  refine List.map_congr_left fun i hi => h _ (by omega) ?_
  have := List.mem_range.mp hi
  omega

theorem store_outside {m : Memory} {off i : Nat} {bs : Bytes}
    (h : i < off ∨ off + bs.length ≤ i) : m.store off bs i = m i := by
  unfold store
  split
  · rw [List.getElem?_eq_none (by omega)]; rfl
  · rfl

theorem store_inside {m : Memory} {off i : Nat} {bs : Bytes} (h : i < bs.length) :
    m.store off bs (off + i) = bs[i] := by
  simp [store, List.getElem?_eq_getElem h]

theorem load_add (m : Memory) (off a b : Nat) :
    m.load off (a + b) = m.load off a ++ m.load (off + a) b := by
  simp [load, List.range_add, Nat.add_assoc]

/-- Reading a range that a store does not touch. -/
theorem load_store_disjoint {m : Memory} {off at_ len : Nat} {bs : Bytes}
    (h : off + len ≤ at_ ∨ at_ + bs.length ≤ off) :
    (m.store at_ bs).load off len = m.load off len :=
  load_congr fun i hi hl => store_outside (by omega)

/-- Reading back part of what was stored. -/
theorem load_store_within {m : Memory} {at_ i len : Nat} {bs : Bytes}
    (h : i + len ≤ bs.length) : (m.store at_ bs).load (at_ + i) len = (bs.drop i).take len := by
  apply List.ext_getElem
  · simp; omega
  · intro j hj _
    have : i + j < bs.length := by simp at hj; omega
    simp [Nat.add_assoc, store_inside this]

@[simp] theorem load_store_self (m : Memory) (off : Nat) (bs : Bytes) :
    (m.store off bs).load off bs.length = bs := by
  simpa using @load_store_within m off 0 bs.length bs (by omega)

theorem load_store_eq {m : Memory} {off len : Nat} {bs : Bytes} (h : bs.length = len) :
    (m.store off bs).load off len = bs := h ▸ load_store_self m off bs

theorem load_store_append {m : Memory} {off len : Nat} {bs rest : Bytes} (h : bs.length = len) :
    (m.store off (bs ++ rest)).load off len = bs := by
  subst h
  simpa using @load_store_within m off 0 bs.length (bs ++ rest) (by simp)

/-- The part of a loaded range that lies in a smaller one. -/
theorem load_slice {m : Memory} {off len i n : Nat} {bs : Bytes} (h : m.load off len = bs)
    (hin : i + n ≤ len) : m.load (off + i) n = (bs.drop i).take n := by
  subst h
  apply List.ext_getElem
  · simp; omega
  · intro j _ _
    simp [Nat.add_assoc]

end Memory

/-- The `k` low bytes of `n`, least significant first. -/
def leBytes : Nat → Nat → Bytes
  | 0, _ => []
  | k + 1, n => UInt8.ofNat (n % 256) :: leBytes k (n / 256)

def leNat : Bytes → Nat
  | [] => 0
  | b :: bs => b.toNat + 256 * leNat bs

@[simp] theorem length_leBytes (k n : Nat) : (leBytes k n).length = k := by
  induction k generalizing n with
  | zero => rfl
  | succ k ih => simp [leBytes, ih]

theorem leNat_leBytes (k n : Nat) : leNat (leBytes k n) = n % 256 ^ k := by
  induction k generalizing n with
  | zero => simp [leBytes, leNat, Nat.mod_one]
  | succ k ih =>
    have hb : (UInt8.ofNat (n % 256)).toNat = n % 256 := by simp
    rw [leBytes, leNat, ih, hb, Nat.pow_succ', Nat.mod_mul]

theorem leNat_leBytes_of_lt {k n : Nat} (h : n < 256 ^ k) : leNat (leBytes k n) = n := by
  rw [leNat_leBytes, Nat.mod_eq_of_lt h]

theorem leNat_lt (bs : Bytes) : leNat bs < 256 ^ bs.length := by
  induction bs with
  | nil => simp [leNat]
  | cons b bs ih =>
    have := b.toNat_lt
    simp only [leNat, List.length_cons, Nat.pow_succ]
    omega

/-- The field of `len` bytes at `off`. -/
def field (bs : Bytes) (off len : Nat) : Bytes := (bs.drop off).take len

theorem field_append {pre mid post : Bytes} {off len : Nat} (hoff : pre.length = off)
    (hlen : mid.length = len) : field (pre ++ mid ++ post) off len = mid := by
  subst hoff hlen
  simp [field]

@[simp] theorem length_field {bs : Bytes} {off len : Nat} (h : off + len ≤ bs.length) :
    (field bs off len).length = len := by
  simp only [field, List.length_take, List.length_drop]
  omega

theorem field_field {bs : Bytes} {off len off' len' : Nat} (h : off' + len' ≤ len) :
    field (field bs off len) off' len' = field bs (off + off') len' := by
  simp only [field, List.drop_take, List.take_take, List.drop_drop]
  congr 1
  omega

/-- The bytes can stand in a C string. -/
def NoNul (bs : Bytes) : Prop := ∀ b ∈ bs, b ≠ 0

/-- The bytes before the first NUL. -/
def cString (bs : Bytes) : Bytes := bs.takeWhile (· ≠ 0)

/-- The C string that starts at `off` is `text`. -/
def Memory.StringAt (m : Memory) (off : Nat) (text : Bytes) : Prop :=
  NoNul text ∧ m.load off (text.length + 1) = text ++ [0]

/-- `strncpy` of at most `n` bytes into a zeroed field of `size` bytes. -/
def strncpyField (src : Bytes) (n size : Nat) : Bytes :=
  let copied := (cString src).take n
  copied ++ List.replicate (size - copied.length) 0

theorem cString_nonzero {bs : Bytes} {b : UInt8} (h : b ∈ cString bs) : b ≠ 0 := by
  simpa using List.mem_takeWhile_imp h

theorem cString_of_noNul {bs : Bytes} (h : NoNul bs) : cString bs = bs :=
  List.takeWhile_eq_self_iff.mpr (by simpa [NoNul] using h)

theorem length_strncpyField {src : Bytes} {n size : Nat} (h : n ≤ size) :
    (strncpyField src n size).length = size := by
  simp only [strncpyField, List.length_append, List.length_replicate, List.length_take]
  omega

/-- A string that ends before the field does is read back as it was copied. -/
theorem cString_append_zero {bs rest : Bytes} (h : ∀ b ∈ bs, b ≠ 0) :
    cString (bs ++ 0 :: rest) = bs := by
  rw [cString, List.takeWhile_append_of_pos (by simpa using h)]
  simp

theorem cString_strncpyField {src rest : Bytes} {n size : Nat} (h : n < size) :
    cString (strncpyField src n size ++ rest) = (cString src).take n := by
  have hlen : ((cString src).take n).length ≤ n := by simp
  obtain ⟨k, hk⟩ : ∃ k, size - ((cString src).take n).length = k + 1 :=
    ⟨size - ((cString src).take n).length - 1, by omega⟩
  rw [strncpyField, hk, List.replicate_succ, List.append_assoc, List.cons_append]
  exact cString_append_zero fun b hb => cString_nonzero (List.mem_of_mem_take hb)

theorem zero_mem_strncpyField {src : Bytes} {n size : Nat} (h : n < size) :
    0 ∈ strncpyField src n size := by
  have hlen : ((cString src).take n).length ≤ n := List.length_take_le _ _
  exact List.mem_append_right _ (List.mem_replicate.mpr ⟨by omega, rfl⟩)

/-- The string that a memory holds ends where its first NUL stands. -/
theorem stringAt_eq {m : Memory} {off : Nat} {text bs : Bytes} (h : m.StringAt off text)
    (hbs : m.load off bs.length = bs) (h0 : 0 ∈ bs) :
    text = cString bs ∧ (text ++ [0]).length ≤ bs.length ∧
      text ++ [0] = bs.take (text ++ [0]).length := by
  obtain ⟨hno, htext⟩ := h
  have hlen : text.length + 1 ≤ bs.length := by
    by_contra hlt
    have hslice := Memory.load_slice htext (show 0 + bs.length ≤ text.length + 1 by omega)
    rw [Nat.add_zero, hbs, List.drop_zero, List.take_append_of_le_length (by omega)] at hslice
    exact hno 0 (List.mem_of_mem_take (hslice ▸ h0)) rfl
  have htake : text ++ [0] = bs.take (text.length + 1) := by
    have hslice := Memory.load_slice hbs (show 0 + (text.length + 1) ≤ bs.length by omega)
    rwa [Nat.add_zero, htext, List.drop_zero] at hslice
  refine ⟨?_, by simpa using hlen, by simpa using htake⟩
  rw [← List.take_append_drop (text.length + 1) bs, ← htake, List.append_assoc]
  exact (cString_append_zero hno).symm

theorem take_cString {bs : Bytes} (h0 : 0 ∈ bs) :
    bs.take ((cString bs).length + 1) = cString bs ++ [0] := by
  induction bs with
  | nil => cases h0
  | cons b bs ih =>
    by_cases hb : b = 0
    · simp [cString, hb]
    · have := ih ((List.mem_cons.mp h0).resolve_left (Ne.symm hb))
      simpa [cString, hb] using this

/-- What is behind the first NUL does not matter to the string. -/
theorem stringAt_iff {m : Memory} {off : Nat} {text bs : Bytes} (hbs : m.load off bs.length = bs)
    (h0 : 0 ∈ bs) : m.StringAt off text ↔ text = cString bs := by
  refine ⟨fun h => (stringAt_eq h hbs h0).1, ?_⟩
  rintro rfl
  have htake := take_cString h0
  have hlen : (cString bs).length + 1 ≤ bs.length := by
    have := congrArg List.length htake
    simp only [List.length_take, List.length_append, List.length_singleton] at this
    omega
  have hslice := Memory.load_slice hbs (show 0 + ((cString bs).length + 1) ≤ bs.length by omega)
  rw [Nat.add_zero, List.drop_zero, htake] at hslice
  exact ⟨fun _ => cString_nonzero, hslice⟩

/-- `snprintf` of a string into `size` bytes: what does not fit with its NUL is cut off. -/
def snprintf (size : Nat) (text : Bytes) : Bytes := text.take (size - 1)

theorem snprintf_eq {size : Nat} {text : Bytes} (h : text.length < size) :
    snprintf size text = text := List.take_of_length_le (by omega)

theorem length_snprintf_lt {size : Nat} (h : 0 < size) (text : Bytes) :
    (snprintf size text).length < size := by
  simp only [snprintf, List.length_take]
  omega

end ScpRdma.Foundations

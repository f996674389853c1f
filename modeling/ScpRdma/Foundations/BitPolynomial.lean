import Mathlib.Algebra.Polynomial.Div
import Mathlib.Algebra.Polynomial.RingDivision
import Mathlib.Algebra.Field.ZMod
import Mathlib.Algebra.CharP.Two
import Mathlib.RingTheory.Coprime.Lemmas
import Mathlib.Tactic.LinearCombination

/-!
# Bit vectors as polynomials

A bit vector is read as a polynomial over the field with two elements, the least significant bit
first: bit `i` of `n` is the coefficient of `X ^ (n - 1 - i)`. Exclusive or is addition, and a shift
to the right multiplies by `X`, but for the bit that leaves the register. A shift register with
feedback hence multiplies by `X` modulo its generator.

## Main definitions

* `reflected`, `straight` — the polynomial of a bit vector, least significant bit first or last.
* `Crc.step` — a step of the shift register.
* `Crc.generator` — the polynomial that it reduces by.
-/
namespace ScpRdma.Foundations

open Polynomial

noncomputable section

variable {n : Nat}

/-- The polynomial of a bit vector, with its least significant bit as the leading coefficient. -/
def reflected (w : BitVec n) : (ZMod 2)[X] :=
  ∑ i ∈ Finset.range n, if w.getLsbD i then X ^ (n - 1 - i) else 0

/-- The polynomial of a bit vector, with bit `i` as the coefficient of `X ^ i`. -/
def straight (w : BitVec n) : (ZMod 2)[X] :=
  ∑ i ∈ Finset.range n, if w.getLsbD i then X ^ i else 0

theorem coeff_reflected (w : BitVec n) (k : Nat) :
    (reflected w).coeff k = if k < n ∧ w.getLsbD (n - 1 - k) then 1 else 0 := by
  rw [reflected, finsetSum_coeff]
  by_cases hk : k < n
  · rw [Finset.sum_eq_single (n - 1 - k)]
    · have : n - 1 - (n - 1 - k) = k := by omega
      split <;> simp_all
    · intro i hi hne
      have := Finset.mem_range.mp hi
      split
      · rw [coeff_X_pow, if_neg (by omega)]
      · exact coeff_zero k
    · intro hn
      rw [Finset.mem_range] at hn
      omega
  · rw [if_neg (by simp [hk])]
    refine Finset.sum_eq_zero fun i hi => ?_
    have := Finset.mem_range.mp hi
    split
    · rw [coeff_X_pow, if_neg (by omega)]
    · exact coeff_zero k

theorem coeff_straight (w : BitVec n) (k : Nat) :
    (straight w).coeff k = if w.getLsbD k then 1 else 0 := by
  rw [straight, finsetSum_coeff]
  by_cases hk : k < n
  · rw [Finset.sum_eq_single k]
    · split <;> simp
    · intro i _ hne
      split
      · rw [coeff_X_pow, if_neg hne.symm]
      · exact coeff_zero k
    · exact fun hn => absurd (Finset.mem_range.mpr hk) hn
  · rw [if_neg (by rw [BitVec.getLsbD_of_ge w k (by omega)]; nofun)]
    refine Finset.sum_eq_zero fun i hi => ?_
    have := Finset.mem_range.mp hi
    split
    · rw [coeff_X_pow, if_neg (by omega)]
    · exact coeff_zero k

theorem degree_reflected_lt (w : BitVec n) : (reflected w).degree < n := by
  rw [degree_lt_iff_coeff_zero]
  intro k hk
  rw [coeff_reflected, if_neg (by omega)]

theorem reflected_xor (a b : BitVec n) : reflected (a ^^^ b) = reflected a + reflected b := by
  ext k
  rw [coeff_add, coeff_reflected, coeff_reflected, coeff_reflected, BitVec.getLsbD_xor]
  by_cases hk : k < n
  · cases a.getLsbD (n - 1 - k) <;> cases b.getLsbD (n - 1 - k) <;>
      simp [hk, CharTwo.add_self_eq_zero]
  · simp [hk]

@[simp] theorem reflected_zero : reflected (0#n) = 0 := by simp [reflected]

/-- A wider register holds the same bits at higher powers. -/
theorem reflected_setWidth {m : Nat} (w : BitVec m) (h : m ≤ n) :
    reflected (w.setWidth n) = X ^ (n - m) * reflected w := by
  ext k
  rw [coeff_X_pow_mul', coeff_reflected, coeff_reflected, BitVec.getLsbD_setWidth]
  by_cases hlow : n - m ≤ k
  · by_cases hk : k < n
    · have hb : m - 1 - (k - (n - m)) = n - 1 - k := by omega
      have hin : n - 1 - k < n := by omega
      have hin' : k - (n - m) < m := by omega
      simp [hlow, hk, hb, hin, hin']
    · have hout : ¬ k - (n - m) < m := by omega
      simp [hlow, hk, hout]
  · have hout := BitVec.getLsbD_of_ge w (n - 1 - k) (by omega)
    simp [hlow, hout]

theorem coeff_ite_X_pow (c : Prop) [Decidable c] (m k : Nat) :
    (if c then X ^ m else 0 : (ZMod 2)[X]).coeff k = if c ∧ k = m then 1 else 0 := by
  by_cases hc : c <;> simp [hc, coeff_X_pow]

/-- The bit that leaves the register is the coefficient that overflows. -/
theorem X_mul_reflected (w : BitVec n) :
    X * reflected w = reflected (w >>> 1) + if w.getLsbD 0 then X ^ n else 0 := by
  ext k
  have hend : ∀ i, n ≤ i → w.getLsbD i = false := fun i => BitVec.getLsbD_of_ge w i
  rw [coeff_add, coeff_reflected, BitVec.getLsbD_ushiftRight, coeff_ite_X_pow]
  cases k with
  | zero =>
    rw [mul_coeff_zero, coeff_X_zero, zero_mul]
    have hout := hend (1 + (n - 1 - 0)) (by omega)
    by_cases hn : 0 = n
    · simp [← hn]
    · simpa [hn] using fun _ : 0 < n => hout
  | succ k =>
    rw [coeff_X_mul, coeff_reflected]
    rcases Nat.lt_trichotomy (k + 1) n with hlt | heq | hgt
    · have hb : 1 + (n - 1 - (k + 1)) = n - 1 - k := by omega
      have hne : k + 1 ≠ n := by omega
      simp [hb, hlt, hne, show k < n by omega]
    · have hb : n - 1 - k = 0 := by omega
      simp [hb, heq, show k < n by omega]
    · have hne : k + 1 ≠ n := by omega
      simp [hne, show ¬ k < n by omega, show ¬ k + 1 < n by omega]

/-! ## The shift register -/

namespace Crc

variable {poly r : BitVec n} {P Q : (ZMod 2)[X]}

/-- A step of the register with the feedback `poly`. -/
def step (poly r : BitVec n) : BitVec n := (r >>> 1) ^^^ if r.getLsbD 0 then poly else 0#n

/-- The polynomial that the register reduces by. -/
def generator (poly : BitVec n) : (ZMod 2)[X] := X ^ n + reflected poly

theorem generator_monic (poly : BitVec n) : (generator poly).Monic :=
  monic_X_pow_add (degree_reflected_lt poly)

theorem degree_generator (poly : BitVec n) : (generator poly).degree = n := by
  have hlt : (reflected poly).degree < (X ^ n : (ZMod 2)[X]).degree := by
    rw [degree_X_pow]
    exact degree_reflected_lt poly
  exact (degree_add_eq_left_of_degree_lt hlt).trans (degree_X_pow n)

/-- The register holds the remainder of `P`. -/
def Holds (poly r : BitVec n) (P : (ZMod 2)[X]) : Prop := generator poly ∣ P + reflected r

theorem Holds.add {r' : BitVec n} (h : Holds poly r P) (h' : Holds poly r' Q) :
    Holds poly (r ^^^ r') (P + Q) := by
  have := dvd_add h h'
  rwa [add_add_add_comm, ← reflected_xor] at this

theorem holds_reflected : Holds poly r (reflected r) := by
  rw [Holds, CharTwo.add_self_eq_zero]
  exact dvd_zero _

/-- A step multiplies by `X`. -/
theorem Holds.step (h : Holds poly r P) : Holds poly (step poly r) (X * P) := by
  have hstep : X * reflected r = reflected (Crc.step poly r) +
      if r.getLsbD 0 then generator poly else 0 := by
    rw [X_mul_reflected, Crc.step, reflected_xor, generator]
    cases r.getLsbD 0
    · simp
    · simp only [if_true]
      rw [add_comm (X ^ n), ← add_assoc, add_assoc (reflected _), CharTwo.add_self_eq_zero,
        add_zero]
  have hdvd : generator poly ∣ if r.getLsbD 0 then generator poly else 0 := by
    split
    · exact dvd_rfl
    · exact dvd_zero _
  have := dvd_add (dvd_mul_of_dvd_right h X) hdvd
  rw [mul_add, hstep, add_assoc, add_assoc, CharTwo.add_self_eq_zero, add_zero] at this
  exact this

theorem Holds.steps (h : Holds poly r P) (k : Nat) :
    Holds poly ((Crc.step poly)^[k] r) (X ^ k * P) := by
  induction k with
  | zero => simpa using h
  | succ k ih =>
    rw [Function.iterate_succ_apply', pow_succ', mul_assoc]
    exact ih.step

/-- What the register holds is the remainder itself. -/
theorem Holds.eq_modByMonic (h : Holds poly r P) : reflected r = P %ₘ generator poly := by
  obtain ⟨q, hq⟩ := h
  have hP : reflected r + generator poly * q = P := by
    rw [← hq, add_comm P, ← add_assoc, CharTwo.add_self_eq_zero, zero_add]
  have hdeg := (degree_reflected_lt r).trans_eq (degree_generator poly).symm
  exact ((div_modByMonic_unique q (reflected r) (generator_monic poly) ⟨hP, hdeg⟩).2).symm

/-! ## Bursts -/

/-- A generator with a constant term shares no factor with a power of `X`. -/
theorem isCoprime_X_pow {G : (ZMod 2)[X]} (h : G.coeff 0 = 1) (k : Nat) : IsCoprime G (X ^ k) := by
  refine IsCoprime.pow_right ⟨1, -G.divX, ?_⟩
  have := G.divX_mul_X_add
  rw [h, C_1] at this
  linear_combination -this

/-- A multiple of the generator whose coefficients lie in a window narrower than its degree is
zero. -/
theorem eq_zero_of_window {G D : (ZMod 2)[X]} (h0 : G.coeff 0 = 1) (k s : Nat) {n : Nat}
    (hG : G.degree = n) (hdvd : G ∣ X ^ k * D)
    (hwindow : ∀ i, D.coeff i ≠ 0 → s ≤ i ∧ i < s + n) : D = 0 := by
  have hD : G ∣ D := (isCoprime_X_pow h0 k).dvd_of_dvd_mul_left hdvd
  obtain ⟨e, rfl⟩ : X ^ s ∣ D := by
    refine X_pow_dvd_iff.mpr fun i hi => ?_
    by_contra hne
    exact absurd (hwindow i hne).1 (by omega)
  have he : G ∣ e := (isCoprime_X_pow h0 s).dvd_of_dvd_mul_left hD
  have hlt : e.degree < G.degree := by
    rw [hG, degree_lt_iff_coeff_zero]
    intro i hi
    by_contra hne
    have := (hwindow (i + s) (by rwa [coeff_X_pow_mul])).2
    omega
  rw [eq_zero_of_dvd_of_degree_lt he hlt, mul_zero]

end Crc

end

end ScpRdma.Foundations

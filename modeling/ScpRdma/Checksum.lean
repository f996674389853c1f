import ScpRdma.Foundations.BitPolynomial
import ScpRdma.Foundations.Bytes

/-!
# The checksum

`scp_calc_checksum` of `scp_rdma_protocol.h`, and what it computes: the reflected CRC-32, a
remainder modulo a polynomial of degree 32. A burst of at most 32 bits changes it.

## Main results

* `scpCalcChecksum_crc32` — the loop computes the remainder, and strings of one length that differ
  in one window of 32 bits have different checksums.
-/
namespace ScpRdma
open Foundations Polynomial

/-- `crc = (crc >> 1) ^ (0xEDB88320 & -(crc & 1))` -/
def checksumBit (crc : UInt32) : UInt32 := (crc >>> 1) ^^^ (0xEDB88320 &&& -(crc &&& 1))

/-- The body of the loop over the bytes. -/
def checksumByte (crc : UInt32) (b : UInt8) : UInt32 := checksumBit^[8] (crc ^^^ b.toUInt32)

def scpCalcChecksum (data : Bytes) : UInt32 := ~~~(data.foldl checksumByte 0xFFFFFFFF)

/-! ## The remainder -/

noncomputable section

/-- The bits of a string in the order of transmission, the first one as the leading
coefficient. -/
def messagePoly (data : Bytes) : (ZMod 2)[X] :=
  data.foldl (fun m b => X ^ 8 * m + reflected b.toBitVec) 0

/-- The generator of CRC-32. -/
def crc32Generator : (ZMod 2)[X] := X ^ 32 + straight 0x04C11DB7#32

/-- A register of ones. -/
def onesPoly : (ZMod 2)[X] := reflected (BitVec.allOnes 32)

/-- CRC-32: the register starts with ones in front of the string, and its remainder is
complemented. -/
def crc32 (data : Bytes) : (ZMod 2)[X] :=
  (X ^ 32 * messagePoly data + X ^ (8 * data.length) * onesPoly) %ₘ crc32Generator + onesPoly

/-- The feedback of the loop. -/
abbrev feedback : BitVec 32 := 0xEDB88320#32

theorem generator_feedback : Crc.generator feedback = crc32Generator := by
  refine congrArg (X ^ 32 + ·) (Polynomial.ext fun k => ?_)
  rw [coeff_reflected, coeff_straight]
  by_cases hk : k < 32
  · have hbits : ∀ k : Fin 32, feedback.getLsbD (32 - 1 - k) = (0x04C11DB7#32).getLsbD k := by
      decide
    have hbit : feedback.getLsbD (32 - 1 - k) = (0x04C11DB7#32).getLsbD k := hbits ⟨k, hk⟩
    rw [hbit]
    simp only [hk, true_and]
  · have hout := BitVec.getLsbD_of_ge (0x04C11DB7#32) k (by omega)
    simp [hk, hout]

theorem toBitVec_checksumBit (crc : UInt32) :
    (checksumBit crc).toBitVec = Crc.step feedback crc.toBitVec := by
  have hlow : crc.toBitVec &&& 1#32 = (BitVec.ofBool (crc.toBitVec.getLsbD 0)).setWidth 32 :=
    BitVec.and_one_eq_setWidth_ofBool_getLsbD
  have hbit : (checksumBit crc).toBitVec =
      (crc.toBitVec >>> 1) ^^^ (feedback &&& -(crc.toBitVec &&& 1#32)) := rfl
  -- the mask is all ones or all zeros
  rw [hbit, hlow, Crc.step]
  cases crc.toBitVec.getLsbD 0 <;> rfl

theorem toBitVec_checksumBits (crc : UInt32) (k : Nat) :
    (checksumBit^[k] crc).toBitVec = (Crc.step feedback)^[k] crc.toBitVec := by
  induction k with
  | zero => rfl
  | succ k ih =>
    rw [Function.iterate_succ_apply', Function.iterate_succ_apply', toBitVec_checksumBit, ih]

/-- The invariant of the loop over the bytes. -/
theorem checksumByte_holds {crc : UInt32} {data : Bytes}
    (h : Crc.Holds feedback crc.toBitVec
      (X ^ 32 * messagePoly data + X ^ (8 * data.length) * onesPoly)) (b : UInt8) :
    Crc.Holds feedback (checksumByte crc b).toBitVec
      (X ^ 32 * messagePoly (data ++ [b]) + X ^ (8 * (data ++ [b]).length) * onesPoly) := by
  have hbyte : reflected (b.toUInt32.toBitVec) = X ^ 24 * reflected b.toBitVec := by
    rw [UInt8.toBitVec_toUInt32]
    exact reflected_setWidth b.toBitVec (by decide)
  have hadd := (h.add (Crc.holds_reflected (r := b.toUInt32.toBitVec))).steps 8
  rw [checksumByte, toBitVec_checksumBits, UInt32.toBitVec_xor]
  have hP : X ^ 8 * (X ^ 32 * messagePoly data + X ^ (8 * data.length) * onesPoly +
      reflected b.toUInt32.toBitVec) =
      X ^ 32 * messagePoly (data ++ [b]) + X ^ (8 * (data ++ [b]).length) * onesPoly := by
    rw [hbyte, messagePoly, messagePoly, List.foldl_append, List.length_append]
    simp only [List.foldl_cons, List.foldl_nil, List.length_cons, List.length_nil]
    ring
  rwa [hP] at hadd

theorem checksum_holds (data : Bytes) :
    Crc.Holds feedback (data.foldl checksumByte 0xFFFFFFFF).toBitVec
      (X ^ 32 * messagePoly data + X ^ (8 * data.length) * onesPoly) := by
  induction data using List.reverseRecOn with
  | nil =>
    have hones : X ^ 32 * messagePoly [] + X ^ (8 * ([] : Bytes).length) * onesPoly =
        reflected (BitVec.allOnes 32) := by simp [messagePoly, onesPoly]
    rw [hones]
    exact Crc.holds_reflected
  | append_singleton data b ih =>
    rw [List.foldl_append]
    exact checksumByte_holds ih b

/-! ## Bursts -/

/-- Bit `k` of a string, in the order of transmission. -/
def bitAt (data : Bytes) (k : Nat) : Bool := (data.getD (k / 8) 0).toBitVec.getLsbD (k % 8)

theorem coeff_messagePoly (data : Bytes) (i : Nat) :
    (messagePoly data).coeff i =
      if i < 8 * data.length ∧ bitAt data (8 * data.length - 1 - i) then 1 else 0 := by
  induction data using List.reverseRecOn generalizing i with
  | nil => simp [messagePoly]
  | append_singleton data b ih =>
    have hstep : messagePoly (data ++ [b]) = X ^ 8 * messagePoly data + reflected b.toBitVec := by
      rw [messagePoly, messagePoly, List.foldl_append]
      rfl
    have hlen : 8 * (data ++ [b]).length = 8 * data.length + 8 := by
      rw [List.length_append]
      rfl
    rw [hstep, coeff_add, coeff_X_pow_mul', coeff_reflected, hlen, ih]
    unfold bitAt
    by_cases hi : i < 8
    · -- the last byte
      have hdiv : (8 * data.length + 8 - 1 - i) / 8 = data.length := by omega
      have hmod : (8 * data.length + 8 - 1 - i) % 8 = 8 - 1 - i := by omega
      have hlow : ¬ 8 ≤ i := by omega
      rw [hdiv, hmod, if_neg hlow, zero_add]
      simp [hi, show i < 8 * data.length + 8 by omega]
    · have hdiv : (8 * data.length + 8 - 1 - i) = 8 * data.length - 1 - (i - 8) := by omega
      rw [hdiv, if_pos (not_lt.mp hi)]
      by_cases hin : i - 8 < 8 * data.length
      · have hlt : (8 * data.length - 1 - (i - 8)) / 8 < data.length := by omega
        simp [hi, hin, show i < 8 * data.length + 8 by omega, List.getElem?_append_left hlt]
      · simp [hi, hin, show ¬ i < 8 * data.length + 8 by omega]

/-- The strings differ only in bits of one window. -/
def DifferWithin (width : Nat) (data data' : Bytes) : Prop :=
  ∃ w, ∀ k, bitAt data k ≠ bitAt data' k → w ≤ k ∧ k < w + width

theorem messagePoly_injective {data data' : Bytes} (hlen : data.length = data'.length)
    (h : messagePoly data = messagePoly data') : data = data' := by
  have hbits : ∀ k < 8 * data.length, bitAt data k = bitAt data' k := by
    intro k hk
    have hcoeff := congrArg (coeff · (8 * data.length - 1 - k)) h
    have hpos : 8 * data.length - 1 - (8 * data.length - 1 - k) = k := by omega
    have hlt : 8 * data.length - 1 - k < 8 * data.length := by omega
    simp only [coeff_messagePoly, ← hlen, hpos, hlt, true_and] at hcoeff
    revert hcoeff
    cases bitAt data k <;> cases bitAt data' k <;> simp
  refine List.ext_getElem hlen fun i hi hi' => ?_
  refine UInt8.toBitVec_inj.mp (BitVec.eq_of_getLsbD_eq fun j hj => ?_)
  have hbit := hbits (8 * i + j) (by omega)
  have hdiv : (8 * i + j) / 8 = i := by omega
  have hmod : (8 * i + j) % 8 = j := by omega
  simpa [bitAt, hdiv, hmod, hi, hi'] using hbit

theorem scpCalcChecksum_eq (data : Bytes) :
    reflected (scpCalcChecksum data).toBitVec = crc32 data := by
  rw [crc32, ← generator_feedback, ← (checksum_holds data).eq_modByMonic, onesPoly, ← reflected_xor]
  congr 1
  rw [scpCalcChecksum, UInt32.toBitVec_not]
  exact (BitVec.xor_allOnes ..).symm

theorem checksum_ne {data data' : Bytes} (hlen : data.length = data'.length) (hne : data ≠ data')
    (hburst : DifferWithin 32 data data') : scpCalcChecksum data ≠ scpCalcChecksum data' := by
  intro heq
  have hcrc : data.foldl checksumByte 0xFFFFFFFF = data'.foldl checksumByte 0xFFFFFFFF :=
    UInt32.not_inj.mp heq
  -- the registers are equal, so the generator divides the difference of the strings
  have hdvd := dvd_add (checksum_holds data) (hcrc ▸ checksum_holds data')
  have hsum : X ^ 32 * messagePoly data + X ^ (8 * data.length) * onesPoly +
      reflected (data'.foldl checksumByte 0xFFFFFFFF).toBitVec +
      (X ^ 32 * messagePoly data' + X ^ (8 * data'.length) * onesPoly +
        reflected (data'.foldl checksumByte 0xFFFFFFFF).toBitVec) =
      X ^ 32 * (messagePoly data + messagePoly data') := by
    rw [hlen]
    linear_combination (X ^ (8 * data'.length) * onesPoly +
      reflected (data'.foldl checksumByte 0xFFFFFFFF).toBitVec) *
      CharTwo.two_eq_zero (R := (ZMod 2)[X])
  rw [hcrc, hsum] at hdvd
  obtain ⟨w, hw⟩ := hburst
  have hzero : messagePoly data + messagePoly data' = 0 := by
    refine Crc.eq_zero_of_window ?_ 32 (8 * data.length - (w + 32)) (Crc.degree_generator feedback)
      hdvd fun i hi => ?_
    · rw [generator_feedback, crc32Generator, coeff_add, coeff_X_pow, coeff_straight]
      simp
    · rw [coeff_add, coeff_messagePoly, coeff_messagePoly, ← hlen] at hi
      have hin : i < 8 * data.length := by
        by_contra hout
        simp [hout] at hi
      have hdiffer : bitAt data (8 * data.length - 1 - i) ≠
          bitAt data' (8 * data.length - 1 - i) := by
        intro hsame
        rw [hsame, CharTwo.add_self_eq_zero] at hi
        exact hi rfl
      have := hw _ hdiffer
      omega
  exact hne (messagePoly_injective hlen (CharTwo.add_eq_zero.mp hzero))

/-- The checksum is the CRC-32 of the string, as the remainder of a polynomial over GF(2), and it
differs for strings of one length that differ in a burst of at most 32 bits. -/
theorem scpCalcChecksum_crc32 :
    (∀ data, reflected (scpCalcChecksum data).toBitVec = crc32 data) ∧
      ∀ data data' : Bytes, data.length = data'.length → data ≠ data' →
        DifferWithin 32 data data' → scpCalcChecksum data ≠ scpCalcChecksum data' :=
  ⟨scpCalcChecksum_eq, fun _ _ => checksum_ne⟩

/-- Eight bytes with a burst of 32 bits that reaches from the third byte to the sixth. -/
theorem scpCalcChecksum_crc32_burst :
    scpCalcChecksum [115, 99, 112, 95, 114, 100, 109, 97] ≠
      scpCalcChecksum [115, 99, 113, 94, 114, 228, 109, 97] := by
  refine scpCalcChecksum_crc32.2 _ _ rfl (by decide) ⟨16, fun k hk => ?_⟩
  have hbits : ∀ k < 64, bitAt [115, 99, 112, 95, 114, 100, 109, 97] k ≠
      bitAt [115, 99, 113, 94, 114, 228, 109, 97] k → 16 ≤ k ∧ k < 16 + 32 := by decide
  refine hbits k ?_ hk
  by_contra hlong
  have hout : 8 ≤ k / 8 := by omega
  exact hk (by rw [bitAt, bitAt, List.getD_eq_default _ _ hout, List.getD_eq_default _ _ hout])

example : scpCalcChecksum [49, 50, 51, 52, 53, 54, 55, 56, 57] = 0xCBF43926 := by decide +kernel

end

end ScpRdma

import Mathlib
import Quorum.Foundation.Bits

/-!
# Cyclic redundancy checks

A shift register with feedback takes in a message bit by bit. Read as a polynomial over the
field of two elements, what it holds in the end is the remainder of the message, moved up by the
width of the register, modulo the generator polynomial. That the register is linear, and that it
notices every error whose bits lie within its width, are facts about such remainders.
-/

namespace Foundation

open Polynomial

variable {w : ℕ} {poly : BitVec w}

/-- The register after one more bit of the message. -/
def feed (poly v : BitVec w) (bit : Bool) : BitVec w :=
  (v <<< 1) ^^^ (if xor v.msb bit then poly else 0#w)

/-- The register after a whole message. -/
def crc (poly : BitVec w) (bits : List Bool) : BitVec w := bits.foldl (feed poly) 0#w

/-! ## Bits as polynomials -/

/-- A bit as an element of the field of two elements. -/
def bitScalar (bit : Bool) : ZMod 2 := if bit then 1 else 0

/-- A row of bits as a polynomial, the last bit being the constant coefficient. -/
noncomputable def bitPoly (bits : List Bool) : (ZMod 2)[X] :=
  bits.foldl (fun p bit => p * X + C (bitScalar bit)) 0

/-- The polynomial whose leading term is above the register and whose others are in `poly`. -/
noncomputable def generator (poly : BitVec w) : (ZMod 2)[X] := X ^ w + bitPoly (wordBits poly)

/-- The scalar of an exclusive or is the sum. -/
theorem bitScalar_xor (a b : Bool) : bitScalar (xor a b) = bitScalar a + bitScalar b := by
  cases a <;> cases b <;> decide

/-- One more bit shifts the polynomial and becomes its constant. -/
theorem bitPoly_concat (bits : List Bool) (bit : Bool) :
    bitPoly (bits ++ [bit]) = bitPoly bits * X + C (bitScalar bit) := by
  simp [bitPoly]

/-- The polynomial of two rows of bits is the first one shifted past the second. -/
theorem bitPoly_append (xs ys : List Bool) :
    bitPoly (xs ++ ys) = bitPoly xs * X ^ ys.length + bitPoly ys := by
  induction ys using List.reverseRecOn with
  | nil => simp [bitPoly]
  | append_singleton ys bit ih =>
    rw [← List.append_assoc, bitPoly_concat, bitPoly_concat, ih, List.length_append,
      List.length_singleton, pow_succ]
    ring

/-- The first bit is the leading coefficient. -/
theorem bitPoly_cons (bit : Bool) (bits : List Bool) :
    bitPoly (bit :: bits) = C (bitScalar bit) * X ^ bits.length + bitPoly bits := by
  rw [← List.singleton_append, bitPoly_append]
  simp [bitPoly]

/-- Clear bits have the polynomial zero. -/
theorem bitPoly_clear (n : ℕ) : bitPoly (clearBits n) = 0 := by
  induction n with
  | zero => rfl
  | succ n ih => rw [clearBits, List.replicate_succ, bitPoly_cons, ih]; simp [bitScalar]

/-- The polynomial of an exclusive or is the sum. -/
theorem bitPoly_xor {xs ys : List Bool} (h : xs.length = ys.length) :
    bitPoly (xorBits xs ys) = bitPoly xs + bitPoly ys := by
  induction xs generalizing ys with
  | nil => simp [xorBits, List.length_eq_zero_iff.mp h.symm, bitPoly]
  | cons x xs ih =>
    obtain ⟨y, ys, rfl⟩ := List.exists_cons_of_length_eq_add_one h.symm
    have hlength : xs.length = ys.length := by simpa using h
    have hrest : (xorBits xs ys).length = ys.length := by rw [length_xorBits hlength, hlength]
    change bitPoly (xor x y :: xorBits xs ys) = _
    rw [bitPoly_cons, bitPoly_cons, bitPoly_cons, ih hlength, hrest, hlength, bitScalar_xor, C_add]
    ring

/-- The degree is below the number of bits. -/
theorem degree_bitPoly_lt (bits : List Bool) : (bitPoly bits).degree < bits.length := by
  induction bits with
  | nil => simp [bitPoly]
  | cons bit bits ih =>
    rw [bitPoly_cons, List.length_cons]
    refine (degree_add_le _ _).trans_lt (max_lt ?_ ?_)
    · refine (degree_C_mul_X_pow_le bits.length (bitScalar bit)).trans_lt ?_
      exact_mod_cast Nat.lt_succ_self bits.length
    · refine ih.trans ?_
      exact_mod_cast Nat.lt_succ_self bits.length

/-- Only rows of clear bits are the zero polynomial. -/
theorem bitPoly_eq_zero_iff (bits : List Bool) :
    bitPoly bits = 0 ↔ bits = clearBits bits.length := by
  constructor
  · intro h
    induction bits with
    | nil => rfl
    | cons bit bits ih =>
      have htop : bitScalar bit = 0 := by
        have hcoeff := congrArg (fun p => p.coeff bits.length) h
        simpa [bitPoly_cons, coeff_eq_zero_of_degree_lt (degree_bitPoly_lt bits)] using hcoeff
      rw [bitPoly_cons, htop, C_0, zero_mul, zero_add] at h
      have hbit : bit = false := by
        cases bit
        · rfl
        · exact absurd htop (by decide)
      rw [hbit]
      exact congrArg (List.cons false) (ih h)
  · intro h
    rw [h, bitPoly_clear]

/-! ## The register holds a remainder -/

/-- The degree of a word is below its width. -/
theorem degree_bitPoly_wordBits_lt (v : BitVec w) : (bitPoly (wordBits v)).degree < w := by
  simpa using degree_bitPoly_lt (wordBits v)

/-- The generator is monic. -/
theorem monic_generator (poly : BitVec w) : (generator poly).Monic :=
  monic_X_pow_add (degree_bitPoly_wordBits_lt poly)

/-- The degree of the generator is the width. -/
theorem degree_generator (poly : BitVec w) : (generator poly).degree = w := by
  rw [generator, degree_add_eq_left_of_degree_lt]
  · exact degree_X_pow w
  · rw [degree_X_pow]
    exact degree_bitPoly_wordBits_lt poly

/-- Shifting a register multiplies its polynomial by `X`, the highest bit leaving it. -/
theorem bitPoly_shiftLeft (v : BitVec w) :
    bitPoly (wordBits (v <<< 1)) + C (bitScalar v.msb) * X ^ w = bitPoly (wordBits v) * X := by
  cases w with
  | zero => simp [wordBits, lowBits, bitPoly, BitVec.msb, bitScalar, BitVec.getMsbD]
  | succ n =>
    have hshift : wordBits (v <<< 1) = lowBits n v ++ [false] := by
      have hadd := lowBits_add n 1 (v <<< 1)
      have hlow : lowBits n ((v <<< 1) >>> 1) = lowBits n v := by
        refine lowBits_eq_iff.mpr fun i hi => ?_
        simp only [BitVec.getLsbD_ushiftRight, BitVec.getLsbD_shiftLeft]
        simp
        omega
      rw [hlow] at hadd
      rw [wordBits, hadd]
      simp [lowBits]
    have hword : wordBits v = v.msb :: lowBits n v := by
      simp [wordBits, lowBits, BitVec.msb_eq_getLsbD_last]
    rw [hshift, hword, bitPoly_concat, bitPoly_cons, length_lowBits, pow_succ]
    simp only [bitScalar, Bool.false_eq_true, if_false, C_0]
    ring

/-- The polynomial of an exclusive or of words is the sum. -/
theorem bitPoly_wordBits_xor (v v' : BitVec w) :
    bitPoly (wordBits (v ^^^ v')) = bitPoly (wordBits v) + bitPoly (wordBits v') := by
  rw [wordBits, lowBits_xor, bitPoly_xor (by simp)]
  rfl

/-- One more bit: the register is multiplied by `X`, the bit comes in above it, and a multiple of
the generator leaves. -/
theorem bitPoly_feed (v : BitVec w) (bit : Bool) :
    bitPoly (wordBits (feed poly v bit)) =
      bitPoly (wordBits v) * X + C (bitScalar bit) * X ^ w +
        C (bitScalar (xor v.msb bit)) * generator poly := by
  have htwo : (2 : (ZMod 2)[X]) = 0 := by
    have h : C (2 : ZMod 2) = 0 := by rw [show (2 : ZMod 2) = 0 from rfl, C_0]
    rwa [map_ofNat] at h
  have hshift := bitPoly_shiftLeft v
  have hfeedback : bitPoly (wordBits (if xor v.msb bit then poly else 0#w)) =
      C (bitScalar (xor v.msb bit)) * bitPoly (wordBits poly) := by
    cases xor v.msb bit
    · simp [wordBits, lowBits_zero, bitPoly_clear, bitScalar]
    · simp [bitScalar]
  rw [feed, bitPoly_wordBits_xor, hfeedback, generator, ← hshift, bitScalar_xor, C_add]
  linear_combination (-(C (bitScalar v.msb) + C (bitScalar bit)) * X ^ w) * htwo

/-- The register holds the remainder of the message modulo the generator. -/
theorem bitPoly_crc (poly : BitVec w) (bits : List Bool) :
    bitPoly (wordBits (crc poly bits)) = (bitPoly bits * X ^ w) %ₘ generator poly := by
  have hmonic := monic_generator poly
  induction bits using List.reverseRecOn with
  | nil =>
    have hnil : bitPoly [] = 0 := rfl
    have hcrc : crc poly [] = 0#w := rfl
    rw [hcrc, hnil, wordBits, lowBits_zero, bitPoly_clear, zero_mul, zero_modByMonic]
  | append_singleton bits bit ih =>
    have hstep : crc poly (bits ++ [bit]) = feed poly (crc poly bits) bit := by simp [crc]
    have hquotient := modByMonic_add_div (bitPoly bits * X ^ w) (generator poly)
    rw [hstep]
    refine ((div_modByMonic_unique (f := bitPoly (bits ++ [bit]) * X ^ w)
      ((bitPoly bits * X ^ w) /ₘ generator poly * X -
        C (bitScalar (xor (crc poly bits).msb bit))) _ hmonic ⟨?_, ?_⟩).2).symm
    · rw [bitPoly_feed, ih, bitPoly_concat]
      linear_combination X * hquotient
    · rw [degree_generator]
      exact degree_bitPoly_wordBits_lt _

/-! ## Errors -/

/-- A register is known by its polynomial. -/
theorem bitPoly_wordBits_injective :
    Function.Injective fun v : BitVec w => bitPoly (wordBits v) := by
  intro v v' hv
  have hzero : bitPoly (wordBits (v ^^^ v')) = 0 := by
    have hself := bitPoly_wordBits_xor v v
    have hv : bitPoly (wordBits v) = bitPoly (wordBits v') := hv
    rw [bitPoly_wordBits_xor, ← hv, ← hself, BitVec.xor_self, wordBits, lowBits_zero,
      bitPoly_clear]
  have hclear := (bitPoly_eq_zero_iff _).mp hzero
  rw [wordBits, lowBits_xor, length_xorBits (by simp)] at hclear
  exact wordBits_inj.mp ((xorBits_eq_clear_iff (by simp)).mp hclear)

/-- The register of a difference is the difference of the registers. -/
theorem crc_xor {xs ys : List Bool} (h : xs.length = ys.length) :
    crc poly (xorBits xs ys) = crc poly xs ^^^ crc poly ys := by
  apply bitPoly_wordBits_injective
  simp only [bitPoly_wordBits_xor, bitPoly_crc, bitPoly_xor h, add_mul, add_modByMonic]

/-- Clear bits before a message do not change the register. -/
theorem crc_clear_append (n : ℕ) (bits : List Bool) : crc poly (clearBits n ++ bits) = crc poly bits := by
  induction n with
  | zero => rfl
  | succ n ih =>
    have hfirst : feed poly 0#w false = 0#w := by simp [feed]
    rw [← ih, clearBits, List.replicate_succ, List.cons_append, crc, List.foldl_cons, hfirst]
    rfl

/-- With a constant term the generator shares no factor with a power of `X`. -/
theorem isCoprime_generator (hodd : (generator poly).coeff 0 = 1) (n : ℕ) :
    IsCoprime (generator poly) (X ^ n) := by
  refine IsCoprime.pow_right ⟨1, -(divX (generator poly)), ?_⟩
  have hsplit := divX_mul_X_add (generator poly)
  rw [hodd, C_1] at hsplit
  linear_combination -hsplit

/-- An error within the width of the register does not leave it clear. -/
theorem crc_burst_ne_zero (hodd : (generator poly).coeff 0 = 1) (before after : ℕ)
    {burst : List Bool} (hle : burst.length ≤ w) (hne : burst ≠ clearBits burst.length) :
    crc poly (clearBits before ++ (burst ++ clearBits after)) ≠ 0#w := by
  intro hzero
  have hrem := bitPoly_crc poly (burst ++ clearBits after)
  rw [← crc_clear_append before, hzero, wordBits, lowBits_zero, bitPoly_clear, bitPoly_append,
    bitPoly_clear, add_zero, mul_assoc, ← pow_add] at hrem
  have hdvd : generator poly ∣ bitPoly burst := by
    apply (isCoprime_generator hodd _).dvd_of_dvd_mul_right
    exact (modByMonic_eq_zero_iff_dvd (monic_generator poly)).mp hrem.symm
  have hburst : bitPoly burst ≠ 0 := fun h => hne ((bitPoly_eq_zero_iff burst).mp h)
  refine (monic_generator poly).not_dvd_of_degree_lt hburst ?_ hdvd
  rw [degree_generator]
  exact (degree_bitPoly_lt burst).trans_le (by exact_mod_cast hle)

end Foundation

import Mathlib.Data.List.DropRight
import Mathlib.Data.Nat.Basic
import Mathlib.Tactic.Common
import Mathlib.Tactic.Ring

/-!
# Decimal numerals

A numeral is a text of decimal digits, most significant first. Cutting a numeral short divides
its value by a power of ten, and dropping trailing zeros divides it without a remainder. That is
what it takes to shorten the digits of a fraction and know what is still denoted.
-/

namespace Foundation

variable {text : List Char}

/-- The text is made of decimal digits. -/
def Numeral (text : List Char) : Prop := ∀ c ∈ text, c.isDigit = true

/-- The number that a numeral denotes. -/
def numeralValue (text : List Char) : ℕ := Nat.ofDigitChars 10 text 0

/-- Fill up with leading zeros to the given length. -/
def padStart (length : ℕ) (text : List Char) : List Char :=
  List.replicate (length - text.length) '0' ++ text

/-- Drop all zeros at the end. -/
def dropTrailingZeros (text : List Char) : List Char := text.rdropWhile (· == '0')

/-- The decimal digits of a number are a numeral. -/
theorem numeral_toDigits (n : ℕ) : Numeral (Nat.toDigits 10 n) := fun _ hc =>
  Nat.isDigit_of_mem_toDigits (by decide) (by decide) hc

/-- The decimal digits of a number have its value. -/
theorem numeralValue_toDigits (n : ℕ) : numeralValue (Nat.toDigits 10 n) = n :=
  Nat.ofDigitChars_ten_toDigits

/-- The value of two numerals in a row is that of the first one shifted past the second. -/
theorem numeralValue_append (xs ys : List Char) :
    numeralValue (xs ++ ys) = 10 ^ ys.length * numeralValue xs + numeralValue ys := by
  unfold numeralValue
  rw [Nat.ofDigitChars_append, Nat.ofDigitChars_eq_ofDigitChars_zero]

/-- Zeros have the value zero. -/
theorem numeralValue_replicate_zero (n : ℕ) : numeralValue (List.replicate n '0') = 0 := by
  simp [numeralValue]

/-- The digits are the characters from 48 to 57, in order. -/
theorem toNat_digit {c : Char} (h : c.isDigit = true) : c.toNat = 48 + numeralValue [c] := by
  have hbounds : 48 ≤ c.toNat ∧ c.toNat ≤ 57 := by
    simp only [Char.isDigit, Bool.and_eq_true, decide_eq_true_eq] at h
    exact h
  have hvalue : numeralValue [c] = c.toNat - 48 := by
    simp only [numeralValue, Nat.ofDigitChars_cons, Nat.ofDigitChars_nil]
    change 10 * 0 + (c.toNat - 48) = c.toNat - 48
    omega
  omega

/-- A digit denotes less than ten. -/
theorem numeralValue_singleton_lt {c : Char} (h : c.isDigit = true) : numeralValue [c] < 10 := by
  have htoNat := toNat_digit h
  have hle : c.toNat ≤ 57 := by
    simp only [Char.isDigit, Bool.and_eq_true, decide_eq_true_eq] at h
    exact h.2
  omega

/-- Digits of one value are the same. -/
theorem digit_eq_of_value {c d : Char} (hc : c.isDigit = true) (hd : d.isDigit = true)
    (h : numeralValue [c] = numeralValue [d]) : c = d := by
  apply Char.toNat_inj.mp
  rw [toNat_digit hc, toNat_digit hd, h]

/-- Two texts in a row are a numeral exactly when both are. -/
theorem Numeral.append_iff {xs ys : List Char} :
    Numeral (xs ++ ys) ↔ Numeral xs ∧ Numeral ys := by
  simp [Numeral, or_imp, forall_and]

/-- A numeral's value is below the power of its length. -/
theorem numeralValue_lt (h : Numeral text) : numeralValue text < 10 ^ text.length := by
  induction text with
  | nil => simp [numeralValue]
  | cons c rest ih =>
    have hc := numeralValue_singleton_lt (h c List.mem_cons_self)
    have hrest := ih fun d hd => h d (List.mem_cons_of_mem c hd)
    have happend := numeralValue_append [c] rest
    rw [List.singleton_append] at happend
    rw [happend, List.length_cons, pow_succ']
    calc 10 ^ rest.length * numeralValue [c] + numeralValue rest
        < 10 ^ rest.length * numeralValue [c] + 10 ^ rest.length := by omega
      _ = 10 ^ rest.length * (numeralValue [c] + 1) := by ring
      _ ≤ 10 ^ rest.length * 10 := Nat.mul_le_mul_left _ hc
      _ = 10 * 10 ^ rest.length := Nat.mul_comm _ _

/-- Cutting a numeral short drops the digits behind the cut. -/
theorem numeralValue_take (h : Numeral text) (k : ℕ) :
    numeralValue (text.take k) = numeralValue text / 10 ^ (text.length - k) := by
  have hsplit := numeralValue_append (text.take k) (text.drop k)
  rw [List.take_append_drop] at hsplit
  have hdrop : numeralValue (text.drop k) < 10 ^ (text.drop k).length :=
    numeralValue_lt fun c hc => h c (List.mem_of_mem_drop hc)
  rw [← List.length_drop, hsplit, Nat.mul_add_div (Nat.pow_pos (by decide)), Nat.div_eq_of_lt hdrop,
    Nat.add_zero]

/-- Numerals of one length with one value are the same. -/
theorem numeralValue_inj {xs ys : List Char} (hxs : Numeral xs) (hys : Numeral ys)
    (hlength : xs.length = ys.length) (hvalue : numeralValue xs = numeralValue ys) : xs = ys := by
  induction xs generalizing ys with
  | nil => exact (List.length_eq_zero_iff.mp hlength.symm).symm
  | cons x xs ih =>
    obtain ⟨y, ys, rfl⟩ := List.exists_cons_of_length_eq_add_one hlength.symm
    have hlength : xs.length = ys.length := by simpa using hlength
    have hrest : Numeral xs := fun c hc => hxs c (List.mem_cons_of_mem x hc)
    have hrest' : Numeral ys := fun c hc => hys c (List.mem_cons_of_mem y hc)
    have hlt := numeralValue_lt hrest
    have hlt' := numeralValue_lt hrest'
    rw [← List.singleton_append, numeralValue_append, ← List.singleton_append (l := ys),
      numeralValue_append, hlength] at hvalue
    rw [hlength] at hlt
    have hdiv := congrArg (· / 10 ^ ys.length) hvalue
    have hmod := congrArg (· % 10 ^ ys.length) hvalue
    simp only [Nat.mul_add_div (Nat.pow_pos (n := ys.length) (Nat.succ_pos 9)),
      Nat.div_eq_of_lt hlt, Nat.div_eq_of_lt hlt', Nat.add_zero] at hdiv
    simp only [Nat.mul_add_mod, Nat.mod_eq_of_lt hlt, Nat.mod_eq_of_lt hlt'] at hmod
    rw [ih hrest hrest' hlength hmod, digit_eq_of_value (hxs x List.mem_cons_self)
      (hys y List.mem_cons_self) hdiv]

/-! ## Padding and trailing zeros -/

/-- A text that fits is padded to the length. -/
theorem length_padStart {length : ℕ} (h : text.length ≤ length) :
    (padStart length text).length = length := by
  simp [padStart]
  omega

/-- A padded numeral is a numeral. -/
theorem Numeral.padStart (h : Numeral text) (length : ℕ) : Numeral (padStart length text) := by
  refine Numeral.append_iff.mpr ⟨fun c hc => ?_, h⟩
  rw [List.eq_of_mem_replicate hc]
  rfl

/-- Padding leaves the value. -/
theorem numeralValue_padStart (length : ℕ) :
    numeralValue (padStart length text) = numeralValue text := by
  rw [padStart, numeralValue_append, numeralValue_replicate_zero, Nat.mul_zero, Nat.zero_add]

/-- What is dropped is a row of zeros. -/
theorem dropTrailingZeros_append (text : List Char) :
    ∃ zeros, text = dropTrailingZeros text ++ List.replicate zeros '0' := by
  have hzeros : ∀ c ∈ text.rtakeWhile (· == '0'), c = '0' := fun c hc => by
    simpa using List.mem_rtakeWhile_imp hc
  refine ⟨(text.rtakeWhile (· == '0')).length, ?_⟩
  rw [← List.eq_replicate_of_mem hzeros, dropTrailingZeros, List.rdropWhile_append_rtakeWhile]

/-- What is left does not end in a zero. -/
theorem getLast?_dropTrailingZeros (text : List Char) :
    (dropTrailingZeros text).getLast? ≠ some '0' := by
  intro hlast
  have hne : dropTrailingZeros text ≠ [] := by
    rintro hnil
    rw [hnil] at hlast
    contradiction
  apply List.rdropWhile_last_not (· == '0') text hne
  rw [List.getLast?_eq_some_getLast hne, Option.some.injEq] at hlast
  exact beq_iff_eq.mpr hlast

/-- Zeros behind a text that does not end in one are what is dropped. -/
theorem dropTrailingZeros_append_zeros (h : text.getLast? ≠ some '0') (zeros : ℕ) :
    dropTrailingZeros (text ++ List.replicate zeros '0') = text := by
  induction zeros with
  | zero =>
    rw [List.replicate_zero, List.append_nil, dropTrailingZeros, List.rdropWhile_eq_self_iff]
    intro hne hlast
    apply h
    rw [List.getLast?_eq_some_getLast hne, beq_iff_eq.mp hlast]
  | succ zeros ih =>
    rw [List.replicate_succ', ← List.append_assoc, dropTrailingZeros,
      List.rdropWhile_concat_pos _ _ _ rfl]
    exact ih

/-- The last digit of a numeral is a zero exactly when its value is a multiple of ten. -/
theorem getLast?_eq_zero_iff (h : Numeral text) (hne : text ≠ []) :
    text.getLast? = some '0' ↔ numeralValue text % 10 = 0 := by
  obtain ⟨rest, c, rfl⟩ := (List.eq_nil_or_concat text).resolve_left hne
  have hc : c.isDigit = true := h c (by simp)
  rw [List.concat_eq_append, List.getLast?_concat, Option.some.injEq, numeralValue_append,
    List.length_singleton, pow_one, Nat.mul_add_mod, Nat.mod_eq_of_lt (numeralValue_singleton_lt hc)]
  constructor
  · rintro rfl
    rfl
  · intro hzero
    exact digit_eq_of_value hc rfl hzero

end Foundation

import Mathlib.Data.List.Basic
import Mathlib.Tactic.Common

/-!
# Words as rows of bits

The low bits of a word, the highest of them first, as the bits of a word are sent. Shifts cut
the row into pieces, exclusive or works bit by bit, and a word is known by its bits.
-/

namespace Foundation

variable {w : ℕ}

/-- The lowest `n` bits of a word, the highest of them first. -/
def lowBits : ℕ → BitVec w → List Bool
  | 0, _ => []
  | n + 1, v => v.getLsbD n :: lowBits n v

/-- All bits of a word, the highest first. -/
def wordBits (v : BitVec w) : List Bool := lowBits w v

/-- Bit by bit exclusive or. -/
def xorBits (xs ys : List Bool) : List Bool := List.zipWith xor xs ys

/-- A row of clear bits. -/
abbrev clearBits (n : ℕ) : List Bool := List.replicate n false

/-- As many bits are taken as asked for. -/
@[simp] theorem length_lowBits (n : ℕ) (v : BitVec w) : (lowBits n v).length = n := by
  induction n with
  | zero => rfl
  | succ n ih => simp [lowBits, ih]

/-- A word has as many bits as its width. -/
@[simp] theorem length_wordBits (v : BitVec w) : (wordBits v).length = w := length_lowBits w v

/-- Words with the same low bits have the same bit at each of these places. -/
theorem lowBits_eq_iff {w' n : ℕ} {v : BitVec w} {v' : BitVec w'} :
    lowBits n v = lowBits n v' ↔ ∀ i < n, v.getLsbD i = v'.getLsbD i := by
  induction n with
  | zero => simp [lowBits]
  | succ n ih =>
    simp only [lowBits, List.cons.injEq, ih]
    constructor
    · rintro ⟨htop, hrest⟩ i hi
      rcases Nat.lt_succ_iff_lt_or_eq.mp hi with hi | rfl
      · exact hrest i hi
      · exact htop
    · intro h
      exact ⟨h n (by omega), fun i hi => h i (by omega)⟩

/-- Words with the same bits are the same. -/
theorem wordBits_inj {v v' : BitVec w} : wordBits v = wordBits v' ↔ v = v' := by
  constructor
  · intro h
    exact BitVec.eq_of_getLsbD_eq (lowBits_eq_iff.mp h)
  · rintro rfl
    rfl

/-- The bits above a place are those of the word shifted down to it. -/
theorem lowBits_add (n m : ℕ) (v : BitVec w) :
    lowBits (n + m) v = lowBits n (v >>> m) ++ lowBits m v := by
  induction n with
  | zero => simp [lowBits]
  | succ n ih =>
    rw [Nat.add_right_comm, lowBits, ih, lowBits, BitVec.getLsbD_ushiftRight, Nat.add_comm m n,
      List.cons_append]

/-- The low bits of an exclusive or are those of both, combined. -/
theorem lowBits_xor (n : ℕ) (v v' : BitVec w) :
    lowBits n (v ^^^ v') = xorBits (lowBits n v) (lowBits n v') := by
  induction n with
  | zero => rfl
  | succ n ih => simp [lowBits, ih, xorBits]

/-- The low bits of zero are clear. -/
theorem lowBits_zero (n : ℕ) : lowBits n (0#w) = clearBits n := by
  induction n with
  | zero => rfl
  | succ n ih => rw [lowBits, ih, BitVec.getLsbD_zero, clearBits, clearBits, List.replicate_succ]

/-! ## Exclusive or of rows -/

/-- Rows of one length combine to one of that length. -/
theorem length_xorBits {xs ys : List Bool} (h : xs.length = ys.length) :
    (xorBits xs ys).length = xs.length := by
  simp [xorBits, h]

/-- Rows in a row combine part by part. -/
theorem xorBits_append {xs xs' ys ys' : List Bool} (h : xs.length = ys.length) :
    xorBits (xs ++ xs') (ys ++ ys') = xorBits xs ys ++ xorBits xs' ys' :=
  List.zipWith_append h

/-- A row combined with itself is clear. -/
theorem xorBits_self (xs : List Bool) : xorBits xs xs = clearBits xs.length := by
  induction xs with
  | nil => rfl
  | cons x xs ih => exact congrArg₂ List.cons (Bool.xor_self x) ih

/-- Rows that differ nowhere are the same. -/
theorem xorBits_eq_clear_iff {xs ys : List Bool} (h : xs.length = ys.length) :
    xorBits xs ys = clearBits xs.length ↔ xs = ys := by
  induction xs generalizing ys with
  | nil => simp [xorBits, (List.length_eq_zero_iff.mp h.symm)]
  | cons x xs ih =>
    obtain ⟨y, ys, rfl⟩ := List.exists_cons_of_length_eq_add_one h.symm
    have hrest := ih (Nat.succ.inj h)
    simp only [xorBits] at hrest
    simp [xorBits, List.replicate_succ, hrest]

end Foundation

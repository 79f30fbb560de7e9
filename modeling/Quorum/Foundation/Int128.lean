import Mathlib.Data.Int.Order.Basic
import Mathlib.Tactic.Linarith

/-!
# Machine integers

A signed 128-bit integer is kept as the integer it denotes together with its range, so a stored
amount can never leave the range of its type. The checked operations return `none` exactly
when the integer result does not fit; the saturating ones stop at the end of the range.
-/

namespace Foundation

/-- The largest signed 128-bit integer, `2 ^ 127 - 1`. -/
def maxI128 : ℤ := 170141183460469231731687303715884105727

/-- The smallest signed 128-bit integer, `-2 ^ 127`. -/
def minI128 : ℤ := -170141183460469231731687303715884105728

/-- The largest unsigned 32-bit integer, `2 ^ 32 - 1`. -/
def maxU32 : ℕ := 4294967295

/-- The largest unsigned 64-bit integer, `2 ^ 64 - 1`. -/
def maxU64 : ℕ := 18446744073709551615

/-- A signed 128-bit integer with the proof that it is in range. -/
@[ext] structure I128 where
  val : ℤ
  lower : minI128 ≤ val
  upper : val ≤ maxI128
deriving DecidableEq

namespace I128

/-- The least value is not positive. -/
theorem minI128_nonpos : minI128 ≤ 0 := by decide

/-- The greatest value is not negative. -/
theorem maxI128_nonneg : 0 ≤ maxI128 := by decide

instance : Zero I128 := ⟨⟨0, minI128_nonpos, maxI128_nonneg⟩⟩

instance : Inhabited I128 := ⟨0⟩

/-- Zero has the value zero. -/
@[simp] theorem zero_val : (0 : I128).val = 0 := rfl

/-- The end of the range, where a saturating addition stops. -/
def top : I128 := ⟨maxI128, minI128_nonpos.trans maxI128_nonneg, le_rfl⟩

/-- The machine integer denoting `x`, if it fits. -/
def ofInt? (x : ℤ) : Option I128 :=
  if h : minI128 ≤ x ∧ x ≤ maxI128 then some ⟨x, h.1, h.2⟩ else none

/-- A number as a machine integer, 0 if it does not fit. -/
def ofNat (n : ℕ) : I128 := (ofInt? n).getD 0

/-- A conversion that succeeds keeps the integer. -/
@[simp] theorem ofInt?_eq_some {x : ℤ} {a : I128} : ofInt? x = some a ↔ x = a.val := by
  unfold ofInt?
  constructor
  · intro h
    split at h
    · exact congrArg I128.val (Option.some.inj h)
    · contradiction
  · rintro rfl
    rw [dif_pos ⟨a.lower, a.upper⟩]

/-- A conversion fails exactly outside the range. -/
theorem ofInt?_eq_none {x : ℤ} : ofInt? x = none ↔ x < minI128 ∨ maxI128 < x := by
  unfold ofInt?
  split <;> rename_i h
  · simp only [reduceCtorEq, false_iff]
    omega
  · simp only [true_iff]
    omega

/-- An integer in range has a machine integer denoting it. -/
theorem exists_ofInt? {x : ℤ} (hlower : minI128 ≤ x) (hupper : x ≤ maxI128) :
    ∃ a : I128, ofInt? x = some a ∧ a.val = x :=
  ⟨⟨x, hlower, hupper⟩, by simp, rfl⟩

/-- Addition, failing when the sum does not fit. -/
def checkedAdd (a b : I128) : Option I128 := ofInt? (a.val + b.val)

/-- Subtraction, failing when the difference does not fit. -/
def checkedSub (a b : I128) : Option I128 := ofInt? (a.val - b.val)

/-- Multiplication, failing when the product does not fit. -/
def checkedMul (a b : I128) : Option I128 := ofInt? (a.val * b.val)

/-- Division truncated toward zero, failing on a zero divisor or on `min / -1`. -/
def checkedDiv (a b : I128) : Option I128 :=
  if b.val = 0 then none else ofInt? (a.val.tdiv b.val)

/-- The remainder of the truncated division, failing on a zero divisor. -/
def checkedRem (a b : I128) : Option I128 :=
  if b.val = 0 then none else ofInt? (a.val.tmod b.val)

/-- Addition that stops at the ends of the range. -/
def saturatingAdd (a b : I128) : I128 :=
  ⟨max minI128 (min (a.val + b.val) maxI128), le_max_left _ _,
    max_le (minI128_nonpos.trans maxI128_nonneg) (min_le_right _ _)⟩

/-- Arithmetic shift right, failing when the shift reaches the width of the type. -/
def checkedShr (a : I128) (n : ℕ) : Option I128 :=
  if n < 128 then ofInt? (a.val / 2 ^ n) else none

/-- A checked sum is the sum of the values. -/
theorem checkedAdd_eq_some {a b c : I128} : a.checkedAdd b = some c ↔ a.val + b.val = c.val :=
  ofInt?_eq_some

/-- A checked difference is the difference of the values. -/
theorem checkedSub_eq_some {a b c : I128} : a.checkedSub b = some c ↔ a.val - b.val = c.val :=
  ofInt?_eq_some

/-- A checked difference that may not be negative is the plain difference. -/
theorem filter_checkedSub_eq_some {a b c : I128} :
    ((a.checkedSub b).filter fun value => decide (0 ≤ value.val)) = some c ↔
      c.val = a.val - b.val ∧ 0 ≤ c.val := by
  rw [Option.filter_eq_some_iff, checkedSub_eq_some, decide_eq_true_eq]
  omega

/-- A nonnegative saturating sum is the plain sum cut at the top of the range. -/
theorem saturatingAdd_val {a b : I128} (h : 0 ≤ a.val + b.val) :
    (a.saturatingAdd b).val = min (a.val + b.val) maxI128 := by
  have hmin := minI128_nonpos
  have hmax := maxI128_nonneg
  unfold saturatingAdd
  simp only
  omega

end I128

/-- Addition of unsigned 32-bit integers, failing when the sum does not fit. -/
def checkedAddU32 (a b : ℕ) : Option ℕ := if a + b ≤ maxU32 then some (a + b) else none

/-- Addition of unsigned 32-bit integers that stops at the end of the range. -/
def saturatingAddU32 (a b : ℕ) : ℕ := min (a + b) maxU32

/-- Addition of unsigned 64-bit integers, failing when the sum does not fit. -/
def checkedAddU64 (a b : ℕ) : Option ℕ := if a + b ≤ maxU64 then some (a + b) else none

/-- Addition of unsigned 64-bit integers that stops at the end of the range. -/
def saturatingAddU64 (a b : ℕ) : ℕ := min (a + b) maxU64

/-- A checked sum of 64 bits is the sum, where it fits. -/
@[simp] theorem checkedAddU64_eq_some {a b c : ℕ} :
    checkedAddU64 a b = some c ↔ a + b = c ∧ a + b ≤ maxU64 := by
  unfold checkedAddU64
  split <;> simp
  · omega
  · omega

/-- A checked sum that succeeds is the plain sum, and it fits. -/
@[simp] theorem checkedAddU32_eq_some {a b c : ℕ} :
    checkedAddU32 a b = some c ↔ a + b = c ∧ a + b ≤ maxU32 := by
  unfold checkedAddU32
  split <;> simp
  · omega
  · omega

/-- A checked sum fails exactly when it does not fit. -/
theorem checkedAddU32_eq_none {a b : ℕ} : checkedAddU32 a b = none ↔ maxU32 < a + b := by
  unfold checkedAddU32
  split <;> simp <;> omega

end Foundation

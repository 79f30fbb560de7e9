import Mathlib.Algebra.Order.Ring.Int
import Mathlib.Tactic.Ring
import Mathlib.Tactic.Positivity
import Quorum.Foundation.Int128

/-!
# Halving in whole periods

A machine integer is halved `n` times by an arithmetic shift; a shift as wide as the type leaves
0. Time is cut into whole periods, and the two cuts interact: halving once for each whole period
of a span need not be the same as halving for the whole periods of its two parts, because each
part may lose a fraction of a period. `HalvesTogether` says exactly when the two agree.
-/

namespace Foundation

/-- The integer halved `n` times, 0 if `n` reaches the width of the type. -/
def halved (x : I128) (n : ℕ) : I128 := (x.checkedShr n).getD 0

/-- Halving divides by a power of two, and leaves nothing from 128 times on. -/
theorem halved_val (x : I128) (n : ℕ) :
    (halved x n).val = if n < 128 then x.val / 2 ^ n else 0 := by
  have hpow : (0 : ℤ) < 2 ^ n := by positivity
  have hlower : minI128 ≤ x.val / 2 ^ n := by
    have hone : (1 : ℤ) ≤ 2 ^ n := hpow
    have hmin := x.lower
    have hneg : minI128 ≤ 0 := I128.minI128_nonpos
    apply Int.le_ediv_of_mul_le hpow
    nlinarith only [hone, hmin, hneg]
  have hupper : x.val / 2 ^ n ≤ maxI128 := by
    rcases Int.le_total 0 x.val with hx | hx
    · exact (Int.ediv_le_self _ hx).trans x.upper
    · exact (Int.ediv_le_of_le_mul hpow (by linarith)).trans I128.maxI128_nonneg
  unfold halved I128.checkedShr
  split
  · obtain ⟨a, ha, hval⟩ := I128.exists_ofInt? hlower hupper
    rw [ha, Option.getD_some, hval]
  · rfl

/-- Nothing of a machine integer is left once it has been halved as often as it has bits. -/
theorem ediv_pow_eq_zero {x : I128} (hx : 0 ≤ x.val) {n : ℕ} (hn : 128 ≤ n) :
    x.val / 2 ^ n = 0 := by
  have hmax := x.upper
  have hwidth : maxI128 < 2 ^ 128 := by decide
  have hpow : (2 : ℤ) ^ 128 ≤ 2 ^ n := pow_le_pow_right₀ (by norm_num) hn
  exact Int.ediv_eq_zero_of_lt hx (by omega)

/-- On nonnegative integers halving is division by a power of two. -/
theorem halved_val_of_nonneg {x : I128} (hx : 0 ≤ x.val) (n : ℕ) :
    (halved x n).val = x.val / 2 ^ n := by
  rw [halved_val]
  split <;> rename_i hn
  · rfl
  · rw [ediv_pow_eq_zero hx (Nat.not_lt.mp hn)]

/-- Halving does not make negative. -/
theorem halved_nonneg {x : I128} (hx : 0 ≤ x.val) (n : ℕ) : 0 ≤ (halved x n).val := by
  rw [halved_val_of_nonneg hx]
  exact Int.ediv_nonneg hx (by positivity)

/-- Halving does not make greater. -/
theorem halved_le {x : I128} (hx : 0 ≤ x.val) (n : ℕ) : (halved x n).val ≤ x.val := by
  rw [halved_val_of_nonneg hx]
  exact Int.ediv_le_self _ hx

/-- Halving in two parts is halving as often as both. -/
theorem ediv_pow_ediv_pow (x : ℤ) (m n : ℕ) : x / 2 ^ m / 2 ^ n = x / 2 ^ (m + n) := by
  rw [Int.ediv_ediv_of_nonneg (by positivity), pow_add]

/-- Halving `m` times and then `n` times leaves the same as halving `k` times. -/
def HalvesTogether (x : ℤ) (m n k : ℕ) : Prop :=
  if 0 ≤ x then k = m + n ∨ x < 2 ^ (m + n)
  else 128 ≤ m ∨ 128 ≤ n ∨ (k < 128 ∧ (k = m + n ∨ -2 ^ (m + n) ≤ x))

/-- One more halving changes a quotient by a power of two exactly when something is left. -/
theorem ediv_pow_succ_eq_iff {x : ℤ} {n : ℕ} :
    x / 2 ^ n = x / 2 ^ (n + 1) ↔ -2 ^ n ≤ x ∧ x < 2 ^ n := by
  have hpow : (0 : ℤ) < 2 ^ n := by positivity
  have hhalf : x / 2 ^ (n + 1) = x / 2 ^ n / 2 := by
    rw [← ediv_pow_ediv_pow, pow_one]
  rw [hhalf]
  constructor
  · intro heq
    have hlow := Int.mul_ediv_self_le (x := x) (k := 2 ^ n) hpow.ne'
    have hhigh := Int.lt_mul_ediv_self_add (x := x) hpow
    have hcases : x / 2 ^ n = 0 ∨ x / 2 ^ n = -1 := by omega
    rcases hcases with hzero | hone
    · rw [hzero] at hlow hhigh
      constructor <;> linarith
    · rw [hone] at hlow hhigh
      constructor <;> linarith
  · rintro ⟨hlow, hhigh⟩
    rcases Int.lt_or_le x 0 with hneg | hnonneg
    · rw [Int.ediv_eq_neg_one_of_neg_of_le hneg (by omega)]
      rfl
    · rw [Int.ediv_eq_zero_of_lt hnonneg hhigh]
      rfl

/-- When two parts of a span have together as many whole periods as the span, or one fewer,
halving part by part and halving at once agree exactly under `HalvesTogether`. -/
theorem halved_halved_iff (x : I128) {m n k : ℕ} (hk : k = m + n ∨ k = m + n + 1) :
    halved (halved x m) n = halved x k ↔ HalvesTogether x.val m n k := by
  have hpow : (0 : ℤ) < 2 ^ (m + n) := by positivity
  unfold HalvesTogether
  rw [I128.ext_iff]
  split <;> rename_i hx
  · rw [halved_val_of_nonneg (halved_nonneg hx m), halved_val_of_nonneg hx,
      halved_val_of_nonneg hx, ediv_pow_ediv_pow]
    rcases hk with rfl | rfl
    · simp
    · rw [ediv_pow_succ_eq_iff]
      omega
  · have hneg : ∀ {y : ℤ} (j : ℕ), y < 0 → y / 2 ^ j < 0 :=
      fun j hy => Int.ediv_neg_of_neg_of_pos hy (by positivity)
    have hx : x.val < 0 := Int.not_le.mp hx
    rw [halved_val, halved_val, halved_val]
    by_cases hm : m < 128
    · by_cases hn : n < 128
      · rw [if_pos hm, if_pos hn, ediv_pow_ediv_pow]
        by_cases hk128 : k < 128
        · rw [if_pos hk128]
          rcases hk with rfl | rfl
          · simp [hk128]
          · rw [ediv_pow_succ_eq_iff]
            omega
        · rw [if_neg hk128]
          have hleft := hneg (m + n) hx
          omega
      · rw [if_neg hn, if_neg (by omega : ¬ k < 128)]
        simp [Nat.not_lt.mp hn]
    · rw [if_neg hm, if_neg (by omega : ¬ k < 128)]
      simp [Nat.not_lt.mp hm]

/-- The whole periods of two parts of a span are those of the span, or one fewer. -/
theorem periods_split {u a b period : ℕ} (hua : u ≤ a) (hab : a ≤ b) (hperiod : 0 < period) :
    (b - u) / period = (a - u) / period + (b - a) / period ∨
      (b - u) / period = (a - u) / period + (b - a) / period + 1 := by
  have hspan : b - u = (a - u) + (b - a) := by omega
  rw [hspan, Nat.add_div hperiod]
  split
  · exact .inr rfl
  · exact .inl rfl

/-- A split that loses no fraction of a period loses no halving. -/
theorem periods_split_of_mod_eq_zero {u a b period : ℕ} (hua : u ≤ a) (hab : a ≤ b)
    (hperiod : 0 < period) (hmod : (a - u) % period = 0) :
    (b - u) / period = (a - u) / period + (b - a) / period := by
  have hspan : b - u = (a - u) + (b - a) := by omega
  have hlt := Nat.mod_lt (b - a) hperiod
  rw [hspan, Nat.add_div hperiod, if_neg (by omega), Nat.add_zero]

end Foundation

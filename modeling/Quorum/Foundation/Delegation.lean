import Mathlib.Algebra.BigOperators.Group.Finset.Basic
import Mathlib.Algebra.BigOperators.Group.Finset.Piecewise
import Mathlib.Algebra.Order.BigOperators.Group.Finset
import Mathlib.Data.Fintype.BigOperators
import Mathlib.Algebra.Order.Ring.Int
import Mathlib.Tactic.Linarith
import Mathlib.Tactic.Ring

/-!
# Weights held through representatives

Finitely many holders have a weight each, and each names one representative. The weight
delegated to an account is the sum of the weights of the holders that name it. Representation
is not followed further: what a representative names for its own weight plays no role in the
weight it receives.
-/

namespace Foundation

variable {A : Type*} [Fintype A]

/-- Changing a summand at one place changes the sum by the difference there. -/
theorem sum_change {f g : A → ℤ} (a : A) (h : ∀ x, x ≠ a → g x = f x) :
    ∑ x, g x = ∑ x, f x - f a + g a := by
  classical
  rw [← Finset.add_sum_erase _ g (Finset.mem_univ a), ← Finset.add_sum_erase _ f (Finset.mem_univ a),
    Finset.sum_congr rfl fun x hx => h x (Finset.ne_of_mem_erase hx)]
  ring

variable {weight : A → ℤ}

/-- The weight of one holder is part of the whole. -/
theorem le_sum (h : ∀ a, 0 ≤ weight a) (a : A) : weight a ≤ ∑ x, weight x :=
  Finset.single_le_sum (fun x _ => h x) (Finset.mem_univ a)

/-- Two different holders together have at most the whole weight. -/
theorem add_le_sum (h : ∀ a, 0 ≤ weight a) {a b : A} (hab : a ≠ b) :
    weight a + weight b ≤ ∑ x, weight x := by
  classical
  rw [← Finset.add_sum_erase _ weight (Finset.mem_univ a)]
  have hle := Finset.single_le_sum (f := weight) (s := Finset.univ.erase a)
    (fun x _ => h x) (Finset.mem_erase.mpr ⟨hab.symm, Finset.mem_univ b⟩)
  linarith

variable [DecidableEq A] {rep : A → A}

/-- The weight of the holders whose representative is `d`. -/
def delegated (rep : A → A) (weight : A → ℤ) (d : A) : ℤ :=
  ∑ h, if rep h = d then weight h else 0

/-- Every unit of weight is delegated to exactly one account. -/
theorem sum_delegated (rep : A → A) (weight : A → ℤ) :
    ∑ d, delegated rep weight d = ∑ h, weight h := by
  unfold delegated
  rw [Finset.sum_comm]
  simp

/-- Nobody represents less than nothing. -/
theorem delegated_nonneg (h : ∀ a, 0 ≤ weight a) (d : A) : 0 ≤ delegated rep weight d :=
  Finset.sum_nonneg fun a _ => by split <;> simp [h a]

/-- A representative receives at least the weight of each of its holders. -/
theorem le_delegated (h : ∀ a, 0 ≤ weight a) (a : A) : weight a ≤ delegated rep weight (rep a) := by
  have hle := Finset.single_le_sum (f := fun x => if rep x = rep a then weight x else 0)
    (fun x _ => by split <;> simp [h x]) (Finset.mem_univ a)
  simpa [delegated] using hle

/-- Nobody represents more than there is. -/
theorem delegated_le_sum (h : ∀ a, 0 ≤ weight a) (d : A) :
    delegated rep weight d ≤ ∑ a, weight a :=
  Finset.sum_le_sum fun a _ => by split <;> simp [h a]

/-- A new weight of one holder is felt by its representative alone. -/
theorem delegated_update_weight (owner : A) (value : ℤ) (d : A) :
    delegated rep (Function.update weight owner value) d =
      delegated rep weight d + if rep owner = d then value - weight owner else 0 := by
  unfold delegated
  rw [sum_change (f := fun h => if rep h = d then weight h else 0) owner
    (fun x hx => by simp [Function.update_of_ne hx])]
  simp only [Function.update_self]
  split <;> ring

/-- A new representative of one holder moves exactly that holder's weight. -/
theorem delegated_update_rep (holder next : A) (d : A) :
    delegated (Function.update rep holder next) weight d =
      delegated rep weight d - (if rep holder = d then weight holder else 0) +
        if next = d then weight holder else 0 := by
  unfold delegated
  rw [sum_change (f := fun h => if rep h = d then weight h else 0) holder
    (fun x hx => by simp [Function.update_of_ne hx])]
  simp only [Function.update_self]

/-- What is delegated to the accounts with a property is the weight of the holders whose
representative has it. -/
theorem sum_delegated_where (rep : A → A) (weight : A → ℤ) (P : A → Prop) [DecidablePred P] :
    (∑ d, if P d then delegated rep weight d else 0) = ∑ h, if P (rep h) then weight h else 0 := by
  have hexpand : ∀ d, (if P d then delegated rep weight d else 0) =
      ∑ h, if rep h = d then (if P (rep h) then weight h else 0) else 0 := by
    intro d
    unfold delegated
    split <;> rename_i hd
    · apply Finset.sum_congr rfl
      intro h _
      split <;> rename_i hrep
      · rw [if_pos (hrep ▸ hd)]
      · rfl
    · symm
      apply Finset.sum_eq_zero
      intro h _
      split <;> rename_i hrep
      · rw [if_neg (hrep ▸ hd)]
      · rfl
  rw [Finset.sum_congr rfl fun d _ => hexpand d, Finset.sum_comm]
  simp

/-! ## Tallies of choices -/

section Tally

variable {K : Type*} [DecidableEq K]

/-- The weight of those who have chosen `c`. -/
def tallied (choice : A → Option K) (weight : A → ℤ) (c : K) : ℤ :=
  ∑ a, if choice a = some c then weight a else 0

omit [DecidableEq A] in
/-- Without choices nothing is tallied. -/
theorem tallied_none (weight : A → ℤ) (c : K) : tallied (fun _ => none) weight c = 0 := by
  simp [tallied]

/-- A new choice moves exactly the weight of the one who chose. -/
theorem tallied_update (choice : A → Option K) (weight : A → ℤ) (a : A) (next c : K) :
    tallied (Function.update choice a (some next)) weight c =
      tallied choice weight c - (if choice a = some c then weight a else 0) +
        if next = c then weight a else 0 := by
  unfold tallied
  rw [sum_change (f := fun x => if choice x = some c then weight x else 0) a
    (fun x hx => by simp [Function.update_of_ne hx])]
  simp only [Function.update_self, Option.some.injEq]

end Tally

end Foundation

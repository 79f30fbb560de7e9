import Mathlib.Algebra.BigOperators.Group.Finset.Basic
import Mathlib.Algebra.BigOperators.Group.Finset.Piecewise
import Mathlib.Algebra.BigOperators.Intervals
import Mathlib.Algebra.Order.BigOperators.Group.Finset
import Mathlib.Tactic.Abel

/-!
# Sums over a registry

A registry hands out ids in order and stores an entry under each id it has handed out. The total
of a weight over the entries follows every change of one entry, and counting the entries with a
property is the case of a weight of one.
-/

namespace Foundation

variable {A M : Type*}

section Total

variable [AddCommMonoid M] {w : A → M} {f g : ℕ → Option A} {n id : ℕ}

/-- The weight of an entry, or zero where there is none. -/
def worth (w : A → M) (entry : Option A) : M := (entry.map w).getD 0

/-- Nothing stored is worth nothing. -/
@[simp] theorem worth_none : worth w none = 0 := rfl

/-- What is stored has its worth. -/
@[simp] theorem worth_some (a : A) : worth w (some a) = w a := rfl

/-- The weight of all entries under ids up to `n`. -/
def total (n : ℕ) (f : ℕ → Option A) (w : A → M) : M := ∑ id ∈ Finset.range (n + 1), worth w (f id)

/-- Changing one entry changes the total by the weight of that entry. -/
theorem total_update (hid : id ≤ n) (entry : Option A) :
    total n (Function.update f id entry) w + worth w (f id) = total n f w + worth w entry := by
  have hmem : id ∈ Finset.range (n + 1) := Finset.mem_range.mpr (Nat.lt_succ_of_le hid)
  unfold total
  rw [← Finset.add_sum_erase _ _ hmem, ← Finset.add_sum_erase _ (fun x => worth w (f x)) hmem,
    Function.update_self]
  have hrest : ∑ x ∈ (Finset.range (n + 1)).erase id, worth w (Function.update f id entry x) =
      ∑ x ∈ (Finset.range (n + 1)).erase id, worth w (f x) := by
    apply Finset.sum_congr rfl
    intro x hx
    rw [Function.update_of_ne (Finset.ne_of_mem_erase hx)]
  rw [hrest]
  abel

/-- A new entry under the next id adds its weight. -/
theorem total_succ (entry : Option A) :
    total (n + 1) (Function.update f (n + 1) entry) w = total n f w + worth w entry := by
  unfold total
  rw [Finset.sum_range_succ, Function.update_self]
  congr 1
  apply Finset.sum_congr rfl
  intro x hx
  rw [Function.update_of_ne (Finset.mem_range.mp hx).ne]

/-- A registry without entries weighs nothing. -/
theorem total_eq_zero (h : ∀ id, f id = none) : total n f w = 0 :=
  Finset.sum_eq_zero fun id _ => by rw [h id, worth_none]

end Total

/-- The weight of one entry is part of the whole. -/
theorem worth_le_total [AddCommMonoid M] [PartialOrder M] [IsOrderedAddMonoid M] {w : A → M}
    {f : ℕ → Option A} {n id : ℕ} (h : ∀ x, 0 ≤ worth w (f x)) (hid : id ≤ n) :
    worth w (f id) ≤ total n f w :=
  Finset.single_le_sum (f := fun x => worth w (f x)) (fun x _ => h x)
    (Finset.mem_range.mpr (Nat.lt_succ_of_le hid))

/-! ## Counting -/

section Census

variable {P : A → Bool} {f : ℕ → Option A} {n id : ℕ}

/-- The number of entries under ids up to `n` with the property `P`. -/
def census (n : ℕ) (f : ℕ → Option A) (P : A → Bool) : ℕ :=
  ((Finset.range (n + 1)).filter fun id => (f id).any P = true).card

/-- Counting is weighing each entry with the property as one. -/
theorem census_eq_total : census n f P = total n f fun a => (P a).toNat := by
  unfold census total
  rw [Finset.card_filter]
  apply Finset.sum_congr rfl
  intro x _
  cases f x with
  | none => rfl
  | some a => cases h : P a <;> simp [h]

/-- Replacing an entry moves the count by what its property gains or loses. -/
theorem census_update {a : A} (hstored : f id = some a) (hid : id ≤ n) (b : A) :
    census n (Function.update f id (some b)) P + (P a).toNat = census n f P + (P b).toNat := by
  rw [census_eq_total, census_eq_total]
  have hupdate := total_update (w := fun a => (P a).toNat) (f := f) hid (some b)
  rwa [hstored, worth_some, worth_some] at hupdate

/-- A next entry counts if it has the property. -/
theorem census_succ (b : A) :
    census (n + 1) (Function.update f (n + 1) (some b)) P = census n f P + (P b).toNat := by
  rw [census_eq_total, census_eq_total, total_succ, worth_some]

/-- The count is zero exactly when no entry has the property. -/
theorem census_eq_zero_iff : census n f P = 0 ↔ ∀ id ≤ n, (f id).any P = false := by
  unfold census
  rw [Finset.card_eq_zero, Finset.filter_eq_empty_iff]
  simp only [Finset.mem_range, Nat.lt_succ_iff, Bool.not_eq_true]

/-- Ids under which nothing has the property are not counted. -/
theorem census_add_card_le {absent : Finset ℕ} (hsub : absent ⊆ Finset.range (n + 1))
    (h : ∀ id ∈ absent, (f id).any P = false) : census n f P + absent.card ≤ n + 1 := by
  have hle : census n f P ≤ (Finset.range (n + 1) \ absent).card := by
    apply Finset.card_le_card
    intro id hid
    rw [Finset.mem_filter] at hid
    rw [Finset.mem_sdiff]
    refine ⟨hid.1, fun habsent => ?_⟩
    rw [h id habsent] at hid
    exact absurd hid.2 Bool.false_ne_true
  have hcard := Finset.card_sdiff_add_card_eq_card hsub
  rw [Finset.card_range] at hcard
  omega

end Census

/-! ## Listing -/

/-- The entries with the property `P`, each once and in the order of their keys. -/
structure Lists (key : A → ℕ) (f : ℕ → Option A) (P : A → Prop) (entries : List A) : Prop where
  mem : ∀ a, a ∈ entries ↔ f (key a) = some a ∧ P a
  sorted : entries.Pairwise fun a b => key a < key b

section Lists

variable {key : A → ℕ} {f : ℕ → Option A} {P : A → Prop}

/-- A list for one property is one for every property the entries share with it. -/
theorem Lists.of_iff {Q : A → Prop} {entries : List A} (h : Lists key f P entries)
    (hiff : ∀ a, f (key a) = some a → (P a ↔ Q a)) : Lists key f Q entries where
  mem a := (h.mem a).trans (and_congr_right (hiff a))
  sorted := h.sorted

/-- Looking up increasing ids lists the entries found there, if every entry carries its id. -/
theorem lists_filterMap {ids : List ℕ} (hkey : ∀ id a, f id = some a → key a = id)
    (hids : ids.Pairwise (· < ·)) : Lists key f (fun a => key a ∈ ids) (ids.filterMap f) where
  mem a := by
    rw [List.mem_filterMap]
    constructor
    · rintro ⟨id, hmem, hid⟩
      obtain rfl := hkey id a hid
      exact ⟨hid, hmem⟩
    · rintro ⟨hstored, hmem⟩
      exact ⟨key a, hmem, hstored⟩
  sorted := by
    rw [List.pairwise_filterMap]
    apply hids.imp
    intro id other hlt a ha b hb
    rw [hkey id a ha, hkey other b hb]
    exact hlt

end Lists

/-! ## Pages -/

section Pages

variable {f : ℕ → Option A} {start size n : ℕ}

/-- The entries under `size` consecutive ids; ids without an entry are passed over. -/
def page (f : ℕ → Option A) (start size : ℕ) : List A := (List.range' start size).filterMap f

/-- A page lists the entries in its range of keys. -/
theorem lists_page {key : A → ℕ} (hkey : ∀ id a, f id = some a → key a = id) :
    Lists key f (fun a => start ≤ key a ∧ key a < start + size) (page f start size) :=
  (lists_filterMap hkey List.pairwise_lt_range').of_iff fun _ _ => List.mem_range'_1

/-- Pages in a row make one page. -/
theorem page_append (size' : ℕ) :
    page f start size ++ page f (start + size) size' = page f start (size + size') := by
  unfold page
  rw [← List.filterMap_append, List.range'_append_1]

/-- A page past the last id is empty. -/
theorem page_eq_nil (hnone : ∀ id, n < id → f id = none) (hstart : n < start) :
    page f start size = [] := by
  apply List.filterMap_eq_nil_iff.mpr
  intro id hid
  exact hnone id (hstart.trans_le (List.mem_range'_1.mp hid).1)

/-- A page may be cut off after the last id with an entry. -/
theorem page_cut (hnone : ∀ id, n < id → f id = none) (hstart : start ≤ n + 1) :
    page f start (min (start + size) (n + 1) - start) = page f start size := by
  rcases Nat.le_total (start + size) (n + 1) with hle | hle
  · rw [min_eq_left hle, Nat.add_sub_cancel_left]
  · have hrest : page f (start + (n + 1 - start)) (start + size - (n + 1)) = [] :=
      page_eq_nil hnone (by omega)
    rw [min_eq_right hle, ← List.append_nil (page f start (n + 1 - start)), ← hrest, page_append]
    congr 1
    omega

/-- Pages of one size, one after the other, are one long page. -/
theorem flatMap_page (pages : ℕ) :
    (List.range pages).flatMap (fun k => page f (start + k * size) size) =
      page f start (pages * size) := by
  induction pages with
  | zero => rw [Nat.zero_mul]; rfl
  | succ pages ih =>
    rw [List.range_succ, List.flatMap_append, ih, List.flatMap_singleton, page_append,
      Nat.succ_mul]

end Pages

/-! ## The ids of the entries with a property -/

section Filed

variable {P : A → Bool} {f : ℕ → Option A} {n id : ℕ}

/-- The ids from 1 up to `n` whose entry has the property `P`, in order. -/
def filed (n : ℕ) (f : ℕ → Option A) (P : A → Bool) : List ℕ :=
  (List.range' 1 n).filter fun id => (f id).any P

/-- The filed ids are those in use whose entries have the property. -/
theorem mem_filed : id ∈ filed n f P ↔ (1 ≤ id ∧ id ≤ n) ∧ (f id).any P = true := by
  rw [filed, List.mem_filter, List.mem_range'_1]
  constructor
  · rintro ⟨⟨hone, hlt⟩, hany⟩
    exact ⟨⟨hone, by omega⟩, hany⟩
  · rintro ⟨⟨hone, hle⟩, hany⟩
    exact ⟨⟨hone, by omega⟩, hany⟩

/-- No more ids are filed than are in use. -/
theorem length_filed_le : (filed n f P).length ≤ n :=
  (List.length_filter_le ..).trans_eq List.length_range'

/-- A new entry under the next id comes last, if it has the property. -/
theorem filed_succ (b : A) :
    filed (n + 1) (Function.update f (n + 1) (some b)) P =
      filed n f P ++ if P b = true then [n + 1] else [] := by
  unfold filed
  rw [List.range'_1_concat, List.filter_append, Nat.add_comm 1 n, List.filter_singleton,
    Function.update_self]
  congr 1
  swap
  · cases h : P b <;> simp [h]
  apply List.filter_congr
  intro id hid
  have hne : id ≠ n + 1 := by
    have := List.mem_range'_1.mp hid
    omega
  rw [Function.update_of_ne hne]

/-- An entry may change as long as its property does not. -/
theorem filed_update {a b : A} (hstored : f id = some a) (hsame : P b = P a) :
    filed n (Function.update f id (some b)) P = filed n f P := by
  apply List.filter_congr
  intro other _
  by_cases hother : other = id
  · rw [hother, Function.update_self, hstored, Option.any_some, Option.any_some, hsame]
  · rw [Function.update_of_ne hother]

/-- Writing a slot beyond the last one leaves the others and adds the new one. -/
theorem map_update_range' {B : Type*} (index : ℕ → B) (b : B) :
    (List.range' 1 (n + 1)).map (Function.update index (n + 1) b) =
      (List.range' 1 n).map index ++ [b] := by
  rw [List.range'_1_concat, List.map_append, Nat.add_comm 1 n, List.map_singleton,
    Function.update_self]
  congr 1
  apply List.map_congr_left
  intro id hid
  have hne : id ≠ n + 1 := by
    have := List.mem_range'_1.mp hid
    omega
  rw [Function.update_of_ne hne]

end Filed

end Foundation

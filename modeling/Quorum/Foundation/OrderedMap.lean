import Mathlib.Data.List.Nodup

/-!
# Maps that keep the order of insertion

A map of a script language as the row of its entries, the oldest one first. Deleting takes an entry
out of the row, and setting an absent key puts a new one at its end.
-/

namespace Foundation

/-- A member of a row with one more at its end. -/
theorem mem_concat {A : Type} {a b : A} {l : List A} : a ∈ l ++ [b] ↔ a ∈ l ∨ a = b := by
  rw [List.mem_append, List.mem_singleton]

variable {K V : Type} {m : List (K × V)} {key : K} {value : V}

/-- Each key has one entry. -/
def UniqueKeys (m : List (K × V)) : Prop := (m.map Prod.fst).Nodup

/-- With fewer entries the keys stay unique. -/
theorem UniqueKeys.sublist {m' : List (K × V)} (h : UniqueKeys m) (hsub : m'.Sublist m) :
    UniqueKeys m' := List.Nodup.sublist (hsub.map Prod.fst) h

/-- An entry under a new key keeps the keys unique. -/
theorem UniqueKeys.append (h : UniqueKeys m) (hkey : key ∉ m.map Prod.fst) :
    UniqueKeys (m ++ [(key, value)]) := by
  rw [UniqueKeys, List.map_append, List.map_singleton, List.nodup_append]
  refine ⟨h, List.nodup_singleton _, ?_⟩
  rintro a ha b hb rfl
  obtain rfl := List.mem_singleton.mp hb
  exact hkey ha

variable [DecidableEq K]

/-- The value of a key. -/
def mapGet (m : List (K × V)) (key : K) : Option V := m.lookup key

/-- The map without a key. -/
def mapDelete (m : List (K × V)) (key : K) : List (K × V) := m.filter fun p => p.1 ≠ key

/-- The map with a value for a key, in the place of the earlier one if there is one. -/
def mapSet (m : List (K × V)) (key : K) (value : V) : List (K × V) :=
  if key ∈ m.map Prod.fst then m.map fun p => if p.1 = key then (key, value) else p
  else m ++ [(key, value)]

/-- The map after its value for a key has been changed in place. -/
def mapAdjust (m : List (K × V)) (key : K) (f : V → V) : List (K × V) :=
  m.map fun p => if p.1 = key then (p.1, f p.2) else p

/-- What is found is an entry. -/
theorem mem_of_mapGet (h : mapGet m key = some value) : (key, value) ∈ m := by
  obtain ⟨before, after, rfl, -⟩ := List.lookup_eq_some_iff.mp h
  exact List.mem_append_right _ List.mem_cons_self

/-- With unique keys every entry is found under its key. -/
theorem mapGet_of_mem (hm : UniqueKeys m) (h : (key, value) ∈ m) : mapGet m key = some value := by
  induction m with
  | nil => contradiction
  | cons p m ih =>
    obtain ⟨k, v⟩ := p
    obtain ⟨hfresh, hrest⟩ := List.nodup_cons.mp hm
    rcases List.mem_cons.mp h with heq | hmem
    · obtain ⟨rfl, rfl⟩ := Prod.mk.inj heq
      exact List.lookup_cons_self
    · have hne : key ≠ k := by
        rintro rfl
        exact hfresh (List.mem_map.mpr ⟨_, hmem, rfl⟩)
      rw [mapGet, List.lookup_cons, beq_false_of_ne hne]
      exact ih hrest hmem

/-- After a deletion the entries of the other keys are left. -/
theorem mem_mapDelete {p : K × V} : p ∈ mapDelete m key ↔ p ∈ m ∧ p.1 ≠ key := by
  rw [mapDelete, List.mem_filter, decide_eq_true_eq]

/-- An entry can be taken out and put in front. -/
theorem UniqueKeys.perm_mapDelete (hm : UniqueKeys m) (h : (key, value) ∈ m) :
    m.Perm ((key, value) :: mapDelete m key) := by
  induction m with
  | nil => contradiction
  | cons p m ih =>
    obtain ⟨hfresh, hrest⟩ := List.nodup_cons.mp hm
    rcases List.mem_cons.mp h with rfl | hmem
    · have hkept : mapDelete ((key, value) :: m) key = m := by
        rw [mapDelete, List.filter_cons_of_neg (by simp), List.filter_eq_self]
        exact fun q hq => decide_eq_true fun hkey => hfresh (List.mem_map.mpr ⟨q, hq, hkey⟩)
      rw [hkept]
    · have hne : p.1 ≠ key := fun hkey => hfresh (List.mem_map.mpr ⟨_, hmem, hkey.symm⟩)
      have hkept : mapDelete (p :: m) key = p :: mapDelete m key :=
        List.filter_cons_of_pos (decide_eq_true hne)
      rw [hkept]
      exact ((ih hrest hmem).cons p).trans (.swap _ _ _)

/-- After a deletion the key is gone. -/
theorem key_notMem_mapDelete : key ∉ (mapDelete m key).map Prod.fst := by
  rintro hmem
  obtain ⟨p, hp, rfl⟩ := List.mem_map.mp hmem
  exact (mem_mapDelete.mp hp).2 rfl

/-- Setting an absent key adds an entry at the end. -/
theorem mapSet_of_absent (h : key ∉ m.map Prod.fst) : mapSet m key value = m ++ [(key, value)] :=
  if_neg h

/-- An adjustment changes the entries of its key alone. -/
theorem mem_mapAdjust {f : V → V} {p : K × V} (h : p ∈ mapAdjust m key f) :
    (p ∈ m ∧ p.1 ≠ key) ∨ ∃ v, p = (key, f v) ∧ (key, v) ∈ m := by
  obtain ⟨q, hq, rfl⟩ := List.mem_map.mp h
  split <;> rename_i hkey
  · subst hkey
    exact .inr ⟨q.2, rfl, hq⟩
  · exact .inl ⟨hq, hkey⟩

/-- An adjustment keeps the keys unique. -/
theorem UniqueKeys.mapAdjust (h : UniqueKeys m) (f : V → V) : UniqueKeys (mapAdjust m key f) := by
  have hkeys : (Foundation.mapAdjust m key f).map Prod.fst = m.map Prod.fst := by
    rw [Foundation.mapAdjust, List.map_map]
    apply List.map_congr_left
    intro p _
    by_cases hkey : p.1 = key <;> simp [hkey]
  rw [UniqueKeys, hkeys]
  exact h

/-- Two entries with one key are the same. -/
theorem UniqueKeys.eq_of_mem {v w : V} (h : UniqueKeys m) (hv : (key, v) ∈ m) (hw : (key, w) ∈ m) :
    v = w :=
  Option.some.inj ((mapGet_of_mem h hv).symm.trans (mapGet_of_mem h hw))

end Foundation

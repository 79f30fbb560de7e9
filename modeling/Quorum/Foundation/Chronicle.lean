import Mathlib.Data.List.Basic
import Mathlib.Data.List.Induction
import Mathlib.Data.Nat.Basic
import Mathlib.Order.Basic
import Mathlib.Tactic.Common

/-!
# Chronicles of timestamped entries

A chronicle is a list of entries in writing order, with at most one entry for each time.
`record` appends an entry or overwrites the one of the same time, `prune` drops the entries
that are out of date except the newest of them, and `newestWhere` is the binary search by
which a reader finds the entry in force. `newestBefore` is the plain newest-first scan that
the search is compared with.

Nothing here depends on what an entry holds besides its time.
-/

namespace Foundation

variable {E : Type*}

/-- Append an entry, or overwrite the newest one if it has the same time. -/
def record (time : E → ℕ) (entries : List E) (e : E) : List E :=
  match entries[entries.length - 1]? with
  | some last =>
    if 0 < entries.length ∧ time last = time e then entries.set (entries.length - 1) e
    else entries ++ [e]
  | none => entries ++ [e]

/-- The number of leading entries older than the cutoff. -/
def staleCount (time : E → ℕ) (cutoff : ℕ) : List E → ℕ
  | [] => 0
  | e :: rest => if time e < cutoff then staleCount time cutoff rest + 1 else 0

/-- Drop the entries older than the cutoff, except the newest of them. -/
def prune (time : E → ℕ) (cutoff : ℕ) (entries : List E) : List E :=
  if 1 < staleCount time cutoff entries then entries.drop (staleCount time cutoff entries - 1)
  else entries

/-- The loop of the binary search for the first entry that is not early, on the index range
from `low` to `high`. The first argument bounds the number of rounds. -/
def searchLoop (early : E → Bool) (entries : List E) : ℕ → ℕ → ℕ → ℕ
  | 0, low, _ => low
  | rounds + 1, low, high =>
    if low < high then
      let mid := low + (high - low) / 2
      match entries[mid]? with
      | some e =>
        if early e then searchLoop early entries rounds (mid + 1) high
        else searchLoop early entries rounds low mid
      | none => searchLoop early entries rounds low mid
    else low

/-- The entry just before the first one that is not early, found by binary search. -/
def newestWhere (early : E → Bool) (entries : List E) : Option E :=
  let low := searchLoop early entries entries.length 0 entries.length
  if low = 0 then none else entries[low - 1]?

/-- The same loop, failing when it reads out of range or has no rounds left. -/
def checkedLoop (early : E → Bool) (entries : List E) : ℕ → ℕ → ℕ → Option ℕ
  | 0, low, high => if low < high then none else some low
  | rounds + 1, low, high =>
    if low < high then
      let mid := low + (high - low) / 2
      (entries[mid]?).bind fun e =>
        if early e then checkedLoop early entries rounds (mid + 1) high
        else checkedLoop early entries rounds low mid
    else some low

/-- The binary search, failing when it reads out of range or does not come to its end. -/
def checkedSearch (early : E → Bool) (entries : List E) : Option (Option E) :=
  (checkedLoop early entries entries.length 0 entries.length).bind fun low =>
    if low = 0 then some none else (entries[low - 1]?).map some

/-- The newest entry written strictly before the bound, found by a newest-first scan. -/
def newestBefore (time : E → ℕ) (bound : ℕ) (entries : List E) : Option E :=
  entries.reverse.find? fun e => decide (time e < bound)

/-- What a list of writes leaves: each is recorded, and what is behind its cutoff is pruned. -/
def recordAll (time : E → ℕ) (cutoff : ℕ → ℕ) (entries writes : List E) : List E :=
  writes.foldl (fun entries e => prune time (cutoff (time e)) (record time entries e)) entries

/-- Some entry was written before the bound. -/
def reachesBack (time : E → ℕ) (bound : ℕ) (entries : List E) : Bool :=
  entries.any fun e => decide (time e < bound)

/-- Entries in strictly increasing order of time, none of them later than `now`. -/
structure Chronological (time : E → ℕ) (now : ℕ) (entries : List E) : Prop where
  ascending : entries.Pairwise fun a b => time a < time b
  written : ∀ e ∈ entries, time e ≤ now

/-- Entries in strictly increasing order of time, one for each time, that end in `e`. -/
structure EndsIn (time : E → ℕ) (entries : List E) (e : E) : Prop where
  ascending : entries.Pairwise fun a b => time a < time b
  single : ∀ t, entries.countP (fun x => decide (time x = t)) ≤ 1
  nonempty : entries ≠ []
  newest : entries.getLast? = some e

/-! ## The scan -/

section Scan

variable {time : E → ℕ} {bound : ℕ}

/-- A later part of the list takes precedence over an earlier one. -/
theorem newestBefore_append (entries later : List E) :
    newestBefore time bound (entries ++ later) =
      (newestBefore time bound later).or (newestBefore time bound entries) := by
  simp [newestBefore, List.find?_append]

/-- The last entry is the newest one before the bound, if it is before it. -/
theorem newestBefore_concat (entries : List E) (e : E) :
    newestBefore time bound (entries ++ [e]) =
      if time e < bound then some e else newestBefore time bound entries := by
  rw [newestBefore_append]
  by_cases h : time e < bound <;> simp [newestBefore, h]

/-- The entry found was written before the bound. -/
theorem newestBefore_some {entries : List E} {e : E}
    (h : newestBefore time bound entries = some e) : e ∈ entries ∧ time e < bound := by
  unfold newestBefore at h
  exact ⟨by simpa using List.mem_of_find?_eq_some h, by simpa using List.find?_some h⟩

/-- An entry written before the bound makes the scan succeed. -/
theorem newestBefore_isSome {entries : List E} {e : E} (hmem : e ∈ entries)
    (htime : time e < bound) : (newestBefore time bound entries).isSome := by
  unfold newestBefore
  rw [List.find?_isSome]
  exact ⟨e, by simpa using hmem, by simpa using htime⟩

/-- The scan finds nothing exactly when no entry reaches back that far. -/
theorem newestBefore_eq_none_iff {entries : List E} :
    newestBefore time bound entries = none ↔ reachesBack time bound entries = false := by
  unfold newestBefore reachesBack
  rw [List.find?_eq_none, List.any_eq_false]
  simp

/-- When every entry is before the bound, the scan finds the newest entry. -/
theorem newestBefore_eq_getLast? {entries : List E} (h : ∀ e ∈ entries, time e < bound) :
    newestBefore time bound entries = entries.getLast? := by
  rcases List.eq_nil_or_concat entries with rfl | ⟨rest, e, rfl⟩
  · rfl
  · rw [List.concat_eq_append, newestBefore_concat, if_pos (h e (by simp)),
      List.getLast?_concat]

end Scan

/-! ## The binary search -/

section Search

variable {early : E → Bool}

/-- With enough rounds the loop stops at the point where the entries stop being early. -/
theorem searchLoop_eq (entries : List E) {point : ℕ}
    (hpoint : ∀ i (hi : i < entries.length), early entries[i] = true ↔ i < point) :
    ∀ rounds low high, high - low ≤ rounds → low ≤ point → point ≤ high →
      high ≤ entries.length → searchLoop early entries rounds low high = point := by
  intro rounds
  induction rounds with
  | zero =>
    intro low high hrounds hlow hhigh _
    unfold searchLoop
    omega
  | succ rounds ih =>
    intro low high hrounds hlow hhigh hlen
    unfold searchLoop
    split <;> rename_i hlt
    · have hmid : low + (high - low) / 2 < entries.length := by omega
      simp only [List.getElem?_eq_getElem hmid]
      have hiff := hpoint _ hmid
      split <;> rename_i hearly
      · exact ih _ _ (by omega) (hiff.mp hearly) hhigh hlen
      · have hge : ¬ low + (high - low) / 2 < point := fun h => hearly (hiff.mpr h)
        exact ih _ _ (by omega) hlow (by omega) (by omega)
    · omega

/-- With enough rounds the loop comes to its end and reads in range all the way. -/
theorem checkedLoop_eq (entries : List E) :
    ∀ rounds low high, high - low ≤ rounds → low ≤ high → high ≤ entries.length →
      checkedLoop early entries rounds low high =
          some (searchLoop early entries rounds low high) ∧
        searchLoop early entries rounds low high ≤ high := by
  intro rounds
  induction rounds with
  | zero =>
    intro low high hrounds hle _
    unfold checkedLoop searchLoop
    exact ⟨if_neg (by omega), hle⟩
  | succ rounds ih =>
    intro low high hrounds hle hlen
    unfold checkedLoop searchLoop
    split <;> rename_i hlt
    · have hmid : low + (high - low) / 2 < entries.length := by omega
      simp only [List.getElem?_eq_getElem hmid, Option.bind_some]
      split <;> rename_i hearly
      · exact ih _ _ (by omega) (by omega) hlen
      · obtain ⟨hloop, hpoint⟩ := ih low (low + (high - low) / 2) (by omega) (by omega) (by omega)
        exact ⟨hloop, by omega⟩
    · exact ⟨rfl, hle⟩

/-- On every list the search comes to its end and reads in range. -/
theorem checkedSearch_eq (entries : List E) :
    checkedSearch early entries = some (newestWhere early entries) := by
  obtain ⟨hloop, hpoint⟩ := @checkedLoop_eq _ early entries entries.length 0 entries.length
    (by omega) (Nat.zero_le _) le_rfl
  simp only [checkedSearch, newestWhere, hloop, Option.bind_some]
  split <;> rename_i hzero
  · rfl
  · rw [List.getElem?_eq_getElem (by omega), Option.map_some]

/-- Entries that stop being early once have one point where they do. -/
theorem exists_point (entries : List E)
    (hmono : entries.Pairwise fun a b => early b = true → early a = true) :
    ∃ point ≤ entries.length,
      ∀ i (hi : i < entries.length), early entries[i] = true ↔ i < point := by
  induction entries with
  | nil => exact ⟨0, le_rfl, by simp⟩
  | cons e rest ih =>
    rw [List.pairwise_cons] at hmono
    by_cases he : early e = true
    · obtain ⟨point, hle, hpoint⟩ := ih hmono.2
      refine ⟨point + 1, by simpa using hle, fun i hi => ?_⟩
      cases i with
      | zero => simpa using he
      | succ i => simpa using hpoint i (by simpa using hi)
    · refine ⟨0, Nat.zero_le _, fun i hi => ?_⟩
      cases i with
      | zero => simpa using he
      | succ i =>
        have hlate := hmono.1 _ (List.getElem_mem (by simpa using hi : i < rest.length))
        simpa using fun h => he (hlate h)

/-- A newest-first scan stops at the entry just before the point. -/
theorem find?_reverse_eq (entries : List E) {point : ℕ} (hle : point ≤ entries.length)
    (hpoint : ∀ i (hi : i < entries.length), early entries[i] = true ↔ i < point) :
    entries.reverse.find? early = if point = 0 then none else entries[point - 1]? := by
  have hdrop : (entries.drop point).reverse.find? early = none := by
    rw [List.find?_eq_none]
    intro e he
    obtain ⟨i, hi, rfl⟩ := List.getElem_of_mem (List.mem_reverse.mp he)
    rw [List.getElem_drop]
    rw [hpoint _ (by simp at hi; omega)]
    omega
  rw [← List.take_append_drop point entries, List.reverse_append, List.find?_append, hdrop,
    Option.none_or, List.take_append_drop]
  cases point with
  | zero => simp
  | succ k =>
    have hk : k < entries.length := hle
    rw [← List.take_append_getElem hk, List.reverse_append]
    simp [(hpoint k hk).mpr (Nat.lt_succ_self k), List.getElem?_eq_getElem hk]

/-- The binary search finds what the newest-first scan finds. -/
theorem newestWhere_eq (entries : List E)
    (hmono : entries.Pairwise fun a b => early b = true → early a = true) :
    newestWhere early entries = entries.reverse.find? early := by
  obtain ⟨point, hle, hpoint⟩ := exists_point entries hmono
  have hloop := searchLoop_eq entries hpoint entries.length 0 entries.length
    (by omega) (Nat.zero_le _) hle le_rfl
  simp only [newestWhere, hloop, find?_reverse_eq entries hle hpoint]

/-- On a chronicle the search for entries before a bound is the newest-first scan. -/
theorem Chronological.newestWhere_eq {time : E → ℕ} {now bound : ℕ} {entries : List E}
    (h : Chronological time now entries) :
    newestWhere (fun e => decide (time e < bound)) entries = newestBefore time bound entries := by
  refine Foundation.newestWhere_eq entries (h.ascending.imp ?_)
  intro a b hab hb
  simp only [decide_eq_true_eq] at hb ⊢
  omega

end Search

/-! ## Writing -/

section Write

variable {time : E → ℕ}

/-- The first entry is recorded alone. -/
@[simp] theorem record_nil (e : E) : record time [] e = [e] := rfl

/-- A new entry replaces the last one if it is of the same time, and comes after it otherwise. -/
theorem record_concat (entries : List E) (last e : E) :
    record time (entries ++ [last]) e =
      if time last = time e then entries ++ [e] else entries ++ [last] ++ [e] := by
  simp [record]

/-- The entry just recorded is the last one. -/
theorem getLast?_record (entries : List E) (e : E) :
    (record time entries e).getLast? = some e := by
  rcases List.eq_nil_or_concat entries with rfl | ⟨rest, last, rfl⟩
  · rfl
  · rw [List.concat_eq_append, record_concat]
    split <;> simp

/-- Readings before the time of a new entry do not see it, and all later ones do. -/
theorem newestBefore_record (bound : ℕ) (entries : List E) (e : E) :
    newestBefore time bound (record time entries e) =
      if time e < bound then some e else newestBefore time bound entries := by
  rcases List.eq_nil_or_concat entries with rfl | ⟨rest, last, rfl⟩
  · have h : newestBefore time bound ([] ++ [e]) = _ := newestBefore_concat [] e
    simpa using h
  · rw [List.concat_eq_append, record_concat]
    split <;> rename_i hsame
    · rw [newestBefore_concat, newestBefore_concat]
      split <;> rename_i h
      · rfl
      · rw [if_neg (by omega)]
    · rw [newestBefore_concat]

/-- A recorded history holds the old entries and the new one at most. -/
theorem mem_record {entries : List E} {e x : E} (h : x ∈ record time entries e) :
    x ∈ entries ∨ x = e := by
  rcases List.eq_nil_or_concat entries with rfl | ⟨rest, last, rfl⟩
  · simpa using h
  · rw [List.concat_eq_append, record_concat] at h
    rw [List.concat_eq_append]
    split at h <;> simp at h ⊢ <;> tauto

/-- An empty history is in order. -/
theorem Chronological.nil {now : ℕ} : Chronological time now ([] : List E) :=
  ⟨List.Pairwise.nil, by simp⟩

/-- A history in order stays so as time passes. -/
theorem Chronological.mono {now later : ℕ} {entries : List E}
    (h : Chronological time now entries) (hle : now ≤ later) : Chronological time later entries :=
  ⟨h.ascending, fun e he => (h.written e he).trans hle⟩

/-- Writing at the current time keeps a chronicle in order. -/
theorem Chronological.record {now : ℕ} {entries : List E} {e : E}
    (h : Chronological time (time e) entries) (hnow : time e = now) :
    Chronological time now (record time entries e) := by
  subst hnow
  refine ⟨?_, fun x hx => ?_⟩
  · rcases List.eq_nil_or_concat entries with rfl | ⟨rest, last, rfl⟩
    · simp
    · rw [List.concat_eq_append] at h ⊢
      have hasc := h.ascending
      have hlast := h.written last (by simp)
      rw [List.pairwise_append] at hasc
      rw [record_concat]
      split <;> rename_i hsame
      · rw [List.pairwise_append]
        refine ⟨hasc.1, by simp, fun a ha b hb => ?_⟩
        obtain rfl := List.mem_singleton.mp hb
        exact hsame ▸ hasc.2.2 a ha last (by simp)
      · rw [List.pairwise_append]
        refine ⟨h.ascending, by simp, fun a ha b hb => ?_⟩
        obtain rfl := List.mem_singleton.mp hb
        rcases List.mem_append.mp ha with ha | ha
        · have := hasc.2.2 a ha last (by simp)
          omega
        · obtain rfl := List.mem_singleton.mp ha
          omega
  · rcases mem_record hx with hx | rfl
    · exact h.written x hx
    · exact le_rfl

end Write

/-! ## Pruning -/

section Prune

variable {time : E → ℕ} {cutoff : ℕ}

/-- The entry before the end of the stale ones is stale. -/
theorem exists_stale (entries : List E) {k : ℕ} (h : k < staleCount time cutoff entries) :
    ∃ e rest, entries.drop k = e :: rest ∧ time e < cutoff := by
  induction entries generalizing k with
  | nil => simp [staleCount] at h
  | cons e rest ih =>
    unfold staleCount at h
    split at h <;> rename_i he
    · cases k with
      | zero => exact ⟨e, rest, rfl, he⟩
      | succ k => simpa using ih (by omega : k < staleCount time cutoff rest)
    · omega

/-- A pruned chronicle is an end piece of the old one, and starts with a stale entry if
anything was dropped. -/
theorem prune_eq_drop (time : E → ℕ) (cutoff : ℕ) (entries : List E) :
    ∃ k, prune time cutoff entries = entries.drop k ∧
      (k = 0 ∨ ∃ e rest, entries.drop k = e :: rest ∧ time e < cutoff) := by
  unfold prune
  split <;> rename_i h
  · exact ⟨_, rfl, .inr (exists_stale entries (by omega))⟩
  · exact ⟨0, by simp, .inl rfl⟩

/-- Nothing lies behind the cutoff 0. -/
theorem prune_zero (entries : List E) : prune time 0 entries = entries := by
  have hnone : staleCount time 0 entries = 0 := by
    cases entries with
    | nil => rfl
    | cons e rest => simp [staleCount]
  rw [prune, hnone, if_neg (by omega)]

/-- Pruning loses no reading from the cutoff on. -/
theorem newestBefore_prune (entries : List E) {bound : ℕ} (h : cutoff ≤ bound) :
    newestBefore time bound (prune time cutoff entries) = newestBefore time bound entries := by
  obtain ⟨k, hk, rfl | ⟨e, rest, hdrop, hstale⟩⟩ := prune_eq_drop time cutoff entries
  · simp [hk]
  · have hsome : (newestBefore time bound (entries.drop k)).isSome := by
      rw [hdrop]
      exact newestBefore_isSome List.mem_cons_self (by omega)
    conv_rhs => rw [← List.take_append_drop k entries, newestBefore_append]
    rw [hk, Option.or_of_isSome hsome]

/-- Pruning either keeps a reading or leaves nothing to read. -/
theorem newestBefore_prune_or (time : E → ℕ) (cutoff bound : ℕ) (entries : List E) :
    newestBefore time bound (prune time cutoff entries) = newestBefore time bound entries ∨
      newestBefore time bound (prune time cutoff entries) = none := by
  obtain ⟨k, hk, -⟩ := prune_eq_drop time cutoff entries
  rcases hread : newestBefore time bound (prune time cutoff entries) with _ | e
  · exact .inr rfl
  · left
    conv_rhs => rw [← List.take_append_drop k entries, newestBefore_append, ← hk, hread]
    rfl

/-- Pruning keeps the newest entry. -/
theorem getLast?_prune (entries : List E) :
    (prune time cutoff entries).getLast? = entries.getLast? := by
  obtain ⟨k, hk, rfl | ⟨e, rest, hdrop, -⟩⟩ := prune_eq_drop time cutoff entries
  · simp [hk]
  · have hlt : k < entries.length := by
      by_contra hge
      simp [List.drop_eq_nil_of_le (Nat.le_of_not_lt hge)] at hdrop
    rw [hk, List.getLast?_drop, if_neg (by omega)]

/-- Pruning leaves a history in order. -/
theorem Chronological.prune {now : ℕ} {entries : List E} (h : Chronological time now entries) :
    Chronological time now (prune time cutoff entries) := by
  obtain ⟨k, hk, -⟩ := prune_eq_drop time cutoff entries
  rw [hk]
  exact ⟨h.ascending.sublist (List.drop_sublist k entries),
    fun e he => h.written e (List.mem_of_mem_drop he)⟩

end Prune

/-! ## Many writes -/

section Writes

variable {time : E → ℕ} {cutoff : ℕ → ℕ}

/-- In ascending order there is at most one entry for each time. -/
theorem countP_le_one {entries : List E} (h : entries.Pairwise fun a b => time a < time b) (t : ℕ) :
    entries.countP (fun x => decide (time x = t)) ≤ 1 := by
  induction entries with
  | nil => simp
  | cons e rest ih =>
    rw [List.pairwise_cons] at h
    rw [List.countP_cons]
    by_cases he : time e = t
    · have hnone : rest.countP (fun x => decide (time x = t)) = 0 := by
        rw [List.countP_eq_zero]
        intro x hx
        have := h.1 x hx
        simp only [decide_eq_true_eq]
        omega
      simp [hnone, he]
    · simpa [he] using ih h.2

/-- One more write at the end of an ordered list of writes. -/
theorem recordAll_concat (entries writes : List E) (e : E) :
    recordAll time cutoff entries (writes ++ [e]) =
      prune time (cutoff (time e)) (record time (recordAll time cutoff entries writes) e) := by
  simp [recordAll]

/-- Writes in order keep the entries in order, up to the time of the latest one. -/
theorem Chronological.recordAll {entries : List E} {now : ℕ} (writes : List E)
    (hentries : entries.Pairwise fun a b => time a < time b)
    (hordered : (entries ++ writes).Pairwise fun a b => time a ≤ time b)
    (hnow : ∀ e ∈ entries ++ writes, time e ≤ now) :
    Chronological time now (recordAll time cutoff entries writes) := by
  induction writes using List.reverseRecOn generalizing now with
  | nil =>
    rw [List.append_nil] at hnow
    exact ⟨hentries, hnow⟩
  | append_singleton writes e ih =>
    rw [← List.append_assoc, List.pairwise_append] at hordered
    obtain ⟨hbefore, -, hlast⟩ := hordered
    have hwritten : Chronological time (time e) (Foundation.recordAll time cutoff entries writes) :=
      ih hbefore fun x hx => hlast x hx e (by simp)
    rw [recordAll_concat]
    exact (Chronological.mono (hwritten.record rfl) (hnow e (by simp))).prune

/-- After the last of the writes the entries can be searched and end in it. -/
theorem endsIn_recordAll {entries : List E} (writes : List E) (e : E)
    (hentries : entries.Pairwise fun a b => time a < time b)
    (hordered : (entries ++ (writes ++ [e])).Pairwise fun a b => time a ≤ time b) :
    EndsIn time (recordAll time cutoff entries (writes ++ [e])) e := by
  have hwritten := hordered
  rw [← List.append_assoc, List.pairwise_append] at hwritten
  have hchron : Chronological time (time e) (recordAll time cutoff entries (writes ++ [e])) := by
    refine .recordAll (writes ++ [e]) hentries hordered fun x hx => ?_
    rw [← List.append_assoc, List.mem_append, List.mem_singleton] at hx
    rcases hx with hx | rfl
    · exact hwritten.2.2 x hx e (by simp)
    · exact le_rfl
  have hnewest : (recordAll time cutoff entries (writes ++ [e])).getLast? = some e := by
    rw [recordAll_concat, getLast?_prune, getLast?_record]
  refine ⟨hchron.ascending, countP_le_one hchron.ascending, ?_, hnewest⟩
  rintro hnil
  rw [hnil] at hnewest
  contradiction

end Writes

end Foundation

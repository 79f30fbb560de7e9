import Mathlib.Algebra.BigOperators.Ring.Finset
import Mathlib.Algebra.Order.BigOperators.Group.Finset
import Mathlib.Data.Fintype.BigOperators

/-!
# Polls whose weights fall

A vote gives its weight to a choice. A voter who votes again first takes from the latest choice
what the new vote weighs, which may be less than what was given there. As long as the weight of a
voter never grows, nothing is taken that is not there, and all that a voter has given stays
within what the voter may give.
-/

namespace Foundation

/-- The latest choice of each voter, and what each voter has given to each choice. -/
structure Poll (A C : Type*) where
  latest : A → Option C
  share : A → C → ℤ

namespace Poll

variable {A C : Type*} {σ : Poll A C} {choices : Finset C} {cap weight : A → ℤ} {voter : A} {c : C}

/-- Nobody has voted. -/
def blank : Poll A C := ⟨fun _ => none, fun _ _ => 0⟩

/-- Nobody has given more than the cap, nor given less to the latest choice than the voter weighs
now. -/
structure Within (choices : Finset C) (cap weight : A → ℤ) (σ : Poll A C) : Prop where
  nonneg : ∀ v c, 0 ≤ σ.share v c
  absent : ∀ v, σ.latest v = none → ∀ c, σ.share v c = 0
  held : ∀ v c, σ.latest v = some c → weight v ≤ σ.share v c
  listed : ∀ v c, σ.latest v = some c → c ∈ choices
  capped : ∀ v, ∑ c ∈ choices, σ.share v c ≤ cap v

/-- A blank poll is within every cap that is not negative. -/
theorem Within.blank (hcap : ∀ v, 0 ≤ cap v) : (blank : Poll A C).Within choices cap weight where
  nonneg _ _ := le_rfl
  absent _ _ _ := rfl
  held _ _ h := by contradiction
  listed _ _ h := by contradiction
  capped v := (Finset.sum_eq_zero fun _ _ => rfl).trans_le (hcap v)

/-- The weights of those who have voted may fall. -/
theorem Within.of_le {weight' : A → ℤ} (h : σ.Within choices cap weight)
    (hfalls : ∀ v, σ.latest v ≠ none → weight' v ≤ weight v) : σ.Within choices cap weight' where
  nonneg := h.nonneg
  absent := h.absent
  held v c hlatest := (hfalls v (by rw [hlatest]; simp)).trans (h.held v c hlatest)
  listed := h.listed
  capped := h.capped

section Tallies

variable [Fintype A]

/-- Those who have voted. -/
def voters (σ : Poll A C) : Finset A := Finset.univ.filter fun v => (σ.latest v).isSome = true

/-- What a choice has been given. -/
def tally (σ : Poll A C) (c : C) : ℤ := ∑ v, σ.share v c

/-- No tally is negative. -/
theorem Within.tally_nonneg (h : σ.Within choices cap weight) (c : C) : 0 ≤ σ.tally c :=
  Finset.sum_nonneg fun v _ => h.nonneg v c

/-- What a voter takes back is there. -/
theorem Within.le_tally (h : σ.Within choices cap weight) (hlatest : σ.latest voter = some c) :
    weight voter ≤ σ.tally c :=
  (h.held voter c hlatest).trans
    (Finset.single_le_sum (f := fun v => σ.share v c) (fun v _ => h.nonneg v c)
      (Finset.mem_univ voter))

/-- All choices together have been given at most the caps of those who have voted. -/
theorem Within.sum_tally_le (h : σ.Within choices cap weight) :
    ∑ c ∈ choices, σ.tally c ≤ ∑ v ∈ σ.voters, cap v := by
  have hswap : ∑ c ∈ choices, σ.tally c = ∑ v, ∑ c ∈ choices, σ.share v c := Finset.sum_comm
  rw [hswap, voters, Finset.sum_filter]
  apply Finset.sum_le_sum
  intro v _
  split <;> rename_i hvoted
  · exact h.capped v
  · have hnone : σ.latest v = none := Option.not_isSome_iff_eq_none.mp hvoted
    exact (Finset.sum_eq_zero fun c _ => h.absent v hnone c).le

/-- No tally exceeds the caps of the voters. -/
theorem Within.tally_le (h : σ.Within choices cap weight) (hc : c ∈ choices) :
    σ.tally c ≤ ∑ v ∈ σ.voters, cap v :=
  (Finset.single_le_sum (f := σ.tally) (fun c _ => h.tally_nonneg c) hc).trans h.sum_tally_le

end Tallies

variable [DecidableEq A] [DecidableEq C]

/-- A vote takes its weight from the voter's latest choice and gives it to the new one. -/
def cast (σ : Poll A C) (voter : A) (choice : C) (weight : ℤ) : Poll A C where
  latest := Function.update σ.latest voter (some choice)
  share v c := σ.share v c + if v = voter then
    (if choice = c then weight else 0) - (if σ.latest voter = some c then weight else 0) else 0

/-- A cast moves its weight from the voter's latest choice to the new one. -/
theorem tally_cast [Fintype A] (voter : A) (choice c : C) (weight : ℤ) :
    (σ.cast voter choice weight).tally c = σ.tally c -
      (if σ.latest voter = some c then weight else 0) + if choice = c then weight else 0 := by
  simp only [tally, cast, Finset.sum_add_distrib, Finset.sum_ite_eq', Finset.mem_univ, if_true]
  omega

/-- A cast adds its voter. -/
theorem voters_cast [Fintype A] (voter : A) (choice : C) (weight : ℤ) :
    (σ.cast voter choice weight).voters = insert voter σ.voters := by
  ext v
  rw [voters, voters, Finset.mem_insert, Finset.mem_filter_univ, Finset.mem_filter_univ]
  by_cases hv : v = voter
  · subst hv
    simp [cast]
  · simp [cast, hv]

/-- The voter's own weight is moved, or given for the first time. -/
theorem Within.sum_share_cast (h : σ.Within choices cap weight) {choice : C}
    (hchoice : choice ∈ choices) (w : ℤ) :
    ∑ c ∈ choices, (σ.cast voter choice w).share voter c =
      if σ.latest voter = none then w else ∑ c ∈ choices, σ.share voter c := by
  simp only [cast, if_true, Finset.sum_add_distrib, Finset.sum_sub_distrib, Finset.sum_ite_eq,
    hchoice]
  cases hlatest : σ.latest voter with
  | none => simp [h.absent voter hlatest]
  | some previous => simp [h.listed voter previous hlatest]

/-- A vote that weighs what the voter weighs now keeps the caps. -/
theorem Within.cast (h : σ.Within choices cap weight) {choice : C} (hchoice : choice ∈ choices)
    (hnonneg : 0 ≤ weight voter) (hcap : weight voter ≤ cap voter) :
    (σ.cast voter choice (weight voter)).Within choices cap weight where
  nonneg v c := by
    have hshare := h.nonneg v c
    by_cases hv : v = voter
    · subst hv
      simp only [Poll.cast, if_true]
      by_cases hlatest : σ.latest v = some c
      · have hheld := h.held v c hlatest
        rw [if_pos hlatest]
        split <;> omega
      · rw [if_neg hlatest]
        split <;> omega
    · simpa [Poll.cast, hv] using hshare
  absent v hnone c := by
    have hv : v ≠ voter := by
      rintro rfl
      simp [Poll.cast] at hnone
    have hlatest : σ.latest v = none := by simpa [Poll.cast, hv] using hnone
    simp [Poll.cast, hv, h.absent v hlatest c]
  held v c hlatest := by
    by_cases hv : v = voter
    · subst hv
      obtain rfl : choice = c := by simpa [Poll.cast] using hlatest
      simp only [Poll.cast, if_true]
      by_cases hsame : σ.latest v = some choice
      · have hheld := h.held v choice hsame
        rw [if_pos hsame]
        omega
      · have hshare := h.nonneg v choice
        rw [if_neg hsame]
        omega
    · have hlatest : σ.latest v = some c := by simpa [Poll.cast, hv] using hlatest
      simpa [Poll.cast, hv] using h.held v c hlatest
  listed v c hlatest := by
    by_cases hv : v = voter
    · subst hv
      obtain rfl : choice = c := by simpa [Poll.cast] using hlatest
      exact hchoice
    · exact h.listed v c (by simpa [Poll.cast, hv] using hlatest)
  capped v := by
    by_cases hv : v = voter
    · subst hv
      rw [h.sum_share_cast hchoice]
      split
      · exact hcap
      · exact h.capped v
    · simpa [Poll.cast, hv] using h.capped v

end Poll

end Foundation

import Quorum.Foundation.Delegation

/-!
# Elections with a quorum

Voters of given weights cast ballots one after the other, and a voter's last ballot replaces the
earlier ones. The motion is carried if those who have voted weigh at least the quorum and the
choice in favour weighs strictly more than the choice against; any other choice only helps to
reach the quorum.

The decision depends on the last ballot of each voter alone, and a motion that is carried stays so
when voters turn to the choice in favour.
-/

namespace Foundation

variable {A C : Type*}

section Ballots

variable [DecidableEq A]

/-- The choice of a voter's last ballot. -/
def lastChoice (ballots : List (A × C)) (voter : A) : Option C :=
  (ballots.reverse.find? fun b => decide (b.1 = voter)).map Prod.snd

/-- Without ballots nobody has a choice. -/
@[simp] theorem lastChoice_nil (voter : A) : lastChoice ([] : List (A × C)) voter = none := rfl

/-- One more ballot is its voter's last choice. -/
theorem lastChoice_concat (ballots : List (A × C)) (b : A × C) (voter : A) :
    lastChoice (ballots ++ [b]) voter =
      if b.1 = voter then some b.2 else lastChoice ballots voter := by
  rw [lastChoice, List.reverse_append, List.reverse_singleton, List.singleton_append,
    List.find?_cons]
  by_cases hvoter : b.1 = voter
  · simp [hvoter]
  · simp [hvoter, lastChoice]

end Ballots

/-! ## Weights of several origins -/

section Origins

variable [Fintype A] [DecidableEq C] {choice : A → Option C} {weight weight' : A → ℤ}

/-- What is tallied of two weights adds up. -/
theorem tallied_add (c : C) :
    tallied choice (fun voter => weight voter + weight' voter) c =
      tallied choice weight c + tallied choice weight' c := by
  unfold tallied
  rw [← Finset.sum_add_distrib]
  apply Finset.sum_congr rfl
  intro voter _
  split
  · rfl
  · exact (add_zero 0).symm

/-- Greater weights tally to more. -/
theorem tallied_mono (h : ∀ voter, weight voter ≤ weight' voter) (c : C) :
    tallied choice weight c ≤ tallied choice weight' c := by
  apply Finset.sum_le_sum
  intro voter _
  split
  · exact h voter
  · exact le_rfl

/-- Weight that is delegated goes with the choice of the representative, and only with it. -/
theorem tallied_delegated [DecidableEq A] (rep : A → A) (c : C) :
    tallied choice (delegated rep weight) c = tallied (fun holder => choice (rep holder)) weight c :=
  sum_delegated_where rep weight fun voter => choice voter = some c

end Origins

/-- Who weighs what, what must be reached, and which two choices are compared. -/
@[ext] structure Election (A C : Type*) where
  weight : A → ℤ
  quorum : ℤ
  favour : C
  against : C

namespace Election

variable [Fintype A] {e : Election A C} {choice choice' : A → Option C}

/-- What those who have voted weigh. -/
def turnout (e : Election A C) (choice : A → Option C) : ℤ :=
  ∑ voter, if (choice voter).isSome = true then e.weight voter else 0

variable [DecidableEq C]

/-- The quorum is reached, and more weight is in favour than against. -/
structure Carried (e : Election A C) (choice : A → Option C) : Prop where
  quorum : e.quorum ≤ e.turnout choice
  majority : tallied choice e.weight e.against < tallied choice e.weight e.favour

/-- A choice gains no weight when voters turn from it to another one. -/
theorem tallied_le {weight : A → ℤ} (hweight : ∀ voter, 0 ≤ weight voter) {c : C}
    (h : ∀ voter, choice voter = some c → choice' voter = some c) :
    tallied choice weight c ≤ tallied choice' weight c := by
  apply Finset.sum_le_sum
  intro voter _
  by_cases hc : choice voter = some c
  · rw [if_pos hc, if_pos (h voter hc)]
  · rw [if_neg hc]
    split
    · exact hweight voter
    · exact le_rfl

omit [DecidableEq C] in
/-- With more voters the turnout is no less. -/
theorem turnout_le (hweight : ∀ voter, 0 ≤ e.weight voter)
    (h : ∀ voter, (choice voter).isSome = true → (choice' voter).isSome = true) :
    e.turnout choice ≤ e.turnout choice' := by
  apply Finset.sum_le_sum
  intro voter _
  by_cases hvoted : (choice voter).isSome = true
  · rw [if_pos hvoted, if_pos (h voter hvoted)]
  · rw [if_neg hvoted]
    split
    · exact hweight voter
    · exact le_rfl

/-- A ballot in favour, whether it is new or replaces another one, never costs a motion its
majority or its quorum. -/
theorem Carried.turned (h : e.Carried choice) (hweight : ∀ voter, 0 ≤ e.weight voter)
    (hsides : e.favour ≠ e.against)
    (hturned : ∀ voter, choice' voter = choice voter ∨ choice' voter = some e.favour) :
    e.Carried choice' where
  quorum := h.quorum.trans (turnout_le hweight fun voter hvoted => by
    rcases hturned voter with hsame | hfavour
    · rwa [hsame]
    · rw [hfavour, Option.isSome_some])
  majority := by
    have hagainst : tallied choice' e.weight e.against ≤ tallied choice e.weight e.against := by
      apply tallied_le hweight
      intro voter hc
      rcases hturned voter with hsame | hfavour
      · rwa [← hsame]
      · rw [hfavour, Option.some.injEq] at hc
        exact absurd hc hsides
    have hfavour : tallied choice e.weight e.favour ≤ tallied choice' e.weight e.favour := by
      apply tallied_le hweight
      intro voter hc
      rcases hturned voter with hsame | hfavour
      · rwa [hsame]
      · exact hfavour
    exact hagainst.trans_lt (h.majority.trans_le hfavour)

/-- When every choice in use is listed, the tallies add up to the turnout. -/
theorem sum_tallied_eq_turnout (choices : Finset C)
    (hlisted : ∀ voter c, choice voter = some c → c ∈ choices) :
    ∑ c ∈ choices, tallied choice e.weight c = e.turnout choice := by
  have hswap : ∑ c ∈ choices, tallied choice e.weight c =
      ∑ voter, ∑ c ∈ choices, if choice voter = some c then e.weight voter else 0 :=
    Finset.sum_comm
  rw [hswap]
  apply Finset.sum_congr rfl
  intro voter _
  cases hvoter : choice voter with
  | none => simp
  | some c =>
    have hmem := hlisted voter c hvoter
    simp [hmem]

end Election

end Foundation

import Mathlib.Data.List.Basic

/-!
# Loops in rounds

A loop goes through rounds, each in circumstances of its own, until one of them ends it. What every
round keeps holds as long as the loop goes on, and what a round ends with is what the loop ends
with. If every round that goes on uses something up, the loop ends after as many rounds.
-/

namespace Foundation

/-- What a round comes to: the loop goes on, or it is over. -/
inductive Turn (S R : Type) where
  | again (state : S)
  | finished (result : R)
deriving DecidableEq

namespace Turn

variable {S R W : Type} {round : S → W → Turn S R} {rounds : List W} {s : S}

/-- The rounds one after the other, until one of them ends the loop. -/
def loop (round : S → W → Turn S R) : S → List W → Turn S R
  | s, [] => .again s
  | s, w :: rest =>
    match round s w with
    | .again next => loop round next rest
    | .finished result => .finished result

/-- One condition on the state of a loop that goes on, and one on the result of a loop that is
over. -/
def Meets (goesOn : S → Prop) (ends : R → Prop) : Turn S R → Prop
  | .again state => goesOn state
  | .finished result => ends result

/-- What every round keeps, the loop keeps. -/
theorem loop_meets {goesOn : S → Prop} {ends : R → Prop}
    (hround : ∀ s w, w ∈ rounds → goesOn s → (round s w).Meets goesOn ends) (h : goesOn s) :
    (loop round s rounds).Meets goesOn ends := by
  induction rounds generalizing s with
  | nil => exact h
  | cons w rest ih =>
    have hfirst := hround s w List.mem_cons_self h
    rw [loop]
    cases hturn : round s w with
    | again next =>
      rw [hturn] at hfirst
      exact ih (fun s' w' hw' => hround s' w' (List.mem_cons_of_mem w hw')) hfirst
    | finished result =>
      rw [hturn] at hfirst
      exact hfirst

/-- What a loop that is over has come to. -/
theorem loop_ends (goesOn : S → Prop) {ends : R → Prop} {r : R}
    (hfinished : loop round s rounds = .finished r) (h : goesOn s)
    (hround : ∀ s w, w ∈ rounds → goesOn s → (round s w).Meets goesOn ends) : ends r := by
  have hmeets := loop_meets hround h
  rwa [hfinished] at hmeets

/-- A loop is over after more rounds than there is to use up. -/
theorem loop_finished (measure : S → ℕ)
    (hround : ∀ s w next, round s w = .again next → measure next < measure s)
    (hrounds : measure s < rounds.length) : ∃ result, loop round s rounds = .finished result := by
  induction rounds generalizing s with
  | nil => exact absurd hrounds (Nat.not_lt_zero _)
  | cons w rest ih =>
    rw [loop]
    cases hturn : round s w with
    | again next =>
      have hless := hround s w next hturn
      rw [List.length_cons] at hrounds
      exact ih (by omega)
    | finished result => exact ⟨result, rfl⟩

/-- A loop that is over has gone on in all rounds but the last one. -/
theorem exists_of_loop_finished {r : R} (hfinished : loop round s rounds = .finished r) :
    ∃ before w after state, rounds = before ++ w :: after ∧
      loop round s before = .again state ∧ round state w = .finished r := by
  induction rounds generalizing s with
  | nil => contradiction
  | cons w rest ih =>
    rw [loop] at hfinished
    cases hturn : round s w with
    | again next =>
      rw [hturn] at hfinished
      obtain ⟨before, last, after, state, rfl, hbefore, hlast⟩ := ih hfinished
      exact ⟨w :: before, last, after, state, rfl, by rw [loop, hturn]; exact hbefore, hlast⟩
    | finished result =>
      rw [hturn] at hfinished
      exact ⟨[], w, rest, s, rfl, rfl, hturn.trans hfinished⟩

/-- What is true of every round that goes on is true of all rounds of a loop that goes on. -/
theorem forall_of_loop_again {P : W → Prop} {state : S}
    (hround : ∀ s w next, round s w = .again next → P w)
    (hagain : loop round s rounds = .again state) : ∀ w ∈ rounds, P w := by
  induction rounds generalizing s with
  | nil => simp
  | cons w rest ih =>
    rw [loop] at hagain
    cases hturn : round s w with
    | again next =>
      rw [hturn] at hagain
      exact List.forall_mem_cons.mpr ⟨hround s w next hturn, ih hagain⟩
    | finished result =>
      rw [hturn] at hagain
      contradiction

end Turn

end Foundation

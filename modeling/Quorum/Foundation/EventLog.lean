import Mathlib.Data.List.Basic

/-!
# Logs that account for a view

A state publishes events to a log that only grows. A reader folds the log into a view of its own.
A step is accounted for when the events it appends take the view before it to the view after it;
a run of such steps lets the reader rebuild the view from the log alone.
-/

namespace Foundation

variable {E V : Type*} {apply : V → E → V} {log log₁ log₂ : List E} {v v₁ v₂ start : V}

/-- The view that a reader of a log arrives at. -/
def replay (apply : V → E → V) (start : V) (log : List E) : V := log.foldl apply start

/-- An empty log leads nowhere. -/
@[simp] theorem replay_nil : replay apply start [] = start := rfl

/-- The events appended to a log account for the change of the view. -/
def Accounts (apply : V → E → V) (log log' : List E) (v v' : V) : Prop :=
  ∃ events, log' = log ++ events ∧ replay apply v events = v'

namespace Accounts

/-- An unchanged log accounts for no change. -/
theorem refl (log : List E) (v : V) : Accounts apply log log v v := ⟨[], by simp⟩

/-- One more event accounts for what it does. -/
theorem one (event : E) (h : apply v event = v₁) : Accounts apply log (log ++ [event]) v v₁ :=
  ⟨[event], rfl, h⟩

/-- Two extensions in a row account for both changes. -/
theorem trans (h : Accounts apply log log₁ v v₁) (h' : Accounts apply log₁ log₂ v₁ v₂) :
    Accounts apply log log₂ v v₂ := by
  obtain ⟨events, rfl, rfl⟩ := h
  obtain ⟨events', rfl, rfl⟩ := h'
  exact ⟨events ++ events', List.append_assoc .., List.foldl_append⟩

/-- A reader who has arrived at the view before arrives at the view after. -/
theorem replay_eq (h : Accounts apply log log₁ v v₁) (hv : replay apply start log = v) :
    replay apply start log₁ = v₁ := by
  obtain ⟨events, rfl, rfl⟩ := h
  rw [replay, List.foldl_append]
  exact congrArg (replay apply · events) hv

end Accounts

end Foundation

import Mathlib.Data.List.Induction
import Quorum.Foundation.Clocked

/-!
# Stamps

A stamp of a clocked machine is a tick that some calls set to their own and that all others leave.
After a run it is the tick of the latest call that set it, so it is bounded below by every such
call and always comes from one of them.
-/

namespace Foundation

namespace Clocked

variable {S C : Type*}

/-- The calls for which `sets` holds set the stamp to their tick, and the others leave it. -/
structure Stamps (m : Clocked S C) (Inv : ℕ → S → Prop) (stamp : S → Option ℕ)
    (sets : C → S → Prop) : Prop where
  mono : ∀ t t' s, Inv t s → t ≤ t' → Inv t' s
  step : ∀ c s, Inv (m.time c) s → Inv (m.time c) (m.step c s)
  set : ∀ c s, Inv (m.time c) s → sets c s → stamp (m.step c s) = some (m.time c)
  kept : ∀ c s, Inv (m.time c) s → ¬ sets c s → stamp (m.step c s) = stamp s

namespace Stamps

variable {m : Clocked S C} {Inv : ℕ → S → Prop} {stamp : S → Option ℕ} {sets : C → S → Prop}
  {start now : ℕ} {s : S}

/-- The invariant holds after every run. -/
theorem inv_run {calls : List C} (h : m.Stamps Inv stamp sets) (hs : Inv start s)
    (hcalls : m.Scheduled start now calls) : Inv now (m.run s calls) :=
  m.run_invariant Inv h.mono h.step hs hcalls

/-- A stamp only moves forward. -/
theorem le_run {calls : List C} {t : ℕ} (h : m.Stamps Inv stamp sets) (hs : Inv start s)
    (hcalls : m.Scheduled start now calls) (hle : t ≤ start)
    (ht : ∃ t', stamp s = some t' ∧ t ≤ t') :
    ∃ t', stamp (m.run s calls) = some t' ∧ t ≤ t' := by
  induction calls generalizing start s with
  | nil => exact ht
  | cons c rest ih =>
    have hc := h.mono _ _ _ hs hcalls.1
    apply ih (h.step c s hc) hcalls.2 (hle.trans hcalls.1)
    by_cases hsets : sets c s
    · exact ⟨_, h.set c s hc hsets, hle.trans hcalls.1⟩
    · rw [h.kept c s hc hsets]
      exact ht

/-- Every call that set the stamp was made no later than it says. -/
theorem le_stamp {first later : List C} {c : C} (h : m.Stamps Inv stamp sets) (hs : Inv start s)
    (hcalls : m.Scheduled start now (first ++ c :: later)) (hsets : sets c (m.run s first)) :
    ∃ t, stamp (m.run s (first ++ c :: later)) = some t ∧ m.time c ≤ t := by
  obtain ⟨hfirst, hlater⟩ := hcalls.of_append
  have hc := h.inv_run hs hfirst
  rw [run_append, run_cons]
  exact h.le_run (h.step c _ hc) hlater le_rfl ⟨_, h.set c _ hc hsets, le_rfl⟩

/-- A stamp was set by a call made when it says. -/
theorem exists_of_stamp {calls : List C} {t : ℕ} (h : m.Stamps Inv stamp sets) (hs : Inv start s)
    (hnone : stamp s = none) (hcalls : m.Scheduled start now calls)
    (ht : stamp (m.run s calls) = some t) : ∃ first c later, calls = first ++ c :: later ∧
      sets c (m.run s first) ∧ m.time c = t := by
  induction calls using List.reverseRecOn generalizing now with
  | nil =>
    rw [run_nil, hnone] at ht
    contradiction
  | append_singleton calls c ih =>
    obtain ⟨hfirst, -⟩ := hcalls.of_append
    have hc := h.inv_run hs hfirst
    rw [run_append, run_cons, run_nil] at ht
    by_cases hsets : sets c (m.run s calls)
    · rw [h.set c _ hc hsets] at ht
      exact ⟨calls, c, [], rfl, hsets, Option.some.inj ht⟩
    · rw [h.kept c _ hc hsets] at ht
      obtain ⟨first, d, later, rfl, hd, htime⟩ := ih hfirst ht
      exact ⟨first, d, later ++ [c], by rw [List.append_assoc, List.cons_append], hd, htime⟩

end Stamps

end Clocked

end Foundation

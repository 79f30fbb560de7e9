import Quorum.Foundation.Clocked

/-!
# One clocked machine inside another

A machine follows another one when each of its steps, seen through a projection of its states,
is a number of calls of the other made at the same tick. Every run then projects to a run of
the other machine over the same span of time, and the states at each tick correspond, so what
holds of all runs of the inner machine holds of the projection.

A property that holds at the end of a run and not at its start has been brought about by one of
the calls, and one that every call keeps under a condition lasts through the runs that meet the
condition throughout.
-/

namespace Foundation

namespace Clocked

variable {S C S' C' : Type*} {m : Clocked S C} {m' : Clocked S' C'}

/-! ## Calls at one tick -/

variable (m) in
/-- Some calls made at the tick `now` lead from one state to the other. -/
def Advances (now : ℕ) (s s' : S) : Prop :=
  ∃ calls, (∀ c ∈ calls, m.time c = now) ∧ m.run s calls = s'

/-- No call leads from a state to itself. -/
theorem Advances.refl (now : ℕ) (s : S) : m.Advances now s s := ⟨[], by simp, rfl⟩

/-- One call leads from a state to the next. -/
theorem Advances.single (c : C) (s : S) : m.Advances (m.time c) s (m.step c s) :=
  ⟨[c], by simp, rfl⟩

/-- Runs of calls in one ledger go on one after the other. -/
theorem Advances.trans {now : ℕ} {s₁ s₂ s₃ : S} (h : m.Advances now s₁ s₂)
    (h' : m.Advances now s₂ s₃) : m.Advances now s₁ s₃ := by
  obtain ⟨first, hfirst, rfl⟩ := h
  obtain ⟨later, hlater, rfl⟩ := h'
  refine ⟨first ++ later, ?_, run_append _ _ _⟩
  intro c hc
  rcases List.mem_append.mp hc with hc | hc
  · exact hfirst c hc
  · exact hlater c hc

/-- Calls that are all made at one tick are scheduled there. -/
theorem Scheduled.of_forall {now : ℕ} {calls : List C} (h : ∀ c ∈ calls, m.time c = now) :
    m.Scheduled now now calls := by
  induction calls with
  | nil => exact le_rfl
  | cons c rest ih =>
    have hc := h c List.mem_cons_self
    refine ⟨hc.ge, ?_⟩
    rw [hc]
    exact ih fun d hd => h d (List.mem_cons_of_mem c hd)

/-- Calls before the bound come before all that follows. -/
theorem before_append_of_lt {bound : ℕ} {first later : List C}
    (h : ∀ c ∈ first, m.time c < bound) :
    m.before bound (first ++ later) = first ++ m.before bound later := by
  induction first with
  | nil => rfl
  | cons c rest ih =>
    rw [List.cons_append, before_cons_of_lt (h c List.mem_cons_self),
      ih fun d hd => h d (List.mem_cons_of_mem c hd), List.cons_append]

/-! ## Following -/

/-- Under the invariant every step of `m` projects to calls of `m'` at the same tick. -/
structure Follows (m : Clocked S C) (m' : Clocked S' C') (proj : S → S') (Inv : ℕ → S → Prop) :
    Prop where
  mono : ∀ t t' s, Inv t s → t ≤ t' → Inv t' s
  step : ∀ c s, Inv (m.time c) s → Inv (m.time c) (m.step c s)
  advances : ∀ c s, Inv (m.time c) s → m'.Advances (m.time c) (proj s) (proj (m.step c s))

/-- A run projects to a run, and so does each of its states before a tick. -/
theorem Follows.run {proj : S → S'} {Inv : ℕ → S → Prop} (h : Follows m m' proj Inv)
    {start now : ℕ} {s : S} {calls : List C} (hs : Inv start s)
    (hcalls : m.Scheduled start now calls) :
    ∃ calls', m'.Scheduled start now calls' ∧
      proj (m.run s calls) = m'.run (proj s) calls' ∧
      ∀ bound, proj (m.stateBefore s calls bound) = m'.stateBefore (proj s) calls' bound := by
  induction calls generalizing start s with
  | nil => exact ⟨[], hcalls, rfl, fun bound => rfl⟩
  | cons c rest ih =>
    have hc := h.mono _ _ _ hs hcalls.1
    obtain ⟨first, hfirst, hstep⟩ := h.advances c s hc
    obtain ⟨later, hlater, hrun, hbefore⟩ := ih (h.step c s hc) hcalls.2
    have hsched : m'.Scheduled start (m.time c) first := by
      cases first with
      | nil => exact hcalls.1
      | cons d others =>
        have hall := Scheduled.of_forall hfirst
        exact ⟨hcalls.1.trans hall.1, hall.2⟩
    refine ⟨first ++ later, hsched.append hlater, ?_, fun bound => ?_⟩
    · rw [run_cons, hrun, run_append, hstep]
    · rcases Nat.lt_or_ge (m.time c) bound with hlt | hge
      · rw [stateBefore, before_cons_of_lt hlt, stateBefore,
          before_append_of_lt fun d hd => (hfirst d hd).trans_lt hlt, run_append, hstep]
        exact hbefore bound
      · have hnone : m'.before bound (first ++ later) = [] := by
          have hall : m'.Scheduled (m.time c) now (first ++ later) :=
            (Scheduled.of_forall hfirst).append hlater
          exact hall.before_eq_nil hge
        rw [stateBefore, before_cons_of_le hge, stateBefore, hnone]
        rfl

/-! ## What a run has brought about -/

/-- A property that a run brings about is brought about by one of its calls. -/
theorem exists_step_of_run {P : S → Prop} {s : S} {calls : List C} (hstart : ¬ P s)
    (hend : P (m.run s calls)) :
    ∃ first c later, calls = first ++ c :: later ∧ ¬ P (m.run s first) ∧
      P (m.step c (m.run s first)) := by
  induction calls generalizing s with
  | nil => exact absurd hend hstart
  | cons c rest ih =>
    by_cases hstep : P (m.step c s)
    · exact ⟨[], c, rest, rfl, hstart, hstep⟩
    · obtain ⟨first, d, later, rfl, hbefore, hafter⟩ := ih hstep hend
      exact ⟨c :: first, d, later, rfl, hbefore, hafter⟩

/-- Every call of a list meets a condition on the calls made before it. -/
def Throughout (condition : List C → C → Prop) (past : List C) : List C → Prop
  | [] => True
  | c :: rest => condition past c ∧ Throughout condition (past ++ [c]) rest

variable (m) in
/-- What every call that meets a condition preserves holds after the runs that meet it
throughout. -/
theorem invariant_of_throughout (condition : List C → C → Prop) (Inv : ℕ → List C → Prop)
    (hmono : ∀ t t' past, Inv t past → t ≤ t' → Inv t' past)
    (hstep : ∀ c past, condition past c → Inv (m.time c) past → Inv (m.time c) (past ++ [c]))
    {start now : ℕ} {past calls : List C} (hpast : Inv start past)
    (h : m.Scheduled start now calls) (hcondition : Throughout condition past calls) :
    Inv now (past ++ calls) := by
  induction calls generalizing start past with
  | nil =>
    rw [List.append_nil]
    exact hmono _ _ _ hpast h
  | cons c rest ih =>
    have hc := hstep c past hcondition.1 (hmono _ _ _ hpast h.1)
    rw [List.append_cons]
    exact ih hc h.2 hcondition.2

variable (m) in
/-- Two conditions that say the same where an invariant holds are met by the same runs. -/
theorem throughout_iff {P Q : List C → C → Prop} (Inv : ℕ → List C → Prop)
    (hmono : ∀ t t' past, Inv t past → t ≤ t' → Inv t' past)
    (hiff : ∀ c past, Inv (m.time c) past → (P past c ↔ Q past c))
    (hstep : ∀ c past, P past c → Inv (m.time c) past → Inv (m.time c) (past ++ [c]))
    {start now : ℕ} {past calls : List C} (hpast : Inv start past)
    (h : m.Scheduled start now calls) : Throughout P past calls ↔ Throughout Q past calls := by
  induction calls generalizing start past with
  | nil => exact Iff.rfl
  | cons c rest ih =>
    have hc := hmono _ _ _ hpast h.1
    constructor
    · rintro ⟨hfirst, hrest⟩
      exact ⟨(hiff c past hc).mp hfirst, (ih (hstep c past hfirst hc) h.2).mp hrest⟩
    · rintro ⟨hfirst, hrest⟩
      have hfirst := (hiff c past hc).mpr hfirst
      exact ⟨hfirst, (ih (hstep c past hfirst hc) h.2).mpr hrest⟩

end Clocked

end Foundation

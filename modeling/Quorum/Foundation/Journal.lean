import Mathlib.Logic.Relation
import Quorum.Foundation.Chronicle
import Quorum.Foundation.Clocked

/-!
# Histories kept by a clocked machine

A machine keeps a history when every call only records entries of its own time in it, and
prunes only what lies behind a cutoff. Looking up a time that is over then gives the entry that
was the newest when that time ended; once the cutoff has moved past it, it may also give
nothing, but never another entry.
-/

namespace Foundation

section Journal

variable {E : Type*} {time : E → ℕ} {cutoff now bound : ℕ} {entries entries' : List E}

/-- One write at the time `now`: an entry is recorded and what is out of date is pruned. -/
def Entered (time : E → ℕ) (cutoff now : ℕ) (entries entries' : List E) : Prop :=
  ∃ e, time e = now ∧ entries' = prune time cutoff (record time entries e)

/-- Any number of writes at the time `now`. -/
abbrev Journaled (time : E → ℕ) (cutoff now : ℕ) : List E → List E → Prop :=
  Relation.ReflTransGen (Entered time cutoff now)

/-- Writes at a later time leave a lookup alone that the cutoff has not reached. -/
theorem Journaled.newestBefore_eq (h : Journaled time cutoff now entries entries')
    (hbound : bound ≤ now) (hcutoff : cutoff ≤ bound) :
    newestBefore time bound entries' = newestBefore time bound entries := by
  induction h with
  | refl => rfl
  | tail _ hlast ih =>
    obtain ⟨e, htime, rfl⟩ := hlast
    rw [newestBefore_prune _ hcutoff, newestBefore_record, if_neg (by omega), ih]

/-- Writes at a later time leave a lookup alone or leave nothing to find. -/
theorem Journaled.newestBefore_or (h : Journaled time cutoff now entries entries')
    (hbound : bound ≤ now) :
    newestBefore time bound entries' = newestBefore time bound entries ∨
      newestBefore time bound entries' = none := by
  induction h with
  | refl => exact .inl rfl
  | tail _ hlast ih =>
    obtain ⟨e, htime, rfl⟩ := hlast
    rcases newestBefore_prune_or time cutoff bound (record time _ e) with hprune | hprune
    · rw [hprune, newestBefore_record, if_neg (by omega)]
      exact ih
    · exact .inr hprune

end Journal

section Keeps

variable {S C E : Type*} {m : Clocked S C} {Inv : ℕ → S → Prop} {time : E → ℕ}
  {cutoff : ℕ → ℕ} {history : S → List E}

/-- Under the invariant the machine keeps a history, with the cutoff given for each time. -/
structure Keeps (m : Clocked S C) (Inv : ℕ → S → Prop) (time : E → ℕ) (cutoff : ℕ → ℕ)
    (history : S → List E) : Prop where
  mono : ∀ t t' s, Inv t s → t ≤ t' → Inv t' s
  step : ∀ c s, Inv (m.time c) s → Inv (m.time c) (m.step c s)
  chronological : ∀ t s, Inv t s → Chronological time t (history s)
  journaled : ∀ c s, Inv (m.time c) s →
    Journaled time (cutoff (m.time c)) (m.time c) (history s) (history (m.step c s))

namespace Keeps

variable {start now bound : ℕ} {s : S} {calls : List C}

/-- What a lookup of a time gives when the time is over: the newest entry then, or for a time
that was over from the start what the lookup gave at the start. -/
def closing (m : Clocked S C) (time : E → ℕ) (history : S → List E) (start bound : ℕ) (s : S)
    (calls : List C) : Option E :=
  if bound ≤ start then newestBefore time bound (history s)
  else (history (m.stateBefore s calls bound)).getLast?

/-- Before a bound that is ahead the newest entry is the last one. -/
theorem newestBefore_present (h : Keeps m Inv time cutoff history) {t : ℕ} (hs : Inv t s)
    (hbound : t < bound) : newestBefore time bound (history s) = (history s).getLast? :=
  newestBefore_eq_getLast? fun e he =>
    Nat.lt_of_le_of_lt ((h.chronological t s hs).written e he) hbound

/-- As long as no cutoff has moved past the bound, a lookup gives the closing entry. -/
theorem run_eq (h : Keeps m Inv time cutoff history) (hs : Inv start s)
    (hcalls : m.Scheduled start now calls) (hcutoff : ∀ t ≤ now, cutoff t ≤ bound) :
    newestBefore time bound (history (m.run s calls)) =
      closing m time history start bound s calls := by
  have hrecords : m.Records Inv bound now Eq (fun s => newestBefore time bound (history s))
      (fun s => (history s).getLast?) :=
    { refl := fun v => rfl
      trans := fun u v w hv hw => hv.trans hw
      past := fun c s hc hbound hnow =>
        ((h.journaled c s hc).newestBefore_eq hbound (hcutoff _ hnow)).symm
      present := fun t s ht hbound => h.newestBefore_present ht hbound }
  exact (hrecords.run h.mono h.step hs hcalls).symm

/-- Without any assumption on the cutoff, a lookup gives the closing entry or nothing. -/
theorem run_or (h : Keeps m Inv time cutoff history) (hs : Inv start s)
    (hcalls : m.Scheduled start now calls) (bound : ℕ) :
    newestBefore time bound (history (m.run s calls)) =
        closing m time history start bound s calls ∨
      newestBefore time bound (history (m.run s calls)) = none := by
  have hrecords : m.Records Inv bound now (fun v w => w = v ∨ w = none)
      (fun s => newestBefore time bound (history s)) (fun s => (history s).getLast?) :=
    { refl := fun v => .inl rfl
      trans := by
        rintro u v w hv (rfl | rfl)
        · exact hv
        · exact .inr rfl
      past := fun c s hc hbound _ => (h.journaled c s hc).newestBefore_or hbound
      present := fun t s ht hbound => h.newestBefore_present ht hbound }
  exact hrecords.run h.mono h.step hs hcalls

/-- A lookup gives the closing entry as long as the stored history reaches back that far, and
nothing after that. -/
theorem run_eq_ite (h : Keeps m Inv time cutoff history) (hs : Inv start s)
    (hcalls : m.Scheduled start now calls) (bound : ℕ) :
    newestBefore time bound (history (m.run s calls)) =
      if reachesBack time bound (history (m.run s calls)) = true then
        closing m time history start bound s calls
      else none := by
  split <;> rename_i hreach
  · have hsome : newestBefore time bound (history (m.run s calls)) ≠ none := by
      rw [ne_eq, newestBefore_eq_none_iff, hreach]
      exact Bool.noConfusion
    exact (h.run_or hs hcalls bound).resolve_right hsome
  · exact newestBefore_eq_none_iff.mpr (Bool.not_eq_true _ ▸ hreach)

/-- A stored history never comes to reach back further than it did. -/
theorem reachesBack_run (h : Keeps m Inv time cutoff history) (hs : Inv start s)
    (hcalls : m.Scheduled start now calls) (hbound : bound ≤ start)
    (hreach : reachesBack time bound (history (m.run s calls)) = true) :
    reachesBack time bound (history s) = true := by
  by_contra hlost
  have hnone : newestBefore time bound (history s) = none :=
    newestBefore_eq_none_iff.mpr (Bool.not_eq_true _ ▸ hlost)
  have hrun : newestBefore time bound (history (m.run s calls)) = none := by
    rcases h.run_or hs hcalls bound with hclosing | hgone
    · rw [hclosing, closing, if_pos hbound, hnone]
    · exact hgone
  rw [newestBefore_eq_none_iff, hreach] at hrun
  contradiction

end Keeps

end Keeps

end Foundation

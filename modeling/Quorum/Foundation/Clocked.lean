import Mathlib.Data.List.Basic
import Mathlib.Data.List.TakeWhile
import Mathlib.Data.Nat.Basic
import Mathlib.Order.Basic
import Mathlib.Tactic.Common

/-!
# Clocked machines and what they record

A clocked machine takes calls, each made at a tick of a clock that never runs backwards. A
run is a list of calls scheduled between two ticks. The state before a tick is the one that
the calls made strictly earlier lead to.

`Records` says that a stored reading of one fixed tick is written correctly by every single
call. `Records.run` draws the conclusion for whole runs: once the tick is over, the reading
is the live value of the state that the earlier calls led to, whatever came later.
-/

namespace Foundation

/-- A call of a list that ends with `x` is that last one, or one of the calls before it. -/
theorem snoc_eq_append_cons {α : Type*} {calls first later : List α} {x c : α}
    (h : calls ++ [x] = first ++ c :: later) :
    (first = calls ∧ c = x) ∨ ∃ before, calls = first ++ c :: before := by
  rcases List.eq_nil_or_concat later with rfl | ⟨before, last, rfl⟩
  · obtain ⟨rfl, hlast⟩ := List.append_inj' h rfl
    exact .inl ⟨rfl, (List.singleton_inj.mp hlast).symm⟩
  · rw [List.concat_eq_append, ← List.cons_append, ← List.append_assoc] at h
    exact .inr ⟨before, (List.append_inj' h rfl).1⟩

/-- A machine whose calls carry the tick at which they are made. -/
structure Clocked (S C : Type*) where
  time : C → ℕ
  step : C → S → S

namespace Clocked

variable {S C V : Type*} (m : Clocked S C)

/-- The state after a list of calls. -/
def run (s : S) (calls : List C) : S := calls.foldl (fun s c => m.step c s) s

/-- The calls are made in order of time, from `start` up to `now`. -/
def Scheduled (start now : ℕ) : List C → Prop
  | [] => start ≤ now
  | c :: rest => start ≤ m.time c ∧ Scheduled (m.time c) now rest

instance Scheduled.decidable : ∀ (start now : ℕ) (calls : List C),
    Decidable (m.Scheduled start now calls)
  | start, now, [] => inferInstanceAs (Decidable (start ≤ now))
  | start, now, c :: rest =>
    have := Scheduled.decidable (m.time c) now rest
    inferInstanceAs (Decidable (start ≤ m.time c ∧ m.Scheduled (m.time c) now rest))

/-- The calls of a run that are made strictly before the bound. -/
def before (bound : ℕ) (calls : List C) : List C :=
  calls.takeWhile fun c => decide (m.time c < bound)

/-- The state that the calls made strictly before the bound lead to. -/
def stateBefore (s : S) (calls : List C) (bound : ℕ) : S := m.run s (m.before bound calls)

variable {m}

/-- An empty run leaves the state. -/
@[simp] theorem run_nil (s : S) : m.run s [] = s := rfl

/-- A run makes its first step and goes on from there. -/
@[simp] theorem run_cons (s : S) (c : C) (rest : List C) :
    m.run s (c :: rest) = m.run (m.step c s) rest := rfl

/-- A run of two parts goes on from where the first ends. -/
theorem run_append (s : S) (first later : List C) :
    m.run s (first ++ later) = m.run (m.run s first) later := List.foldl_append

/-- A schedule does not end before it starts. -/
theorem Scheduled.le {start now : ℕ} {calls : List C} (h : m.Scheduled start now calls) :
    start ≤ now := by
  induction calls generalizing start with
  | nil => exact h
  | cons c rest ih => exact h.1.trans (ih h.2)

/-- A schedule may end later than its last call. -/
theorem Scheduled.extend {start now later : ℕ} {calls : List C}
    (h : m.Scheduled start now calls) (hle : now ≤ later) : m.Scheduled start later calls := by
  induction calls generalizing start with
  | nil => exact h.trans hle
  | cons c rest ih => exact ⟨h.1, ih h.2⟩

/-- Every call of a schedule lies between its start and its end. -/
theorem Scheduled.mem {start now : ℕ} {calls : List C} (h : m.Scheduled start now calls)
    {c : C} (hc : c ∈ calls) : start ≤ m.time c ∧ m.time c ≤ now := by
  induction calls generalizing start with
  | nil => simp at hc
  | cons d rest ih =>
    rcases List.mem_cons.mp hc with rfl | hc
    · exact ⟨h.1, h.2.le⟩
    · exact ⟨h.1.trans (ih h.2 hc).1, (ih h.2 hc).2⟩

/-- Schedules compose at any tick between them. -/
theorem Scheduled.append {start mid now : ℕ} {first later : List C}
    (hfirst : m.Scheduled start mid first) (hlater : m.Scheduled mid now later) :
    m.Scheduled start now (first ++ later) := by
  induction first generalizing start with
  | nil =>
    cases later with
    | nil => exact hfirst.trans hlater
    | cons c rest => exact ⟨hfirst.trans hlater.1, hlater.2⟩
  | cons c rest ih => exact ⟨hfirst.1, ih hfirst.2⟩

/-- The first part of a schedule is over when the first later call is made. -/
theorem Scheduled.of_append {start now : ℕ} {first : List C} {c : C} {later : List C}
    (h : m.Scheduled start now (first ++ c :: later)) :
    m.Scheduled start (m.time c) first ∧ m.Scheduled (m.time c) now later := by
  induction first generalizing start with
  | nil => exact h
  | cons d rest ih => exact ⟨⟨h.1, (ih h.2).1⟩, (ih h.2).2⟩

/-- A schedule can be divided everywhere. -/
theorem Scheduled.split {start now : ℕ} {first later : List C}
    (h : m.Scheduled start now (first ++ later)) :
    ∃ mid, m.Scheduled start mid first ∧ m.Scheduled mid now later := by
  cases later with
  | nil =>
    rw [List.append_nil] at h
    exact ⟨now, h, le_rfl⟩
  | cons c rest =>
    obtain ⟨hfirst, hrest⟩ := h.of_append
    exact ⟨m.time c, hfirst, le_rfl, hrest⟩

variable (m) in
/-- An invariant of single calls is an invariant of runs. -/
theorem run_invariant (Inv : ℕ → S → Prop)
    (hmono : ∀ t t' s, Inv t s → t ≤ t' → Inv t' s)
    (hstep : ∀ c s, Inv (m.time c) s → Inv (m.time c) (m.step c s))
    {start now : ℕ} {calls : List C} {s : S} (hs : Inv start s)
    (h : m.Scheduled start now calls) : Inv now (m.run s calls) := by
  induction calls generalizing start s with
  | nil => exact hmono _ _ _ hs h
  | cons c rest ih => exact ih (hstep c s (hmono _ _ _ hs h.1)) h.2

/-- All calls of a run that ends before the bound are made before it. -/
theorem before_eq_self {bound : ℕ} {calls : List C} (h : ∀ c ∈ calls, m.time c < bound) :
    m.before bound calls = calls := by
  induction calls with
  | nil => rfl
  | cons c rest ih =>
    have hrest := ih fun d hd => h d (List.mem_cons_of_mem c hd)
    simpa [before, h c List.mem_cons_self] using hrest

/-- A first call before the bound is kept. -/
theorem before_cons_of_lt {bound : ℕ} {c : C} {rest : List C} (h : m.time c < bound) :
    m.before bound (c :: rest) = c :: m.before bound rest := by
  simp [before, h]

/-- From a first call at the bound on nothing is kept. -/
theorem before_cons_of_le {bound : ℕ} {c : C} {rest : List C} (h : bound ≤ m.time c) :
    m.before bound (c :: rest) = [] := by
  simp [before, Nat.not_lt.mpr h]

/-- Between two bounds lie the calls made from the first on and before the second. -/
theorem exists_before_append {bound later : ℕ} (hle : bound ≤ later) (calls : List C) :
    ∃ between, m.before later calls = m.before bound calls ++ between ∧
      ∀ c ∈ between, m.time c < later := by
  induction calls with
  | nil => exact ⟨[], rfl, by simp⟩
  | cons c rest ih =>
    rcases Nat.lt_or_ge (m.time c) bound with hlt | hge
    · obtain ⟨between, heq, hbetween⟩ := ih
      refine ⟨between, ?_, hbetween⟩
      rw [before_cons_of_lt hlt, before_cons_of_lt (hlt.trans_le hle), heq, List.cons_append]
    · refine ⟨m.before later (c :: rest), ?_, fun d hd => ?_⟩
      · rw [before_cons_of_le hge, List.nil_append]
      · simpa using List.mem_takeWhile_imp hd

/-- The calls made before a bound are over by then. -/
theorem Scheduled.before {start now last bound : ℕ} {calls : List C}
    (h : m.Scheduled start now calls) (hstart : start ≤ last) (hbound : bound ≤ last + 1) :
    m.Scheduled start last (m.before bound calls) := by
  induction calls generalizing start with
  | nil => exact hstart
  | cons c rest ih =>
    rcases Nat.lt_or_ge (m.time c) bound with hlt | hge
    · rw [before_cons_of_lt hlt]
      exact ⟨h.1, ih h.2 (by omega)⟩
    · rw [before_cons_of_le hge]
      exact hstart

/-- No call of a run is made before a bound that the start has reached. -/
theorem Scheduled.before_eq_nil {start now bound : ℕ} {calls : List C}
    (h : m.Scheduled start now calls) (hbound : bound ≤ start) : m.before bound calls = [] := by
  cases calls with
  | nil => rfl
  | cons c rest => exact before_cons_of_le (hbound.trans h.1)

/-- Calls made from the bound on do not change which calls came before it. -/
theorem before_append {bound : ℕ} {first later : List C}
    (h : ∀ c ∈ later, bound ≤ m.time c) : m.before bound (first ++ later) = m.before bound first := by
  induction first with
  | nil =>
    cases later with
    | nil => rfl
    | cons c rest => rw [List.nil_append, before_cons_of_le (h c (by simp))]; rfl
  | cons d rest ih =>
    rcases Nat.lt_or_ge (m.time d) bound with hd | hd
    · rw [List.cons_append, before_cons_of_lt hd, before_cons_of_lt hd, ih]
    · rw [List.cons_append, before_cons_of_le hd, before_cons_of_le hd]

/-- Calls made from a tick on do not change the state before it. -/
theorem Scheduled.stateBefore_append {now later bound : ℕ} {more : List C}
    (hmore : m.Scheduled now later more) (hbound : bound ≤ now) (s : S) (calls : List C) :
    m.stateBefore s (calls ++ more) bound = m.stateBefore s calls bound := by
  rw [stateBefore, before_append fun c hc => hbound.trans (hmore.mem hc).1, stateBefore]

variable (m) in
/-- Every call made from the bound on, and not after `now`, keeps the stored reading up to
`rel`; and while the bound lies ahead, the reading is the live value. -/
structure Records (Inv : ℕ → S → Prop) (bound now : ℕ) (rel : V → V → Prop)
    (reading live : S → V) : Prop where
  refl : ∀ v, rel v v
  trans : ∀ u v w, rel u v → rel v w → rel u w
  past : ∀ c s, Inv (m.time c) s → bound ≤ m.time c → m.time c ≤ now →
    rel (reading s) (reading (m.step c s))
  present : ∀ t s, Inv t s → t < bound → reading s = live s

/-- The reading of a tick that is over is the live value of the state before the bound; a
tick that was over from the start keeps its first reading. -/
theorem Records.run {Inv : ℕ → S → Prop} {bound now : ℕ} {rel : V → V → Prop}
    {reading live : S → V} (h : m.Records Inv bound now rel reading live)
    (hmono : ∀ t t' s, Inv t s → t ≤ t' → Inv t' s)
    (hstep : ∀ c s, Inv (m.time c) s → Inv (m.time c) (m.step c s))
    {start : ℕ} {calls : List C} {s : S} (hs : Inv start s) (hcalls : m.Scheduled start now calls) :
    rel (if bound ≤ start then reading s else live (m.stateBefore s calls bound))
      (reading (m.run s calls)) := by
  induction calls generalizing start s with
  | nil =>
    split <;> rename_i hbound
    · exact h.refl _
    · rw [run_nil, h.present start s hs (by omega)]
      exact h.refl _
  | cons c rest ih =>
    have hc := hmono _ _ _ hs hcalls.1
    have hrec := ih (hstep c s hc) hcalls.2
    have hle := hcalls.1
    have hnow := hcalls.2.le
    split <;> rename_i hbound
    · rw [if_pos (by omega)] at hrec
      exact h.trans _ _ _ (h.past c s hc (by omega) hnow) hrec
    · rcases Nat.lt_or_ge (m.time c) bound with hlt | hge
      · rw [if_neg (by omega)] at hrec
        rw [stateBefore, before_cons_of_lt hlt]
        exact hrec
      · rw [if_pos hge] at hrec
        rw [stateBefore, before_cons_of_le hge, run_nil, ← h.present start s hs (by omega)]
        exact h.trans _ _ _ (h.past c s hc hge hnow) hrec

end Clocked

end Foundation

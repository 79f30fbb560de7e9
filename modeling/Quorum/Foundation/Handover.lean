import Mathlib.Data.List.Induction
import Quorum.Foundation.Clocked

/-!
# Handing a role over in two moves

A role has a holder, who may offer it to a candidate and withdraw the offer; the candidate of the
offer that is open may take the role. `Handover` says that every call of a machine makes one of
these moves, with the authorization of the party whose move it is, or leaves the role and the offer
alone.

In a run that starts without an offer, whoever takes the role was offered it by the holder of whom
it is taken, and nothing but idle calls has come since.
-/

namespace Foundation

/-- What a call does to a role and to the offer of it. -/
inductive Move (A : Type*) where
  | offered (candidate : A)
  | withdrawn
  | taken
  | idle
deriving DecidableEq

variable {S C A : Type*}

/-- A move with the holder and the offer before and after it. Offers and withdrawals are up to the
holder, and taking the role is up to the candidate. As long as there is no holder, an idle call may
assign one. -/
inductive Move.Makes (authorizes : A → Prop) (holder offer : Option A) :
    Move A → Option A → Option A → Prop
  | offered {a candidate : A} (hholder : holder = some a) (hauth : authorizes a) :
      Makes authorizes holder offer (.offered candidate) holder (some candidate)
  | withdrawn {a : A} (hholder : holder = some a) (hauth : authorizes a) :
      Makes authorizes holder offer .withdrawn holder none
  | taken {a : A} (hoffer : offer = some a) (hauth : authorizes a) :
      Makes authorizes holder offer .taken (some a) none
  | idle {holder' : Option A} (hkept : ∀ a, holder = some a → holder' = some a) :
      Makes authorizes holder offer .idle holder' offer

/-- A call that leaves the offer and an existing holder alone is idle. -/
theorem Move.makes_idle {authorizes : A → Prop} {holder offer holder' offer' : Option A}
    (hoffer : offer' = offer) (hkept : ∀ a, holder = some a → holder' = some a) :
    Move.Makes authorizes holder offer .idle holder' offer' := by
  subst hoffer
  exact .idle hkept

variable {m : Clocked S C} {move : C → S → Move A} {authorizes : C → A → Prop}
  {holder offer : S → Option A}

variable (m move authorizes holder offer) in
/-- Every call makes the move that it is said to make. -/
def Handover : Prop :=
  ∀ c s, Move.Makes (authorizes c) (holder s) (offer s) (move c s) (holder (m.step c s))
    (offer (m.step c s))

variable (m move) in
/-- All calls of a run are idle. -/
def Idle (s : S) (calls : List C) : Prop :=
  ∀ first c later, calls = first ++ c :: later → move c (m.run s first) = .idle

/-- An empty run is idle. -/
theorem Idle.nil (s : S) : Idle m move s [] := by
  intro first c later h
  simp at h

/-- One more idle call leaves the run idle. -/
theorem Idle.snoc {s : S} {calls : List C} {c : C} (h : Idle m move s calls)
    (hc : move c (m.run s calls) = .idle) : Idle m move s (calls ++ [c]) := by
  intro first d later heq
  rcases snoc_eq_append_cons heq with ⟨rfl, rfl⟩ | ⟨before, rfl⟩
  · exact hc
  · exact h first d before rfl

variable (m move authorizes holder) in
/-- The call `c` of a run offered the role to the candidate with the authorization of its holder,
who is still the holder after the later calls, all of them idle. -/
structure Offers (s : S) (first : List C) (c : C) (later : List C) (candidate : A) : Prop where
  offered : move c (m.run s first) = .offered candidate
  authorized : ∃ a, holder (m.run s first) = some a ∧ authorizes c a ∧
    holder (m.run s (first ++ c :: later)) = some a
  idle : Idle m move (m.run s (first ++ [c])) later

namespace Handover

variable (h : Handover m move authorizes holder offer)

include h

/-- The role changes hands only where it is taken. -/
theorem taken_of_ne {c : C} {s : S} {a : A} (hs : holder s = some a)
    (hne : holder (m.step c s) ≠ some a) : move c s = .taken := by
  have hmakes := h c s
  generalize move c s = made, holder (m.step c s) = holder', offer (m.step c s) = offer'
    at hmakes hne ⊢
  cases hmakes with
  | offered => exact absurd hs hne
  | withdrawn => exact absurd hs hne
  | taken => rfl
  | idle hkept => exact absurd (hkept a hs) hne

/-- An open offer is the latest one of the run, and it comes from the present holder. -/
theorem offer_run {s : S} {calls : List C} {candidate : A} (hs : offer s = none)
    (hoffer : offer (m.run s calls) = some candidate) :
    ∃ first c later, calls = first ++ c :: later ∧
      Offers m move authorizes holder s first c later candidate := by
  induction calls using List.reverseRecOn with
  | nil =>
    rw [Clocked.run_nil, hs] at hoffer
    contradiction
  | append_singleton calls c ih =>
    have hrun : m.run s (calls ++ [c]) = m.step c (m.run s calls) := Clocked.run_append ..
    have hmakes := h c (m.run s calls)
    rw [hrun] at hoffer
    generalize hmove : move c (m.run s calls) = made,
      hholder : holder (m.step c (m.run s calls)) = holder',
      hoffer' : offer (m.step c (m.run s calls)) = offer' at hmakes
    cases hmakes with
    | @offered a next hbefore hauth =>
      obtain rfl := Option.some.inj (hoffer'.symm.trans hoffer)
      refine ⟨calls, c, [], rfl, hmove, ⟨a, hbefore, hauth, ?_⟩, .nil _⟩
      rw [hrun, hholder, hbefore]
    | withdrawn => exact absurd (hoffer'.symm.trans hoffer) (by simp)
    | taken => exact absurd (hoffer'.symm.trans hoffer) (by simp)
    | idle hkept =>
      obtain ⟨first, d, later, rfl, hd⟩ := ih (hoffer'.symm.trans hoffer)
      obtain ⟨a, hbefore, hauth, hlast⟩ := hd.authorized
      refine ⟨first, d, later ++ [c], by simp, hd.offered, ⟨a, hbefore, hauth, ?_⟩, hd.idle.snoc ?_⟩
      · rw [← List.cons_append, ← List.append_assoc, hrun, hholder, hkept a hlast]
      · rw [← Clocked.run_append, List.append_assoc, List.singleton_append]
        exact hmove

/-- Whoever takes the role authorizes that, and was offered the role by the holder of whom it is
taken. -/
theorem taken_run {s : S} {calls : List C} {c : C} (hs : offer s = none)
    (htaken : move c (m.run s calls) = .taken) :
    ∃ candidate, holder (m.step c (m.run s calls)) = some candidate ∧ authorizes c candidate ∧
      ∃ first d later, calls = first ++ d :: later ∧
        Offers m move authorizes holder s first d later candidate := by
  have hmakes := h c (m.run s calls)
  rw [htaken] at hmakes
  generalize hholder : holder (m.step c (m.run s calls)) = holder',
    offer (m.step c (m.run s calls)) = offer' at hmakes
  cases hmakes with
  | @taken candidate hoffer hauth => exact ⟨candidate, rfl, hauth, h.offer_run hs hoffer⟩

end Handover

end Foundation

import Mathlib.Algebra.BigOperators.Ring.Finset
import Mathlib.Algebra.Order.BigOperators.Group.Finset
import Mathlib.Data.Fintype.BigOperators
import Mathlib.Data.Rat.Floor
import Quorum.Foundation.Halving

/-!
# Weights that fade

Ballots give weight to choices, and what a choice amounts to is halved once for each whole period
that passes between two ballots. The clock restarts at every ballot, so a ballot is felt in two
ways: it adds its weight, and it cuts a span of time in two. `fade_fade_iff` says exactly when the
cut is harmless.

The part of one voter is what the ballots of that voter alone amount to, under the clock of all
ballots. If nothing is left of it whenever the voter casts another ballot, it never exceeds the
weight of the latest one.

Ideally each ballot is halved by a clock of its own, once for every whole period since it was cast.
`KeepsUp.cast` says that the common clock comes to the same, rounding apart, as long as no ballot
cuts a period in two.
-/

namespace Foundation

/-- A weight given to a choice at a point of time. -/
structure Ballot (A C : Type*) where
  time : ℕ
  voter : A
  choice : C
  weight : ℤ
deriving DecidableEq

/-- What each choice amounted to when the clock was last restarted. -/
structure Standing (C : Type*) where
  clock : ℕ
  amount : C → ℤ

namespace Standing

variable {A C : Type*} {period : ℕ} {σ : Standing C} {c : C}

/-- Nothing has been given to any choice. -/
def zero (clock : ℕ) : Standing C := ⟨clock, fun _ => 0⟩

/-- The standing at a later time. -/
def fade (period : ℕ) (σ : Standing C) (time : ℕ) : Standing C where
  clock := time
  amount c := σ.amount c / 2 ^ ((time - σ.clock) / period)

/-- What fades does not get negative. -/
theorem fade_nonneg (h : 0 ≤ σ.amount c) (time : ℕ) : 0 ≤ (σ.fade period time).amount c :=
  Int.ediv_nonneg h (by positivity)

/-- What fades does not grow. -/
theorem fade_le (h : 0 ≤ σ.amount c) (time : ℕ) :
    (σ.fade period time).amount c ≤ σ.amount c := Int.ediv_le_self _ h

/-- Reading a standing in between restarts the clock. No later reading is changed by that exactly
when no part of a period is lost or nothing is left to halve. -/
theorem fade_fade_iff (hperiod : 0 < period) (h : 0 ≤ σ.amount c) {time : ℕ}
    (htime : σ.clock ≤ time) :
    (∀ later, time ≤ later →
      ((σ.fade period time).fade period later).amount c = (σ.fade period later).amount c) ↔
      (time - σ.clock) % period = 0 ∨ σ.amount c < 2 ^ ((time - σ.clock) / period) := by
  constructor
  · intro hsame
    by_contra hlost
    obtain ⟨hmod, hleft⟩ := not_or.mp hlost
    -- The first reading that comes a whole period earlier without the cut.
    have hdiv := Nat.div_add_mod (time - σ.clock) period
    have hlt := Nat.mod_lt (time - σ.clock) hperiod
    generalize hm : (time - σ.clock) / period = m at *
    have hnext := hsame (σ.clock + period * (m + 1)) (by rw [Nat.mul_succ]; omega)
    have hspan : (σ.clock + period * (m + 1) - time) / period = 0 := by
      apply Nat.div_eq_of_lt
      rw [Nat.mul_succ]
      omega
    have hwhole : (σ.clock + period * (m + 1) - σ.clock) / period = m + 1 := by
      rw [Nat.add_sub_cancel_left, Nat.mul_div_cancel_left _ hperiod]
    simp only [fade, hm, hspan, hwhole, pow_zero, Int.ediv_one] at hnext
    exact hleft (ediv_pow_succ_eq_iff.mp hnext).2
  · intro hharmless later hlater
    have hdivided : ((σ.fade period time).fade period later).amount c =
        σ.amount c / 2 ^ ((time - σ.clock) / period + (later - time) / period) :=
      ediv_pow_ediv_pow _ _ _
    rw [hdivided]
    rcases hharmless with hmod | hsmall
    · rw [← periods_split_of_mod_eq_zero htime hlater hperiod hmod]
      rfl
    · rcases periods_split htime hlater hperiod with hsplit | hsplit
      · rw [← hsplit]
        rfl
      · have hpow : (2 : ℤ) ^ ((time - σ.clock) / period) ≤
            2 ^ ((time - σ.clock) / period + (later - time) / period) :=
          pow_le_pow_right₀ (by norm_num) (Nat.le_add_right _ _)
        have hneg : -2 ^ ((time - σ.clock) / period + (later - time) / period) ≤ σ.amount c :=
          (neg_nonpos.mpr (by positivity)).trans h
        rw [ediv_pow_succ_eq_iff.mpr ⟨hneg, hsmall.trans_le hpow⟩, ← hsplit]
        rfl

variable [DecidableEq C]

/-- A ballot restarts the clock and adds its weight. -/
def cast (period : ℕ) (σ : Standing C) (b : Ballot A C) : Standing C where
  clock := b.time
  amount c := (σ.fade period b.time).amount c + if b.choice = c then b.weight else 0

/-- The standing after a list of ballots. -/
def replay (period : ℕ) (σ : Standing C) (ballots : List (Ballot A C)) : Standing C :=
  ballots.foldl (cast period) σ

/-- One more ballot is cast on what the others left. -/
theorem replay_concat (ballots : List (Ballot A C)) (b : Ballot A C) :
    σ.replay period (ballots ++ [b]) = (σ.replay period ballots).cast period b :=
  List.foldl_concat ..

/-! ## Without rounding -/

/-- What the ballots for a choice amount to at a time, each halved once for every whole period
since it was cast, before rounding. -/
def ideal (period : ℕ) (ballots : List (Ballot A C)) (c : C) (time : ℕ) : ℚ :=
  (ballots.map fun b =>
    if b.choice = c then (b.weight : ℚ) / 2 ^ ((time - b.time) / period) else 0).sum

/-- One more ballot adds its own weight, halved since it was cast. -/
theorem ideal_concat (ballots : List (Ballot A C)) (b : Ballot A C) (time : ℕ) :
    ideal period (ballots ++ [b]) c time = ideal period ballots c time +
      if b.choice = c then (b.weight : ℚ) / 2 ^ ((time - b.time) / period) else 0 := by
  rw [ideal, List.map_append, List.sum_append, List.map_singleton, List.sum_singleton, ideal]

/-- Without negative weights the ideal amount is not negative. -/
theorem ideal_nonneg {ballots : List (Ballot A C)} (h : ∀ b ∈ ballots, 0 ≤ b.weight) (time : ℕ) :
    0 ≤ ideal period ballots c time := by
  refine List.sum_nonneg fun x hx => ?_
  obtain ⟨b, hb, rfl⟩ := List.mem_map.mp hx
  split
  · have hweight : (0 : ℚ) ≤ b.weight := by exact_mod_cast h b hb
    positivity
  · exact le_rfl

/-- From the clock on, an amount that is halved as a whole keeps up with its ballots: it is never
less than they ideally amount to, and it is the whole part of something that is never more. -/
structure KeepsUp (period clock : ℕ) (amount : ℤ) (ballots : List (Ballot A C)) (c : C) : Prop where
  above : ∀ time, clock ≤ time →
    ideal period ballots c time < (amount + 1) / 2 ^ ((time - clock) / period)
  below : ∃ exact : ℚ, ⌊exact⌋ = amount ∧ ∀ time, clock ≤ time →
    exact / 2 ^ ((time - clock) / period) ≤ ideal period ballots c time

namespace KeepsUp

variable {clock : ℕ} {amount : ℤ} {ballots : List (Ballot A C)}

/-- Before any ballot nothing is to keep up with. -/
theorem nil (clock : ℕ) : KeepsUp period clock 0 ([] : List (Ballot A C)) c where
  above time _ := by
    rw [ideal, List.map_nil, List.sum_nil, Int.cast_zero, zero_add]
    positivity
  below := ⟨0, Int.floor_zero, fun time _ => by
    rw [ideal, List.map_nil, List.sum_nil, zero_div]⟩

/-- The amount reads as what its ballots ideally amount to, rounded down. -/
theorem reads (h : KeepsUp period clock amount ballots c) {time : ℕ} (htime : clock ≤ time) :
    amount / 2 ^ ((time - clock) / period) = ⌊ideal period ballots c time⌋ := by
  have habove := h.above time htime
  obtain ⟨exact, hfloor, hbelow⟩ := h.below
  have hbelow := hbelow time htime
  generalize (time - clock) / period = n at *
  generalize ideal period ballots c time = total at *
  have hpow : (0 : ℚ) < 2 ^ n := by positivity
  have hpow' : (0 : ℤ) < 2 ^ n := by positivity
  apply le_antisymm
  · have hwhole : (amount : ℚ) ≤ exact := hfloor ▸ Int.floor_le exact
    have hquotient : ((amount / 2 ^ n : ℤ) : ℚ) * 2 ^ n ≤ amount := by
      exact_mod_cast Int.ediv_mul_le amount hpow'.ne'
    apply Int.le_floor.mpr
    calc ((amount / 2 ^ n : ℤ) : ℚ) ≤ exact / 2 ^ n :=
          (le_div_iff₀ hpow).mpr (hquotient.trans hwhole)
      _ ≤ total := hbelow
  · apply Int.le_ediv_of_mul_le hpow'
    apply Int.le_of_lt_add_one
    have hlt : (⌊total⌋ : ℚ) * 2 ^ n < amount + 1 :=
      (lt_div_iff₀ hpow).mp ((Int.floor_le total).trans_lt habove)
    exact_mod_cast hlt

/-- A ballot that loses no halving keeps the amount up with the ballots. -/
theorem cast {b : Ballot A C} (h : KeepsUp period clock amount ballots c) (hperiod : 0 < period)
    (hclock : clock ≤ b.time) (hnonneg : 0 ≤ amount) (hweights : ∀ d ∈ ballots, 0 ≤ d.weight)
    (hwhole : (b.time - clock) % period = 0 ∨ amount < 2 ^ ((b.time - clock) / period)) :
    KeepsUp period b.time
      (amount / 2 ^ ((b.time - clock) / period) + if b.choice = c then b.weight else 0)
      (ballots ++ [b]) c where
  above time htime := by
    have habove := h.above time (hclock.trans htime)
    have hsplit : (b.time - clock) / period + (time - b.time) / period ≤
        (time - clock) / period := by
      rcases periods_split hclock htime hperiod with heq | heq <;> omega
    rw [ideal_concat]
    generalize (b.time - clock) / period = m at *
    generalize (time - b.time) / period = n at *
    have hpow : (0 : ℚ) < 2 ^ m := by positivity
    have hpow' : (0 : ℚ) < 2 ^ n := by positivity
    have hfirst : ((amount : ℚ) + 1) / 2 ^ m ≤ ((amount / 2 ^ m : ℤ) : ℚ) + 1 := by
      rw [div_le_iff₀ hpow]
      exact_mod_cast Int.lt_ediv_add_one_mul_self amount (show (0 : ℤ) < 2 ^ m by positivity)
    have hfaded : ideal period ballots c time < (((amount / 2 ^ m : ℤ) : ℚ) + 1) / 2 ^ n :=
      calc ideal period ballots c time < ((amount : ℚ) + 1) / 2 ^ ((time - clock) / period) := habove
        _ ≤ ((amount : ℚ) + 1) / 2 ^ (m + n) := by
          have hamount : (0 : ℚ) ≤ amount + 1 := by exact_mod_cast hnonneg.trans (Int.le_add_one le_rfl)
          gcongr
          exact one_le_two
        _ = ((amount : ℚ) + 1) / 2 ^ m / 2 ^ n := by rw [pow_add, div_div]
        _ ≤ (((amount / 2 ^ m : ℤ) : ℚ) + 1) / 2 ^ n := by gcongr
    split
    · rw [Int.cast_add, add_right_comm, add_div]
      exact add_lt_add_left hfaded _
    · rw [add_zero, add_zero]
      exact hfaded
  below := by
    obtain ⟨exact, hfloor, hbelow⟩ := h.below
    rcases hwhole with hmod | hnothing
    · refine ⟨exact / 2 ^ ((b.time - clock) / period) + (if b.choice = c then b.weight else 0 : ℤ),
        ?_, fun time htime => ?_⟩
      · have hquotient : ⌊exact / 2 ^ ((b.time - clock) / period)⌋ =
            ⌊exact⌋ / 2 ^ ((b.time - clock) / period) := by
          have hcast := Int.floor_div_natCast exact (2 ^ ((b.time - clock) / period))
          push_cast at hcast
          exact hcast
        rw [Int.floor_add_intCast, hquotient, hfloor]
      · have hbelow := hbelow time (hclock.trans htime)
        rw [periods_split_of_mod_eq_zero hclock htime hperiod hmod, pow_add, ← div_div] at hbelow
        rw [ideal_concat, add_div]
        apply add_le_add hbelow
        split
        · exact le_rfl
        · rw [Int.cast_zero, zero_div]
    · -- Nothing of what was there is left, and the ballot starts anew.
      refine ⟨(if b.choice = c then b.weight else 0 : ℤ), ?_, fun time _ => ?_⟩
      · rw [Int.floor_intCast, Int.ediv_eq_zero_of_lt hnonneg hnothing, zero_add]
      · rw [ideal_concat]
        apply le_add_of_nonneg_of_le (ideal_nonneg hweights time)
        split
        · exact le_rfl
        · rw [Int.cast_zero, zero_div]

end KeepsUp
/-! ## The part of one voter -/

variable [DecidableEq A]

/-- The ballot, without its weight unless the voter has cast it. -/
def ownedBy (voter : A) (b : Ballot A C) : Ballot A C :=
  if b.voter = voter then b else { b with weight := 0 }

omit [DecidableEq C] in
/-- A ballot keeps its time, whoever it is looked at for. -/
theorem ownedBy_time (voter : A) (b : Ballot A C) : (ownedBy voter b).time = b.time := by
  unfold ownedBy
  split <;> rfl

/-- A ballot has its share in its voter's part alone. -/
theorem ownedBy_share (voter : A) (b : Ballot A C) (c : C) :
    (if (ownedBy voter b).choice = c then (ownedBy voter b).weight else 0) =
      if b.voter = voter then (if b.choice = c then b.weight else 0) else 0 := by
  unfold ownedBy
  split <;> simp

/-- What the ballots of one voter amount to. -/
def part (period clock : ℕ) (voter : A) (ballots : List (Ballot A C)) : Standing C :=
  (zero clock).replay period (ballots.map (ownedBy voter))

/-- One more ballot is cast in every part, with its weight in one of them. -/
theorem part_concat (clock : ℕ) (voter : A) (ballots : List (Ballot A C)) (b : Ballot A C) :
    part period clock voter (ballots ++ [b]) =
      (part period clock voter ballots).cast period (ownedBy voter b) := by
  rw [part, List.map_append, List.map_singleton, replay_concat, part]

/-- In every part what was there fades, and in the voter's the weight is added. -/
theorem part_concat_amount (clock : ℕ) (voter : A) (ballots : List (Ballot A C)) (b : Ballot A C)
    (c : C) : (part period clock voter (ballots ++ [b])).amount c =
      ((part period clock voter ballots).fade period b.time).amount c +
        if b.voter = voter then (if b.choice = c then b.weight else 0) else 0 := by
  simp only [part_concat, cast, ownedBy_time, ownedBy_share]

/-- The part of a voter runs under the clock of all ballots. -/
theorem part_clock (clock : ℕ) (voter : A) (ballots : List (Ballot A C)) :
    (part period clock voter ballots).clock =
      ((zero (C := C) clock).replay period ballots).clock := by
  induction ballots using List.reverseRecOn with
  | nil => rfl
  | append_singleton ballots b ih =>
    rw [part_concat, replay_concat]
    exact ownedBy_time voter b

/-- Without negative weights no part is negative. -/
theorem part_nonneg (clock : ℕ) (voter : A) {ballots : List (Ballot A C)}
    (h : ∀ b ∈ ballots, 0 ≤ b.weight) (c : C) :
    0 ≤ (part period clock voter ballots).amount c := by
  induction ballots using List.reverseRecOn with
  | nil => exact le_rfl
  | append_singleton ballots b ih =>
    have hb := h b (by simp)
    have hfaded : 0 ≤ ((part period clock voter ballots).fade period b.time).amount c :=
      fade_nonneg (ih fun d hd => h d (List.mem_append_left _ hd)) b.time
    rw [part_concat_amount]
    apply Int.add_nonneg hfaded
    split
    · split
      · exact hb
      · exact le_rfl
    · exact le_rfl

/-- Quotients of the summands together stay within the quotient of the sum. -/
theorem sum_ediv_le {ι : Type*} [Fintype ι] (f : ι → ℤ) {d : ℤ} (hd : 0 < d) :
    ∑ i, f i / d ≤ (∑ i, f i) / d := by
  apply Int.le_ediv_of_mul_le hd
  rw [Finset.sum_mul]
  exact Finset.sum_le_sum fun i _ => Int.ediv_mul_le (f i) hd.ne'

/-- If the parts together are within the whole, they are so after both fade. -/
theorem sum_part_fade_le [Fintype A] {clock : ℕ} {ballots : List (Ballot A C)}
    (h : ∑ voter, (part period clock voter ballots).amount c ≤
      ((zero clock).replay period ballots).amount c) (time : ℕ) :
    ∑ voter, ((part period clock voter ballots).fade period time).amount c ≤
      (((zero clock).replay period ballots).fade period time).amount c := by
  simp only [fade, part_clock]
  have hpow : (0 : ℤ) < 2 ^ ((time - ((zero (C := C) clock).replay period ballots).clock) /
    period) := by positivity
  exact (sum_ediv_le _ hpow).trans (Int.ediv_le_ediv hpow h)

/-- The parts of all voters together stay within the whole: rounding only takes away. -/
theorem sum_part_le [Fintype A] (clock : ℕ) (ballots : List (Ballot A C)) (c : C) :
    ∑ voter, (part period clock voter ballots).amount c ≤
      ((zero clock).replay period ballots).amount c := by
  induction ballots using List.reverseRecOn with
  | nil => simp [part, replay, zero]
  | append_singleton ballots b ih =>
    simp only [part_concat_amount, replay_concat, cast, Finset.sum_add_distrib, Finset.sum_ite_eq,
      Finset.mem_univ, if_true]
    have hfaded := sum_part_fade_le ih b.time
    linarith

/-! ## The latest ballot of a voter -/

/-- The ballot that the voter has cast last. -/
def latest (voter : A) (ballots : List (Ballot A C)) : Option (Ballot A C) :=
  (ballots.filter fun b => b.voter = voter).getLast?

omit [DecidableEq C] in
/-- The latest ballot of a voter is the last one that the voter has cast. -/
theorem latest_concat (voter : A) (ballots : List (Ballot A C)) (b : Ballot A C) :
    latest voter (ballots ++ [b]) = if b.voter = voter then some b else latest voter ballots := by
  unfold latest
  rw [List.filter_append]
  split <;> rename_i hb <;> simp [hb]

omit [DecidableEq C] in
/-- Where no voter has a latest ballot there are none. -/
theorem eq_nil_of_latest {ballots : List (Ballot A C)}
    (h : ∀ voter, latest voter ballots = none) : ballots = [] := by
  apply List.eq_nil_iff_forall_not_mem.mpr
  intro b hb
  have hnone := List.filter_eq_nil_iff.mp (List.getLast?_eq_none_iff.mp (h b.voter)) b hb
  simp at hnone

/-- What a voter's part of a choice is due: the weight of the latest ballot, if it is for the
choice. -/
def due (voter : A) (ballots : List (Ballot A C)) (c : C) : ℤ :=
  match latest voter ballots with
  | some b => if b.choice = c then b.weight else 0
  | none => 0

/-- The ballot finds nothing left of the voter's part of a choice that the latest ballot of the
voter was for. -/
def Settled (period clock : ℕ) (c : C) (ballots : List (Ballot A C)) (b : Ballot A C) : Prop :=
  (latest b.voter ballots).map Ballot.choice = some c →
    ((part period clock b.voter ballots).fade period b.time).amount c = 0

/-- A part that is due stays due under a settled ballot. -/
theorem part_concat_le_due {clock : ℕ} {ballots : List (Ballot A C)} {b : Ballot A C}
    (hweights : ∀ d ∈ ballots, 0 ≤ d.weight) (hsettled : Settled period clock c ballots b)
    {voter : A} (h : (part period clock voter ballots).amount c ≤ due voter ballots c) :
    (part period clock voter (ballots ++ [b])).amount c ≤ due voter (ballots ++ [b]) c := by
  have hnonneg : 0 ≤ (part period clock voter ballots).amount c :=
    part_nonneg clock voter hweights c
  have hfaded : ((part period clock voter ballots).fade period b.time).amount c ≤
      (part period clock voter ballots).amount c := fade_le hnonneg b.time
  rw [part_concat_amount, due, latest_concat]
  by_cases hvoter : b.voter = voter
  · rw [if_pos hvoter, if_pos hvoter]
    have hzero : ((part period clock voter ballots).fade period b.time).amount c = 0 := by
      by_cases hchoice : (latest voter ballots).map Ballot.choice = some c
      · exact hvoter ▸ hsettled (hvoter ▸ hchoice)
      · have hdue : due voter ballots c = 0 := by
          unfold due
          cases hlatest : latest voter ballots with
          | none => rfl
          | some d =>
            rw [hlatest, Option.map_some, Option.some.injEq] at hchoice
            exact if_neg hchoice
        have hstays : 0 ≤ ((part period clock voter ballots).fade period b.time).amount c :=
          fade_nonneg hnonneg b.time
        omega
    rw [hzero, zero_add]
  · rw [if_neg hvoter, if_neg hvoter, add_zero]
    exact hfaded.trans h

end Standing

end Foundation

import Quorum.Foundation.Fading
import Quorum.Governor.Counting

/-!
# The ballots of a run

An accepted vote is a ballot. The recorded choice of a voter is that of the latest ballot, and
the conviction tally of a proposal is the replay of its ballots under the half-life, so questions
about conviction become questions about lists of ballots.
-/

namespace Quorum.Governor

open Foundation Contract

variable {s s' : System} {env : Env} {start now id : ℕ}

/-! ## The two sides of a tally -/

/-- The side of a conviction tally that a choice adds to: 0 Against, 1 For. -/
def ConvictionTally.side (t : ConvictionTally) : ℕ → I128
  | 0 => t.againstConviction
  | _ => t.forConviction

/-- A side that decays is halved once for every half-life since the last vote. -/
theorem side_decayTo (t : ConvictionTally) (now x : ℕ) : (decayTo t now).side x =
    halved (t.side x) ((now - t.updatedLedger) / convictionHalfLife) := by
  cases x <;> rfl

/-- A side that is not negative loses what halving rounds off. -/
theorem side_decayTo_val {t : ConvictionTally} {x : ℕ} (h : 0 ≤ (t.side x).val) (now : ℕ) :
    ((decayTo t now).side x).val =
      (t.side x).val / 2 ^ ((now - t.updatedLedger) / convictionHalfLife) := by
  rw [side_decayTo, halved_val_of_nonneg h]

/-- Counting a choice adds its weight to its side and keeps the clock. -/
theorem countConviction_side {t t' : ConvictionTally} {support : ℕ} {weight : I128}
    (h : countConviction t support weight = some t') {x : ℕ} (hx : x ≤ 1) :
    (t'.side x).val = (t.side x).val + if support = x then weight.val else 0 := by
  match support, h with
  | 0, h =>
    obtain ⟨sum, hsum, rfl⟩ := Option.map_eq_some_iff.mp h
    have hval := I128.checkedAdd_eq_some.mp hsum
    interval_cases x <;> simp [ConvictionTally.side, ← hval]
  | 1, h =>
    obtain ⟨sum, hsum, rfl⟩ := Option.map_eq_some_iff.mp h
    have hval := I128.checkedAdd_eq_some.mp hsum
    interval_cases x <;> simp [ConvictionTally.side, ← hval]
  | n + 2, h =>
    obtain rfl := Option.some.inj h
    rw [if_neg (by omega), add_zero]

/-- A choice is counted if its side has room for it. -/
theorem countConviction_succeeds {t : ConvictionTally} {support : ℕ} {weight : I128}
    (hlower : minI128 ≤ (t.side support).val + weight.val)
    (hupper : support ≤ 1 → (t.side support).val + weight.val ≤ maxI128) :
    ∃ t', countConviction t support weight = some t' := by
  match support, hlower, hupper with
  | 0, hlower, hupper =>
    obtain ⟨sum, hsum, -⟩ := I128.exists_ofInt? hlower (hupper (by decide))
    have hadd : addWeight t.againstConviction weight = some sum := hsum
    exact ⟨_, by rw [countConviction, hadd, Option.map_some]⟩
  | 1, hlower, hupper =>
    obtain ⟨sum, hsum, -⟩ := I128.exists_ofInt? hlower (hupper le_rfl)
    have hadd : addWeight t.forConviction weight = some sum := hsum
    exact ⟨_, by rw [countConviction, hadd, Option.map_some]⟩
  | n + 2, _, _ => exact ⟨t, rfl⟩

/-- Counting a ballot leaves the clock to the decay before it. -/
theorem countConviction_updatedLedger {t t' : ConvictionTally} {support : ℕ} {weight : I128}
    (h : countConviction t support weight = some t') : t'.updatedLedger = t.updatedLedger := by
  match support, h with
  | 0, h =>
    obtain ⟨sum, -, rfl⟩ := Option.map_eq_some_iff.mp h
    rfl
  | 1, h =>
    obtain ⟨sum, -, rfl⟩ := Option.map_eq_some_iff.mp h
    rfl
  | n + 2, h =>
    obtain rfl := Option.some.inj h
    rfl

/-! ## Accepted votes -/

/-- The weight that a vote reads from the token. -/
def votingPower (s : System) (voter : Address) (id : ℕ) : I128 :=
  match s.governor.proposal id with
  | some p =>
    match ((Token.getPastVotes voter p.snapshotLedger).run s.token).1 with
    | .ok weight => weight
    | .error _ => 0
  | none => 0

/-- The weight of a vote is its voter's voting power before it. -/
theorem Votes.votingPower_eq {voter : Address} {support : ℕ} {p counted : Proposal}
    {weight : I128} (h : Votes env voter id support p counted weight s s') :
    votingPower s voter id = weight := by
  simp only [votingPower, h.stored, show (Token.getPastVotes voter p.snapshotLedger).run s.token =
    (.ok weight, s.token) from h.weight]

/-- The ballot on a proposal that a call casts, if it is an accepted vote on it. -/
def ballotOf (id : ℕ) (s : System) : Invocation → Option (Ballot Address ℕ)
  | .governor env (.vote voter proposalId support) =>
    if proposalId = id ∧ Accepted env (.vote voter proposalId support) s then
      some ⟨env.sequence, voter, support, (votingPower s voter id).val⟩
    else none
  | _ => none

/-- The ballots on a proposal in a run, in order. -/
def ballots (id : ℕ) : System → List Invocation → List (Ballot Address ℕ)
  | _, [] => []
  | s, i :: rest => (ballotOf id s i).toList ++ ballots id (machine.step i s) rest

/-- The ballots of two runs in a row are those of both. -/
theorem ballots_append (id : ℕ) (s : System) (first later : List Invocation) :
    ballots id s (first ++ later) = ballots id s first ++ ballots id (machine.run s first) later := by
  induction first generalizing s with
  | nil => rfl
  | cons i rest ih =>
    rw [List.cons_append, ballots, ih, ballots, List.append_assoc, Clocked.run_cons]

/-- One more invocation adds the ballot that it casts, if it casts one. -/
theorem ballots_concat (id : ℕ) (s : System) (first : List Invocation) (i : Invocation) :
    ballots id s (first ++ [i]) =
      ballots id s first ++ (ballotOf id (machine.run s first) i).toList := by
  rw [ballots_append, ballots, ballots, List.append_nil]

/-- A call that is no accepted vote on the proposal casts no ballot. -/
theorem ballotOf_eq_none {c : Call}
    (h : ∀ voter support, c = .vote voter id support → ¬ Accepted env c s) :
    ballotOf id s (.governor env c) = none := by
  unfold ballotOf
  split
  · rename_i voter proposalId support heq
    obtain ⟨rfl, rfl⟩ := Invocation.governor.inj heq
    apply if_neg
    rintro ⟨rfl, haccepted⟩
    exact h voter support rfl haccepted
  · rfl

/-- An accepted vote casts the ballot of its voter, with the weight counted. -/
theorem Votes.ballotOf_eq {voter : Address} {support : ℕ} {p counted : Proposal} {weight : I128}
    (h : Votes env voter id support p counted weight s s')
    (haccepted : Accepted env (.vote voter id support) s) :
    ballotOf id s (.governor env (.vote voter id support)) =
      some ⟨env.sequence, voter, support, weight.val⟩ := by
  rw [ballotOf, if_pos ⟨rfl, haccepted⟩, h.votingPower_eq]

/-- What a step does to the votes and the conviction tally of a proposal. -/
inductive VoteStep (id : ℕ) (i : Invocation) (s s' : System) : Prop
  | unvoted (hballot : ballotOf id s i = none)
      (hvotes : s'.governor.hasVoted id = s.governor.hasVoted id)
      (h : s'.governor.conviction id = s.governor.conviction id)
  | opened (hballot : ballotOf id s i = none)
      (hvotes : s'.governor.hasVoted id = s.governor.hasVoted id)
      (hnone : (∀ voter, s.governor.hasVoted id voter = none) ∧ s.governor.conviction id = none)
      (hwindow : ∃ p, s'.governor.proposal id = some p ∧ i.sequence ≤ p.endLedger)
      (h : s'.governor.conviction id = some ⟨0, 0, i.sequence⟩)
  | voted {env : Env} {voter : Address} {support : ℕ} {p counted : Proposal} {weight : I128}
      (hcall : i = .governor env (.vote voter id support))
      (haccepted : Accepted env (.vote voter id support) s)
      (hballot : ballotOf id s i = some ⟨env.sequence, voter, support, weight.val⟩)
      (h : Votes env voter id support p counted weight s s')

/-- An accepted call votes on the proposal, opens it, or leaves its votes alone. -/
theorem Change.voteStep {c : Call} (hw : WellFormed now s) (haccepted : Accepted env c s)
    (h : Change env c s s') (id : ℕ) : VoteStep id (.governor env c) s s' := by
  cases h.outline with
  | quiet hcall h =>
    exact .unvoted (ballotOf_eq_none fun voter support heq => absurd heq (hcall voter id support))
      (by rw [h.hasVoted]) (by rw [h.conviction])
  | @opened config _ conviction q hcall h =>
    have hballot : ballotOf id s (.governor env c) = none :=
      ballotOf_eq_none fun voter support heq => absurd heq (hcall voter id support)
    by_cases hid : id = q.id
    · subst hid
      rcases h.conviction_self with hfresh | hsame
      · refine .opened hballot (by rw [h.hasVoted]) (hw.fresh h).2 ⟨q, ?_, ?_⟩ hfresh
        · rw [h.proposal, Function.update_self]
        · rw [h.endLedger, Nat.add_assoc]
          exact Nat.le_add_right env.sequence _
      · exact .unvoted hballot (by rw [h.hasVoted]) hsame
    · exact .unvoted hballot (by rw [h.hasVoted]) (h.conviction_other hid)
  | @voted voter other support p counted weight hcall hvotes =>
    subst hcall
    by_cases hid : id = other
    · subst hid
      exact .voted rfl haccepted (hvotes.ballotOf_eq haccepted) hvotes
    · refine .unvoted (ballotOf_eq_none ?_) ?_ (hvotes.conviction.other hid)
      · rintro v x heq
        obtain ⟨-, rfl, -⟩ := Call.vote.inj heq
        contradiction
      · rw [hvotes.hasVoted, Function.update_of_ne hid]
  | restated hcall _ _ h =>
    exact .unvoted (ballotOf_eq_none fun voter support heq => absurd heq (hcall voter id support))
      (by rw [h.hasVoted]) (by rw [h.conviction])

/-- Every invocation votes on the proposal, opens it, or leaves its votes alone. -/
theorem voteStep (hw : WellFormed now s) (i : Invocation) (id : ℕ) :
    VoteStep id i s (machine.step i s) := by
  cases i with
  | token i => exact .unvoted rfl rfl rfl
  | governor env c =>
    by_cases haccepted : Accepted env c s
    · exact (haccepted.effect hw.blank).change.voteStep hw haccepted id
    · rw [step_eq_of_not_accepted haccepted]
      exact .unvoted (ballotOf_eq_none fun _ _ _ => haccepted) rfl rfl

/-- What a vote on a conviction proposal does to its tally. -/
theorem Votes.counted_conviction {voter : Address} {support : ℕ} {p counted : Proposal}
    {weight : I128} (h : Votes env voter id support p counted weight s s') :
    (s.governor.conviction id = none ∧ s'.governor.conviction id = none) ∨
      ∃ t t', s.governor.conviction id = some t ∧ s'.governor.conviction id = some t' ∧
        countConviction (decayTo t env.sequence) support weight = some t' := by
  have hvoted := h.conviction
  unfold ConvictionVoted at hvoted
  cases hstored : s.governor.conviction id with
  | none =>
    rw [hstored] at hvoted
    exact .inl ⟨rfl, by rw [hvoted, hstored]⟩
  | some t =>
    rw [hstored] at hvoted
    obtain ⟨t', hcount, htallies⟩ := hvoted
    exact .inr ⟨t, t', rfl, by rw [htallies, Function.update_self], hcount⟩

/-! ## The votes are the latest ballots -/

/-- The recorded choice of a voter is that of the latest ballot. -/
theorem latest_run {calls : List Invocation} (hcalls : machine.Scheduled start now calls)
    (voter : Address) :
    (Standing.latest voter (ballots id System.empty calls)).map Ballot.choice =
      (machine.run System.empty calls).governor.hasVoted id voter := by
  induction calls using List.reverseRecOn generalizing now with
  | nil => rfl
  | append_singleton first i ih =>
    obtain ⟨hfirst, -⟩ := hcalls.of_append
    rw [ballots_concat, Clocked.run_append, Clocked.run_cons, Clocked.run_nil]
    cases voteStep (wellFormed_run hfirst) i id with
    | unvoted hballot hvotes _ =>
      rw [hballot, hvotes, Option.toList_none, List.append_nil]
      exact ih hfirst
    | opened hballot hvotes _ _ _ =>
      rw [hballot, hvotes, Option.toList_none, List.append_nil]
      exact ih hfirst
    | @voted env other support p counted weight _ _ hballot h =>
      rw [hballot, Option.toList_some, Standing.latest_concat, h.hasVoted, Function.update_self]
      by_cases hvoter : other = voter
      · subst hvoter
        rw [if_pos rfl, Function.update_self]
        rfl
      · rw [if_neg hvoter, Function.update_of_ne fun heq => hvoter heq.symm]
        exact ih hfirst

/-- Without votes there are no ballots. -/
theorem ballots_eq_nil {calls : List Invocation} (hcalls : machine.Scheduled start now calls)
    (h : ∀ voter, (machine.run System.empty calls).governor.hasVoted id voter = none) :
    ballots id System.empty calls = [] := by
  apply Standing.eq_nil_of_latest
  intro voter
  rw [← Option.map_eq_none_iff, latest_run hcalls, h]

/-- No ballot of a run has a negative weight. -/
theorem ballots_weight_nonneg {calls : List Invocation}
    (hcalls : machine.Scheduled start now calls) :
    ∀ b ∈ ballots id System.empty calls, 0 ≤ b.weight := by
  induction calls using List.reverseRecOn generalizing now with
  | nil => exact fun b hb => absurd hb List.not_mem_nil
  | append_singleton first i ih =>
    obtain ⟨hfirst, -⟩ := hcalls.of_append
    intro b hb
    rw [ballots_concat] at hb
    rcases List.mem_append.mp hb with hb | hb
    · exact ih hfirst b hb
    · rw [Option.mem_toList] at hb
      cases voteStep (wellFormed_run hfirst) i id with
      | unvoted hballot _ _ => rw [hballot] at hb; contradiction
      | opened hballot _ _ _ _ => rw [hballot] at hb; contradiction
      | voted _ _ hballot h =>
        rw [hballot] at hb
        obtain rfl := Option.some.inj hb
        exact h.positive.le

/-! ## The tally is the replay of the ballots -/

/-- The sides of a tally are not negative and read, from its clock on, as in a standing. -/
structure Represents (t : ConvictionTally) (σ : Standing ℕ) : Prop where
  nonneg : ∀ x ≤ 1, 0 ≤ (t.side x).val
  reads : ∀ ledger, t.updatedLedger ≤ ledger → ∀ x ≤ 1,
    ((decayTo t ledger).side x).val = (σ.fade convictionHalfLife ledger).amount x

namespace Represents

variable {t t' : ConvictionTally} {σ : Standing ℕ}

/-- A fresh tally represents a standing of nothing. -/
theorem fresh (ledger clock : ℕ) : Represents ⟨0, 0, ledger⟩ (.zero clock) where
  nonneg x hx := by interval_cases x <;> exact le_rfl
  reads now _ x hx := by
    have hzero : ((⟨0, 0, ledger⟩ : ConvictionTally).side x).val = 0 := by
      interval_cases x <;> rfl
    rw [side_decayTo_val hzero.ge, hzero, Int.zero_ediv]
    exact (Int.zero_ediv _).symm

/-- A tally represents what it holds. -/
theorem self (h : ∀ x ≤ 1, 0 ≤ (t.side x).val) :
    Represents t ⟨t.updatedLedger, fun x => (t.side x).val⟩ where
  nonneg := h
  reads ledger _ x hx := side_decayTo_val (h x hx) ledger

/-- Counting a vote casts its ballot. -/
theorem counted {support : ℕ} {weight : I128} (h : Represents t σ) (hclock : t.updatedLedger ≤ now)
    (hcount : countConviction (decayTo t now) support weight = some t') (hweight : 0 ≤ weight.val)
    (voter : Address) :
    Represents t' (σ.cast convictionHalfLife ⟨now, voter, support, weight.val⟩) := by
  have hside : ∀ x ≤ 1, (t'.side x).val = (σ.cast convictionHalfLife
      ⟨now, voter, support, weight.val⟩).amount x := by
    intro x hx
    rw [countConviction_side hcount hx, h.reads now hclock x hx]
    rfl
  have hnonneg : ∀ x ≤ 1, 0 ≤ (t'.side x).val := by
    intro x hx
    have hdecayed : 0 ≤ ((decayTo t now).side x).val := by
      rw [side_decayTo]
      exact halved_nonneg (h.nonneg x hx) _
    rw [countConviction_side hcount hx]
    split <;> omega
  refine ⟨hnonneg, fun ledger _ x hx => ?_⟩
  rw [side_decayTo_val (hnonneg x hx), hside x hx, countConviction_updatedLedger hcount]
  rfl

end Represents

/-- The clock of a tally is not ahead and within the voting window, and its sides are not
negative. -/
structure TallyWellFormed (now : ℕ) (s : System) (id : ℕ) (t : ConvictionTally) : Prop where
  nonneg : ∀ x ≤ 1, 0 ≤ (t.side x).val
  clock : t.updatedLedger ≤ now
  window : ∃ p, s.governor.proposal id = some p ∧ t.updatedLedger ≤ p.endLedger

/-- A vote leaves a tally that is well formed and represents one more ballot. -/
theorem Votes.tallyWellFormed {voter : Address} {support : ℕ} {p counted : Proposal}
    {weight : I128} {t t' : ConvictionTally} {σ : Standing ℕ}
    (h : Votes env voter id support p counted weight s s')
    (hcount : countConviction (decayTo t env.sequence) support weight = some t')
    (hold : TallyWellFormed env.sequence s id t) (hσ : Represents t σ) :
    TallyWellFormed env.sequence s' id t' ∧
      Represents t' (σ.cast convictionHalfLife ⟨env.sequence, voter, support, weight.val⟩) := by
  have hrepresents := hσ.counted hold.clock hcount h.positive.le voter
  have hclock : t'.updatedLedger = env.sequence := countConviction_updatedLedger hcount
  refine ⟨⟨hrepresents.nonneg, hclock.le, counted, ?_, ?_⟩, hrepresents⟩
  · rw [h.proposal, Function.update_self]
  · rw [hclock, h.kept.endLedger]
    exact h.notEnded

/-- A tally that is left alone stays well formed through a step. -/
theorem TallyWellFormed.of_kept {t : ConvictionTally} {i : Invocation}
    (h : TallyWellFormed i.sequence s id t) (hw : WellFormed i.sequence s) :
    TallyWellFormed i.sequence (machine.step i s) id t := by
  obtain ⟨p, hp, hend⟩ := h.window
  obtain ⟨p', hp', hkept⟩ := (machine_step hw.blank i).kept hw hp
  exact ⟨h.nonneg, h.clock, p', hp', by rw [hkept.endLedger]; exact hend⟩

/-- In every reachable state the conviction tally of a proposal is well formed and represents
the replay of the proposal's ballots. -/
theorem conviction_run {calls : List Invocation} (hcalls : machine.Scheduled start now calls)
    {t : ConvictionTally} (ht : (machine.run System.empty calls).governor.conviction id = some t) :
    TallyWellFormed now (machine.run System.empty calls) id t ∧
      Represents t ((Standing.zero 0).replay convictionHalfLife (ballots id System.empty calls)) := by
  induction calls using List.reverseRecOn generalizing now t with
  | nil => simp [System.empty, Storage.empty] at ht
  | append_singleton first i ih =>
    obtain ⟨hfirst, hlast⟩ := hcalls.of_append
    have hw : WellFormed i.sequence (machine.run System.empty first) := wellFormed_run hfirst
    suffices h : TallyWellFormed i.sequence (machine.run System.empty (first ++ [i])) id t ∧
        Represents t ((Standing.zero 0).replay convictionHalfLife
          (ballots id System.empty (first ++ [i]))) from
      ⟨⟨h.1.nonneg, h.1.clock.trans hlast, h.1.window⟩, h.2⟩
    rw [Clocked.run_append, Clocked.run_cons, Clocked.run_nil] at ht ⊢
    rw [ballots_concat]
    cases voteStep hw i id with
    | unvoted hballot _ h =>
      rw [hballot, Option.toList_none, List.append_nil]
      rw [h] at ht
      obtain ⟨hold, hrepresents⟩ := ih hfirst ht
      exact ⟨hold.of_kept hw, hrepresents⟩
    | opened hballot _ hnone hwindow h =>
      rw [hballot, ballots_eq_nil hfirst hnone.1]
      rw [h] at ht
      obtain rfl := Option.some.inj ht
      have hfresh := Represents.fresh i.sequence 0
      obtain ⟨p, hp, hend⟩ := hwindow
      exact ⟨⟨hfresh.nonneg, le_rfl, p, hp, hend⟩, hfresh⟩
    | voted hcall _ hballot h =>
      subst hcall
      rcases h.counted_conviction with ⟨-, hnone⟩ | ⟨t₀, t', hstored, hstored', hcount⟩
      · rw [hnone] at ht
        contradiction
      · rw [hstored'] at ht
        obtain rfl := Option.some.inj ht
        obtain ⟨hold, hrepresents⟩ := ih hfirst hstored
        rw [hballot, Option.toList_some, Standing.replay_concat]
        exact h.tallyWellFormed hcount hold hrepresents

end Quorum.Governor

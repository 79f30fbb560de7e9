import Quorum.Foundation.Election
import Quorum.Governor.Capacity
import Quorum.Governor.Insulation

/-!
# A standard proposal is an election

What `finalize` decides on a standard proposal is the outcome of an election among all accounts,
each weighing what its voting power is at the close of the snapshot ledger, in which the last
accepted ballot of each voter counts. The governor gets there by adding and removing weights one
vote at a time, with the token in motion between the votes.

Two runs that agree up to the close of the snapshot ledger can therefore be compared by the last
ballots alone: neither the order of the votes nor anything the token has done since matters, and
a vote For never turns a decision against the proposal.
-/

namespace Quorum.Governor

open Foundation Contract

variable {s s' : System} {env : Env} {start mid now id : ℕ} {p : Proposal}

/-- The election that a standard proposal holds in a run. -/
def election (calls : List Invocation) (p : Proposal) : Election Address ℕ where
  weight := snapshotWeight calls p.snapshotLedger
  quorum := p.quorumRequired.val
  favour := 1
  against := 0

/-- The accepted ballots on a proposal in a run: who chose what, in order. -/
def castBallots (id : ℕ) (calls : List Invocation) : List (Address × ℕ) :=
  (ballots id System.empty calls).map fun b => (b.voter, b.choice)

/-- The last choice of a voter is that of the latest ballot. -/
theorem lastChoice_map (voter : Address) (cast : List (Ballot Address ℕ)) :
    lastChoice (cast.map fun b => (b.voter, b.choice)) voter =
      (Standing.latest voter cast).map Ballot.choice := by
  induction cast using List.reverseRecOn with
  | nil => rfl
  | append_singleton rest b ih =>
    rw [List.map_append, List.map_singleton, lastChoice_concat, Standing.latest_concat, ih]
    split <;> rfl

/-- The recorded choices are those of the last ballots. -/
theorem lastChoice_castBallots {calls : List Invocation}
    (hcalls : machine.Scheduled start now calls) :
    lastChoice (castBallots id calls) = (machine.run System.empty calls).governor.hasVoted id := by
  funext voter
  rw [castBallots, lastChoice_map, latest_run hcalls]

/-- Exact tallies are the tallies of the election, and add up to its turnout. -/
theorem passes_iff_carried {calls : List Invocation} {choice : Address → Option ℕ}
    (hlisted : ∀ voter support, choice voter = some support → support ≤ 2)
    (htallies : ∀ c ≤ 2, (p.tally c).val = tallied choice (election calls p).weight c) :
    Passes p none ↔ (election calls p).Carried choice := by
  have hagainst : p.againstVotes.val = _ := htallies 0 (by decide)
  have hfor : p.forVotes.val = _ := htallies 1 (by decide)
  have habstain : p.abstainVotes.val = _ := htallies 2 (by decide)
  have hturnout := Election.sum_tallied_eq_turnout (e := election calls p) (Finset.range 3)
    fun voter c hc => Finset.mem_range.mpr (Nat.lt_succ_of_le (hlisted voter c hc))
  simp only [Finset.sum_range_succ, Finset.sum_range_zero, zero_add] at hturnout
  have hsum : p.forVotes.val + p.againstVotes.val + p.abstainVotes.val =
      (election calls p).turnout choice := by omega
  constructor
  · intro h
    refine ⟨(hsum ▸ h.quorum :), ?_⟩
    have hmajority : p.againstVotes.val < p.forVotes.val := h.majority
    rwa [hagainst, hfor] at hmajority
  · intro h
    refine ⟨(hsum.symm ▸ h.quorum :), ?_⟩
    have hmajority := h.majority
    change p.againstVotes.val < p.forVotes.val
    rwa [hagainst, hfor]

/-- The decision in terms of the recorded choices. -/
theorem finalize_carried {calls : List Invocation} {status : ProposalStatus}
    (hcalls : machine.Scheduled start now calls)
    (hstored : (machine.run System.empty calls).governor.proposal id = some p)
    (hstandard : (machine.run System.empty calls).governor.conviction id = none)
    (hwindow : p.endLedger ≤ p.snapshotLedger + Token.checkpointRetention)
    (h : (finalize env id).Returns (machine.run System.empty calls) status s') :
    let choice := (machine.run System.empty calls).governor.hasVoted id
    (∀ c ≤ 2, (p.tally c).val = tallied choice (election calls p).weight c) ∧
      ((status = .queued ∧ (election calls p).Carried choice) ∨
        (status = .failed ∧ ¬ (election calls p).Carried choice)) := by
  intro choice
  have htallies : ∀ c ≤ 2, (p.tally c).val = tallied choice (election calls p).weight c :=
    fun c hc => counted hcalls hstored ((min_le_right _ _).trans hwindow) p hstored c hc
  obtain ⟨q, hq, -, -, hdecided⟩ := finalize_decides h
  obtain rfl : p = q := Option.some.inj (hstored.symm.trans hq)
  have hcarried : Passes p none ↔ (election calls p).Carried choice :=
    passes_iff_carried ((wellFormed_run hcalls).choices id) htallies
  rw [hstandard, hcarried] at hdecided
  exact ⟨htallies, hdecided⟩

/-- Whenever `finalize` returns on a standard proposal whose voting window lies within the
retention window, the stored tallies are those of the election among all accounts in which the
last accepted ballot of each voter counts with the voter's snapshot weight, and the proposal is
queued if that election carries it and fails if not. -/
theorem finalize_refines_election {calls : List Invocation}
    (hcalls : machine.Scheduled start now calls) {id : ℕ} {p : Proposal}
    (hstored : (machine.run System.empty calls).governor.proposal id = some p)
    (hstandard : (machine.run System.empty calls).governor.conviction id = none)
    (hwindow : p.endLedger ≤ p.snapshotLedger + Token.checkpointRetention)
    {env : Env} {status : ProposalStatus} {s' : System}
    (h : (finalize env id).Returns (machine.run System.empty calls) status s') :
    let choice := lastChoice (castBallots id calls)
    (∀ c ≤ 2, (p.tally c).val = tallied choice (election calls p).weight c) ∧
      (status = .queued ∨ status = .failed) ∧
      (status = .queued ↔ (election calls p).Carried choice) := by
  intro choice
  have hchoice : choice = (machine.run System.empty calls).governor.hasVoted id :=
    lastChoice_castBallots hcalls
  obtain ⟨htallies, hdecided⟩ := finalize_carried hcalls hstored hstandard hwindow h
  rw [hchoice]
  rcases hdecided with ⟨rfl, hcarried⟩ | ⟨rfl, hlost⟩
  · exact ⟨htallies, .inl rfl, iff_of_true rfl hcarried⟩
  · exact ⟨htallies, .inr rfl, iff_of_false (by decide) hlost⟩

/-- The executed proposal of `passingCalls`, at its decision. -/
theorem finalize_refines_election_passing :
    ∃ (p : Proposal) (status : ProposalStatus),
      (machine.run System.empty (passingCalls.take 4)).governor.proposal 1 = some p ∧
      (status = .queued ↔ (election (passingCalls.take 4) p).Carried
        (lastChoice (castBallots 1 (passingCalls.take 4)))) := by
  have hcalls : machine.Scheduled 0 6 (passingCalls.take 4) := by decide
  obtain ⟨p, hp⟩ : ∃ p,
      (machine.run System.empty (passingCalls.take 4)).governor.proposal 1 = some p := ⟨_, rfl⟩
  have hwindow : ((machine.run System.empty (passingCalls.take 4)).governor.proposal 1).all
      (fun p => decide (p.endLedger ≤ p.snapshotLedger + Token.checkpointRetention)) = true := by
    decide
  rw [hp, Option.all_some, decide_eq_true_eq] at hwindow
  have hsucceeds : (finalize (.authorized 10) 1).Succeeds
      (machine.run System.empty (passingCalls.take 4)) := by decide
  obtain ⟨status, s', hret⟩ := hsucceeds
  exact ⟨p, status, hp,
    (finalize_refines_election hcalls hp (by decide) hwindow hret).2.2⟩

/-! ## Two runs from the close of the snapshot ledger -/

section Compared

variable {first more : List Invocation}

/-- What happens after the snapshot ledger does not change the election, and neither does what
the voting leaves in the proposal. -/
theorem election_append {q : Proposal} (hmore : machine.Scheduled mid now more)
    (hclosed : p.snapshotLedger < mid) (hkept : Kept p q) :
    election (first ++ more) q = election first p := by
  apply Election.ext
  · funext voter
    change snapshotWeight (first ++ more) q.snapshotLedger voter =
      snapshotWeight first p.snapshotLedger voter
    rw [hkept.snapshotLedger, snapshotWeight, powerAtClose_append hmore hclosed, snapshotWeight]
  · exact congrArg I128.val hkept.quorumRequired
  · rfl
  · rfl

/-- The decision after a continuation, by the election as it stands at the snapshot close. -/
theorem finalize_carried_append {status : ProposalStatus}
    (hfirst : machine.Scheduled start mid first) (hmore : machine.Scheduled mid now more)
    (hstored : (machine.run System.empty first).governor.proposal id = some p)
    (hclosed : p.snapshotLedger < mid)
    (hstandard : (machine.run System.empty first).governor.conviction id = none)
    (hwindow : p.endLedger ≤ p.snapshotLedger + Token.checkpointRetention)
    (h : (finalize env id).Returns (machine.run System.empty (first ++ more)) status s') :
    ∃ q, (machine.run System.empty (first ++ more)).governor.proposal id = some q ∧
      (∀ c ≤ 2, (q.tally c).val =
        tallied ((machine.run System.empty (first ++ more)).governor.hasVoted id)
          (election first p).weight c) ∧
      ((status = .queued ∧ (election first p).Carried
          ((machine.run System.empty (first ++ more)).governor.hasVoted id)) ∨
        (status = .failed ∧ ¬ (election first p).Carried
          ((machine.run System.empty (first ++ more)).governor.hasVoted id))) := by
  obtain ⟨q, hq, hkept, -, hconviction⟩ := terms_run (wellFormed_run hfirst) hmore hstored
  rw [← Clocked.run_append] at hq hconviction
  rw [hstandard, Option.isSome_none] at hconviction
  have hdecided := finalize_carried (hfirst.append hmore) hq
    (Option.isSome_eq_false_iff.mp hconviction |> Option.isNone_iff_eq_none.mp)
    (by rw [hkept.endLedger, hkept.snapshotLedger]; exact hwindow) h
  rw [election_append hmore hclosed hkept] at hdecided
  exact ⟨q, hq, hdecided⟩

end Compared

/-- Two runs with the same calls up to the close of the snapshot ledger of a standard proposal.
If the last ballots are the same, so are the tallies and the decision, whatever the order of the
votes and whatever else has been called; and if they differ only in that some accounts have
turned to For in the second run, a proposal queued in the first run is queued in the second. -/
theorem decision_by_last_ballots {first more₁ more₂ : List Invocation} {now₁ now₂ : ℕ}
    (hfirst : machine.Scheduled start mid first) (hmore₁ : machine.Scheduled mid now₁ more₁)
    (hmore₂ : machine.Scheduled mid now₂ more₂) {id : ℕ} {p : Proposal}
    (hstored : (machine.run System.empty first).governor.proposal id = some p)
    (hclosed : p.snapshotLedger < mid)
    (hstandard : (machine.run System.empty first).governor.conviction id = none)
    (hwindow : p.endLedger ≤ p.snapshotLedger + Token.checkpointRetention)
    {env₁ env₂ : Env} {status₁ status₂ : ProposalStatus} {s₁ s₂ : System}
    (h₁ : (finalize env₁ id).Returns (machine.run System.empty (first ++ more₁)) status₁ s₁)
    (h₂ : (finalize env₂ id).Returns (machine.run System.empty (first ++ more₂)) status₂ s₂) :
    let choice₁ := lastChoice (castBallots id (first ++ more₁))
    let choice₂ := lastChoice (castBallots id (first ++ more₂))
    (choice₁ = choice₂ → status₁ = status₂ ∧ ∃ q₁ q₂,
      (machine.run System.empty (first ++ more₁)).governor.proposal id = some q₁ ∧
      (machine.run System.empty (first ++ more₂)).governor.proposal id = some q₂ ∧
      ∀ c ≤ 2, (q₁.tally c).val = (q₂.tally c).val) ∧
    ((∀ voter, choice₂ voter = choice₁ voter ∨ choice₂ voter = some 1) →
      status₁ = .queued → status₂ = .queued) := by
  intro choice₁ choice₂
  obtain ⟨q₁, hq₁, htallies₁, hdecided₁⟩ :=
    finalize_carried_append hfirst hmore₁ hstored hclosed hstandard hwindow h₁
  obtain ⟨q₂, hq₂, htallies₂, hdecided₂⟩ :=
    finalize_carried_append hfirst hmore₂ hstored hclosed hstandard hwindow h₂
  rw [← lastChoice_castBallots (hfirst.append hmore₁)] at htallies₁ hdecided₁
  rw [← lastChoice_castBallots (hfirst.append hmore₂)] at htallies₂ hdecided₂
  constructor
  · intro hsame
    change lastChoice (castBallots id (first ++ more₁)) =
      lastChoice (castBallots id (first ++ more₂)) at hsame
    rw [hsame] at htallies₁ hdecided₁
    refine ⟨?_, q₁, q₂, hq₁, hq₂, fun c hc => (htallies₁ c hc).trans (htallies₂ c hc).symm⟩
    rcases hdecided₁ with ⟨rfl, hcarried⟩ | ⟨rfl, hlost⟩
    · exact (hdecided₂.resolve_right fun h => h.2 hcarried).1.symm
    · exact (hdecided₂.resolve_left fun h => hlost h.2).1.symm
  · rintro hturned rfl
    have hcarried := (hdecided₁.resolve_right fun h => by simpa using h.1).2
    have hstays : Election.Carried _ choice₂ :=
      hcarried.turned (snapshotWeight_nonneg hfirst p.snapshotLedger) Nat.one_ne_zero hturned
    exact (hdecided₂.resolve_right fun h => h.2 hstays).1

/-- The only voter votes For at once in one run, and by way of Against in the other. The proposal
is queued in both. -/
theorem decision_by_last_ballots_changed :
    let first := passingCalls.take 3
    let direct : List Invocation := [.governor (.authorized 6) (.vote (.account 1) 1 1)]
    let changed : List Invocation := [.governor (.authorized 6) (.vote (.account 1) 1 0),
      .governor (.authorized 7) (.vote (.account 1) 1 1)]
    ∃ s₁ s₂,
      (finalize (.authorized 10) 1).Returns (machine.run System.empty (first ++ direct)) .queued s₁ ∧
      (finalize (.authorized 10) 1).Returns (machine.run System.empty (first ++ changed)) .queued
        s₂ := by
  intro first direct changed
  have hfirst : machine.Scheduled 0 6 first := by decide
  have hdirect : machine.Scheduled 6 6 direct := by decide
  have hchanged : machine.Scheduled 6 7 changed := by decide
  obtain ⟨p, hp⟩ : ∃ p, (machine.run System.empty first).governor.proposal 1 = some p := ⟨_, rfl⟩
  have hwindow : ((machine.run System.empty first).governor.proposal 1).all (fun p =>
      decide (p.snapshotLedger < 6 ∧
        p.endLedger ≤ p.snapshotLedger + Token.checkpointRetention)) = true := by decide
  rw [hp, Option.all_some, decide_eq_true_eq] at hwindow
  have hsucceeds₁ : (finalize (.authorized 10) 1).Succeeds
      (machine.run System.empty (first ++ direct)) := by decide
  have hsucceeds₂ : (finalize (.authorized 10) 1).Succeeds
      (machine.run System.empty (first ++ changed)) := by decide
  obtain ⟨status₁, s₁, h₁⟩ := hsucceeds₁
  obtain ⟨status₂, s₂, h₂⟩ := hsucceeds₂
  have hqueued : ((finalize (.authorized 10) 1).run
      (machine.run System.empty (first ++ direct))).1.toOption = some .queued := by decide
  rw [h₁] at hqueued
  obtain rfl : status₁ = .queued := Option.some.inj hqueued
  have hsame := decision_by_last_ballots hfirst hdirect hchanged hp hwindow.1 (by decide)
    hwindow.2 h₁ h₂
  have hcast₁ : castBallots 1 (first ++ direct) = [] ++ [(.account 1, 1)] := by decide
  have hcast₂ : castBallots 1 (first ++ changed) = [(.account 1, 0)] ++ [(.account 1, 1)] := by
    decide
  have hboth : status₂ = .queued := by
    refine hsame.2 (fun voter => .inl ?_) rfl
    have hnone : lastChoice [((.account 1 : Address), 0)] voter =
        if .account 1 = voter then some 0 else none := lastChoice_concat [] _ voter
    rw [hcast₁, hcast₂, lastChoice_concat, lastChoice_concat, hnone]
    split
    · rfl
    · rfl
  exact ⟨s₁, s₂, h₁, hboth ▸ h₂⟩

/-! ## How much can be cast -/

/-- What those who have voted weigh is at most the supply and their stake boosts together. -/
theorem sum_snapshotWeight_voters_le {calls : List Invocation}
    (hcalls : machine.Scheduled start now calls) (ledger : ℕ) (accounts : Finset Address) :
    ∑ voter ∈ accounts, snapshotWeight calls ledger voter ≤
      (Token.totalSupply (machine.stateBefore System.empty calls (ledger + 1)).token).val +
        ∑ voter ∈ accounts, boostAtClose calls voter ledger := by
  have hsolvent := solvent_stateBefore hcalls (ledger + 1)
  have hdelegated : ∑ voter ∈ accounts, delegatedAtClose calls voter ledger ≤
      ∑ voter, delegatedAtClose calls voter ledger :=
    Finset.sum_le_univ_sum_of_nonneg fun voter => delegatedAtClose_nonneg calls voter ledger hcalls
  calc ∑ voter ∈ accounts, snapshotWeight calls ledger voter
      ≤ ∑ voter ∈ accounts, powerAtClose calls voter ledger :=
        Finset.sum_le_sum fun _ _ => min_le_left _ _
    _ = ∑ voter ∈ accounts, delegatedAtClose calls voter ledger +
        ∑ voter ∈ accounts, boostAtClose calls voter ledger := Finset.sum_add_distrib
    _ ≤ _ := add_le_add_left (hdelegated.trans hsolvent.sum_liveVotes.le) _

/-- In every reachable state, whatever the voting period and however often votes have been
changed and tokens moved, the three tallies of a proposal together are at most the snapshot
weights of those who have voted. So they are within the supply at the close of the snapshot
ledger and the stake boosts of the voters there, each of which is within the voter's own balance,
and never above twice that supply. -/
theorem turnout_bounded {calls : List Invocation} (hcalls : machine.Scheduled start now calls)
    {id : ℕ} {p : Proposal}
    (hstored : (machine.run System.empty calls).governor.proposal id = some p) :
    let s := machine.run System.empty calls
    let close := (machine.stateBefore System.empty calls (p.snapshotLedger + 1)).token
    let turnout := p.forVotes.val + p.againstVotes.val + p.abstainVotes.val
    turnout ≤ ∑ voter ∈ voters id s, snapshotWeight calls p.snapshotLedger voter ∧
    turnout ≤ (Token.totalSupply close).val +
      ∑ voter ∈ voters id s, boostAtClose calls voter p.snapshotLedger ∧
    (∀ voter, boostAtClose calls voter p.snapshotLedger ≤ (Token.balance close voter).val) ∧
    turnout ≤ 2 * (Token.totalSupply close).val := by
  intro s close turnout
  obtain ⟨σ, hσ⟩ := polled hcalls p hstored
  have hcast : turnout ≤ ∑ voter ∈ voters id s, snapshotWeight calls p.snapshotLedger voter := by
    have hagainst : p.againstVotes.val = σ.tally 0 := hσ.tallies 0 (by decide)
    have hfor : p.forVotes.val = σ.tally 1 := hσ.tallies 1 (by decide)
    have habstain : p.abstainVotes.val = σ.tally 2 := hσ.tallies 2 (by decide)
    have hsum := hσ.within.sum_tally_le
    simp only [Finset.sum_range_succ, Finset.sum_range_zero, zero_add] at hsum
    rw [hσ.voters_eq]
    omega
  refine ⟨hcast, hcast.trans (sum_snapshotWeight_voters_le hcalls _ _), fun voter => ?_,
    hcast.trans (sum_snapshotWeight_le hcalls _ _)⟩
  obtain ⟨tokenCalls, hsched, -, hbefore⟩ := token_run hcalls
  have hboost := Token.boostOf_le_close hsched voter p.snapshotLedger
  rw [← hbefore, ← hbefore] at hboost
  exact hboost

/-- The holder of a supply at the top of the machine type has staked and delegated all of it. -/
theorem turnout_bounded_boosted :
    ∃ p, (machine.run System.empty boostedCalls).governor.proposal 1 = some p ∧
      p.forVotes.val + p.againstVotes.val + p.abstainVotes.val ≤ 2 * maxI128 := by
  have hcalls : machine.Scheduled 0 6 boostedCalls := by decide
  obtain ⟨p, hp⟩ : ∃ p, (machine.run System.empty boostedCalls).governor.proposal 1 = some p :=
    ⟨_, rfl⟩
  have hbound := (turnout_bounded hcalls hp).2.2.2
  have hsupply := (Token.totalSupply
    (machine.stateBefore System.empty boostedCalls (p.snapshotLedger + 1)).token).upper
  exact ⟨p, hp, by omega⟩

end Quorum.Governor

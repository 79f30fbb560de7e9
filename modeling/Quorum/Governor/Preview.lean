import Quorum.Governor.Phases
import Quorum.Governor.Snapshot

/-!
# The previewed voting power

A view reports the power that an account would vote with. It reads the account's own balance at
the snapshot ledger, while a vote counts the balances delegated to the account there, and its
stake boost. The two readings agree for exactly those accounts for which what came in by
delegation and stake makes up for what went out.
-/

namespace Quorum.Governor

open Foundation Contract

variable {s : System} {env : Env} {config : Config} {p : Proposal} {start now id : ℕ}
  {voter : Address}

/-- The voting power that an account is shown for a proposal. -/
def getVotingPower (proposalId : ℕ) (voter : Address) : GovernorM I128 := do
  let proposal ← requireProposal proposalId
  let _ ← getConfig
  queryToken fun token => Token.getPastBalance token voter proposal.snapshotLedger

/-- A vote that everything but the weight speaks for: the voter authorizes it and chooses one of
the three options, and the proposal is open for voting. -/
structure MayVote (env : Env) (voter : Address) (id support : ℕ) (p : Proposal) (s : System) :
    Prop where
  stored : s.governor.proposal id = some p
  auth : env.auth voter = true
  choice : support ≤ 2
  active : p.status = .active
  started : p.startLedger ≤ env.sequence
  notEnded : env.sequence ≤ p.endLedger

/-- What is shown at the ledger `now` is what a vote reads and counts, and it is 0 exactly if a
vote is refused for having no weight. -/
structure PreviewAgrees (now id : ℕ) (voter : Address) (p : Proposal) (s : System) : Prop where
  reads : ∃ weight, (Token.getPastVotes voter p.snapshotLedger).Returns s.token weight s.token ∧
    (getVotingPower id voter).Returns s weight s
  counts : ∀ env support weight, env.sequence = now → CountsWeight env voter id support s weight →
    (getVotingPower id voter).Returns s weight s
  powerless : ∀ env support, env.sequence = now → MayVote env voter id support p s →
    ((getVotingPower id voter).Returns s 0 s ↔
      Refused [.noVotingPower] (vote env voter id support) s)

/-! ## The two readings -/

/-- `get_voting_power` returns the balance held at the snapshot. -/
theorem getVotingPower_returns (hconfig : s.governor.config = some config)
    (hp : s.governor.proposal id = some p) (voter : Address) :
    (getVotingPower id voter).Returns s (Token.getPastBalance s.token voter p.snapshotLedger) s := by
  apply (returns_requireProposal hp).bind
  apply (returns_getConfig hconfig).bind
  rfl

/-- Where everything else is in order, only a weight of 0 leaves a voter without voting power. -/
theorem vote_powerless_iff {support : ℕ} {weight : I128}
    (hconfig : s.governor.config = some config) (h : MayVote env voter id support p s)
    (hread : (Token.getPastVotes voter p.snapshotLedger).Returns s.token weight s.token) :
    Refused [.noVotingPower] (vote env voter id support) s ↔ weight.val ≤ 0 := by
  have hcall : (callToken (Token.getPastVotes voter p.snapshotLedger)).Returns s weight s :=
    returns_call_iff.mpr ⟨s.token, hread, rfl⟩
  have hnotEnded := Nat.not_lt.mpr h.notEnded
  rw [Refused, vote, (returns_requireConfig hconfig).fails_bind_iff, requireAuth,
    fails_demand_bind_iff, fails_passed_bind_iff (Nat.not_lt.mpr h.choice),
    (returns_requireProposal h.stored).fails_bind_iff, fails_read_bind_iff,
    fails_passed_bind_iff (fun hended => hnotEnded hended.1), fails_passed_bind_iff hnotEnded,
    fails_passed_bind_iff (not_not.mpr h.active), fails_passed_bind_iff (Nat.not_lt.mpr h.started),
    hcall.fails_bind_iff, fails_check_bind_iff (by simp)]
  constructor
  · rintro (⟨hnone, -⟩ | ⟨-, hweight | h'⟩)
    · exact absurd h.auth hnone
    · exact hweight
    · -- Behind the check only the tallies can refuse a vote.
      simp only [fails_okOr_bind_iff] at h'
      obtain ⟨-, h'⟩ | ⟨q, -, ⟨-, h'⟩ | ⟨counted, -, h'⟩⟩ := h'
      · simp at h'
      · simp at h'
      · rcases fails_bind_iff.mp h' with h' | ⟨-, t, -, h'⟩
        · simpa using (voteConviction_fails h').1
        · simp at h'
  · intro hweight
    exact .inr ⟨h.auth, .inl hweight⟩

/-- The preview agrees exactly if the two readings of the token are the same. -/
theorem previewAgrees_iff_readings {weight : I128} (hconfig : s.governor.config = some config)
    (hp : s.governor.proposal id = some p) (hnonneg : 0 ≤ weight.val)
    (hread : (Token.getPastVotes voter p.snapshotLedger).Returns s.token weight s.token) :
    PreviewAgrees now id voter p s ↔
      weight.val = (Token.getPastBalance s.token voter p.snapshotLedger).val := by
  have hpreview := getVotingPower_returns hconfig hp voter
  rw [← I128.ext_iff]
  constructor
  · intro h
    obtain ⟨other, hother, hshown⟩ := h.reads
    rw [Returns.value_eq hread hother, Returns.value_eq hshown hpreview]
  · rintro heq
    rw [← heq] at hpreview
    refine ⟨⟨weight, hread, hpreview⟩, ?_, ?_⟩
    · rintro env support other - ⟨q, counted, hvotes⟩
      obtain rfl : p = q := Option.some.inj (hp.symm.trans hvotes.stored)
      rwa [Returns.value_eq hvotes.weight hread]
    · rintro env support - hmay
      rw [vote_powerless_iff hconfig hmay hread]
      constructor
      · intro hzero
        rw [Returns.value_eq hpreview hzero, I128.zero_val]
      · intro hweight
        have hzero : weight = 0 := I128.ext (by rw [I128.zero_val]; omega)
        rwa [← hzero]

/-! ## When they agree -/

/-- The balance of `voter` when a ledger closes in a run. -/
def balanceAtClose (calls : List Invocation) (voter : Address) (ledger : ℕ) : ℤ :=
  (Token.balance (machine.stateBefore System.empty calls (ledger + 1)).token voter).val

/-- In every reachable state the preview agrees with the vote exactly if what the voter held when
the snapshot ledger closed is what was delegated to the voter then, together with the stake
boost, cut at the top of the machine type. Beyond the retention window each of the three counts
as long as the stored history of it reaches back to the snapshot. -/
theorem preview_agrees_iff {calls : List Invocation} (hcalls : machine.Scheduled start now calls)
    (hstored : (machine.run System.empty calls).governor.proposal id = some p) (voter : Address) :
    let s := machine.run System.empty calls
    (PreviewAgrees now id voter p s ↔
      min ((if reachesBack Token.Checkpoint.ledger (p.snapshotLedger + 1)
              (Token.voteCheckpoints s.token voter) = true
            then delegatedAtClose calls voter p.snapshotLedger else 0) +
          if reachesBack Token.Lock.ledger p.snapshotLedger (Token.locks s.token voter) = true
            then boostAtClose calls voter p.snapshotLedger else 0) maxI128 =
        if reachesBack Token.Checkpoint.ledger (p.snapshotLedger + 1)
            (Token.checkpoints s.token voter) = true
          then balanceAtClose calls voter p.snapshotLedger else 0) ∧
    (now ≤ p.snapshotLedger + Token.checkpointRetention →
      (PreviewAgrees now id voter p s ↔
        min (powerAtClose calls voter p.snapshotLedger) maxI128 =
          balanceAtClose calls voter p.snapshotLedger)) := by
  intro s
  obtain ⟨config, hconfig, -⟩ := ((wellFormed_run hcalls).proposals id p hstored).endLedger
  obtain ⟨tokenCalls, hsched, hrun, hbefore⟩ := token_run hcalls
  constructor
  · obtain ⟨weight, hread, hval⟩ := getPastVotes_run_eq_ite hcalls voter p.snapshotLedger
    have hbalance := Token.getPastBalance_run_eq_ite hsched voter p.snapshotLedger
    rw [← hrun] at hbalance
    have hnonneg : 0 ≤ weight.val := by
      have hdelegated := delegatedAtClose_nonneg calls voter p.snapshotLedger hcalls
      have hboost := boostAtClose_nonneg calls voter p.snapshotLedger
      have hmax := I128.maxI128_nonneg
      rw [hval]
      split <;> split <;> omega
    rw [previewAgrees_iff_readings hconfig hstored hnonneg hread, hval, hbalance, balanceAtClose,
      hbefore, apply_ite I128.val]
    rfl
  · intro hretained
    obtain ⟨weight, hread, hval⟩ := getPastVotes_run hcalls voter hretained
    have hreads := Token.readsExactly_run (g := Token.Genesis.empty start) hsched hretained voter
    have hbalance : (Token.getPastBalance s.token voter p.snapshotLedger).val =
        balanceAtClose calls voter p.snapshotLedger := by
      rw [hrun, balanceAtClose, hbefore]
      exact congrArg I128.val
        (hreads.balance.trans (Token.balanceAtClose_empty hsched voter p.snapshotLedger))
    have hnonneg : 0 ≤ weight.val := by
      rw [hval]
      exact le_min (powerAtClose_nonneg calls voter _ hcalls) I128.maxI128_nonneg
    rw [previewAgrees_iff_readings hconfig hstored hnonneg hread, hval, hbalance]

/-- Account 1 delegates to account 2 before it opens a proposal. -/
def delegatedCalls : List Invocation :=
  launchCalls 3 ++ [.token ⟨.authorized 2, .delegate (.account 1) (.account 2)⟩,
    .governor (.authorized 5) (.createProposal (.account 1) [84] [] [])]

/-- Account 2 is shown no voting power, and votes with 100. -/
theorem preview_disagrees_delegated :
    ∃ p shown weight, (machine.run System.empty delegatedCalls).governor.proposal 1 = some p ∧
      p.startLedger ≤ 6 ∧
      (getVotingPower 1 (.account 2)).Returns (machine.run System.empty delegatedCalls) shown
        (machine.run System.empty delegatedCalls) ∧
      CountsWeight (.authorized 6) (.account 2) 1 1 (machine.run System.empty delegatedCalls)
        weight ∧
      shown.val = 0 ∧ weight.val = 100 ∧
      ¬ PreviewAgrees 6 1 (.account 2) p (machine.run System.empty delegatedCalls) := by
  have hcalls : machine.Scheduled 0 6 delegatedCalls := by decide
  have hvote : Accepted (.authorized 6) (.vote (.account 2) 1 1)
      (machine.run System.empty delegatedCalls) := by decide
  have hshown : (getVotingPower 1 (.account 2)).Returns (machine.run System.empty delegatedCalls) 0
      (machine.run System.empty delegatedCalls) := rfl
  obtain ⟨weight, hweight⟩ := hvote.countsWeight
  obtain ⟨p, counted, hvotes⟩ := id hweight
  have hp : ((machine.run System.empty delegatedCalls).governor.proposal 1).map
      (fun p => (p.snapshotLedger, p.startLedger)) = some (5, 6) := by decide
  rw [hvotes.stored, Option.map_some, Option.some.injEq, Prod.mk.injEq] at hp
  have hread : ((Token.getPastVotes (.account 2) 5).run
      (machine.run System.empty delegatedCalls).token).1 = .ok (.ofNat 100) := by decide
  have hval : weight = .ofNat 100 := by
    have hcounted := hvotes.weight
    rw [hp.1] at hcounted
    exact Except.ok.inj ((congrArg Prod.fst hcounted).symm.trans hread)
  refine ⟨p, 0, weight, hvotes.stored, hp.2.le, hshown, hweight, rfl, ?_, ?_⟩
  · rw [hval]
    decide
  · intro hagrees
    have heq := Returns.value_eq hshown (hagrees.counts _ _ _ rfl hweight)
    rw [hval] at heq
    exact absurd heq (by decide)

/-- Before any delegation or stake the preview agrees for the only holder. -/
theorem preview_agrees_iff_passing :
    ∃ p, (machine.run System.empty (passingCalls.take 3)).governor.proposal 1 = some p ∧
      PreviewAgrees 6 1 (.account 1) p (machine.run System.empty (passingCalls.take 3)) := by
  have hcalls : machine.Scheduled 0 6 (passingCalls.take 3) := by decide
  obtain ⟨p, hp⟩ : ∃ p, (machine.run System.empty (passingCalls.take 3)).governor.proposal 1 =
      some p := ⟨_, rfl⟩
  have hsnapshot : ((machine.run System.empty (passingCalls.take 3)).governor.proposal 1).map
      Proposal.snapshotLedger = some 5 := by decide
  rw [hp, Option.map_some, Option.some.injEq] at hsnapshot
  obtain ⟨-, hretained⟩ := preview_agrees_iff hcalls hp (.account 1)
  rw [hsnapshot, powerAtClose, delegatedAtClose_eq hcalls _ (by decide)] at hretained
  exact ⟨p, hp, (hretained (by decide)).mpr (by decide)⟩

end Quorum.Governor

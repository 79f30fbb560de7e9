import Mathlib.Tactic.IntervalCases
import Quorum.Governor.Lifecycle
import Quorum.Token.Staking

/-!
# Vote counting

The weight of a vote is read from the token at the proposal's snapshot ledger, which is over
when voting starts. Within the retention window the reading is the voting power that was live
when the snapshot ledger closed, cut at the top of the machine type, whatever the token has done
since. So the weight taken out on a change of a vote is the weight that was counted, and each
tally is the sum of the weights of those whose choice it is.
-/

namespace Quorum.Governor

open Foundation Contract

variable {s s' : System} {env : Env} {start now id : ℕ}

/-! ## Voting power at the close of a ledger -/

/-- The balances delegated to `voter` when a ledger closes in a run. -/
def delegatedAtClose (calls : List Invocation) (voter : Address) (ledger : ℕ) : ℤ :=
  Token.liveVotes (machine.stateBefore System.empty calls (ledger + 1)).token voter

/-- The stake boost of `voter` there, from the locks taken before the ledger. -/
def boostAtClose (calls : List Invocation) (voter : Address) (ledger : ℕ) : ℤ :=
  Token.boostOf
    (Token.currentLock (Token.locks (machine.stateBefore System.empty calls ledger).token voter))
    ledger

/-- Effective voting power when a ledger closes. -/
def powerAtClose (calls : List Invocation) (voter : Address) (ledger : ℕ) : ℤ :=
  delegatedAtClose calls voter ledger + boostAtClose calls voter ledger

/-- The delegated weight at the close is never negative. -/
theorem delegatedAtClose_nonneg (calls : List Invocation) (voter : Address) (ledger : ℕ)
    (hcalls : machine.Scheduled start now calls) : 0 ≤ delegatedAtClose calls voter ledger := by
  have hsolvent := solvent_stateBefore hcalls (ledger + 1)
  rw [delegatedAtClose, Token.liveVotes]
  exact delegated_nonneg hsolvent.nonneg voter

/-- The boost at the close is never negative. -/
theorem boostAtClose_nonneg (calls : List Invocation) (voter : Address) (ledger : ℕ) :
    0 ≤ boostAtClose calls voter ledger :=
  Token.boostOf_currentLock_nonneg _ voter ledger

/-- The power at the close is never negative. -/
theorem powerAtClose_nonneg (calls : List Invocation) (voter : Address) (ledger : ℕ)
    (hcalls : machine.Scheduled start now calls) : 0 ≤ powerAtClose calls voter ledger :=
  Int.add_nonneg (delegatedAtClose_nonneg calls voter ledger hcalls)
    (boostAtClose_nonneg calls voter ledger)

/-- Within the retention window the token reports the power at the close, cut at the top of the
machine type. -/
theorem getPastVotes_run {calls : List Invocation} (hcalls : machine.Scheduled start now calls)
    (voter : Address) {ledger : ℕ} (hretained : now ≤ ledger + Token.checkpointRetention) :
    ∃ weight : I128, (Token.getPastVotes voter ledger).Returns
        (machine.run System.empty calls).token weight (machine.run System.empty calls).token ∧
      weight.val = min (powerAtClose calls voter ledger) maxI128 := by
  obtain ⟨tokenCalls, hsched, hrun, hbefore⟩ := token_run hcalls
  have hreads := Token.readsExactly_run (g := Token.Genesis.empty start) hsched hretained voter
  obtain ⟨boost, -, hboost, hret⟩ := hreads.boost
  have hvotes := hreads.votes
  rw [Token.votesAtClose_empty hsched] at hvotes
  have hpower : powerAtClose calls voter ledger =
      (Token.valueAt (Token.voteCheckpoints (Token.machine.run Token.Storage.empty tokenCalls)
        voter) ledger).val + boost.val := by
    have hdelegated : delegatedAtClose calls voter ledger =
        (Token.valueAt (Token.voteCheckpoints (Token.machine.run Token.Storage.empty tokenCalls)
          voter) ledger).val := by
      rw [delegatedAtClose, hbefore]
      exact hvotes.symm
    have hstake : boostAtClose calls voter ledger = boost.val := by
      rw [boostAtClose, hbefore, hboost]
      rfl
    rw [powerAtClose, hdelegated, hstake]
  have hnonneg := powerAtClose_nonneg calls voter ledger hcalls
  rw [hpower] at hnonneg
  rw [hrun, hpower]
  exact ⟨_, hret, I128.saturatingAdd_val hnonneg⟩

/-- Whatever has been pruned, each of the two parts of the power at the close is reported as long
as the stored history of that part reaches back that far. -/
theorem getPastVotes_run_eq_ite {calls : List Invocation}
    (hcalls : machine.Scheduled start now calls) (voter : Address) (ledger : ℕ) :
    let t := (machine.run System.empty calls).token
    ∃ weight : I128, (Token.getPastVotes voter ledger).Returns t weight t ∧ weight.val =
      min ((if reachesBack Token.Checkpoint.ledger (ledger + 1)
              (Token.voteCheckpoints t voter) = true
            then delegatedAtClose calls voter ledger else 0) +
        if reachesBack Token.Lock.ledger ledger (Token.locks t voter) = true
          then boostAtClose calls voter ledger else 0) maxI128 := by
  intro t
  obtain ⟨tokenCalls, hsched, hrun, hbefore⟩ := token_run hcalls
  obtain ⟨weight, hret, hval⟩ := Token.getPastVotes_run_eq_ite hsched voter ledger
  rw [← hrun] at hret hval
  refine ⟨weight, hret, ?_⟩
  rw [hval, delegatedAtClose, boostAtClose, hbefore, hbefore]

/-- Two readings of the same entry agree. -/
theorem Returns.value_eq {E S A : Type} {m : Contract E S A} {s s₁ s₂ : S} {a b : A}
    (ha : m.Returns s a s₁) (hb : m.Returns s b s₂) : a = b := by
  have heq := ha.symm.trans hb
  simpa using congrArg Prod.fst heq

section Settled

variable {calls more : List Invocation} {mid ledger : ℕ}

/-- Later calls leave the delegated weight at the close of an earlier ledger. -/
theorem delegatedAtClose_append (hmore : machine.Scheduled mid now more) (hledger : ledger < mid)
    (voter : Address) :
    delegatedAtClose (calls ++ more) voter ledger = delegatedAtClose calls voter ledger := by
  rw [delegatedAtClose, hmore.stateBefore_append hledger, delegatedAtClose]

/-- Later calls leave the boost at the close of an earlier ledger. -/
theorem boostAtClose_append (hmore : machine.Scheduled mid now more) (hledger : ledger < mid)
    (voter : Address) :
    boostAtClose (calls ++ more) voter ledger = boostAtClose calls voter ledger := by
  rw [boostAtClose, hmore.stateBefore_append hledger.le, boostAtClose]

/-- The power at the close of a ledger is settled by the calls made up to its end. -/
theorem powerAtClose_append (hmore : machine.Scheduled mid now more) (hledger : ledger < mid)
    (voter : Address) :
    powerAtClose (calls ++ more) voter ledger = powerAtClose calls voter ledger := by
  rw [powerAtClose, delegatedAtClose_append hmore hledger, boostAtClose_append hmore hledger,
    powerAtClose]

end Settled

/-! ## One vote -/

/-- Replacing the tally of one choice leaves the others. -/
theorem Proposal.tally_setTally (p : Proposal) {support c : ℕ} (hsupport : support ≤ 2)
    (hc : c ≤ 2) (value : I128) :
    (p.setTally support value).tally c = if support = c then value else p.tally c := by
  interval_cases support <;> interval_cases c <;> rfl

/-- Taking a ballot out lowers the tally of its choice alone, by its weight. -/
theorem uncount_tally {p q : Proposal} {previous : Option ℕ} {votingPower : I128}
    (h : uncount p previous votingPower = some q) (hprevious : ∀ x ∈ previous, x ≤ 2) {c : ℕ}
    (hc : c ≤ 2) : (q.tally c).val =
      (p.tally c).val - if previous = some c then votingPower.val else 0 := by
  cases previous with
  | none =>
    obtain rfl := Option.some.inj h
    simp
  | some support =>
    obtain ⟨rest, hrest, rfl⟩ := Option.map_eq_some_iff.mp h
    obtain ⟨hval, -⟩ := I128.filter_checkedSub_eq_some.mp hrest
    rw [p.tally_setTally (hprevious support rfl) hc]
    by_cases hsame : support = c
    · subst hsame
      simp [hval]
    · simp [hsame]

/-- Counting a ballot raises the tally of its choice alone, by its weight. -/
theorem count_tally {p q : Proposal} {support : ℕ} {votingPower : I128}
    (h : count p support votingPower = some q) (hsupport : support ≤ 2) {c : ℕ} (hc : c ≤ 2) :
    (q.tally c).val = (p.tally c).val + if support = c then votingPower.val else 0 := by
  obtain ⟨sum, hsum, rfl⟩ := Option.map_eq_some_iff.mp h
  have hval := I128.checkedAdd_eq_some.mp hsum
  rw [p.tally_setTally hsupport hc]
  by_cases hsame : support = c
  · subst hsame
    simp [← hval]
  · simp [hsame]

/-- A vote moves its weight from the earlier choice to the new one. -/
theorem Votes.tally {voter : Address} {support : ℕ} {p counted : Proposal} {votingPower : I128}
    (hw : WellFormed now s) (h : Votes env voter id support p counted votingPower s s') {c : ℕ}
    (hc : c ≤ 2) : (counted.tally c).val = (p.tally c).val -
        (if s.governor.hasVoted id voter = some c then votingPower.val else 0) +
        if support = c then votingPower.val else 0 := by
  obtain ⟨q, huncount, hcount⟩ := h.recount
  rw [count_tally hcount h.choice hc,
    uncount_tally huncount (fun x hx => hw.choices id voter x hx) hc]

/-! ## The invariant -/

/-- The tallies of a proposal are the weights of those whose choice they are. -/
def Counted (weight : ℕ → Address → ℤ) (id : ℕ) (s : System) : Prop :=
  ∀ p, s.governor.proposal id = some p → ∀ c ≤ 2,
    (p.tally c).val = tallied (s.governor.hasVoted id) (weight p.snapshotLedger) c

/-- What has been counted reads the proposal and its ballots alone. -/
theorem Counted.of_eq {weight : ℕ → Address → ℤ} (h : Counted weight id s)
    (hproposal : s'.governor.proposal id = s.governor.proposal id)
    (hvotes : s'.governor.hasVoted id = s.governor.hasVoted id) : Counted weight id s' := by
  intro p hp c hc
  rw [hproposal] at hp
  rw [hvotes]
  exact h p hp c hc

/-- A restated proposal with the same tallies counts the same ballots. -/
theorem Restates.counted {weight : ℕ → Address → ℤ} {other : ℕ} {p p' : Proposal}
    (h : Restates other p p' s s') (hs : Counted weight id s) (hkept : Kept p p')
    (htallies : SameTallies p p') : Counted weight id s' := by
  intro q hq c hc
  rw [h.proposal] at hq
  rw [h.hasVoted]
  by_cases hid : id = other
  · subst hid
    rw [Function.update_self] at hq
    obtain rfl := Option.some.inj hq
    rw [htallies.tally, hkept.snapshotLedger]
    exact hs p h.stored c hc
  · rw [Function.update_of_ne hid] at hq
    exact hs q hq c hc

/-- A counted vote keeps the tallies exact, if its weight is the voter's. -/
theorem Votes.counted {weight : ℕ → Address → ℤ} {voter : Address} {support other : ℕ}
    {p counted : Proposal} {votingPower : I128} (hw : WellFormed now s)
    (h : Votes env voter other support p counted votingPower s s') (hs : Counted weight id s)
    (hweight : other = id → votingPower.val = weight p.snapshotLedger voter) :
    Counted weight id s' := by
  by_cases hid : id = other
  · subst hid
    intro q hq c hc
    rw [h.proposal, Function.update_self] at hq
    obtain rfl := Option.some.inj hq
    rw [h.hasVoted, Function.update_self, tallied_update, h.kept.snapshotLedger,
      ← hs p h.stored c hc, h.tally hw hc, hweight rfl]
  · apply hs.of_eq
    · rw [h.proposal, Function.update_of_ne hid]
    · rw [h.hasVoted, Function.update_of_ne hid]

/-- A call keeps the tallies counted, as long as its vote weighs what the snapshot says. -/
theorem Change.counted {weight : ℕ → Address → ℤ} {c : Call} (hw : WellFormed now s)
    (h : Change env c s s') (hs : Counted weight id s)
    (hweight : ∀ voter support p counted votingPower,
      Votes env voter id support p counted votingPower s s' →
        votingPower.val = weight p.snapshotLedger voter) : Counted weight id s' := by
  cases h.outline with
  | quiet _ h => exact hs.of_eq (by rw [h.proposal]) (by rw [h.hasVoted])
  | @opened _ _ _ q _ h =>
    by_cases hid : id = q.id
    · subst hid
      intro p hp c hc
      rw [h.proposal, Function.update_self] at hp
      obtain rfl := Option.some.inj hp
      have hnone : s'.governor.hasVoted q.id = fun _ => none := by
        rw [h.hasVoted]
        exact funext (hw.fresh h).2.1
      rw [hnone, tallied_none, h.tallies, I128.zero_val]
    · apply hs.of_eq
      · rw [h.proposal, Function.update_of_ne hid]
      · rw [h.hasVoted]
  | @voted voter other support p counted votingPower _ h =>
    apply h.counted hw hs
    rintro rfl
    exact hweight voter support p counted votingPower h
  | restated _ hkept htallies h => exact h.counted hs hkept htallies

/-- A step keeps the tallies counted, as long as its vote weighs what the snapshot says. -/
theorem Step.counted {weight : ℕ → Address → ℤ} {i : Invocation} (hw : WellFormed now s)
    (h : Step i s s') (hs : Counted weight id s)
    (hweight : ∀ env voter support p counted votingPower, i.sequence = env.sequence →
      Votes env voter id support p counted votingPower s s' →
        votingPower.val = weight p.snapshotLedger voter) : Counted weight id s' := by
  cases h with
  | token _ => exact hs
  | refused => exact hs
  | governor hret he =>
    apply he.change.counted hw hs
    intro voter support p counted votingPower hvotes
    exact hweight _ voter support p counted votingPower rfl hvotes

/-- While a vote is accepted the snapshot ledger is over. -/
theorem Votes.closed {voter : Address} {support : ℕ} {p counted : Proposal} {votingPower : I128}
    (hw : WellFormed now s) (h : Votes env voter id support p counted votingPower s s') :
    p.snapshotLedger < env.sequence := by
  have hstarted := h.started
  rw [(hw.proposals id p h.stored).startLedger] at hstarted
  exact hstarted

/-- The weight that a proposal's snapshot gives an account. -/
def snapshotWeight (calls : List Invocation) (ledger : ℕ) (voter : Address) : ℤ :=
  min (powerAtClose calls voter ledger) maxI128

/-- While a proposal is open its snapshot ledger is over, so a vote within the retention window
counts the snapshot weight. -/
theorem Votes.weight_eq {calls more : List Invocation} {voter : Address} {support : ℕ}
    {p counted : Proposal} {votingPower : I128}
    (hcalls : machine.Scheduled start env.sequence calls)
    (hmore : machine.Scheduled env.sequence now more)
    (hretained : env.sequence ≤ p.snapshotLedger + Token.checkpointRetention)
    (h : Votes env voter id support p counted votingPower (machine.run System.empty calls) s') :
    votingPower.val = snapshotWeight (calls ++ more) p.snapshotLedger voter := by
  have hclosed := h.closed (wellFormed_run hcalls)
  obtain ⟨weight, hret, hval⟩ := getPastVotes_run hcalls voter hretained
  rw [Returns.value_eq h.weight hret, hval, snapshotWeight,
    powerAtClose_append hmore hclosed]

/-- Along a run the tallies stay the sums of the snapshot weights of the whole run, as long as
every vote has come within the retention window. -/
theorem counted_run {first rest : List Invocation}
    (hcalls : machine.Scheduled start now (first ++ rest))
    (hwindow : ∀ p, (machine.run System.empty (first ++ rest)).governor.proposal id = some p →
      min now p.endLedger ≤ p.snapshotLedger + Token.checkpointRetention) :
    Counted (snapshotWeight (first ++ rest)) id (machine.run System.empty first) := by
  induction first using List.reverseRecOn generalizing rest with
  | nil => exact fun p hp => by simp [System.empty, Storage.empty] at hp
  | append_singleton first i ih =>
    rw [List.append_assoc, List.singleton_append] at hcalls hwindow ⊢
    obtain ⟨hfirst, hrest⟩ := hcalls.of_append
    have hw := wellFormed_run hfirst
    have hlater : machine.Scheduled (machine.time i) now (i :: rest) := ⟨le_rfl, hrest⟩
    rw [Clocked.run_append]
    apply (machine_step hw.blank i).counted hw (ih hcalls hwindow)
    intro env voter support p counted votingPower htime hvotes
    obtain ⟨q, hq, hkept⟩ := kept_run hw hlater hvotes.stored
    rw [← Clocked.run_append] at hq
    have hclose := hwindow q hq
    rw [hkept.endLedger, hkept.snapshotLedger] at hclose
    change machine.time i = env.sequence at htime
    rw [htime] at hfirst hlater
    exact hvotes.weight_eq hfirst hlater ((le_min hlater.le hvotes.notEnded).trans hclose)

/-- In every reachable state the tallies count the weights at the snapshot, while these are
retained. -/
theorem counted {calls : List Invocation} {p : Proposal}
    (hcalls : machine.Scheduled start now calls)
    (hstored : (machine.run System.empty calls).governor.proposal id = some p)
    (hwindow : min now p.endLedger ≤ p.snapshotLedger + Token.checkpointRetention) :
    Counted (snapshotWeight calls) id (machine.run System.empty calls) := by
  have hnil : machine.Scheduled start now (calls ++ []) := by rwa [List.append_nil]
  have hrun : Counted (snapshotWeight (calls ++ [])) id (machine.run System.empty calls) := by
    apply counted_run hnil
    intro q hq
    rw [List.append_nil, hstored] at hq
    exact Option.some.inj hq ▸ hwindow
  rwa [List.append_nil] at hrun

/-- In every reachable state each tally of a proposal is the sum of the weights of exactly those
whose recorded choice it is. The weight is the voting power at the close of the snapshot ledger,
cut at the top of the machine type; the token reports it at every ledger of the voting window.
The balances behind the votes are counted through one voter each, within the supply at that
close. -/
theorem votes_counted_exactly {calls : List Invocation}
    (hcalls : machine.Scheduled start now calls)
    (hperiod : ∀ config, (machine.run System.empty calls).governor.config = some config →
      config.votingPeriod + 1 ≤ Token.checkpointRetention) {id : ℕ} {p : Proposal}
    (hstored : (machine.run System.empty calls).governor.proposal id = some p) :
    let s := machine.run System.empty calls
    let close := (machine.stateBefore System.empty calls (p.snapshotLedger + 1)).token
    (∀ c ≤ 2, (p.tally c).val = ∑ voter, if s.governor.hasVoted id voter = some c then
      min (powerAtClose calls voter p.snapshotLedger) maxI128 else 0) ∧
    (∀ first rest ledger voter, calls = first ++ rest → machine.Scheduled start ledger first →
      machine.Scheduled ledger now rest → p.startLedger ≤ ledger → ledger ≤ p.endLedger →
        ∃ weight : I128, (Token.getPastVotes voter p.snapshotLedger).Returns
            (machine.run System.empty first).token weight
            (machine.run System.empty first).token ∧
          weight.val = min (powerAtClose calls voter p.snapshotLedger) maxI128) ∧
    (∑ voter, if (s.governor.hasVoted id voter).isSome = true then
        delegatedAtClose calls voter p.snapshotLedger else 0) =
      (∑ holder, if (s.governor.hasVoted id (Token.getDelegates close holder)).isSome = true then
        (Token.balance close holder).val else 0) ∧
    (∑ voter, if (s.governor.hasVoted id voter).isSome = true then
        delegatedAtClose calls voter p.snapshotLedger else 0) ≤
      (Token.totalSupply close).val := by
  intro s close
  have hp := (wellFormed_run hcalls).proposals id p hstored
  have hwindow : p.endLedger ≤ p.snapshotLedger + Token.checkpointRetention := by
    obtain ⟨config, hconfig, hend⟩ := hp.endLedger
    have hbound := hperiod config hconfig
    rw [hend, hp.startLedger]
    omega
  have hsolvent : Token.Solvent close := solvent_stateBefore hcalls (p.snapshotLedger + 1)
  have hdelegated : (∑ voter, if (s.governor.hasVoted id voter).isSome = true then
      delegatedAtClose calls voter p.snapshotLedger else 0) = _ :=
    sum_delegated_where (Token.getDelegates close) (Token.weight close)
      fun voter => (s.governor.hasVoted id voter).isSome = true
  refine ⟨?_, ?_, hdelegated, ?_⟩
  · exact fun c hc => counted hcalls hstored ((min_le_right _ _).trans hwindow) p hstored c hc
  · rintro first rest ledger voter rfl hfirst hrest hstarted hended
    obtain ⟨weight, hret, hval⟩ := getPastVotes_run hfirst voter (hended.trans hwindow)
    refine ⟨weight, hret, ?_⟩
    rw [hval, powerAtClose_append hrest (by rw [hp.startLedger] at hstarted; exact hstarted)]
  · rw [hdelegated, ← hsolvent.total]
    apply Finset.sum_le_sum
    intro holder _
    split
    · exact le_rfl
    · exact hsolvent.nonneg holder

/-- The delegated balances at a close can be read from the vote checkpoints. -/
theorem delegatedAtClose_eq {calls : List Invocation} (hcalls : machine.Scheduled start now calls)
    (voter : Address) {ledger : ℕ} (hledger : start ≤ ledger) :
    delegatedAtClose calls voter ledger = (Token.currentVotes
      (machine.stateBefore System.empty calls (ledger + 1)).token voter ledger).val := by
  have hbefore : machine.Scheduled start ledger (machine.before (ledger + 1) calls) :=
    hcalls.before hledger le_rfl
  exact ((token_sound hbefore).coherent.currentVotes_eq voter).symm

/-- The holder of the whole supply transfers most of it after the snapshot, votes Against and
then changes to For. -/
def countedCalls : List Invocation :=
  launchCalls 3 ++ [.governor (.authorized 5) (.createProposal (.account 1) [84] [] []),
    .token ⟨.authorized 6, .transfer (.account 1) (.account 2) (.ofNat 70)⟩,
    .governor (.authorized 6) (.vote (.account 1) 1 0),
    .governor (.authorized 7) (.vote (.account 1) 1 1)]

/-- A ballot counts what its voter held at the close, wherever the tokens went after. -/
theorem votes_counted_exactly_moved :
    (∑ voter, if (machine.run System.empty countedCalls).governor.hasVoted 1 voter = some 1 then
      min (powerAtClose countedCalls voter 5) maxI128 else 0) = 100 := by
  have hcalls : machine.Scheduled 0 8 countedCalls := by decide
  obtain ⟨p, hp⟩ : ∃ p, (machine.run System.empty countedCalls).governor.proposal 1 = some p :=
    ⟨_, rfl⟩
  have hconfig : (machine.run System.empty countedCalls).governor.config.map
      Config.votingPeriod = some 3 := by decide
  have hproposal : ((machine.run System.empty countedCalls).governor.proposal 1).map
      (fun p => (p.snapshotLedger, (p.tally 1).val)) = some (5, 100) := by decide
  have hperiod : ∀ config, (machine.run System.empty countedCalls).governor.config = some config →
      config.votingPeriod + 1 ≤ Token.checkpointRetention := by
    intro config hsome
    rw [hsome] at hconfig
    rw [Option.some.inj hconfig]
    decide
  rw [hp, Option.map_some, Option.some.injEq, Prod.mk.injEq] at hproposal
  have hcount := (votes_counted_exactly hcalls hperiod hp).1 1 (by decide)
  rw [hproposal.1, hproposal.2] at hcount
  exact hcount.symm

/-- The whole supply is at the top of the machine type, staked for a year, and votes. -/
def saturatedCalls : List Invocation :=
  [.token ⟨.authorized 1, .initializeToken (.account 1) [] [] 7 .top⟩,
    .token ⟨.authorized 1, .stake (.account 1) .top Token.maxLockLedgers⟩,
    .governor (.authorized 1)
      (.initializeGovernor (.account 1) (.account 2) (.contract 1) 1 3 2 0 0),
    .governor (.authorized 5) (.createProposal (.account 1) [84] [] []),
    .governor (.authorized 6) (.vote (.account 1) 1 1)]

/-- Without the cut the sum can exceed every tally. -/
theorem votes_exceed_tally_saturated :
    ∃ p, (machine.run System.empty saturatedCalls).governor.proposal 1 = some p ∧
      p.snapshotLedger = 5 ∧
      (p.tally 1).val < ∑ voter,
        if (machine.run System.empty saturatedCalls).governor.hasVoted 1 voter = some 1 then
          powerAtClose saturatedCalls voter 5 else 0 := by
  have hcalls : machine.Scheduled 0 6 saturatedCalls := by decide
  obtain ⟨p, hp⟩ : ∃ p, (machine.run System.empty saturatedCalls).governor.proposal 1 = some p :=
    ⟨_, rfl⟩
  have hsnapshot : ((machine.run System.empty saturatedCalls).governor.proposal 1).map
      Proposal.snapshotLedger = some 5 := by decide
  rw [hp] at hsnapshot
  have hvoted : (machine.run System.empty saturatedCalls).governor.hasVoted 1 (.account 1) =
      some 1 := by decide
  have hdelegated : delegatedAtClose saturatedCalls (.account 1) 5 = maxI128 := by
    rw [delegatedAtClose_eq hcalls _ (by decide)]
    decide
  have hboost : 0 < boostAtClose saturatedCalls (.account 1) 5 := by decide
  have hle := Finset.single_le_sum (s := Finset.univ) (f := fun voter =>
    if (machine.run System.empty saturatedCalls).governor.hasVoted 1 voter = some 1 then
      powerAtClose saturatedCalls voter 5 else 0)
    (fun voter _ => by split <;> simp [powerAtClose_nonneg saturatedCalls voter 5 hcalls])
    (Finset.mem_univ (.account 1))
  have htop := (p.tally 1).upper
  refine ⟨p, hp, Option.some.inj hsnapshot, ?_⟩
  simp only [hvoted, if_true, powerAtClose, hdelegated] at hle
  simp only [powerAtClose]
  omega

end Quorum.Governor

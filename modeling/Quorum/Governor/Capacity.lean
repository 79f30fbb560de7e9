import Quorum.Foundation.Poll
import Quorum.Governor.Ballots
import Quorum.Governor.Custody
import Quorum.Governor.Decisions
import Quorum.Governor.Preview

/-!
# Room for the votes

Each vote is counted with what its voter weighs when the snapshot ledger closes, or with less
once the token has pruned its history. Taken together the votes on a proposal weigh at most what
those who have voted weigh there, stake boosts included. As long as that fits into the machine
type, no vote is refused for an overflow of the tallies, and the proposal can be decided when
its voting is over.
-/

namespace Quorum.Governor

open Foundation Contract

variable {s s' : System} {env : Env} {start mid now id : ℕ} {voter : Address} {support : ℕ}
  {p : Proposal}

/-! ## The weight of a vote -/

/-- What a vote would read from the token in a reachable state. -/
theorem votingPower_run {calls : List Invocation} (hcalls : machine.Scheduled start now calls)
    (hstored : (machine.run System.empty calls).governor.proposal id = some p) (voter : Address) :
    let s := machine.run System.empty calls
    (Token.getPastVotes voter p.snapshotLedger).Returns s.token (votingPower s voter id) s.token ∧
      (votingPower s voter id).val =
        min ((if reachesBack Token.Checkpoint.ledger (p.snapshotLedger + 1)
                (Token.voteCheckpoints s.token voter) = true
              then delegatedAtClose calls voter p.snapshotLedger else 0) +
          if reachesBack Token.Lock.ledger p.snapshotLedger (Token.locks s.token voter) = true
            then boostAtClose calls voter p.snapshotLedger else 0) maxI128 := by
  intro s
  obtain ⟨weight, hret, hval⟩ := getPastVotes_run_eq_ite hcalls voter p.snapshotLedger
  have hpower : votingPower s voter id = weight := by
    simp only [votingPower, s, hstored, show (Token.getPastVotes voter p.snapshotLedger).run
      (machine.run System.empty calls).token =
        (.ok weight, (machine.run System.empty calls).token) from hret]
  rw [hpower]
  exact ⟨hret, hval⟩

/-- Voting power is never negative in a reachable state. -/
theorem votingPower_nonneg {calls : List Invocation} (hcalls : machine.Scheduled start now calls)
    (hstored : (machine.run System.empty calls).governor.proposal id = some p) (voter : Address) :
    0 ≤ (votingPower (machine.run System.empty calls) voter id).val := by
  have hdelegated := delegatedAtClose_nonneg calls voter p.snapshotLedger hcalls
  have hboost := boostAtClose_nonneg calls voter p.snapshotLedger
  have hmax := I128.maxI128_nonneg
  rw [(votingPower_run hcalls hstored voter).2]
  split <;> split <;> omega

/-- Within the retention window a vote weighs what its voter weighs when the snapshot ledger
closes. -/
theorem votingPower_eq_snapshotWeight {calls : List Invocation}
    (hcalls : machine.Scheduled start now calls)
    (hstored : (machine.run System.empty calls).governor.proposal id = some p)
    (hretained : now ≤ p.snapshotLedger + Token.checkpointRetention) (voter : Address) :
    (votingPower (machine.run System.empty calls) voter id).val =
      snapshotWeight calls p.snapshotLedger voter := by
  obtain ⟨weight, hret, hval⟩ := getPastVotes_run hcalls voter hretained
  rw [Returns.value_eq (votingPower_run hcalls hstored voter).1 hret, hval, snapshotWeight]

/-- Later it may weigh less. -/
theorem votingPower_le_snapshotWeight {calls : List Invocation}
    (hcalls : machine.Scheduled start now calls)
    (hstored : (machine.run System.empty calls).governor.proposal id = some p) (voter : Address) :
    (votingPower (machine.run System.empty calls) voter id).val ≤
      snapshotWeight calls p.snapshotLedger voter := by
  have hdelegated := delegatedAtClose_nonneg calls voter p.snapshotLedger hcalls
  have hboost := boostAtClose_nonneg calls voter p.snapshotLedger
  rw [(votingPower_run hcalls hstored voter).2, snapshotWeight, powerAtClose]
  apply min_le_min_right
  split <;> split <;> omega

/-- The weight at the close of a ledger is never negative. -/
theorem snapshotWeight_nonneg {calls : List Invocation}
    (hcalls : machine.Scheduled start now calls) (ledger : ℕ) (voter : Address) :
    0 ≤ snapshotWeight calls ledger voter :=
  le_min (powerAtClose_nonneg calls voter ledger hcalls) I128.maxI128_nonneg

/-- The snapshot weights are settled by the calls made up to the end of the snapshot ledger. -/
theorem snapshotWeight_append {calls more : List Invocation} {ledger : ℕ}
    (hmore : machine.Scheduled mid now more) (hledger : ledger < mid) (voter : Address) :
    snapshotWeight (calls ++ more) ledger voter = snapshotWeight calls ledger voter := by
  rw [snapshotWeight, powerAtClose_append hmore hledger, snapshotWeight]

/-- A vote reads what is left, cut at the top of the machine type. -/
theorem votingPower_eq_legibleWeight {calls : List Invocation}
    (hcalls : machine.Scheduled start now calls)
    (hstored : (machine.run System.empty calls).governor.proposal id = some p) (voter : Address) :
    (votingPower (machine.run System.empty calls) voter id).val =
      min (legibleWeight calls voter p.snapshotLedger) maxI128 :=
  (votingPower_run hcalls hstored voter).2

/-- A part of a weight that can no longer be told counts for nothing. -/
theorem legible_le {earlier later : Bool} {amount : ℤ} (hpruned : later = true → earlier = true)
    (hnonneg : 0 ≤ amount) :
    (if later = true then amount else 0) ≤ if earlier = true then amount else 0 := by
  split <;> rename_i hlater
  · rw [if_pos (hpruned hlater)]
  · split <;> omega

section Pruned

variable {first more : List Invocation} {ledger : ℕ} (hfirst : machine.Scheduled start mid first)
  (hmore : machine.Scheduled mid now more) (hledger : ledger < mid)

include hfirst hmore hledger

/-- What has been pruned stays pruned. -/
theorem votesLegible_append (voter : Address)
    (h : votesLegible (machine.run System.empty (first ++ more)) voter ledger = true) :
    votesLegible (machine.run System.empty first) voter ledger = true := by
  obtain ⟨tokenCalls, hsched, hrun, -⟩ := follows_token.run (wellFormed_run hfirst) hmore
  rw [votesLegible, Clocked.run_append, hrun] at h
  exact (Token.keeps_voteCheckpoints voter).reachesBack_run (token_sound hfirst).coherent hsched
    hledger h

/-- A boost that is legible later was legible before. -/
theorem boostLegible_append (voter : Address)
    (h : boostLegible (machine.run System.empty (first ++ more)) voter ledger = true) :
    boostLegible (machine.run System.empty first) voter ledger = true := by
  obtain ⟨tokenCalls, hsched, hrun, -⟩ := follows_token.run (wellFormed_run hfirst) hmore
  rw [boostLegible, Clocked.run_append, hrun] at h
  exact (Token.keeps_locks voter).reachesBack_run (token_sound hfirst).coherent hsched
    hledger.le h

/-- What is left of a weight never grows. -/
theorem legibleWeight_append_le :
    legibleWeight (first ++ more) voter ledger ≤ legibleWeight first voter ledger := by
  rw [legibleWeight, legibleWeight, delegatedAtClose_append hmore hledger,
    boostAtClose_append hmore hledger]
  apply Int.add_le_add
  · exact legible_le (votesLegible_append hfirst hmore hledger voter)
      (delegatedAtClose_nonneg first voter ledger hfirst)
  · exact legible_le (boostLegible_append hfirst hmore hledger voter)
      (boostAtClose_nonneg first voter ledger)

end Pruned

/-- After the snapshot ledger a vote never reads more than before. -/
theorem votingPower_append_le {first more : List Invocation}
    (hfirst : machine.Scheduled start mid first) (hmore : machine.Scheduled mid now more)
    (hstored : (machine.run System.empty first).governor.proposal id = some p)
    (hclosed : p.snapshotLedger < mid) (voter : Address) :
    (votingPower (machine.run System.empty (first ++ more)) voter id).val ≤
      (votingPower (machine.run System.empty first) voter id).val := by
  obtain ⟨q, hq, hkept⟩ := kept_run (wellFormed_run hfirst) hmore hstored
  rw [← Clocked.run_append] at hq
  rw [votingPower_eq_legibleWeight (hfirst.append hmore) hq, hkept.snapshotLedger,
    votingPower_eq_legibleWeight hfirst hstored]
  exact min_le_min_right _ (legibleWeight_append_le hfirst hmore hclosed)

/-! ## The votes as a poll -/

/-- The tallies of a proposal are those of a poll of its voters. In it nobody has given more than
the cap, and nobody's next vote would take back more than is there. -/
structure Recorded (cap : Address → ℤ) (now id : ℕ) (p : Proposal) (s : System)
    (σ : Poll Address ℕ) : Prop where
  latest : σ.latest = s.governor.hasVoted id
  tallies : ∀ c ≤ 2, (p.tally c).val = σ.tally c
  within : σ.Within (Finset.range 3) cap fun voter => (votingPower s voter id).val
  closed : ∀ voter, σ.latest voter ≠ none → p.snapshotLedger < now

variable {cap : Address → ℤ} {σ : Poll Address ℕ}

/-- Without a vote only the weights of the voters fall. -/
theorem Recorded.of_kept {later : ℕ} {p' : Proposal} (h : Recorded cap now id p s σ)
    (hle : now ≤ later) (hkept : Kept p p') (htallies : ∀ c ≤ 2, p'.tally c = p.tally c)
    (hvotes : s'.governor.hasVoted id = s.governor.hasVoted id)
    (hfalls : p.snapshotLedger < later → ∀ voter,
      (votingPower s' voter id).val ≤ (votingPower s voter id).val) :
    Recorded cap later id p' s' σ where
  latest := by rw [h.latest, hvotes]
  tallies c hc := by rw [htallies c hc, h.tallies c hc]
  within := h.within.of_le fun voter hvoted => hfalls ((h.closed voter hvoted).trans_le hle) voter
  closed voter hvoted := by
    rw [hkept.snapshotLedger]
    exact (h.closed voter hvoted).trans_le hle

/-- A proposal is opened with a blank poll. -/
theorem Recorded.opened (hcap : ∀ voter, 0 ≤ cap voter) (htally : ∀ c, p.tally c = 0)
    (hvotes : ∀ voter, s.governor.hasVoted id voter = none) :
    Recorded cap now id p s .blank where
  latest := (funext hvotes).symm
  tallies c _ := by
    rw [htally, I128.zero_val]
    exact (Finset.sum_eq_zero fun _ _ => rfl).symm
  within := .blank hcap
  closed _ hvoted := absurd rfl hvoted

/-- A vote is cast in the poll. -/
theorem Recorded.voted {counted : Proposal} {weight : I128} (hw : WellFormed now s)
    (h : Recorded cap now id p s σ)
    (hvotes : Votes env voter id support p counted weight s s') (hcap : weight.val ≤ cap voter) :
    Recorded cap env.sequence id counted s' (σ.cast voter support weight.val) where
  latest := by
    rw [hvotes.hasVoted, Function.update_self, ← h.latest]
    rfl
  tallies c hc := by
    rw [hvotes.tally hw hc, h.tallies c hc, Poll.tally_cast, h.latest]
  within := by
    have hpower : (fun other => (votingPower s' other id).val) =
        fun other => (votingPower s other id).val := by
      funext other
      simp only [votingPower, hvotes.proposal, Function.update_self, hvotes.stored, hvotes.token,
        hvotes.kept.snapshotLedger]
    rw [hpower, ← hvotes.votingPower_eq]
    rw [← hvotes.votingPower_eq] at hcap
    have hpositive := hvotes.positive
    rw [← hvotes.votingPower_eq] at hpositive
    exact h.within.cast (Finset.mem_range.mpr (Nat.lt_succ_of_le hvotes.choice)) hpositive.le hcap
  closed _ _ := by
    rw [hvotes.kept.snapshotLedger]
    exact hvotes.closed hw

/-- A stored proposal has a poll, under the weights at its snapshot. -/
def Polled (weight : ℕ → Address → ℤ) (now id : ℕ) (s : System) : Prop :=
  ∀ p, s.governor.proposal id = some p → ∃ σ, Recorded (weight p.snapshotLedger) now id p s σ

/-- A call leaves the stored proposal with a poll. -/
theorem Change.polled {weight : ℕ → Address → ℤ} {c : Call} (hw : WellFormed env.sequence s)
    (h : Change env c s s') (hnonneg : ∀ ledger voter, 0 ≤ weight ledger voter)
    (hfalls : ∀ p, s.governor.proposal id = some p → p.snapshotLedger < env.sequence → ∀ voter,
      (votingPower s' voter id).val ≤ (votingPower s voter id).val)
    (hcap : ∀ voter support p counted votingPower,
      Votes env voter id support p counted votingPower s s' →
        votingPower.val ≤ weight p.snapshotLedger voter)
    (hs : Polled weight env.sequence id s) : Polled weight env.sequence id s' := by
  -- Away from the proposal only the weights of the voters fall.
  have hother : s'.governor.proposal id = s.governor.proposal id →
      s'.governor.hasVoted id = s.governor.hasVoted id → Polled weight env.sequence id s' := by
    intro hproposal hvotes p hp
    rw [hproposal] at hp
    obtain ⟨σ, hσ⟩ := hs p hp
    exact ⟨σ, hσ.of_kept le_rfl (.refl p) (fun _ _ => rfl) hvotes (hfalls p hp)⟩
  cases h.outline with
  | quiet _ h => exact hother (by rw [h.proposal]) (by rw [h.hasVoted])
  | @opened _ _ _ q _ h =>
    by_cases hid : id = q.id
    · subst hid
      intro p hp
      rw [h.proposal, Function.update_self] at hp
      obtain rfl := Option.some.inj hp
      refine ⟨.blank, .opened (hnonneg _) h.tallies fun voter => ?_⟩
      rw [h.hasVoted]
      exact (hw.fresh h).2.1 voter
    · exact hother (by rw [h.proposal, Function.update_of_ne hid]) (by rw [h.hasVoted])
  | @voted voter other support q counted votingPower _ h =>
    by_cases hid : id = other
    · subst hid
      intro p hp
      rw [h.proposal, Function.update_self] at hp
      obtain rfl := Option.some.inj hp
      obtain ⟨σ, hσ⟩ := hs q h.stored
      rw [h.kept.snapshotLedger]
      exact ⟨_, hσ.voted hw h (hcap voter support q counted votingPower h)⟩
    · exact hother (by rw [h.proposal, Function.update_of_ne hid])
        (by rw [h.hasVoted, Function.update_of_ne hid])
  | @restated other q q' _ hkept htallies h =>
    by_cases hid : id = other
    · subst hid
      intro p hp
      rw [h.proposal, Function.update_self] at hp
      obtain rfl := Option.some.inj hp
      obtain ⟨σ, hσ⟩ := hs q h.stored
      rw [hkept.snapshotLedger]
      exact ⟨σ, hσ.of_kept le_rfl hkept (fun c _ => htallies.tally c) (by rw [h.hasVoted])
        (hfalls q h.stored)⟩
    · exact hother (by rw [h.proposal, Function.update_of_ne hid]) (by rw [h.hasVoted])

/-- A step leaves the stored proposal with a poll. -/
theorem Step.polled {weight : ℕ → Address → ℤ} {i : Invocation} (hw : WellFormed i.sequence s)
    (h : Step i s s') (hnonneg : ∀ ledger voter, 0 ≤ weight ledger voter)
    (hfalls : ∀ p, s.governor.proposal id = some p → p.snapshotLedger < i.sequence → ∀ voter,
      (votingPower s' voter id).val ≤ (votingPower s voter id).val)
    (hcap : ∀ env voter support p counted votingPower, i.sequence = env.sequence →
      Votes env voter id support p counted votingPower s s' →
        votingPower.val ≤ weight p.snapshotLedger voter)
    (hs : Polled weight i.sequence id s) : Polled weight i.sequence id s' := by
  cases h with
  | token _ =>
    intro p hp
    obtain ⟨σ, hσ⟩ := hs p hp
    exact ⟨σ, hσ.of_kept le_rfl (.refl p) (fun _ _ => rfl) rfl (hfalls p hp)⟩
  | refused => exact hs
  | @governor env c _ _ hret he =>
    apply he.change.polled hw hnonneg hfalls _ hs
    exact fun voter support p counted votingPower => hcap env voter support p counted votingPower rfl

/-- Along a run every stored proposal has a poll, under the snapshot weights of the whole run. -/
theorem polled_run {first rest : List Invocation}
    (hcalls : machine.Scheduled start now (first ++ rest))
    (hmid : machine.Scheduled start mid first) :
    Polled (snapshotWeight (first ++ rest)) mid id (machine.run System.empty first) := by
  induction first using List.reverseRecOn generalizing rest mid with
  | nil => exact fun p hp => by simp [System.empty, Storage.empty] at hp
  | append_singleton first i ih =>
    obtain ⟨-, hlast⟩ := hmid.of_append
    rw [List.append_assoc, List.singleton_append] at hcalls ⊢
    obtain ⟨hfirst, hrest⟩ := hcalls.of_append
    have hw := wellFormed_run hfirst
    have hlater : machine.Scheduled (machine.time i) now (i :: rest) := ⟨le_rfl, hrest⟩
    have hpolled : Polled (snapshotWeight (first ++ i :: rest)) i.sequence id
        (machine.step i (machine.run System.empty first)) := by
      apply (machine_step hw.blank i).polled hw (fun ledger => snapshotWeight_nonneg hcalls ledger)
        ?_ ?_ (ih hcalls hfirst)
      · intro p hp hclosed voter
        have hone : machine.Scheduled i.sequence i.sequence [i] := ⟨le_rfl, le_rfl⟩
        have hle := votingPower_append_le hfirst hone hp hclosed voter
        rwa [Clocked.run_append, Clocked.run_cons, Clocked.run_nil] at hle
      · intro env voter support p counted votingPower htime hvotes
        have hclosed : p.snapshotLedger < machine.time i :=
          (hvotes.closed hw).trans_eq htime.symm
        rw [snapshotWeight_append hlater hclosed, ← hvotes.votingPower_eq]
        exact votingPower_le_snapshotWeight hfirst hvotes.stored voter
    rw [Clocked.run_append]
    intro p hp
    obtain ⟨σ, hσ⟩ := hpolled p hp
    exact ⟨σ, hσ.latest, hσ.tallies, hσ.within,
      fun voter hvoted => (hσ.closed voter hvoted).trans_le hlast⟩

/-- In every reachable state a stored proposal has a poll, under the weights at its snapshot. -/
theorem polled {calls : List Invocation} (hcalls : machine.Scheduled start now calls) :
    Polled (snapshotWeight calls) now id (machine.run System.empty calls) := by
  have hnil : machine.Scheduled start now (calls ++ []) := by rwa [List.append_nil]
  have hrun : Polled (snapshotWeight (calls ++ [])) now id (machine.run System.empty calls) :=
    polled_run hnil hcalls
  rwa [List.append_nil] at hrun

/-! ## Room for a vote -/

/-- The earlier weight can always be taken back: nobody's weight exceeds what they have given. -/
theorem Recorded.uncounts (h : Recorded cap now id p s σ) {voter : Address}
    (hnonneg : 0 ≤ (votingPower s voter id).val) :
    ∃ q, uncount p (s.governor.hasVoted id voter) (votingPower s voter id) = some q := by
  rw [← h.latest]
  cases hlatest : σ.latest voter with
  | none => exact ⟨p, rfl⟩
  | some previous =>
    have hprevious : previous ≤ 2 :=
      Nat.le_of_lt_succ (Finset.mem_range.mp (h.within.listed voter previous hlatest))
    have hle : (votingPower s voter id).val ≤ (p.tally previous).val := by
      rw [h.tallies previous hprevious]
      exact h.within.le_tally hlatest
    obtain ⟨rest, -, hrest⟩ := Token.checkedSub_fits (hnonneg.trans hle) hnonneg
    have hremove : removeWeight (p.tally previous) (votingPower s voter id) = some rest :=
      I128.filter_checkedSub_eq_some.mpr ⟨hrest, by omega⟩
    exact ⟨p.setTally previous rest, by rw [uncount, hremove, Option.map_some]⟩

/-- With room for the weights of all voters, the earlier weight can be taken back and the new one
counted. -/
theorem Recorded.recounts (h : Recorded cap now id p s σ) (hsupport : support ≤ 2)
    (hnonneg : 0 ≤ (votingPower s voter id).val) (hcap : (votingPower s voter id).val ≤ cap voter)
    (hroom : ∑ v ∈ insert voter σ.voters, cap v ≤ maxI128) :
    ∃ q counted, uncount p (s.governor.hasVoted id voter) (votingPower s voter id) = some q ∧
      count q support (votingPower s voter id) = some counted := by
  have hmin := I128.minI128_nonpos
  have hlisted : support ∈ Finset.range 3 := Finset.mem_range.mpr (Nat.lt_succ_of_le hsupport)
  have hchoices : ∀ x ∈ σ.latest voter, x ≤ 2 := fun x hx =>
    Nat.le_of_lt_succ (Finset.mem_range.mp (h.within.listed voter x hx))
  have hcast := h.within.cast hlisted hnonneg hcap
  obtain ⟨q, hq⟩ := h.uncounts hnonneg
  rw [← h.latest] at hq ⊢
  have htally : (q.tally support).val + (votingPower s voter id).val =
      (σ.cast voter support (votingPower s voter id).val).tally support := by
    rw [uncount_tally hq hchoices hsupport, h.tallies support hsupport, Poll.tally_cast, if_pos rfl]
  have hle : (q.tally support).val + (votingPower s voter id).val ≤ maxI128 := by
    rw [← Poll.voters_cast voter support (votingPower s voter id).val] at hroom
    rw [htally]
    exact (hcast.tally_le hlisted).trans hroom
  have hge : 0 ≤ (q.tally support).val + (votingPower s voter id).val := by
    rw [htally]
    exact hcast.tally_nonneg support
  obtain ⟨sum, hsum, -⟩ := I128.exists_ofInt? (hmin.trans hge) hle
  have hadd : addWeight (q.tally support) (votingPower s voter id) = some sum := hsum
  exact ⟨q, q.setTally support sum, hq, by rw [count, hadd, Option.map_some]⟩

/-- A recorded tally is never negative. -/
theorem Recorded.tally_nonneg (h : Recorded cap now id p s σ) {support : ℕ}
    (hsupport : support ≤ 2) : 0 ≤ (p.tally support).val := by
  rw [h.tallies support hsupport]
  exact h.within.tally_nonneg support

/-- With room for the weights of those who have voted, the tallies can be added up. -/
theorem Recorded.total (h : Recorded cap now id p s σ)
    (hroom : ∑ v ∈ σ.voters, cap v ≤ maxI128) : ∃ total, totalVotes p = some total := by
  apply exists_totalVotes fun support => h.tally_nonneg
  have hagainst : p.againstVotes.val = σ.tally 0 := h.tallies 0 (by decide)
  have hfor : p.forVotes.val = σ.tally 1 := h.tallies 1 (by decide)
  have habstain : p.abstainVotes.val = σ.tally 2 := h.tallies 2 (by decide)
  have hsum := h.within.sum_tally_le
  simp only [Finset.sum_range_succ, Finset.sum_range_zero, zero_add] at hsum
  omega

/-- What the tallies of a vote can refuse as an overflow. -/
theorem vote_overflows (h : Refused [.overflow] (vote env voter id support) s) :
    ∃ p weight, MayVote env voter id support p s ∧
      (Token.getPastVotes voter p.snapshotLedger).Returns s.token weight s.token ∧
      0 < weight.val ∧
      (uncount p (s.governor.hasVoted id voter) weight = none ∨
        ∃ q, uncount p (s.governor.hasVoted id voter) weight = some q ∧
          (count q support weight = none ∨ ∃ t, s.governor.conviction id = some t ∧
            countConviction (decayTo t env.sequence) support weight = none)) := by
  simp only [Refused, vote, requireAuth, fails_requireConfig_bind_iff, fails_demand_bind_iff,
    fails_rejectIf_bind_iff, fails_requireProposal_bind_iff, fails_read_bind_iff,
    Failure.isOneOf_error, Failure.isOneOf_trap, List.mem_singleton, reduceCtorEq, and_false,
    false_or] at h
  obtain ⟨config, -, hauth, hchoice, p, hstored, -, hopen, hactive, hstarted, h⟩ := h
  rcases fails_bind_iff.mp h with h | ⟨weight, s₁, hcall, h⟩
  · exact absurd h.of_call (by simp)
  obtain ⟨t, hread, rfl⟩ := returns_call_iff.mp hcall
  obtain rfl := getPastVotes_returns_eq hread
  simp only [fails_rejectIf_bind_iff, fails_okOr_bind_iff, Failure.isOneOf_error,
    List.mem_singleton, reduceCtorEq, and_false, false_or, and_true] at h
  obtain ⟨hpositive, h⟩ := h
  refine ⟨p, weight, ⟨hstored, hauth, Nat.le_of_not_lt hchoice, not_not.mp hactive,
    Nat.le_of_not_lt hstarted, Nat.le_of_not_lt hopen⟩, hread, Int.lt_of_not_ge hpositive, ?_⟩
  rcases h with huncount | ⟨q, huncount, hcount | ⟨counted, -, h⟩⟩
  · exact .inl huncount
  · exact .inr ⟨q, huncount, .inl hcount⟩
  · rcases fails_bind_iff.mp h with h | ⟨-, s₁, -, h⟩
    · exact .inr ⟨q, huncount, .inr (voteConviction_fails h).2⟩
    · exact absurd h (by simp)

/-- Those who have voted on a proposal. -/
def voters (id : ℕ) (s : System) : Finset Address :=
  Finset.univ.filter fun voter => (s.governor.hasVoted id voter).isSome = true

/-- The voters are those of the record. -/
theorem Recorded.voters_eq (h : Recorded cap now id p s σ) : voters id s = σ.voters := by
  rw [voters, ← h.latest, Poll.voters]

/-- There is room for a vote: the snapshot weights of all who have voted, the voter included, fit
into the machine type. On a conviction proposal so does the voter's weight, with what is left of
the ballots for the same side. -/
structure HasRoom (calls : List Invocation) (env : Env) (voter : Address) (id support : ℕ)
    (p : Proposal) : Prop where
  turnout : ∑ v ∈ insert voter (voters id (machine.run System.empty calls)),
    snapshotWeight calls p.snapshotLedger v ≤ maxI128
  conviction : support ≤ 1 → (machine.run System.empty calls).governor.conviction id ≠ none →
    (((Standing.zero 0).replay convictionHalfLife (ballots id System.empty calls)).fade
      convictionHalfLife env.sequence).amount support + snapshotWeight calls p.snapshotLedger voter ≤
        maxI128

/-- A vote that there is room for is not refused as an overflow. -/
theorem HasRoom.not_overflows {calls : List Invocation}
    (hcalls : machine.Scheduled start env.sequence calls)
    (hstored : (machine.run System.empty calls).governor.proposal id = some p)
    (hroom : HasRoom calls env voter id support p) :
    ¬ Refused [.overflow] (vote env voter id support) (machine.run System.empty calls) := by
  intro h
  obtain ⟨p', weight, hmay, hread, -, h⟩ := vote_overflows h
  obtain rfl : p = p' := Option.some.inj (hstored.symm.trans hmay.stored)
  obtain rfl : votingPower (machine.run System.empty calls) voter id = weight :=
    Returns.value_eq (votingPower_run hcalls hstored voter).1 hread
  have hnonneg := votingPower_nonneg hcalls hstored voter
  have hcap := votingPower_le_snapshotWeight hcalls hstored voter
  obtain ⟨σ, hσ⟩ := polled hcalls p hstored
  have hturnout := hroom.turnout
  rw [hσ.voters_eq] at hturnout
  obtain ⟨q, counted, huncount, hcount⟩ := hσ.recounts hmay.choice hnonneg hcap hturnout
  rcases h with hnone | ⟨q', huncount', hnone | ⟨t, ht, hnone⟩⟩
  · exact Option.some_ne_none _ (huncount.symm.trans hnone)
  · obtain rfl : q = q' := Option.some.inj (huncount.symm.trans huncount')
    exact Option.some_ne_none _ (hcount.symm.trans hnone)
  · obtain ⟨hwell, hrepresents⟩ := conviction_run hcalls ht
    have hside : 0 ≤ ((decayTo t env.sequence).side support).val := by
      rw [side_decayTo]
      apply halved_nonneg
      match support with
      | 0 => exact hwell.nonneg 0 (by decide)
      | _ + 1 => exact hwell.nonneg 1 le_rfl
    have hmin := I128.minI128_nonpos
    obtain ⟨t', ht'⟩ : ∃ t', countConviction (decayTo t env.sequence) support
        (votingPower (machine.run System.empty calls) voter id) = some t' := by
      apply countConviction_succeeds (by omega)
      intro hside
      have hfits := hroom.conviction hside (by rw [ht]; simp)
      rw [← hrepresents.reads env.sequence hwell.clock support hside] at hfits
      exact (Int.add_le_add_left hcap _).trans hfits
    exact Option.some_ne_none _ (ht'.symm.trans hnone)

/-! ## The end of voting -/

/-- Every held deposit is positive. -/
def DepositsPositive (s : System) : Prop :=
  ∀ id amount, s.governor.deposit id = some amount → 0 < amount.val

/-- Taking a deposit leaves the others positive. -/
theorem DepositsPositive.cleared (h : DepositsPositive s)
    (hdeposit : s'.governor.deposit = Function.update s.governor.deposit id none) :
    DepositsPositive s' := by
  intro other amount hheld
  rw [hdeposit, update_none_eq_some] at hheld
  exact h other amount hheld.2

/-- An accepted call leaves the held deposits positive. -/
theorem Outcome.depositsPositive {c : Call} (h : Outcome env s c s') (hs : DepositsPositive s) :
    DepositsPositive s' := by
  cases h with
  | @opened _ _ config proposer conviction q _ _ _ _ _ hleft =>
    intro id amount hheld
    rw [hleft] at hheld
    by_cases hpos : 0 < config.proposalDeposit.val
    · simp only [if_pos hpos] at hheld
      by_cases hid : id = q.id
      · subst hid
        rw [Function.update_self] at hheld
        exact Option.some.inj hheld ▸ hpos
      · rw [Function.update_of_ne hid] at hheld
        exact hs id amount hheld
    · simp only [if_neg hpos] at hheld
      exact hs id amount hheld
  | voted h hleft =>
    intro id amount hheld
    rw [hleft] at hheld
    exact hs id amount hheld
  | queued | failed | cancelled => exact hs.cleared rfl
  | _ => exact hs

/-- In every reachable state the held deposits are positive. -/
theorem depositsPositive_run {calls : List Invocation} (hcalls : machine.Scheduled start now calls) :
    DepositsPositive (machine.run System.empty calls) := by
  refine machine.run_invariant (fun _ s => DepositsPositive s) (fun _ _ _ h _ => h) ?_ ?_ hcalls
  · intro i s hs
    cases i with
    | token i => exact hs
    | governor env c =>
      by_cases haccepted : Accepted env c s
      · exact (invoke_outcome haccepted.returns).depositsPositive hs
      · rw [step_eq_of_not_accepted haccepted]
        exact hs
  · exact fun _ _ hheld => by contradiction

/-- The governor can spend enough of its tokens to settle the deposit of a proposal. -/
def DepositCovered (governor : Address) (id : ℕ) (s : System) : Prop :=
  ∀ amount, s.governor.deposit id = some amount →
    amount.val ≤ (Token.balance s.token governor).val - (Token.lockedAmount s.token governor).val

/-- A covered deposit can be paid out, in either way. -/
theorem DepositCovered.pays {config : Config} {proposer : Address}
    (h : DepositCovered env.contract id s) (hsound : Token.Sound env.sequence s.token)
    (hpositive : DepositsPositive s) (amount : I128) (hheld : s.governor.deposit id = some amount) :
    (payBack env config proposer amount).Succeeds s.token ∧
      (payOff env config amount).Succeeds s.token := by
  have hlater : Token.Sound (tokenEnv env config).sequence s.token := hsound
  have hauth : (tokenEnv env config).auth env.contract = true := by simp [tokenEnv]
  have hpos := hpositive id amount hheld
  exact ⟨Token.transfer_succeeds hlater hauth hpos (h amount hheld),
    Token.burn_succeeds hlater hauth hpos (h amount hheld)⟩

/-- A call of `finalize` decides: the proposal is Queued or Failed, and its deposit is released. -/
def Settles (env : Env) (id : ℕ) (s : System) : Prop :=
  ∃ status s', (finalize env id).Returns s status s' ∧ (status = .queued ∨ status = .failed) ∧
    statusOf s' id = some status ∧ s'.governor.deposit id = none ∧
    ∀ amount, s.governor.deposit id = some amount →
      Released env.contract id amount s s' (.governor env (.finalize id))

/-- A call of `finalize` that returns settles the proposal. -/
theorem finalize_settles {status : ProposalStatus} (hw : WellFormed now s)
    (hs : Token.Solvent s.token) (h : (finalize env id).Returns s status s') :
    Settles env id s := by
  obtain ⟨he, p', hp', rfl⟩ := finalize_returns h
  have hstatus : statusOf s' id = some p'.status := statusOf_eq hp'
  cases he with
  | opened hopens => contradiction
  | delegated hcall => simp at hcall
  | targetSet hcall => simp at hcall
  | nominated hcall => simp at hcall
  | @queued _ config p total t _ hstored _ _ _ _ _ _ hpaid =>
    have hid := hw.ids id p hstored
    simp only [Function.update_self, Option.some.injEq] at hp'
    subst hp'
    refine ⟨.queued, _, h, .inl rfl, hstatus, ?_, fun amount hheld => ?_⟩
    · rw [← hid]
      exact Function.update_self ..
    · rw [hid, hheld] at hpaid
      exact .refunded hstored hstatus hpaid
  | @failed _ config p total t _ hstored _ _ _ _ hpaid =>
    simp only [Function.update_self, Option.some.injEq] at hp'
    subst hp'
    refine ⟨.failed, _, h, .inr rfl, hstatus, Function.update_self .., fun amount hheld => ?_⟩
    rw [hheld] at hpaid
    have hburns := Token.burn_returns hpaid
    exact .forfeited (.inl ⟨rfl, hstatus⟩) hpaid (hs.burns hburns.2.1 hburns.2.2).2

/-- A call of `finalize` returns only if the tallies can be added up. -/
theorem finalize_total {status : ProposalStatus} (hstored : s.governor.proposal id = some p)
    (h : (finalize env id).Returns s status s') : ∃ total, totalVotes p = some total := by
  simp only [finalize, returns_requireConfig_bind_iff, returns_requireProposal_bind_iff,
    returns_rejectIf_bind_iff, returns_okOr_bind_iff] at h
  obtain ⟨config, -, q, hq, -, -, total, htotal, -⟩ := h
  obtain rfl : p = q := Option.some.inj (hstored.symm.trans hq)
  exact ⟨total, htotal⟩

/-- What has been released was covered. -/
theorem Settles.covered (h : Settles env id s) : DepositCovered env.contract id s := by
  obtain ⟨status, s', -, -, -, -, hreleased⟩ := h
  intro amount hheld
  cases hreleased amount hheld with
  | refunded _ _ hpaid =>
    obtain ⟨-, -, rest, newBalance, s₁, s₂, hcovered, -⟩ := Token.transfer_returns hpaid
    exact hcovered
  | forfeited _ hpaid _ =>
    obtain ⟨-, -, rest, supply, s₁, hcovered, -⟩ := Token.burn_returns hpaid
    exact hcovered

/-! ## The weight of all voters -/

/-- What any accounts weigh at the close of a ledger is within twice the supply there. -/
theorem sum_snapshotWeight_le {calls : List Invocation}
    (hcalls : machine.Scheduled start now calls) (ledger : ℕ) (accounts : Finset Address) :
    ∑ voter ∈ accounts, snapshotWeight calls ledger voter ≤
      2 * (Token.totalSupply (machine.stateBefore System.empty calls (ledger + 1)).token).val := by
  obtain ⟨tokenCalls, hsched, -, hbefore⟩ := token_run hcalls
  have hpowers := Token.sum_votes_boost_le hsched ledger
  rw [← hbefore, ← hbefore] at hpowers
  calc ∑ voter ∈ accounts, snapshotWeight calls ledger voter
      ≤ ∑ voter, snapshotWeight calls ledger voter :=
        Finset.sum_le_univ_sum_of_nonneg (snapshotWeight_nonneg hcalls ledger)
    _ ≤ ∑ voter, powerAtClose calls voter ledger :=
        Finset.sum_le_sum fun _ _ => min_le_left _ _
    _ ≤ _ := hpowers

/-- Exact tallies add up to the weight of all who have voted. -/
theorem Counted.sum_tallies {weight : ℕ → Address → ℤ} (h : Counted weight id s)
    (hw : WellFormed now s) (hstored : s.governor.proposal id = some p) :
    p.forVotes.val + p.againstVotes.val + p.abstainVotes.val =
      ∑ voter ∈ voters id s, weight p.snapshotLedger voter := by
  have hagainst : p.againstVotes.val = _ := h p hstored 0 (by decide)
  have hfor : p.forVotes.val = _ := h p hstored 1 (by decide)
  have habstain : p.abstainVotes.val = _ := h p hstored 2 (by decide)
  rw [hagainst, hfor, habstain, tallied, tallied, tallied, ← Finset.sum_add_distrib,
    ← Finset.sum_add_distrib, voters, Finset.sum_filter]
  apply Finset.sum_congr rfl
  intro voter _
  cases hvoted : s.governor.hasVoted id voter with
  | none => simp
  | some support =>
    have hchoice := hw.choices id voter support hvoted
    interval_cases support <;> simp

/-- Within the retention window a proposal is settled only if the weights of those who have voted
fit into the machine type. -/
theorem Settles.turnout {calls : List Invocation} (hcalls : machine.Scheduled start now calls)
    (hstored : (machine.run System.empty calls).governor.proposal id = some p)
    (hwindow : p.endLedger ≤ p.snapshotLedger + Token.checkpointRetention)
    (h : Settles env id (machine.run System.empty calls)) :
    ∑ voter ∈ voters id (machine.run System.empty calls),
      snapshotWeight calls p.snapshotLedger voter ≤ maxI128 := by
  obtain ⟨status, s', hret, -⟩ := h
  have hcounted := counted hcalls hstored ((min_le_right _ _).trans hwindow)
  obtain ⟨total, htotal⟩ := finalize_total hstored hret
  rw [← hcounted.sum_tallies (wellFormed_run hcalls) hstored, ← totalVotes_eq_some htotal]
  exact total.upper

/-- A vote adds its voter to the voters. -/
theorem Votes.voters_eq {counted : Proposal} {weight : I128}
    (h : Votes env voter id support p counted weight s s') :
    voters id s' = insert voter (voters id s) := by
  ext other
  rw [voters, voters, Finset.mem_insert, Finset.mem_filter_univ, Finset.mem_filter_univ, h.hasVoted,
    Function.update_self]
  by_cases hother : other = voter
  · subst hother
    simp
  · simp [hother]

/-- Within the retention window an accepted vote had room, if the proposal can still be settled. -/
theorem hasRoom_of_settles {calls : List Invocation} {later : Env}
    (hcalls : machine.Scheduled start env.sequence calls)
    (hstored : (machine.run System.empty calls).governor.proposal id = some p)
    (hwindow : p.endLedger ≤ p.snapshotLedger + Token.checkpointRetention)
    (haccepted : Accepted env (.vote voter id support) (machine.run System.empty calls))
    (hsettles : Settles later id
      (machine.step (.governor env (.vote voter id support)) (machine.run System.empty calls))) :
    HasRoom calls env voter id support p := by
  obtain ⟨q, counted, weight, hvotes⟩ := vote_returns haccepted.returns
  obtain rfl : p = q := Option.some.inj (hstored.symm.trans hvotes.stored)
  have hone : machine.Scheduled env.sequence env.sequence
      [.governor env (.vote voter id support)] := ⟨le_rfl, le_rfl⟩
  have hclosed := hvotes.closed (wellFormed_run hcalls)
  constructor
  · have hcounted : (machine.run System.empty (calls ++
        [.governor env (.vote voter id support)])).governor.proposal id = some counted := by
      rw [Clocked.run_append, Clocked.run_cons, Clocked.run_nil, hvotes.proposal,
        Function.update_self]
    rw [← Clocked.run_nil (m := machine) (machine.step _ _), ← Clocked.run_cons,
      ← Clocked.run_append] at hsettles
    have hturnout := hsettles.turnout (hcalls.append hone) hcounted
      (by rw [hvotes.kept.endLedger, hvotes.kept.snapshotLedger]; exact hwindow)
    rw [Clocked.run_append, Clocked.run_cons, Clocked.run_nil, hvotes.voters_eq,
      hvotes.kept.snapshotLedger] at hturnout
    simpa only [snapshotWeight_append hone hclosed] using hturnout
  · intro hside hsome
    rcases hvotes.counted_conviction with ⟨hnone, -⟩ | ⟨t, t', ht, -, hcount⟩
    · exact absurd hnone hsome
    · obtain ⟨hwell, hrepresents⟩ := conviction_run hcalls ht
      have hnil : machine.Scheduled env.sequence env.sequence [] := le_refl env.sequence
      have hweight := hvotes.weight_eq hcalls hnil (hvotes.notEnded.trans hwindow)
      have hsum := countConviction_side hcount hside
      rw [if_pos rfl, hrepresents.reads env.sequence hwell.clock support hside, hweight,
        List.append_nil] at hsum
      rw [← hsum]
      exact (t'.side support).upper

/-- In every reachable state, a vote that there is room for is not refused as an overflow, and an
active proposal whose voting is over is settled if the snapshot weights of those who have voted
fit into the machine type and the deposit is covered. Within the retention window that is
necessary: a proposal is settled in no other case, and a vote after which it can be settled had
room. The weights fit whenever the supply at the close of the snapshot ledger takes up at most
half of the machine type. -/
theorem proposals_settle {calls : List Invocation} (hcalls : machine.Scheduled start now calls)
    {id : ℕ} {p : Proposal}
    (hstored : (machine.run System.empty calls).governor.proposal id = some p) :
    let s := machine.run System.empty calls
    let close := (machine.stateBefore System.empty calls (p.snapshotLedger + 1)).token
    (∀ env voter support, now ≤ env.sequence →
      (HasRoom calls env voter id support p → ¬ Refused [.overflow] (vote env voter id support) s) ∧
      (p.endLedger ≤ p.snapshotLedger + Token.checkpointRetention →
        Accepted env (.vote voter id support) s →
        (∃ later, Settles later id (machine.step (.governor env (.vote voter id support)) s)) →
          HasRoom calls env voter id support p)) ∧
    (∀ env, now ≤ env.sequence → p.status = .active → p.endLedger < env.sequence →
      env.sequence + p.timelockPeriod ≤ maxU32 →
        ((∑ voter ∈ voters id s, snapshotWeight calls p.snapshotLedger voter ≤ maxI128) →
          DepositCovered env.contract id s → Settles env id s) ∧
        (Settles env id s → DepositCovered env.contract id s ∧
          (p.endLedger ≤ p.snapshotLedger + Token.checkpointRetention →
            ∑ voter ∈ voters id s, snapshotWeight calls p.snapshotLedger voter ≤ maxI128))) ∧
    (2 * (Token.totalSupply close).val ≤ maxI128 → ∀ accounts : Finset Address,
      ∑ voter ∈ accounts, snapshotWeight calls p.snapshotLedger voter ≤ maxI128) := by
  intro s close
  have hw : WellFormed now s := wellFormed_run hcalls
  have hsound : Token.Sound now s.token := token_sound hcalls
  refine ⟨fun env voter support hnow => ⟨?_, ?_⟩, fun env hnow hactive hclosed htimelock => ⟨?_, ?_⟩,
    fun hhalf accounts => (sum_snapshotWeight_le hcalls _ accounts).trans hhalf⟩
  · exact fun hroom => hroom.not_overflows (hcalls.extend hnow) hstored
  · rintro hwindow haccepted ⟨later, hsettles⟩
    exact hasRoom_of_settles (hcalls.extend hnow) hstored hwindow haccepted hsettles
  · intro hturnout hcovered
    obtain ⟨σ, hσ⟩ := polled hcalls p hstored
    rw [hσ.voters_eq] at hturnout
    obtain ⟨total, htotal⟩ := hσ.total hturnout
    obtain ⟨config, hconfig, -⟩ := (hw.proposals id p hstored).endLedger
    obtain ⟨status, s', hret⟩ : (finalize env id).Succeeds s :=
      finalize_succeeds hconfig hstored (hw.ids id p hstored) hactive hclosed htotal htimelock
        (hcovered.pays (hsound.mono hnow) (depositsPositive_run hcalls))
    exact finalize_settles hw hsound.solvent hret
  · exact fun hsettles => ⟨hsettles.covered, fun hwindow => hsettles.turnout hcalls hstored hwindow⟩

/-- The holder of a supply at the top of the machine type stakes it for a year and delegates it,
and the delegatee votes For on a proposal. -/
def boostedCalls : List Invocation :=
  [.token ⟨.authorized 1, .initializeToken (.account 1) [] [] 7 .top⟩,
    .token ⟨.authorized 1, .stake (.account 1) .top Token.maxLockLedgers⟩,
    .token ⟨.authorized 1, .delegate (.account 1) (.account 2)⟩,
    .governor (.authorized 1)
      (.initializeGovernor (.account 1) (.account 2) (.contract 1) 1 3 2 0 0),
    .governor (.authorized 5) (.createProposal (.account 1) [84] [] []),
    .governor (.authorized 6) (.vote (.account 2) 1 1)]

/-- A vote of the holder with the boost alone is refused if it is For as well. If it is Against,
the proposal cannot be decided at any time. -/
theorem proposals_stuck_boosted :
    Refused [.overflow] (vote (.authorized 7) (.account 1) 1 1)
      (machine.run System.empty boostedCalls) ∧
    statusOf (machine.run System.empty
      (boostedCalls ++ [.governor (.authorized 7) (.vote (.account 1) 1 0)])) 1 = some .active ∧
    ∀ env, ¬ Settles env 1 (machine.run System.empty
      (boostedCalls ++ [.governor (.authorized 7) (.vote (.account 1) 1 0)])) := by
  refine ⟨?_, by decide, ?_⟩
  · have hrefused : ((vote (.authorized 7) (.account 1) 1 1).run
        (machine.run System.empty boostedCalls)).1 = .error (.error .overflow) := by decide
    exact ⟨_, hrefused, by simp⟩
  · rintro env ⟨status, s', hret, -⟩
    obtain ⟨p, hp⟩ : ∃ p, (machine.run System.empty (boostedCalls ++
        [.governor (.authorized 7) (.vote (.account 1) 1 0)])).governor.proposal 1 = some p :=
      ⟨_, rfl⟩
    have htotals : ((machine.run System.empty (boostedCalls ++
        [.governor (.authorized 7) (.vote (.account 1) 1 0)])).governor.proposal 1).map totalVotes =
          some none := by decide
    rw [hp, Option.map_some, Option.some.injEq] at htotals
    obtain ⟨total, htotal⟩ := finalize_total hp hret
    exact Option.some_ne_none _ (htotal.symm.trans htotals)

/-- The second proposal of `depositCalls` has room for a vote, and is settled in the end. -/
theorem proposals_settle_passing :
    ¬ Refused [.overflow] (vote (.authorized 6) (.account 1) 2 1)
      (machine.run System.empty (depositCalls.take 6)) ∧
    Settles (.authorized 11) 2 (machine.run System.empty depositCalls) := by
  have hcalls : machine.Scheduled 0 11 depositCalls := by decide
  have hfirst : machine.Scheduled 0 6 (depositCalls.take 6) := by decide
  obtain ⟨p, hp⟩ : ∃ p, (machine.run System.empty (depositCalls.take 6)).governor.proposal 2 =
      some p := ⟨_, rfl⟩
  obtain ⟨q, hq⟩ : ∃ q, (machine.run System.empty depositCalls).governor.proposal 2 = some q :=
    ⟨_, rfl⟩
  have hsnapshot : ((machine.run System.empty (depositCalls.take 6)).governor.proposal 2).map
      Proposal.snapshotLedger = some 5 := by decide
  have hproposal : ((machine.run System.empty depositCalls).governor.proposal 2).map
      (fun q => (q.status, q.endLedger, q.timelockPeriod, q.snapshotLedger)) =
        some (.active, 9, 2, 5) := by decide
  have hheld : (machine.run System.empty depositCalls).governor.deposit 2 = some (.ofNat 25) := by
    decide
  rw [hp, Option.map_some, Option.some.injEq] at hsnapshot
  rw [hq, Option.map_some, Option.some.injEq, Prod.mk.injEq, Prod.mk.injEq,
    Prod.mk.injEq] at hproposal
  obtain ⟨hactive, hend, htimelock, hclose⟩ := hproposal
  obtain ⟨hvotes, -, hweights⟩ := proposals_settle hfirst hp
  obtain ⟨-, hsettles, hweights'⟩ := proposals_settle hcalls hq
  rw [hsnapshot] at hweights
  rw [hclose] at hweights'
  constructor
  · refine (hvotes _ _ _ (by decide)).1 ⟨?_, fun _ hconviction => absurd ?_ hconviction⟩
    · rw [hsnapshot]
      exact hweights (by decide) _
    · decide
  · have hclosed : q.endLedger < (Env.authorized 11).sequence := by rw [hend]; decide
    have hfits : (Env.authorized 11).sequence + q.timelockPeriod ≤ maxU32 := by
      rw [htimelock]
      decide
    refine (hsettles _ (by decide) hactive hclosed hfits).1 ?_ ?_
    · rw [hclose]
      exact hweights' (by decide) _
    · intro amount hamount
      obtain rfl := Option.some.inj (hheld.symm.trans hamount)
      decide

/-! ## Sound and final -/

/-- What `finalize` decides about a proposal. -/
def Decides (p : Proposal) (conviction : Option ConvictionTally) (decision : ProposalStatus) :
    Prop :=
  decision = .queued ∧ Passes p conviction ∨ decision = .failed ∧ ¬ Passes p conviction

/-- Every proposal has a decision. -/
theorem exists_decides (p : Proposal) (conviction : Option ConvictionTally) :
    ∃ decision, Decides p conviction decision := by
  by_cases hpasses : Passes p conviction
  · exact ⟨.queued, .inl ⟨rfl, hpasses⟩⟩
  · exact ⟨.failed, .inr ⟨rfl, hpasses⟩⟩

/-- A proposal has at most one decision. -/
theorem Decides.unique {p : Proposal} {conviction : Option ConvictionTally}
    {decision decision' : ProposalStatus} (h : Decides p conviction decision)
    (h' : Decides p conviction decision') : decision = decision' := by
  rcases h with ⟨rfl, hpasses⟩ | ⟨rfl, hlost⟩ <;> rcases h' with ⟨rfl, hpasses'⟩ | ⟨rfl, hlost'⟩
  · rfl
  · exact absurd hpasses hlost'
  · exact absurd hpasses' hlost
  · rfl

/-- In every reachable state the stored decision of a proposal is justified by its tallies, its
quorum and its conviction tally. No call made after `endLedger` changes these. So there is one
decision that `finalize` comes to whenever it is called after that, after whatever other calls:
it comes to no other, and it does come to this one while the proposal is active, unless the sum of
the tallies or the timelock overflows or the governor has spent the deposit that it holds. -/
theorem decisions_final {calls : List Invocation} (hcalls : machine.Scheduled start now calls)
    {id : ℕ} {p : Proposal}
    (hstored : (machine.run System.empty calls).governor.proposal id = some p) :
    let s := machine.run System.empty calls
    (p.status = .queued ∨ p.status = .executed ∨ p.status = .vetoed ∨ p.status = .expired →
      Passes p (s.governor.conviction id)) ∧
    (p.status = .failed → ¬ Passes p (s.governor.conviction id)) ∧
    (∀ more later, machine.Scheduled now later more → (∀ i ∈ more, p.endLedger < i.sequence) →
      Frozen id p s (machine.run s more)) ∧
    ∃ decision, Decides p (s.governor.conviction id) decision ∧
      ∀ more later env, machine.Scheduled now later more →
        (∀ i ∈ more, p.endLedger < i.sequence) → later ≤ env.sequence →
        (∀ status s', (finalize env id).Returns (machine.run s more) status s' →
          status = decision) ∧
        (statusOf (machine.run s more) id = some .active → p.endLedger < env.sequence →
          totalVotes p ≠ none → env.sequence + p.timelockPeriod ≤ maxU32 →
          DepositCovered env.contract id (machine.run s more) ∨
            Undiverted env.contract System.empty (calls ++ more) →
          ∃ s', (finalize env id).Returns (machine.run s more) decision s') := by
  intro s
  have hw := wellFormed_run hcalls
  have hjustified := decided_run hcalls id p hstored
  obtain ⟨decision, hdecision⟩ := exists_decides p (s.governor.conviction id)
  refine ⟨hjustified.passed, hjustified.failed, fun more later hmore hclosed =>
    frozen_run hw hmore hclosed hstored, decision, hdecision, fun more later env hmore hclosed hlater =>
    ?_⟩
  obtain ⟨q, hq, hkept, htallies, hconviction⟩ := frozen_run hw hmore hclosed hstored
  have hdecides : ∀ status s', (finalize env id).Returns (machine.run s more) status s' →
      status = decision := by
    intro status s' hret
    obtain ⟨q', hq', -, -, hdecided⟩ := finalize_decides hret
    obtain rfl : q = q' := Option.some.inj (hq.symm.trans hq')
    rw [hconviction, passes_congr hkept htallies] at hdecided
    exact Decides.unique hdecided hdecision
  refine ⟨hdecides, fun hactive hended htotal htimelock hpaid => ?_⟩
  have hall := hcalls.append hmore
  have hrun : machine.run System.empty (calls ++ more) = machine.run s more := Clocked.run_append ..
  have hw' : WellFormed later (machine.run s more) := hrun ▸ wellFormed_run hall
  obtain ⟨total, htotal⟩ := Option.ne_none_iff_exists'.mp htotal
  obtain ⟨config, hconfig, -⟩ := (hw'.proposals id q hq).endLedger
  rw [statusOf_eq hq, Option.some.injEq] at hactive
  have hsum : totalVotes q = some total := by
    rw [totalVotes, htallies.forVotes, htallies.againstVotes, htallies.abstainVotes]
    exact htotal
  rw [← hkept.endLedger] at hended
  rw [← hkept.timelockPeriod] at htimelock
  have hpays : ∀ amount, (machine.run s more).governor.deposit id = some amount →
      (payBack env config q.proposer amount).Succeeds (machine.run s more).token ∧
        (payOff env config amount).Succeeds (machine.run s more).token := by
    intro amount hheld
    rcases hpaid with hcovered | hundiverted
    · have hsound : Token.Sound env.sequence (machine.run s more).token :=
        hrun ▸ (token_sound hall).mono hlater
      exact hcovered.pays hsound (hrun ▸ depositsPositive_run hall) amount hheld
    · have hguarded : Guarded env.contract later (machine.run s more) :=
        hrun ▸ (Guarded.empty env.contract start).run hall hundiverted
      exact hguarded.pays hlater hheld
  obtain ⟨status, s', hret⟩ :=
    finalize_succeeds hconfig hq (hw'.ids id q hq) hactive hended hsum htimelock hpays
  exact ⟨s', hdecides status s' hret ▸ hret⟩

/-- The executed proposal of `passingCalls` has met its quorum and its majority. -/
theorem decisions_final_passing :
    ∃ p, (machine.run System.empty passingCalls).governor.proposal 1 = some p ∧
      p.status = .executed ∧ p.quorumRequired.val = 10 ∧ Passes p none := by
  have hcalls : machine.Scheduled 0 14 passingCalls := by decide
  obtain ⟨p, hp⟩ : ∃ p, (machine.run System.empty passingCalls).governor.proposal 1 = some p :=
    ⟨_, rfl⟩
  have hstatus : p.status = .executed := by
    have hrun : statusOf (machine.run System.empty passingCalls) 1 = some .executed := by decide
    rw [statusOf_eq hp] at hrun
    exact Option.some.inj hrun
  have hquorum : ((machine.run System.empty passingCalls).governor.proposal 1).map
      (fun p => p.quorumRequired.val) = some 10 := by decide
  have hconviction : (machine.run System.empty passingCalls).governor.conviction 1 = none := by
    decide
  have hpasses := (decisions_final hcalls hp).1 (.inr (.inl hstatus))
  rw [hconviction] at hpasses
  rw [hp] at hquorum
  exact ⟨p, hp, hstatus, Option.some.inj hquorum, hpasses⟩

/-- The proposal on which both the boost and the balance of one holder have been cast is never
decided, although its deposit is covered and the timelock fits; and neither is one whose deposit
an executed action has spent. -/
theorem decision_missed_boosted :
    let boosted := machine.run System.empty
      (boostedCalls ++ [.governor (.authorized 7) (.vote (.account 1) 1 0)])
    let spent := machine.run System.empty (depositCalls ++
      [.token ⟨.authorized 10, .transfer (.contract 0) (.account 3) (.ofNat 25)⟩])
    (statusOf boosted 1 = some .active ∧
      (∃ p, boosted.governor.proposal 1 = some p ∧ p.endLedger < 11 ∧
        11 + p.timelockPeriod ≤ maxU32) ∧
      DepositCovered (.contract 0) 1 boosted ∧
      ∀ env status s', ¬ (finalize env 1).Returns boosted status s') ∧
    statusOf spent 2 = some .active ∧
      ∀ status s', ¬ (finalize (.authorized 11) 2).Returns spent status s' := by
  intro s spent
  constructor
  · obtain ⟨p, hp⟩ : ∃ p, s.governor.proposal 1 = some p := ⟨_, rfl⟩
    have hterms : (s.governor.proposal 1).map
        (fun p => (totalVotes p, decide (p.endLedger < 11 ∧ 11 + p.timelockPeriod ≤ maxU32))) =
          some (none, true) := by decide
    rw [hp, Option.map_some, Option.some.injEq, Prod.mk.injEq, decide_eq_true_eq] at hterms
    have hdeposit : s.governor.deposit 1 = none := by decide
    refine ⟨by decide, ⟨p, hp, hterms.2⟩, ?_, fun env status s' hret => ?_⟩
    · intro amount hheld
      rw [hdeposit] at hheld
      contradiction
    · obtain ⟨total, htotal⟩ := finalize_total hp hret
      exact Option.some_ne_none _ (htotal.symm.trans hterms.1)
  · have htrap : ((finalize (.authorized 11) 2).run spent).1 = .error (.trap .call) := by decide
    refine ⟨by decide, fun status s' hret => ?_⟩
    rw [hret] at htrap
    contradiction

end Quorum.Governor

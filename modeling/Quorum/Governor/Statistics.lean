import Quorum.Foundation.Registry
import Quorum.Governor.Lifecycle

/-!
# The governance counters

`get_governance_stats` reports stored counters, which a vote, a decision and an expiry maintain
and nothing else. So they hold exactly this in every reachable state: the failed and the expired
proposals are counted, what has passed and not expired is counted as queued whatever became of
it, and the other counters are zero. They agree with the proposals as long as there are none.
-/

namespace Quorum.Governor

open Foundation Contract

variable {s s' : System} {env : Env} {start now id : ℕ}

/-- `get_governance_stats`. -/
def getGovernanceStats (s : Storage) : GovernanceStats := s.stats.getD .default

/-- The number of stored proposals whose status satisfies `P`. -/
def proposalsWith (s : System) (P : ProposalStatus → Bool) : ℕ :=
  census (s.governor.proposalCount.getD 0) (statusOf s) P

/-- The reported counters are the numbers of proposals they stand for. -/
def StatsAgree (s : System) : Prop :=
  let stats := getGovernanceStats s.governor
  stats.totalProposals = proposalsWith s (fun _ => true) ∧
    stats.active = proposalsWith s (fun status => decide (status = .active)) ∧
    stats.queued = proposalsWith s (fun status => decide (status = .queued)) ∧
    stats.executed = proposalsWith s (fun status => decide (status = .executed)) ∧
    stats.failed = proposalsWith s (fun status => decide (status = .failed)) ∧
    stats.cancelled = proposalsWith s (fun status => decide (status = .cancelled)) ∧
    stats.expired = proposalsWith s (fun status => decide (status = .expired))

instance StatsAgree.decidable : Decidable (StatsAgree s) := inferInstanceAs (Decidable (_ ∧ _))

/-! ## What the counters hold -/

/-- The proposal passed its vote and has not expired. -/
def ProposalStatus.passed : ProposalStatus → Bool
  | .queued | .executed | .vetoed => true
  | .active | .failed | .cancelled | .expired => false

/-- The counters as the calls leave them. -/
structure StatsHold (s : System) : Prop where
  first : s.governor.proposal 0 = none
  fits : s.governor.proposalCount.getD 0 ≤ maxU64
  counters : ∃ votesCast, getGovernanceStats s.governor =
    { totalProposals := 0
      active := 0
      queued := proposalsWith s ProposalStatus.passed
      executed := 0
      failed := proposalsWith s fun status => decide (status = .failed)
      cancelled := 0
      expired := proposalsWith s fun status => decide (status = .expired)
      votesCast := votesCast }

/-- The counters of the empty state are as the calls leave them. -/
theorem StatsHold.empty : StatsHold System.empty where
  first := rfl
  fits := Nat.zero_le _
  counters := ⟨0, by decide⟩

/-- All that the counters depend on is the same. -/
theorem StatsHold.of_same (h : StatsHold s) (hproposal : s'.governor.proposal = s.governor.proposal)
    (hcount : s'.governor.proposalCount.getD 0 = s.governor.proposalCount.getD 0)
    (hstats : s'.governor.stats = s.governor.stats) : StatsHold s' := by
  obtain ⟨votesCast, hcounters⟩ := h.counters
  have hstatus : statusOf s' = statusOf s := by
    funext id
    rw [statusOf, statusOf, hproposal]
  refine ⟨by rw [hproposal]; exact h.first, by rw [hcount]; exact h.fits, votesCast, ?_⟩
  unfold getGovernanceStats proposalsWith at *
  rw [hstatus, hcount, hstats, hcounters]

/-! ## Moving one proposal -/

/-- The statuses after one proposal has been replaced. -/
theorem statusOf_put {p' : Proposal}
    (h : s'.governor.proposal = Function.update s.governor.proposal id (some p')) :
    statusOf s' = Function.update (statusOf s) id (some p'.status) := by
  funext other
  by_cases hother : other = id
  · subst hother
    rw [statusOf, h, Function.update_self, Function.update_self, Option.map_some]
  · rw [statusOf, h, Function.update_of_ne hother, Function.update_of_ne hother, statusOf]

/-- The id of a stored proposal has been handed out. -/
theorem WellFormed.id_le {p : Proposal} (hw : WellFormed now s)
    (hstored : s.governor.proposal id = some p) : id ≤ s.governor.proposalCount.getD 0 := by
  by_contra hlt
  rw [hw.unopened id (by omega)] at hstored
  contradiction

/-- A stored proposal that moves is one less of its old status and one more of its new one. -/
theorem proposalsWith_put {p p' : Proposal} {P : ProposalStatus → Bool}
    (hw : WellFormed now s) (hstored : s.governor.proposal id = some p)
    (hcount : s'.governor.proposalCount = s.governor.proposalCount)
    (h : s'.governor.proposal = Function.update s.governor.proposal id (some p')) :
    proposalsWith s' P + (P p.status).toNat = proposalsWith s P + (P p'.status).toNat := by
  unfold proposalsWith
  rw [statusOf_put h, hcount]
  exact census_update (statusOf_eq hstored) (hw.id_le hstored) p'.status

/-- A stored proposal is counted under its status. -/
theorem proposalsWith_pos {p : Proposal} {P : ProposalStatus → Bool} (hw : WellFormed now s)
    (hstored : s.governor.proposal id = some p) (hP : P p.status = true) :
    0 < proposalsWith s P := by
  rw [Nat.pos_iff_ne_zero]
  intro hzero
  have hnone := census_eq_zero_iff.mp hzero id (hw.id_le hstored)
  rw [statusOf_eq hstored, Option.any_some, hP] at hnone
  contradiction

/-- While a proposal is in another status, one more can be counted without saturating. -/
theorem proposalsWith_lt {p : Proposal} {P : ProposalStatus → Bool} (h : StatsHold s)
    (hw : WellFormed now s) (hstored : s.governor.proposal id = some p)
    (hP : P p.status = false) : proposalsWith s P + 1 ≤ maxU64 := by
  have hid := hw.id_le hstored
  have hne : id ≠ 0 := by
    rintro rfl
    rw [h.first] at hstored
    contradiction
  have habsent : ∀ x ∈ ({0, id} : Finset ℕ), (statusOf s x).any P = false := by
    intro x hx
    rcases Finset.mem_insert.mp hx with rfl | hx
    · rw [statusOf, h.first]
      rfl
    · rw [Finset.mem_singleton.mp hx, statusOf_eq hstored]
      exact hP
  have hsub : ({0, id} : Finset ℕ) ⊆ Finset.range (s.governor.proposalCount.getD 0 + 1) := by
    intro x hx
    rw [Finset.mem_range]
    rcases Finset.mem_insert.mp hx with rfl | hx
    · omega
    · rw [Finset.mem_singleton.mp hx]
      omega
  have hle := census_add_card_le hsub habsent
  rw [Finset.card_pair hne.symm] at hle
  have hfits := h.fits
  unfold proposalsWith
  omega

section Moved

variable {q f e votesCast : ℕ}

/-- Queueing counts one queued proposal more. -/
theorem moved_active_queued (hlt : q + 1 ≤ maxU64) :
    GovernanceStats.moved ⟨0, 0, q, 0, f, 0, e, votesCast⟩ .active .queued =
      ⟨0, 0, q + 1, 0, f, 0, e, votesCast⟩ := by
  simp only [GovernanceStats.moved, GovernanceStats.adjust, saturatingAddU64, Nat.min_eq_left hlt]

/-- Failing counts one failed proposal more. -/
theorem moved_active_failed (hlt : f + 1 ≤ maxU64) :
    GovernanceStats.moved ⟨0, 0, q, 0, f, 0, e, votesCast⟩ .active .failed =
      ⟨0, 0, q, 0, f + 1, 0, e, votesCast⟩ := by
  simp only [GovernanceStats.moved, GovernanceStats.adjust, saturatingAddU64, Nat.min_eq_left hlt]

/-- Expiring counts one queued proposal less and one expired one more. -/
theorem moved_queued_expired (hlt : e + 1 ≤ maxU64) :
    GovernanceStats.moved ⟨0, 0, q, 0, f, 0, e, votesCast⟩ .queued .expired =
      ⟨0, 0, q - 1, 0, f, 0, e + 1, votesCast⟩ := by
  simp only [GovernanceStats.moved, GovernanceStats.adjust, saturatingAddU64, Nat.min_eq_left hlt]

end Moved

/-- Moving one proposal keeps the counters right when they move with it. -/
theorem StatsHold.of_put {p p' : Proposal} {queued failed expired votesCast : ℕ} (h : StatsHold s)
    (hw : WellFormed now s) (hstored : s.governor.proposal id = some p)
    (hcount : s'.governor.proposalCount = s.governor.proposalCount)
    (hput : s'.governor.proposal = Function.update s.governor.proposal id (some p'))
    (hstats : getGovernanceStats s'.governor = ⟨0, 0, queued, 0, failed, 0, expired, votesCast⟩)
    (hqueued : queued + p.status.passed.toNat =
      proposalsWith s ProposalStatus.passed + p'.status.passed.toNat)
    (hfailed : failed + (decide (p.status = .failed)).toNat =
      proposalsWith s (fun status => decide (status = .failed)) +
        (decide (p'.status = .failed)).toNat)
    (hexpired : expired + (decide (p.status = .expired)).toNat =
      proposalsWith s (fun status => decide (status = .expired)) +
        (decide (p'.status = .expired)).toNat) : StatsHold s' := by
  have hne : (0 : ℕ) ≠ id := by
    rintro rfl
    rw [h.first] at hstored
    contradiction
  have hq := proposalsWith_put (P := ProposalStatus.passed) hw hstored hcount hput
  have hf := proposalsWith_put (P := fun status => decide (status = .failed)) hw hstored hcount hput
  have he := proposalsWith_put (P := fun status => decide (status = .expired)) hw hstored hcount hput
  refine ⟨by rw [hput, Function.update_of_ne hne, h.first], by rw [hcount]; exact h.fits,
    votesCast, ?_⟩
  rw [hstats]
  congr 1
  · omega
  · omega
  · omega

/-- Opening a proposal counts nothing. -/
theorem StatsHold.of_opens {config : Config} {proposer : Address} {conviction : Bool} {p : Proposal}
    (h : StatsHold s) (hopens : Opens env config proposer conviction p s s') (hid : p.id ≤ maxU64)
    (hstats : s'.governor.stats = s.governor.stats) : StatsHold s' := by
  have hnext := hopens.id
  have hopened : ∀ P : ProposalStatus → Bool, P .active = false →
      proposalsWith s' P = proposalsWith s P := by
    intro P hP
    unfold proposalsWith
    rw [statusOf_put hopens.proposal, hopens.proposalCount, Option.getD_some, hnext, census_succ,
      hopens.status, hP]
    rfl
  obtain ⟨votesCast, hcounters⟩ := h.counters
  refine ⟨?_, ?_, votesCast, ?_⟩
  · rw [hopens.proposal, Function.update_of_ne (by omega), h.first]
  · rw [hopens.proposalCount]
    exact hid
  · rw [hopened _ rfl, hopened _ rfl, hopened _ rfl, getGovernanceStats, hstats]
    exact hcounters

/-- Every accepted call keeps the counters as described. -/
theorem Outcome.statsHold {c : Call} (hw : WellFormed now s) (h : Outcome env s c s')
    (hc : StatsHold s) : StatsHold s' := by
  obtain ⟨votesCast, hcounters⟩ := hc.counters
  unfold getGovernanceStats at hcounters
  cases h with
  | initialized hnone => exact hc.of_same rfl (hw.blank hnone).symm rfl
  | opened _ h _ hid _ hleft => exact hc.of_opens h hid (by rw [hleft])
  | voted h hleft =>
    refine hc.of_put hw h.stored h.proposalCount h.proposal
      (by rw [getGovernanceStats, hleft, Option.getD_some, hcounters]) ?_ ?_ ?_
    · rw [h.status.1]
    · rw [h.status.1]
    · rw [h.status.1]
  | queued _ hstored _ hactive =>
    have hlt := proposalsWith_lt (P := ProposalStatus.passed) hc hw hstored (by rw [hactive]; rfl)
    refine hc.of_put hw hstored rfl rfl
      (by rw [getGovernanceStats, Option.getD_some, hcounters, moved_active_queued hlt]) ?_ ?_ ?_
    · rw [hactive]
      rfl
    · rw [hactive]
      rfl
    · rw [hactive]
      rfl
  | failed _ hstored _ hactive =>
    have hlt := proposalsWith_lt (P := fun status => decide (status = .failed)) hc hw hstored
      (by rw [hactive]; rfl)
    refine hc.of_put hw hstored rfl rfl
      (by rw [getGovernanceStats, Option.getD_some, hcounters, moved_active_failed hlt]) ?_ ?_ ?_
    · rw [hactive]
      rfl
    · rw [hactive]
      rfl
    · rw [hactive]
      rfl
  | begun _ _ _ hstored hqueued =>
    refine hc.of_put hw hstored rfl rfl hcounters ?_ ?_ ?_
    · rw [hqueued]
      rfl
    · rw [hqueued]
      rfl
    · rw [hqueued]
      rfl
  | expired _ hstored hqueued =>
    have hlt := proposalsWith_lt (P := fun status => decide (status = .expired)) hc hw hstored
      (by rw [hqueued]; rfl)
    have hpos := proposalsWith_pos (P := ProposalStatus.passed) hw hstored (by rw [hqueued]; rfl)
    refine hc.of_put hw hstored rfl rfl
      (by rw [getGovernanceStats, System.mapGovernor_governor, Option.getD_some, hcounters,
        moved_queued_expired hlt]) ?_ ?_ ?_
    · rw [hqueued]
      exact Nat.sub_add_cancel hpos
    · rw [hqueued]
      rfl
    · rw [hqueued]
      rfl
  | cancelled _ _ hstored _ hactive =>
    refine hc.of_put hw hstored rfl rfl hcounters ?_ ?_ ?_
    · rw [hactive]
      rfl
    · rw [hactive]
      rfl
    · rw [hactive]
      rfl
  | vetoed _ _ _ hstored hqueued =>
    refine hc.of_put hw hstored rfl rfl hcounters ?_ ?_ ?_
    · rw [hqueued]
      rfl
    · rw [hqueued]
      rfl
    · rw [hqueued]
      rfl
  | _ => exact hc.of_same rfl rfl rfl

/-- Every step leaves the counters as the calls do. -/
theorem Step.statsHold {i : Invocation} (hw : WellFormed now s) (h : Step i s s') (hc : StatsHold s) :
    StatsHold s' := by
  cases h with
  | token _ => exact hc.of_same rfl rfl rfl
  | refused => exact hc
  | governor hret _ => exact (invoke_outcome hret).statsHold hw hc

/-- In every reachable state the counters hold what is described. -/
theorem statsHold_run {calls : List Invocation} (hcalls : machine.Scheduled start now calls) :
    StatsHold (machine.run System.empty calls) := by
  refine (machine.run_invariant (fun t s => WellFormed t s ∧ StatsHold s) ?_ ?_ ?_ hcalls).2
  · exact fun t t' s h hle => ⟨h.1.mono hle, h.2⟩
  · intro i s h
    have hstep := machine_step h.1.blank i
    exact ⟨h.1.step hstep, hstep.statsHold h.1 h.2⟩
  · exact ⟨.empty start, .empty⟩

/-! ## When the counters agree -/

/-- Without proposals every number of proposals is zero. -/
theorem proposalsWith_eq_zero {P : ProposalStatus → Bool}
    (h : ∀ id, s.governor.proposal id = none) : proposalsWith s P = 0 := by
  apply census_eq_zero_iff.mpr
  intro id _
  rw [statusOf, h id]
  rfl

/-- In every reachable state the counters agree with the proposals exactly when no proposal has
been opened. -/
theorem stats_agree_iff {calls : List Invocation} (hcalls : machine.Scheduled start now calls) :
    StatsAgree (machine.run System.empty calls) ↔
      ∀ id, (machine.run System.empty calls).governor.proposal id = none := by
  have hw := wellFormed_run hcalls
  obtain ⟨votesCast, hcounters⟩ := (statsHold_run hcalls).counters
  generalize machine.run System.empty calls = s at hw hcounters ⊢
  unfold StatsAgree
  rw [hcounters]
  constructor
  · rintro ⟨htotal, -⟩ id
    have hnone := census_eq_zero_iff.mp htotal.symm
    by_contra hstored
    obtain ⟨p, hp⟩ := Option.ne_none_iff_exists'.mp hstored
    have hany := hnone id (hw.id_le hp)
    rw [statusOf_eq hp] at hany
    contradiction
  · intro hnone
    simp only [proposalsWith_eq_zero hnone, and_self]

/-- A proposal is opened. -/
def openingCalls : List Invocation :=
  launchCalls 3 ++ [.governor (.authorized 5) (.createProposal (.account 1) [84] [] [])]

/-- Before any proposal the counters agree. -/
theorem stats_agree_iff_launch : StatsAgree (machine.run System.empty (launchCalls 3)) := by
  have hcalls : machine.Scheduled 0 1 (launchCalls 3) := by decide
  exact (stats_agree_iff hcalls).mpr fun _ => rfl

/-- After one proposal has been opened the total is still reported as zero. -/
theorem stats_disagree_opened : ¬ StatsAgree (machine.run System.empty openingCalls) := by decide

end Quorum.Governor

import Quorum.Governor.Lifecycle

/-!
# Phases

The phase of a proposal is read off its stored status and its ledger numbers. The operations check
the same windows each in their own words; the phase says exactly which of them let a proposal
through. Along a run the phase only moves forward.

The deadline of an execution is the end of the grace period after the queue ledger. The phase cuts
this sum at the top of the machine type, while `execute` and `mark_expired` trap when it does not
fit.
-/

namespace Quorum.Governor

open Foundation Contract

variable {s s' : System} {env : Env} {start now id : ℕ} {p : Proposal} {config : Config}

/-- The lifecycle phase of a proposal. -/
inductive ProposalPhase where
  | pending
  | active
  | ended
  | queued
  | readyToExecute
  | passed
  | executed
  | failed
  | cancelled
  | expired
  | vetoed
deriving DecidableEq

/-- The phase of a proposal at the ledger `now`, from its stored status and its ledger numbers. -/
def phaseOf (proposal : Proposal) (now executionGracePeriod : ℕ) : ProposalPhase :=
  match proposal.status with
  | .active =>
    if now < proposal.startLedger then .pending
    else if now ≤ proposal.endLedger then .active
    else .ended
  | .queued =>
    if now < proposal.queueLedger then .queued
    else if 0 < executionGracePeriod ∧
        saturatingAddU32 proposal.queueLedger executionGracePeriod < now then .expired
    else if proposal.kind = .signaling then .passed
    else .readyToExecute
  | .executed => .executed
  | .failed => .failed
  | .cancelled => .cancelled
  | .expired => .expired
  | .vetoed => .vetoed

/-- The phase of a proposal at the current ledger. -/
def getProposalPhase (env : Env) (proposalId : ℕ) : GovernorM ProposalPhase := do
  let proposal ← requireProposal proposalId
  let config ← requireConfig
  pure (phaseOf proposal env.sequence config.executionGracePeriod)

/-! ## The windows of the operations -/

/-- The call is refused with one of the error codes. -/
def Refused {A : Type} (codes : List GovernanceError) (m : GovernorM A) (s : System) : Prop :=
  m.Fails (Failure.IsOneOf codes) s

/-- The stored configuration is the one required. -/
theorem returns_requireConfig (h : s.governor.config = some config) :
    requireConfig.Returns s config s := by
  rw [requireConfig, returns_read_bind_iff, h]
  rfl

/-- The stored proposal is the one required. -/
theorem returns_requireProposal (h : s.governor.proposal id = some p) :
    (requireProposal id).Returns s p s := by
  rw [requireProposal, returns_read_bind_iff, h]
  rfl

/-- A vote is not refused for its conviction except by an overflow. -/
theorem voteConviction_fails {support : ℕ} {votingPower : I128} {P : Failure GovernanceError → Prop}
    (h : (voteConviction env id support votingPower).Fails P s) :
    P (.error .overflow) ∧ ∃ t, s.governor.conviction id = some t ∧
      countConviction (decayTo t env.sequence) support votingPower = none := by
  rw [voteConviction, fails_read_bind_iff] at h
  cases hstored : s.governor.conviction id with
  | none =>
    rw [hstored] at h
    exact absurd h (by simp)
  | some stored =>
    rw [hstored] at h
    simp only [fails_okOr_bind_iff, fails_store_iff, and_false, exists_false, or_false] at h
    exact ⟨h.2, stored, rfl, h.1⟩

/-- `vote` is refused for the phase exactly outside the voter's window. -/
theorem vote_refused_iff {voter : Address} {support : ℕ}
    (hconfig : s.governor.config = some config) (hp : s.governor.proposal id = some p)
    (hauth : env.auth voter = true) (hchoice : support ≤ 2) :
    Refused [.alreadyVoted, .votingPeriodEnded, .votingNotActive, .votingNotStarted]
        (vote env voter id support) s ↔
      ¬ (p.status = .active ∧ p.startLedger ≤ env.sequence ∧ env.sequence ≤ p.endLedger) := by
  rw [Refused, vote, (returns_requireConfig hconfig).fails_bind_iff, requireAuth,
    fails_demand_bind_iff, fails_passed_bind_iff (Nat.not_lt.mpr hchoice),
    (returns_requireProposal hp).fails_bind_iff, fails_read_bind_iff,
    fails_check_bind_iff (by simp), fails_check_bind_iff (by simp), fails_check_bind_iff (by simp),
    fails_check_bind_iff (by simp)]
  constructor
  · rintro (⟨hnone, -⟩ | ⟨-, ⟨hclosed, -⟩ | hclosed | hstatus | hearly | h⟩) ⟨hactive, hstarted, hopen⟩
    · exact absurd hauth hnone
    · omega
    · omega
    · exact hstatus hactive
    · omega
    · -- Past the window only the weight and the tallies can refuse a vote.
      rcases fails_bind_iff.mp h with h | ⟨votingPower, t, -, h⟩
      · exact h.of_call
      · simp only [fails_rejectIf_bind_iff, fails_okOr_bind_iff] at h
        obtain ⟨-, h⟩ | ⟨-, ⟨-, h⟩ | ⟨q, -, ⟨-, h⟩ | ⟨counted, -, h⟩⟩⟩ := h
        · simp at h
        · simp at h
        · simp at h
        · rcases fails_bind_iff.mp h with h | ⟨-, t, -, h⟩
          · simpa using (voteConviction_fails h).1
          · simp at h
  · intro hshut
    by_cases hactive : p.status = .active
    · by_cases hopen : env.sequence ≤ p.endLedger
      · have hearly : env.sequence < p.startLedger :=
          Nat.not_le.mp fun hstarted => hshut ⟨hactive, hstarted, hopen⟩
        exact .inr ⟨hauth, .inr (.inr (.inr (.inl hearly)))⟩
      · exact .inr ⟨hauth, .inr (.inl (Nat.not_le.mp hopen))⟩
    · exact .inr ⟨hauth, .inr (.inr (.inl hactive))⟩

/-- Clearing a deposit never fails. -/
theorem takeDeposit_fails {P : Failure GovernanceError → Prop} : ¬ (takeDeposit id).Fails P s := by
  rw [takeDeposit, fails_read_bind_iff]
  cases s.governor.deposit id with
  | none => simp
  | some amount => simp

/-- A refund fails only in the token. -/
theorem refundDeposit_fails {P : Failure GovernanceError → Prop}
    (h : (refundDeposit env config p).Fails P s) : P (.trap .call) := by
  rcases fails_bind_iff.mp h with h | ⟨held, t, -, h⟩
  · exact absurd h takeDeposit_fails
  · cases held with
    | none => exact absurd h (by simp)
    | some amount =>
      rcases fails_bind_iff.mp h with h | ⟨-, t, -, h⟩
      · exact h.of_call
      · exact absurd h (by simp)

/-- A forfeit fails only in the token. -/
theorem forfeitDeposit_fails {P : Failure GovernanceError → Prop}
    (h : (forfeitDeposit env config id).Fails P s) : P (.trap .call) := by
  rcases fails_bind_iff.mp h with h | ⟨held, t, -, h⟩
  · exact absurd h takeDeposit_fails
  · cases held with
    | none => exact absurd h (by simp)
    | some amount =>
      rcases fails_bind_iff.mp h with h | ⟨-, t, -, h⟩
      · exact h.of_call
      · exact absurd h (by simp)

/-- `finalize` is refused for the phase exactly unless the window of an active proposal is over. -/
theorem finalize_refused_iff (hconfig : s.governor.config = some config)
    (hp : s.governor.proposal id = some p) :
    Refused [.votingNotActive] (finalize env id) s ↔
      ¬ (p.status = .active ∧ p.endLedger < env.sequence) := by
  rw [Refused, finalize, (returns_requireConfig hconfig).fails_bind_iff,
    (returns_requireProposal hp).fails_bind_iff, fails_check_bind_iff (by simp),
    fails_check_bind_iff (by simp)]
  constructor
  · rintro (hopen | hstatus | h) ⟨hactive, hclosed⟩
    · omega
    · exact hstatus hactive
    · simp only [fails_okOr_bind_iff, fails_read_bind_iff] at h
      obtain ⟨-, h⟩ | ⟨total, -, h⟩ := h
      · simp at h
      · split at h
        · simp only [fails_okOr_bind_iff, fails_storeProposal_bind_iff, recordStatusChange,
            fails_updateStats_bind_iff] at h
          obtain ⟨-, h⟩ | ⟨queueLedger, -, h⟩ := h
          · simp at h
          · rcases fails_bind_iff.mp h with h | ⟨-, t, -, h⟩
            · exact refundDeposit_fails h
            · simp at h
        · simp only [fails_storeProposal_bind_iff, recordStatusChange,
            fails_updateStats_bind_iff] at h
          rcases fails_bind_iff.mp h with h | ⟨-, t, -, h⟩
          · exact forfeitDeposit_fails h
          · simp at h
  · intro hshut
    by_cases hactive : p.status = .active
    · exact .inl (Nat.not_lt.mp fun hclosed => hshut ⟨hactive, hclosed⟩)
    · exact .inr (.inl hactive)

/-- `cancel` is refused for the phase exactly once the proposal is past the cancellable statuses. -/
theorem cancel_refused_iff {caller : Address} (hconfig : s.governor.config = some config)
    (hp : s.governor.proposal id = some p) (hauth : env.auth caller = true)
    (hrole : caller = p.proposer ∨ caller = config.admin) :
    Refused [.proposalNotCancellable] (cancel env caller id) s ↔
      ¬ (p.status = .active ∧ env.sequence ≤ p.endLedger) := by
  have hrole : ¬ (caller ≠ p.proposer ∧ caller ≠ config.admin) := by tauto
  rw [Refused, cancel, (returns_requireConfig hconfig).fails_bind_iff, requireAuth,
    fails_demand_bind_iff, (returns_requireProposal hp).fails_bind_iff,
    fails_passed_bind_iff hrole, fails_check_bind_iff (by simp)]
  constructor
  · rintro (⟨hnone, -⟩ | ⟨-, (hstatus | hclosed) | h⟩) ⟨hactive, hopen⟩
    · exact hnone hauth
    · exact hstatus hactive
    · omega
    · rw [fails_storeProposal_bind_iff] at h
      rcases fails_bind_iff.mp h with h | ⟨-, t, -, h⟩
      · exact forfeitDeposit_fails h
      · simp at h
  · intro hshut
    by_cases hactive : p.status = .active
    · exact .inr ⟨hauth, .inl (.inr (Nat.not_le.mp fun hopen => hshut ⟨hactive, hopen⟩))⟩
    · exact .inr ⟨hauth, .inl (.inl hactive)⟩

/-- `set_proposal_action` is refused for the phase exactly once the window is over or the proposal
left it. -/
theorem setProposalAction_refused_iff {target : Address} {function : Text} {args : List Val}
    (hp : s.governor.proposal id = some p) (hauth : env.auth p.proposer = true) :
    Refused [.votingPeriodEnded, .votingNotActive]
        (setProposalAction env p.proposer id target function args) s ↔
      ¬ (p.status = .active ∧ env.sequence ≤ p.endLedger) := by
  rw [Refused, setProposalAction, requireAuth, fails_demand_bind_iff,
    (returns_requireProposal hp).fails_bind_iff, fails_passed_bind_iff (not_not.mpr rfl),
    fails_check_bind_iff (by simp), fails_check_bind_iff (by simp)]
  constructor
  · rintro (⟨hnone, -⟩ | ⟨-, hclosed | hstatus | h⟩) ⟨hactive, hopen⟩
    · exact hnone hauth
    · omega
    · exact hstatus hactive
    · simp at h
  · intro hshut
    by_cases hactive : p.status = .active
    · exact .inr ⟨hauth, .inl (Nat.not_le.mp fun hopen => hshut ⟨hactive, hopen⟩)⟩
    · exact .inr ⟨hauth, .inr (.inl hactive)⟩

/-- `veto` is refused for the phase exactly unless the timelock of a queued proposal still runs. -/
theorem veto_refused_iff {reason : Text} (hconfig : s.governor.config = some config)
    (hp : s.governor.proposal id = some p) (hauth : env.auth config.guardian = true)
    (hreason : reason ≠ []) (hshort : reason.length ≤ maxVetoReasonLength) :
    Refused [.proposalNotPassed, .vetoWindowClosed] (veto env config.guardian id reason) s ↔
      ¬ (p.status = .queued ∧ env.sequence < p.queueLedger) := by
  rw [Refused, veto, (returns_requireConfig hconfig).fails_bind_iff, requireAuth,
    fails_demand_bind_iff, fails_passed_bind_iff (not_not.mpr rfl), fails_passed_bind_iff hreason,
    fails_passed_bind_iff (Nat.not_lt.mpr hshort), (returns_requireProposal hp).fails_bind_iff,
    fails_check_bind_iff (by simp), fails_check_bind_iff (by simp)]
  constructor
  · rintro (⟨hnone, -⟩ | ⟨-, hstatus | hclosed | h⟩) ⟨hqueued, hearly⟩
    · exact hnone hauth
    · exact hstatus hqueued
    · omega
    · simp at h
  · intro hshut
    by_cases hqueued : p.status = .queued
    · exact .inr ⟨hauth, .inr (.inl (Nat.not_lt.mp fun hearly => hshut ⟨hqueued, hearly⟩))⟩
    · exact .inr ⟨hauth, .inl hqueued⟩

/-- A dispatch fails only by a failed action. -/
theorem dispatchActions_fails {callee : Callee} {actions : List ProposalAction}
    {P : Failure GovernanceError → Prop} (h : (dispatchActions callee env actions).Fails P s) :
    P (.error .actionFailed) := by
  induction actions generalizing s with
  | nil => exact absurd h (by simp [dispatchActions])
  | cons action rest ih =>
    rw [dispatchActions, fails_read_bind_iff, fails_okOr_bind_iff] at h
    obtain ⟨-, h⟩ | ⟨s', -, h⟩ := h
    · exact h
    · exact ih h

/-- An execution fails before the dispatch, or by a failed action. -/
theorem execute_fails {callee : Callee} {executor : Address} {P : Failure GovernanceError → Prop}
    (h : (execute callee env executor id).Fails P s) :
    (beginExecution env executor id).Fails P s ∨ P (.error .actionFailed) := by
  rcases fails_bind_iff.mp h with h | ⟨actions, s₁, -, h⟩
  · exact .inl h
  · rcases fails_bind_iff.mp h with h | ⟨-, s₂, -, h⟩
    · exact .inr (dispatchActions_fails h)
    · exact absurd h (by simp [endExecution])

/-! ## The phase tells which windows are open -/

section PhaseOf

variable {grace : ℕ}

/-- The phase is `active` exactly for an active proposal within its window. -/
theorem phaseOf_eq_active_iff : phaseOf p now grace = .active ↔
    p.status = .active ∧ p.startLedger ≤ now ∧ now ≤ p.endLedger := by
  unfold phaseOf
  cases p.status <;> grind

/-- The phase is `ended` exactly for an active proposal past its window. -/
theorem phaseOf_eq_ended_iff (hwindow : p.startLedger ≤ p.endLedger) :
    phaseOf p now grace = .ended ↔ p.status = .active ∧ p.endLedger < now := by
  unfold phaseOf
  cases p.status <;> grind

/-- The phase is `pending` or `active` exactly for an active proposal up to its end. -/
theorem phaseOf_eq_open_iff (hwindow : p.startLedger ≤ p.endLedger) :
    phaseOf p now grace = .pending ∨ phaseOf p now grace = .active ↔
      p.status = .active ∧ now ≤ p.endLedger := by
  unfold phaseOf
  cases p.status <;> grind

/-- The phase is `queued` exactly for a queued proposal within its timelock. -/
theorem phaseOf_eq_queued_iff : phaseOf p now grace = .queued ↔
    p.status = .queued ∧ now < p.queueLedger := by
  unfold phaseOf
  cases p.status <;> grind

/-- While it is queued, a proposal has expired once the deadline is over. -/
theorem phaseOf_eq_expired_iff (hqueued : p.status = .queued) :
    phaseOf p now grace = .expired ↔
      0 < grace ∧ p.queueLedger ≤ now ∧ saturatingAddU32 p.queueLedger grace < now := by
  unfold phaseOf
  rw [hqueued]
  grind

/-- The phase is `ready_to_execute` exactly for a queued binding proposal from the end of its
timelock to its deadline. -/
theorem phaseOf_eq_readyToExecute_iff : phaseOf p now grace = .readyToExecute ↔
    p.status = .queued ∧ p.queueLedger ≤ now ∧ p.kind ≠ .signaling ∧
      (0 < grace → now ≤ saturatingAddU32 p.queueLedger grace) := by
  unfold phaseOf
  cases p.status <;> grind

/-- The phase reads the fixed fields, the status and the end of the timelock alone. -/
theorem phaseOf_congr {p' : Proposal} (hkept : Kept p p') (hstatus : p'.status = p.status)
    (hqueue : p'.queueLedger = p.queueLedger) : phaseOf p' now grace = phaseOf p now grace := by
  unfold phaseOf
  rw [hstatus, hqueue, hkept.startLedger, hkept.endLedger, hkept.kind]

end PhaseOf

/-! ## The order of the phases -/

/-- The stage a phase belongs to. -/
def ProposalPhase.stage : ProposalPhase → ℕ
  | .pending => 0
  | .active => 1
  | .ended => 2
  | .queued => 3
  | .readyToExecute | .passed => 4
  | .executed | .failed | .cancelled | .expired | .vetoed => 5

/-- The phases that end the life of a proposal. -/
def ProposalPhase.final : ProposalPhase → Bool
  | .executed | .failed | .cancelled | .expired | .vetoed => true
  | _ => false

/-- The second phase may be reported after the first one. -/
def ProposalPhase.LeadsTo (a b : ProposalPhase) : Prop :=
  a.stage ≤ b.stage ∧ (a.final = true → b = a)

namespace ProposalPhase.LeadsTo

variable {a b c : ProposalPhase}

/-- A phase leads to itself. -/
theorem refl (a : ProposalPhase) : a.LeadsTo a := ⟨le_rfl, fun _ => rfl⟩

/-- Phases lead on through one another. -/
theorem trans (h : a.LeadsTo b) (h' : b.LeadsTo c) : a.LeadsTo c := by
  refine ⟨h.1.trans h'.1, fun hfinal => ?_⟩
  have heq := h.2 hfinal
  rw [h'.2 (heq ▸ hfinal), heq]

/-- A phase that does not end the life of a proposal leads to all that come at a later stage. -/
theorem of_stage (hfinal : a.final = false) (hstage : a.stage ≤ b.stage) : a.LeadsTo b :=
  ⟨hstage, fun h => by rw [hfinal] at h; contradiction⟩

/-- Such a phase leads to every one that does. -/
theorem of_final (ha : a.final = false) (hb : b.final = true) : a.LeadsTo b := by
  apply of_stage ha
  cases b <;> first | contradiction | (cases a <;> decide)

end ProposalPhase.LeadsTo

/-- Time takes a proposal that is left alone to later phases. -/
theorem phaseOf_mono (p : Proposal) (grace : ℕ) {later : ℕ} (h : now ≤ later) :
    (phaseOf p now grace).LeadsTo (phaseOf p later grace) := by
  unfold phaseOf
  cases p.status <;> grind [ProposalPhase.LeadsTo, ProposalPhase.stage, ProposalPhase.final]

/-- Restating a proposal moves its phase alone. -/
theorem Restates.phase {other : ℕ} {q q' : Proposal} {grace : ℕ} (h : Restates other q q' s s')
    (hp : s.governor.proposal id = some p)
    (hself : (phaseOf q now grace).LeadsTo (phaseOf q' now grace)) :
    ∃ p', s'.governor.proposal id = some p' ∧
      (phaseOf p now grace).LeadsTo (phaseOf p' now grace) := by
  rw [h.proposal]
  by_cases hother : id = other
  · subst hother
    obtain rfl : q = p := Option.some.inj (h.stored.symm.trans hp)
    exact ⟨q', Function.update_self .., hself⟩
  · exact ⟨p, by rw [Function.update_of_ne hother, hp], .refl _⟩

/-- A change leads every proposal to the same or a later phase. -/
theorem Change.phase {c : Call} (hw : WellFormed env.sequence s)
    (hconfig : s.governor.config = some config)
    (hready : ∀ executor other q, c = .beginExecution executor other →
      s.governor.proposal other = some q →
        phaseOf q env.sequence config.executionGracePeriod = .readyToExecute)
    (hp : s.governor.proposal id = some p) (h : Change env c s s') :
    ∃ p', s'.governor.proposal id = some p' ∧
      (phaseOf p env.sequence config.executionGracePeriod).LeadsTo
        (phaseOf p' env.sequence config.executionGracePeriod) := by
  cases h with
  | quiet _ h => exact ⟨p, by rw [h.proposal, hp], .refl _⟩
  | @opened _ _ _ _ _ _ q _ h =>
    have hne : id ≠ q.id := by
      rintro rfl
      rw [(hw.fresh h).1] at hp
      contradiction
    exact ⟨p, by rw [h.proposal, Function.update_of_ne hne, hp], .refl _⟩
  | @voted _ _ _ other _ q counted _ h =>
    rw [h.proposal]
    by_cases hother : id = other
    · subst hother
      obtain rfl : q = p := Option.some.inj (h.stored.symm.trans hp)
      refine ⟨counted, Function.update_self .., ?_⟩
      rw [phaseOf_congr h.kept h.status.1 h.status.2]
      exact .refl _
    · exact ⟨p, by rw [Function.update_of_ne hother, hp], .refl _⟩
  | @queued _ _ _ q _ hclosed hactive _ _ _ h =>
    apply h.phase hp
    have hq := hw.proposals _ _ h.stored
    have htimelock : 1 ≤ q.timelockPeriod := hq.timelock
    have hqueued : env.sequence < env.sequence + q.timelockPeriod := by omega
    rw [(phaseOf_eq_ended_iff hq.window).mpr ⟨hactive, hclosed⟩,
      phaseOf_eq_queued_iff.mpr ⟨rfl, hqueued⟩]
    exact .of_stage rfl (by decide)
  | failed hclosed hactive _ _ h =>
    apply h.phase hp
    rw [(phaseOf_eq_ended_iff (hw.proposals _ _ h.stored).window).mpr ⟨hactive, hclosed⟩]
    exact .of_final rfl rfl
  | executed _ _ _ _ _ h =>
    apply h.phase hp
    rw [hready _ _ _ rfl h.stored]
    exact .of_final rfl rfl
  | cancelled _ _ _ hactive hopen h =>
    apply h.phase hp
    rcases (phaseOf_eq_open_iff (hw.proposals _ _ h.stored).window).mpr ⟨hactive, hopen⟩ with
      hphase | hphase
    · rw [hphase]
      exact .of_final rfl rfl
    · rw [hphase]
      exact .of_final rfl rfl
  | vetoed _ _ _ hqueued hearly h =>
    apply h.phase hp
    rw [phaseOf_eq_queued_iff.mpr ⟨hqueued, hearly⟩]
    exact .of_final rfl rfl
  | @expired _ _ _ q config' hconfig' hqueued hgrace hlate h =>
    apply h.phase hp
    obtain rfl : config = config' := Option.some.inj (hconfig.symm.trans hconfig')
    have hdeadline : saturatingAddU32 q.queueLedger config.executionGracePeriod < env.sequence :=
      (min_le_left _ _).trans_lt hlate
    rw [(phaseOf_eq_expired_iff hqueued).mpr ⟨hgrace, by omega, hdeadline⟩]
    exact .refl _

/-- An execution starts in the phase that is ready for it. -/
theorem beginExecution_phase {executor : Address} {actions : List ProposalAction}
    (hconfig : s.governor.config = some config) (hp : s.governor.proposal id = some p)
    (h : (beginExecution env executor id).Returns s actions s') :
    phaseOf p env.sequence config.executionGracePeriod = .readyToExecute := by
  simp only [beginExecution, requireAuth, returns_demand_bind_iff, returns_getConfig_bind_iff,
    returns_rejectIf_bind_iff, returns_requireProposal_bind_iff, returns_unwrap_bind_iff,
    checkedAddU32_eq_some, hconfig, hp, Option.some.injEq, exists_eq_left'] at h
  obtain ⟨-, -, hqueued, hkind, hready, deadline, ⟨rfl, hfits⟩, hdeadline, -⟩ := h
  have hexact : saturatingAddU32 p.queueLedger config.executionGracePeriod =
      p.queueLedger + config.executionGracePeriod := min_eq_left hfits
  rw [phaseOf_eq_readyToExecute_iff, hexact]
  exact ⟨not_not.mp hqueued, by omega, hkind, by omega⟩

/-- A step leads every proposal to the same or a later phase, under the same grace period. -/
theorem Step.phase {i : Invocation} (hw : WellFormed i.sequence s)
    (hconfig : s.governor.config = some config) (hp : s.governor.proposal id = some p)
    (h : Step i s s') :
    (∃ config', s'.governor.config = some config' ∧
      config'.executionGracePeriod = config.executionGracePeriod) ∧
    ∃ p', s'.governor.proposal id = some p' ∧
      (phaseOf p i.sequence config.executionGracePeriod).LeadsTo
        (phaseOf p' i.sequence config.executionGracePeriod) := by
  cases h with
  | token h => exact ⟨⟨config, hconfig, rfl⟩, p, hp, .refl _⟩
  | refused => exact ⟨⟨config, hconfig, rfl⟩, p, hp, .refl _⟩
  | governor hret he =>
    obtain ⟨config', hconfig', hterms⟩ := he.config.some hconfig
    refine ⟨⟨config', hconfig', hterms.executionGracePeriod⟩, he.change.phase hw hconfig ?_ hp⟩
    rintro executor other q rfl hq
    obtain ⟨actions, hbegin⟩ := discard_returns hret
    exact beginExecution_phase hconfig hq hbegin

/-- Along a run the phase of a proposal moves forward. -/
theorem phase_run {calls : List Invocation} (hw : WellFormed start s)
    (hconfig : s.governor.config = some config) (hp : s.governor.proposal id = some p)
    (hcalls : machine.Scheduled start now calls) :
    ∃ config' p', (machine.run s calls).governor.config = some config' ∧
      (machine.run s calls).governor.proposal id = some p' ∧
      config'.executionGracePeriod = config.executionGracePeriod ∧
      (phaseOf p start config.executionGracePeriod).LeadsTo
        (phaseOf p' now config.executionGracePeriod) := by
  induction calls generalizing start s p config with
  | nil => exact ⟨config, p, hconfig, hp, rfl, phaseOf_mono p _ hcalls⟩
  | cons i rest ih =>
    have hi := hw.mono hcalls.1
    have hstep := machine_step hi.blank i
    obtain ⟨⟨config', hconfig', hgrace⟩, q, hq, hleads⟩ := hstep.phase hi hconfig hp
    obtain ⟨config'', p', hconfig'', hp', hgrace', hrest⟩ := ih (hi.step hstep) hconfig' hq hcalls.2
    rw [hgrace] at hrest
    exact ⟨config'', p', hconfig'', hp', hgrace'.trans hgrace,
      (phaseOf_mono p _ hcalls.1).trans (hleads.trans hrest)⟩

/-! ## The phase is sound -/

/-- `get_proposal_phase` returns the phase of the stored proposal. -/
theorem getProposalPhase_returns (hconfig : s.governor.config = some config)
    (hp : s.governor.proposal id = some p) :
    (getProposalPhase env id).Returns s
      (phaseOf p env.sequence config.executionGracePeriod) s :=
  (returns_requireProposal hp).bind ((returns_requireConfig hconfig).bind rfl)

/-- A proposal is marked as expired in the phase that says so. -/
theorem markExpired_phase {u : Unit} (hconfig : s.governor.config = some config)
    (hp : s.governor.proposal id = some p) (h : (markExpired env id).Returns s u s') :
    p.status = .queued ∧ phaseOf p env.sequence config.executionGracePeriod = .expired := by
  simp only [markExpired, returns_requireProposal_bind_iff, returns_rejectIf_bind_iff,
    returns_getConfig_bind_iff, returns_unwrap_bind_iff, checkedAddU32_eq_some, hconfig, hp,
    Option.some.injEq, exists_eq_left', not_not] at h
  obtain ⟨hqueued, deadline, ⟨rfl, -⟩, ⟨hgrace, hlate⟩, -⟩ := h
  refine ⟨hqueued, (phaseOf_eq_expired_iff hqueued).mpr ⟨hgrace, by omega, ?_⟩⟩
  exact (min_le_left _ _).trans_lt hlate

/-- The operations let a proposal through in the phases that are theirs. An operation that passes
its window and status guards is one that is not refused with the error codes of these guards. -/
structure GuardsMatch (env : Env) (id : ℕ) (p : Proposal) (config : Config) (phase : ProposalPhase)
    (s : System) : Prop where
  vote : ∀ voter support, env.auth voter = true → support ≤ 2 →
    (¬ Refused [.alreadyVoted, .votingPeriodEnded, .votingNotActive, .votingNotStarted]
      (vote env voter id support) s ↔ phase = .active)
  finalize : ¬ Refused [.votingNotActive] (finalize env id) s ↔ phase = .ended
  cancel : ∀ caller, env.auth caller = true → caller = p.proposer ∨ caller = config.admin →
    (¬ Refused [.proposalNotCancellable] (cancel env caller id) s ↔
      phase = .pending ∨ phase = .active)
  setProposalAction : ∀ target function args, env.auth p.proposer = true →
    (¬ Refused [.votingPeriodEnded, .votingNotActive]
      (setProposalAction env p.proposer id target function args) s ↔
        phase = .pending ∨ phase = .active)
  veto : ∀ reason, env.auth config.guardian = true → reason ≠ [] →
    reason.length ≤ maxVetoReasonLength →
    (¬ Refused [.proposalNotPassed, .vetoWindowClosed] (veto env config.guardian id reason) s ↔
      phase = .queued)
  execute : ∀ callee executor s', (execute callee env executor id).Returns s () s' →
    phase = .readyToExecute
  markExpired : ∀ s', (markExpired env id).Returns s () s' →
    p.status = .queued ∧ phase = .expired

/-- In every reachable state the reported phase of a stored proposal says which operations let it
through, at every ledger. Along every run it moves forward, and a phase that ends the life of the
proposal is reported for good. -/
theorem phase_sound {calls : List Invocation} (hcalls : machine.Scheduled start now calls)
    (hstored : (machine.run System.empty calls).governor.proposal id = some p) :
    let s := machine.run System.empty calls
    ∃ config, s.governor.config = some config ∧
      ∀ env : Env, ∃ phase, (getProposalPhase env id).Returns s phase s ∧
        GuardsMatch env id p config phase s ∧
        ∀ (env' : Env) (more : List Invocation), now ≤ env.sequence →
          machine.Scheduled env.sequence env'.sequence more →
          ∃ phase', (getProposalPhase env' id).Returns (machine.run s more) phase'
            (machine.run s more) ∧ phase.LeadsTo phase' := by
  intro s
  have hw : WellFormed now s := wellFormed_run hcalls
  have hp := hw.proposals id p hstored
  obtain ⟨config, hconfig, -⟩ := hp.endLedger
  refine ⟨config, hconfig, fun env => ⟨_, getProposalPhase_returns hconfig hstored, ?_, ?_⟩⟩
  · refine ⟨?_, ?_, ?_, ?_, ?_, ?_, ?_⟩
    · intro voter support hauth hchoice
      rw [vote_refused_iff hconfig hstored hauth hchoice, not_not, phaseOf_eq_active_iff]
    · rw [finalize_refused_iff hconfig hstored, not_not, phaseOf_eq_ended_iff hp.window]
    · intro caller hauth hrole
      rw [cancel_refused_iff hconfig hstored hauth hrole, not_not, phaseOf_eq_open_iff hp.window]
    · intro target function args hauth
      rw [setProposalAction_refused_iff hstored hauth, not_not, phaseOf_eq_open_iff hp.window]
    · intro reason hauth hreason hshort
      rw [veto_refused_iff hconfig hstored hauth hreason hshort, not_not, phaseOf_eq_queued_iff]
    · intro callee executor s' hret
      obtain ⟨actions, s₁, hbegin, -⟩ := returns_bind_iff.mp hret
      exact beginExecution_phase hconfig hstored hbegin
    · intro s' hret
      exact markExpired_phase hconfig hstored hret
  · intro env' more hnow hmore
    obtain ⟨config', p', hconfig', hp', hgrace, hleads⟩ :=
      phase_run (hw.mono hnow) hconfig hstored hmore
    refine ⟨_, getProposalPhase_returns hconfig' hp', ?_⟩
    rw [hgrace]
    exact hleads

/-- The proposal of `passingCalls` is ready to execute in ledger 12, and executed after that. -/
theorem phase_sound_passing :
    let s := machine.run System.empty (passingCalls.take 5)
    ∃ phase phase', (getProposalPhase (.authorized 12) 1).Returns s phase s ∧
      phase = .readyToExecute ∧
      (getProposalPhase (.authorized 14) 1).Returns (machine.run s (passingCalls.drop 5)) phase'
        (machine.run s (passingCalls.drop 5)) ∧
      phase' = .executed ∧ phase.LeadsTo phase' := by
  have hcalls : machine.Scheduled 0 10 (passingCalls.take 5) := by decide
  have hmore : machine.Scheduled 12 14 (passingCalls.drop 5) := by decide
  have hready : ((getProposalPhase (.authorized 12) 1).run
      (machine.run System.empty (passingCalls.take 5))).1 = .ok .readyToExecute := by decide
  have hexecuted : ((getProposalPhase (.authorized 14) 1).run (machine.run
      (machine.run System.empty (passingCalls.take 5)) (passingCalls.drop 5))).1 =
        .ok .executed := by decide
  obtain ⟨p, hp⟩ : ∃ p, (machine.run System.empty (passingCalls.take 5)).governor.proposal 1 =
      some p := ⟨_, rfl⟩
  obtain ⟨config, -, hphases⟩ := phase_sound hcalls hp
  obtain ⟨phase, hphase, -, hlater⟩ := hphases (.authorized 12)
  obtain ⟨phase', hphase', hleads⟩ := hlater (.authorized 14) _ (by decide) hmore
  have hfirst := (congrArg Prod.fst hphase).symm.trans hready
  have hsecond := (congrArg Prod.fst hphase').symm.trans hexecuted
  exact ⟨phase, phase', hphase, Except.ok.inj hfirst, hphase', Except.ok.inj hsecond, hleads⟩

/-! ## The deadline of an execution -/

/-- A failure that is about the ledgers of an execution. -/
def Untimely (f : Failure GovernanceError) : Prop :=
  f = .error .timelockNotExpired ∨ f = .error .executionExpired ∨ f = .trap .arithmetic

/-- The operations and the phase use one deadline for a queued proposal, and none of them traps
on it. -/
structure DeadlineAgrees (env : Env) (id : ℕ) (p : Proposal) (config : Config) (s : System) :
    Prop where
  execute_untrapped : ∀ callee executor,
    ¬ (execute callee env executor id).Fails (fun f => f = .trap .arithmetic) s
  markExpired_untrapped : ¬ (markExpired env id).Fails (fun f => f = .trap .arithmetic) s
  ready : phaseOf p env.sequence config.executionGracePeriod = .readyToExecute →
    ∀ callee executor, ¬ (execute callee env executor id).Fails Untimely s
  expired : (markExpired env id).Succeeds s ↔
    phaseOf p env.sequence config.executionGracePeriod = .expired
  unexpired : phaseOf p env.sequence config.executionGracePeriod ≠ .expired →
    Refused [.timelockNotExpired] (markExpired env id) s

/-- An execution traps on arithmetic only if the deadline does not fit. -/
theorem beginExecution_trapped {executor : Address} (hconfig : s.governor.config = some config)
    (hp : s.governor.proposal id = some p)
    (h : (beginExecution env executor id).Fails (fun f => f = .trap .arithmetic) s) :
    maxU32 < p.queueLedger + config.executionGracePeriod := by
  simp only [beginExecution, requireAuth, fails_demand_bind_iff, fails_getConfig_bind_iff,
    fails_rejectIf_bind_iff, fails_requireProposal_bind_iff, fails_unwrap_bind_iff,
    fails_read_bind_iff, fails_storeProposal_bind_iff, fails_pure_iff, hconfig, hp,
    Option.some.injEq, exists_eq_left', reduceCtorEq, Failure.trap.injEq, and_false, and_true,
    false_or, exists_false, or_false, checkedAddU32_eq_none] at h
  obtain ⟨-, -, -, -, -, hlost⟩ := h
  exact hlost

/-- It fails for its ledgers only before the timelock is over, after the deadline, or if the
deadline does not fit. -/
theorem beginExecution_untimely {executor : Address} (hconfig : s.governor.config = some config)
    (hp : s.governor.proposal id = some p)
    (h : (beginExecution env executor id).Fails Untimely s) :
    env.sequence < p.queueLedger ∨ maxU32 < p.queueLedger + config.executionGracePeriod ∨
      0 < config.executionGracePeriod ∧
        p.queueLedger + config.executionGracePeriod < env.sequence := by
  simp only [beginExecution, Untimely, requireAuth, fails_demand_bind_iff,
    fails_getConfig_bind_iff, fails_rejectIf_bind_iff, fails_requireProposal_bind_iff,
    fails_unwrap_bind_iff, fails_read_bind_iff, fails_storeProposal_bind_iff, fails_pure_iff,
    hconfig, hp, Option.some.injEq, exists_eq_left', reduceCtorEq, Failure.trap.injEq,
    Failure.error.injEq, and_false, and_true, or_self, false_or, or_false, or_true,
    checkedAddU32_eq_none, checkedAddU32_eq_some] at h
  obtain ⟨-, -, -, -, hearly | ⟨-, hlost | ⟨deadline, ⟨rfl, -⟩, hlate⟩⟩⟩ := h
  · exact .inl hearly
  · exact .inr (.inl hlost)
  · exact .inr (.inr hlate)

/-- `execute` does not trap where the deadline fits 32 bits. -/
theorem execute_untrapped {callee : Callee} {executor : Address}
    (hconfig : s.governor.config = some config) (hp : s.governor.proposal id = some p)
    (hfits : p.queueLedger + config.executionGracePeriod ≤ maxU32) :
    ¬ (execute callee env executor id).Fails (fun f => f = .trap .arithmetic) s := by
  intro h
  rcases execute_fails h with h | h
  · have hlost := beginExecution_trapped hconfig hp h
    omega
  · contradiction

/-- The stored configuration is the one read. -/
theorem returns_getConfig (h : s.governor.config = some config) : getConfig.Returns s config s := by
  rw [getConfig, returns_read_bind_iff, h]
  rfl

/-- A queued proposal whose deadline fits is marked as expired in that phase, and is refused
before. -/
theorem markExpired_cases (hconfig : s.governor.config = some config)
    (hp : s.governor.proposal id = some p) (hqueued : p.status = .queued)
    (hfits : p.queueLedger + config.executionGracePeriod ≤ maxU32) :
    phaseOf p env.sequence config.executionGracePeriod = .expired ∧ (markExpired env id).Succeeds s ∨
      phaseOf p env.sequence config.executionGracePeriod ≠ .expired ∧
        (markExpired env id).run s = (.error (.error .timelockNotExpired), s) := by
  have hexact : saturatingAddU32 p.queueLedger config.executionGracePeriod =
      p.queueLedger + config.executionGracePeriod := min_eq_left hfits
  have hsum := checkedAddU32_eq_some.mpr
    ⟨(rfl : p.queueLedger + config.executionGracePeriod = _), hfits⟩
  have hphase : phaseOf p env.sequence config.executionGracePeriod = .expired ↔
      0 < config.executionGracePeriod ∧
        p.queueLedger + config.executionGracePeriod < env.sequence := by
    rw [phaseOf_eq_expired_iff hqueued, hexact]
    omega
  by_cases hlate : 0 < config.executionGracePeriod ∧
      p.queueLedger + config.executionGracePeriod < env.sequence
  · refine .inl ⟨hphase.mpr hlate, ?_⟩
    apply (returns_requireProposal hp).succeeds_bind
    apply succeeds_rejectIf_bind (not_not.mpr hqueued)
    apply (returns_getConfig hconfig).succeeds_bind
    apply succeeds_unwrap_bind hsum
    apply succeeds_rejectIf_bind (not_not.mpr hlate)
    exact ⟨_, _, rfl⟩
  · refine .inr ⟨fun hexpired => hlate (hphase.mp hexpired), ?_⟩
    rw [markExpired, (returns_requireProposal hp).run_bind, run_rejectIf_bind,
      if_neg (not_not.mpr hqueued), (returns_getConfig hconfig).run_bind, hsum,
      run_unwrap_some_bind, run_rejectIf_bind, if_pos hlate]

/-- Without room for the deadline, marking a queued proposal traps. -/
theorem markExpired_trapped (hconfig : s.governor.config = some config)
    (hp : s.governor.proposal id = some p) (hqueued : p.status = .queued)
    (hlost : maxU32 < p.queueLedger + config.executionGracePeriod) :
    (markExpired env id).run s = (.error (.trap .arithmetic), s) := by
  rw [markExpired, (returns_requireProposal hp).run_bind, run_rejectIf_bind,
    if_neg (not_not.mpr hqueued), (returns_getConfig hconfig).run_bind,
    checkedAddU32_eq_none.mpr hlost]
  rfl

/-- In every reachable state and at every ledger, the operations and the phase agree on the
deadline of a queued proposal exactly when the queue ledger plus the grace period fits into the
machine type. -/
theorem deadline_agrees_iff {calls : List Invocation} (hcalls : machine.Scheduled start now calls)
    (hstored : (machine.run System.empty calls).governor.proposal id = some p)
    (hqueued : p.status = .queued) :
    let s := machine.run System.empty calls
    ∃ config, s.governor.config = some config ∧ ∀ env : Env,
      (getProposalPhase env id).Returns s
        (phaseOf p env.sequence config.executionGracePeriod) s ∧
      (DeadlineAgrees env id p config s ↔
        p.queueLedger + config.executionGracePeriod ≤ maxU32) := by
  intro s
  obtain ⟨config, hconfig, -⟩ := ((wellFormed_run hcalls).proposals id p hstored).endLedger
  refine ⟨config, hconfig, fun env => ⟨getProposalPhase_returns hconfig hstored, ?_, ?_⟩⟩
  · intro h
    by_contra hlost
    have htrap : (markExpired env id).run s = (.error (.trap .arithmetic), s) :=
      markExpired_trapped hconfig hstored hqueued (Nat.not_le.mp hlost)
    exact h.markExpired_untrapped ⟨_, congrArg Prod.fst htrap, rfl⟩
  · intro hfits
    refine ⟨fun callee executor => execute_untrapped hconfig hstored hfits, ?_, ?_, ?_, ?_⟩
    · intro hfails
      rcases markExpired_cases hconfig hstored hqueued hfits with
        ⟨-, hsucceeds⟩ | ⟨-, hrefused⟩
      · exact hsucceeds.not_fails hfails
      · obtain ⟨f, hrun, rfl⟩ := hfails
        rw [hrefused] at hrun
        simp at hrun
    · intro hready callee executor hfails
      obtain ⟨-, hstarted, -, hdeadline⟩ := phaseOf_eq_readyToExecute_iff.mp hready
      have hcut : saturatingAddU32 p.queueLedger config.executionGracePeriod ≤
          p.queueLedger + config.executionGracePeriod := min_le_left _ _
      rcases execute_fails hfails with hfails | hfails
      · rcases beginExecution_untimely hconfig hstored hfails with h | h | ⟨hgrace, hlate⟩
        · omega
        · omega
        · have hbound := hdeadline hgrace
          omega
      · simp [Untimely] at hfails
    · rcases markExpired_cases hconfig hstored hqueued hfits with
        ⟨hphase, hsucceeds⟩ | ⟨hphase, hrefused⟩
      · exact iff_of_true hsucceeds hphase
      · exact iff_of_false (fun h => h.run_ne_error _ _ hrefused) hphase
    · intro hphase
      rcases markExpired_cases hconfig hstored hqueued hfits with
        ⟨hexpired, -⟩ | ⟨-, hrefused⟩
      · exact absurd hexpired hphase
      · exact ⟨_, congrArg Prod.fst hrefused, List.mem_singleton_self _⟩

/-- A proposal is opened, voted for and queued, under the given grace period. -/
def queuedCalls (executionGracePeriod : ℕ) : List Invocation :=
  [.token ⟨.authorized 1, .initializeToken (.account 1) [] [] 7 (.ofNat 100)⟩,
    .governor (.authorized 1) (.initializeGovernor (.account 1) (.account 2) (.contract 1) 1000 3 2
      executionGracePeriod 0),
    .governor (.authorized 5) (.createProposal (.account 1) [84] [] []),
    .governor (.authorized 6) (.vote (.account 1) 1 1),
    .governor (.authorized 10) (.finalize 1)]

/-- The timelines agree for a proposal with a grace period of a week. -/
theorem deadline_agrees_iff_week : ∃ p config,
    DeadlineAgrees (.authorized 13) 1 p config (machine.run System.empty (queuedCalls 120960)) := by
  have hcalls : machine.Scheduled 0 10 (queuedCalls 120960) := by decide
  have hgrace : (machine.run System.empty (queuedCalls 120960)).governor.config.map
      Config.executionGracePeriod = some 120960 := by decide
  have hproposal : ((machine.run System.empty (queuedCalls 120960)).governor.proposal 1).map
      (fun p => (p.status, p.queueLedger)) = some (.queued, 12) := by decide
  obtain ⟨p, hp⟩ : ∃ p, (machine.run System.empty (queuedCalls 120960)).governor.proposal 1 =
      some p := ⟨_, rfl⟩
  rw [hp, Option.map_some, Option.some.injEq, Prod.mk.injEq] at hproposal
  obtain ⟨config, hconfig, hall⟩ := deadline_agrees_iff hcalls hp hproposal.1
  rw [hconfig] at hgrace
  refine ⟨p, config, (hall (.authorized 13)).2.mpr ?_⟩
  rw [hproposal.2, Option.some.inj hgrace]
  decide

/-- Under the longest grace period the phase is ready, and both operations trap. -/
theorem deadline_trapped_longest :
    let s := machine.run System.empty (queuedCalls maxU32)
    ((getProposalPhase (.authorized 13) 1).run s).1 = .ok .readyToExecute ∧
      ((execute (fun _ _ _ => none) (.authorized 13) (.account 3) 1).run s).1 =
        .error (.trap .arithmetic) ∧
      (markExpired (.authorized 13) 1).run s = (.error (.trap .arithmetic), s) := by
  have hgrace : (machine.run System.empty (queuedCalls maxU32)).governor.config.map
      Config.executionGracePeriod = some maxU32 := by decide
  have hproposal : ((machine.run System.empty (queuedCalls maxU32)).governor.proposal 1).map
      (fun p => (p.status, p.queueLedger, p.kind)) = some (.queued, 12, .executable) := by decide
  obtain ⟨config, hconfig, hmax⟩ := Option.map_eq_some_iff.mp hgrace
  obtain ⟨p, hp, hqueued⟩ := Option.map_eq_some_iff.mp hproposal
  rw [Prod.mk.injEq, Prod.mk.injEq] at hqueued
  obtain ⟨hstatus, hledger, hkind⟩ := hqueued
  have hphase : phaseOf p 13 config.executionGracePeriod = .readyToExecute := by
    rw [phaseOf_eq_readyToExecute_iff, hstatus, hledger, hkind, hmax]
    decide
  refine ⟨?_, rfl, ?_⟩
  · rw [← hphase]
    exact congrArg Prod.fst (getProposalPhase_returns hconfig hp)
  · apply markExpired_trapped hconfig hp hstatus
    rw [hledger, hmax]
    decide

end Quorum.Governor

import Quorum.Governor.Effects

/-!
# What an accepted call leaves behind

`Outcome` lists the accepted calls of the governor with the conditions under which they are
accepted, and gives for each the whole storage that it leaves and the call of the token that it
makes. `invoke_outcome` shows that there are no others; what later modules say about single
entries of the storage is read off from it.
-/

namespace Quorum.Governor

open Foundation Contract

variable {s s' : System} {env : Env} {now : ℕ} {u : Unit}

/-! ## Deposits -/

/-- An amount is paid by a call of the token; nothing happens where there is none. -/
def Pays (pay : I128 → Token.TokenM Unit) (amount : Option I128) (t t' : Token.Storage) : Prop :=
  match amount with
  | some amount => (pay amount).Returns t () t'
  | none => t' = t

/-- The deposit that a new proposal leaves with the governor, if one is set. -/
def Config.demanded (config : Config) : Option I128 :=
  if 0 < config.proposalDeposit.val then some config.proposalDeposit else none

/-- The payment of a proposer to the governor. -/
def payIn (env : Env) (config : Config) (proposer : Address) (amount : I128) : Token.TokenM Unit :=
  Token.transfer (tokenEnv env config) proposer env.contract amount

/-- The payment of the governor to a proposer. -/
def payBack (env : Env) (config : Config) (proposer : Address) (amount : I128) :
    Token.TokenM Unit :=
  Token.transfer (tokenEnv env config) env.contract proposer amount

/-- The burning of what the governor holds. -/
def payOff (env : Env) (config : Config) (amount : I128) : Token.TokenM Unit :=
  Token.burn (tokenEnv env config) env.contract amount

/-- The storage with the deposit of a proposal cleared and announced, if there was one. -/
def Storage.settle (g : Storage) (id : ℕ) (announce : I128 → Event) : Storage :=
  { g with
    deposit := Function.update g.deposit id none
    events := g.events ++ ((g.deposit id).map announce).toList }

/-- The counters after one proposal has moved from `previous` to `next`. -/
def GovernanceStats.moved (stats : GovernanceStats) (previous next : ProposalStatus) :
    GovernanceStats :=
  (stats.adjust previous fun counter => counter - 1).adjust next fun counter =>
    saturatingAddU64 counter 1

/-! ## The accepted calls -/

/-- The co-sponsors of a call that opens a proposal. -/
def Call.cosponsors : Call → List Address
  | .createCosponsoredProposal _ cosponsors _ _ _ => cosponsors
  | _ => []

/-- An accepted call, with the token and the governor as it leaves them. -/
inductive Outcome (env : Env) (s : System) : Call → System → Prop
  | initialized {admin guardian token : Address}
      {quorumBps votingPeriod timelockPeriod executionGracePeriod : ℕ} {proposalThreshold : I128}
      (hnone : s.governor.config = none) (hauth : env.auth admin = true)
      (hmin : minQuorumBps ≤ quorumBps) (hmax : quorumBps ≤ maxQuorumBps)
      (htimelock : minTimelockPeriod ≤ timelockPeriod) :
      Outcome env s
        (.initializeGovernor admin guardian token quorumBps votingPeriod timelockPeriod
          executionGracePeriod proposalThreshold)
        (s.mapGovernor fun g => { g with
          config := some
            { token := token, quorumBps := quorumBps, votingPeriod := votingPeriod
              timelockPeriod := timelockPeriod, proposalThreshold := proposalThreshold
              admin := admin, guardian := guardian, executionGracePeriod := executionGracePeriod
              paused := false, proposalDeposit := 0, proposerCooldown := 0 }
          proposalCount := some 0
          events := g.events ++ [.contractInitialized admin guardian token quorumBps votingPeriod
            timelockPeriod executionGracePeriod proposalThreshold] })
  | opened {c : Call} {s' : System} {config : Config} {proposer : Address} {conviction : Bool}
      {p : Proposal} (hopens : c.opens = some (proposer, conviction))
      (h : Opens env config proposer conviction p s s') (hqueue : p.queueLedger = 0)
      (hid : p.id ≤ maxU64)
      (hpaid : Pays (payIn env config proposer) config.demanded s.token s'.token)
      (hleft : s'.governor = { s.governor with
        proposal := Function.update s.governor.proposal p.id (some p)
        proposalCount := some p.id
        deposit :=
          if 0 < config.proposalDeposit.val then
            Function.update s.governor.deposit p.id (some config.proposalDeposit)
          else s.governor.deposit
        conviction :=
          if conviction = true then
            Function.update s.governor.conviction p.id (some ⟨0, 0, env.sequence⟩)
          else s.governor.conviction
        cosponsors :=
          if c.cosponsors ≠ [] then
            Function.update s.governor.cosponsors p.id (some c.cosponsors)
          else s.governor.cosponsors
        proposerIndex := Function.update s.governor.proposerIndex proposer
          (Function.update (s.governor.proposerIndex proposer)
            ((s.governor.proposerCount proposer).getD 0 + 1) (some p.id))
        proposerCount := Function.update s.governor.proposerCount proposer
          (some ((s.governor.proposerCount proposer).getD 0 + 1))
        lastProposal := Function.update s.governor.lastProposal proposer (some env.sequence)
        events := s.governor.events ++ [.proposalCreated p.id proposer p.title p.startLedger
          p.endLedger p.quorumRequired p.metadataUri] }) : Outcome env s c s'
  | voted {voter : Address} {id support : ℕ} {p counted : Proposal} {votingPower : I128}
      {s' : System} (h : Votes env voter id support p counted votingPower s s')
      (hleft : s'.governor = { s.governor with
        proposal := Function.update s.governor.proposal id (some counted)
        hasVoted := Function.update s.governor.hasVoted id
          (Function.update (s.governor.hasVoted id) voter (some support))
        conviction := s'.governor.conviction
        stats := some { s.governor.stats.getD .default with
          votesCast := saturatingAddU64 (s.governor.stats.getD .default).votesCast 1 }
        events := s.governor.events ++ [.voteCast id voter support votingPower] }) :
      Outcome env s (.vote voter id support) s'
  | delegated {c : Call} {delegator delegatee : Address} {config : Config} {t : Token.Storage}
      (hcall : c = .delegate delegator delegatee ∨
        c = .undelegate delegator ∧ delegatee = delegator)
      (hconfig : s.governor.config = some config) (hauth : env.auth delegator = true)
      (hdelegates : (Token.delegate (tokenEnv env config) delegator delegatee).Returns s.token () t) :
      Outcome env s c ⟨t, { s.governor with
        delegate := Function.update s.governor.delegate delegator
          (if Token.getDelegates t delegator = delegator then none
            else some (Token.getDelegates t delegator))
        events := s.governor.events ++
          if Token.getDelegates s.token delegator ≠ Token.getDelegates t delegator then
            [.delegated delegator (Token.getDelegates t delegator)]
          else [] }⟩
  | queued {id : ℕ} {config : Config} {p : Proposal} {total : I128} {t : Token.Storage}
      (hconfig : s.governor.config = some config) (hstored : s.governor.proposal id = some p)
      (hclosed : p.endLedger < env.sequence) (hactive : p.status = .active)
      (htotal : totalVotes p = some total) (hquorum : p.quorumRequired.val ≤ total.val)
      (hmajority : majorityFor p (s.governor.conviction id) = true)
      (hfits : env.sequence + p.timelockPeriod ≤ maxU32)
      (hpaid : Pays (payBack env config p.proposer) (s.governor.deposit p.id) s.token t) :
      Outcome env s (.finalize id) ⟨t, { s.governor.settle p.id (.depositRefunded p.id p.proposer) with
        proposal := Function.update s.governor.proposal id
          (some { p with queueLedger := env.sequence + p.timelockPeriod, status := .queued })
        stats := some ((s.governor.stats.getD .default).moved .active .queued)
        events := (s.governor.settle p.id (.depositRefunded p.id p.proposer)).events ++
          [.proposalFinalized id .queued p.forVotes p.againstVotes p.abstainVotes] ++
          [.proposalQueued id (env.sequence + p.timelockPeriod)] }⟩
  | failed {id : ℕ} {config : Config} {p : Proposal} {total : I128} {t : Token.Storage}
      (hconfig : s.governor.config = some config) (hstored : s.governor.proposal id = some p)
      (hclosed : p.endLedger < env.sequence) (hactive : p.status = .active)
      (htotal : totalVotes p = some total)
      (hlost : ¬ (p.quorumRequired.val ≤ total.val ∧
        majorityFor p (s.governor.conviction id) = true))
      (hpaid : Pays (payOff env config) (s.governor.deposit id) s.token t) :
      Outcome env s (.finalize id) ⟨t, { s.governor.settle id (.depositForfeited id) with
        proposal := Function.update s.governor.proposal id (some { p with status := .failed })
        stats := some ((s.governor.stats.getD .default).moved .active .failed)
        events := (s.governor.settle id (.depositForfeited id)).events ++
          [.proposalFinalized id .failed p.forVotes p.againstVotes p.abstainVotes] }⟩
  | begun {executor : Address} {id : ℕ} {config : Config} {p : Proposal}
      (hauth : env.auth executor = true)
      (hconfig : s.governor.config = some config) (hunpaused : config.paused = false)
      (hstored : s.governor.proposal id = some p) (hqueued : p.status = .queued)
      (hready : p.queueLedger ≤ env.sequence)
      (hdeadline : 0 < config.executionGracePeriod →
        env.sequence ≤ p.queueLedger + config.executionGracePeriod)
      (hallowed : ∀ action ∈ getProposalActions s.governor id,
        targetAllowed s.governor action.target = true) :
      Outcome env s (.beginExecution executor id) (s.mapGovernor fun g => { g with
        proposal := Function.update g.proposal id (some { p with status := .executed }) })
  | ended {executor : Address} {id : ℕ} :
      Outcome env s (.endExecution executor id) (s.mapGovernor fun g => { g with
        events := g.events ++ [.proposalExecuted id executor] })
  | expired {id : ℕ} {config : Config} {p : Proposal}
      (hconfig : s.governor.config = some config) (hstored : s.governor.proposal id = some p)
      (hqueued : p.status = .queued) (hgrace : 0 < config.executionGracePeriod)
      (hlate : p.queueLedger + config.executionGracePeriod < env.sequence) :
      Outcome env s (.markExpired id) (s.mapGovernor fun g => { g with
        proposal := Function.update g.proposal id (some { p with status := .expired })
        stats := some ((g.stats.getD .default).moved .queued .expired) })
  | cancelled {caller : Address} {id : ℕ} {config : Config} {p : Proposal} {t : Token.Storage}
      (hconfig : s.governor.config = some config) (hauth : env.auth caller = true)
      (hstored : s.governor.proposal id = some p)
      (hrole : caller = p.proposer ∨ caller = config.admin) (hactive : p.status = .active)
      (hopen : env.sequence ≤ p.endLedger)
      (hpaid : Pays (payOff env config) (s.governor.deposit id) s.token t) :
      Outcome env s (.cancel caller id) ⟨t, { s.governor.settle id (.depositForfeited id) with
        proposal := Function.update s.governor.proposal id (some { p with status := .cancelled })
        events := (s.governor.settle id (.depositForfeited id)).events ++
          [.proposalCancelled id caller] }⟩
  | vetoed {caller : Address} {id : ℕ} {reason : Text} {config : Config} {p : Proposal}
      (hconfig : s.governor.config = some config) (hauth : env.auth caller = true)
      (hrole : caller = config.guardian) (hstored : s.governor.proposal id = some p)
      (hqueued : p.status = .queued) (hearly : env.sequence < p.queueLedger) :
      Outcome env s (.veto caller id reason) (s.mapGovernor fun g => { g with
        proposal := Function.update g.proposal id (some { p with status := .vetoed })
        events := g.events ++ [.proposalVetoed id caller reason] })
  | actionSet {proposer target : Address} {id : ℕ} {function : Text} {args : List Val}
      {p : Proposal} (hauth : env.auth proposer = true)
      (hstored : s.governor.proposal id = some p) (hproposer : proposer = p.proposer)
      (hopen : env.sequence ≤ p.endLedger) (hactive : p.status = .active)
      (hallowed : targetAllowed s.governor target = true)
      (hroom : (getProposalActions s.governor id).length < maxProposalActions) :
      Outcome env s (.setProposalAction proposer id target function args)
        (s.mapGovernor fun g => { g with
          proposalAction := Function.update g.proposalAction id
            (some (getProposalActions g id ++ [⟨target, function, args⟩]))
          events := g.events ++ [.proposalActionSet id target function] })
  | targetSet {c : Call} {target : Address} {allowed : Bool} {config : Config}
      (hcall : c = .allowTarget target ∧ allowed = true ∨
        c = .disallowTarget target ∧ allowed = false)
      (hconfig : s.governor.config = some config) (hauth : env.auth config.admin = true) :
      Outcome env s c (s.mapGovernor fun g => { g with
        allowedTarget :=
          Function.update g.allowedTarget target (if allowed then some true else none)
        events := g.events ++ [.targetAllowlistUpdated config.admin target allowed] })
  | nominated {c : Call} {pending : Option Address} {config : Config}
      (hcall : (∃ newAdmin, c = .transferAdmin newAdmin ∧ pending = some newAdmin) ∨
        c = .cancelAdminTransfer ∧ pending = none)
      (hconfig : s.governor.config = some config) (hauth : env.auth config.admin = true) :
      Outcome env s c (s.mapGovernor fun g => { g with pendingAdmin := pending })
  | accepted {pending : Address} {config : Config}
      (hpending : s.governor.pendingAdmin = some pending) (hauth : env.auth pending = true)
      (hconfig : s.governor.config = some config) :
      Outcome env s .acceptAdmin (s.mapGovernor fun g => { g with
        config := some { config with admin := pending }
        pendingAdmin := none })
  | depositSet {amount : I128} {config : Config} (hconfig : s.governor.config = some config)
      (hauth : env.auth config.admin = true) (hamount : 0 ≤ amount.val) :
      Outcome env s (.setProposalDeposit amount) (s.mapGovernor fun g => { g with
        config := some { config with proposalDeposit := amount }
        events := g.events ++ [.proposalDepositUpdated amount] })
  | cooldownSet {ledgers : ℕ} {config : Config} (hconfig : s.governor.config = some config)
      (hauth : env.auth config.admin = true) :
      Outcome env s (.setProposerCooldown ledgers) (s.mapGovernor fun g => { g with
        config := some { config with proposerCooldown := ledgers }
        events := g.events ++ [.proposerCooldownUpdated ledgers] })
  | guardianSet {newGuardian : Address} {config : Config}
      (hconfig : s.governor.config = some config) (hauth : env.auth config.admin = true) :
      Outcome env s (.setGuardian newGuardian) (s.mapGovernor fun g => { g with
        config := some { config with guardian := newGuardian }
        events := g.events ++ [.guardianChanged config.guardian newGuardian] })
  | paused {caller : Address} {config : Config} (hauth : env.auth caller = true)
      (hconfig : s.governor.config = some config)
      (hrole : caller = config.admin ∨ caller = config.guardian) :
      Outcome env s (.pause caller) (s.mapGovernor fun g => { g with
        config := some { config with paused := true }
        events := g.events ++ [.contractPaused caller] })
  | unpaused {config : Config} (hconfig : s.governor.config = some config)
      (hauth : env.auth config.admin = true) :
      Outcome env s .unpause (s.mapGovernor fun g => { g with
        config := some { config with paused := false }
        events := g.events ++ [.contractUnpaused config.admin] })
  | extended {id : ℕ} {p : Proposal} (hstored : s.governor.proposal id = some p) :
      Outcome env s (.extendProposalTtl id) s

/-! ## Deposits paid and released -/

/-- `take_deposit` returns what was held and leaves nothing held. -/
theorem takeDeposit_returns {id : ℕ} {held : Option I128}
    (h : (takeDeposit id).Returns s held s') :
    held = s.governor.deposit id ∧ s' = s.mapGovernor fun g =>
      { g with deposit := Function.update g.deposit id none } := by
  rw [takeDeposit, returns_read_bind_iff] at h
  cases hdeposit : s.governor.deposit id with
  | none =>
    rw [hdeposit] at h
    obtain ⟨rfl, rfl⟩ := returns_pure_iff.mp h
    refine ⟨rfl, ?_⟩
    have hsame : Function.update s.governor.deposit id none = s.governor.deposit := by
      rw [← hdeposit, Function.update_eq_self]
    simp only [System.mapGovernor, hsame]
  | some amount =>
    rw [hdeposit] at h
    obtain ⟨rfl, rfl⟩ := returns_pure_iff.mp h
    exact ⟨rfl, rfl⟩

/-- Taking a deposit, paying it and announcing the payment settles it. -/
theorem settle_returns {id : ℕ} {pay : I128 → Token.TokenM Unit} {announce : I128 → Event}
    (h : (takeDeposit id >>= fun held =>
      match held with
      | some amount => callToken (pay amount) >>= fun _ => publish (announce amount)
      | none => pure ()).Returns s u s') :
    ∃ t, Pays pay (s.governor.deposit id) s.token t ∧
      s' = ⟨t, s.governor.settle id announce⟩ := by
  obtain ⟨held, s₁, htake, h⟩ := returns_bind_iff.mp h
  obtain ⟨rfl, rfl⟩ := takeDeposit_returns htake
  unfold Storage.settle
  cases hdeposit : s.governor.deposit id with
  | none =>
    rw [hdeposit] at h
    obtain ⟨-, rfl⟩ := returns_pure_iff.mp h
    refine ⟨s.token, rfl, ?_⟩
    rw [Option.map_none, Option.toList_none, List.append_nil]
    rfl
  | some amount =>
    rw [hdeposit] at h
    obtain ⟨_, t, hpay, h⟩ := returns_callToken_bind_iff.mp h
    obtain rfl := returns_publish_iff.mp h
    exact ⟨t, hpay, rfl⟩

/-- An accepted refund pays what was held back to the proposer and publishes it. -/
theorem refundDeposit_returns {config : Config} {p : Proposal}
    (h : (refundDeposit env config p).Returns s u s') :
    ∃ t, Pays (payBack env config p.proposer) (s.governor.deposit p.id) s.token t ∧
      s' = ⟨t, s.governor.settle p.id (.depositRefunded p.id p.proposer)⟩ := settle_returns h

/-- An accepted forfeit burns what was held and publishes it. -/
theorem forfeitDeposit_returns {config : Config} {id : ℕ}
    (h : (forfeitDeposit env config id).Returns s u s') :
    ∃ t, Pays (payOff env config) (s.governor.deposit id) s.token t ∧
      s' = ⟨t, s.governor.settle id (.depositForfeited id)⟩ := settle_returns h

/-- An accepted lock takes what the configuration demands and holds it for the proposal. -/
theorem lockDeposit_returns {config : Config} {proposer : Address} {id : ℕ}
    (h : (lockDeposit env config proposer id).Returns s u s') :
    ∃ t, Pays (payIn env config proposer) config.demanded s.token t ∧
      s' = ⟨t, { s.governor with
        deposit :=
          if 0 < config.proposalDeposit.val then
            Function.update s.governor.deposit id (some config.proposalDeposit)
          else s.governor.deposit }⟩ := by
  unfold lockDeposit at h
  unfold Config.demanded
  split at h <;> rename_i hdeposit
  · obtain ⟨_, t, htransfer, h⟩ := returns_callToken_bind_iff.mp h
    obtain rfl := returns_store_iff.mp h
    rw [if_pos hdeposit, if_pos hdeposit]
    exact ⟨t, htransfer, rfl⟩
  · obtain ⟨-, rfl⟩ := returns_pure_iff.mp h
    rw [if_neg hdeposit, if_neg hdeposit]
    exact ⟨s.token, rfl, rfl⟩

/-! ## Opening and voting -/

/-- Reading the balances of the co-sponsors writes nothing. -/
theorem combinedBalance_returns {cosponsors : List Address} {combined sum : I128}
    (h : (combinedBalance cosponsors combined).Returns s sum s') : s' = s := by
  induction cosponsors generalizing combined with
  | nil => exact (returns_pure_iff.mp h).2.symm
  | cons sponsor rest ih =>
    rw [combinedBalance, returns_queryToken_bind_iff, returns_okOr_bind_iff] at h
    obtain ⟨next, -, h⟩ := h
    exact ih h

/-- The cosponsors' authorizations change nothing. -/
theorem requireAuths_returns {cosponsors : List Address}
    (h : (requireAuths env cosponsors).Returns s u s') : s' = s := by
  induction cosponsors with
  | nil => exact (returns_pure_iff.mp h).2.symm
  | cons sponsor rest ih =>
    rw [requireAuths, requireAuth, returns_demand_bind_iff] at h
    exact ih h.2

/-- The checks on the cosponsors change nothing. -/
theorem validateCosponsors_returns {cosponsors : List Address} {proposer : Address}
    (h : (validateCosponsors cosponsors proposer).Returns s u s') : s' = s := by
  rw [validateCosponsors, returns_rejectIf_bind_iff, returns_rejectIf_iff] at h
  exact h.2.2.symm

/-- The entries written for a new proposal besides the proposal itself. -/
theorem indexProposal_returns {proposer : Address} {cosponsors : List Address}
    {conviction : Bool} {id : ℕ}
    (h : (indexProposal env proposer cosponsors conviction id).Returns s u s') :
    s' = s.mapGovernor fun g => { g with
      conviction :=
        if conviction = true then Function.update g.conviction id (some ⟨0, 0, env.sequence⟩)
        else g.conviction
      cosponsors :=
        if cosponsors ≠ [] then Function.update g.cosponsors id (some cosponsors)
        else g.cosponsors
      proposerIndex := Function.update g.proposerIndex proposer
        (Function.update (g.proposerIndex proposer) ((g.proposerCount proposer).getD 0 + 1)
          (some id))
      proposerCount := Function.update g.proposerCount proposer
        (some ((g.proposerCount proposer).getD 0 + 1))
      lastProposal := Function.update g.lastProposal proposer (some env.sequence) } := by
  unfold indexProposal at h
  cases conviction <;> cases cosponsors <;>
    simp only [if_true, if_false, Bool.false_eq_true, reduceCtorEq, ne_eq, not_true_eq_false,
      not_false_eq_true, returns_store_bind_iff, returns_read_bind_iff, returns_unwrap_bind_iff,
      returns_store_iff, checkedAddU64_eq_some] at h
  all_goals
    obtain ⟨newCount, ⟨rfl, -⟩, rfl⟩ := h
    rfl

/-- The checks and writes of a constructor. -/
theorem openProposal_returns {c : Call} {proposer : Address} {cosponsors : List Address}
    {title description metadataUri : Text} {conviction : Bool} {id : ℕ}
    (hopens : c.opens = some (proposer, conviction)) (hcosponsors : c.cosponsors = cosponsors)
    (h : (openProposal env proposer cosponsors title description metadataUri conviction).Returns
      s id s') : Outcome env s c s' := by
  simp only [openProposal, returns_requireConfig_bind_iff, requireAuth,
    returns_demand_bind_iff] at h
  obtain ⟨config, hconfig, hauth, h⟩ := h
  obtain ⟨_, s₁, hvalid, h⟩ := returns_bind_iff.mp h
  rw [validateCosponsors_returns hvalid] at h
  obtain ⟨_, s₂, hauths, h⟩ := returns_bind_iff.mp h
  rw [requireAuths_returns hauths] at h
  simp only [returns_rejectIf_bind_iff, returns_read_bind_iff, returns_unwrap_bind_iff,
    returns_queryToken_bind_iff, checkedAddU64_eq_some] at h
  obtain ⟨hunpaused, -, -, -, -, newId, ⟨rfl, hid⟩, h⟩ := h
  obtain ⟨combined, s₃, hcombined, h⟩ := returns_bind_iff.mp h
  rw [combinedBalance_returns hcombined] at h
  simp only [returns_rejectIf_bind_iff, returns_queryToken_bind_iff, returns_okOr_bind_iff,
    checkedAddU32_eq_some, returns_storeProposal_bind_iff, returns_store_bind_iff] at h
  obtain ⟨-, -, quorum, hquorum, _, ⟨rfl, -⟩, _, ⟨rfl, -⟩, h⟩ := h
  obtain ⟨_, s₄, hlock, h⟩ := returns_bind_iff.mp h
  obtain ⟨t, hpaid, rfl⟩ := lockDeposit_returns hlock
  obtain ⟨_, s₅, hindex, h⟩ := returns_bind_iff.mp h
  obtain rfl := indexProposal_returns hindex
  rw [returns_publish_bind_iff, returns_pure_iff] at h
  obtain ⟨-, rfl⟩ := h
  let p : Proposal :=
    { id := s.governor.proposalCount.getD 0 + 1, proposer := proposer, title := title
      description := description, forVotes := 0, againstVotes := 0, abstainVotes := 0
      snapshotLedger := env.sequence, startLedger := env.sequence + 1
      endLedger := env.sequence + 1 + config.votingPeriod, queueLedger := 0
      quorumRequired := quorum, timelockPeriod := config.timelockPeriod, status := .active
      metadataUri := metadataUri, kind := .executable }
  subst hcosponsors
  refine .opened (p := p) hopens ?_ rfl hid hpaid rfl
  exact
    { configured := hconfig
      unpaused := by simpa using hunpaused
      authorized := hauth
      id := rfl
      proposer := rfl
      tallies := fun support => by unfold Proposal.tally; split <;> rfl
      snapshotLedger := rfl
      startLedger := rfl
      endLedger := rfl
      quorumRequired := hquorum
      timelockPeriod := rfl
      status := rfl
      kind := rfl
      proposalCount := rfl
      proposal := rfl
      hasVoted := rfl
      conviction := rfl }

/-- Reading voting power writes nothing. -/
theorem getPastVotes_returns_eq {account : Address} {ledger : ℕ} {votes : I128}
    {t t' : Token.Storage} (h : (Token.getPastVotes account ledger).Returns t votes t') : t' = t := by
  rw [Token.getPastVotes, returns_read_bind_iff] at h
  obtain ⟨boost, t₁, hboost, h⟩ := returns_bind_iff.mp h
  obtain ⟨-, rfl⟩ := returns_pure_iff.mp h
  rw [Token.lockBoost, returns_read_bind_iff] at hboost
  cases hlock : Token.lockBefore (Token.locks t account) ledger with
  | none =>
    rw [hlock] at hboost
    exact (returns_pure_iff.mp hboost).2.symm
  | some lock =>
    rw [hlock] at hboost
    simp only at hboost
    split at hboost
    · exact (returns_pure_iff.mp hboost).2.symm
    · simp only [returns_unwrap_bind_iff, returns_unwrap_iff] at hboost
      obtain ⟨_, -, -, heq⟩ := hboost
      exact heq.symm

/-- The conviction tally is brought forward and the choice added, where there is one. -/
theorem voteConviction_returns {id support : ℕ} {votingPower : I128}
    (h : (voteConviction env id support votingPower).Returns s u s') :
    ∃ tallies, s' = s.mapGovernor (fun g => { g with conviction := tallies }) ∧
      ConvictionVoted env.sequence id support votingPower s.governor.conviction tallies := by
  rw [voteConviction, returns_read_bind_iff] at h
  unfold ConvictionVoted
  cases hstored : s.governor.conviction id with
  | none =>
    rw [hstored] at h
    obtain ⟨-, rfl⟩ := returns_pure_iff.mp h
    exact ⟨_, rfl, rfl⟩
  | some stored =>
    rw [hstored] at h
    simp only [returns_okOr_bind_iff, returns_store_iff] at h
    obtain ⟨conviction, hcount, rfl⟩ := h
    exact ⟨_, rfl, conviction, hcount, rfl⟩

/-- An accepted `vote` has the outcome told of it. -/
theorem vote_outcome {voter : Address} {id support : ℕ}
    (h : (vote env voter id support).Returns s u s') :
    Outcome env s (.vote voter id support) s' := by
  simp only [vote, returns_requireConfig_bind_iff, requireAuth, returns_demand_bind_iff,
    returns_rejectIf_bind_iff, returns_requireProposal_bind_iff, returns_read_bind_iff] at h
  obtain ⟨config, -, hauth, hchoice, p, hstored, -, hopen, hactive, hstarted, h⟩ := h
  obtain ⟨votingPower, t, hweight, h⟩ := returns_callToken_bind_iff.mp h
  obtain rfl := getPastVotes_returns_eq hweight
  simp only [returns_rejectIf_bind_iff, returns_okOr_bind_iff] at h
  obtain ⟨hpositive, q, huncount, counted, hcount, h⟩ := h
  obtain ⟨_, s₁, hconviction, h⟩ := returns_bind_iff.mp h
  obtain ⟨tallies, rfl, htallies⟩ := voteConviction_returns hconviction
  simp only [returns_storeProposal_bind_iff, returns_store_bind_iff, returns_updateStats_bind_iff,
    returns_publish_iff] at h
  subst h
  refine .voted (p := p) ?_ rfl
  exact
    { authorized := hauth
      choice := by omega
      stored := hstored
      active := by simpa using hactive
      started := by omega
      notEnded := by omega
      weight := hweight
      positive := by omega
      recount := ⟨q, huncount, hcount⟩
      token := rfl
      config := rfl
      proposalCount := rfl
      proposal := rfl
      hasVoted := rfl
      conviction := htallies }

/-- An accepted `vote` counts the voter's ballot on a stored proposal. -/
theorem vote_returns {voter : Address} {id support : ℕ}
    (h : (vote env voter id support).Returns s u s') :
    ∃ p counted votingPower, Votes env voter id support p counted votingPower s s' := by
  cases vote_outcome h with
  | opened hopens => contradiction
  | voted hvotes => exact ⟨_, _, _, hvotes⟩
  | delegated hcall => simp at hcall
  | targetSet hcall => simp at hcall
  | nominated hcall => simp at hcall

/-- The facade delegates in the token and mirrors the result. -/
theorem delegate_returns {c : Call} {delegator delegatee : Address}
    (hcall : c = .delegate delegator delegatee ∨ c = .undelegate delegator ∧ delegatee = delegator)
    (h : (delegate env delegator delegatee).Returns s u s') : Outcome env s c s' := by
  simp only [delegate, returns_requireConfig_bind_iff, requireAuth, returns_demand_bind_iff,
    returns_queryToken_bind_iff] at h
  obtain ⟨config, hconfig, hauth, h⟩ := h
  obtain ⟨result, s₁, htry, h⟩ := returns_bind_iff.mp h
  rcases returns_tryCall_iff.mp htry with ⟨_, t, hret, rfl, rfl⟩ | ⟨failure, _, -, rfl, rfl⟩
  · simp only [returns_queryToken_bind_iff, returns_store_bind_iff] at h
    have hs' : s' = ⟨t, { s.governor with
        delegate := Function.update s.governor.delegate delegator
          (if Token.getDelegates t delegator = delegator then none
            else some (Token.getDelegates t delegator))
        events := s.governor.events ++
          if Token.getDelegates s.token delegator ≠ Token.getDelegates t delegator then
            [.delegated delegator (Token.getDelegates t delegator)]
          else [] }⟩ := by
      split at h <;> rename_i hmoved
      · rw [if_pos hmoved]
        exact (returns_publish_iff.mp h).symm
      · rw [if_neg hmoved, List.append_nil]
        exact (returns_pure_iff.mp h).2.symm
    subst hs'
    exact .delegated hcall hconfig hauth hret
  · cases failure with
    | error e =>
      simp only at h
      split at h <;> exact absurd h (by simp [Returns])
    | trap t => exact absurd h (by simp [Returns])

/-! ## Moving a proposal to its next status -/

/-- A decision is stored as the status it returns. -/
theorem finalize_returns {id : ℕ} {status : ProposalStatus}
    (h : (finalize env id).Returns s status s') :
    Outcome env s (.finalize id) s' ∧
      ∃ p', s'.governor.proposal id = some p' ∧ p'.status = status := by
  simp only [finalize, returns_requireConfig_bind_iff, returns_requireProposal_bind_iff,
    returns_rejectIf_bind_iff, returns_okOr_bind_iff, returns_read_bind_iff] at h
  obtain ⟨config, hconfig, p, hstored, hclosed, hactive, total, htotal, h⟩ := h
  have hclosed : p.endLedger < env.sequence := by omega
  have hactive : p.status = .active := by simpa using hactive
  split at h <;> rename_i hdecision
  · simp only [returns_okOr_bind_iff, checkedAddU32_eq_some, returns_storeProposal_bind_iff,
      recordStatusChange, returns_updateStats_bind_iff] at h
    obtain ⟨_, ⟨rfl, hfits⟩, h⟩ := h
    obtain ⟨_, s₁, hrefund, h⟩ := returns_bind_iff.mp h
    obtain ⟨t, hpaid, rfl⟩ := refundDeposit_returns hrefund
    simp only [returns_publish_bind_iff, returns_pure_iff] at h
    obtain ⟨rfl, rfl⟩ := h
    exact ⟨.queued hconfig hstored hclosed hactive htotal hdecision.1 hdecision.2 hfits hpaid, _,
      Function.update_self .., rfl⟩
  · simp only [returns_storeProposal_bind_iff, recordStatusChange,
      returns_updateStats_bind_iff] at h
    obtain ⟨_, s₁, hforfeit, h⟩ := returns_bind_iff.mp h
    obtain ⟨t, hpaid, rfl⟩ := forfeitDeposit_returns hforfeit
    simp only [returns_publish_bind_iff, returns_pure_iff] at h
    obtain ⟨rfl, rfl⟩ := h
    exact ⟨.failed hconfig hstored hclosed hactive htotal hdecision hpaid, _,
      Function.update_self .., rfl⟩

/-- The actions to dispatch are the attached ones. -/
theorem beginExecution_returns {executor : Address} {id : ℕ} {actions : List ProposalAction}
    (h : (beginExecution env executor id).Returns s actions s') :
    Outcome env s (.beginExecution executor id) s' ∧
      actions = getProposalActions s.governor id := by
  simp only [beginExecution, requireAuth, returns_demand_bind_iff, returns_getConfig_bind_iff,
    returns_rejectIf_bind_iff, returns_requireProposal_bind_iff, returns_unwrap_bind_iff,
    checkedAddU32_eq_some, returns_read_bind_iff, returns_storeProposal_bind_iff,
    returns_pure_iff] at h
  obtain ⟨hauth, config, hconfig, hunpaused, p, hstored, hqueued, -, hready, deadline, ⟨rfl, -⟩,
    hdeadline, hallowed, rfl, rfl⟩ := h
  exact ⟨.begun hauth hconfig (by simpa using hunpaused) hstored (by simpa using hqueued)
    (by omega) (fun hgrace => by omega) (by simpa using hallowed), rfl⟩

/-- An accepted `mark_expired` has the outcome told of it. -/
theorem markExpired_returns {id : ℕ} (h : (markExpired env id).Returns s u s') :
    Outcome env s (.markExpired id) s' := by
  simp only [markExpired, returns_requireProposal_bind_iff, returns_rejectIf_bind_iff,
    returns_getConfig_bind_iff, returns_unwrap_bind_iff, checkedAddU32_eq_some,
    returns_storeProposal_bind_iff] at h
  obtain ⟨p, hstored, hqueued, config, hconfig, deadline, ⟨rfl, -⟩, hlate, h⟩ := h
  rw [not_not] at hlate
  obtain rfl := returns_write_iff.mp h
  exact .expired hconfig hstored (by simpa using hqueued) hlate.1 hlate.2

/-- An accepted `cancel` has the outcome told of it. -/
theorem cancel_returns {caller : Address} {id : ℕ} (h : (cancel env caller id).Returns s u s') :
    Outcome env s (.cancel caller id) s' := by
  simp only [cancel, returns_requireConfig_bind_iff, requireAuth, returns_demand_bind_iff,
    returns_requireProposal_bind_iff, returns_rejectIf_bind_iff,
    returns_storeProposal_bind_iff] at h
  obtain ⟨config, hconfig, hauth, p, hstored, hrole, hopen, h⟩ := h
  obtain ⟨_, s₁, hforfeit, h⟩ := returns_bind_iff.mp h
  obtain ⟨t, hpaid, rfl⟩ := forfeitDeposit_returns hforfeit
  obtain rfl := returns_publish_iff.mp h
  have hrole : caller = p.proposer ∨ caller = config.admin := by tauto
  have hactive : p.status = .active := by tauto
  exact .cancelled hconfig hauth hstored hrole hactive (by omega) hpaid

/-- An accepted `veto` has the outcome told of it. -/
theorem veto_returns {caller : Address} {id : ℕ} {reason : Text}
    (h : (veto env caller id reason).Returns s u s') :
    Outcome env s (.veto caller id reason) s' := by
  simp only [veto, returns_requireConfig_bind_iff, requireAuth, returns_demand_bind_iff,
    returns_rejectIf_bind_iff, returns_requireProposal_bind_iff, returns_storeProposal_bind_iff,
    returns_publish_iff] at h
  obtain ⟨config, hconfig, hauth, hrole, -, -, p, hstored, hqueued, hearly, rfl⟩ := h
  exact .vetoed hconfig hauth (by simpa using hrole) hstored (by simpa using hqueued) (by omega)

/-! ## Actions and administration -/

/-- An accepted `initialize` has the outcome told of it. -/
theorem initializeGovernor_returns {admin guardian token : Address}
    {quorumBps votingPeriod timelockPeriod executionGracePeriod : ℕ} {proposalThreshold : I128}
    (h : (initializeGovernor env admin guardian token quorumBps votingPeriod timelockPeriod
      executionGracePeriod proposalThreshold).Returns s u s') :
    Outcome env s (.initializeGovernor admin guardian token quorumBps votingPeriod timelockPeriod
      executionGracePeriod proposalThreshold) s' := by
  simp only [initializeGovernor, requireAuth, returns_read_bind_iff, returns_rejectIf_bind_iff,
    returns_demand_bind_iff, returns_storeConfig_bind_iff, returns_store_bind_iff,
    returns_publish_iff] at h
  obtain ⟨hnone, hmax, hmin, htimelock, hauth, rfl⟩ := h
  exact .initialized (by simpa using hnone) hauth (Nat.not_lt.mp hmin) (Nat.not_lt.mp hmax)
    (Nat.not_lt.mp htimelock)

/-- An accepted `set_proposal_action` has the outcome told of it. -/
theorem setProposalAction_returns {proposer target : Address} {id : ℕ} {function : Text}
    {args : List Val}
    (h : (setProposalAction env proposer id target function args).Returns s u s') :
    Outcome env s (.setProposalAction proposer id target function args) s' := by
  simp only [setProposalAction, requireAuth, returns_demand_bind_iff,
    returns_requireProposal_bind_iff, returns_rejectIf_bind_iff, returns_read_bind_iff,
    returns_store_bind_iff, returns_publish_iff] at h
  obtain ⟨hauth, p, hstored, hproposer, hopen, hactive, hallowed, hroom, rfl⟩ := h
  exact .actionSet hauth hstored (by simpa using hproposer) (by omega) (by simpa using hactive)
    (by simpa using hallowed) (by omega)

/-- An accepted change of the allowlist has the outcome told of its call. -/
theorem setTargetAllowed_returns {c : Call} {target : Address} {allowed : Bool}
    (hcall : c = .allowTarget target ∧ allowed = true ∨
      c = .disallowTarget target ∧ allowed = false)
    (h : (setTargetAllowed env target allowed).Returns s u s') : Outcome env s c s' := by
  simp only [setTargetAllowed, returns_requireConfig_bind_iff, requireAuth,
    returns_demand_bind_iff, returns_store_bind_iff, returns_publish_iff] at h
  obtain ⟨config, hconfig, hauth, rfl⟩ := h
  exact .targetSet hcall hconfig hauth

/-- An accepted `transfer_admin` has the outcome told of it. -/
theorem transferAdmin_returns {newAdmin : Address}
    (h : (transferAdmin env newAdmin).Returns s u s') :
    Outcome env s (.transferAdmin newAdmin) s' := by
  simp only [transferAdmin, returns_getConfig_bind_iff, requireAuth, returns_demand_bind_iff,
    returns_store_iff] at h
  obtain ⟨config, hconfig, hauth, rfl⟩ := h
  exact .nominated (.inl ⟨newAdmin, rfl, rfl⟩) hconfig hauth

/-- An accepted `cancel_admin_transfer` has the outcome told of it. -/
theorem cancelAdminTransfer_returns (h : (cancelAdminTransfer env).Returns s u s') :
    Outcome env s .cancelAdminTransfer s' := by
  simp only [cancelAdminTransfer, returns_getConfig_bind_iff, requireAuth,
    returns_demand_bind_iff, returns_store_iff] at h
  obtain ⟨config, hconfig, hauth, rfl⟩ := h
  exact .nominated (.inr ⟨rfl, rfl⟩) hconfig hauth

/-- An accepted `accept_admin` has the outcome told of it. -/
theorem acceptAdmin_returns (h : (acceptAdmin env).Returns s u s') :
    Outcome env s .acceptAdmin s' := by
  simp only [acceptAdmin, returns_read_bind_iff, returns_okOr_bind_iff, requireAuth,
    returns_demand_bind_iff, returns_getConfig_bind_iff, returns_storeConfig_bind_iff,
    returns_store_iff] at h
  obtain ⟨pending, hpending, hauth, config, hconfig, rfl⟩ := h
  exact .accepted hpending hauth hconfig

/-- An accepted `set_proposal_deposit` has the outcome told of it. -/
theorem setProposalDeposit_returns {amount : I128}
    (h : (setProposalDeposit env amount).Returns s u s') :
    Outcome env s (.setProposalDeposit amount) s' := by
  simp only [setProposalDeposit, returns_requireConfig_bind_iff, requireAuth,
    returns_demand_bind_iff, returns_rejectIf_bind_iff, returns_storeConfig_bind_iff,
    returns_publish_iff] at h
  obtain ⟨config, hconfig, hauth, hamount, rfl⟩ := h
  exact .depositSet hconfig hauth (by omega)

/-- An accepted `set_proposer_cooldown` has the outcome told of it. -/
theorem setProposerCooldown_returns {ledgers : ℕ}
    (h : (setProposerCooldown env ledgers).Returns s u s') :
    Outcome env s (.setProposerCooldown ledgers) s' := by
  simp only [setProposerCooldown, returns_requireConfig_bind_iff, requireAuth,
    returns_demand_bind_iff, returns_storeConfig_bind_iff, returns_publish_iff] at h
  obtain ⟨config, hconfig, hauth, rfl⟩ := h
  exact .cooldownSet hconfig hauth

/-- An accepted `set_guardian` has the outcome told of it. -/
theorem setGuardian_returns {newGuardian : Address}
    (h : (setGuardian env newGuardian).Returns s u s') :
    Outcome env s (.setGuardian newGuardian) s' := by
  simp only [setGuardian, returns_requireConfig_bind_iff, requireAuth,
    returns_demand_bind_iff, returns_storeConfig_bind_iff, returns_publish_iff] at h
  obtain ⟨config, hconfig, hauth, rfl⟩ := h
  exact .guardianSet hconfig hauth

/-- An accepted `pause` has the outcome told of it. -/
theorem pause_returns {caller : Address} (h : (pause env caller).Returns s u s') :
    Outcome env s (.pause caller) s' := by
  simp only [pause, requireAuth, returns_demand_bind_iff, returns_getConfig_bind_iff,
    returns_rejectIf_bind_iff, returns_storeConfig_bind_iff, returns_publish_iff] at h
  obtain ⟨hauth, config, hconfig, hrole, rfl⟩ := h
  exact .paused hauth hconfig (by tauto)

/-- An accepted `unpause` has the outcome told of it. -/
theorem unpause_returns (h : (unpause env).Returns s u s') : Outcome env s .unpause s' := by
  simp only [unpause, returns_getConfig_bind_iff, requireAuth, returns_demand_bind_iff,
    returns_storeConfig_bind_iff, returns_publish_iff] at h
  obtain ⟨config, hconfig, hauth, rfl⟩ := h
  exact .unpaused hconfig hauth

/-- An accepted `extend_proposal_ttl` has the outcome told of it. -/
theorem extendProposalTtl_returns {id : ℕ} (h : (extendProposalTtl id).Returns s u s') :
    Outcome env s (.extendProposalTtl id) s' := by
  rw [extendProposalTtl, returns_requireProposal_bind_iff] at h
  obtain ⟨p, hstored, h⟩ := h
  rw [← (returns_pure_iff.mp h).2]
  exact .extended hstored

/-! ## Every call -/

/-- An operation whose value is dropped returns when the operation does. -/
theorem discard_returns {A : Type} {m : GovernorM A} (h : (discard m).Returns s u s') :
    ∃ a, m.Returns s a s' := by
  rw [discard, returns_bind_iff] at h
  obtain ⟨a, s₁, hm, h⟩ := h
  rw [← (returns_pure_iff.mp h).2]
  exact ⟨a, hm⟩

/-- Every accepted call of a governor is one of the listed ones. -/
theorem invoke_outcome {c : Call} (h : (invoke env c).Returns s u s') : Outcome env s c s' := by
  cases c with
  | initializeGovernor => exact initializeGovernor_returns h
  | createProposal =>
    obtain ⟨id, h⟩ := discard_returns h
    exact openProposal_returns rfl rfl h
  | createCosponsoredProposal =>
    obtain ⟨id, h⟩ := discard_returns h
    exact openProposal_returns rfl rfl h
  | createConvictionProposal =>
    obtain ⟨id, h⟩ := discard_returns h
    exact openProposal_returns rfl rfl h
  | vote => exact vote_outcome h
  | delegate => exact delegate_returns (.inl rfl) h
  | undelegate => exact delegate_returns (.inr ⟨rfl, rfl⟩) h
  | finalize =>
    obtain ⟨status, h⟩ := discard_returns h
    exact (finalize_returns h).1
  | beginExecution =>
    obtain ⟨actions, h⟩ := discard_returns h
    exact (beginExecution_returns h).1
  | endExecution => exact returns_publish_iff.mp h ▸ .ended
  | markExpired => exact markExpired_returns h
  | cancel => exact cancel_returns h
  | veto => exact veto_returns h
  | setProposalAction => exact setProposalAction_returns h
  | allowTarget => exact setTargetAllowed_returns (.inl ⟨rfl, rfl⟩) h
  | disallowTarget => exact setTargetAllowed_returns (.inr ⟨rfl, rfl⟩) h
  | transferAdmin => exact transferAdmin_returns h
  | acceptAdmin => exact acceptAdmin_returns h
  | cancelAdminTransfer => exact cancelAdminTransfer_returns h
  | setProposalDeposit => exact setProposalDeposit_returns h
  | setProposerCooldown => exact setProposerCooldown_returns h
  | setGuardian => exact setGuardian_returns h
  | pause => exact pause_returns h
  | unpause => exact unpause_returns h
  | extendProposalTtl => exact extendProposalTtl_returns h

end Quorum.Governor

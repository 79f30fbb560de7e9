import Quorum.Governor.Storage

/-!
# The governor's operations

The contract functions of the governor, with its calls into the token. A failed token call traps
the governor, except in `delegate`, which looks at the token's error code.

`execute` is modelled with the contracts it dispatches to as a parameter. Such a contract may
call back into the governor and the token, so the calls that a run consists of contain the two
ends of an execution, `beginExecution` up to the dispatch and `endExecution` after it, and
whatever the dispatched contracts call stands between them.
-/

namespace Quorum.Governor

open Foundation Contract

/-- A function of the governance contract. -/
abbrev GovernorM := Contract GovernanceError System

/-- Replace the governor's storage by a function of it. -/
def store (f : Storage → Storage) : GovernorM Unit := write (System.mapGovernor f)

/-- `env.events().publish`. -/
def publish (e : Event) : GovernorM Unit :=
  store fun g => { g with events := g.events ++ [e] }

/-- The environment of a call from the governor into its token. The governor authorizes what it
calls itself; everyone else needs an entry for this call below the one for the governor's. The
token makes no further calls. -/
def tokenEnv (env : Env) (config : Config) : Env where
  sequence := env.sequence
  contract := config.token
  auth := fun a => (env.auth a && env.nested a) || decide (a = env.contract)
  nested := fun _ => false

/-- A reader of the token. -/
def queryToken {A : Type} (reader : Token.Storage → A) : GovernorM A := do
  let s ← read
  pure (reader s.token)

/-- A call of the token whose failure traps the governor. -/
def callToken {A : Type} (m : Token.TokenM A) : GovernorM A :=
  call System.token (fun token s => { s with token := token }) m

/-- A call of the token whose failure is returned. -/
def tryToken {A : Type} (m : Token.TokenM A) : GovernorM (Except (Failure Token.TokenError) A) :=
  tryCall System.token (fun token s => { s with token := token }) m

/-- The configuration, or `NotInitialized`. -/
def requireConfig : GovernorM Config := do
  let s ← read
  okOr s.governor.config .notInitialized

/-- `get_config`: the configuration, unwrapped. -/
def getConfig : GovernorM Config := do
  let s ← read
  unwrap s.governor.config .missing

/-- The stored proposal, or `ProposalNotFound`. -/
def requireProposal (proposalId : ℕ) : GovernorM Proposal := do
  let s ← read
  okOr (s.governor.proposal proposalId) .proposalNotFound

/-- Stores a proposal under its id. -/
def storeProposal (proposalId : ℕ) (proposal : Proposal) : GovernorM Unit :=
  store fun g => { g with proposal := Function.update g.proposal proposalId (some proposal) }

/-- Stores the configuration. -/
def storeConfig (config : Config) : GovernorM Unit :=
  store fun g => { g with config := some config }

/-- Applies `change` to the stored counters. -/
def updateStats (change : GovernanceStats → GovernanceStats) : GovernorM Unit :=
  store fun g => { g with stats := some (change (g.stats.getD .default)) }

/-- Moves one proposal from the counter of `previous` to the counter of `next`. -/
def recordStatusChange (previous next : ProposalStatus) : GovernorM Unit :=
  updateStats fun stats =>
    (stats.adjust previous fun counter => counter - 1).adjust next fun counter =>
      saturatingAddU64 counter 1

/-! ## Deposits -/

/-- Clears and returns the deposit recorded for a proposal. -/
def takeDeposit (proposalId : ℕ) : GovernorM (Option I128) := do
  let s ← read
  let amount := s.governor.deposit proposalId
  if amount.isSome = true then
    store fun g => { g with deposit := Function.update g.deposit proposalId none }
  else pure ()
  pure amount

/-- Returns the deposit held for a proposal to its proposer, if one is held. -/
def refundDeposit (env : Env) (config : Config) (proposal : Proposal) : GovernorM Unit := do
  let held ← takeDeposit proposal.id
  match held with
  | some amount => do
    callToken (Token.transfer (tokenEnv env config) env.contract proposal.proposer amount)
    publish (.depositRefunded proposal.id proposal.proposer amount)
  | none => pure ()

/-- Burns the deposit held for a proposal, if one is held. -/
def forfeitDeposit (env : Env) (config : Config) (proposalId : ℕ) : GovernorM Unit := do
  let held ← takeDeposit proposalId
  match held with
  | some amount => do
    callToken (Token.burn (tokenEnv env config) env.contract amount)
    publish (.depositForfeited proposalId amount)
  | none => pure ()

/-! ## Opening a proposal -/

/-- `initialize` in the contract. -/
def initializeGovernor (env : Env) (admin guardian token : Address)
    (quorumBps votingPeriod timelockPeriod executionGracePeriod : ℕ)
    (proposalThreshold : I128) : GovernorM Unit := do
  let s ← read
  rejectIf (s.governor.config.isSome = true) .alreadyInitialized
  rejectIf (maxQuorumBps < quorumBps) .invalidQuorumBps
  rejectIf (quorumBps < minQuorumBps) .minimumQuorumRequired
  rejectIf (timelockPeriod < minTimelockPeriod) .minimumTimelockRequired
  requireAuth env admin
  storeConfig
    { token := token, quorumBps := quorumBps, votingPeriod := votingPeriod
      timelockPeriod := timelockPeriod, proposalThreshold := proposalThreshold, admin := admin
      guardian := guardian, executionGracePeriod := executionGracePeriod, paused := false
      proposalDeposit := 0, proposerCooldown := 0 }
  store fun g => { g with proposalCount := some 0 }
  publish (.contractInitialized admin guardian token quorumBps votingPeriod timelockPeriod
    executionGracePeriod proposalThreshold)

/-- The loops of `validate_cosponsors`: each sponsor differs from the proposer and from the
sponsors before it. -/
def distinctSponsors (proposer : Address) : List Address → List Address → Bool
  | _, [] => true
  | seen, sponsor :: rest =>
    if sponsor = proposer then false
    else if sponsor ∈ seen then false
    else distinctSponsors proposer (seen ++ [sponsor]) rest

/-- Co-sponsors must be few, distinct from one another and from the proposer. -/
def validateCosponsors (cosponsors : List Address) (proposer : Address) : GovernorM Unit := do
  rejectIf (maxCosponsors < cosponsors.length) .invalidCosponsors
  rejectIf (distinctSponsors proposer [] cosponsors = false) .invalidCosponsors

/-- Each co-sponsor authorizes the call. -/
def requireAuths (env : Env) : List Address → GovernorM Unit
  | [] => pure ()
  | sponsor :: rest => do
    requireAuth env sponsor
    requireAuths env rest

/-- Adds the live balances of the co-sponsors to a running sum. -/
def combinedBalance : List Address → I128 → GovernorM I128
  | [], combined => pure combined
  | sponsor :: rest, combined => do
    let sponsorBalance ← queryToken fun token => Token.balance token sponsor
    let combined ← okOr (addWeight combined sponsorBalance) .overflow
    combinedBalance rest combined

/-- The entries that `open_proposal` writes after the proposal itself: the conviction tally, the
co-sponsors, the proposer's index and the ledger of the proposer's latest proposal. -/
def indexProposal (env : Env) (proposer : Address) (cosponsors : List Address)
    (conviction : Bool) (id : ℕ) : GovernorM Unit := do
  if conviction = true then
    store fun g => { g with conviction := Function.update g.conviction id (some ⟨0, 0, env.sequence⟩) }
  else pure ()
  if cosponsors ≠ [] then
    store fun g => { g with cosponsors := Function.update g.cosponsors id (some cosponsors) }
  else pure ()
  let s ← read
  let newCount ← unwrap (checkedAddU64 ((s.governor.proposerCount proposer).getD 0) 1) .arithmetic
  store fun g => { g with
    proposerIndex := Function.update g.proposerIndex proposer
      (Function.update (g.proposerIndex proposer) newCount (some id)) }
  store fun g => { g with
    proposerCount := Function.update g.proposerCount proposer (some newCount) }
  store fun g => { g with
    lastProposal := Function.update g.lastProposal proposer (some env.sequence) }

/-- Takes the deposit for a new proposal, if one is set. -/
def lockDeposit (env : Env) (config : Config) (proposer : Address) (id : ℕ) : GovernorM Unit :=
  if 0 < config.proposalDeposit.val then do
    callToken (Token.transfer (tokenEnv env config) proposer env.contract config.proposalDeposit)
    store fun g => { g with deposit := Function.update g.deposit id (some config.proposalDeposit) }
  else pure ()

/-- Whether the proposer has waited long enough since the last proposal. -/
def onCooldown (env : Env) (config : Config) (last : Option ℕ) : Bool :=
  match last with
  | some ledger => decide (env.sequence < saturatingAddU32 ledger config.proposerCooldown)
  | none => false

/-- Shared body of the proposal constructors. -/
def openProposal (env : Env) (proposer : Address) (cosponsors : List Address)
    (title description metadataUri : Text) (conviction : Bool) : GovernorM ℕ := do
  let config ← requireConfig
  requireAuth env proposer
  validateCosponsors cosponsors proposer
  requireAuths env cosponsors
  rejectIf (config.paused = true) .contractPaused
  rejectIf (title = []) .emptyTitle
  rejectIf (maxTitleLength < title.length) .titleTooLong
  rejectIf (maxDescriptionLength < description.length) .descriptionTooLong
  let s ← read
  rejectIf (onCooldown env config (s.governor.lastProposal proposer) = true) .proposerOnCooldown
  let id ← unwrap (checkedAddU64 (s.governor.proposalCount.getD 0) 1) .arithmetic
  let proposerBalance ← queryToken fun token => Token.balance token proposer
  let combined ← combinedBalance cosponsors proposerBalance
  rejectIf (combined.val < config.proposalThreshold.val) .belowProposalThreshold
  rejectIf (proposerBalance.val < config.proposalDeposit.val) .insufficientDeposit
  let supply ← queryToken Token.totalSupply
  let quorumRequired ← okOr (quorumForSupply supply config.quorumBps) .overflow
  let startLedger ← okOr (checkedAddU32 env.sequence 1) .overflow
  let endLedger ← okOr (checkedAddU32 startLedger config.votingPeriod) .overflow
  storeProposal id
    { id := id, proposer := proposer, title := title, description := description
      forVotes := 0, againstVotes := 0, abstainVotes := 0
      snapshotLedger := env.sequence, startLedger := startLedger, endLedger := endLedger
      queueLedger := 0, quorumRequired := quorumRequired
      timelockPeriod := config.timelockPeriod, status := .active
      metadataUri := metadataUri, kind := .executable }
  store fun g => { g with proposalCount := some id }
  lockDeposit env config proposer id
  indexProposal env proposer cosponsors conviction id
  publish (.proposalCreated id proposer title startLedger endLedger quorumRequired metadataUri)
  pure id

/-- Opens a standard proposal. -/
def createProposal (env : Env) (proposer : Address) (title description metadataUri : Text) :
    GovernorM ℕ :=
  openProposal env proposer [] title description metadataUri false

/-- As `createProposal`, with the co-sponsors' balances counted toward the threshold. -/
def createCosponsoredProposal (env : Env) (proposer : Address) (cosponsors : List Address)
    (title description metadataUri : Text) : GovernorM ℕ :=
  openProposal env proposer cosponsors title description metadataUri false

/-- As `createProposal`, decided on time-decayed support. -/
def createConvictionProposal (env : Env) (proposer : Address)
    (title description metadataUri : Text) : GovernorM ℕ :=
  openProposal env proposer [] title description metadataUri true

/-! ## Voting -/

/-- The tallies with the weight of an earlier choice taken out. -/
def uncount (proposal : Proposal) (previous : Option ℕ) (votingPower : I128) : Option Proposal :=
  match previous with
  | some support => (removeWeight (proposal.tally support) votingPower).map (proposal.setTally support)
  | none => some proposal

/-- The tallies with the weight of a choice added. -/
def count (proposal : Proposal) (support : ℕ) (votingPower : I128) : Option Proposal :=
  (addWeight (proposal.tally support) votingPower).map (proposal.setTally support)

/-- The conviction tally with the weight of a choice added; abstentions add nothing. -/
def countConviction (tally : ConvictionTally) (support : ℕ) (votingPower : I128) :
    Option ConvictionTally :=
  match support with
  | 0 => (addWeight tally.againstConviction votingPower).map fun sum =>
      { tally with againstConviction := sum }
  | 1 => (addWeight tally.forConviction votingPower).map fun sum =>
      { tally with forConviction := sum }
  | _ => some tally

/-- Brings the conviction tally of a conviction proposal forward and adds the choice. -/
def voteConviction (env : Env) (proposalId support : ℕ) (votingPower : I128) : GovernorM Unit := do
  let s ← read
  match s.governor.conviction proposalId with
  | some stored => do
    let conviction ← okOr (countConviction (decayTo stored env.sequence) support votingPower) .overflow
    store fun g => { g with conviction := Function.update g.conviction proposalId (some conviction) }
  | none => pure ()

/-- Records the choice of `voter` on a proposal. -/
def vote (env : Env) (voter : Address) (proposalId support : ℕ) : GovernorM Unit := do
  let _ ← requireConfig
  requireAuth env voter
  rejectIf (2 < support) .invalidVoteChoice
  let proposal ← requireProposal proposalId
  let s ← read
  let previous := s.governor.hasVoted proposalId voter
  rejectIf (proposal.endLedger < env.sequence ∧ previous.isSome = true) .alreadyVoted
  rejectIf (proposal.endLedger < env.sequence) .votingPeriodEnded
  rejectIf (proposal.status ≠ .active) .votingNotActive
  rejectIf (env.sequence < proposal.startLedger) .votingNotStarted
  let votingPower ← callToken (Token.getPastVotes voter proposal.snapshotLedger)
  rejectIf (votingPower.val ≤ 0) .noVotingPower
  let proposal ← okOr (uncount proposal previous votingPower) .overflow
  let proposal ← okOr (count proposal support votingPower) .overflow
  voteConviction env proposalId support votingPower
  storeProposal proposalId proposal
  store fun g => { g with
    hasVoted := Function.update g.hasVoted proposalId
      (Function.update (g.hasVoted proposalId) voter (some support)) }
  updateStats fun stats => { stats with votesCast := saturatingAddU64 stats.votesCast 1 }
  publish (.voteCast proposalId voter support votingPower)

/-- The facade of the token's delegation. -/
def delegate (env : Env) (delegator delegatee : Address) : GovernorM Unit := do
  let config ← requireConfig
  requireAuth env delegator
  let previous ← queryToken fun token => Token.getDelegates token delegator
  let result ← tryToken (Token.delegate (tokenEnv env config) delegator delegatee)
  match result with
  | .ok () => pure ()
  | .error (.error e) =>
    if e.code = Token.TokenError.overflow.code then stop (.error .overflow) else stop (.trap .call)
  | .error (.trap _) => stop (.trap .call)
  let delegatee ← queryToken fun token => Token.getDelegates token delegator
  store fun g => { g with
    delegate := Function.update g.delegate delegator
      (if delegatee = delegator then none else some delegatee) }
  if previous ≠ delegatee then publish (.delegated delegator delegatee) else pure ()

/-- Restores the holder's own votes. -/
def undelegate (env : Env) (delegator : Address) : GovernorM Unit :=
  delegate env delegator delegator

/-! ## Deciding and executing -/

/-- Whether the majority of a proposal is For: on the raw tallies, or for a conviction proposal
on its support decayed to the close of voting. -/
def majorityFor (proposal : Proposal) (conviction : Option ConvictionTally) : Bool :=
  match conviction with
  | some stored =>
    let atClose := decayTo stored proposal.endLedger
    decide (atClose.againstConviction.val < atClose.forConviction.val)
  | none => decide (proposal.againstVotes.val < proposal.forVotes.val)

/-- Decides a proposal whose voting has closed. -/
def finalize (env : Env) (proposalId : ℕ) : GovernorM ProposalStatus := do
  let config ← requireConfig
  let proposal ← requireProposal proposalId
  rejectIf (env.sequence ≤ proposal.endLedger) .votingNotActive
  rejectIf (proposal.status ≠ .active) .votingNotActive
  let total ← okOr (totalVotes proposal) .overflow
  let s ← read
  if proposal.quorumRequired.val ≤ total.val ∧
      majorityFor proposal (s.governor.conviction proposalId) = true then do
    let queueLedger ← okOr (checkedAddU32 env.sequence proposal.timelockPeriod) .overflow
    let proposal := { proposal with queueLedger := queueLedger, status := .queued }
    storeProposal proposalId proposal
    recordStatusChange .active .queued
    refundDeposit env config proposal
    publish (.proposalFinalized proposalId .queued proposal.forVotes proposal.againstVotes
      proposal.abstainVotes)
    publish (.proposalQueued proposalId queueLedger)
    pure .queued
  else do
    let proposal := { proposal with status := .failed }
    storeProposal proposalId proposal
    recordStatusChange .active .failed
    forfeitDeposit env config proposalId
    publish (.proposalFinalized proposalId .failed proposal.forVotes proposal.againstVotes
      proposal.abstainVotes)
    pure .failed

/-- The actions a proposal dispatches on execution, in order. -/
def getProposalActions (s : Storage) (proposalId : ℕ) : List ProposalAction :=
  (s.proposalAction proposalId).getD []

/-- `execute` up to the dispatch: the checks, and the commit of the terminal state. -/
def beginExecution (env : Env) (executor : Address) (proposalId : ℕ) :
    GovernorM (List ProposalAction) := do
  requireAuth env executor
  let config ← getConfig
  rejectIf (config.paused = true) .contractPaused
  let proposal ← requireProposal proposalId
  rejectIf (proposal.status ≠ .queued) .proposalNotPassed
  rejectIf (proposal.kind = .signaling) .notExecutable
  rejectIf (env.sequence < proposal.queueLedger) .timelockNotExpired
  let executionDeadline ←
    unwrap (checkedAddU32 proposal.queueLedger config.executionGracePeriod) .arithmetic
  rejectIf (0 < config.executionGracePeriod ∧ executionDeadline < env.sequence) .executionExpired
  let s ← read
  let actions := getProposalActions s.governor proposalId
  rejectIf (actions.any (fun action => !targetAllowed s.governor action.target) = true)
    .targetNotAllowed
  storeProposal proposalId { proposal with status := .executed }
  pure actions

/-- `execute` after the dispatch. -/
def endExecution (executor : Address) (proposalId : ℕ) : GovernorM Unit :=
  publish (.proposalExecuted proposalId executor)

/-- A dispatched contract: what a successful call leaves, or `none` for a failed one. -/
abbrev Callee := Env → ProposalAction → System → Option System

/-- Dispatches the actions in order, stopping at the first that fails. -/
def dispatchActions (callee : Callee) (env : Env) : List ProposalAction → GovernorM Unit
  | [] => pure ()
  | action :: rest => do
    let s ← read
    let s' ← okOr (callee env action s) .actionFailed
    write fun _ => s'
    dispatchActions callee env rest

/-- Executes a queued proposal. -/
def execute (callee : Callee) (env : Env) (executor : Address) (proposalId : ℕ) :
    GovernorM Unit := do
  let actions ← beginExecution env executor proposalId
  dispatchActions callee env actions
  endExecution executor proposalId

/-- Marks a queued proposal as expired once its grace period has lapsed. -/
def markExpired (env : Env) (proposalId : ℕ) : GovernorM Unit := do
  let proposal ← requireProposal proposalId
  rejectIf (proposal.status ≠ .queued) .proposalNotPassed
  let config ← getConfig
  let executionDeadline ←
    unwrap (checkedAddU32 proposal.queueLedger config.executionGracePeriod) .arithmetic
  rejectIf (¬ (0 < config.executionGracePeriod ∧ executionDeadline < env.sequence))
    .timelockNotExpired
  storeProposal proposalId { proposal with status := .expired }
  recordStatusChange .queued .expired

/-- Cancels a proposal while its voting window is open. -/
def cancel (env : Env) (caller : Address) (proposalId : ℕ) : GovernorM Unit := do
  let config ← requireConfig
  requireAuth env caller
  let proposal ← requireProposal proposalId
  rejectIf (caller ≠ proposal.proposer ∧ caller ≠ config.admin) .unauthorized
  rejectIf (proposal.status ≠ .active ∨ proposal.endLedger < env.sequence) .proposalNotCancellable
  storeProposal proposalId { proposal with status := .cancelled }
  forfeitDeposit env config proposalId
  publish (.proposalCancelled proposalId caller)

/-- Guardian veto during the timelock window. -/
def veto (env : Env) (caller : Address) (proposalId : ℕ) (reason : Text) : GovernorM Unit := do
  let config ← requireConfig
  requireAuth env caller
  rejectIf (caller ≠ config.guardian) .unauthorized
  rejectIf (reason = []) .emptyVetoReason
  rejectIf (maxVetoReasonLength < reason.length) .vetoReasonTooLong
  let proposal ← requireProposal proposalId
  rejectIf (proposal.status ≠ .queued) .proposalNotPassed
  rejectIf (proposal.queueLedger ≤ env.sequence) .vetoWindowClosed
  storeProposal proposalId { proposal with status := .vetoed }
  publish (.proposalVetoed proposalId caller reason)

/-! ## Actions and administration -/

/-- Appends a call the proposal makes when it executes. -/
def setProposalAction (env : Env) (proposer : Address) (proposalId : ℕ) (target : Address)
    (function : Text) (args : List Val) : GovernorM Unit := do
  requireAuth env proposer
  let proposal ← requireProposal proposalId
  rejectIf (proposer ≠ proposal.proposer) .unauthorized
  rejectIf (proposal.endLedger < env.sequence) .votingPeriodEnded
  rejectIf (proposal.status ≠ .active) .votingNotActive
  let s ← read
  rejectIf (targetAllowed s.governor target = false) .targetNotAllowed
  let actions := getProposalActions s.governor proposalId
  rejectIf (maxProposalActions ≤ actions.length) .tooManyActions
  store fun g => { g with
    proposalAction := Function.update g.proposalAction proposalId
      (some (actions ++ [⟨target, function, args⟩])) }
  publish (.proposalActionSet proposalId target function)

/-- Adds a contract to the allowlist or removes it; admin only. -/
def setTargetAllowed (env : Env) (target : Address) (allowed : Bool) : GovernorM Unit := do
  let config ← requireConfig
  requireAuth env config.admin
  store fun g => { g with
    allowedTarget := Function.update g.allowedTarget target (if allowed then some true else none) }
  publish (.targetAllowlistUpdated config.admin target allowed)

/-- Adds a contract to the allowlist. -/
def allowTarget (env : Env) (target : Address) : GovernorM Unit := setTargetAllowed env target true

/-- Removes a contract from the allowlist. -/
def disallowTarget (env : Env) (target : Address) : GovernorM Unit :=
  setTargetAllowed env target false

/-- Nominates a new admin; admin only. -/
def transferAdmin (env : Env) (newAdmin : Address) : GovernorM Unit := do
  let config ← getConfig
  requireAuth env config.admin
  store fun g => { g with pendingAdmin := some newAdmin }

/-- Completes the hand-over to the nominated admin. -/
def acceptAdmin (env : Env) : GovernorM Unit := do
  let s ← read
  let pending ← okOr s.governor.pendingAdmin .unauthorized
  requireAuth env pending
  let config ← getConfig
  storeConfig { config with admin := pending }
  store fun g => { g with pendingAdmin := none }

/-- Withdraws the nomination; admin only. -/
def cancelAdminTransfer (env : Env) : GovernorM Unit := do
  let config ← getConfig
  requireAuth env config.admin
  store fun g => { g with pendingAdmin := none }

/-- Sets the deposit for opening a proposal; admin only. -/
def setProposalDeposit (env : Env) (amount : I128) : GovernorM Unit := do
  let config ← requireConfig
  requireAuth env config.admin
  rejectIf (amount.val < 0) .invalidAmount
  storeConfig { config with proposalDeposit := amount }
  publish (.proposalDepositUpdated amount)

/-- Sets how long a proposer waits between proposals; admin only. -/
def setProposerCooldown (env : Env) (ledgers : ℕ) : GovernorM Unit := do
  let config ← requireConfig
  requireAuth env config.admin
  storeConfig { config with proposerCooldown := ledgers }
  publish (.proposerCooldownUpdated ledgers)

/-- Replaces the guardian; admin only. -/
def setGuardian (env : Env) (newGuardian : Address) : GovernorM Unit := do
  let config ← requireConfig
  requireAuth env config.admin
  storeConfig { config with guardian := newGuardian }
  publish (.guardianChanged config.guardian newGuardian)

/-- Pauses proposal creation and execution; admin or guardian. -/
def pause (env : Env) (caller : Address) : GovernorM Unit := do
  requireAuth env caller
  let config ← getConfig
  rejectIf (caller ≠ config.admin ∧ caller ≠ config.guardian) .unauthorized
  storeConfig { config with paused := true }
  publish (.contractPaused caller)

/-- Lifts the pause; admin only. -/
def unpause (env : Env) : GovernorM Unit := do
  let config ← getConfig
  requireAuth env config.admin
  storeConfig { config with paused := false }
  publish (.contractUnpaused config.admin)

/-- Extends the lifetime of a proposal entry, which changes no stored value. -/
def extendProposalTtl (proposalId : ℕ) : GovernorM Unit := do
  let _ ← requireProposal proposalId
  pure ()

/-! ## Invocations -/

/-- The calls that can change the governor, with the two ends of an execution. -/
inductive Call where
  | initializeGovernor (admin guardian token : Address)
      (quorumBps votingPeriod timelockPeriod executionGracePeriod : ℕ) (proposalThreshold : I128)
  | createProposal (proposer : Address) (title description metadataUri : Text)
  | createCosponsoredProposal (proposer : Address) (cosponsors : List Address)
      (title description metadataUri : Text)
  | createConvictionProposal (proposer : Address) (title description metadataUri : Text)
  | vote (voter : Address) (proposalId support : ℕ)
  | delegate (delegator delegatee : Address)
  | undelegate (delegator : Address)
  | finalize (proposalId : ℕ)
  | beginExecution (executor : Address) (proposalId : ℕ)
  | endExecution (executor : Address) (proposalId : ℕ)
  | markExpired (proposalId : ℕ)
  | cancel (caller : Address) (proposalId : ℕ)
  | veto (caller : Address) (proposalId : ℕ) (reason : Text)
  | setProposalAction (proposer : Address) (proposalId : ℕ) (target : Address) (function : Text)
      (args : List Val)
  | allowTarget (target : Address)
  | disallowTarget (target : Address)
  | transferAdmin (newAdmin : Address)
  | acceptAdmin
  | cancelAdminTransfer
  | setProposalDeposit (amount : I128)
  | setProposerCooldown (ledgers : ℕ)
  | setGuardian (newGuardian : Address)
  | pause (caller : Address)
  | unpause
  | extendProposalTtl (proposalId : ℕ)

/-- Drops the value a function returns. -/
def discard {A : Type} (m : GovernorM A) : GovernorM Unit := do
  let _ ← m
  pure ()

/-- Runs the contract function a call names. -/
def invoke (env : Env) : Call → GovernorM Unit
  | .initializeGovernor admin guardian token quorumBps votingPeriod timelockPeriod
      executionGracePeriod proposalThreshold =>
    Governor.initializeGovernor env admin guardian token quorumBps votingPeriod timelockPeriod
      executionGracePeriod proposalThreshold
  | .createProposal proposer title description metadataUri =>
    discard (Governor.createProposal env proposer title description metadataUri)
  | .createCosponsoredProposal proposer cosponsors title description metadataUri =>
    discard (Governor.createCosponsoredProposal env proposer cosponsors title description
      metadataUri)
  | .createConvictionProposal proposer title description metadataUri =>
    discard (Governor.createConvictionProposal env proposer title description metadataUri)
  | .vote voter proposalId support => Governor.vote env voter proposalId support
  | .delegate delegator delegatee => Governor.delegate env delegator delegatee
  | .undelegate delegator => Governor.undelegate env delegator
  | .finalize proposalId => discard (Governor.finalize env proposalId)
  | .beginExecution executor proposalId =>
    discard (Governor.beginExecution env executor proposalId)
  | .endExecution executor proposalId => Governor.endExecution executor proposalId
  | .markExpired proposalId => Governor.markExpired env proposalId
  | .cancel caller proposalId => Governor.cancel env caller proposalId
  | .veto caller proposalId reason => Governor.veto env caller proposalId reason
  | .setProposalAction proposer proposalId target function args =>
    Governor.setProposalAction env proposer proposalId target function args
  | .allowTarget target => Governor.allowTarget env target
  | .disallowTarget target => Governor.disallowTarget env target
  | .transferAdmin newAdmin => Governor.transferAdmin env newAdmin
  | .acceptAdmin => Governor.acceptAdmin env
  | .cancelAdminTransfer => Governor.cancelAdminTransfer env
  | .setProposalDeposit amount => Governor.setProposalDeposit env amount
  | .setProposerCooldown ledgers => Governor.setProposerCooldown env ledgers
  | .setGuardian newGuardian => Governor.setGuardian env newGuardian
  | .pause caller => Governor.pause env caller
  | .unpause => Governor.unpause env
  | .extendProposalTtl proposalId => Governor.extendProposalTtl proposalId

/-- A call made to the token or to the governor. -/
inductive Invocation where
  | token (i : Token.Invocation)
  | governor (env : Env) (c : Call)

/-- The ledger at which a call is made. -/
def Invocation.sequence : Invocation → ℕ
  | .token i => i.env.sequence
  | .governor env _ => env.sequence

/-- The two contracts under the host's rollback. -/
def machine : Clocked System Invocation where
  time := Invocation.sequence
  step
    | .token i, s => { s with token := Token.machine.step i s.token }
    | .governor env c, s => (invoke env c).commit s

end Quorum.Governor

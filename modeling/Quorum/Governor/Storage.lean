import Quorum.Token.Operations

/-!
# The governor's data model

The storage entries of the governance contract and the records kept in them. The governor works
on a token that it calls across contracts, so its functions run against a system of both
storages.
-/

namespace Quorum.Governor

open Foundation

/-- The governor's error codes. -/
inductive GovernanceError where
  | alreadyInitialized
  | unauthorized
  | proposalNotFound
  | votingNotActive
  | alreadyVoted
  | quorumNotReached
  | proposalNotPassed
  | alreadyExecuted
  | belowProposalThreshold
  | invalidVoteChoice
  | votingPeriodEnded
  | timelockNotExpired
  | overflow
  | noVotingPower
  | executionExpired
  | contractPaused
  | invalidQuorumBps
  | notInitialized
  | emptyTitle
  | titleTooLong
  | descriptionTooLong
  | minimumQuorumRequired
  | minimumTimelockRequired
  | emptyVetoReason
  | vetoReasonTooLong
  | vetoWindowClosed
  | targetNotAllowed
  | invalidCosponsors
  | invalidAmount
  | insufficientDeposit
  | notExecutable
  | proposalNotCancellable
  | proposerOnCooldown
  | votingNotStarted
  | tooManyActions
  | actionFailed
deriving DecidableEq

/-- The status stored with each proposal. -/
inductive ProposalStatus where
  | active
  | failed
  | queued
  | executed
  | cancelled
  | expired
  | vetoed
deriving DecidableEq

/-- Whether a proposal only expresses an opinion or also dispatches actions. -/
inductive ProposalKind where
  | signaling
  | executable
deriving DecidableEq

/-- Running totals over all proposals. -/
structure GovernanceStats where
  totalProposals : ℕ
  active : ℕ
  queued : ℕ
  executed : ℕ
  failed : ℕ
  cancelled : ℕ
  expired : ℕ
  votesCast : ℕ
deriving DecidableEq

/-- The counters of a new deployment. -/
def GovernanceStats.default : GovernanceStats := ⟨0, 0, 0, 0, 0, 0, 0, 0⟩

/-- A proposal with its tallies and its ledger window. -/
structure Proposal where
  id : ℕ
  proposer : Address
  title : Text
  description : Text
  forVotes : I128
  againstVotes : I128
  abstainVotes : I128
  snapshotLedger : ℕ
  startLedger : ℕ
  endLedger : ℕ
  queueLedger : ℕ
  quorumRequired : I128
  timelockPeriod : ℕ
  status : ProposalStatus
  metadataUri : Text
  kind : ProposalKind
deriving DecidableEq

/-- A host value passed to a contract function. -/
abbrev Val := BitVec 64

/-- One call a proposal makes when it executes. -/
structure ProposalAction where
  target : Address
  function : Text
  args : List Val
deriving DecidableEq

/-- Time-decayed support for a conviction proposal. `updatedLedger` is the ledger the two sides
were last brought forward to. -/
structure ConvictionTally where
  forConviction : I128
  againstConviction : I128
  updatedLedger : ℕ
deriving DecidableEq

/-- The governor's configuration. -/
structure Config where
  token : Address
  quorumBps : ℕ
  votingPeriod : ℕ
  timelockPeriod : ℕ
  proposalThreshold : I128
  admin : Address
  guardian : Address
  executionGracePeriod : ℕ
  paused : Bool
  proposalDeposit : I128
  proposerCooldown : ℕ
deriving DecidableEq

/-- The payloads of the published events. -/
inductive Event where
  | contractInitialized (admin guardian token : Address)
      (quorumBps votingPeriod timelockPeriod executionGracePeriod : ℕ) (proposalThreshold : I128)
  | proposalCreated (id : ℕ) (proposer : Address) (title : Text) (startLedger endLedger : ℕ)
      (quorumRequired : I128) (metadataUri : Text)
  | contractPaused (caller : Address)
  | contractUnpaused (caller : Address)
  | voteCast (proposalId : ℕ) (voter : Address) (support : ℕ) (votingPower : I128)
  | delegated (delegator delegatee : Address)
  | proposalFinalized (id : ℕ) (status : ProposalStatus)
      (forVotes againstVotes abstainVotes : I128)
  | proposalQueued (id queueLedger : ℕ)
  | proposalExecuted (id : ℕ) (executor : Address)
  | proposalCancelled (id : ℕ) (caller : Address)
  | proposalVetoed (id : ℕ) (guardian : Address) (reason : Text)
  | guardianChanged (previousGuardian newGuardian : Address)
  | proposalDepositUpdated (amount : I128)
  | proposerCooldownUpdated (ledgers : ℕ)
  | depositRefunded (id : ℕ) (proposer : Address) (amount : I128)
  | depositForfeited (id : ℕ) (amount : I128)
  | targetAllowlistUpdated (admin target : Address) (allowed : Bool)
  | proposalActionSet (id : ℕ) (target : Address) (function : Text)
deriving DecidableEq

/-- The storage entries, one field for each kind of `DataKey`, and the published events. -/
structure Storage where
  config : Option Config
  proposalCount : Option ℕ
  proposal : ℕ → Option Proposal
  hasVoted : ℕ → Address → Option ℕ
  delegate : Address → Option Address
  pendingAdmin : Option Address
  proposerIndex : Address → ℕ → Option ℕ
  proposerCount : Address → Option ℕ
  deposit : ℕ → Option I128
  cosponsors : ℕ → Option (List Address)
  conviction : ℕ → Option ConvictionTally
  proposalAction : ℕ → Option (List ProposalAction)
  allowedTarget : Address → Option Bool
  lastProposal : Address → Option ℕ
  stats : Option GovernanceStats
  events : List Event

/-- The storage of a freshly deployed governor. -/
def Storage.empty : Storage where
  config := none
  proposalCount := none
  proposal := fun _ => none
  hasVoted := fun _ _ => none
  delegate := fun _ => none
  pendingAdmin := none
  proposerIndex := fun _ _ => none
  proposerCount := fun _ => none
  deposit := fun _ => none
  cosponsors := fun _ => none
  conviction := fun _ => none
  proposalAction := fun _ => none
  allowedTarget := fun _ => none
  lastProposal := fun _ => none
  stats := none
  events := []

/-- The storages of the governor and of the token it is configured with. -/
structure System where
  token : Token.Storage
  governor : Storage

/-- Both contracts freshly deployed. -/
def System.empty : System := ⟨Token.Storage.empty, Storage.empty⟩

/-- The system with a function applied to the governor's storage. -/
def System.mapGovernor (f : Storage → Storage) (s : System) : System :=
  { s with governor := f s.governor }

/-- Changing the governor's part changes it as told. -/
@[simp] theorem System.mapGovernor_governor (f : Storage → Storage) (s : System) :
    (s.mapGovernor f).governor = f s.governor := rfl

/-! ## Constants -/

/-- Basis-point denominator. -/
def bpsDenominator : I128 := ⟨10000, by decide, by decide⟩

/-- Largest quorum in basis points that can still be reached. -/
def maxQuorumBps : ℕ := 10000

/-- Minimum quorum in basis points. -/
def minQuorumBps : ℕ := 1

/-- Minimum timelock period in ledgers. -/
def minTimelockPeriod : ℕ := 1

/-- Maximum length of a title in bytes. -/
def maxTitleLength : ℕ := 200

/-- Maximum length of a description in bytes. -/
def maxDescriptionLength : ℕ := 10000

/-- Maximum length of a veto justification in bytes. -/
def maxVetoReasonLength : ℕ := 1000

/-- Maximum number of actions one proposal may carry. -/
def maxProposalActions : ℕ := 10

/-- Most co-sponsors a proposal can name. -/
def maxCosponsors : ℕ := 10

/-- Half-life of conviction support, in ledgers: three days. -/
def convictionHalfLife : ℕ := Token.ledgersPerDay * 3

/-! ## Tallies and counters -/

/-- The tally that a `support` value adds to: 0 Against, 1 For, 2 Abstain. -/
def Proposal.tally (proposal : Proposal) : ℕ → I128
  | 0 => proposal.againstVotes
  | 1 => proposal.forVotes
  | _ => proposal.abstainVotes

/-- The proposal with another value in the tally of `support`. -/
def Proposal.setTally (proposal : Proposal) (support : ℕ) (value : I128) : Proposal :=
  match support with
  | 0 => { proposal with againstVotes := value }
  | 1 => { proposal with forVotes := value }
  | _ => { proposal with abstainVotes := value }

/-- The sum of the three tallies, if it fits. -/
def totalVotes (proposal : Proposal) : Option I128 :=
  (proposal.forVotes.checkedAdd proposal.againstVotes).bind fun sum =>
    sum.checkedAdd proposal.abstainVotes

/-- Takes `weight` out of a tally, refusing a result below zero. -/
def removeWeight (tally weight : I128) : Option I128 :=
  (tally.checkedSub weight).filter fun remaining => decide (0 ≤ remaining.val)

/-- Adds `weight` to a tally. -/
def addWeight (tally weight : I128) : Option I128 := tally.checkedAdd weight

/-- Quorum threshold for a given circulating supply: `supply * bps / 10000`. -/
def quorumForSupply (totalSupply : I128) (quorumBps : ℕ) : Option I128 := do
  let bps ← I128.ofInt? quorumBps
  let scaled ← totalSupply.checkedMul bps
  scaled.checkedDiv bpsDenominator

/-- Brings a conviction tally forward to the ledger `now`, halving each side once for every whole
half-life since it was last written. A shift of 128 or more leaves nothing. -/
def decayTo (tally : ConvictionTally) (now : ℕ) : ConvictionTally :=
  let halvings := (now - tally.updatedLedger) / convictionHalfLife
  { forConviction := (tally.forConviction.checkedShr halvings).getD 0
    againstConviction := (tally.againstConviction.checkedShr halvings).getD 0
    updatedLedger := now }

/-- Applies `change` to the counter of proposals in `status`; `vetoed` has none. -/
def GovernanceStats.adjust (stats : GovernanceStats) (status : ProposalStatus) (change : ℕ → ℕ) :
    GovernanceStats :=
  match status with
  | .active => { stats with active := change stats.active }
  | .queued => { stats with queued := change stats.queued }
  | .executed => { stats with executed := change stats.executed }
  | .failed => { stats with failed := change stats.failed }
  | .cancelled => { stats with cancelled := change stats.cancelled }
  | .expired => { stats with expired := change stats.expired }
  | .vetoed => stats

/-- Whether `target` is on the allowlist. -/
def targetAllowed (s : Storage) (target : Address) : Bool := (s.allowedTarget target).getD false

/-- The conviction tally of a conviction proposal, decayed to the ledger `now`. -/
def getConviction (s : Storage) (proposalId now : ℕ) : Option ConvictionTally :=
  (s.conviction proposalId).map fun stored => decayTo stored now

end Quorum.Governor

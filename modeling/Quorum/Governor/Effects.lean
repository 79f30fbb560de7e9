import Quorum.Foundation.Simulation
import Quorum.Governor.Operations

/-!
# What a successful governor call does

Every successful call of the governor opens a proposal, counts a vote, moves one proposal to its
next status, or leaves proposals, votes and conviction tallies alone. `Change` lists these
possibilities with the conditions under which they happen, and `invoke_effect` shows that there
are no others. What the call does to the token is what calls of the token at the same ledger do.
-/

namespace Quorum.Governor

open Foundation Contract

variable {s s' : System} {env : Env} {now : ℕ}

/-! ## The combinators of the governor -/

section Combinators

variable {A B : Type} {b : B} {u : Unit}

/-- Storing returns with the governor's entries changed as told. -/
@[simp] theorem returns_store_iff {g : Storage → Storage} :
    (store g).Returns s u s' ↔ s.mapGovernor g = s' := returns_write_iff

/-- After a store the rest runs on the changed entries. -/
@[simp] theorem returns_store_bind_iff {g : Storage → Storage} {f : Unit → GovernorM B} :
    (store g >>= f).Returns s b s' ↔ (f ()).Returns (s.mapGovernor g) b s' := Iff.rfl

/-- Publishing returns with the event at the end of the governor's log. -/
@[simp] theorem returns_publish_iff {e : Event} :
    (publish e).Returns s u s' ↔
      s.mapGovernor (fun g => { g with events := g.events ++ [e] }) = s' := returns_write_iff

/-- After a publication the rest runs on the longer log. -/
@[simp] theorem returns_publish_bind_iff {e : Event} {f : Unit → GovernorM B} :
    (publish e >>= f).Returns s b s' ↔
      (f ()).Returns (s.mapGovernor fun g => { g with events := g.events ++ [e] }) b s' := Iff.rfl

/-- After a proposal is stored the rest finds it under its id. -/
@[simp] theorem returns_storeProposal_bind_iff {id : ℕ} {p : Proposal} {f : Unit → GovernorM B} :
    (storeProposal id p >>= f).Returns s b s' ↔
      (f ()).Returns (s.mapGovernor fun g =>
        { g with proposal := Function.update g.proposal id (some p) }) b s' := Iff.rfl

/-- After the configuration is stored the rest finds it. -/
@[simp] theorem returns_storeConfig_bind_iff {config : Config} {f : Unit → GovernorM B} :
    (storeConfig config >>= f).Returns s b s' ↔
      (f ()).Returns (s.mapGovernor fun g => { g with config := some config }) b s' := Iff.rfl

/-- After the counters are updated the rest finds them changed, from the default when they were
absent. -/
@[simp] theorem returns_updateStats_bind_iff {change : GovernanceStats → GovernanceStats}
    {f : Unit → GovernorM B} :
    (updateStats change >>= f).Returns s b s' ↔
      (f ()).Returns (s.mapGovernor fun g =>
        { g with stats := some (change (g.stats.getD .default)) }) b s' := Iff.rfl

/-- A read of the token hands the rest what the reader finds and changes nothing. -/
@[simp] theorem returns_queryToken_bind_iff {reader : Token.Storage → A} {f : A → GovernorM B} :
    (queryToken reader >>= f).Returns s b s' ↔ (f (reader s.token)).Returns s b s' := Iff.rfl

/-- An operation that requires the configuration returns only where one is stored. -/
@[simp] theorem returns_requireConfig_bind_iff {f : Config → GovernorM B} :
    (requireConfig >>= f).Returns s b s' ↔
      ∃ config, s.governor.config = some config ∧ (f config).Returns s b s' :=
  returns_okOr_bind_iff (s := s)

/-- Reading the configuration returns only where one is stored. -/
@[simp] theorem returns_getConfig_bind_iff {f : Config → GovernorM B} :
    (getConfig >>= f).Returns s b s' ↔
      ∃ config, s.governor.config = some config ∧ (f config).Returns s b s' :=
  returns_unwrap_bind_iff (s := s)

/-- An operation that requires a proposal returns only where one is stored under the id. -/
@[simp] theorem returns_requireProposal_bind_iff {id : ℕ} {f : Proposal → GovernorM B} :
    (requireProposal id >>= f).Returns s b s' ↔
      ∃ p, s.governor.proposal id = some p ∧ (f p).Returns s b s' :=
  returns_okOr_bind_iff (s := s)

/-- A call of the token returns when the token's operation does, and the rest runs on the token it
leaves. -/
theorem returns_callToken_bind_iff {m : Token.TokenM A} {f : A → GovernorM B} :
    (callToken m >>= f).Returns s b s' ↔
      ∃ a t, m.Returns s.token a t ∧ (f a).Returns { s with token := t } b s' :=
  returns_call_bind_iff

/-- What follows a store succeeds exactly when it does on the changed entries. -/
@[simp] theorem succeeds_store_bind_iff {g : Storage → Storage} {f : Unit → GovernorM B} :
    (store g >>= f).Succeeds s ↔ (f ()).Succeeds (s.mapGovernor g) := Iff.rfl

/-- What follows a publication succeeds exactly when it does on the longer log. -/
@[simp] theorem succeeds_publish_bind_iff {e : Event} {f : Unit → GovernorM B} :
    (publish e >>= f).Succeeds s ↔
      (f ()).Succeeds (s.mapGovernor fun g => { g with events := g.events ++ [e] }) := Iff.rfl

/-- What follows a proposal's store succeeds exactly when it does with the proposal stored. -/
@[simp] theorem succeeds_storeProposal_bind_iff {id : ℕ} {p : Proposal} {f : Unit → GovernorM B} :
    (storeProposal id p >>= f).Succeeds s ↔ (f ()).Succeeds (s.mapGovernor fun g =>
      { g with proposal := Function.update g.proposal id (some p) }) := Iff.rfl

/-- What follows a read of the token succeeds exactly when it does on what was read. -/
@[simp] theorem succeeds_queryToken_bind_iff {reader : Token.Storage → A} {f : A → GovernorM B} :
    (queryToken reader >>= f).Succeeds s ↔ (f (reader s.token)).Succeeds s := Iff.rfl

/-- An operation that requires the configuration succeeds exactly when one is stored and the rest
does. -/
@[simp] theorem succeeds_requireConfig_bind_iff {f : Config → GovernorM B} :
    (requireConfig >>= f).Succeeds s ↔
      ∃ config, s.governor.config = some config ∧ (f config).Succeeds s :=
  succeeds_okOr_bind_iff (s := s)

variable {P : Failure GovernanceError → Prop}

/-- What follows a store fails exactly as it does on the changed entries. -/
@[simp] theorem fails_store_bind_iff {g : Storage → Storage} {f : Unit → GovernorM B} :
    (store g >>= f).Fails P s ↔ (f ()).Fails P (s.mapGovernor g) := Iff.rfl

/-- A store never fails. -/
@[simp] theorem fails_store_iff {g : Storage → Storage} : (store g).Fails P s ↔ False :=
  fails_write_iff

/-- What follows a proposal's store fails exactly as it does with the proposal stored. -/
@[simp] theorem fails_storeProposal_bind_iff {id : ℕ} {p : Proposal} {f : Unit → GovernorM B} :
    (storeProposal id p >>= f).Fails P s ↔ (f ()).Fails P (s.mapGovernor fun g =>
      { g with proposal := Function.update g.proposal id (some p) }) := Iff.rfl

/-- What follows an update of the counters fails exactly as it does on the updated ones. -/
@[simp] theorem fails_updateStats_bind_iff {change : GovernanceStats → GovernanceStats}
    {f : Unit → GovernorM B} :
    (updateStats change >>= f).Fails P s ↔ (f ()).Fails P (s.mapGovernor fun g =>
      { g with stats := some (change (g.stats.getD .default)) }) := Iff.rfl

/-- What follows a publication fails exactly as it does on the longer log. -/
@[simp] theorem fails_publish_bind_iff {e : Event} {f : Unit → GovernorM B} :
    (publish e >>= f).Fails P s ↔
      (f ()).Fails P (s.mapGovernor fun g => { g with events := g.events ++ [e] }) := Iff.rfl

/-- A publication never fails. -/
@[simp] theorem fails_publish_iff {e : Event} : (publish e).Fails P s ↔ False := fails_write_iff

/-- What follows a read of the token fails exactly as it does on what was read. -/
@[simp] theorem fails_queryToken_bind_iff {reader : Token.Storage → A} {f : A → GovernorM B} :
    (queryToken reader >>= f).Fails P s ↔ (f (reader s.token)).Fails P s := Iff.rfl

/-- Requiring the configuration fails with its error where none is stored, and else as the rest
does. -/
@[simp] theorem fails_requireConfig_bind_iff {f : Config → GovernorM B} :
    (requireConfig >>= f).Fails P s ↔
      s.governor.config = none ∧ P (.error .notInitialized) ∨
        ∃ config, s.governor.config = some config ∧ (f config).Fails P s :=
  fails_okOr_bind_iff (s := s)

/-- Reading the configuration traps where none is stored, and else fails as the rest does. -/
@[simp] theorem fails_getConfig_bind_iff {f : Config → GovernorM B} :
    (getConfig >>= f).Fails P s ↔
      s.governor.config = none ∧ P (.trap .missing) ∨
        ∃ config, s.governor.config = some config ∧ (f config).Fails P s :=
  fails_unwrap_bind_iff (s := s)

/-- Requiring a proposal fails with its error where none is stored, and else as the rest does. -/
@[simp] theorem fails_requireProposal_bind_iff {id : ℕ} {f : Proposal → GovernorM B} :
    (requireProposal id >>= f).Fails P s ↔
      s.governor.proposal id = none ∧ P (.error .proposalNotFound) ∨
        ∃ p, s.governor.proposal id = some p ∧ (f p).Fails P s :=
  fails_okOr_bind_iff (s := s)

end Combinators

/-! ## The kinds of change -/

/-- Proposals, votes and conviction tallies are as they were. -/
structure Undisturbed (s s' : System) : Prop where
  proposalCount : s'.governor.proposalCount.getD 0 = s.governor.proposalCount.getD 0
  proposal : s'.governor.proposal = s.governor.proposal
  hasVoted : s'.governor.hasVoted = s.governor.hasVoted
  conviction : s'.governor.conviction = s.governor.conviction

/-- The parameters of a configuration that no call changes. -/
structure SameTerms (c c' : Config) : Prop where
  token : c'.token = c.token
  quorumBps : c'.quorumBps = c.quorumBps
  votingPeriod : c'.votingPeriod = c.votingPeriod
  timelockPeriod : c'.timelockPeriod = c.timelockPeriod
  executionGracePeriod : c'.executionGracePeriod = c.executionGracePeriod
  proposalThreshold : c'.proposalThreshold = c.proposalThreshold

/-- A configuration has the terms of itself. -/
theorem SameTerms.refl (c : Config) : SameTerms c c := ⟨rfl, rfl, rfl, rfl, rfl, rfl⟩

/-- A configuration is set once, with terms in range, and keeps its terms. -/
def Configures (s s' : System) : Prop :=
  match s.governor.config with
  | some c => ∃ c', s'.governor.config = some c' ∧ SameTerms c c'
  | none => ∀ c', s'.governor.config = some c' →
      minQuorumBps ≤ c'.quorumBps ∧ c'.quorumBps ≤ maxQuorumBps ∧
        minTimelockPeriod ≤ c'.timelockPeriod

/-- One proposal is replaced by another version of it. -/
structure Restates (id : ℕ) (p p' : Proposal) (s s' : System) : Prop where
  stored : s.governor.proposal id = some p
  proposalCount : s'.governor.proposalCount = s.governor.proposalCount
  proposal : s'.governor.proposal = Function.update s.governor.proposal id (some p')
  hasVoted : s'.governor.hasVoted = s.governor.hasVoted
  conviction : s'.governor.conviction = s.governor.conviction

/-- A proposal is opened under the next id, with empty tallies and its voting window ahead. -/
structure Opens (env : Env) (config : Config) (proposer : Address) (conviction : Bool)
    (p : Proposal) (s s' : System) : Prop where
  configured : s.governor.config = some config
  unpaused : config.paused = false
  authorized : env.auth proposer = true
  id : p.id = s.governor.proposalCount.getD 0 + 1
  proposer : p.proposer = proposer
  tallies : ∀ support, p.tally support = 0
  snapshotLedger : p.snapshotLedger = env.sequence
  startLedger : p.startLedger = env.sequence + 1
  endLedger : p.endLedger = env.sequence + 1 + config.votingPeriod
  quorumRequired :
    quorumForSupply (Token.totalSupply s.token) config.quorumBps = some p.quorumRequired
  timelockPeriod : p.timelockPeriod = config.timelockPeriod
  status : p.status = .active
  kind : p.kind = .executable
  proposalCount : s'.governor.proposalCount = some p.id
  proposal : s'.governor.proposal = Function.update s.governor.proposal p.id (some p)
  hasVoted : s'.governor.hasVoted = s.governor.hasVoted
  conviction : s'.governor.conviction =
    if conviction = true then
      Function.update s.governor.conviction p.id (some ⟨0, 0, env.sequence⟩)
    else s.governor.conviction

/-- What a vote does to the conviction tallies. -/
def ConvictionVoted (now id support : ℕ) (votingPower : I128)
    (tallies tallies' : ℕ → Option ConvictionTally) : Prop :=
  match tallies id with
  | some stored => ∃ conviction,
      countConviction (decayTo stored now) support votingPower = some conviction ∧
        tallies' = Function.update tallies id (some conviction)
  | none => tallies' = tallies

/-- A vote is counted with the weight that the token reports for the snapshot ledger. -/
structure Votes (env : Env) (voter : Address) (id support : ℕ) (p counted : Proposal)
    (votingPower : I128) (s s' : System) : Prop where
  authorized : env.auth voter = true
  choice : support ≤ 2
  stored : s.governor.proposal id = some p
  active : p.status = .active
  started : p.startLedger ≤ env.sequence
  notEnded : env.sequence ≤ p.endLedger
  weight : (Token.getPastVotes voter p.snapshotLedger).Returns s.token votingPower s.token
  positive : 0 < votingPower.val
  recount : ∃ q, uncount p (s.governor.hasVoted id voter) votingPower = some q ∧
    count q support votingPower = some counted
  token : s'.token = s.token
  config : s'.governor.config = s.governor.config
  proposalCount : s'.governor.proposalCount = s.governor.proposalCount
  proposal : s'.governor.proposal = Function.update s.governor.proposal id (some counted)
  hasVoted : s'.governor.hasVoted = Function.update s.governor.hasVoted id
    (Function.update (s.governor.hasVoted id) voter (some support))
  conviction : ConvictionVoted env.sequence id support votingPower s.governor.conviction
    s'.governor.conviction

/-- The proposer and the kind of a call that opens a proposal. -/
def Call.opens : Call → Option (Address × Bool)
  | .createProposal proposer _ _ _ => some (proposer, false)
  | .createCosponsoredProposal proposer _ _ _ _ => some (proposer, false)
  | .createConvictionProposal proposer _ _ _ => some (proposer, true)
  | _ => none

/-- The calls that leave proposals, votes and conviction tallies alone. -/
def Call.quiet : Call → Bool
  | .createProposal .. | .createCosponsoredProposal .. | .createConvictionProposal .. => false
  | .vote .. | .finalize _ | .beginExecution .. | .markExpired _ | .cancel .. | .veto .. => false
  | _ => true

/-- What a successful call does to proposals, votes and conviction tallies. -/
inductive Change (env : Env) : Call → System → System → Prop
  | quiet {c : Call} {s s' : System} (hquiet : c.quiet = true) (h : Undisturbed s s') :
      Change env c s s'
  | opened {c : Call} {s s' : System} {config : Config} {proposer : Address} {conviction : Bool}
      {p : Proposal} (hopens : c.opens = some (proposer, conviction))
      (h : Opens env config proposer conviction p s s') : Change env c s s'
  | voted {s s' : System} {voter : Address} {id support : ℕ} {p counted : Proposal}
      {votingPower : I128} (h : Votes env voter id support p counted votingPower s s') :
      Change env (.vote voter id support) s s'
  | queued {s s' : System} {id : ℕ} {p : Proposal} {total : I128}
      (hclosed : p.endLedger < env.sequence) (hactive : p.status = .active)
      (htotal : totalVotes p = some total) (hquorum : p.quorumRequired.val ≤ total.val)
      (hmajority : majorityFor p (s.governor.conviction id) = true)
      (h : Restates id p
        { p with queueLedger := env.sequence + p.timelockPeriod, status := .queued } s s') :
      Change env (.finalize id) s s'
  | failed {s s' : System} {id : ℕ} {p : Proposal} {total : I128}
      (hclosed : p.endLedger < env.sequence) (hactive : p.status = .active)
      (htotal : totalVotes p = some total)
      (hlost : ¬ (p.quorumRequired.val ≤ total.val ∧
        majorityFor p (s.governor.conviction id) = true))
      (h : Restates id p { p with status := .failed } s s') : Change env (.finalize id) s s'
  | executed {s s' : System} {executor : Address} {id : ℕ} {p : Proposal} {config : Config}
      (hconfig : s.governor.config = some config) (hunpaused : config.paused = false)
      (hqueued : p.status = .queued) (hready : p.queueLedger ≤ env.sequence)
      (hdeadline : 0 < config.executionGracePeriod →
        env.sequence ≤ p.queueLedger + config.executionGracePeriod)
      (h : Restates id p { p with status := .executed } s s') :
      Change env (.beginExecution executor id) s s'
  | cancelled {s s' : System} {caller : Address} {id : ℕ} {p : Proposal} {config : Config}
      (hconfig : s.governor.config = some config) (hauth : env.auth caller = true)
      (hrole : caller = p.proposer ∨ caller = config.admin) (hactive : p.status = .active)
      (hopen : env.sequence ≤ p.endLedger)
      (h : Restates id p { p with status := .cancelled } s s') :
      Change env (.cancel caller id) s s'
  | vetoed {s s' : System} {caller : Address} {id : ℕ} {reason : Text} {p : Proposal}
      {config : Config} (hconfig : s.governor.config = some config)
      (hauth : env.auth caller = true) (hrole : caller = config.guardian)
      (hqueued : p.status = .queued) (hearly : env.sequence < p.queueLedger)
      (h : Restates id p { p with status := .vetoed } s s') :
      Change env (.veto caller id reason) s s'
  | expired {s s' : System} {id : ℕ} {p : Proposal} {config : Config}
      (hconfig : s.governor.config = some config) (hqueued : p.status = .queued)
      (hgrace : 0 < config.executionGracePeriod)
      (hlate : p.queueLedger + config.executionGracePeriod < env.sequence)
      (h : Restates id p { p with status := .expired } s s') :
      Change env (.markExpired id) s s'

/-- Everything a successful call does. -/
structure Effect (env : Env) (c : Call) (s s' : System) : Prop where
  change : Change env c s s'
  config : Configures s s'
  token : Token.machine.Advances env.sequence s.token s'.token

end Quorum.Governor

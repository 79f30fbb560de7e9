import Mathlib.Data.List.Forall2
import Quorum.Governor.Runs
import Quorum.Sdk.Decoding

/-!
# Decoding events

Each event that a contract publishes is a topic, whose first entry names it, and a struct. The
decoder knows fifteen names, reads the struct of an event with such a name field by field, and
passes over all other events. What it makes of a known event is true to the struct. But ten of
the names that the two contracts publish under in the calls modelled here are not among the known
ones, nor is `upgraded`, and the typed event of an execution leaves the executor out.
-/

namespace Quorum.Sdk

open Foundation Governor

/-! ## What the contracts publish -/

/-- An event as the network hands it on. -/
structure RawContractEvent where
  topic : List ScVal
  value : ScVal

/-- A published event: its name, the further entries of its topic and the fields of its struct. -/
structure Publication where
  name : JsString
  keys : List ScVal
  fields : List (JsString × ScVal)

/-- The published event as the network hands it on. -/
def Publication.raw (p : Publication) : RawContractEvent := ⟨.symbol p.name :: p.keys, .map p.fields⟩

/-- What the token publishes. -/
def tokenPublication : Token.Event → Publication
  | .transfer src dst amount => ⟨units "transfer", [.address src, .address dst],
      [(units "from", .address src), (units "to", .address dst), (units "amount", .i128 amount)]⟩
  | .mint dst amount totalSupply => ⟨units "mint", [.address dst],
      [(units "to", .address dst), (units "amount", .i128 amount),
        (units "total_supply", .i128 totalSupply)]⟩
  | .burn src amount totalSupply => ⟨units "burn", [.address src],
      [(units "from", .address src), (units "amount", .i128 amount),
        (units "total_supply", .i128 totalSupply)]⟩
  | .approve owner spender amount expirationLedger =>
    ⟨units "approve", [.address owner, .address spender],
      [(units "owner", .address owner), (units "spender", .address spender),
        (units "amount", .i128 amount), (units "expiration_ledger", .u32 expirationLedger)]⟩
  | .adminTransferred previousAdmin newAdmin =>
    ⟨units "admin_transferred", [.address previousAdmin],
      [(units "previous_admin", .address previousAdmin), (units "new_admin", .address newAdmin)]⟩
  | .delegated delegator delegatee =>
    ⟨units "delegated", [.address delegator, .address delegatee],
      [(units "delegator", .address delegator), (units "delegatee", .address delegatee)]⟩
  | .staked owner amount unlockLedger => ⟨units "stake", [.address owner],
      [(units "owner", .address owner), (units "amount", .i128 amount),
        (units "unlock_ledger", .u32 unlockLedger)]⟩
  | .unstaked owner amount => ⟨units "unstake", [.address owner],
      [(units "owner", .address owner), (units "amount", .i128 amount)]⟩

/-- What the governor publishes. -/
def governorPublication : Governor.Event → Publication
  | .contractInitialized admin guardian token quorumBps votingPeriod timelockPeriod
      executionGracePeriod proposalThreshold => ⟨units "contract_initialized", [],
      [(units "admin", .address admin), (units "guardian", .address guardian),
        (units "token", .address token), (units "quorum_bps", .u32 quorumBps),
        (units "voting_period", .u32 votingPeriod), (units "timelock_period", .u32 timelockPeriod),
        (units "execution_grace_period", .u32 executionGracePeriod),
        (units "proposal_threshold", .i128 proposalThreshold)]⟩
  | .proposalCreated id proposer title startLedger endLedger quorumRequired metadataUri =>
    ⟨units "proposal_created", [.u64 id],
      [(units "id", .u64 id), (units "proposer", .address proposer), (units "title", .string title),
        (units "start_ledger", .u32 startLedger), (units "end_ledger", .u32 endLedger),
        (units "quorum_required", .i128 quorumRequired),
        (units "metadata_uri", .string metadataUri)]⟩
  | .contractPaused caller => ⟨units "contract_paused", [.address caller],
      [(units "caller", .address caller)]⟩
  | .contractUnpaused caller => ⟨units "contract_unpaused", [.address caller],
      [(units "caller", .address caller)]⟩
  | .voteCast proposalId voter support votingPower =>
    ⟨units "vote_cast", [.u64 proposalId, .address voter],
      [(units "proposal_id", .u64 proposalId), (units "voter", .address voter),
        (units "support", .u32 support), (units "voting_power", .i128 votingPower)]⟩
  | .delegated delegator delegatee =>
    ⟨units "delegated", [.address delegator, .address delegatee],
      [(units "delegator", .address delegator), (units "delegatee", .address delegatee)]⟩
  | .proposalFinalized id status forVotes againstVotes abstainVotes =>
    ⟨units "proposal_finalized", [.u64 id],
      [(units "id", .u64 id), (units "status", .variant (statusName status)),
        (units "for_votes", .i128 forVotes), (units "against_votes", .i128 againstVotes),
        (units "abstain_votes", .i128 abstainVotes)]⟩
  | .proposalQueued id queueLedger => ⟨units "proposal_queued", [.u64 id],
      [(units "id", .u64 id), (units "queue_ledger", .u32 queueLedger)]⟩
  | .proposalExecuted id executor => ⟨units "proposal_executed", [.u64 id],
      [(units "id", .u64 id), (units "executor", .address executor)]⟩
  | .proposalCancelled id caller => ⟨units "proposal_cancelled", [.u64 id],
      [(units "id", .u64 id), (units "caller", .address caller)]⟩
  | .proposalVetoed id guardian reason => ⟨units "proposal_vetoed", [.u64 id],
      [(units "id", .u64 id), (units "guardian", .address guardian),
        (units "reason", .string reason)]⟩
  | .guardianChanged previousGuardian newGuardian => ⟨units "guardian_changed", [],
      [(units "previous_guardian", .address previousGuardian),
        (units "new_guardian", .address newGuardian)]⟩
  | .proposalDepositUpdated amount => ⟨units "proposal_deposit_updated", [],
      [(units "amount", .i128 amount)]⟩
  | .proposerCooldownUpdated ledgers => ⟨units "proposer_cooldown_updated", [],
      [(units "ledgers", .u32 ledgers)]⟩
  | .depositRefunded id proposer amount => ⟨units "deposit_refunded", [.u64 id],
      [(units "id", .u64 id), (units "proposer", .address proposer),
        (units "amount", .i128 amount)]⟩
  | .depositForfeited id amount => ⟨units "deposit_forfeited", [.u64 id],
      [(units "id", .u64 id), (units "amount", .i128 amount)]⟩
  | .targetAllowlistUpdated admin target allowed =>
    ⟨units "target_allowlist_updated", [.address target],
      [(units "admin", .address admin), (units "target", .address target),
        (units "allowed", .bool allowed)]⟩
  | .proposalActionSet id target function => ⟨units "proposal_action_set", [.u64 id],
      [(units "id", .u64 id), (units "target", .address target),
        (units "function", .symbol (function.map UInt8.toUInt16))]⟩

/-- What `upgrade` publishes, the one function of the governor that runs leave out. -/
def upgradedPublication (newWasmHash : BitVec 256) : Publication :=
  ⟨units "upgraded", [], [(units "new_wasm_hash", .other newWasmHash.toNat)]⟩

/-! ## The decoder -/

/-- The names of the events that the decoder knows. -/
def eventTopics : List JsString :=
  [units "proposal_created", units "vote_cast", units "proposal_finalized",
    units "proposal_queued", units "proposal_executed", units "proposal_cancelled",
    units "transfer", units "mint", units "burn", units "approve", units "admin_transferred",
    units "delegated", units "contract_initialized", units "contract_paused",
    units "contract_unpaused"]

/-- A known topic whose value could not be decoded. -/
structure EventDecodeError where
  topic : JsString
  detail : JsString
deriving DecidableEq

/-- A typed event: its type and its other properties. -/
structure QuorumEvent where
  type : JsString
  properties : List (JsString × Native)

/-- The first topic entry as a string, if it is a symbol or a string. -/
def topicName (lib : Library) (topic : List ScVal) : Option JsString :=
  match topic.head? with
  | some (.symbol name) => some name
  | some (.string value) => some (lib.text value)
  | _ => none

/-- Decodes the event value as the struct the contract published. -/
def struct (lib : Library) (value : ScVal) (topic : JsString) : Except EventDecodeError Native :=
  match scValToNative lib value with
  | .error detail => .error ⟨topic, units "value is not decodable (" ++ detail ++ units ")"⟩
  | .ok (.object fields) => .ok (.object fields)
  | .ok _ => .error ⟨topic, units "value is not a struct"⟩

/-- The value of a field, which must be there. -/
def field (raw : Native) (key topic : JsString) : Except EventDecodeError Native :=
  match raw.property key with
  | .undefined | .null => .error ⟨topic, units "missing field \"" ++ key ++ units "\""⟩
  | value => .ok value

/-- The name of a unit enum variant, which is an array of one entry or the name itself. -/
def unitVariant (raw : Native) (key topic : JsString) : Except EventDecodeError Native := do
  match ← field raw key topic with
  | .array (.string name :: _) => .ok (.string name)
  | .string name => .ok (.string name)
  | _ => .error ⟨topic, units "field \"" ++ key ++ units "\" is not a unit enum variant"⟩

/-- How a property of a typed event is read: the value of a field, or the name of a variant. -/
inductive FieldRead where
  | field (property key : JsString)
  | unitVariant (property key : JsString)

/-- The reads of an event, one after the other. -/
def readAll (raw : Native) (topic : JsString) :
    List FieldRead → Except EventDecodeError (List (JsString × Native))
  | [] => .ok []
  | .field property key :: reads => do
    let value ← field raw key topic
    let properties ← readAll raw topic reads
    .ok ((property, value) :: properties)
  | .unitVariant property key :: reads => do
    let value ← unitVariant raw key topic
    let properties ← readAll raw topic reads
    .ok ((property, value) :: properties)

/-- The cases of the decoder. -/
def eventReads (topic : JsString) : Option (List FieldRead) :=
  if topic = units "delegated" then
    some [.field (units "delegator") (units "delegator"),
      .field (units "delegatee") (units "delegatee")]
  else if topic = units "contract_initialized" then
    some [.field (units "admin") (units "admin"), .field (units "guardian") (units "guardian"),
      .field (units "token") (units "token"), .field (units "quorumBps") (units "quorum_bps"),
      .field (units "votingPeriod") (units "voting_period"),
      .field (units "timelockPeriod") (units "timelock_period"),
      .field (units "executionGracePeriod") (units "execution_grace_period"),
      .field (units "proposalThreshold") (units "proposal_threshold")]
  else if topic = units "contract_paused" ∨ topic = units "contract_unpaused" then
    some [.field (units "caller") (units "caller")]
  else if topic = units "proposal_created" then
    some [.field (units "id") (units "id"), .field (units "proposer") (units "proposer"),
      .field (units "title") (units "title"), .field (units "startLedger") (units "start_ledger"),
      .field (units "endLedger") (units "end_ledger"),
      .field (units "quorumRequired") (units "quorum_required")]
  else if topic = units "vote_cast" then
    some [.field (units "proposalId") (units "proposal_id"), .field (units "voter") (units "voter"),
      .field (units "support") (units "support"),
      .field (units "votingPower") (units "voting_power")]
  else if topic = units "proposal_finalized" then
    some [.field (units "id") (units "id"), .unitVariant (units "status") (units "status"),
      .field (units "forVotes") (units "for_votes"),
      .field (units "againstVotes") (units "against_votes"),
      .field (units "abstainVotes") (units "abstain_votes")]
  else if topic = units "proposal_queued" then
    some [.field (units "id") (units "id"), .field (units "queueLedger") (units "queue_ledger")]
  else if topic = units "proposal_executed" then
    some [.field (units "id") (units "id")]
  else if topic = units "proposal_cancelled" then
    some [.field (units "id") (units "id"), .field (units "caller") (units "caller")]
  else if topic = units "transfer" then
    some [.field (units "from") (units "from"), .field (units "to") (units "to"),
      .field (units "amount") (units "amount")]
  else if topic = units "mint" then
    some [.field (units "to") (units "to"), .field (units "amount") (units "amount"),
      .field (units "totalSupply") (units "total_supply")]
  else if topic = units "burn" then
    some [.field (units "from") (units "from"), .field (units "amount") (units "amount"),
      .field (units "totalSupply") (units "total_supply")]
  else if topic = units "approve" then
    some [.field (units "owner") (units "owner"), .field (units "spender") (units "spender"),
      .field (units "amount") (units "amount"),
      .field (units "expirationLedger") (units "expiration_ledger")]
  else if topic = units "admin_transferred" then
    some [.field (units "previousAdmin") (units "previous_admin"),
      .field (units "newAdmin") (units "new_admin")]
  else none

/-- Decodes one raw event. An event with a topic that is not known decodes to nothing. -/
def decodeEvent (lib : Library) (event : RawContractEvent) :
    Except EventDecodeError (Option QuorumEvent) :=
  match topicName lib event.topic with
  | none => .ok none
  | some topic =>
    if topic ∈ eventTopics then do
      let raw ← struct lib event.value topic
      match eventReads topic with
      | some reads => do
        let properties ← readAll raw topic reads
        .ok (some ⟨topic, properties⟩)
      | none => .ok none
    else .ok none

/-- Decodes a batch of events, dropping those that decode to nothing. -/
def decodeEvents (lib : Library) : List RawContractEvent → Except EventDecodeError (List QuorumEvent)
  | [] => .ok []
  | event :: events => do
    let typed ← decodeEvent lib event
    let decoded ← decodeEvents lib events
    .ok (typed.toList ++ decoded)

/-! ## What a typed event says -/

/-- The name of a property: the words after the first one are written with a capital instead of an
underscore. -/
def camelCase : JsString → JsString
  | [] => []
  | [c] => [c]
  | c :: d :: rest => if c = 95 then (d - 32) :: camelCase rest else c :: camelCase (d :: rest)

/-- What a typed event has for a value of the struct. -/
def shown (lib : Library) : ScVal → Option Native
  | .address value => some (.string (lib.strkey value))
  | .i128 value => some (.bigint value.val)
  | .u64 value => some (.bigint value)
  | .u32 value => some (.number value)
  | .bool value => some (.bool value)
  | .string value => some (.string (lib.text value))
  | .vec [.symbol name] => some (.string name)
  | _ => none

/-- A free text, rather than an address, a number, a flag or a status. -/
def ScVal.isText : ScVal → Bool
  | .string _ | .symbol _ => true
  | _ => false

/-- A typed event with the name of the published one, whose properties all have the values of the
fields they stand for. -/
structure Renders (lib : Library) (p : Publication) (t : QuorumEvent) : Prop where
  type : t.type = p.name
  truthful : ∀ q ∈ t.properties,
    (p.fields.find? fun f => camelCase f.1 = q.1).bind (fun f => shown lib f.2) = some q.2

/-- A typed event with the name of the published one, and with a property for each of its fields
that is not a free text. -/
structure Carries (lib : Library) (p : Publication) (t : QuorumEvent) : Prop where
  type : t.type = p.name
  complete : ∀ f ∈ p.fields, f.2.isText = false →
    t.properties.lookup (camelCase f.1) = shown lib f.2

/-- The events of the token that the typed events have a form for. -/
def tokenMirrored : Token.Event → Bool
  | .staked .. | .unstaked .. => false
  | _ => true

/-- The events of the governor that the typed events have a full form for. -/
def governorMirrored : Governor.Event → Bool
  | .proposalExecuted .. => false
  | .proposalVetoed .. | .guardianChanged .. | .proposalDepositUpdated .. => false
  | .proposerCooldownUpdated .. | .depositRefunded .. | .depositForfeited .. => false
  | .targetAllowlistUpdated .. | .proposalActionSet .. => false
  | _ => true

variable {lib : Library} {p : Publication} {t : QuorumEvent}

/-- An event with a name that is not known decodes to nothing, whatever its value is. -/
theorem decodeEvent_unknown {event : RawContractEvent}
    (h : ∀ topic ∈ topicName lib event.topic, topic ∉ eventTopics) :
    decodeEvent lib event = .ok none := by
  rw [decodeEvent]
  cases hname : topicName lib event.topic with
  | none => rfl
  | some topic => exact if_neg (h topic hname)

/-- The decoder makes one typed event of the published one, and one that says all that it can say
if `full` holds. -/
structure Mirrors (lib : Library) (p : Publication) (full : Bool) : Prop where
  known : p.name ∈ eventTopics
  decoded : ∃ t, decodeEvent lib p.raw = .ok (some t) ∧ Renders lib p t ∧
    (Carries lib p t ↔ full = true)

/-- A publication is mirrored when its decoded event names it and shows its fields. -/
theorem Mirrors.of_rfl (hknown : p.name ∈ eventTopics) (hdecode : decodeEvent lib p.raw = .ok (some t))
    (htype : t.type = p.name)
    (htruthful : t.properties.map (fun q =>
      (p.fields.find? fun f => camelCase f.1 = q.1).bind fun f => shown lib f.2) =
      t.properties.map fun q => some q.2)
    (hcomplete : (p.fields.filter fun f => !f.2.isText).map
        (fun f => t.properties.lookup (camelCase f.1)) =
      (p.fields.filter fun f => !f.2.isText).map fun f => shown lib f.2) : Mirrors lib p true := by
  refine ⟨hknown, t, hdecode, ⟨htype, List.map_inj_left.mp htruthful⟩, iff_of_true ⟨htype, ?_⟩ rfl⟩
  intro f hf htext
  exact List.map_inj_left.mp hcomplete f (List.mem_filter.mpr ⟨hf, by rw [htext]; rfl⟩)

/-- A mirrored event of the token is decoded in full. -/
theorem mirrors_token {e : Token.Event} (h : tokenMirrored e = true) :
    Mirrors lib (tokenPublication e) true := by
  cases e with
  | transfer => exact .of_rfl (show units "transfer" ∈ eventTopics by decide) rfl rfl rfl rfl
  | mint => exact .of_rfl (show units "mint" ∈ eventTopics by decide) rfl rfl rfl rfl
  | burn => exact .of_rfl (show units "burn" ∈ eventTopics by decide) rfl rfl rfl rfl
  | approve => exact .of_rfl (show units "approve" ∈ eventTopics by decide) rfl rfl rfl rfl
  | adminTransferred =>
    exact .of_rfl (show units "admin_transferred" ∈ eventTopics by decide) rfl rfl rfl rfl
  | delegated => exact .of_rfl (show units "delegated" ∈ eventTopics by decide) rfl rfl rfl rfl
  | staked => contradiction
  | unstaked => contradiction

/-- An event of the token that is not mirrored has an unknown topic. -/
theorem unknown_token {e : Token.Event} (h : tokenMirrored e = false) :
    (tokenPublication e).name ∉ eventTopics := by
  cases e with
  | staked => exact show units "stake" ∉ eventTopics by decide
  | unstaked => exact show units "unstake" ∉ eventTopics by decide
  | _ => contradiction

/-- A mirrored event of the governor is decoded in full. -/
theorem mirrors_governor {e : Governor.Event} (h : governorMirrored e = true) :
    Mirrors lib (governorPublication e) true := by
  cases e with
  | contractInitialized =>
    exact .of_rfl (show units "contract_initialized" ∈ eventTopics by decide) rfl rfl rfl rfl
  | proposalCreated =>
    exact .of_rfl (show units "proposal_created" ∈ eventTopics by decide) rfl rfl rfl rfl
  | contractPaused =>
    exact .of_rfl (show units "contract_paused" ∈ eventTopics by decide) rfl rfl rfl rfl
  | contractUnpaused =>
    exact .of_rfl (show units "contract_unpaused" ∈ eventTopics by decide) rfl rfl rfl rfl
  | voteCast => exact .of_rfl (show units "vote_cast" ∈ eventTopics by decide) rfl rfl rfl rfl
  | delegated => exact .of_rfl (show units "delegated" ∈ eventTopics by decide) rfl rfl rfl rfl
  | proposalFinalized =>
    exact .of_rfl (show units "proposal_finalized" ∈ eventTopics by decide) rfl rfl rfl rfl
  | proposalQueued =>
    exact .of_rfl (show units "proposal_queued" ∈ eventTopics by decide) rfl rfl rfl rfl
  | proposalCancelled =>
    exact .of_rfl (show units "proposal_cancelled" ∈ eventTopics by decide) rfl rfl rfl rfl
  | _ => contradiction

/-- The typed event of an execution does not name the executor. -/
theorem mirrors_executed (id : ℕ) (executor : Address) :
    Mirrors lib (governorPublication (.proposalExecuted id executor)) false := by
  refine ⟨show units "proposal_executed" ∈ eventTopics by decide, _, rfl,
    ⟨rfl, List.map_inj_left.mp rfl⟩, iff_of_false ?_ Bool.false_ne_true⟩
  intro hcarries
  have hexecutor := hcarries.complete (units "executor", .address executor) (by
    exact List.mem_cons_of_mem _ List.mem_cons_self) rfl
  exact Option.some_ne_none _ hexecutor.symm

/-- Apart from executions, an event of the governor that is not mirrored has an unknown topic. -/
theorem unknown_governor {e : Governor.Event} (h : governorMirrored e = false)
    (hexecuted : ∀ id executor, e ≠ .proposalExecuted id executor) :
    (governorPublication e).name ∉ eventTopics := by
  cases e with
  | proposalExecuted id executor => exact absurd rfl (hexecuted id executor)
  | proposalVetoed => exact show units "proposal_vetoed" ∉ eventTopics by decide
  | guardianChanged => exact show units "guardian_changed" ∉ eventTopics by decide
  | proposalDepositUpdated => exact show units "proposal_deposit_updated" ∉ eventTopics by decide
  | proposerCooldownUpdated => exact show units "proposer_cooldown_updated" ∉ eventTopics by decide
  | depositRefunded => exact show units "deposit_refunded" ∉ eventTopics by decide
  | depositForfeited => exact show units "deposit_forfeited" ∉ eventTopics by decide
  | targetAllowlistUpdated => exact show units "target_allowlist_updated" ∉ eventTopics by decide
  | proposalActionSet => exact show units "proposal_action_set" ∉ eventTopics by decide
  | _ => contradiction

/-! ## A subscription -/

/-- An event of a subscription: one of the two contracts, or one of another contract. -/
inductive Observed where
  | token (e : Token.Event)
  | governor (e : Governor.Event)
  | upgraded (newWasmHash : BitVec 256)
  | foreign (event : RawContractEvent)

namespace Observed

/-- What the two contracts have published. -/
def publication : Observed → Option Publication
  | token e => some (tokenPublication e)
  | governor e => some (governorPublication e)
  | upgraded newWasmHash => some (upgradedPublication newWasmHash)
  | foreign _ => none

/-- The event as the network hands it on. -/
def raw : Observed → RawContractEvent
  | token e => (tokenPublication e).raw
  | governor e => (governorPublication e).raw
  | upgraded newWasmHash => (upgradedPublication newWasmHash).raw
  | foreign event => event

/-- There is a full typed form, or none is due. -/
def mirrored : Observed → Bool
  | token e => tokenMirrored e
  | governor e => governorMirrored e
  | upgraded _ => false
  | foreign _ => true

/-- The event of the token, if it is one. -/
def tokenEvent : Observed → Option Token.Event
  | token e => some e
  | _ => none

/-- The event of the governor, if it is one. -/
def governorEvent : Observed → Option Governor.Event
  | governor e => some e
  | _ => none

/-- What is observed of a publication is its raw form. -/
theorem raw_of_publication {o : Observed} (h : o.publication = some p) : o.raw = p.raw := by
  cases o with
  | foreign => contradiction
  | _ =>
    obtain rfl := Option.some.inj h
    rfl

/-- What is no publication comes from another contract. -/
theorem exists_foreign {o : Observed} (h : o.publication = none) : ∃ event, o = .foreign event := by
  cases o with
  | foreign event => exact ⟨event, rfl⟩
  | _ => contradiction

/-- A published event is mirrored by a typed one, or its name is not known. -/
theorem mirrors_or_unknown (lib : Library) {o : Observed} (h : o.publication = some p) :
    Mirrors lib p o.mirrored ∨ p.name ∉ eventTopics ∧ o.mirrored = false := by
  cases o with
  | token e =>
    obtain rfl := Option.some.inj h
    cases hmirrored : tokenMirrored e with
    | true =>
      refine .inl ?_
      rw [mirrored, hmirrored]
      exact mirrors_token hmirrored
    | false => exact .inr ⟨unknown_token hmirrored, hmirrored⟩
  | governor e =>
    obtain rfl := Option.some.inj h
    cases hmirrored : governorMirrored e with
    | true =>
      refine .inl ?_
      rw [mirrored, hmirrored]
      exact mirrors_governor hmirrored
    | false =>
      by_cases hexecuted : ∃ id executor, e = .proposalExecuted id executor
      · obtain ⟨id, executor, rfl⟩ := hexecuted
        exact .inl (mirrors_executed id executor)
      · refine .inr ⟨unknown_governor hmirrored fun id executor he => ?_, hmirrored⟩
        exact hexecuted ⟨id, executor, he⟩
  | upgraded newWasmHash =>
    obtain rfl := Option.some.inj h
    exact .inr ⟨show units "upgraded" ∉ eventTopics by decide, rfl⟩
  | foreign => contradiction

end Observed

/-- The events of other contracts have other names. -/
def Distinct (lib : Library) (observed : List Observed) : Prop :=
  ∀ event, .foreign event ∈ observed → ∀ topic ∈ topicName lib event.topic, topic ∉ eventTopics

/-- The decoder never fails on what the contracts publish. It makes one typed event of each event
with a known name, in order and true to it, and the typed events stand for all that was published
exactly if each published event has a full typed form. -/
theorem decodeEvents_spec {observed : List Observed} (h : Distinct lib observed) :
    ∃ typed, decodeEvents lib (observed.map Observed.raw) = .ok typed ∧
      List.Forall₂ (Renders lib) ((observed.filterMap Observed.publication).filter fun p =>
        p.name ∈ eventTopics) typed ∧
      (List.Forall₂ (Carries lib) (observed.filterMap Observed.publication) typed ↔
        ∀ o ∈ observed, o.mirrored = true) := by
  induction observed with
  | nil => exact ⟨[], rfl, .nil, by simp⟩
  | cons o observed ih =>
    obtain ⟨typed, hdecode, hrenders, hcarries⟩ :=
      ih fun event hmem => h event (List.mem_cons_of_mem o hmem)
    have hcons : ∀ first, decodeEvent lib o.raw = .ok first →
        decodeEvents lib ((o :: observed).map Observed.raw) = .ok (first.toList ++ typed) := by
      intro first hfirst
      rw [List.map_cons, decodeEvents, hfirst, hdecode]
      rfl
    cases hpublication : o.publication with
    | none =>
      obtain ⟨event, rfl⟩ := o.exists_foreign hpublication
      refine ⟨typed, hcons none (decodeEvent_unknown (h event List.mem_cons_self)), ?_, ?_⟩
      · rwa [List.filterMap_cons_none hpublication]
      · rw [List.filterMap_cons_none hpublication, hcarries, List.forall_mem_cons]
        exact (and_iff_right rfl).symm
    | some p =>
      rw [List.filterMap_cons_some hpublication]
      rcases o.mirrors_or_unknown lib hpublication with hmirrors | ⟨hunknown, hmirrored⟩
      · obtain ⟨hknown, t, ht, hrender, hfull⟩ := hmirrors
        refine ⟨t :: typed, hcons (some t) (o.raw_of_publication hpublication ▸ ht), ?_, ?_⟩
        · rw [List.filter_cons_of_pos (by simpa using hknown)]
          exact .cons hrender hrenders
        · rw [List.forall₂_cons, hfull, hcarries, List.forall_mem_cons]
      · refine ⟨typed, hcons none ?_, ?_, iff_of_false (fun hall => ?_) fun hall => ?_⟩
        · rw [o.raw_of_publication hpublication]
          refine decodeEvent_unknown fun topic htopic => ?_
          obtain rfl := Option.some.inj htopic
          exact hunknown
        · rwa [List.filter_cons_of_neg (by simpa using hunknown)]
        · -- There are too few typed events for all that was published.
          have hlength := hall.length_eq
          have hfilter := hrenders.length_eq
          have hle := List.length_filter_le (fun p : Publication => decide (p.name ∈ eventTopics))
            (observed.filterMap Observed.publication)
          rw [List.length_cons] at hlength
          omega
        · rw [hall o List.mem_cons_self] at hmirrored
          contradiction

/-- What a subscription to both contracts gets of a run: the events of each of them in the order in
which it has published them, mixed in any way with each other and with events of other contracts. -/
structure Observes (lib : Library) (s : System) (observed : List Observed) : Prop where
  token : observed.filterMap Observed.tokenEvent = s.token.events
  governor : observed.filterMap Observed.governorEvent = s.governor.events
  distinct : Distinct lib observed

/-- All that is observed is mirrored exactly when both logs are and no code was replaced. -/
theorem Observes.mirrored_iff {s : System} {observed : List Observed} (h : Observes lib s observed) :
    (∀ o ∈ observed, o.mirrored = true) ↔
      (∀ e ∈ s.token.events, tokenMirrored e = true) ∧
        (∀ e ∈ s.governor.events, governorMirrored e = true) ∧
        ∀ newWasmHash, .upgraded newWasmHash ∉ observed := by
  rw [← h.token, ← h.governor]
  simp only [List.mem_filterMap, forall_exists_index, and_imp]
  constructor
  · intro hall
    refine ⟨fun e o hmem he => ?_, fun e o hmem he => ?_, fun newWasmHash hmem => ?_⟩
    · cases o with
      | token e' =>
        obtain rfl := Option.some.inj he
        exact hall _ hmem
      | _ => contradiction
    · cases o with
      | governor e' =>
        obtain rfl := Option.some.inj he
        exact hall _ hmem
      | _ => contradiction
    · exact absurd (hall _ hmem) Bool.false_ne_true
  · rintro ⟨htoken, hgovernor, hupgraded⟩ o hmem
    cases o with
    | token e => exact htoken e _ hmem rfl
    | governor e => exact hgovernor e _ hmem rfl
    | upgraded newWasmHash => exact absurd hmem (hupgraded newWasmHash)
    | foreign => rfl

/-- For every run: the decoder never fails on the events of the two contracts. The events with a
known name become one typed event each, in order, under their names and with the values of the
fields that the typed events have, and the events of other contracts become nothing. Every
published event becomes a typed one with all of its addresses, amounts, numbers and statuses
exactly if none of them is a stake, an unstake, a veto, a change of the guardian, of the deposit,
of the cooldown or of the allowlist, a returned or forfeited deposit, a set action, an upgrade or
an execution. -/
theorem decodeEvents_complete_iff (lib : Library) (calls : List Invocation)
    {observed : List Observed} (h : Observes lib (machine.run System.empty calls) observed) :
    ∃ typed, decodeEvents lib (observed.map Observed.raw) = .ok typed ∧
      List.Forall₂ (Renders lib) ((observed.filterMap Observed.publication).filter fun p =>
        p.name ∈ eventTopics) typed ∧
      (List.Forall₂ (Carries lib) (observed.filterMap Observed.publication) typed ↔
        (∀ e ∈ (machine.run System.empty calls).token.events, tokenMirrored e = true) ∧
          (∀ e ∈ (machine.run System.empty calls).governor.events, governorMirrored e = true) ∧
          ∀ newWasmHash, .upgraded newWasmHash ∉ observed) := by
  obtain ⟨typed, hdecode, hrenders, hcarries⟩ := decodeEvents_spec h.distinct
  exact ⟨typed, hdecode, hrenders, hcarries.trans h.mirrored_iff⟩

/-- The events of a run, one contract after the other. -/
def publishedIn (calls : List Invocation) : List Observed :=
  (machine.run System.empty calls).token.events.map .token ++
    (machine.run System.empty calls).governor.events.map .governor

/-- The publications of a run can be observed as they are published. -/
theorem observes_publishedIn (lib : Library) (calls : List Invocation) :
    Observes lib (machine.run System.empty calls) (publishedIn calls) where
  token := by
    simp [publishedIn, List.filterMap_append, List.filterMap_map, Function.comp_def,
      Observed.tokenEvent]
  governor := by
    simp [publishedIn, List.filterMap_append, List.filterMap_map, Function.comp_def,
      Observed.governorEvent]
  distinct := by
    simp [Distinct, publishedIn]

/-- The events of a run up to the queue are decoded, one for each publication. -/
theorem decodeEvents_complete_queued :
    ∃ typed, decodeEvents plainNetwork.toLibrary
        ((publishedIn (passingCalls.take 5)).map Observed.raw) = .ok typed ∧
      List.Forall₂ (Carries plainNetwork.toLibrary)
        ((publishedIn (passingCalls.take 5)).filterMap Observed.publication) typed := by
  obtain ⟨typed, hdecode, -, hcarries⟩ := decodeEvents_complete_iff plainNetwork.toLibrary
    (passingCalls.take 5) (observes_publishedIn _ _)
  refine ⟨typed, hdecode, hcarries.mpr ⟨by decide, by decide, ?_⟩⟩
  simp [publishedIn]

/-- A holder stakes. -/
def stakingCalls : List Invocation :=
  launchCalls 3 ++ [.token ⟨.authorized 5, .stake (.account 1) (.ofNat 60) 6307200⟩]

/-- Three events are published, and two of them are decoded. -/
theorem decodeEvents_stake_dropped :
    machine.Scheduled 0 5 stakingCalls ∧ (publishedIn stakingCalls).length = 3 ∧
      Observes plainNetwork.toLibrary (machine.run System.empty stakingCalls)
        (publishedIn stakingCalls) ∧
      (decodeEvents plainNetwork.toLibrary ((publishedIn stakingCalls).map Observed.raw)).map
        List.length = .ok 2 := by
  refine ⟨by decide, by decide, observes_publishedIn _ _, by decide⟩

end Quorum.Sdk

import Quorum.Governor.Listing
import Quorum.Sdk.Errors
import Quorum.Sdk.Values

/-!
# Decoding proposals

`getAllProposals` asks the contract for the number of proposals, for each of them by its id, and
decodes what it gets. One proposal that cannot be decoded fails the whole listing. The decoder
knows seven statuses by name. Two of the statuses that the contract stores are not among them, so
the listing resolves exactly as long as no proposal has expired or been vetoed, and it is complete
then.
-/

namespace Quorum.Sdk

open Foundation Governor

/-! ## What the contract stores -/

/-- The name of a status variant. -/
def statusName : ProposalStatus → JsString
  | .active => units "Active"
  | .failed => units "Failed"
  | .queued => units "Queued"
  | .executed => units "Executed"
  | .cancelled => units "Cancelled"
  | .expired => units "Expired"
  | .vetoed => units "Vetoed"

/-- The name of a kind variant. -/
def kindName : ProposalKind → JsString
  | .signaling => units "Signaling"
  | .executable => units "Executable"

/-- A stored proposal as a host value. -/
def proposalVal (p : Governor.Proposal) : ScVal :=
  .map [(units "id", .u64 p.id), (units "proposer", .address p.proposer),
    (units "title", .string p.title), (units "description", .string p.description),
    (units "for_votes", .i128 p.forVotes), (units "against_votes", .i128 p.againstVotes),
    (units "abstain_votes", .i128 p.abstainVotes),
    (units "snapshot_ledger", .u32 p.snapshotLedger),
    (units "start_ledger", .u32 p.startLedger), (units "end_ledger", .u32 p.endLedger),
    (units "queue_ledger", .u32 p.queueLedger), (units "quorum_required", .i128 p.quorumRequired),
    (units "timelock_period", .u32 p.timelockPeriod),
    (units "status", .variant (statusName p.status)),
    (units "metadata_uri", .string p.metadataUri), (units "kind", .variant (kindName p.kind))]

/-! ## The decoder -/

/-- A decoded proposal. The fields have the types of the values they are copied from. -/
structure Proposal where
  id : Native
  proposer : Native
  title : Native
  description : Native
  forVotes : Native
  againstVotes : Native
  abstainVotes : Native
  snapshotLedger : Native
  startLedger : Native
  endLedger : Native
  queueLedger : Native
  quorumRequired : Native
  status : JsString

/-- The statuses that the client knows. -/
def proposalStatuses : List JsString :=
  [units "Pending", units "Active", units "Passed", units "Failed", units "Queued",
    units "Executed", units "Cancelled"]

/-- Unit enum variant `[name]` to a status, rejecting names the client does not know. The failure
is the message of the error. A value of another shape, which the type of `raw` rules out, fails
as one without an entry. -/
def decodeStatus : Native → Except JsString JsString
  | .array (.string name :: _) =>
    if name ∈ proposalStatuses then .ok name
    else .error (units "Unknown ProposalStatus variant: " ++ name)
  | _ => .error (units "Unknown ProposalStatus variant: undefined")

/-- A proposal from the object that the library makes of it. -/
def decodeProposal (raw : Native) : Except JsString Proposal := do
  let status ← decodeStatus (raw.property (units "status"))
  .ok {
    id := raw.property (units "id")
    proposer := raw.property (units "proposer")
    title := raw.property (units "title")
    description := raw.property (units "description")
    forVotes := raw.property (units "for_votes")
    againstVotes := raw.property (units "against_votes")
    abstainVotes := raw.property (units "abstain_votes")
    snapshotLedger := raw.property (units "snapshot_ledger")
    startLedger := raw.property (units "start_ledger")
    endLedger := raw.property (units "end_ledger")
    queueLedger := raw.property (units "queue_ledger")
    quorumRequired := raw.property (units "quorum_required")
    status := status }

/-! ## The reads -/

/-- What the client's reads depend on: the library, and the text in which the network reports the
failure of a simulated call. -/
structure Network extends Library where
  failure : GovernanceError → JsString

/-- Number of error codes that the client knows, which are those from 1 on. -/
def knownErrorCodes : ℕ := 34

/-- The code of a governance failure in the message of an error, if it is one the client knows. -/
def parseGovernanceError (message : JsString) : Option ℕ :=
  (contractErrorCode message).filter fun code => decide (1 ≤ code ∧ code ≤ knownErrorCodes)

/-- A simulated call of `get_proposal`. -/
def simulateGetProposal (net : Network) (s : Storage) (id : ℕ) : Except JsString Native :=
  match s.proposal id with
  | some p => scValToNative net.toLibrary (proposalVal p)
  | none => .error (units "Simulation of get_proposal failed: " ++ net.failure .proposalNotFound)

/-- A proposal by id, or nothing if the contract reports that there is none. -/
def getProposal (net : Network) (s : Storage) (id : ℕ) : Except JsString (Option Proposal) :=
  match (simulateGetProposal net s id).bind decodeProposal with
  | .ok proposal => .ok (some proposal)
  | .error message => if parseGovernanceError message = some 3 then .ok none else .error message

/-- The largest number of entries of an array. -/
def maxArrayLength : ℕ := 4294967295

/-- The loop that pushes the ids from `id` to `stop` on an array with the given room left. -/
def pushIds : ℕ → ℕ → ℕ → Except JsString (List ℕ)
  | 0, id, stop => if id ≤ stop then .error (units "Invalid array length") else .ok []
  | room + 1, id, stop =>
    if id ≤ stop then (pushIds room (toNumber (id + 1)) stop).map (id :: ·) else .ok []

/-- A number as an option: its text, and its value if it is an integer. -/
structure JsNumber where
  text : JsString
  integer : Option ℤ

/-- The value of a number that is a non-negative integer. -/
def JsNumber.natural (n : JsNumber) : Option ℕ :=
  n.integer.bind fun value => if value < 0 then none else some value.toNat

/-- `Promise.all`. Of several failures the one that comes first in time is reported; the first one
in order stands for it here. -/
def promiseAll {A : Type} : List (Except JsString A) → Except JsString (List A)
  | [] => .ok []
  | outcome :: outcomes => do
    let first ← outcome
    let rest ← promiseAll outcomes
    .ok (first :: rest)

/-- The proposals of a window, from the one after `offset` on, and all that are left without a
limit. -/
def fetchProposalWindow (net : Network) (s : Storage) (offset : JsNumber)
    (limit : Option JsNumber) : Except JsString (List Proposal) :=
  match offset.natural with
  | none => .error (units "Invalid offset " ++ offset.text ++ units ": must be a non-negative integer")
  | some first =>
    match limit.map fun n => (n, n.natural) with
    | some (n, none) =>
      .error (units "Invalid limit " ++ n.text ++ units ": must be a non-negative integer")
    | some (_, some 0) => .ok []
    | window => do
      let total := toNumber (getProposalCount s)
      if total ≤ first then .ok []
      else do
        let stop := match window with
          | some (_, some size) => min total (toNumber (first + size))
          | _ => total
        let ids ← pushIds maxArrayLength (toNumber (first + 1)) stop
        let proposals ← promiseAll (ids.map (getProposal net s))
        .ok (proposals.filterMap id)

/-- The number 0. -/
def JsNumber.zero : JsNumber := ⟨units "0", some 0⟩

/-- Which proposals to get. -/
structure GetProposalsOptions where
  offset : Option JsNumber
  limit : Option JsNumber

/-- All proposals, or a single window of them. -/
def getAllProposals (net : Network) (s : Storage) (options : Option GetProposalsOptions) :
    Except JsString (List Proposal) :=
  fetchProposalWindow net s ((options.bind GetProposalsOptions.offset).getD .zero)
    (options.bind GetProposalsOptions.limit)

/-! ## Numbers and ids -/

/-- The loop pushes the ids one after the other, as long as there is room for them. -/
theorem pushIds_eq (room id stop : ℕ) (h : id + room < 2 ^ 53) :
    pushIds room id stop = if stop < id + room then .ok (List.range' id (stop + 1 - id))
      else .error (units "Invalid array length") := by
  induction room generalizing id with
  | zero =>
    rw [pushIds, Nat.add_zero]
    by_cases hle : id ≤ stop
    · rw [if_pos hle, if_neg hle.not_gt]
    · rw [if_neg hle, if_pos (not_le.mp hle), Nat.sub_eq_zero_of_le (by omega)]
      rfl
  | succ room ih =>
    rw [pushIds]
    by_cases hle : id ≤ stop
    · rw [if_pos hle, toNumber_of_le (by omega), ih (id + 1) (by omega),
        show id + 1 + room = id + (room + 1) by omega]
      split
      · rw [show stop + 1 - id = stop + 1 - (id + 1) + 1 by omega, List.range'_succ]
        rfl
      · rfl
    · rw [if_neg hle, if_pos (by omega), Nat.sub_eq_zero_of_le (by omega)]
      rfl

/-! ## One proposal -/

/-- The decoded entry shows the stored proposal, with the name of its status. -/
structure Shows (lib : Library) (p : Governor.Proposal) (q : Proposal) : Prop where
  id : q.id = .bigint p.id
  proposer : q.proposer = .string (lib.strkey p.proposer)
  title : q.title = .string (lib.text p.title)
  description : q.description = .string (lib.text p.description)
  forVotes : q.forVotes = .bigint p.forVotes.val
  againstVotes : q.againstVotes = .bigint p.againstVotes.val
  abstainVotes : q.abstainVotes = .bigint p.abstainVotes.val
  snapshotLedger : q.snapshotLedger = .number p.snapshotLedger
  startLedger : q.startLedger = .number p.startLedger
  endLedger : q.endLedger = .number p.endLedger
  queueLedger : q.queueLedger = .number p.queueLedger
  quorumRequired : q.quorumRequired = .bigint p.quorumRequired.val
  status : q.status = statusName p.status

/-- The statuses with a name that the client knows. -/
def Known (status : ProposalStatus) : Prop := status ≠ .expired ∧ status ≠ .vetoed

instance (status : ProposalStatus) : Decidable (Known status) := inferInstanceAs (Decidable (_ ∧ _))

variable {net : Network} {s : Storage} {id : ℕ} {p : Governor.Proposal}

/-- A known status is decoded to its name, and any other one throws. -/
theorem decodeStatus_variant (status : ProposalStatus) :
    decodeStatus (.array [.string (statusName status)]) = if Known status then
      .ok (statusName status)
      else .error (units "Unknown ProposalStatus variant: " ++ statusName status) := by
  cases status <;> rfl

/-- What the decoder makes of a stored proposal. -/
theorem decodeProposal_proposalVal (lib : Library) (p : Governor.Proposal) :
    ∃ q, Shows lib p q ∧ (scValToNative lib (proposalVal p)).bind decodeProposal =
      if Known p.status then .ok q
      else .error (units "Unknown ProposalStatus variant: " ++ statusName p.status) := by
  refine ⟨⟨.bigint p.id, .string (lib.strkey p.proposer), .string (lib.text p.title),
    .string (lib.text p.description), .bigint p.forVotes.val, .bigint p.againstVotes.val,
    .bigint p.abstainVotes.val, .number p.snapshotLedger, .number p.startLedger,
    .number p.endLedger, .number p.queueLedger, .bigint p.quorumRequired.val,
    statusName p.status⟩, ⟨rfl, rfl, rfl, rfl, rfl, rfl, rfl, rfl, rfl, rfl, rfl, rfl, rfl⟩, ?_⟩
  change (decodeStatus (.array [.string (statusName p.status)])).bind _ = _
  rw [decodeStatus_variant]
  split <;> rfl

/-- A stored proposal is shown if its status is known. -/
theorem getProposal_known (net : Network) (hstored : s.proposal id = some p) (hknown : Known p.status) :
    ∃ q, getProposal net s id = .ok (some q) ∧ Shows net.toLibrary p q := by
  obtain ⟨q, hshows, hdecode⟩ := decodeProposal_proposalVal net.toLibrary p
  refine ⟨q, ?_, hshows⟩
  rw [getProposal, simulateGetProposal, hstored, hdecode, if_pos hknown]

/-- And its decoding fails otherwise. The message is not one of a contract failure. -/
theorem getProposal_unknown (hstored : s.proposal id = some p) (hunknown : ¬ Known p.status) :
    getProposal net s id =
      .error (units "Unknown ProposalStatus variant: " ++ statusName p.status) := by
  obtain ⟨q, -, hdecode⟩ := decodeProposal_proposalVal net.toLibrary p
  have hparse : parseGovernanceError
      (units "Unknown ProposalStatus variant: " ++ statusName p.status) = none := by
    cases p.status <;> decide
  rw [getProposal, simulateGetProposal, hstored, hdecode, if_neg hunknown]
  simp [hparse]

/-! ## The listing -/

/-- When `Promise.all` resolves, so has each of its outcomes. -/
theorem exists_of_promiseAll {A : Type} {outcomes : List (Except JsString A)} {values : List A}
    (h : promiseAll outcomes = .ok values) {outcome : Except JsString A}
    (hmem : outcome ∈ outcomes) : ∃ value, outcome = .ok value := by
  induction outcomes generalizing values with
  | nil => contradiction
  | cons first rest ih =>
    cases first with
    | error message => contradiction
    | ok value =>
      rcases List.mem_cons.mp hmem with rfl | hrest
      · exact ⟨value, rfl⟩
      · cases hvalues : promiseAll rest with
        | error message =>
          rw [promiseAll, hvalues] at h
          contradiction
        | ok values => exact ih hvalues hrest

/-- Without options the listing asks for the ids from 1 up to the count. -/
theorem getAllProposals_eq (hcount : getProposalCount s ≤ maxArrayLength) :
    getAllProposals net s none =
      (promiseAll ((List.range' 1 (getProposalCount s)).map (getProposal net s))).map
        fun proposals => proposals.filterMap fun q => q := by
  have hsmall : getProposalCount s < 2 ^ 53 := hcount.trans_lt (by decide)
  rcases Nat.eq_zero_or_pos (getProposalCount s) with hzero | hpos
  · simp [getAllProposals, fetchProposalWindow, JsNumber.zero, JsNumber.natural, hzero,
      toNumber_of_le, promiseAll, Except.map]
  · simp only [getAllProposals, fetchProposalWindow, Option.bind_none, Option.getD_none,
      JsNumber.zero, JsNumber.natural, Option.bind_some, lt_irrefl, if_false, Int.toNat_zero,
      Option.map_none, toNumber_of_le hsmall, if_neg (not_le.mpr hpos)]
    rw [toNumber_of_le (by decide), pushIds_eq _ _ _ (by decide), if_pos (by omega)]
    simp only [bind, Except.bind, Nat.zero_add, Nat.add_sub_cancel]
    cases promiseAll ((List.range' 1 (getProposalCount s)).map (getProposal net s)) with
    | error message => rfl
    | ok proposals => rfl

/-- More ids than an array holds cannot be asked for. -/
theorem getAllProposals_overfull (hcount : maxArrayLength < getProposalCount s) :
    getAllProposals net s none = .error (units "Invalid array length") := by
  have htotal : maxArrayLength < toNumber (getProposalCount s) := by
    rcases Nat.lt_or_ge (getProposalCount s) (2 ^ 53) with hlt | hge
    · rwa [toNumber_of_le hlt]
    · exact lt_of_lt_of_le (by decide) (le_toNumber hge)
  simp only [getAllProposals, fetchProposalWindow, Option.bind_none, Option.getD_none,
    JsNumber.zero, JsNumber.natural, Option.bind_some, lt_irrefl, if_false, Int.toNat_zero,
    Option.map_none, if_neg (show ¬ toNumber (getProposalCount s) ≤ 0 by omega)]
  rw [toNumber_of_le (by decide), pushIds_eq _ _ _ (by decide), if_neg (by omega)]
  rfl

/-- A listing that resolves has asked for ids whose proposals all have a known status. -/
theorem known_of_resolved {ids : List ℕ} {proposals : List (Option Proposal)}
    (h : promiseAll (ids.map (getProposal net s)) = .ok proposals) (hmem : id ∈ ids)
    (hstored : s.proposal id = some p) : Known p.status := by
  by_contra hunknown
  obtain ⟨q, hget⟩ := exists_of_promiseAll h (List.mem_map_of_mem hmem)
  rw [getProposal_unknown hstored hunknown] at hget
  contradiction

/-- If all statuses are known, the listing shows what is stored under the ids asked for. -/
theorem resolves_of_known (net : Network) {ids : List ℕ}
    (hids : ∀ id ∈ ids, ∃ p, s.proposal id = some p ∧ Known p.status) :
    ∃ proposals, promiseAll (ids.map (getProposal net s)) = .ok proposals ∧
      List.Forall₂ (Shows net.toLibrary) (ids.filterMap s.proposal)
        (proposals.filterMap fun q => q) := by
  induction ids with
  | nil => exact ⟨[], rfl, .nil⟩
  | cons id ids ih =>
    obtain ⟨p, hstored, hknown⟩ := hids id List.mem_cons_self
    obtain ⟨q, hget, hshows⟩ := getProposal_known net hstored hknown
    obtain ⟨proposals, hall, hrest⟩ := ih fun id' hid' => hids id' (List.mem_cons_of_mem id hid')
    refine ⟨some q :: proposals, ?_, ?_⟩
    · rw [List.map_cons, promiseAll, hget, hall]
      rfl
    · rw [List.filterMap_cons_some hstored]
      exact .cons hshows hrest

/-- Where the listing resolves, the ids fit on an array and every status is known. -/
theorem known_of_getAllProposals (hindexed : Indexed s) {listed : List Proposal}
    (h : getAllProposals net s none = .ok listed) :
    getProposalCount s ≤ maxArrayLength ∧ ∀ id p, s.proposal id = some p → Known p.status := by
  have hcount : getProposalCount s ≤ maxArrayLength := by
    by_contra hover
    rw [getAllProposals_overfull (not_le.mp hover)] at h
    contradiction
  refine ⟨hcount, fun id p hstored => ?_⟩
  rw [getAllProposals_eq hcount] at h
  cases hall : promiseAll ((List.range' 1 (getProposalCount s)).map (getProposal net s)) with
  | error message =>
    rw [hall] at h
    contradiction
  | ok proposals =>
    obtain ⟨hone, hle⟩ := (hindexed.stored id).mp (by rw [hstored, Option.isSome_some])
    exact known_of_resolved hall (List.mem_range'_1.mpr ⟨hone, by omega⟩) hstored

/-- And there it resolves, to what is stored under the ids. -/
theorem getAllProposals_of_known (net : Network) (hindexed : Indexed s)
    (hcount : getProposalCount s ≤ maxArrayLength)
    (hknown : ∀ id p, s.proposal id = some p → Known p.status) :
    ∃ listed, getAllProposals net s none = .ok listed ∧
      List.Forall₂ (Shows net.toLibrary) (page s.proposal 1 (getProposalCount s)) listed := by
  have hasked : ∀ id ∈ List.range' 1 (getProposalCount s),
      ∃ p, s.proposal id = some p ∧ Known p.status := by
    intro id hid
    obtain ⟨hone, hlt⟩ := List.mem_range'_1.mp hid
    obtain ⟨p, hstored⟩ :=
      Option.isSome_iff_exists.mp ((hindexed.stored id).mpr ⟨hone, by omega⟩)
    exact ⟨p, hstored, hknown id p hstored⟩
  obtain ⟨proposals, hall, hshows⟩ := resolves_of_known net hasked
  refine ⟨_, ?_, hshows⟩
  rw [getAllProposals_eq hcount, hall]
  rfl

/-- For every reachable state: a single proposal is decoded, and shown as it is stored, exactly if
it has not expired and has not been vetoed. The listing resolves exactly if that holds of all
proposals, and if an array can hold their ids. It is complete and in order then, and it shows every
proposal as it is stored. -/
theorem getAllProposals_resolves_iff (net : Network) {start now : ℕ} {calls : List Invocation}
    (hcalls : machine.Scheduled start now calls) :
    let s := (machine.run System.empty calls).governor
    (∀ id p, s.proposal id = some p →
      ((∃ q, getProposal net s id = .ok (some q) ∧ Shows net.toLibrary p q) ↔
        p.status ≠ .expired ∧ p.status ≠ .vetoed)) ∧
    ((∃ listed, getAllProposals net s none = .ok listed) ↔
      getProposalCount s < 2 ^ 32 ∧
        ∀ id p, s.proposal id = some p → p.status ≠ .expired ∧ p.status ≠ .vetoed) ∧
    ∀ listed, getAllProposals net s none = .ok listed →
      ∃ stored, Lists Governor.Proposal.id s.proposal (fun _ => True) stored ∧
        List.Forall₂ (Shows net.toLibrary) stored listed := by
  intro s
  have hindexed : Indexed s := Indexed.run hcalls
  have hids : ∀ id p, s.proposal id = some p → p.id = id := (wellFormed_run hcalls).ids
  have hlists : Lists Governor.Proposal.id s.proposal (fun _ => True)
      (page s.proposal 1 (getProposalCount s)) := by
    apply (lists_page hids).of_iff
    intro p hstored
    obtain ⟨hone, hle⟩ := (hindexed.stored p.id).mp (by rw [hstored, Option.isSome_some])
    exact iff_true_intro ⟨hone, by omega⟩
  refine ⟨fun id p hstored => ⟨?_, getProposal_known net hstored⟩, ⟨?_, ?_⟩, ?_⟩
  · rintro ⟨q, hget, -⟩
    by_contra hunknown
    rw [getProposal_unknown hstored hunknown] at hget
    contradiction
  · rintro ⟨listed, hlisted⟩
    obtain ⟨hcount, hknown⟩ := known_of_getAllProposals hindexed hlisted
    exact ⟨Nat.lt_succ_of_le hcount, hknown⟩
  · rintro ⟨hcount, hknown⟩
    obtain ⟨listed, hlisted, -⟩ :=
      getAllProposals_of_known net hindexed (Nat.le_of_lt_succ hcount) hknown
    exact ⟨listed, hlisted⟩
  · intro listed hlisted
    obtain ⟨hcount, hknown⟩ := known_of_getAllProposals hindexed hlisted
    obtain ⟨listed', hlisted', hshows⟩ := getAllProposals_of_known net hindexed hcount hknown
    obtain rfl := Except.ok.inj (hlisted.symm.trans hlisted')
    exact ⟨_, hlists, hshows⟩

/-- A network that writes texts by their bytes and addresses by their numbers. -/
def plainNetwork : Network where
  text := fun text => text.map UInt8.toUInt16
  strkey
    | .account key => 71 :: decimalUnits key.toNat
    | .contract hash => 67 :: decimalUnits hash.toNat
  other := fun _ => .ok .undefined
  failure := fun _ => units "HostError: Error(Contract, #3)"

/-- One proposal that has been executed. -/
theorem getAllProposals_resolves_passing :
    ∃ listed, getAllProposals plainNetwork (machine.run System.empty passingCalls).governor none =
      .ok listed := by
  have hcalls : machine.Scheduled 0 14 passingCalls := by decide
  have hindexed : Indexed (machine.run System.empty passingCalls).governor := Indexed.run hcalls
  have hcount : getProposalCount (machine.run System.empty passingCalls).governor = 1 := by decide
  refine (getAllProposals_resolves_iff plainNetwork hcalls).2.1.mpr ⟨by rw [hcount]; decide, ?_⟩
  intro id p hstored
  obtain ⟨hone, hle⟩ := (hindexed.stored id).mp (by rw [hstored, Option.isSome_some])
  obtain rfl : id = 1 := by omega
  have hstatus : statusOf (machine.run System.empty passingCalls) 1 = some .executed := by decide
  rw [statusOf, hstored, Option.map_some, Option.some.injEq] at hstatus
  rw [hstatus]
  decide

/-- Two proposals are opened, and the first one is queued and vetoed. -/
def vetoedCalls : List Invocation :=
  launchCalls 3 ++ [.governor (.authorized 5) (.createProposal (.account 1) [84] [] []),
    .governor (.authorized 6) (.vote (.account 1) 1 1),
    .governor (.authorized 7) (.createProposal (.account 2) [85] [] []),
    .governor (.authorized 10) (.finalize 1),
    .governor (.authorized 11) (.veto (.account 2) 1 [86])]

/-- The veto fails the listing of both of them. -/
theorem getAllProposals_vetoed :
    machine.Scheduled 0 11 vetoedCalls ∧
      getProposalCount (machine.run System.empty vetoedCalls).governor = 2 ∧
      ∀ net : Network, ¬ ∃ listed,
        getAllProposals net (machine.run System.empty vetoedCalls).governor none = .ok listed := by
  have hcalls : machine.Scheduled 0 11 vetoedCalls := by decide
  refine ⟨hcalls, by decide, ?_⟩
  rintro net ⟨listed, hlisted⟩
  have hstatus : statusOf (machine.run System.empty vetoedCalls) 1 = some .vetoed := by decide
  obtain ⟨p, hstored, hvetoed⟩ := Option.map_eq_some_iff.mp hstatus
  have hindexed : Indexed (machine.run System.empty vetoedCalls).governor := Indexed.run hcalls
  exact ((known_of_getAllProposals hindexed hlisted).2 1 p hstored).2 hvetoed

end Quorum.Sdk

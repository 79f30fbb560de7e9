import Quorum.Foundation.DateTexts
import Quorum.Sdk.CacheKey
import Quorum.Sdk.Paging

/-!
# Proposals of the site

The site reads its proposals through the client and turns each of them into what its pages show:
an id that begins with `QIP-`, a status in lower case, dates that are estimated from the ledgers
and the time of day, and votes as numbers. The listing is newest first. The id leads back to the
proposal, at whatever height it is looked up.
-/

namespace Quorum.Frontend

open Foundation Governor
open Sdk (Native Library Network countAt Known statusName)
open Sdk.Client (chainAt)

/-! ## What the pages show -/

structure Vote where
  voter : JsString
  choice : JsString
  weight : ℤ
  timestamp : JsString
  deriving DecidableEq

structure ProposalAction where
  description : JsString
  contractAddress : JsString
  functionName : JsString
  deriving DecidableEq

/-- A proposal as the pages of the site know it. -/
structure UiProposal where
  id : JsString
  title : JsString
  description : JsString
  proposer : JsString
  status : JsString
  startTime : JsString
  endTime : JsString
  snapshotLedger : ℕ
  forVotes : ℤ
  againstVotes : ℤ
  abstainVotes : ℤ
  quorumRequired : ℤ
  actions : List ProposalAction
  votes : List Vote
  category : JsString
  deriving DecidableEq

/-- A proposal of the client, by the types of its fields. -/
structure ChainProposal where
  id : ℤ
  proposer : JsString
  title : JsString
  description : JsString
  forVotes : ℤ
  againstVotes : ℤ
  abstainVotes : ℤ
  snapshotLedger : ℕ
  startLedger : ℕ
  endLedger : ℕ
  quorumRequired : ℤ
  status : JsString

/-- The fields of a proposal with the types that the client promises. -/
def typed (p : Sdk.Proposal) : Option ChainProposal :=
  match p.id, p.proposer, p.title, p.description, p.forVotes, p.againstVotes, p.abstainVotes,
    p.snapshotLedger, p.startLedger, p.endLedger, p.quorumRequired with
  | .bigint id, .string proposer, .string title, .string description, .bigint forVotes,
    .bigint againstVotes, .bigint abstainVotes, .number snapshotLedger, .number startLedger,
    .number endLedger, .bigint quorumRequired =>
    some ⟨id, proposer, title, description, forVotes, againstVotes, abstainVotes, snapshotLedger,
      startLedger, endLedger, quorumRequired, p.status⟩
  | _, _, _, _, _, _, _, _, _, _, _ => none

/-- `Number(n)` of a big integer. -/
def bigintNumber : ℤ → ℤ
  | .ofNat n => Sdk.toNumber n
  | .negSucc n => -Sdk.toNumber (n + 1)

/-- `text.padStart(length, "0")`. -/
def padStartUnits (length : ℕ) (text : JsString) : JsString :=
  List.replicate (length - text.length) 48 ++ text

/-- `text.toLowerCase()` of a text of plain letters, as the names of the statuses are. -/
def toLowerCase (text : JsString) : JsString :=
  text.map fun c => if 65 ≤ c && c ≤ 90 then c + 32 else c

/-- Seconds from one ledger to the next, on the average. -/
def secondsPerLedger : ℤ := 5

/-- The estimated time of a ledger, for a clock that shows `now`. -/
def ledgerTime (latestLedger : ℕ) (now : ℤ) (ledger : ℕ) : Except JsString JsString :=
  match toISOString (now + ((ledger : ℤ) - latestLedger) * secondsPerLedger * 1000) with
  | some text => .ok text
  | none => .error (units "Invalid time value")

/-- What the pages show of a proposal. A value whose fields are not of their types, which the
types of the client rule out, fails. -/
def toUiProposal (p : Sdk.Proposal) (latestLedger : ℕ) (now : ℤ) : Except JsString UiProposal :=
  match typed p with
  | none => .error (units "Cannot read properties of undefined")
  | some p => do
    let startTime ← ledgerTime latestLedger now p.startLedger
    let endTime ← ledgerTime latestLedger now p.endLedger
    .ok {
      id := units "QIP-" ++ padStartUnits 3 (Sdk.bigintText p.id)
      title := p.title
      description := p.description
      proposer := p.proposer
      status := if p.status = units "Queued" then units "passed" else toLowerCase p.status
      startTime := startTime
      endTime := endTime
      snapshotLedger := p.snapshotLedger
      forVotes := bigintNumber p.forVotes
      againstVotes := bigintNumber p.againstVotes
      abstainVotes := bigintNumber p.abstainVotes
      quorumRequired := bigintNumber p.quorumRequired
      category := units "General"
      actions := []
      votes := [] }

/-- The proposals of the site, each with the time at which it is turned into one. -/
def toUiProposals (latestLedger : ℕ) (clock : ℕ → ℤ) :
    ℕ → List Sdk.Proposal → Except JsString (List UiProposal)
  | _, [] => .ok []
  | index, p :: proposals => do
    let first ← toUiProposal p latestLedger (clock index)
    let rest ← toUiProposals latestLedger clock (index + 1) proposals
    .ok (first :: rest)

/-- All proposals, newest first. Every request may find the contract in another state. -/
def getProposals (net : Network) (counted : Storage) (seen : ℕ → Storage)
    (latestLedger : Except JsString ℕ) (clock : ℕ → ℤ) : Except JsString (List UiProposal) := do
  let proposals ← Sdk.fetchWindowAcross net counted seen .zero none
  let latestLedger ← latestLedger
  let shown ← toUiProposals latestLedger clock 0 proposals
  .ok shown.reverse

/-- The number in an id of the site: `/^QIP-(\d+)$/`. -/
def proposalNumber (id : JsString) : Option ℕ :=
  let digits := id.drop 4
  if id.take 4 = units "QIP-" ∧ digits ≠ [] ∧ digits.all isDigitUnit then some (unitsValue digits)
  else none

/-- A proposal by its id on the site. The library refuses a number of more than 64 bits, with the
text `outOfRange`. -/
def getProposalById (net : Network) (outOfRange : JsString) (s : Storage)
    (latestLedger : Except JsString ℕ) (now : ℤ) (id : JsString) :
    Except JsString (Option UiProposal) :=
  match proposalNumber id with
  | none => .ok none
  | some number => do
    let proposal ←
      if number < 2 ^ 64 then Sdk.getProposal net s number else .error outOfRange
    let latestLedger ← latestLedger
    match proposal with
    | none => .ok none
    | some p => (toUiProposal p latestLedger now).map some

/-! ## Ids -/

/-- The id of a proposal on the site. -/
def proposalId (n : ℕ) : JsString := units "QIP-" ++ paddedUnits 3 n

/-- A natural number is written in its decimal digits. -/
theorem bigintText_natCast (n : ℕ) : Sdk.bigintText n = decimalUnits n := by
  rw [Sdk.bigintText, if_neg (by omega), Int.natAbs_natCast]

/-- Padding decimal digits gives the padded number. -/
theorem padStartUnits_decimalUnits (width n : ℕ) :
    padStartUnits width (decimalUnits n) = paddedUnits width n := by
  rw [padStartUnits, paddedUnits, padStart, List.map_append, List.map_replicate, decimalUnits,
    List.length_map]
  rfl

/-- The id leads back to the number. -/
theorem proposalNumber_proposalId (n : ℕ) : proposalNumber (proposalId n) = some n := by
  have hprefix : (units "QIP-").length = 4 := by decide
  have hall : (paddedUnits 3 n).all isDigitUnit = true :=
    List.all_eq_true.mpr fun _ => isDigitUnit_paddedUnits
  have hne : paddedUnits 3 n ≠ [] := by
    intro hnil
    have hlength := congrArg List.length hnil
    simp only [paddedUnits, padStart, List.length_map, List.length_append, List.length_replicate,
      List.length_nil] at hlength
    omega
  rw [proposalNumber, proposalId, List.take_left' hprefix, List.drop_left' hprefix]
  simp only [hall, hne, ne_eq, not_false_eq_true, and_self, if_true, unitsValue_paddedUnits]

/-- Different proposals have different ids on the site. -/
theorem proposalId_injective : Function.Injective proposalId := fun m n h =>
  Option.some.inj (by rw [← proposalNumber_proposalId m, h, proposalNumber_proposalId n])

/-! ## One proposal -/

/-- The status that the pages show. -/
def siteStatus (status : ProposalStatus) : JsString :=
  if status = .queued then units "passed" else toLowerCase (statusName status)

/-- The time at which a ledger is estimated to close. -/
def estimatedTime (latestLedger : ℕ) (now : ℤ) (ledger : ℕ) : ℤ :=
  now + ((ledger : ℤ) - latestLedger) * secondsPerLedger * 1000

/-- The dates of the proposal's window can be shown. -/
def Dated (latestLedger : ℕ) (now : ℤ) (p : Governor.Proposal) : Prop :=
  |estimatedTime latestLedger now p.startLedger| ≤ maxTime ∧
    |estimatedTime latestLedger now p.endLedger| ≤ maxTime

/-- The pages show the stored proposal, with dates as they are estimated at the time `now`. -/
structure Displays (lib : Library) (latestLedger : ℕ) (now : ℤ) (p : Governor.Proposal)
    (shown : UiProposal) : Prop where
  id : shown.id = proposalId p.id
  title : shown.title = lib.text p.title
  description : shown.description = lib.text p.description
  proposer : shown.proposer = lib.strkey p.proposer
  status : shown.status = siteStatus p.status
  startTime : parseISO shown.startTime = some (estimatedTime latestLedger now p.startLedger)
  endTime : parseISO shown.endTime = some (estimatedTime latestLedger now p.endLedger)
  snapshotLedger : shown.snapshotLedger = p.snapshotLedger
  forVotes : shown.forVotes = bigintNumber p.forVotes.val
  againstVotes : shown.againstVotes = bigintNumber p.againstVotes.val
  abstainVotes : shown.abstainVotes = bigintNumber p.abstainVotes.val
  quorumRequired : shown.quorumRequired = bigintNumber p.quorumRequired.val
  actions : shown.actions = []
  votes : shown.votes = []

variable {lib : Library} {net : Network} {latestLedger : ℕ} {p : Governor.Proposal}
  {q : Sdk.Proposal} {clock : ℕ → ℤ}

/-- A ledger within the range of dates is shown as the text of its estimated time. -/
theorem ledgerTime_eq {now : ℤ} {ledger : ℕ}
    (h : |estimatedTime latestLedger now ledger| ≤ maxTime) :
    ∃ text, ledgerTime latestLedger now ledger = .ok text ∧
      parseISO text = some (estimatedTime latestLedger now ledger) := by
  obtain ⟨text, htext⟩ : ∃ text, toISOString (estimatedTime latestLedger now ledger) = some text :=
    ⟨_, if_pos h⟩
  refine ⟨text, ?_, parseISO_toISOString htext⟩
  rw [estimatedTime] at htext
  rw [ledgerTime, htext]

/-- What the client decodes has the types that it promises. -/
theorem typed_of_shows (h : Sdk.Shows lib p q) : typed q = some ⟨p.id, lib.strkey p.proposer,
    lib.text p.title, lib.text p.description, p.forVotes.val, p.againstVotes.val,
    p.abstainVotes.val, p.snapshotLedger, p.startLedger, p.endLedger, p.quorumRequired.val,
    statusName p.status⟩ := by
  rw [typed, h.id, h.proposer, h.title, h.description, h.forVotes, h.againstVotes, h.abstainVotes,
    h.snapshotLedger, h.startLedger, h.endLedger, h.quorumRequired, h.status]

/-- The site shows a queued proposal as passed, and the others by their names. -/
theorem siteStatus_eq (status : ProposalStatus) :
    (if statusName status = units "Queued" then units "passed"
      else toLowerCase (statusName status)) = siteStatus status := by
  cases status <;> decide

/-- A proposal that the client shows is displayed, if its dates can be. -/
theorem toUiProposal_displays {now : ℤ} (h : Sdk.Shows lib p q) (hdated : Dated latestLedger now p) :
    ∃ shown, toUiProposal q latestLedger now = .ok shown ∧
      Displays lib latestLedger now p shown := by
  obtain ⟨startTime, hstart, hstarts⟩ := ledgerTime_eq hdated.1
  obtain ⟨endTime, hend, hends⟩ := ledgerTime_eq hdated.2
  refine ⟨_, by
    rw [toUiProposal, typed_of_shows h]
    simp only [hstart, hend, bind, Except.bind]
    rfl, ?_⟩
  have hid : units "QIP-" ++ padStartUnits 3 (Sdk.bigintText p.id) = proposalId p.id := by
    rw [bigintText_natCast, padStartUnits_decimalUnits, proposalId]
  exact ⟨hid, rfl, rfl, rfl, siteStatus_eq p.status, hstarts, hends, rfl, rfl, rfl, rfl, rfl, rfl,
    rfl⟩

/-! ## The listing -/

/-- All proposals that there are when the count is read are asked for. -/
theorem fetchWindowAcross_all {counted : Storage} {seen : ℕ → Storage}
    (hcount : getProposalCount counted ≤ Sdk.maxArrayLength) :
    Sdk.fetchWindowAcross net counted seen .zero none =
      (Sdk.promiseAll ((List.range' 1 (getProposalCount counted)).map
        fun id => Sdk.getProposal net (seen id) id)).map
          fun proposals => proposals.filterMap fun q => q := by
  have hsmall : getProposalCount counted < 2 ^ 53 := hcount.trans_lt (by decide)
  simp only [Sdk.fetchWindowAcross, Sdk.JsNumber.zero, Sdk.JsNumber.natural, Option.bind_some,
    lt_irrefl, if_false, Int.toNat_zero, Option.map_none, Sdk.toNumber_of_le hsmall]
  by_cases hnone : getProposalCount counted ≤ 0
  · rw [if_pos hnone, Nat.le_zero.mp hnone]
    rfl
  · rw [if_neg hnone, Sdk.toNumber_of_le (by decide), Sdk.pushIds_eq _ _ _ (by decide),
      if_pos (by omega)]
    simp only [bind, Except.bind, Nat.zero_add, Nat.add_sub_cancel]
    cases Sdk.promiseAll _ with
    | error message => rfl
    | ok proposals => rfl

/-- The entry displays the proposal with the id, as it is stored when it is read. -/
def Listed (net : Network) (seen : ℕ → Storage) (latestLedger : ℕ) (clock : ℕ → ℤ) (id : ℕ)
    (shown : UiProposal) : Prop :=
  ∃ p, (seen id).proposal id = some p ∧
    Displays net.toLibrary latestLedger (clock (id - 1)) p shown

/-- The entries are turned into what the pages show one after the other: the induction is on the
ids from `index + 1` on. -/
theorem toUiProposals_listed {seen : ℕ → Storage} {index count : ℕ} {entries : List Sdk.Proposal}
    (hshown : List.Forall₂ (fun id q => ∃ p, (seen id).proposal id = some p ∧
      Sdk.Shows net.toLibrary p q) (List.range' (index + 1) count) entries)
    (hdated : ∀ id ∈ List.range' (index + 1) count, ∀ p, (seen id).proposal id = some p →
      Dated latestLedger (clock (id - 1)) p) :
    ∃ listing, toUiProposals latestLedger clock index entries = .ok listing ∧
      List.Forall₂ (Listed net seen latestLedger clock) (List.range' (index + 1) count) listing := by
  induction count generalizing index entries with
  | zero =>
    cases hshown
    exact ⟨[], rfl, .nil⟩
  | succ count ih =>
    rw [List.range'_succ] at hshown hdated ⊢
    cases hshown with
    | cons hfirst hrest =>
      obtain ⟨p, hp, hshows⟩ := hfirst
      obtain ⟨shown, hui, hdisplays⟩ := toUiProposal_displays hshows
        (hdated _ List.mem_cons_self p hp)
      obtain ⟨listing, hlisting, hlisted⟩ := ih hrest
        fun id hid => hdated id (List.mem_cons_of_mem _ hid)
      refine ⟨shown :: listing, ?_, .cons ⟨p, hp, hdisplays⟩ hlisted⟩
      rw [Nat.add_sub_cancel] at hui
      rw [toUiProposals, hui, hlisting]
      rfl

/-- If the statuses that are read are known, and the dates can be shown, the listing shows every
proposal that there is when the count is read, newest first. -/
theorem getProposals_listed (net : Network) {counted : Storage} {seen : ℕ → Storage}
    (hcount : getProposalCount counted ≤ Sdk.maxArrayLength)
    (hstored : ∀ id, 1 ≤ id → id ≤ getProposalCount counted →
      ∃ p, (seen id).proposal id = some p ∧ Known p.status)
    (hdated : ∀ id, 1 ≤ id → id ≤ getProposalCount counted → ∀ p, (seen id).proposal id = some p →
      Dated latestLedger (clock (id - 1)) p) :
    ∃ listing, getProposals net counted seen (.ok latestLedger) clock = .ok listing ∧
      List.Forall₂ (Listed net seen latestLedger clock)
        (List.range' 1 (getProposalCount counted)).reverse listing := by
  have hids : ∀ id ∈ List.range' 1 (getProposalCount counted),
      ∃ p, (seen id).proposal id = some p ∧ Known p.status := by
    intro id hid
    have hrange := List.mem_range'_1.mp hid
    exact hstored id hrange.1 (by omega)
  obtain ⟨proposals, hall, hshown⟩ := Sdk.resolves_across net hids
  have hdates : ∀ id ∈ List.range' 1 (getProposalCount counted), ∀ p,
      (seen id).proposal id = some p → Dated latestLedger (clock (id - 1)) p := by
    intro id hid
    have hrange := List.mem_range'_1.mp hid
    exact hdated id hrange.1 (by omega)
  obtain ⟨listing, hlisting, hlisted⟩ := toUiProposals_listed hshown hdates
  refine ⟨listing.reverse, ?_, List.forall₂_reverse_iff.mpr hlisted⟩
  rw [getProposals, fetchWindowAcross_all hcount, hall]
  simp only [Except.map, bind, Except.bind, hlisting]

/-- A listing that resolves has met known statuses only. -/
theorem known_of_getProposals {counted : Storage} {seen : ℕ → Storage}
    {latest : Except JsString ℕ} {listing : List UiProposal}
    (hcount : getProposalCount counted ≤ Sdk.maxArrayLength)
    (h : getProposals net counted seen latest clock = .ok listing) {id : ℕ}
    (hid : 1 ≤ id ∧ id ≤ getProposalCount counted) (hp : (seen id).proposal id = some p) :
    Known p.status := by
  by_contra hunknown
  have hmem : Sdk.getProposal net (seen id) id ∈ (List.range' 1 (getProposalCount counted)).map
      fun id => Sdk.getProposal net (seen id) id :=
    List.mem_map.mpr ⟨id, List.mem_range'_1.mpr (by omega), rfl⟩
  rw [getProposals, fetchWindowAcross_all hcount] at h
  cases hall : Sdk.promiseAll ((List.range' 1 (getProposalCount counted)).map
      fun id => Sdk.getProposal net (seen id) id) with
  | error message =>
    rw [hall] at h
    contradiction
  | ok proposals =>
    obtain ⟨value, hvalue⟩ := Sdk.exists_of_promiseAll hall hmem
    rw [Sdk.getProposal_unknown hp hunknown] at hvalue
    contradiction

/-! ## By id -/

/-- The id of a stored proposal with a known status leads to it. -/
theorem getProposalById_displays {outOfRange : JsString} {s : Storage} {now : ℤ} {id : ℕ}
    (hfits : id < 2 ^ 64) (hp : s.proposal id = some p) (hknown : Known p.status)
    (hdated : Dated latestLedger now p) :
    ∃ shown, getProposalById net outOfRange s (.ok latestLedger) now (proposalId id) =
        .ok (some shown) ∧ Displays net.toLibrary latestLedger now p shown := by
  obtain ⟨q, hget, hshows⟩ := Sdk.getProposal_known net hp hknown
  obtain ⟨shown, hui, hdisplays⟩ := toUiProposal_displays hshows hdated
  refine ⟨shown, ?_, hdisplays⟩
  rw [getProposalById, proposalNumber_proposalId]
  simp only [if_pos hfits, hget, bind, Except.bind, hui, Except.map]

end Quorum.Frontend

import Quorum.Frontend.Feed

/-!
# Notifications

A browser keeps the status that it has last seen of every proposal, and for each wallet an inbox of
the changes that concern it. The inbox is bounded and a change is not added twice, so it may lose
what the wallet has been told. As the status of a proposal never comes back on the chain, nothing
is lost but what is beyond the bound: an inbox holds the latest fifty changes that have been seen
for its wallet, each with the mark that it has been read.
-/

namespace Quorum.Frontend

open Foundation Governor
open Sdk (Network Sight countAt statusName)
open Sdk.Client (chainAt)

/-! ## The inbox -/

structure StatusNotification where
  id : JsString
  proposalId : JsString
  title : JsString
  status : JsString
  observedAt : JsString
  read : Bool
  deriving DecidableEq

/-- The last status seen of each proposal, and the notifications of each wallet, newest first. -/
structure NotificationState where
  statuses : JsString → Option JsString
  inbox : JsString → Option (List StatusNotification)

def NotificationState.empty : NotificationState := ⟨fun _ => none, fun _ => none⟩

/-- Notifications kept per wallet. -/
def maxNotificationsPerWallet : ℕ := 50

/-- Whether a proposal concerns a wallet. -/
def isRelevantTo (proposal : UiProposal) (address : JsString) : Bool :=
  proposal.proposer = address || proposal.votes.any fun vote => vote.voter = address

/-- The wallet that is connected: neither no address nor an empty one. -/
def connected (address : Option JsString) : Option JsString := address.filter (· ≠ [])

def notificationId (proposal : UiProposal) : JsString :=
  proposal.id ++ 58 :: proposal.status

/-- The notification of a proposal with a new status, if it has been seen before. -/
def statusChange (previous : Option JsString) (address observedAt : JsString)
    (proposal : UiProposal) : Option StatusNotification :=
  if previous ≠ none ∧ previous ≠ some proposal.status ∧ isRelevantTo proposal address then
    some ⟨notificationId proposal, proposal.id, proposal.title, proposal.status, observedAt, false⟩
  else none

/-- The statuses after the loop over the proposals. -/
def recordStatuses (statuses : JsString → Option JsString) (proposals : List UiProposal) :
    JsString → Option JsString :=
  proposals.foldl (fun statuses proposal =>
    Function.update statuses proposal.id (some proposal.status)) statuses

/-- Compares the proposals with the statuses seen before. -/
def recordStatusChanges (state : NotificationState) (proposals : List UiProposal)
    (address : Option JsString) (observedAt : JsString) : NotificationState :=
  let statuses := recordStatuses state.statuses proposals
  match connected address with
  | none => { state with statuses := statuses }
  | some wallet =>
    let changes := proposals.filterMap fun proposal =>
      statusChange (state.statuses proposal.id) wallet observedAt proposal
    let existing := (state.inbox wallet).getD []
    let added := changes.filter fun change => change.id ∉ existing.map StatusNotification.id
    if added = [] then { state with statuses := statuses }
    else ⟨statuses, Function.update state.inbox wallet
      (some ((added ++ existing).take maxNotificationsPerWallet))⟩

/-- A notification after the one with the id, or every one, has been marked. -/
def StatusNotification.marked (id : Option JsString) (notification : StatusNotification) :
    StatusNotification :=
  if id = none ∨ id = some notification.id then { notification with read := true }
  else notification

/-- Marks one notification of the wallet, or every one. -/
def markRead (state : NotificationState) (address : Option JsString) (id : Option JsString) :
    NotificationState :=
  match connected address with
  | none => state
  | some wallet =>
    match state.inbox wallet with
    | none => state
    | some notifications => { state with
        inbox := Function.update state.inbox wallet
          (some (notifications.map (StatusNotification.marked id))) }

/-- What happens in a browser. -/
inductive NotificationInput where
  | visit (proposals : List UiProposal) (address : Option JsString) (observedAt : JsString)
  | markRead (address : Option JsString) (id : Option JsString)

def NotificationState.step (state : NotificationState) : NotificationInput → NotificationState
  | .visit proposals address observedAt => recordStatusChanges state proposals address observedAt
  | .markRead address id => Frontend.markRead state address id

/-- The state after all that has happened, the newest first. -/
def notifications (inputs : List NotificationInput) : NotificationState :=
  inputs.foldr (fun input state => state.step input) .empty

/-- The notifications shown to a wallet. -/
def NotificationState.inboxOf (state : NotificationState) (wallet : JsString) :
    List StatusNotification := (state.inbox wallet).getD []

/-! ## What a wallet has been told -/

/-- The status of the last proposal with the id in a listing. -/
def listedStatus (id : JsString) : List UiProposal → Option JsString
  | [] => none
  | proposal :: proposals =>
    (listedStatus id proposals).or (if id = proposal.id then some proposal.status else none)

/-- The status in the latest visit whose listing has the proposal. -/
def lastSeen (id : JsString) : List NotificationInput → Option JsString
  | [] => none
  | .visit proposals _ _ :: inputs => (listedStatus id proposals).or (lastSeen id inputs)
  | .markRead _ _ :: inputs => lastSeen id inputs

/-- Every change of a proposal that concerns the wallet and that a visit of the wallet has shown,
newest first, with the marks made since. -/
def told (wallet : JsString) : List NotificationInput → List StatusNotification
  | [] => []
  | .visit proposals address observedAt :: inputs =>
    (if address = some wallet then proposals.filterMap fun proposal =>
      statusChange (lastSeen proposal.id inputs) wallet observedAt proposal
    else []) ++ told wallet inputs
  | .markRead address id :: inputs =>
    if address = some wallet then (told wallet inputs).map (StatusNotification.marked id)
    else told wallet inputs

variable {wallet : JsString} {inputs : List NotificationInput}

/-- The recorded status of an id is the listed one, or the one recorded before. -/
theorem recordStatuses_eq (statuses : JsString → Option JsString) (proposals : List UiProposal)
    (id : JsString) :
    recordStatuses statuses proposals id = (listedStatus id proposals).or (statuses id) := by
  induction proposals generalizing statuses with
  | nil => rfl
  | cons proposal proposals ih =>
    have hnext : recordStatuses statuses (proposal :: proposals) = recordStatuses
        (Function.update statuses proposal.id (some proposal.status)) proposals := rfl
    rw [hnext, ih, listedStatus, Option.or_assoc, Function.update_apply]
    split <;> rfl

/-- A visit records the statuses whatever wallet is connected. -/
theorem statuses_recordStatusChanges (state : NotificationState) (proposals : List UiProposal)
    (address : Option JsString) (observedAt : JsString) :
    (recordStatusChanges state proposals address observedAt).statuses =
      recordStatuses state.statuses proposals := by
  unfold recordStatusChanges
  split
  · rfl
  · simp only
    split <;> rfl

/-- The baseline is the latest status seen, whether or not a wallet was connected. -/
theorem statuses_notifications (inputs : List NotificationInput) (id : JsString) :
    (notifications inputs).statuses id = lastSeen id inputs := by
  induction inputs with
  | nil => rfl
  | cons input inputs ih =>
    cases input with
    | visit proposals address observedAt =>
      change (recordStatusChanges (notifications inputs) proposals address observedAt).statuses id =
        _
      rw [statuses_recordStatusChanges, recordStatuses_eq, ih, lastSeen]
    | markRead address id' =>
      change (Frontend.markRead (notifications inputs) address id').statuses id = _
      rw [lastSeen, ← ih, Frontend.markRead]
      split
      · rfl
      · split <;> rfl

/-! ## The inbox holds the latest of it -/

/-- A wallet is connected exactly when it is the address. -/
theorem connected_eq (hwallet : wallet ≠ []) {address : Option JsString} :
    connected address = some wallet ↔ address = some wallet := by
  rw [connected, Option.filter_eq_some_iff]
  constructor
  · exact fun h => h.1
  · exact fun h => ⟨h, decide_eq_true hwallet⟩

/-- A visit of another wallet leaves the inbox alone. -/
theorem inboxOf_visit_other (state : NotificationState) (proposals : List UiProposal)
    {address : Option JsString} (observedAt : JsString) (hother : connected address ≠ some wallet) :
    (recordStatusChanges state proposals address observedAt).inboxOf wallet =
      state.inboxOf wallet := by
  unfold recordStatusChanges
  split
  · rfl
  case h_2 visitor hvisitor =>
    have hne : wallet ≠ visitor := by
      rintro rfl
      exact hother hvisitor
    simp only
    split
    · rfl
    · simp only [NotificationState.inboxOf, Function.update_of_ne hne]

/-- A visit of the wallet adds the changes that it shows and that the inbox does not hold. -/
theorem inboxOf_visit_self (state : NotificationState) (proposals : List UiProposal)
    (observedAt : JsString) (hwallet : wallet ≠ [])
    (hfits : (state.inboxOf wallet).length ≤ maxNotificationsPerWallet) :
    (recordStatusChanges state proposals (some wallet) observedAt).inboxOf wallet =
      (((proposals.filterMap fun proposal =>
          statusChange (state.statuses proposal.id) wallet observedAt proposal).filter
        fun change => change.id ∉ (state.inboxOf wallet).map StatusNotification.id) ++
        state.inboxOf wallet).take maxNotificationsPerWallet := by
  unfold recordStatusChanges
  rw [(connected_eq hwallet).mpr rfl]
  simp only
  split
  case isTrue hnone =>
    have hadded : ((proposals.filterMap fun proposal =>
        statusChange (state.statuses proposal.id) wallet observedAt proposal).filter
          fun change => change.id ∉ (state.inboxOf wallet).map StatusNotification.id) = [] := hnone
    rw [hadded, List.nil_append, List.take_of_length_le hfits]
    rfl
  case isFalse =>
    simp only [NotificationState.inboxOf, Function.update_self, Option.getD_some]
    rfl

/-- Marking as read touches the inbox of the connected wallet alone. -/
theorem inboxOf_markRead (state : NotificationState) (hwallet : wallet ≠ [])
    (address : Option JsString) (id : Option JsString) :
    (Frontend.markRead state address id).inboxOf wallet =
      if address = some wallet then (state.inboxOf wallet).map (StatusNotification.marked id)
      else state.inboxOf wallet := by
  by_cases haddress : address = some wallet
  · rw [if_pos haddress, Frontend.markRead, (connected_eq hwallet).mpr haddress]
    simp only [NotificationState.inboxOf]
    rcases Option.eq_none_or_eq_some (state.inbox wallet) with hnone | ⟨notifications, hsome⟩
    · simp only [hnone]
      rfl
    · simp only [hsome, Function.update_self, Option.getD_some]
  · rw [if_neg haddress]
    unfold Frontend.markRead
    split
    · rfl
    case h_2 owner howner =>
      have hne : wallet ≠ owner := by
        rintro rfl
        exact haddress ((connected_eq hwallet).mp howner)
      split
      · rfl
      · simp only [NotificationState.inboxOf, Function.update_of_ne hne]

/-- Marking leaves the ids of notifications. -/
theorem map_id_marked (id : Option JsString) (notifications : List StatusNotification) :
    (notifications.map (StatusNotification.marked id)).map StatusNotification.id =
      notifications.map StatusNotification.id := by
  rw [List.map_map]
  refine List.map_congr_left fun notification _ => ?_
  simp only [Function.comp, StatusNotification.marked]
  split <;> rfl

/-- If no change has been told twice, an inbox holds the latest fifty: the induction is on what has
happened, and a change that is added is not in the inbox, since it is not among all that have been
told. -/
theorem inboxOf_notifications (hwallet : wallet ≠ [])
    (hdistinct : ((told wallet inputs).map StatusNotification.id).Nodup) :
    (notifications inputs).inboxOf wallet =
      (told wallet inputs).take maxNotificationsPerWallet := by
  induction inputs with
  | nil => rfl
  | cons input inputs ih =>
    cases input with
    | visit proposals address observedAt =>
      rw [told, List.map_append] at hdistinct
      have hbefore := ih hdistinct.of_append_right
      change (recordStatusChanges (notifications inputs) proposals address observedAt).inboxOf
        wallet = _
      rw [told]
      by_cases haddress : address = some wallet
      · rw [if_pos haddress] at hdistinct ⊢
        have hfits :
            ((notifications inputs).inboxOf wallet).length ≤ maxNotificationsPerWallet := by
          rw [hbefore]
          exact List.length_take_le _ _
        rw [haddress, inboxOf_visit_self _ _ _ hwallet hfits]
        simp only [statuses_notifications, hbefore]
        rw [List.filter_eq_self.mpr, List.take_append, List.take_append, List.take_take]
        · congr 2
          omega
        · intro change hchange
          refine decide_eq_true fun hheld => ?_
          have hold : change.id ∈ (told wallet inputs).map StatusNotification.id :=
            List.map_subset _ (List.take_subset _ _) hheld
          exact (List.nodup_append.mp hdistinct).2.2 _ (List.mem_map_of_mem hchange) _ hold rfl
      · have hother : connected address ≠ some wallet := fun h =>
          haddress ((connected_eq hwallet).mp h)
        rw [if_neg haddress, List.nil_append, inboxOf_visit_other _ _ _ hother, hbefore]
    | markRead address id =>
      change (Frontend.markRead (notifications inputs) address id).inboxOf wallet = _
      rw [inboxOf_markRead _ hwallet]
      rw [told] at hdistinct ⊢
      by_cases haddress : address = some wallet
      · rw [if_pos haddress, map_id_marked] at hdistinct
        rw [if_pos haddress, if_pos haddress, ih hdistinct, List.map_take]
      · rw [if_neg haddress] at hdistinct
        rw [if_neg haddress, if_neg haddress, ih hdistinct]

/-! ## No status comes back -/

/-- The listings that the visits have shown, newest first. -/
def listings : List NotificationInput → List (List UiProposal)
  | [] => []
  | .visit proposals _ _ :: inputs => proposals :: listings inputs
  | .markRead _ _ :: inputs => listings inputs

/-- How far a status is from the first one. -/
def stage (status : JsString) : ℕ :=
  if status = units "active" then 0 else if status = units "passed" then 1 else 2

/-- A status is kept, or left for one that comes later in the life of a proposal. -/
def Leads (status later : JsString) : Prop := status = later ∨ stage status < stage later

/-- Listings of proposals with different plain ids whose statuses only go on. -/
structure Progressing (shown : List (List UiProposal)) : Prop where
  distinct : ∀ proposals ∈ shown, (proposals.map UiProposal.id).Nodup
  plain : ∀ proposals ∈ shown, ∀ proposal ∈ proposals, (58 : UInt16) ∉ proposal.id
  onward : shown.Pairwise fun newer older => ∀ proposal ∈ newer, ∀ former ∈ older,
    former.id = proposal.id → Leads former.status proposal.status

/-- Earlier listings progress as the whole row does. -/
theorem Progressing.tail {proposals : List UiProposal} {shown : List (List UiProposal)}
    (h : Progressing (proposals :: shown)) : Progressing shown :=
  ⟨fun listing hlisting => h.distinct listing (List.mem_cons_of_mem _ hlisting),
    fun listing hlisting => h.plain listing (List.mem_cons_of_mem _ hlisting),
    h.onward.of_cons⟩

/-- The id of a notification names the proposal and the status. -/
theorem notificationId_inj {proposal former : UiProposal} (hplain : (58 : UInt16) ∉ proposal.id)
    (hplain' : (58 : UInt16) ∉ former.id)
    (h : notificationId proposal = notificationId former) :
    proposal.id = former.id ∧ proposal.status = former.status := by
  have hsplit : ∀ {p : UiProposal}, (58 : UInt16) ∉ p.id →
      (notificationId p).takeWhile (· ≠ 58) = p.id ∧
        (notificationId p).dropWhile (· ≠ 58) = 58 :: p.status := by
    intro p hp
    have hkeep : ∀ c ∈ p.id, decide (c ≠ 58) = true := fun c hc =>
      decide_eq_true (ne_of_mem_of_not_mem hc hp)
    rw [notificationId, List.takeWhile_append_of_pos hkeep, List.dropWhile_append_of_pos hkeep]
    simp
  refine ⟨?_, ?_⟩
  · rw [← (hsplit hplain).1, h, (hsplit hplain').1]
  · have hdrop := (hsplit hplain).2
    rw [h, (hsplit hplain').2] at hdrop
    exact (List.cons.inj hdrop).2.symm

/-- A listing has no status for an id exactly when it does not show it. -/
theorem listedStatus_eq_none {id : JsString} {proposals : List UiProposal} :
    listedStatus id proposals = none ↔ ∀ proposal ∈ proposals, proposal.id ≠ id := by
  induction proposals with
  | nil => simp [listedStatus]
  | cons proposal proposals ih =>
    rw [listedStatus, Option.or_eq_none_iff, ih, List.forall_mem_cons, and_comm]
    split <;> simp_all [eq_comm]

/-- A listed status is that of a shown proposal. -/
theorem exists_of_listedStatus {id status : JsString} {proposals : List UiProposal}
    (h : listedStatus id proposals = some status) :
    ∃ proposal ∈ proposals, proposal.id = id ∧ proposal.status = status := by
  induction proposals with
  | nil => contradiction
  | cons proposal proposals ih =>
    rw [listedStatus, Option.or_eq_some_iff] at h
    rcases h with hrest | ⟨-, hfirst⟩
    · obtain ⟨p, hp, heq⟩ := ih hrest
      exact ⟨p, List.mem_cons_of_mem _ hp, heq⟩
    · split at hfirst
      case isTrue hid => exact ⟨proposal, List.mem_cons_self, hid.symm, Option.some.inj hfirst⟩
      case isFalse => contradiction

/-- Every status that has been shown of a proposal leads to the latest one. -/
theorem leads_lastSeen {id status : JsString} (h : Progressing (listings inputs))
    (hlast : lastSeen id inputs = some status) {proposals : List UiProposal}
    (hshown : proposals ∈ listings inputs) {former : UiProposal} (hformer : former ∈ proposals)
    (hid : former.id = id) : Leads former.status status := by
  induction inputs with
  | nil => contradiction
  | cons input inputs ih =>
    cases input with
    | markRead address id' => exact ih h hlast hshown
    | visit newest address observedAt =>
      rw [listings] at h hshown
      rw [lastSeen, Option.or_eq_some_iff] at hlast
      rcases hlast with hlisted | ⟨hunlisted, holder⟩
      · obtain ⟨latest, hlatest, hlatestId, rfl⟩ := exists_of_listedStatus hlisted
        rcases List.mem_cons.mp hshown with rfl | hrest
        · have hsame := List.inj_on_of_nodup_map (h.distinct _ List.mem_cons_self) hformer hlatest
            (hid.trans hlatestId.symm)
          exact .inl (congrArg UiProposal.status hsame)
        · exact (List.pairwise_cons.mp h.onward).1 proposals hrest latest hlatest former hformer
            (hid.trans hlatestId.symm)
      · rcases List.mem_cons.mp hshown with rfl | hrest
        · exact absurd hid (listedStatus_eq_none.mp hunlisted former hformer)
        · exact ih h.tail holder hrest

/-- The status last seen was shown in one of the listings. -/
theorem lastSeen_shown {id status : JsString} (hlast : lastSeen id inputs = some status) :
    ∃ proposals ∈ listings inputs, ∃ proposal ∈ proposals,
      proposal.id = id ∧ proposal.status = status := by
  induction inputs with
  | nil => contradiction
  | cons input inputs ih =>
    cases input with
    | markRead address id' => exact ih hlast
    | visit newest address observedAt =>
      rw [lastSeen, Option.or_eq_some_iff] at hlast
      rcases hlast with hlisted | ⟨-, holder⟩
      · exact ⟨newest, List.mem_cons_self, exists_of_listedStatus hlisted⟩
      · obtain ⟨proposals, hshown, hrest⟩ := ih holder
        exact ⟨proposals, List.mem_cons_of_mem _ hshown, hrest⟩

/-- A notification tells of a status other than the one seen before, of a relevant proposal. -/
theorem statusChange_eq_some {previous : Option JsString} {address observedAt : JsString}
    {proposal : UiProposal} {notification : StatusNotification}
    (h : statusChange previous address observedAt proposal = some notification) :
    (∃ status, previous = some status ∧ status ≠ proposal.status) ∧
      isRelevantTo proposal address = true ∧ notification =
        ⟨notificationId proposal, proposal.id, proposal.title, proposal.status, observedAt,
          false⟩ := by
  unfold statusChange at h
  split at h
  case isTrue hchange =>
    obtain ⟨hseen, hnew, hrelevant⟩ := hchange
    obtain ⟨status, rfl⟩ := Option.ne_none_iff_exists'.mp hseen
    exact ⟨⟨status, rfl, fun heq => hnew (congrArg some heq)⟩, hrelevant, (Option.some.inj h).symm⟩
  case isFalse => contradiction

/-- What a wallet is told of has been shown to it, and concerns it. -/
theorem told_shown {notification : StatusNotification} (h : notification ∈ told wallet inputs) :
    ∃ proposals ∈ listings inputs, ∃ proposal ∈ proposals, isRelevantTo proposal wallet = true ∧
      notification.id = notificationId proposal ∧ notification.proposalId = proposal.id ∧
      notification.title = proposal.title ∧ notification.status = proposal.status := by
  induction inputs generalizing notification with
  | nil => contradiction
  | cons input inputs ih =>
    cases input with
    | visit proposals address observedAt =>
      rw [told, List.mem_append] at h
      rcases h with hnew | hold
      · split at hnew
        case isTrue =>
          obtain ⟨proposal, hproposal, hchange⟩ := List.mem_filterMap.mp hnew
          obtain ⟨-, hrelevant, rfl⟩ := statusChange_eq_some hchange
          exact ⟨proposals, List.mem_cons_self, proposal, hproposal, hrelevant, rfl, rfl, rfl, rfl⟩
        case isFalse => contradiction
      · obtain ⟨listing, hlisting, hrest⟩ := ih hold
        exact ⟨listing, List.mem_cons_of_mem _ hlisting, hrest⟩
    | markRead address id =>
      rw [told] at h
      split at h
      case isTrue =>
        obtain ⟨former, hformer, rfl⟩ := List.mem_map.mp h
        obtain ⟨listing, hlisting, proposal, hproposal, hrelevant, hid, hproposalId, htitle,
          hstatus⟩ := ih hformer
        refine ⟨listing, hlisting, proposal, hproposal, hrelevant, ?_⟩
        unfold StatusNotification.marked
        split
        · exact ⟨hid, hproposalId, htitle, hstatus⟩
        · exact ⟨hid, hproposalId, htitle, hstatus⟩
      case isFalse => exact ih h

/-- A visit shows different changes. -/
theorem nodup_changes {proposals : List UiProposal} (previous : JsString → Option JsString)
    (observedAt : JsString) (hdistinct : (proposals.map UiProposal.id).Nodup)
    (hplain : ∀ proposal ∈ proposals, (58 : UInt16) ∉ proposal.id) :
    ((proposals.filterMap fun proposal =>
      statusChange (previous proposal.id) wallet observedAt proposal).map
        StatusNotification.id).Nodup := by
  induction proposals with
  | nil => exact List.nodup_nil
  | cons proposal proposals ih =>
    rw [List.map_cons, List.nodup_cons] at hdistinct
    have hrest := ih hdistinct.2 fun p hp => hplain p (List.mem_cons_of_mem _ hp)
    rcases Option.eq_none_or_eq_some
      (statusChange (previous proposal.id) wallet observedAt proposal) with hnone | ⟨change, hsome⟩
    · simp only [List.filterMap_cons, hnone]
      exact hrest
    · simp only [List.filterMap_cons, hsome]
      rw [List.map_cons, List.nodup_cons]
      refine ⟨fun hmem => ?_, hrest⟩
      obtain ⟨later, hlater, hid⟩ := List.mem_map.mp hmem
      obtain ⟨other, hother, hchange⟩ := List.mem_filterMap.mp hlater
      obtain ⟨-, -, rfl⟩ := statusChange_eq_some hchange
      obtain ⟨-, -, rfl⟩ := statusChange_eq_some hsome
      have hsame := (notificationId_inj (hplain other (List.mem_cons_of_mem _ hother))
        (hplain proposal List.mem_cons_self) hid).1
      exact hdistinct.1 (hsame ▸ List.mem_map_of_mem hother)

/-- If statuses only go on, no change is told twice. A status that is told is later than the latest
one seen, to which all that have been told before have led. -/
theorem nodup_told (h : Progressing (listings inputs)) :
    ((told wallet inputs).map StatusNotification.id).Nodup := by
  induction inputs with
  | nil => exact List.nodup_nil
  | cons input inputs ih =>
    cases input with
    | markRead address id =>
      rw [told]
      split
      · rw [map_id_marked]
        exact ih h
      · exact ih h
    | visit proposals address observedAt =>
      rw [listings] at h
      rw [told]
      split
      case isFalse => exact ih h.tail
      case isTrue =>
        rw [List.map_append]
        refine List.nodup_append.mpr ⟨nodup_changes (fun id => lastSeen id inputs) observedAt
          (h.distinct _ List.mem_cons_self) (h.plain _ List.mem_cons_self), ih h.tail, ?_⟩
        rintro _ hnew id hold rfl
        obtain ⟨change, hchange, hid⟩ := List.mem_map.mp hnew
        obtain ⟨proposal, hproposal, hchanged⟩ := List.mem_filterMap.mp hchange
        obtain ⟨⟨status, hlast, hne⟩, -, rfl⟩ := statusChange_eq_some hchanged
        obtain ⟨earlier, hearlier, hid'⟩ := List.mem_map.mp hold
        obtain ⟨listing, hlisting, former, hformer, -, hformerId, -⟩ := told_shown hearlier
        obtain ⟨hsame, hstatus⟩ := notificationId_inj
          (h.plain _ List.mem_cons_self proposal hproposal)
          (h.plain listing (List.mem_cons_of_mem _ hlisting) former hformer)
          (hid.trans (hid'.symm.trans hformerId))
        have hled := leads_lastSeen h.tail hlast hlisting hformer hsame.symm
        obtain ⟨listing', hlisting', latest, hlatest, hlatestId, rfl⟩ := lastSeen_shown hlast
        have honward := (List.pairwise_cons.mp h.onward).1 listing' hlisting' proposal hproposal
          latest hlatest hlatestId
        rw [← hstatus] at hled
        rcases honward with heq | hlt
        · exact hne heq
        · rcases hled with heq | hlt'
          · exact hne heq.symm
          · omega

/-! ## What the chain shows -/

/-- Statuses lead on through one another. -/
theorem Leads.trans {status between later : JsString} (h : Leads status between)
    (h' : Leads between later) : Leads status later := by
  rcases h with rfl | hlt
  · exact h'
  · rcases h' with rfl | hlt'
    · exact .inr hlt
    · exact .inr (hlt.trans hlt')

/-- No step takes a proposal away or its status back. -/
theorem leads_statusChange {s : System} {id : ℕ} {i : Invocation} {status : ProposalStatus}
    {status' : Option ProposalStatus} (h : StatusChange s id i (some status) status') :
    ∃ later, status' = some later ∧ Leads (siteStatus status) (siteStatus later) := by
  cases h with
  | same => exact ⟨status, rfl, .inl rfl⟩
  | decided _ _ hstatus =>
    rcases hstatus with rfl | rfl
    · exact ⟨_, rfl, .inr (by decide)⟩
    · exact ⟨_, rfl, .inr (by decide)⟩
  | cancelled => exact ⟨_, rfl, .inr (by decide)⟩
  | vetoed => exact ⟨_, rfl, .inr (by decide)⟩
  | executed => exact ⟨_, rfl, .inr (by decide)⟩
  | expired => exact ⟨_, rfl, .inr (by decide)⟩

/-- Through every run the status that the site shows leads on. -/
theorem leads_run {start now id : ℕ} {s : System} {calls : List Invocation}
    {status : ProposalStatus} (hw : WellFormed start s)
    (hcalls : machine.Scheduled start now calls) (hstatus : statusOf s id = some status) :
    ∃ later, statusOf (machine.run s calls) id = some later ∧
      Leads (siteStatus status) (siteStatus later) := by
  induction calls generalizing start s status with
  | nil => exact ⟨status, hstatus, .inl rfl⟩
  | cons i rest ih =>
    have hi := hw.mono hcalls.1
    have hstep := machine_step hi.blank i
    have hchange := hstep.statusChange hi id
    rw [hstatus] at hchange
    obtain ⟨between, hbetween, hfirst⟩ := leads_statusChange hchange
    obtain ⟨later, hlater, hrest⟩ := ih (hi.step hstep) hcalls.2 hbetween
    exact ⟨later, hlater, hfirst.trans hrest⟩

variable {now : ℕ} {calls : List Invocation} {net : Network}

/-- What the site shows of a proposal leads to what it shows at every later height. -/
theorem leads_chainAt {height later id : ℕ} {p p' : Governor.Proposal}
    (hcalls : machine.Scheduled 0 now calls) (hle : height ≤ later)
    (hp : (chainAt calls height).governor.proposal id = some p)
    (hp' : (chainAt calls later).governor.proposal id = some p') :
    Leads (siteStatus p.status) (siteStatus p'.status) := by
  obtain ⟨mid, last, more, hfirst, hrest, hchain⟩ := Sdk.Client.chainAt_later hcalls hle
  obtain ⟨status, hstatus, hleads⟩ := leads_run (wellFormed_run hfirst) hrest (statusOf_eq hp)
  have hsame : statusOf (chainAt calls later) id = some status := hchain ▸ hstatus
  rw [statusOf_eq hp'] at hsame
  rw [Option.some.inj hsame]
  exact hleads

/-- A listing of the site, with the heights at which its requests are answered. -/
structure SiteLook where
  sight : Sight
  latestLedger : ℕ
  clock : ℕ → ℤ
  listing : List UiProposal

/-- The listing is what the site reads from the chain. -/
structure SiteLook.Genuine (net : Network) (calls : List Invocation) (look : SiteLook) :
    Prop where
  seen : ∀ id, look.sight.counted ≤ look.sight.seen id
  count : countAt calls look.sight.counted ≤ Sdk.maxArrayLength
  dated : ∀ id, 1 ≤ id → id ≤ countAt calls look.sight.counted → ∀ p,
    (chainAt calls (look.sight.seen id)).governor.proposal id = some p →
      Dated look.latestLedger (look.clock (id - 1)) p
  resolved : getProposals net (chainAt calls look.sight.counted).governor
    (fun id => (chainAt calls (look.sight.seen id)).governor) (.ok look.latestLedger) look.clock =
      .ok look.listing

/-- A genuine listing shows the stored proposals, newest first. -/
theorem SiteLook.Genuine.listed {look : SiteLook} (h : look.Genuine net calls)
    (hcalls : machine.Scheduled 0 now calls) :
    List.Forall₂ (Listed net (fun id => (chainAt calls (look.sight.seen id)).governor)
        look.latestLedger look.clock)
      (List.range' 1 (countAt calls look.sight.counted)).reverse look.listing := by
  obtain ⟨listing, hlisting, hlisted⟩ := getProposals_listed net h.count (fun id hone hle => by
    obtain ⟨p, hp⟩ := Sdk.stored_chainAt hcalls (h.seen id) ⟨hone, hle⟩
    exact ⟨p, hp, known_of_getProposals h.count h.resolved ⟨hone, hle⟩ hp⟩) h.dated
  rw [h.resolved] at hlisting
  rw [Except.ok.inj hlisting]
  exact hlisted

/-- The id of an entry is that of the proposal that it displays. -/
theorem Listed.id_eq {seen : ℕ → ℕ} {latestLedger id : ℕ} {clock : ℕ → ℤ} {proposal : UiProposal}
    (h : Listed net (fun id => (chainAt calls (seen id)).governor) latestLedger clock id proposal)
    (hcalls : machine.Scheduled 0 now calls) : proposal.id = proposalId id := by
  obtain ⟨p, hp, hdisplays⟩ := h
  obtain ⟨mid, last, more, hfirst, -, -⟩ := Sdk.Client.chainAt_later hcalls (le_refl (seen id))
  rw [hdisplays.id, (wellFormed_run hfirst).ids id p hp]

/-- A proposal of a genuine listing is shown as it is stored. -/
theorem SiteLook.Genuine.shows {look : SiteLook} (h : look.Genuine net calls)
    (hcalls : machine.Scheduled 0 now calls) {proposal : UiProposal}
    (hproposal : proposal ∈ look.listing) :
    ∃ id p, 1 ≤ id ∧ id ≤ countAt calls look.sight.counted ∧
      (chainAt calls (look.sight.seen id)).governor.proposal id = some p ∧
      proposal.id = proposalId id ∧ proposal.title = net.text p.title ∧
      proposal.status = siteStatus p.status ∧ proposal.proposer = net.strkey p.proposer ∧
      proposal.votes = [] := by
  obtain ⟨id, hid, hlisted⟩ := exists_of_forall₂ (h.listed hcalls) hproposal
  have hrange := List.mem_range'_1.mp (List.mem_reverse.mp hid)
  have hproposalId := hlisted.id_eq hcalls
  obtain ⟨p, hp, hdisplays⟩ := hlisted
  exact ⟨id, p, hrange.1, by omega, hp, hproposalId, hdisplays.title, hdisplays.status,
    hdisplays.proposer, hdisplays.votes⟩

/-- The listings of looks at a chain that goes on are progressing. -/
theorem progressing_looks {looks : List SiteLook} (hcalls : machine.Scheduled 0 now calls)
    (hgenuine : ∀ look ∈ looks, look.Genuine net calls)
    (honward : looks.Pairwise fun newer older => ∀ id, older.sight.seen id ≤ newer.sight.seen id) :
    Progressing (looks.map SiteLook.listing) where
  distinct := by
    rintro _ hlisting
    obtain ⟨look, hlook, rfl⟩ := List.mem_map.mp hlisting
    have hids : (List.range' 1 (countAt calls look.sight.counted)).reverse.Pairwise (· ≠ ·) :=
      List.nodup_reverse.mpr List.nodup_range'
    refine List.pairwise_map.mpr (pairwise_of_forall₂ ((hgenuine look hlook).listed hcalls) hids ?_)
    intro id id' proposal other hne hlisted hlisted' hsame
    exact hne (proposalId_injective
      (by rw [← hlisted.id_eq hcalls, ← hlisted'.id_eq hcalls, hsame]))
  plain := by
    rintro _ hlisting proposal hproposal
    obtain ⟨look, hlook, rfl⟩ := List.mem_map.mp hlisting
    obtain ⟨id, p, -, -, -, hid, -⟩ := (hgenuine look hlook).shows hcalls hproposal
    rw [hid, proposalId]
    intro hcolon
    rcases List.mem_append.mp hcolon with hprefix | hdigits
    · exact absurd hprefix (by decide)
    · exact absurd (isDigitUnit_paddedUnits hdigits) (by decide)
  onward := by
    refine List.pairwise_map.mpr (honward.imp_of_mem fun hnewer holder hseen => ?_)
    intro proposal hproposal former hformer hsame
    obtain ⟨id, p, -, -, hp, hid, -, hstatus, -⟩ := (hgenuine _ hnewer).shows hcalls hproposal
    obtain ⟨id', p', -, -, hp', hid', -, hstatus', -⟩ := (hgenuine _ holder).shows hcalls hformer
    obtain rfl : id' = id := proposalId_injective (by rw [← hid, ← hid', hsame])
    rw [hstatus, hstatus']
    exact leads_chainAt hcalls (hseen id') hp' hp

/-- The inbox of a wallet, when each visit lists the proposals as they are on the chain, and none
reads a proposal at an earlier height than the visits before it. It holds the latest fifty changes
that visits of the wallet have shown, none of them twice, each with the mark that it has been read.
Whatever is in it is a status that a proposal of the wallet has had. -/
theorem inbox_holds_latest (net : Network) (hcalls : machine.Scheduled 0 now calls)
    {looks : List SiteLook} (hgenuine : ∀ look ∈ looks, look.Genuine net calls)
    (honward : looks.Pairwise fun newer older => ∀ id, older.sight.seen id ≤ newer.sight.seen id)
    (hlistings : listings inputs = looks.map SiteLook.listing) (hwallet : wallet ≠ []) :
    (∀ id, (notifications inputs).statuses id = lastSeen id inputs) ∧
    (notifications inputs).inboxOf wallet = (told wallet inputs).take maxNotificationsPerWallet ∧
    ((told wallet inputs).map StatusNotification.id).Nodup ∧
    ∀ notification ∈ told wallet inputs, ∃ look ∈ looks, ∃ id p, 1 ≤ id ∧
      id ≤ countAt calls look.sight.counted ∧
      (chainAt calls (look.sight.seen id)).governor.proposal id = some p ∧
      net.strkey p.proposer = wallet ∧ notification.proposalId = proposalId id ∧
      notification.title = net.text p.title ∧ notification.status = siteStatus p.status := by
  have hprogressing : Progressing (listings inputs) :=
    hlistings ▸ progressing_looks hcalls hgenuine honward
  have hdistinct : ((told wallet inputs).map StatusNotification.id).Nodup := nodup_told hprogressing
  refine ⟨statuses_notifications inputs, inboxOf_notifications hwallet hdistinct, hdistinct, ?_⟩
  intro notification htold
  obtain ⟨proposals, hshown, proposal, hproposal, hrelevant, -, hid, htitle, hstatus⟩ :=
    told_shown htold
  rw [hlistings] at hshown
  obtain ⟨look, hlook, rfl⟩ := List.mem_map.mp hshown
  obtain ⟨n, p, hone, hle, hp, hid', htitle', hstatus', hproposer, hvotes⟩ :=
    (hgenuine look hlook).shows hcalls hproposal
  refine ⟨look, hlook, n, p, hone, hle, hp, ?_, hid.trans hid', htitle.trans htitle',
    hstatus.trans hstatus'⟩
  rw [isRelevantTo, hvotes, List.any_nil, Bool.or_false] at hrelevant
  exact hproposer.symm.trans (of_decide_eq_true hrelevant)

/-- The site, read when the chain has a height. -/
def passingLook (height : ℕ) (listing : List UiProposal) : SiteLook :=
  ⟨⟨height, fun _ => height⟩, 14, fun _ => 1778580000000, listing⟩

/-- The one proposal of the run, as the site lists it at a height. -/
theorem exists_genuine_passing (height : ℕ) (status : ProposalStatus)
    (hcount : countAt passingCalls height = 1) (hknown : Sdk.Known status)
    (hall : ((chainAt passingCalls height).governor.proposal 1).all (fun p =>
      decide (p.startLedger ≤ 20 ∧ p.endLedger ≤ 20 ∧ p.status = status ∧
        p.proposer = .account 1)) = true) :
    ∃ proposal, (passingLook height [proposal]).Genuine Sdk.plainNetwork passingCalls ∧
      proposal.id = proposalId 1 ∧ proposal.status = siteStatus status ∧
      proposal.proposer = Sdk.plainNetwork.strkey (.account 1) := by
  have hcalls : machine.Scheduled 0 14 passingCalls := by decide
  have hfacts : ∀ p, (chainAt passingCalls height).governor.proposal 1 = some p →
      p.startLedger ≤ 20 ∧ p.endLedger ≤ 20 ∧ p.status = status ∧ p.proposer = .account 1 := by
    intro p hp
    rw [hp, Option.all_some, decide_eq_true_eq] at hall
    exact hall
  have hmax : countAt passingCalls height ≤ Sdk.maxArrayLength := by
    rw [hcount]
    decide
  have hdated : ∀ id, 1 ≤ id → id ≤ countAt passingCalls height → ∀ p,
      (chainAt passingCalls height).governor.proposal id = some p →
        Dated 14 ((fun _ => 1778580000000 : ℕ → ℤ) (id - 1)) p := by
    intro id hone hle p hp
    obtain rfl : id = 1 := by omega
    obtain ⟨hstart, hend, -, -⟩ := hfacts p hp
    exact dated_of_le hstart hend
  have hstored : ∀ id, 1 ≤ id → id ≤ countAt passingCalls height →
      ∃ p, (chainAt passingCalls height).governor.proposal id = some p ∧ Sdk.Known p.status := by
    intro id hone hle
    obtain ⟨p, hp⟩ := Sdk.stored_chainAt hcalls (le_refl height) ⟨hone, hle⟩
    obtain rfl : id = 1 := by omega
    exact ⟨p, hp, (hfacts p hp).2.2.1 ▸ hknown⟩
  have hlists : ∃ listing, getProposals Sdk.plainNetwork (chainAt passingCalls height).governor
      (fun id => (chainAt passingCalls ((passingLook height []).sight.seen id)).governor) (.ok 14)
      (fun _ => 1778580000000) = .ok listing ∧
        List.Forall₂ (Listed Sdk.plainNetwork
            (fun id => (chainAt passingCalls ((passingLook height []).sight.seen id)).governor) 14
            fun _ => 1778580000000)
          (List.range' 1 (countAt passingCalls height)).reverse listing :=
    getProposals_listed Sdk.plainNetwork hmax hstored hdated
  obtain ⟨listing, hlisting, hlisted⟩ := hlists
  rw [hcount] at hlisted
  cases hlisted with
  | cons hfirst hrest =>
    cases hrest
    have hid := hfirst.id_eq hcalls
    obtain ⟨p, hp, hdisplays⟩ := hfirst
    obtain ⟨-, -, hstatus, hproposer⟩ := hfacts p hp
    exact ⟨_, ⟨fun _ => le_rfl, hmax, hdated, hlisting⟩, hid, hstatus ▸ hdisplays.status,
      hproposer ▸ hdisplays.proposer⟩

/-- The wallet that has made the proposal. -/
def passingWallet : JsString := Sdk.plainNetwork.strkey (.account 1)

/-- A browser that has seen the proposal open with no wallet, and then executed with its wallet. -/
def passingVisits (opened executed : UiProposal) : List NotificationInput :=
  [.visit [executed] (some passingWallet) [], .visit [opened] none []]

/-- The wallet is told of the execution. -/
theorem inbox_holds_latest_executed :
    ∃ opened executed : UiProposal, ∃ notification : StatusNotification,
      (notifications (passingVisits opened executed)).inboxOf passingWallet = [notification] ∧
        notification.status = units "executed" := by
  have hcalls : machine.Scheduled 0 14 passingCalls := by decide
  obtain ⟨opened, hopened, hopenedId, hopenedStatus, -⟩ :=
    exists_genuine_passing 4 .active (by decide) (by decide) (by decide)
  obtain ⟨executed, hexecuted, hexecutedId, hexecutedStatus, hproposer⟩ :=
    exists_genuine_passing 20 .executed (by decide) (by decide) (by decide)
  have hgenuine : ∀ look ∈ [passingLook 20 [executed], passingLook 4 [opened]],
      look.Genuine Sdk.plainNetwork passingCalls := by
    intro look hlook
    rcases List.mem_pair.mp hlook with rfl | rfl
    · exact hexecuted
    · exact hopened
  have honward : [passingLook 20 [executed], passingLook 4 [opened]].Pairwise
      fun newer older => ∀ id, older.sight.seen id ≤ newer.sight.seen id := by
    refine List.pairwise_pair.mpr fun _ => ?_
    change 4 ≤ 20
    decide
  have hlistings : listings (passingVisits opened executed) =
      [passingLook 20 [executed], passingLook 4 [opened]].map SiteLook.listing := rfl
  have hwallet : passingWallet ≠ [] := by decide
  obtain ⟨-, hinbox, -, -⟩ :=
    inbox_holds_latest Sdk.plainNetwork hcalls hgenuine honward hlistings hwallet
  have hlast : lastSeen executed.id [.visit [opened] none []] = some (units "active") := by
    have hactive : siteStatus .active = units "active" := by decide
    rw [lastSeen, listedStatus, listedStatus, hexecutedId, if_pos hopenedId.symm, hopenedStatus,
      hactive]
    rfl
  have hchange : statusChange (lastSeen executed.id [.visit [opened] none []]) passingWallet []
      executed = some ⟨notificationId executed, executed.id, executed.title, executed.status, [],
        false⟩ := by
    have hnew : units "active" ≠ siteStatus .executed := by decide
    rw [hlast, statusChange, if_pos]
    refine ⟨Option.some_ne_none _, fun heq => hnew ?_, ?_⟩
    · rw [Option.some.inj heq, hexecutedStatus]
    · rw [isRelevantTo, hproposer, passingWallet, decide_eq_true rfl, Bool.true_or]
  have hexecution : siteStatus .executed = units "executed" := by decide
  refine ⟨opened, executed, ⟨notificationId executed, executed.id, executed.title,
    executed.status, [], false⟩, ?_, hexecutedStatus.trans hexecution⟩
  rw [hinbox, passingVisits]
  simp only [told, List.filterMap_cons, hchange]
  rfl

end Quorum.Frontend

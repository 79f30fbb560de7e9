import Quorum.Foundation.Indistinct
import Quorum.Governor.Runs

/-!
# What the governor's functions look at

An observer of the governor looks at the entries of some of the proposals, and may look at the
pause, at the lists of proposals and proposers, at the counters, at the published events and at
the mirrored delegations. `Alike` relates two states that such an observer cannot tell apart, and
`invoke_agrees` says which calls cannot either: a call on a proposal needs the entries of that
proposal alone, only the constructors and `execute` need the pause, only the constructors need the
lists, and no call needs the counters, the events or the mirrored delegations.

The consequences are about pairs of runs: the mirrored delegations decide nothing, a proposal's
course is independent of all other proposals, and a pause changes nothing but the openings and
the executions.
-/

namespace Quorum.Governor

open Foundation Contract

/-- What an observer looks at besides the token and the roles. -/
structure View where
  /-- The proposals whose entries are looked at. -/
  ids : Set ℕ
  pause : Prop
  lists : Prop
  stats : Prop
  events : Prop
  mirror : Prop

/-- The configurations differ at most in the pause, and not in that where it is looked at. -/
def ConfigAlike (v : View) (config config' : Config) : Prop :=
  ∃ paused, config' = { config with paused := paused } ∧ (v.pause → paused = config.paused)

/-- The entries of one proposal are the same, and the proposal stored there carries its id. -/
structure SameEntries (id : ℕ) (g g' : Storage) : Prop where
  proposal : g'.proposal id = g.proposal id
  named : ∀ p, g.proposal id = some p → p.id = id
  hasVoted : g'.hasVoted id = g.hasVoted id
  deposit : g'.deposit id = g.deposit id
  cosponsors : g'.cosponsors id = g.cosponsors id
  conviction : g'.conviction id = g.conviction id
  proposalAction : g'.proposalAction id = g.proposalAction id

/-- What the constructors keep about all proposals and proposers is the same. -/
structure SameLists (g g' : Storage) : Prop where
  proposalCount : g'.proposalCount = g.proposalCount
  proposerIndex : g'.proposerIndex = g.proposerIndex
  proposerCount : g'.proposerCount = g.proposerCount
  lastProposal : g'.lastProposal = g.lastProposal

/-- The counters, the events and the mirrored delegations are the same where they are looked
at. -/
structure SameNotes (v : View) (g g' : Storage) : Prop where
  stats : v.stats → g'.stats = g.stats
  events : v.events → g'.events = g.events
  mirror : v.mirror → g'.delegate = g.delegate

/-- The two states look the same. -/
structure Alike (v : View) (s s' : System) : Prop where
  token : s'.token = s.token
  config : Option.Rel (ConfigAlike v) s.governor.config s'.governor.config
  pendingAdmin : s'.governor.pendingAdmin = s.governor.pendingAdmin
  allowedTarget : s'.governor.allowedTarget = s.governor.allowedTarget
  entries : ∀ id ∈ v.ids, SameEntries id s.governor s'.governor
  lists : v.lists → SameLists s.governor s'.governor
  notes : SameNotes v s.governor s'.governor

variable {v : View} {s s' : System} {env : Env} {id : ℕ}

/-- A configuration looks like itself. -/
theorem ConfigAlike.refl (v : View) (config : Config) : ConfigAlike v config config :=
  ⟨config.paused, rfl, fun _ => rfl⟩

/-- Where the pause is looked at the configurations are the same. -/
theorem ConfigAlike.eq {config config' : Config} (h : ConfigAlike v config config')
    (hpause : v.pause) : config' = config := by
  obtain ⟨paused, rfl, hsame⟩ := h
  rw [hsame hpause]

/-- A state looks like itself to everyone, as long as its proposals carry their ids. -/
theorem Alike.refl (v : View) (s : System)
    (hnamed : ∀ id p, s.governor.proposal id = some p → p.id = id) : Alike v s s where
  token := rfl
  config := by
    cases s.governor.config with
    | none => exact .none
    | some config => exact .some (.refl v config)
  pendingAdmin := rfl
  allowedTarget := rfl
  entries id _ := ⟨rfl, hnamed id, rfl, rfl, rfl, rfl, rfl⟩
  lists _ := ⟨rfl, rfl, rfl, rfl⟩
  notes := ⟨fun _ => rfl, fun _ => rfl, fun _ => rfl⟩

/-! ## Reading and writing -/

section Parts

variable {A B B' : Type} {W : B → B' → Prop}

/-- Where two families have the same member, they have the same one after the same update. -/
theorem update_congr {V : Type} {f f' : ℕ → V} {i : ℕ} (h : f' i = f i) (j : ℕ) (x : V) :
    Function.update f' j x i = Function.update f j x i := by
  by_cases hi : i = j
  · subst hi
    rw [Function.update_self, Function.update_self]
  · rw [Function.update_of_ne hi, Function.update_of_ne hi, h]

/-- A read of the token finds the same in states that look the same. -/
theorem queryToken_agrees (reader : Token.Storage → A) :
    Agrees (Alike v) Eq (queryToken reader) (queryToken reader) :=
  agrees_read_bind fun s s' h => by
    rw [h.token]
    exact agrees_pure rfl

/-- States that look the same do so with the same token put into both. -/
theorem Alike.setToken (h : Alike v s s') (t : Token.Storage) :
    Alike v { s with token := t } { s' with token := t } :=
  ⟨rfl, h.config, h.pendingAdmin, h.allowedTarget, h.entries, h.lists, { h.notes with }⟩

/-- A call of the token goes the same way in states that look the same. -/
theorem callToken_agrees (m : Token.TokenM A) :
    Agrees (Alike v) Eq (callToken m) (callToken m) :=
  agrees_call m (fun _ _ h => h.token.symm) fun t _ _ h => h.setToken t

/-- A caught call of the token goes the same way in states that look the same. -/
theorem tryToken_agrees (m : Token.TokenM A) :
    Agrees (Alike v) Eq (tryToken m) (tryToken m) :=
  agrees_tryCall m (fun _ _ h => h.token.symm) fun t _ _ h => h.setToken t

/-- Requiring the configuration gives configurations that look the same. -/
theorem requireConfig_agrees : Agrees (Alike v) (ConfigAlike v) requireConfig requireConfig :=
  agrees_read_bind fun _ _ h => agrees_okOr h.config _

/-- Reading the configuration gives configurations that look the same. -/
theorem getConfig_agrees : Agrees (Alike v) (ConfigAlike v) getConfig getConfig :=
  agrees_read_bind fun _ _ h => agrees_unwrap h.config _

/-- A proposal that is looked at is the same in both states, and carries its id. -/
theorem requireProposal_agrees (hid : id ∈ v.ids) :
    Agrees (Alike v) (fun p p' => p' = p ∧ p.id = id) (requireProposal id) (requireProposal id) :=
  agrees_read_bind fun s s' h => by
    rw [(h.entries id hid).proposal]
    have hnamed := (h.entries id hid).named
    cases hp : s.governor.proposal id with
    | none => exact agrees_okOr .none _
    | some p => exact agrees_okOr (.some ⟨rfl, hnamed p hp⟩) _

/-- A write that leaves the configuration and the roles. -/
theorem agrees_store {f : Storage → Storage}
    (hconfig : ∀ g, (f g).config = g.config ∧ (f g).pendingAdmin = g.pendingAdmin ∧
      (f g).allowedTarget = g.allowedTarget)
    (hentries : ∀ i g g', SameEntries i g g' → SameEntries i (f g) (f g'))
    (hlists : ∀ g g', SameLists g g' → SameLists (f g) (f g'))
    (hnotes : ∀ g g', SameNotes v g g' → SameNotes v (f g) (f g')) :
    Agrees (Alike v) Eq (store f) (store f) :=
  agrees_write fun s s' h =>
    { token := h.token
      config := by
        rw [System.mapGovernor_governor, System.mapGovernor_governor, (hconfig _).1, (hconfig _).1]
        exact h.config
      pendingAdmin := by
        rw [System.mapGovernor_governor, System.mapGovernor_governor, (hconfig _).2.1,
          (hconfig _).2.1]
        exact h.pendingAdmin
      allowedTarget := by
        rw [System.mapGovernor_governor, System.mapGovernor_governor, (hconfig _).2.2,
          (hconfig _).2.2]
        exact h.allowedTarget
      entries := fun i hi => hentries i _ _ (h.entries i hi)
      lists := fun hv => hlists _ _ (h.lists hv)
      notes := hnotes _ _ h.notes }

/-- Storing a proposal under its id keeps the states alike. -/
theorem storeProposal_agrees {p : Proposal} (hp : p.id = id) :
    Agrees (Alike v) Eq (storeProposal id p) (storeProposal id p) := by
  refine agrees_store (fun _ => ⟨rfl, rfl, rfl⟩) (fun i g g' h => { h with
    proposal := update_congr h.proposal id _
    named := ?_ }) (fun _ _ h => { h with }) (fun _ _ h => { h with })
  dsimp only
  intro q hq
  by_cases hi : i = id
  · subst hi
    rw [Function.update_self, Option.some.injEq] at hq
    rw [← hq, hp]
  · rw [Function.update_of_ne hi] at hq
    exact h.named q hq

/-- Storing a deposit keeps the states alike. -/
theorem storeDeposit_agrees (id : ℕ) (held : Option I128) :
    Agrees (Alike v) Eq (store fun g => { g with deposit := Function.update g.deposit id held })
      (store fun g => { g with deposit := Function.update g.deposit id held }) :=
  agrees_store (fun _ => ⟨rfl, rfl, rfl⟩)
    (fun _ _ _ h => { h with deposit := update_congr h.deposit id _ }) (fun _ _ h => { h with })
    (fun _ _ h => { h with })

/-- Storing a conviction tally keeps the states alike. -/
theorem storeConviction_agrees (id : ℕ) (tally : Option ConvictionTally) :
    Agrees (Alike v) Eq
      (store fun g => { g with conviction := Function.update g.conviction id tally })
      (store fun g => { g with conviction := Function.update g.conviction id tally }) :=
  agrees_store (fun _ => ⟨rfl, rfl, rfl⟩)
    (fun _ _ _ h => { h with conviction := update_congr h.conviction id _ }) (fun _ _ h => { h with })
    (fun _ _ h => { h with })

/-- Storing cosponsors keeps the states alike. -/
theorem storeCosponsors_agrees (id : ℕ) (cosponsors : Option (List Address)) :
    Agrees (Alike v) Eq
      (store fun g => { g with cosponsors := Function.update g.cosponsors id cosponsors })
      (store fun g => { g with cosponsors := Function.update g.cosponsors id cosponsors }) :=
  agrees_store (fun _ => ⟨rfl, rfl, rfl⟩)
    (fun _ _ _ h => { h with cosponsors := update_congr h.cosponsors id _ }) (fun _ _ h => { h with })
    (fun _ _ h => { h with })

/-- Storing actions keeps the states alike. -/
theorem storeActions_agrees (id : ℕ) (actions : Option (List ProposalAction)) :
    Agrees (Alike v) Eq
      (store fun g => { g with proposalAction := Function.update g.proposalAction id actions })
      (store fun g => { g with proposalAction := Function.update g.proposalAction id actions }) :=
  agrees_store (fun _ => ⟨rfl, rfl, rfl⟩)
    (fun _ _ _ h => { h with proposalAction := update_congr h.proposalAction id _ })
    (fun _ _ h => { h with }) (fun _ _ h => { h with })

/-- Storing a ballot keeps the states alike. -/
theorem storeVote_agrees (id : ℕ) (voter : Address) (support : ℕ) :
    Agrees (Alike v) Eq
      (store fun g => { g with
        hasVoted := Function.update g.hasVoted id
          (Function.update (g.hasVoted id) voter (some support)) })
      (store fun g => { g with
        hasVoted := Function.update g.hasVoted id
          (Function.update (g.hasVoted id) voter (some support)) }) := by
  refine agrees_store (fun _ => ⟨rfl, rfl, rfl⟩) ?_ (fun _ _ h => { h with }) (fun _ _ h => { h with })
  intro i g g' h
  refine { h with hasVoted := ?_ }
  dsimp only
  by_cases hi : i = id
  · subst hi
    rw [Function.update_self, Function.update_self, h.hasVoted]
  · rw [Function.update_of_ne hi, Function.update_of_ne hi, h.hasVoted]

/-- Updating the counters keeps the states alike, looked at or not. -/
theorem updateStats_agrees (change : GovernanceStats → GovernanceStats) :
    Agrees (Alike v) Eq (updateStats change) (updateStats change) :=
  agrees_store (fun _ => ⟨rfl, rfl, rfl⟩) (fun _ _ _ h => { h with }) (fun _ _ h => { h with })
    fun _ _ h => { h with stats := fun hv => by rw [h.stats hv] }

/-- Publishing keeps the states alike, the log looked at or not. -/
theorem publish_agrees (e : Event) : Agrees (Alike v) Eq (publish e) (publish e) :=
  agrees_store (fun _ => ⟨rfl, rfl, rfl⟩) (fun _ _ _ h => { h with }) (fun _ _ h => { h with })
    fun _ _ h => { h with events := fun hv => by rw [h.events hv] }

/-- Storing configurations that look the same keeps the states alike. -/
theorem storeConfig_agrees {config config' : Config} (h : ConfigAlike v config config') :
    Agrees (Alike v) Eq (storeConfig config) (storeConfig config') :=
  agrees_write fun _ _ hs => { hs with
    config := .some h
    entries := fun i hi => { hs.entries i hi with }
    lists := fun hv => { hs.lists hv with }
    notes := { hs.notes with } }

end Parts

/-! ## The functions -/

/-- `takeDeposit` returns what is held for the proposal. -/
theorem takeDeposit_agrees (hid : id ∈ v.ids) :
    Agrees (Alike v) Eq (takeDeposit id) (takeDeposit id) :=
  agrees_read_bind fun s s' h => by
    rw [(h.entries id hid).deposit]
    dsimp only
    split
    · exact (storeDeposit_agrees id none).bind_eq fun _ => agrees_pure rfl
    · exact agrees_pure rfl

/-- The refund looks at the entries of its proposal alone. -/
theorem refundDeposit_agrees {config config' : Config} (h : ConfigAlike v config config')
    {p : Proposal} (hid : p.id ∈ v.ids) :
    Agrees (Alike v) Eq (refundDeposit env config p) (refundDeposit env config' p) := by
  obtain ⟨paused, rfl, -⟩ := h
  apply (takeDeposit_agrees hid).bind_eq
  intro held
  cases held with
  | none => exact agrees_unit _ _
  | some amount => exact (callToken_agrees _).bind_eq fun _ => publish_agrees _

/-- The forfeit looks at the entries of its proposal alone. -/
theorem forfeitDeposit_agrees {config config' : Config} (h : ConfigAlike v config config')
    (hid : id ∈ v.ids) :
    Agrees (Alike v) Eq (forfeitDeposit env config id) (forfeitDeposit env config' id) := by
  obtain ⟨paused, rfl, -⟩ := h
  apply (takeDeposit_agrees hid).bind_eq
  intro held
  cases held with
  | none => exact agrees_unit _ _
  | some amount => exact (callToken_agrees _).bind_eq fun _ => publish_agrees _

/-- The conviction part of a vote looks at the entries of its proposal alone. -/
theorem voteConviction_agrees (hid : id ∈ v.ids) (support : ℕ) (votingPower : I128) :
    Agrees (Alike v) Eq (voteConviction env id support votingPower)
      (voteConviction env id support votingPower) :=
  agrees_read_bind fun s s' h => by
    rw [(h.entries id hid).conviction]
    cases s.governor.conviction id with
    | none => exact agrees_unit _ _
    | some stored => exact agrees_okOr_bind fun _ _ => storeConviction_agrees id _

/-- A vote looks at the entries of its proposal alone. -/
theorem vote_agrees (hid : id ∈ v.ids) (voter : Address) (support : ℕ) :
    Agrees (Alike v) Eq (vote env voter id support) (vote env voter id support) := by
  apply requireConfig_agrees.bind
  intro _ _ _
  apply agrees_demand_bind
  apply agrees_rejectIf_bind
  apply (requireProposal_agrees hid).bind
  rintro _ p ⟨rfl, hp⟩
  apply agrees_read_bind
  intro s s' h
  rw [(h.entries id hid).hasVoted]
  iterate 4 apply agrees_rejectIf_bind
  apply (callToken_agrees _).bind_eq
  intro votingPower
  apply agrees_rejectIf_bind
  apply agrees_okOr_bind
  intro q huncount
  apply agrees_okOr_bind
  intro counted hcount
  have hcounted : counted.id = id :=
    (Kept.count hcount).id.trans ((Kept.uncount huncount).id.trans hp)
  apply (voteConviction_agrees hid support votingPower).bind_eq
  intro _
  apply (storeProposal_agrees hcounted).bind_eq
  intro _
  apply (storeVote_agrees id voter support).bind_eq
  intro _
  apply (updateStats_agrees _).bind_eq
  intro _
  exact publish_agrees _

/-- The facade reads the token, and writes the mirrored delegations without reading them. -/
theorem delegate_agrees (delegator delegatee : Address) :
    Agrees (Alike v) Eq (delegate env delegator delegatee) (delegate env delegator delegatee) := by
  apply requireConfig_agrees.bind
  rintro config _ ⟨paused, rfl, -⟩
  apply agrees_demand_bind
  apply (queryToken_agrees _).bind_eq
  intro previous
  apply (tryToken_agrees _).bind_eq
  intro result
  have hrest : ∀ u u' : Unit, Agrees (Alike v) Eq
      (queryToken (fun token => Token.getDelegates token delegator) >>= fun delegatee => do
        store fun g => { g with
          delegate := Function.update g.delegate delegator
            (if delegatee = delegator then none else some delegatee) }
        if previous ≠ delegatee then publish (.delegated delegator delegatee) else pure ())
      (queryToken (fun token => Token.getDelegates token delegator) >>= fun delegatee => do
        store fun g => { g with
          delegate := Function.update g.delegate delegator
            (if delegatee = delegator then none else some delegatee) }
        if previous ≠ delegatee then publish (.delegated delegator delegatee) else pure ()) := by
    intro _ _
    apply (queryToken_agrees _).bind_eq
    intro delegatee
    have hstore : Agrees (Alike v) Eq
        (store fun g => { g with
          delegate := Function.update g.delegate delegator
            (if delegatee = delegator then none else some delegatee) })
        (store fun g => { g with
          delegate := Function.update g.delegate delegator
            (if delegatee = delegator then none else some delegatee) }) :=
      agrees_store (fun _ => ⟨rfl, rfl, rfl⟩) (fun _ _ _ h => { h with }) (fun _ _ h => { h with })
        (fun _ _ h => { h with mirror := fun hv => by rw [h.mirror hv] })
    apply hstore.bind_eq
    intro _
    split
    · exact publish_agrees _
    · exact agrees_unit _ _
  cases result with
  | ok u => exact hrest u u
  | error failure =>
    cases failure with
    | error e =>
      dsimp only
      split
      · exact agrees_stop _
      · exact agrees_stop _
    | trap t => exact agrees_stop _

/-- `finalize` looks at the entries of its proposal alone. -/
theorem finalize_agrees (hid : id ∈ v.ids) :
    Agrees (Alike v) Eq (finalize env id) (finalize env id) := by
  apply requireConfig_agrees.bind
  intro config config' hconfig
  apply (requireProposal_agrees hid).bind
  rintro _ p ⟨rfl, hp⟩
  iterate 2 apply agrees_rejectIf_bind
  apply agrees_okOr_bind
  intro total _
  apply agrees_read_bind
  intro s s' h
  rw [(h.entries id hid).conviction]
  split
  · apply agrees_okOr_bind
    intro queueLedger _
    apply (storeProposal_agrees (by exact hp)).bind_eq
    intro _
    apply (updateStats_agrees _).bind_eq
    intro _
    apply (refundDeposit_agrees hconfig (by exact hp ▸ hid)).bind_eq
    intro _
    apply (publish_agrees _).bind_eq
    intro _
    apply (publish_agrees _).bind_eq
    intro _
    exact agrees_pure rfl
  · apply (storeProposal_agrees (by exact hp)).bind_eq
    intro _
    apply (updateStats_agrees _).bind_eq
    intro _
    apply (forfeitDeposit_agrees hconfig hid).bind_eq
    intro _
    apply (publish_agrees _).bind_eq
    intro _
    exact agrees_pure rfl

/-- `execute` looks at the pause. -/
theorem beginExecution_agrees (hid : id ∈ v.ids) (hpause : v.pause) (executor : Address) :
    Agrees (Alike v) Eq (beginExecution env executor id) (beginExecution env executor id) := by
  apply agrees_demand_bind
  apply getConfig_agrees.bind
  intro config config' hconfig
  obtain rfl := hconfig.eq hpause
  apply agrees_rejectIf_bind
  apply (requireProposal_agrees hid).bind
  rintro _ p ⟨rfl, hp⟩
  iterate 3 apply agrees_rejectIf_bind
  apply agrees_unwrap_bind
  intro executionDeadline _
  apply agrees_rejectIf_bind
  apply agrees_read_bind
  intro s s' h
  have hactions : getProposalActions s'.governor id = getProposalActions s.governor id := by
    rw [getProposalActions, (h.entries id hid).proposalAction, getProposalActions]
  have hallowed : targetAllowed s'.governor = targetAllowed s.governor := by
    funext target
    rw [targetAllowed, h.allowedTarget, targetAllowed]
  simp only [hactions]
  apply (agrees_rejectIf (by rw [hactions, hallowed]) _).bind_eq
  intro _
  apply (storeProposal_agrees (by exact hp)).bind_eq
  intro _
  exact agrees_pure rfl

/-- `mark_expired` looks at the entries of its proposal alone. -/
theorem markExpired_agrees (hid : id ∈ v.ids) :
    Agrees (Alike v) Eq (markExpired env id) (markExpired env id) := by
  apply (requireProposal_agrees hid).bind
  rintro _ p ⟨rfl, hp⟩
  apply agrees_rejectIf_bind
  apply getConfig_agrees.bind
  rintro config _ ⟨paused, rfl, -⟩
  apply agrees_unwrap_bind
  intro executionDeadline _
  apply agrees_rejectIf_bind
  apply (storeProposal_agrees (by exact hp)).bind_eq
  intro _
  exact updateStats_agrees _

/-- `cancel` looks at the entries of its proposal alone. -/
theorem cancel_agrees (hid : id ∈ v.ids) (caller : Address) :
    Agrees (Alike v) Eq (cancel env caller id) (cancel env caller id) := by
  apply requireConfig_agrees.bind
  intro config config' hconfig
  apply agrees_demand_bind
  apply (requireProposal_agrees hid).bind
  rintro _ p ⟨rfl, hp⟩
  obtain ⟨paused, rfl, hsame⟩ := hconfig
  iterate 2 apply agrees_rejectIf_bind
  apply (storeProposal_agrees (by exact hp)).bind_eq
  intro _
  apply (forfeitDeposit_agrees ⟨paused, rfl, hsame⟩ hid).bind_eq
  intro _
  exact publish_agrees _

/-- `veto` looks at the entries of its proposal alone. -/
theorem veto_agrees (hid : id ∈ v.ids) (caller : Address) (reason : Text) :
    Agrees (Alike v) Eq (veto env caller id reason) (veto env caller id reason) := by
  apply requireConfig_agrees.bind
  rintro config _ ⟨paused, rfl, -⟩
  apply agrees_demand_bind
  iterate 3 apply agrees_rejectIf_bind
  apply (requireProposal_agrees hid).bind
  rintro _ p ⟨rfl, hp⟩
  iterate 2 apply agrees_rejectIf_bind
  apply (storeProposal_agrees (by exact hp)).bind_eq
  intro _
  exact publish_agrees _

/-- `set_proposal_action` looks at the entries of its proposal alone. -/
theorem setProposalAction_agrees (hid : id ∈ v.ids) (proposer target : Address) (function : Text)
    (args : List Val) : Agrees (Alike v) Eq (setProposalAction env proposer id target function args)
      (setProposalAction env proposer id target function args) := by
  apply agrees_demand_bind
  apply (requireProposal_agrees hid).bind
  rintro _ p ⟨rfl, -⟩
  iterate 3 apply agrees_rejectIf_bind
  apply agrees_read_bind
  intro s s' h
  have hactions : getProposalActions s'.governor id = getProposalActions s.governor id := by
    rw [getProposalActions, (h.entries id hid).proposalAction, getProposalActions]
  have hallowed : targetAllowed s'.governor = targetAllowed s.governor := by
    funext target
    rw [targetAllowed, h.allowedTarget, targetAllowed]
  simp only [hactions]
  apply (agrees_rejectIf (by rw [hallowed]) _).bind_eq
  intro _
  apply (agrees_rejectIf (by rw [hactions]) _).bind_eq
  intro _
  apply (storeActions_agrees id _).bind_eq
  intro _
  exact publish_agrees _

/-- `extend_proposal_ttl` looks at the entries of its proposal alone. -/
theorem extendProposalTtl_agrees (hid : id ∈ v.ids) :
    Agrees (Alike v) Eq (extendProposalTtl id) (extendProposalTtl id) :=
  (requireProposal_agrees hid).bind fun _ _ _ => agrees_unit _ _

/-! ### Constructors -/

/-- The cosponsors' authorizations look at no entry. -/
theorem requireAuths_agrees (cosponsors : List Address) :
    Agrees (Alike v) Eq (requireAuths env cosponsors) (requireAuths env cosponsors) := by
  induction cosponsors with
  | nil => exact agrees_unit _ _
  | cons sponsor rest ih => exact agrees_demand_bind ih

/-- The cosponsors' combined balance looks at the token alone. -/
theorem combinedBalance_agrees (cosponsors : List Address) (combined : I128) :
    Agrees (Alike v) Eq (combinedBalance cosponsors combined)
      (combinedBalance cosponsors combined) := by
  induction cosponsors generalizing combined with
  | nil => exact agrees_pure rfl
  | cons sponsor rest ih =>
    apply (queryToken_agrees _).bind_eq
    intro sponsorBalance
    exact agrees_okOr_bind fun sum _ => ih sum

/-- The lock of a deposit looks at the token and at the configuration alone. -/
theorem lockDeposit_agrees (config : Config) (proposer : Address) (id : ℕ) :
    Agrees (Alike v) Eq (lockDeposit env config proposer id)
      (lockDeposit env config proposer id) := by
  unfold lockDeposit
  split
  · exact (callToken_agrees _).bind_eq fun _ => storeDeposit_agrees id _
  · exact agrees_unit _ _

/-- The part of `indexProposal` about the proposer. -/
def indexProposer (env : Env) (proposer : Address) (id : ℕ) : GovernorM Unit := do
  let s ← read
  let newCount ← unwrap (checkedAddU64 ((s.governor.proposerCount proposer).getD 0) 1) .arithmetic
  store fun g => { g with
    proposerIndex := Function.update g.proposerIndex proposer
      (Function.update (g.proposerIndex proposer) newCount (some id)) }
  store fun g => { g with
    proposerCount := Function.update g.proposerCount proposer (some newCount) }
  store fun g => { g with
    lastProposal := Function.update g.lastProposal proposer (some env.sequence) }

/-- The index writes of a constructor, each as a write of its own. -/
theorem indexProposal_eq (proposer : Address) (cosponsors : List Address) (conviction : Bool)
    (id : ℕ) : indexProposal env proposer cosponsors conviction id =
      (if conviction = true then
        store fun g => { g with
          conviction := Function.update g.conviction id (some ⟨0, 0, env.sequence⟩) }
      else pure ()) >>= fun _ =>
        (if cosponsors ≠ [] then
          store fun g => { g with cosponsors := Function.update g.cosponsors id (some cosponsors) }
        else pure ()) >>= fun _ => indexProposer env proposer id := by
  unfold indexProposal
  by_cases hcosponsors : cosponsors ≠ []
  · cases conviction <;> simp only [if_pos hcosponsors] <;> rfl
  · cases conviction <;> simp only [if_neg hcosponsors] <;> rfl

/-- The index of proposers is one of the books. -/
theorem indexProposer_agrees (hlists : v.lists) (proposer : Address) (id : ℕ) :
    Agrees (Alike v) Eq (indexProposer env proposer id) (indexProposer env proposer id) := by
  apply agrees_read_bind
  intro s s' h
  rw [(h.lists hlists).proposerCount]
  apply agrees_unwrap_bind
  intro newCount _
  apply Agrees.bind_eq
  · exact agrees_store (fun _ => ⟨rfl, rfl, rfl⟩) (fun _ _ _ h => { h with })
      (fun _ _ h => { h with proposerIndex := by rw [h.proposerIndex] }) (fun _ _ h => { h with })
  intro _
  apply Agrees.bind_eq
  · exact agrees_store (fun _ => ⟨rfl, rfl, rfl⟩) (fun _ _ _ h => { h with })
      (fun _ _ h => { h with proposerCount := by rw [h.proposerCount] }) (fun _ _ h => { h with })
  intro _
  exact agrees_store (fun _ => ⟨rfl, rfl, rfl⟩) (fun _ _ _ h => { h with })
    (fun _ _ h => { h with lastProposal := by rw [h.lastProposal] }) (fun _ _ h => { h with })

/-- The index writes go the same way where the lists are looked at. -/
theorem indexProposal_agrees (hlists : v.lists) (proposer : Address) (cosponsors : List Address)
    (conviction : Bool) (id : ℕ) :
    Agrees (Alike v) Eq (indexProposal env proposer cosponsors conviction id)
      (indexProposal env proposer cosponsors conviction id) := by
  rw [indexProposal_eq]
  apply Agrees.bind_eq
  · split
    · exact storeConviction_agrees id _
    · exact agrees_unit _ _
  intro _
  apply Agrees.bind_eq
  · split
    · exact storeCosponsors_agrees id _
    · exact agrees_unit _ _
  intro _
  exact indexProposer_agrees hlists proposer id

/-- A constructor looks at the pause, the number of proposals and the proposer's last one. -/
theorem openProposal_agrees (hpause : v.pause) (hlists : v.lists) (proposer : Address)
    (cosponsors : List Address) (title description metadataUri : Text) (conviction : Bool) :
    Agrees (Alike v) Eq
      (openProposal env proposer cosponsors title description metadataUri conviction)
      (openProposal env proposer cosponsors title description metadataUri conviction) := by
  apply requireConfig_agrees.bind
  intro config config' hconfig
  obtain rfl := hconfig.eq hpause
  apply agrees_demand_bind
  have hvalidate : Agrees (Alike v) Eq (validateCosponsors cosponsors proposer)
      (validateCosponsors cosponsors proposer) :=
    agrees_rejectIf_bind (agrees_rejectIf Iff.rfl _)
  apply hvalidate.bind_eq
  intro _
  apply (requireAuths_agrees cosponsors).bind_eq
  intro _
  iterate 4 apply agrees_rejectIf_bind
  apply agrees_read_bind
  intro s s' h
  rw [(h.lists hlists).lastProposal, (h.lists hlists).proposalCount]
  apply agrees_rejectIf_bind
  apply agrees_unwrap_bind
  intro id _
  apply (queryToken_agrees _).bind_eq
  intro proposerBalance
  apply (combinedBalance_agrees cosponsors proposerBalance).bind_eq
  intro combined
  iterate 2 apply agrees_rejectIf_bind
  apply (queryToken_agrees _).bind_eq
  intro supply
  apply agrees_okOr_bind
  intro quorumRequired _
  apply agrees_okOr_bind
  intro startLedger _
  apply agrees_okOr_bind
  intro endLedger _
  apply (storeProposal_agrees (by rfl)).bind_eq
  intro _
  have hcount : Agrees (Alike v) Eq (store fun g => { g with proposalCount := some id })
      (store fun g => { g with proposalCount := some id }) :=
    agrees_store (fun _ => ⟨rfl, rfl, rfl⟩) (fun _ _ _ h => { h with })
      (fun _ _ h => { h with proposalCount := rfl }) (fun _ _ h => { h with })
  apply hcount.bind_eq
  intro _
  apply (lockDeposit_agrees config' proposer id).bind_eq
  intro _
  apply (indexProposal_agrees hlists proposer cosponsors conviction id).bind_eq
  intro _
  apply (publish_agrees _).bind_eq
  intro _
  exact agrees_pure rfl

/-! ### Roles and settings -/

/-- Related optional values are both there or both absent. -/
theorem isSome_of_rel {A B : Type} {V : A → B → Prop} {o : Option A} {o' : Option B}
    (h : Option.Rel V o o') : o.isSome = o'.isSome := by
  cases h <;> rfl

/-- `initialize` looks at the configuration's presence alone. -/
theorem initializeGovernor_agrees (admin guardian token : Address)
    (quorumBps votingPeriod timelockPeriod executionGracePeriod : ℕ) (proposalThreshold : I128) :
    Agrees (Alike v) Eq
      (initializeGovernor env admin guardian token quorumBps votingPeriod timelockPeriod
        executionGracePeriod proposalThreshold)
      (initializeGovernor env admin guardian token quorumBps votingPeriod timelockPeriod
        executionGracePeriod proposalThreshold) := by
  apply agrees_read_bind
  intro s s' h
  apply (agrees_rejectIf (by rw [isSome_of_rel h.config]) _).bind_eq
  intro _
  iterate 3 apply agrees_rejectIf_bind
  apply agrees_demand_bind
  apply (storeConfig_agrees (.refl v _)).bind_eq
  intro _
  have hcount : Agrees (Alike v) Eq (store fun g => { g with proposalCount := some 0 })
      (store fun g => { g with proposalCount := some 0 }) :=
    agrees_store (fun _ => ⟨rfl, rfl, rfl⟩) (fun _ _ _ h => { h with })
      (fun _ _ h => { h with proposalCount := rfl }) (fun _ _ h => { h with })
  apply hcount.bind_eq
  intro _
  exact publish_agrees _

/-- Storing the nominee keeps the states alike. -/
theorem storePendingAdmin_agrees (pending : Option Address) :
    Agrees (Alike v) Eq (store fun g => { g with pendingAdmin := pending })
      (store fun g => { g with pendingAdmin := pending }) :=
  agrees_write fun _ _ h => { h with
    pendingAdmin := rfl
    entries := fun i hi => { h.entries i hi with }
    lists := fun hv => { h.lists hv with }
    notes := { h.notes with } }

/-- A change of the allowlist looks at the configuration alone. -/
theorem setTargetAllowed_agrees (target : Address) (allowed : Bool) :
    Agrees (Alike v) Eq (setTargetAllowed env target allowed)
      (setTargetAllowed env target allowed) := by
  apply requireConfig_agrees.bind
  rintro config _ ⟨paused, rfl, -⟩
  apply agrees_demand_bind
  refine (agrees_write fun _ _ h => { h with
    allowedTarget := by
      rw [System.mapGovernor_governor, System.mapGovernor_governor, h.allowedTarget]
    entries := fun i hi => { h.entries i hi with }
    lists := fun hv => { h.lists hv with }
    notes := { h.notes with } }).bind_eq fun _ => ?_
  exact publish_agrees _

/-- A nomination looks at the configuration alone. -/
theorem transferAdmin_agrees (newAdmin : Address) :
    Agrees (Alike v) Eq (transferAdmin env newAdmin) (transferAdmin env newAdmin) := by
  apply getConfig_agrees.bind
  rintro config _ ⟨paused, rfl, -⟩
  apply agrees_demand_bind
  exact storePendingAdmin_agrees _

/-- The withdrawal of a nomination looks at the configuration and the nominee alone. -/
theorem cancelAdminTransfer_agrees :
    Agrees (Alike v) Eq (cancelAdminTransfer env) (cancelAdminTransfer env) := by
  apply getConfig_agrees.bind
  rintro config _ ⟨paused, rfl, -⟩
  apply agrees_demand_bind
  exact storePendingAdmin_agrees none

/-- The acceptance of a nomination looks at the configuration and the nominee alone. -/
theorem acceptAdmin_agrees : Agrees (Alike v) Eq (acceptAdmin env) (acceptAdmin env) := by
  apply agrees_read_bind
  intro s s' h
  rw [h.pendingAdmin]
  apply agrees_okOr_bind
  intro pending _
  apply agrees_demand_bind
  apply getConfig_agrees.bind
  rintro config _ ⟨paused, rfl, hsame⟩
  apply Agrees.bind_eq
  · exact storeConfig_agrees ⟨paused, rfl, hsame⟩
  intro _
  exact storePendingAdmin_agrees none

/-- A new deposit looks at the configuration alone, and not at its pause. -/
theorem setProposalDeposit_agrees (amount : I128) :
    Agrees (Alike v) Eq (setProposalDeposit env amount) (setProposalDeposit env amount) := by
  apply requireConfig_agrees.bind
  rintro config _ ⟨paused, rfl, hsame⟩
  apply agrees_demand_bind
  apply agrees_rejectIf_bind
  apply Agrees.bind_eq
  · exact storeConfig_agrees ⟨paused, rfl, hsame⟩
  intro _
  exact publish_agrees _

/-- A new cooldown looks at the configuration alone, and not at its pause. -/
theorem setProposerCooldown_agrees (ledgers : ℕ) :
    Agrees (Alike v) Eq (setProposerCooldown env ledgers) (setProposerCooldown env ledgers) := by
  apply requireConfig_agrees.bind
  rintro config _ ⟨paused, rfl, hsame⟩
  apply agrees_demand_bind
  apply Agrees.bind_eq
  · exact storeConfig_agrees ⟨paused, rfl, hsame⟩
  intro _
  exact publish_agrees _

/-- A new guardian looks at the configuration alone, and not at its pause. -/
theorem setGuardian_agrees (newGuardian : Address) :
    Agrees (Alike v) Eq (setGuardian env newGuardian) (setGuardian env newGuardian) := by
  apply requireConfig_agrees.bind
  rintro config _ ⟨paused, rfl, hsame⟩
  apply agrees_demand_bind
  apply Agrees.bind_eq
  · exact storeConfig_agrees ⟨paused, rfl, hsame⟩
  intro _
  exact publish_agrees _

/-- A pause looks at the roles alone, and leaves both states paused. -/
theorem pause_agrees (caller : Address) :
    Agrees (Alike v) Eq (pause env caller) (pause env caller) := by
  apply agrees_demand_bind
  apply getConfig_agrees.bind
  rintro config _ ⟨paused, rfl, -⟩
  apply agrees_rejectIf_bind
  apply Agrees.bind_eq
  · exact storeConfig_agrees (.refl v _)
  intro _
  exact publish_agrees _

/-- An unpause looks at the roles alone, and leaves both states unpaused. -/
theorem unpause_agrees : Agrees (Alike v) Eq (unpause env) (unpause env) := by
  apply getConfig_agrees.bind
  rintro config _ ⟨paused, rfl, -⟩
  apply agrees_demand_bind
  apply Agrees.bind_eq
  · exact storeConfig_agrees (.refl v _)
  intro _
  exact publish_agrees _

/-! ## Calls and runs -/

/-- What a call looks at is within the view. -/
def View.Covers (v : View) : Call → Prop
  | .createProposal .. | .createCosponsoredProposal .. | .createConvictionProposal .. =>
    v.pause ∧ v.lists
  | .beginExecution _ id => id ∈ v.ids ∧ v.pause
  | .vote _ id _ | .finalize id | .markExpired id | .cancel _ id | .veto _ id _
  | .setProposalAction _ id _ _ _ | .extendProposalTtl id => id ∈ v.ids
  | _ => True

/-- Dropping the value of an operation shows no more of the state. -/
theorem discard_agrees {A : Type} {m : GovernorM A} (h : Agrees (Alike v) Eq m m) :
    Agrees (Alike v) Eq (discard m) (discard m) := h.bind_eq fun _ => agrees_unit _ _

/-- A covered call has the same outcome in states that look the same, and leaves such states. -/
theorem invoke_agrees {c : Call} (h : v.Covers c) :
    Agrees (Alike v) Eq (invoke env c) (invoke env c) := by
  cases c with
  | initializeGovernor => exact initializeGovernor_agrees _ _ _ _ _ _ _ _
  | createProposal | createCosponsoredProposal | createConvictionProposal =>
    exact discard_agrees (openProposal_agrees h.1 h.2 _ _ _ _ _ _)
  | vote voter id support => exact vote_agrees h voter support
  | delegate delegator delegatee => exact delegate_agrees delegator delegatee
  | undelegate delegator => exact delegate_agrees delegator delegator
  | finalize id => exact discard_agrees (finalize_agrees h)
  | beginExecution executor id => exact discard_agrees (beginExecution_agrees h.1 h.2 executor)
  | endExecution executor id => exact publish_agrees _
  | markExpired id => exact markExpired_agrees h
  | cancel caller id => exact cancel_agrees h caller
  | veto caller id reason => exact veto_agrees h caller reason
  | setProposalAction => exact setProposalAction_agrees h _ _ _ _
  | allowTarget target => exact setTargetAllowed_agrees target true
  | disallowTarget target => exact setTargetAllowed_agrees target false
  | transferAdmin newAdmin => exact transferAdmin_agrees newAdmin
  | acceptAdmin => exact acceptAdmin_agrees
  | cancelAdminTransfer => exact cancelAdminTransfer_agrees
  | setProposalDeposit amount => exact setProposalDeposit_agrees amount
  | setProposerCooldown ledgers => exact setProposerCooldown_agrees ledgers
  | setGuardian newGuardian => exact setGuardian_agrees newGuardian
  | pause caller => exact pause_agrees caller
  | unpause => exact unpause_agrees
  | extendProposalTtl id => exact extendProposalTtl_agrees h

/-- Calls of the token are covered by every view. -/
def View.CoversInvocation (v : View) : Invocation → Prop
  | .token _ => True
  | .governor _ c => v.Covers c

/-- A covered call is accepted in both states or in neither. -/
theorem Alike.accepted_iff {c : Call} (hs : Alike v s s') (h : v.Covers c) :
    Accepted env c s ↔ Accepted env c s' := (invoke_agrees h).succeeds_iff hs

/-- An invocation that the observer's view covers keeps the states alike. -/
theorem Alike.step {i : Invocation} (hs : Alike v s s') (h : v.CoversInvocation i) :
    Alike v (machine.step i s) (machine.step i s') := by
  cases i with
  | token i =>
    change Alike v { s with token := Token.machine.step i s.token }
      { s' with token := Token.machine.step i s'.token }
    rw [hs.token]
    exact hs.setToken _
  | governor env c => exact (invoke_agrees h).commit hs

/-- Covered runs from states that look the same lead to states that look the same. -/
theorem Alike.run {calls : List Invocation} (hs : Alike v s s')
    (h : ∀ i ∈ calls, v.CoversInvocation i) :
    Alike v (machine.run s calls) (machine.run s' calls) :=
  machine.run_related (fun i hi _ _ hs => hs.step (h i hi)) hs

/-- Every governor call of a covered run is accepted in both runs or in neither. -/
theorem Alike.accepted_run {calls first later : List Invocation} {c : Call} (hs : Alike v s s')
    (h : ∀ i ∈ calls, v.CoversInvocation i) (hcalls : calls = first ++ .governor env c :: later) :
    Accepted env c (machine.run s first) ↔ Accepted env c (machine.run s' first) := by
  subst hcalls
  have hfirst := hs.run fun i hi => h i (List.mem_append_left _ hi)
  exact hfirst.accepted_iff (h (.governor env c) (by simp))

end Quorum.Governor

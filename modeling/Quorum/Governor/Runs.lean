import Quorum.Governor.Inversion
import Quorum.Token.Representation

/-!
# Runs of the two contracts

A step of the system is a call of the token, a successful call of the governor with one of the
listed effects, or nothing. Whatever happens, the token part of a run is a run of the token, so
what holds of every run of the token holds inside the system; and a stored proposal keeps its
terms, while proposals that are not stored have neither votes nor conviction.

`execute_run` places a whole execution, with everything that the dispatched contracts call back
into, in a run.
-/

namespace Quorum.Governor

open Foundation Contract

variable {s s' : System} {env : Env} {start now : ℕ}

/-! ## Steps -/

/-- What a step of the system does. -/
inductive Step : Invocation → System → System → Prop
  | token {i : Token.Invocation} {s : System} {t : Token.Storage}
      (h : Token.machine.Advances i.env.sequence s.token t) :
      Step (.token i) s { s with token := t }
  | governor {env : Env} {c : Call} {s s' : System} (hret : (invoke env c).Returns s () s')
      (h : Effect env c s s') : Step (.governor env c) s s'
  | refused {i : Invocation} {s : System} : Step i s s

/-- The call is one the governor accepts in this state. -/
def Accepted (env : Env) (c : Call) (s : System) : Prop := (invoke env c).Succeeds s

instance Accepted.decidable {c : Call} : Decidable (Accepted env c s) :=
  inferInstanceAs (Decidable ((invoke env c).Succeeds s))

/-- An accepted call returns what the machine's step leaves. -/
theorem Accepted.returns {c : Call} (h : Accepted env c s) :
    (invoke env c).Returns s () (machine.step (.governor env c) s) := by
  obtain ⟨u, s', hret⟩ := h
  rw [show machine.step (.governor env c) s = s' from hret.commit_eq]
  exact hret

/-- An accepted call has its effect on the state after the step. -/
theorem Accepted.effect {c : Call} (hblank : Blank s) (h : Accepted env c s) :
    Effect env c s (machine.step (.governor env c) s) := invoke_effect hblank h.returns

/-- A call that is not accepted changes nothing. -/
theorem step_eq_of_not_accepted {c : Call} (h : ¬ Accepted env c s) :
    machine.step (.governor env c) s = s := by
  rcases commit_cases (invoke env c) s with ⟨u, s', hret, -⟩ | hcommit
  · exact absurd ⟨u, s', hret⟩ h
  · exact hcommit

/-- What the machine does at an invocation is one of the steps. -/
theorem machine_step (hblank : Blank s) (i : Invocation) : Step i s (machine.step i s) := by
  cases i with
  | token i => exact .token (.single (m := Token.machine) i s.token)
  | governor env c =>
    by_cases haccepted : Accepted env c s
    · exact .governor haccepted.returns (haccepted.effect hblank)
    · rw [step_eq_of_not_accepted haccepted]
      exact .refused

/-- Every step of the system leads the token on by a run of its own calls. -/
theorem Step.advances {i : Invocation} (h : Step i s s') :
    Token.machine.Advances i.sequence s.token s'.token := by
  cases h with
  | token h => exact h
  | governor hret h => exact h.token
  | refused => exact .refl _ _

/-! ## What a stored proposal keeps -/

/-- The two versions of a proposal differ at most in tallies, queue ledger and status. -/
structure Kept (p p' : Proposal) : Prop where
  id : p'.id = p.id
  proposer : p'.proposer = p.proposer
  title : p'.title = p.title
  description : p'.description = p.description
  snapshotLedger : p'.snapshotLedger = p.snapshotLedger
  startLedger : p'.startLedger = p.startLedger
  endLedger : p'.endLedger = p.endLedger
  quorumRequired : p'.quorumRequired = p.quorumRequired
  timelockPeriod : p'.timelockPeriod = p.timelockPeriod
  metadataUri : p'.metadataUri = p.metadataUri
  kind : p'.kind = p.kind

namespace Kept

/-- A proposal keeps its fixed fields. -/
theorem refl (p : Proposal) : Kept p p := ⟨rfl, rfl, rfl, rfl, rfl, rfl, rfl, rfl, rfl, rfl, rfl⟩

/-- The fixed fields are kept from one call to the next. -/
theorem trans {p₁ p₂ p₃ : Proposal} (h : Kept p₁ p₂) (h' : Kept p₂ p₃) : Kept p₁ p₃ :=
  ⟨h'.id.trans h.id, h'.proposer.trans h.proposer, h'.title.trans h.title,
    h'.description.trans h.description, h'.snapshotLedger.trans h.snapshotLedger,
    h'.startLedger.trans h.startLedger, h'.endLedger.trans h.endLedger,
    h'.quorumRequired.trans h.quorumRequired, h'.timelockPeriod.trans h.timelockPeriod,
    h'.metadataUri.trans h.metadataUri, h'.kind.trans h.kind⟩

/-- Setting the queue ledger and the status keeps everything else. -/
theorem setStatus (p : Proposal) (queueLedger : ℕ) (status : ProposalStatus) :
    Kept p { p with queueLedger := queueLedger, status := status } :=
  ⟨rfl, rfl, rfl, rfl, rfl, rfl, rfl, rfl, rfl, rfl, rfl⟩

/-- A new tally keeps the fixed fields. -/
theorem setTally (p : Proposal) (support : ℕ) (value : I128) : Kept p (p.setTally support value) := by
  unfold Proposal.setTally
  split <;> exact ⟨rfl, rfl, rfl, rfl, rfl, rfl, rfl, rfl, rfl, rfl, rfl⟩

/-- Taking an earlier ballot out of its tally keeps the fixed fields. -/
theorem uncount {p q : Proposal} {previous : Option ℕ} {votingPower : I128}
    (h : Governor.uncount p previous votingPower = some q) : Kept p q := by
  cases previous with
  | none => exact Option.some.inj h ▸ refl p
  | some support =>
    obtain ⟨rest, -, rfl⟩ := Option.map_eq_some_iff.mp h
    exact setTally p support rest

/-- Counting a ballot keeps the fixed fields. -/
theorem count {p q : Proposal} {support : ℕ} {votingPower : I128}
    (h : Governor.count p support votingPower = some q) : Kept p q := by
  obtain ⟨sum, -, rfl⟩ := Option.map_eq_some_iff.mp h
  exact setTally p support sum

end Kept

/-- The tallies of the two versions of a proposal are the same. -/
structure SameTallies (p p' : Proposal) : Prop where
  forVotes : p'.forVotes = p.forVotes
  againstVotes : p'.againstVotes = p.againstVotes
  abstainVotes : p'.abstainVotes = p.abstainVotes

/-- A proposal has the tallies of itself. -/
theorem SameTallies.refl (p : Proposal) : SameTallies p p := ⟨rfl, rfl, rfl⟩

/-- Setting the queue ledger and the status keeps the tallies. -/
theorem SameTallies.setStatus (p : Proposal) (queueLedger : ℕ) (status : ProposalStatus) :
    SameTallies p { p with queueLedger := queueLedger, status := status } := ⟨rfl, rfl, rfl⟩

/-- With the same tallies each choice has the same. -/
theorem SameTallies.tally {p p' : Proposal} (h : SameTallies p p') (support : ℕ) :
    p'.tally support = p.tally support := by
  unfold Proposal.tally
  rw [h.forVotes, h.againstVotes, h.abstainVotes]

/-- What a change does to proposals and votes, with the changes of status taken together. -/
inductive Outline (env : Env) (c : Call) (s s' : System) : Prop
  | quiet (hcall : ∀ voter id support, c ≠ .vote voter id support) (h : Undisturbed s s')
  | opened {config : Config} {proposer : Address} {conviction : Bool} {p : Proposal}
      (hcall : ∀ voter id support, c ≠ .vote voter id support)
      (h : Opens env config proposer conviction p s s')
  | voted {voter : Address} {id support : ℕ} {p counted : Proposal} {votingPower : I128}
      (hcall : c = .vote voter id support)
      (h : Votes env voter id support p counted votingPower s s')
  | restated {id : ℕ} {p p' : Proposal} (hcall : ∀ voter id support, c ≠ .vote voter id support)
      (hkept : Kept p p') (htallies : SameTallies p p') (h : Restates id p p' s s')

/-- One stored proposal is replaced by another version of it; other proposals keep their votes
and conviction. -/
structure Revises (id : ℕ) (p p' : Proposal) (s s' : System) : Prop where
  stored : s.governor.proposal id = some p
  proposalCount : s'.governor.proposalCount = s.governor.proposalCount
  proposal : s'.governor.proposal = Function.update s.governor.proposal id (some p')
  kept : Kept p p'
  choices : ∀ voter support, s'.governor.hasVoted id voter = some support →
    s.governor.hasVoted id voter = some support ∨ support ≤ 2
  hasVoted : ∀ other, other ≠ id → s'.governor.hasVoted other = s.governor.hasVoted other
  conviction : ∀ other, other ≠ id → s'.governor.conviction other = s.governor.conviction other

/-- A restated proposal is revised when its fixed fields are kept. -/
theorem Restates.revises {id : ℕ} {p p' : Proposal} (h : Restates id p p' s s') (hkept : Kept p p') :
    Revises id p p' s s' :=
  ⟨h.stored, h.proposalCount, h.proposal, hkept,
    fun voter support hchoice => .inl (h.hasVoted ▸ hchoice),
    fun other _ => by rw [h.hasVoted], fun other _ => by rw [h.conviction]⟩

/-- Opening a proposal leaves the conviction tallies of the others. -/
theorem Opens.conviction_other {config : Config} {proposer : Address} {conviction : Bool}
    {p : Proposal} (h : Opens env config proposer conviction p s s') {other : ℕ}
    (hother : other ≠ p.id) : s'.governor.conviction other = s.governor.conviction other := by
  rw [h.conviction]
  split
  · exact Function.update_of_ne hother _ _
  · rfl

/-- A new proposal has a fresh conviction tally or none. -/
theorem Opens.conviction_self {config : Config} {proposer : Address} {conviction : Bool}
    {p : Proposal} (h : Opens env config proposer conviction p s s') :
    s'.governor.conviction p.id = some ⟨0, 0, env.sequence⟩ ∨
      s'.governor.conviction p.id = s.governor.conviction p.id := by
  rw [h.conviction]
  split
  · exact .inl (Function.update_self _ _ _)
  · exact .inr rfl

/-- A conviction vote leaves the conviction of other proposals. -/
theorem ConvictionVoted.other {id support other : ℕ} {votingPower : I128}
    {tallies tallies' : ℕ → Option ConvictionTally}
    (h : ConvictionVoted now id support votingPower tallies tallies') (hother : other ≠ id) :
    tallies' other = tallies other := by
  unfold ConvictionVoted at h
  split at h
  · obtain ⟨conviction, -, rfl⟩ := h
    exact Function.update_of_ne hother _ _
  · rw [h]

/-- A vote keeps the fixed fields of its proposal. -/
theorem Votes.kept {voter : Address} {id support : ℕ} {p counted : Proposal} {votingPower : I128}
    (h : Votes env voter id support p counted votingPower s s') : Kept p counted := by
  obtain ⟨q, huncount, hcount⟩ := h.recount
  exact (Kept.uncount huncount).trans (Kept.count hcount)

/-- A vote revises its proposal. -/
theorem Votes.revises {voter : Address} {id support : ℕ} {p counted : Proposal}
    {votingPower : I128} (h : Votes env voter id support p counted votingPower s s') :
    Revises id p counted s s' where
  stored := h.stored
  proposalCount := h.proposalCount
  proposal := h.proposal
  kept := h.kept
  choices v x hchoice := by
    rw [h.hasVoted, Function.update_self] at hchoice
    by_cases hv : v = voter
    · subst hv
      rw [Function.update_self] at hchoice
      exact .inr (Option.some.inj hchoice ▸ h.choice)
    · rw [Function.update_of_ne hv] at hchoice
      exact .inl hchoice
  hasVoted other hother := by rw [h.hasVoted, Function.update_of_ne hother]
  conviction other hother := h.conviction.other hother

/-- Every change disturbs no proposal, opens one, votes on one, or restates one. -/
theorem Change.outline {c : Call} (h : Change env c s s') : Outline env c s s' := by
  cases h with
  | quiet hquiet h => exact .quiet (by rintro _ _ _ rfl; contradiction) h
  | opened hopens h => exact .opened (by rintro _ _ _ rfl; contradiction) h
  | voted h => exact .voted rfl h
  | queued _ _ _ _ _ h =>
    exact .restated (by rintro _ _ _ ⟨⟩) (.setStatus _ _ _) (.setStatus _ _ _) h
  | failed _ _ _ _ h =>
    exact .restated (by rintro _ _ _ ⟨⟩) (.setStatus _ _ _) (.setStatus _ _ _) h
  | executed _ _ _ _ _ h =>
    exact .restated (by rintro _ _ _ ⟨⟩) (.setStatus _ _ _) (.setStatus _ _ _) h
  | cancelled _ _ _ _ _ h =>
    exact .restated (by rintro _ _ _ ⟨⟩) (.setStatus _ _ _) (.setStatus _ _ _) h
  | vetoed _ _ _ _ _ h =>
    exact .restated (by rintro _ _ _ ⟨⟩) (.setStatus _ _ _) (.setStatus _ _ _) h
  | expired _ _ _ _ h =>
    exact .restated (by rintro _ _ _ ⟨⟩) (.setStatus _ _ _) (.setStatus _ _ _) h

/-- A change leaves proposals alone, opens one, or revises one. -/
theorem Change.revises {c : Call} (h : Change env c s s') :
    Undisturbed s s' ∨
      (∃ config proposer conviction p, Opens env config proposer conviction p s s') ∨
      ∃ id p p', Revises id p p' s s' := by
  cases h.outline with
  | quiet _ h => exact .inl h
  | opened _ h => exact .inr (.inl ⟨_, _, _, _, h⟩)
  | voted _ h => exact .inr (.inr ⟨_, _, _, h.revises⟩)
  | restated _ hkept _ h => exact .inr (.inr ⟨_, _, _, h.revises hkept⟩)

/-! ## The invariant -/

/-- What holds of every stored proposal. -/
structure ProposalWellFormed (now : ℕ) (config : Option Config) (p : Proposal) : Prop where
  opened : p.snapshotLedger ≤ now
  startLedger : p.startLedger = p.snapshotLedger + 1
  endLedger : ∃ c, config = some c ∧ p.endLedger = p.startLedger + c.votingPeriod
  timelock : minTimelockPeriod ≤ p.timelockPeriod

/-- What holds of the governor in every reachable state. -/
structure WellFormed (now : ℕ) (s : System) : Prop where
  blank : Blank s
  timelock : ∀ c, s.governor.config = some c → minTimelockPeriod ≤ c.timelockPeriod
  unopened : ∀ id, s.governor.proposalCount.getD 0 < id → s.governor.proposal id = none
  ids : ∀ id p, s.governor.proposal id = some p → p.id = id
  proposals : ∀ id p, s.governor.proposal id = some p →
    ProposalWellFormed now s.governor.config p
  choices : ∀ id voter support, s.governor.hasVoted id voter = some support → support ≤ 2
  untouched : ∀ id, s.governor.proposal id = none →
    (∀ voter, s.governor.hasVoted id voter = none) ∧ s.governor.conviction id = none

/-- A stored configuration stays stored, with its terms. -/
theorem Configures.some {config : Config} (h : Configures s s')
    (hconfig : s.governor.config = some config) :
    ∃ config', s'.governor.config = some config' ∧ SameTerms config config' := by
  unfold Configures at h
  rw [hconfig] at h
  exact h

/-- A configuration is never removed. -/
theorem Configures.none (h : Configures s s') (hnone : s'.governor.config = none) :
    s.governor.config = none := by
  cases hconfig : s.governor.config with
  | none => rfl
  | some config =>
    obtain ⟨config', hsome, -⟩ := h.some hconfig
    rw [hnone] at hsome
    contradiction

namespace ProposalWellFormed

variable {p p' : Proposal}

/-- Voting does not end before it starts. -/
theorem window {config : Option Config} (h : ProposalWellFormed now config p) :
    p.startLedger ≤ p.endLedger := by
  obtain ⟨c, -, hend⟩ := h.endLedger
  omega

/-- A well-formed proposal is so at every later ledger. -/
theorem mono {later : ℕ} {config : Option Config} (h : ProposalWellFormed now config p)
    (hle : now ≤ later) : ProposalWellFormed later config p :=
  ⟨h.opened.trans hle, h.startLedger, h.endLedger, h.timelock⟩

/-- A change of the configuration keeps proposals well formed. -/
theorem configures (h : ProposalWellFormed now s.governor.config p) (hc : Configures s s') :
    ProposalWellFormed now s'.governor.config p := by
  obtain ⟨config, hconfig, hend⟩ := h.endLedger
  obtain ⟨config', hconfig', hterms⟩ := hc.some hconfig
  exact ⟨h.opened, h.startLedger, ⟨config', hconfig', by rw [hend, hterms.votingPeriod]⟩,
    h.timelock⟩

/-- A proposal with the same fixed fields is as well formed. -/
theorem kept {config : Option Config} (h : ProposalWellFormed now config p) (hkept : Kept p p') :
    ProposalWellFormed now config p' := by
  obtain ⟨c, hconfig, hend⟩ := h.endLedger
  exact ⟨by rw [hkept.snapshotLedger]; exact h.opened,
    by rw [hkept.startLedger, hkept.snapshotLedger]; exact h.startLedger,
    ⟨c, hconfig, by rw [hkept.endLedger, hkept.startLedger]; exact hend⟩,
    by rw [hkept.timelockPeriod]; exact h.timelock⟩

end ProposalWellFormed

namespace WellFormed

/-- The empty state is well formed. -/
theorem empty (now : ℕ) : WellFormed now System.empty where
  blank _ := rfl
  timelock _ h := by simp [System.empty, Storage.empty] at h
  unopened _ _ := rfl
  ids _ _ h := by simp [System.empty, Storage.empty] at h
  proposals _ _ h := by simp [System.empty, Storage.empty] at h
  choices _ _ _ h := by simp [System.empty, Storage.empty] at h
  untouched _ _ := ⟨fun _ => rfl, rfl⟩

/-- A well-formed state stays so as ledgers pass. -/
theorem mono {later : ℕ} (h : WellFormed now s) (hle : now ≤ later) : WellFormed later s :=
  ⟨h.blank, h.timelock, h.unopened, h.ids, fun id p hp => (h.proposals id p hp).mono hle,
    h.choices, h.untouched⟩

/-- An accepted call leaves nothing under ids beyond the count. -/
theorem blank_effect {c : Call} (h : WellFormed now s) (he : Effect env c s s') : Blank s' := by
  intro hnone
  have hold := he.config.none hnone
  rcases he.change.revises with hquiet | ⟨config, _, _, _, hopens⟩ | ⟨id, p, p', hrevises⟩
  · rw [hquiet.proposalCount]
    exact h.blank hold
  · rw [hopens.configured] at hold
    contradiction
  · rw [hrevises.proposalCount]
    exact h.blank hold

/-- An accepted call leaves the timelock no shorter than the least allowed. -/
theorem timelock_effect {c : Call} (h : WellFormed now s) (he : Effect env c s s')
    (config' : Config) (hconfig' : s'.governor.config = some config') :
    minTimelockPeriod ≤ config'.timelockPeriod := by
  cases hconfig : s.governor.config with
  | none =>
    have hset := he.config
    unfold Configures at hset
    rw [hconfig] at hset
    exact (hset config' hconfig').2.2
  | some config =>
    obtain ⟨config'', hsome, hterms⟩ := he.config.some hconfig
    obtain rfl : config'' = config' := Option.some.inj (hsome.symm.trans hconfig')
    rw [hterms.timelockPeriod]
    exact h.timelock config hconfig

/-- A new proposal starts without votes and conviction, because nothing is stored under ids
beyond the counter. -/
theorem fresh {config : Config} {proposer : Address} {conviction : Bool} {p : Proposal}
    (h : WellFormed now s) (hopens : Opens env config proposer conviction p s s') :
    s.governor.proposal p.id = none ∧ (∀ voter, s.governor.hasVoted p.id voter = none) ∧
      s.governor.conviction p.id = none := by
  have hnone := h.unopened p.id (by rw [hopens.id]; omega)
  exact ⟨hnone, h.untouched p.id hnone⟩

/-- An opened proposal is well formed. -/
theorem opened {config : Config} {proposer : Address} {conviction : Bool} {p : Proposal}
    (h : WellFormed env.sequence s) (hopens : Opens env config proposer conviction p s s')
    (hc : Configures s s') : ProposalWellFormed env.sequence s'.governor.config p := by
  apply ProposalWellFormed.configures _ hc
  exact ⟨hopens.snapshotLedger.le, by rw [hopens.startLedger, hopens.snapshotLedger],
    ⟨config, hopens.configured, by rw [hopens.endLedger, hopens.startLedger]⟩,
    hopens.timelockPeriod ▸ h.timelock config hopens.configured⟩

/-- A change leaves every proposal stored under its own id. -/
theorem ids_change {c : Call} (h : WellFormed now s) (hc : Change env c s s') (id : ℕ)
    (p : Proposal) (hp : s'.governor.proposal id = some p) : p.id = id := by
  rcases hc.revises with hquiet | ⟨config, _, _, q, hopens⟩ | ⟨other, q, q', hrevises⟩
  · rw [hquiet.proposal] at hp
    exact h.ids id p hp
  · rw [hopens.proposal] at hp
    by_cases hid : id = q.id
    · rw [hid, Function.update_self] at hp
      rw [hid, Option.some.inj hp]
    · rw [Function.update_of_ne hid] at hp
      exact h.ids id p hp
  · rw [hrevises.proposal] at hp
    by_cases hid : id = other
    · rw [hid, Function.update_self] at hp
      rw [hid, ← Option.some.inj hp, hrevises.kept.id]
      exact h.ids other q hrevises.stored
    · rw [Function.update_of_ne hid] at hp
      exact h.ids id p hp

/-- A call that disturbs no proposal keeps the state well formed. -/
theorem of_undisturbed {c : Call} (h : WellFormed env.sequence s) (he : Effect env c s s')
    (hquiet : Undisturbed s s') : WellFormed env.sequence s' where
  blank := h.blank_effect he
  timelock := h.timelock_effect he
  unopened := by
    rw [hquiet.proposalCount, hquiet.proposal]
    exact h.unopened
  ids := h.ids_change he.change
  proposals id p hp := by
    rw [hquiet.proposal] at hp
    exact (h.proposals id p hp).configures he.config
  choices := by
    rw [hquiet.hasVoted]
    exact h.choices
  untouched := by
    rw [hquiet.proposal, hquiet.hasVoted, hquiet.conviction]
    exact h.untouched

/-- An opening keeps the state well formed. -/
theorem of_opens {c : Call} {config : Config} {proposer : Address} {conviction : Bool}
    {q : Proposal} (h : WellFormed env.sequence s) (he : Effect env c s s')
    (hopens : Opens env config proposer conviction q s s') : WellFormed env.sequence s' where
  blank := h.blank_effect he
  timelock := h.timelock_effect he
  unopened id hid := by
    rw [hopens.proposalCount, Option.getD_some] at hid
    rw [hopens.proposal, Function.update_of_ne hid.ne']
    exact h.unopened id (by rw [hopens.id] at hid; omega)
  ids := h.ids_change he.change
  proposals id p hp := by
    rw [hopens.proposal] at hp
    by_cases hid : id = q.id
    · subst hid
      rw [Function.update_self] at hp
      obtain rfl := Option.some.inj hp
      exact h.opened hopens he.config
    · rw [Function.update_of_ne hid] at hp
      exact (h.proposals id p hp).configures he.config
  choices := by
    rw [hopens.hasVoted]
    exact h.choices
  untouched id hnone := by
    rw [hopens.proposal] at hnone
    have hid : id ≠ q.id := by
      rintro rfl
      rw [Function.update_self] at hnone
      contradiction
    rw [Function.update_of_ne hid] at hnone
    obtain ⟨hvotes, hconviction⟩ := h.untouched id hnone
    exact ⟨by rw [hopens.hasVoted]; exact hvotes,
      (hopens.conviction_other hid).trans hconviction⟩

/-- A revision keeps the state well formed. -/
theorem of_revises {c : Call} {id : ℕ} {p p' : Proposal} (h : WellFormed env.sequence s)
    (he : Effect env c s s') (hrevises : Revises id p p' s s') : WellFormed env.sequence s' where
  blank := h.blank_effect he
  timelock := h.timelock_effect he
  unopened other hother := by
    rw [hrevises.proposalCount] at hother
    have hnone := h.unopened other hother
    have hne : other ≠ id := by
      rintro rfl
      rw [hrevises.stored] at hnone
      contradiction
    rw [hrevises.proposal, Function.update_of_ne hne]
    exact hnone
  ids := h.ids_change he.change
  proposals other r hr := by
    rw [hrevises.proposal] at hr
    by_cases hother : other = id
    · subst hother
      rw [Function.update_self] at hr
      obtain rfl := Option.some.inj hr
      exact ((h.proposals other p hrevises.stored).configures he.config).kept hrevises.kept
    · rw [Function.update_of_ne hother] at hr
      exact (h.proposals other r hr).configures he.config
  choices other voter support hchoice := by
    by_cases hother : other = id
    · subst hother
      rcases hrevises.choices voter support hchoice with hchoice | hle
      · exact h.choices other voter support hchoice
      · exact hle
    · rw [hrevises.hasVoted other hother] at hchoice
      exact h.choices other voter support hchoice
  untouched other hnone := by
    rw [hrevises.proposal] at hnone
    have hother : other ≠ id := by
      rintro rfl
      rw [Function.update_self] at hnone
      contradiction
    rw [Function.update_of_ne hother] at hnone
    rw [hrevises.hasVoted other hother, hrevises.conviction other hother]
    exact h.untouched other hnone

/-- A successful call keeps the governor well formed. -/
theorem effect {c : Call} (h : WellFormed env.sequence s) (he : Effect env c s s') :
    WellFormed env.sequence s' := by
  rcases he.change.revises with hquiet | ⟨config, _, _, q, hopens⟩ | ⟨id, p, p', hrevises⟩
  · exact h.of_undisturbed he hquiet
  · exact h.of_opens he hopens
  · exact h.of_revises he hrevises

/-- Every step keeps the state well formed. -/
theorem step {i : Invocation} (h : WellFormed i.sequence s) (hs : Step i s s') :
    WellFormed i.sequence s' := by
  cases hs with
  | token _ => exact ⟨h.blank, h.timelock, h.unopened, h.ids, h.proposals, h.choices, h.untouched⟩
  | governor hret he => exact h.effect he
  | refused => exact h

/-- Every run keeps the state well formed. -/
theorem run {calls : List Invocation} (h : WellFormed start s)
    (hcalls : machine.Scheduled start now calls) : WellFormed now (machine.run s calls) :=
  machine.run_invariant WellFormed (fun _ _ _ h hle => h.mono hle)
    (fun i _ h => h.step (machine_step h.blank i)) h hcalls

end WellFormed

/-- Every reachable state is well formed. -/
theorem wellFormed_run {calls : List Invocation} (hcalls : machine.Scheduled start now calls) :
    WellFormed now (machine.run System.empty calls) := (WellFormed.empty start).run hcalls

/-! ## The token inside the system -/

/-- The token of the system takes its own calls only. -/
theorem follows_token : Clocked.Follows machine Token.machine System.token WellFormed where
  mono _ _ _ h hle := h.mono hle
  step i _ h := h.step (machine_step h.blank i)
  advances i _ h := (machine_step h.blank i).advances

/-- The token of a system started empty has run on its own, from its own empty storage. -/
theorem token_run {calls : List Invocation} (hcalls : machine.Scheduled start now calls) :
    ∃ tokenCalls, Token.machine.Scheduled start now tokenCalls ∧
      (machine.run System.empty calls).token =
        Token.machine.run Token.Storage.empty tokenCalls ∧
      ∀ bound, (machine.stateBefore System.empty calls bound).token =
        Token.machine.stateBefore Token.Storage.empty tokenCalls bound :=
  follows_token.run (WellFormed.empty start) hcalls

/-- In every reachable state of the system the token is sound. -/
theorem token_sound {calls : List Invocation} (hcalls : machine.Scheduled start now calls) :
    Token.Sound now (machine.run System.empty calls).token := by
  obtain ⟨tokenCalls, hsched, hrun, -⟩ := token_run hcalls
  rw [hrun]
  exact (Token.Sound.empty start).run hsched

/-- Before any ledger of a run the balances of the token add up to its supply. -/
theorem solvent_stateBefore {calls : List Invocation} (hcalls : machine.Scheduled start now calls)
    (bound : ℕ) : Token.Solvent (machine.stateBefore System.empty calls bound).token := by
  obtain ⟨tokenCalls, -, -, hbefore⟩ := token_run hcalls
  rw [hbefore]
  exact (Token.Solvent.empty.run _).1

/-! ## Proposals along a run -/

/-- Once a proposal is stored it stays, with its terms. -/
theorem Step.kept {i : Invocation} {id : ℕ} {p : Proposal} (hw : WellFormed now s)
    (h : Step i s s') (hp : s.governor.proposal id = some p) :
    ∃ p', s'.governor.proposal id = some p' ∧ Kept p p' := by
  cases h with
  | token _ => exact ⟨p, hp, .refl p⟩
  | refused => exact ⟨p, hp, .refl p⟩
  | governor hret he =>
    rcases he.change.revises with hquiet | ⟨config, _, _, q, hopens⟩ | ⟨other, q, q', hrevises⟩
    · exact ⟨p, by rw [hquiet.proposal, hp], .refl p⟩
    · have hne : id ≠ q.id := by
        rintro rfl
        rw [(hw.fresh hopens).1] at hp
        contradiction
      exact ⟨p, by rw [hopens.proposal, Function.update_of_ne hne, hp], .refl p⟩
    · by_cases hother : id = other
      · subst hother
        obtain rfl : q = p := Option.some.inj (hrevises.stored.symm.trans hp)
        exact ⟨q', by rw [hrevises.proposal, Function.update_self], hrevises.kept⟩
      · exact ⟨p, by rw [hrevises.proposal, Function.update_of_ne hother, hp], .refl p⟩

/-- A stored proposal stays stored through every run, with its fixed fields. -/
theorem kept_run {calls : List Invocation} {id : ℕ} {p : Proposal} (hw : WellFormed start s)
    (hcalls : machine.Scheduled start now calls) (hp : s.governor.proposal id = some p) :
    ∃ p', (machine.run s calls).governor.proposal id = some p' ∧ Kept p p' := by
  induction calls generalizing start s p with
  | nil => exact ⟨p, hp, .refl p⟩
  | cons i rest ih =>
    have hi := hw.mono hcalls.1
    have hstep := machine_step hi.blank i
    obtain ⟨q, hq, hkept⟩ := hstep.kept hi hp
    obtain ⟨p', hp', hkept'⟩ := ih (hi.step hstep) hcalls.2 hq
    exact ⟨p', hp', hkept.trans hkept'⟩

/-! ## Executions -/

/-- All that the dispatched contracts do to the system are calls made at the same ledger. -/
def CallsBack (callee : Callee) : Prop :=
  ∀ env action s s', callee env action s = some s' → machine.Advances env.sequence s s'

/-- What the actions dispatch is a run of calls in the ledger of the execution. -/
theorem dispatchActions_returns {callee : Callee} (hcallee : CallsBack callee)
    {actions : List ProposalAction} {u : Unit}
    (h : (dispatchActions callee env actions).Returns s u s') :
    machine.Advances env.sequence s s' := by
  induction actions generalizing s with
  | nil =>
    rw [(returns_pure_iff.mp h).2]
    exact .refl _ s'
  | cons action rest ih =>
    rw [dispatchActions, returns_read_bind_iff, returns_okOr_bind_iff] at h
    obtain ⟨s₁, hcall, h⟩ := h
    exact (hcallee env action s s₁ hcall).trans (ih h)

/-- A successful execution is a run: the checks and the terminal state first, then whatever the
dispatched contracts call, then the event. -/
theorem execute_run {callee : Callee} (hcallee : CallsBack callee) {executor : Address} {id : ℕ}
    {u : Unit} (h : (execute callee env executor id).Returns s u s') :
    Accepted env (.beginExecution executor id) s ∧
      ∃ calls, (∀ i ∈ calls, i.sequence = env.sequence) ∧
        s' = machine.run s (.governor env (.beginExecution executor id) ::
          (calls ++ [.governor env (.endExecution executor id)])) := by
  obtain ⟨actions, s₁, hbegin, h⟩ := returns_bind_iff.mp h
  obtain ⟨_, s₂, hdispatch, h⟩ := returns_bind_iff.mp h
  have hfirst : (invoke env (.beginExecution executor id)).Returns s () s₁ := hbegin.bind rfl
  have hlast : (invoke env (.endExecution executor id)).Returns s₂ () s' := h
  obtain ⟨calls, htime, hrun⟩ := dispatchActions_returns hcallee hdispatch
  refine ⟨⟨(), s₁, hfirst⟩, calls, htime, ?_⟩
  rw [Clocked.run_cons, Clocked.run_append,
    show machine.step (.governor env (.beginExecution executor id)) s = s₁ from hfirst.commit_eq,
    hrun]
  exact hlast.commit_eq.symm

end Quorum.Governor

import Quorum.Governor.Lifecycle
import Quorum.Governor.Roles
import Quorum.Governor.Visibility

/-!
# What the course of events does not depend on

Two consequences of what the governor's functions look at. The course of one proposal is
independent of all others, of the lists and of the counters. And a pause holds off openings and
executions, and changes nothing else.
-/

namespace Quorum.Governor

open Foundation Contract

variable {s s' : System} {env : Env} {start mid now id : ℕ}

/-! ## Calls about one proposal -/

/-- The proposal that a call names. -/
def Call.names : Call → Option ℕ
  | .vote _ id _ | .finalize id | .beginExecution _ id | .endExecution _ id | .markExpired id
  | .cancel _ id | .veto _ id _ | .setProposalAction _ id _ _ _ | .extendProposalTtl id => some id
  | _ => none

/-- A constructor names no proposal. -/
theorem Call.names_of_opens {c : Call} {o : Address × Bool} (h : c.opens = some o) :
    c.names = none := by
  cases c <;> first | rfl | exact absurd h (Option.some_ne_none o).symm

/-- The calls that may release the deposit of a proposal. -/
def Call.releases : Call → Bool
  | .finalize _ | .cancel .. => true
  | _ => false

/-- Nothing has changed but the entries of one proposal, the counters and the events. -/
structure OnlyAt (id : ℕ) (s s' : System) : Prop where
  token : s'.token = s.token
  config : s'.governor.config = s.governor.config
  pendingAdmin : s'.governor.pendingAdmin = s.governor.pendingAdmin
  allowedTarget : s'.governor.allowedTarget = s.governor.allowedTarget
  proposal : ∀ other ≠ id, s'.governor.proposal other = s.governor.proposal other
  hasVoted : ∀ other ≠ id, s'.governor.hasVoted other = s.governor.hasVoted other
  deposit : ∀ other ≠ id, s'.governor.deposit other = s.governor.deposit other
  cosponsors : s'.governor.cosponsors = s.governor.cosponsors
  conviction : ∀ other ≠ id, s'.governor.conviction other = s.governor.conviction other
  proposalAction : ∀ other ≠ id,
    s'.governor.proposalAction other = s.governor.proposalAction other
  lists : SameLists s.governor s'.governor
  mirror : s'.governor.delegate = s.governor.delegate

/-- An update elsewhere is not noticed. -/
theorem update_elsewhere {V : Type} (f : ℕ → V) (x : V) (other : ℕ) (h : other ≠ id) :
    Function.update f id x other = f other := Function.update_of_ne h x f

/-- Nothing at all has changed but the record of the proposal, its deposit, the counters and the
events. -/
theorem OnlyAt.of_recorded {p : Option Proposal} {held : Option I128}
    {stats : Option GovernanceStats} {events : List Event} :
    OnlyAt id s ⟨s.token, { s.governor with
      proposal := Function.update s.governor.proposal id p
      deposit := Function.update s.governor.deposit id held
      stats := stats
      events := events }⟩ :=
  ⟨rfl, rfl, rfl, rfl, update_elsewhere _ _, fun _ _ => rfl, update_elsewhere _ _, rfl,
    fun _ _ => rfl, fun _ _ => rfl, ⟨rfl, rfl, rfl, rfl⟩, rfl⟩

/-- Nothing at all has changed but the record of the proposal, the counters and the events. -/
theorem OnlyAt.of_proposal {p : Option Proposal} {stats : Option GovernanceStats}
    {events : List Event} :
    OnlyAt id s ⟨s.token, { s.governor with
      proposal := Function.update s.governor.proposal id p
      stats := stats
      events := events }⟩ :=
  ⟨rfl, rfl, rfl, rfl, update_elsewhere _ _, fun _ _ => rfl, fun _ _ => rfl, rfl,
    fun _ _ => rfl, fun _ _ => rfl, ⟨rfl, rfl, rfl, rfl⟩, rfl⟩

/-- A vote changes the entries of its proposal alone. -/
theorem Votes.onlyAt {voter : Address} {support : ℕ} {p counted : Proposal} {votingPower : I128}
    {hasVoted : ℕ → Address → Option ℕ} {stats : Option GovernanceStats} {events : List Event}
    (h : Votes env voter id support p counted votingPower s s')
    (hleft : s'.governor = { s.governor with
      proposal := Function.update s.governor.proposal id (some counted)
      hasVoted := hasVoted
      conviction := s'.governor.conviction
      stats := stats
      events := events }) : OnlyAt id s s' where
  token := h.token
  config := h.config
  pendingAdmin := by rw [hleft]
  allowedTarget := by rw [hleft]
  proposal other hother := by rw [h.proposal, Function.update_of_ne hother]
  hasVoted other hother := by rw [h.hasVoted, Function.update_of_ne hother]
  deposit other hother := by rw [hleft]
  cosponsors := by rw [hleft]
  conviction other hother := by
    have hconviction := h.conviction
    unfold ConvictionVoted at hconviction
    split at hconviction
    · obtain ⟨conviction, -, hset⟩ := hconviction
      rw [hset, Function.update_of_ne hother]
    · rw [hconviction]
  proposalAction other hother := by rw [hleft]
  lists := by
    rw [hleft]
    exact ⟨rfl, rfl, rfl, rfl⟩
  mirror := by rw [hleft]

/-- An accepted call that names a proposal changes the entries of that proposal alone, unless a
deposit is released. -/
theorem Outcome.onlyAt {c : Call} (h : Outcome env s c s') (hnames : c.names = some id)
    (hids : ∀ p, s.governor.proposal id = some p → p.id = id)
    (hheld : c.releases = true → s.governor.deposit id = none) : OnlyAt id s s' := by
  cases h with
  | voted h hleft =>
    obtain rfl := Option.some.inj hnames
    exact h.onlyAt hleft
  | queued hconfig hstored hclosed hactive htotal hquorum hmajority hfits hpaid =>
    obtain rfl := Option.some.inj hnames
    rw [hids _ hstored, hheld rfl] at hpaid
    obtain rfl : _ = s.token := hpaid
    rw [hids _ hstored]
    exact .of_recorded
  | failed hconfig hstored hclosed hactive htotal hlost hpaid =>
    obtain rfl := Option.some.inj hnames
    rw [hheld rfl] at hpaid
    obtain rfl : _ = s.token := hpaid
    exact .of_recorded
  | cancelled hconfig hauth hstored hrole hactive hopen hpaid =>
    obtain rfl := Option.some.inj hnames
    rw [hheld rfl] at hpaid
    obtain rfl : _ = s.token := hpaid
    exact .of_recorded
  | begun | expired | vetoed =>
    obtain rfl := Option.some.inj hnames
    exact .of_proposal
  | ended =>
    exact ⟨rfl, rfl, rfl, rfl, fun _ _ => rfl, fun _ _ => rfl, fun _ _ => rfl, rfl,
      fun _ _ => rfl, fun _ _ => rfl, ⟨rfl, rfl, rfl, rfl⟩, rfl⟩
  | actionSet =>
    obtain rfl := Option.some.inj hnames
    exact ⟨rfl, rfl, rfl, rfl, fun _ _ => rfl, fun _ _ => rfl, fun _ _ => rfl, rfl,
      fun _ _ => rfl, update_elsewhere _ _, ⟨rfl, rfl, rfl, rfl⟩, rfl⟩
  | extended =>
    exact ⟨rfl, rfl, rfl, rfl, fun _ _ => rfl, fun _ _ => rfl, fun _ _ => rfl, rfl,
      fun _ _ => rfl, fun _ _ => rfl, ⟨rfl, rfl, rfl, rfl⟩, rfl⟩
  | opened hopens =>
    rw [Call.names_of_opens hopens] at hnames
    contradiction
  | delegated hcall | targetSet hcall =>
    rcases hcall with ⟨rfl, -⟩ | ⟨rfl, -⟩ <;> contradiction
  | nominated hcall =>
    rcases hcall with ⟨_, rfl, -⟩ | ⟨rfl, -⟩ <;> contradiction
  | _ => contradiction

/-! ## Other proposals -/

/-- Looking alike passes from one configuration to the next. -/
theorem ConfigAlike.trans {v : View} {c₁ c₂ c₃ : Config} (h : ConfigAlike v c₁ c₂)
    (h' : ConfigAlike v c₂ c₃) : ConfigAlike v c₁ c₃ := by
  obtain ⟨paused, rfl, hsame⟩ := h
  obtain ⟨paused', rfl, hsame'⟩ := h'
  exact ⟨paused', rfl, fun hpause => (hsame' hpause).trans (hsame hpause)⟩

/-- Having the same entries passes from one storage to the next. -/
theorem SameEntries.trans {g₁ g₂ g₃ : Storage} (h : SameEntries id g₁ g₂)
    (h' : SameEntries id g₂ g₃) : SameEntries id g₁ g₃ :=
  ⟨h'.proposal.trans h.proposal, h.named, h'.hasVoted.trans h.hasVoted,
    h'.deposit.trans h.deposit, h'.cosponsors.trans h.cosponsors,
    h'.conviction.trans h.conviction, h'.proposalAction.trans h.proposalAction⟩

/-- Looking alike passes from one state to the next. -/
theorem Alike.trans {v : View} {s₁ s₂ s₃ : System} (h : Alike v s₁ s₂) (h' : Alike v s₂ s₃) :
    Alike v s₁ s₃ where
  token := h'.token.trans h.token
  config := by
    have hrel := h.config
    have hrel' := h'.config
    generalize s₁.governor.config = o₁ at hrel ⊢
    generalize s₂.governor.config = o₂ at hrel hrel'
    generalize s₃.governor.config = o₃ at hrel' ⊢
    cases hrel with
    | none =>
      cases hrel'
      exact .none
    | some hsame =>
      cases hrel' with
      | some hsame' => exact .some (hsame.trans hsame')
  pendingAdmin := h'.pendingAdmin.trans h.pendingAdmin
  allowedTarget := h'.allowedTarget.trans h.allowedTarget
  entries id hid := (h.entries id hid).trans (h'.entries id hid)
  lists hlists :=
    ⟨(h'.lists hlists).proposalCount.trans (h.lists hlists).proposalCount,
      (h'.lists hlists).proposerIndex.trans (h.lists hlists).proposerIndex,
      (h'.lists hlists).proposerCount.trans (h.lists hlists).proposerCount,
      (h'.lists hlists).lastProposal.trans (h.lists hlists).lastProposal⟩
  notes :=
    ⟨fun hstats => (h'.notes.stats hstats).trans (h.notes.stats hstats),
      fun hevents => (h'.notes.events hevents).trans (h.notes.events hevents),
      fun hmirror => (h'.notes.mirror hmirror).trans (h.notes.mirror hmirror)⟩

/-- Who looks neither at the entries of the proposal nor at the counters nor at the events does
not notice the change. -/
theorem OnlyAt.alike {v : View} (h : OnlyAt id s s') (hid : id ∉ v.ids) (hstats : ¬ v.stats)
    (hevents : ¬ v.events)
    (hnamed : ∀ id p, s.governor.proposal id = some p → p.id = id) : Alike v s' s where
  token := h.token.symm
  config := by
    rw [h.config]
    cases s.governor.config with
    | none => exact .none
    | some config => exact .some (.refl v config)
  pendingAdmin := h.pendingAdmin.symm
  allowedTarget := h.allowedTarget.symm
  entries other hother := by
    have hne : other ≠ id := fun heq => hid (heq ▸ hother)
    refine ⟨(h.proposal other hne).symm, fun p hp => ?_, (h.hasVoted other hne).symm,
      (h.deposit other hne).symm, by rw [h.cosponsors], (h.conviction other hne).symm,
      (h.proposalAction other hne).symm⟩
    rw [h.proposal other hne] at hp
    exact hnamed other p hp
  lists _ := ⟨h.lists.proposalCount.symm, h.lists.proposerIndex.symm, h.lists.proposerCount.symm,
    h.lists.lastProposal.symm⟩
  notes := ⟨fun hlooked => absurd hlooked hstats, fun hlooked => absurd hlooked hevents,
    fun _ => h.mirror.symm⟩

section Purged

variable (ids : Set ℕ) [DecidablePred (· ∈ ids)]

/-- The call is one of the token, or names no proposal but these. -/
def Invocation.concerns : Invocation → Bool
  | .token _ => true
  | .governor _ c => c.names.all fun id => decide (id ∈ ids)

/-- Looking at these proposals, at the pause, at the lists and at the mirrored delegations. -/
def View.of : View := ⟨ids, True, True, False, False, True⟩

variable {ids}

/-- An observer of some proposals can follow every call that concerns them. -/
theorem Invocation.concerns_covers {i : Invocation} (h : i.concerns ids = true) :
    (View.of ids).CoversInvocation i := by
  cases i with
  | token i => trivial
  | governor env c =>
    cases c with
    | createProposal | createCosponsoredProposal | createConvictionProposal =>
      exact ⟨trivial, trivial⟩
    | beginExecution executor id => exact ⟨of_decide_eq_true (p := id ∈ ids) h, trivial⟩
    | vote _ id _ | finalize id | markExpired id | cancel _ id | veto _ id _
    | setProposalAction _ id _ _ _ | extendProposalTtl id =>
      exact of_decide_eq_true (p := id ∈ ids) h
    | _ => trivial

/-- A call about another proposal is not noticed unless it releases a deposit. -/
theorem Alike.step_unconcerned {i : Invocation} (hs : Alike (View.of ids) s s')
    (hnamed : ∀ id p, s.governor.proposal id = some p → p.id = id)
    (hi : i.concerns ids = false)
    (hheld : ∀ env c, i = .governor env c → c.releases = true → ∀ id, c.names = some id →
      id ∉ ids → s.governor.deposit id = none) : Alike (View.of ids) (machine.step i s) s' := by
  cases i with
  | token i => contradiction
  | governor env c =>
    change Alike _ ((invoke env c).commit s) s'
    cases hnames : c.names with
    | none =>
      rw [Invocation.concerns, hnames] at hi
      contradiction
    | some id =>
      rw [Invocation.concerns, hnames, Option.all_some, decide_eq_false_iff_not] at hi
      rcases commit_cases (invoke env c) s with ⟨u, s₁, hret, hcommit⟩ | hcommit
      · have honly := (invoke_outcome hret).onlyAt hnames (hnamed id)
          fun hreleases => hheld env c rfl hreleases id hnames hi
        have hunnoticed : Alike (View.of ids) s₁ s := honly.alike hi not_false not_false hnamed
        rw [hcommit]
        exact hunnoticed.trans hs
      · rw [hcommit]
        exact hs

/-- The calls about other proposals can be left out of every continuation of a run, as long as
they release no deposit: the token, the configuration, the lists, the mirrored delegations and the
entries of the proposals looked at come out the same, and every other call is accepted or refused
as before. Of an execution only the two halves of `execute` itself are about the proposal: the
calls that it dispatches to the governor or to the token are invocations of their own, and stay. -/
theorem others_irrelevant {calls more : List Invocation}
    (hcalls : machine.Scheduled start mid calls) (hmore : machine.Scheduled mid now more)
    (hheld : ∀ first env c later, more = first ++ .governor env c :: later →
      c.releases = true → ∀ id, c.names = some id → id ∉ ids →
      (machine.run System.empty (calls ++ first)).governor.deposit id = none) :
    Alike (View.of ids) (machine.run System.empty (calls ++ more))
      (machine.run System.empty (calls ++ more.filter (Invocation.concerns ids))) ∧
    ∀ first env c later, more = first ++ .governor env c :: later →
      Invocation.concerns ids (.governor env c) = true →
      (Accepted env c (machine.run System.empty (calls ++ first)) ↔ Accepted env c
        (machine.run System.empty (calls ++ first.filter (Invocation.concerns ids)))) := by
  have hbefore : ∀ first later, more = first ++ later →
      Alike (View.of ids) (machine.run System.empty (calls ++ first))
        (machine.run System.empty (calls ++ first.filter (Invocation.concerns ids))) := by
    intro first later hfirst
    rw [Clocked.run_append, Clocked.run_append]
    apply machine.run_purged
    · intro _ i _ _ hi t ht
      exact ht.step (Invocation.concerns_covers hi)
    · intro before i after hsplit hi t ht
      have hall : calls ++ more = (calls ++ before) ++ i :: (after ++ later) := by
        rw [hfirst, hsplit]
        simp only [List.append_assoc, List.cons_append]
      have hsched := hcalls.append hmore
      rw [hall] at hsched
      rw [← Clocked.run_append] at ht ⊢
      apply ht.step_unconcerned (wellFormed_run hsched.of_append.1).ids hi
      rintro env c rfl
      exact hheld before env c (after ++ later) (by rw [hfirst, hsplit]; simp)
    · exact .refl _ _ (wellFormed_run hcalls).ids
  constructor
  · exact hbefore more [] (List.append_nil more).symm
  · intro first env c later hsplit hc
    exact (hbefore first _ hsplit).accepted_iff (Invocation.concerns_covers hc)

end Purged

/-- Two proposals, of which the second is voted on and finalized among the calls about the first. -/
theorem others_irrelevant_second :
    let calls := launchCalls 3 ++
      [.governor (.authorized 5) (.createProposal (.account 1) [84] [] []),
        .governor (.authorized 5) (.createProposal (.account 1) [85] [] [])]
    let more : List Invocation := [.governor (.authorized 6) (.vote (.account 1) 2 0),
      .governor (.authorized 7) (.vote (.account 1) 1 1),
      .governor (.authorized 10) (.finalize 2), .governor (.authorized 10) (.finalize 1)]
    Alike (View.of {1}) (machine.run System.empty (calls ++ more))
      (machine.run System.empty (calls ++ more.filter (Invocation.concerns {1}))) := by
  intro calls more
  have hcalls : machine.Scheduled 0 5 calls := by decide
  have hmore : machine.Scheduled 5 10 more := by decide
  have hdeposits : ∀ first ∈ more.inits,
      (machine.run System.empty (calls ++ first)).governor.deposit 2 = none := by decide
  apply (others_irrelevant hcalls hmore _).1
  intro first env c later hsplit hreleases id hnames hid
  have hmem : Invocation.governor env c ∈ more := by
    rw [hsplit]
    simp
  have hsecond : id = 2 := by
    simp only [more, List.mem_cons, Invocation.governor.injEq, List.not_mem_nil, or_false] at hmem
    rcases hmem with ⟨-, rfl⟩ | ⟨-, rfl⟩ | ⟨-, rfl⟩ | ⟨-, rfl⟩
    · contradiction
    · contradiction
    · exact (Option.some.inj hnames).symm
    · exact absurd (Option.some.inj hnames).symm hid
  rw [hsecond]
  exact hdeposits first ((List.mem_inits _ _).mpr ⟨_, hsplit.symm⟩)

/-! ## The pause -/

/-- The calls that a pause holds off. -/
def Invocation.pausable : Invocation → Bool
  | .governor _ (.createProposal ..) | .governor _ (.createCosponsoredProposal ..)
  | .governor _ (.createConvictionProposal ..) | .governor _ (.beginExecution ..) => true
  | _ => false

/-- Looking at everything but the pause and the events. -/
def unpausedView : View := ⟨Set.univ, False, True, True, False, True⟩

/-- The governor is configured and paused. -/
def Paused (s : System) : Prop :=
  ∃ config, s.governor.config = some config ∧ config.paused = true

/-- Without the pause and the events a call that pauses do not stop can be followed. -/
theorem covers_of_not_pausable {i : Invocation} (h : i.pausable = false) :
    unpausedView.CoversInvocation i := by
  cases i with
  | token i => trivial
  | governor env c => cases c <;> first | contradiction | trivial

/-- A pausable call is refused while the governor is paused. -/
theorem Paused.refuses {c : Call} (h : Paused s)
    (hc : Invocation.pausable (.governor env c) = true) : ¬ Accepted env c s := by
  obtain ⟨config, hconfig, hpaused⟩ := h
  apply not_accepted_of_paused hconfig hpaused
  cases c with
  | createProposal | createCosponsoredProposal | createConvictionProposal =>
    exact .inl (Option.some_ne_none _)
  | beginExecution executor id => exact .inr ⟨executor, id, rfl⟩
  | _ => contradiction

/-- A call that a pause stops changes nothing in a paused state. -/
theorem Paused.step_pausable {i : Invocation} (h : Paused s) (hi : i.pausable = true) :
    machine.step i s = s := by
  cases i with
  | token i => contradiction
  | governor env c => exact step_eq_of_not_accepted (h.refuses hi)

/-- Only an accepted `unpause` ends a pause. -/
theorem Paused.step {i : Invocation} (h : Paused s)
    (hi : ∀ env, i = .governor env .unpause → ¬ Accepted env .unpause s) :
    Paused (machine.step i s) := by
  obtain ⟨config, hconfig, hpaused⟩ := h
  obtain ⟨config', hconfig', hsame | ⟨env, c, rfl, haccepted, hsanctioned⟩⟩ :=
    step_sanctioned hconfig i
  · exact ⟨config', hconfig', by rw [hsame, hpaused]⟩
  · refine ⟨config', hconfig', ?_⟩
    by_contra hunpaused
    obtain ⟨rfl, -⟩ := hsanctioned.unpaused hpaused (Bool.eq_false_of_not_eq_true hunpaused)
    exact hi env rfl haccepted

/-- After a pause everything but the pause and the events looks the same. -/
theorem pause_alike {caller : Address} (haccepted : Accepted env (.pause caller) s)
    (hnamed : ∀ id p, s.governor.proposal id = some p → p.id = id) :
    Paused (machine.step (.governor env (.pause caller)) s) ∧
      Alike unpausedView (machine.step (.governor env (.pause caller)) s) s := by
  have hreturns : (pause env caller).Returns s () _ := haccepted.returns
  generalize machine.step (.governor env (.pause caller)) s = s₁ at hreturns ⊢
  simp only [pause, requireAuth, returns_demand_bind_iff, returns_getConfig_bind_iff,
    returns_rejectIf_bind_iff, returns_storeConfig_bind_iff, returns_publish_iff] at hreturns
  obtain ⟨-, config, hconfig, -, rfl⟩ := hreturns
  refine ⟨⟨_, rfl, rfl⟩, rfl, ?_, rfl, rfl, fun id _ => ⟨rfl, hnamed id, rfl, rfl, rfl, rfl, rfl⟩,
    fun _ => ⟨rfl, rfl, rfl, rfl⟩, ⟨fun _ => rfl, False.elim, fun _ => rfl⟩⟩
  rw [hconfig]
  exact .some ⟨config.paused, rfl, fun hpause => hpause.elim⟩

/-- An accepted unpause clears the pause and publishes it. -/
theorem unpause_leaves {u : Unit} (h : (unpause env).Returns s u s') :
    ∃ config, s.governor.config = some config ∧ s' = s.mapGovernor fun g => { g with
      config := some { config with paused := false }
      events := g.events ++ [.contractUnpaused config.admin] } := by
  simp only [unpause, returns_getConfig_bind_iff, requireAuth, returns_demand_bind_iff,
    returns_storeConfig_bind_iff, returns_publish_iff] at h
  obtain ⟨config, hconfig, -, rfl⟩ := h
  exact ⟨config, hconfig, rfl⟩

/-- Looking at everything but the events. -/
def silentView : View := ⟨Set.univ, True, True, True, False, True⟩

/-- Both runs unpaused, the states look the same to those who look at the pause as well. -/
theorem unpause_alike (hs : Alike unpausedView s s') (haccepted : Accepted env .unpause s) :
    Alike silentView (machine.step (.governor env .unpause) s)
      (machine.step (.governor env .unpause) s') := by
  have hcovers : unpausedView.Covers .unpause := trivial
  have hreturns : (unpause env).Returns s () _ := haccepted.returns
  have hreturns' : (unpause env).Returns s' () _ :=
    ((hs.accepted_iff hcovers).mp haccepted).returns
  obtain ⟨config, hconfig, hleft⟩ := unpause_leaves hreturns
  obtain ⟨config', hconfig', hleft'⟩ := unpause_leaves hreturns'
  rw [hleft, hleft']
  have hrel := hs.config
  rw [hconfig, hconfig'] at hrel
  cases hrel with
  | some hsame =>
    obtain ⟨paused, rfl, -⟩ := hsame
    have hlists := hs.lists trivial
    refine ⟨hs.token, .some (.refl _ _), hs.pendingAdmin, hs.allowedTarget, fun id _ => ?_,
      fun _ => ⟨hlists.proposalCount, hlists.proposerIndex, hlists.proposerCount,
        hlists.lastProposal⟩, ⟨hs.notes.stats, False.elim, hs.notes.mirror⟩⟩
    have hentries := hs.entries id (Set.mem_univ id)
    exact ⟨hentries.proposal, hentries.named, hentries.hasVoted, hentries.deposit,
      hentries.cosponsors, hentries.conviction, hentries.proposalAction⟩

/-- To pause the governor is to leave out the openings and the executions until an unpause is
accepted, and nothing else: they are refused, every other call is accepted or refused as if there
were no pause, and the states reached differ in the pause and the events alone; once the governor
is unpaused they do not differ in the pause either. -/
theorem pause_leaves_out {calls more : List Invocation} {caller : Address}
    (hcalls : machine.Scheduled start now calls)
    (haccepted : Accepted env (.pause caller) (machine.run System.empty calls))
    (hmore : ∀ first env' later, more = first ++ .governor env' .unpause :: later →
      ¬ Accepted env' .unpause
        (machine.run System.empty (calls ++ .governor env (.pause caller) :: first))) :
    let paused := fun first => machine.run System.empty
      (calls ++ .governor env (.pause caller) :: first)
    let unpaused := fun first => machine.run System.empty
      (calls ++ first.filter fun i => !i.pausable)
    Alike unpausedView (paused more) (unpaused more) ∧
    (∀ first env' c later, more = first ++ .governor env' c :: later →
      (Accepted env' c (paused first) ↔
        Invocation.pausable (.governor env' c) = false ∧ Accepted env' c (unpaused first))) ∧
    ∀ env', Accepted env' .unpause (paused more) →
      Alike silentView (machine.step (.governor env' .unpause) (paused more))
        (machine.step (.governor env' .unpause) (unpaused more)) := by
  intro paused unpaused
  obtain ⟨hpaused, halike⟩ := pause_alike haccepted (wellFormed_run hcalls).ids
  have hbefore : ∀ first later, more = first ++ later →
      Alike unpausedView (paused first) (unpaused first) ∧ Paused (paused first) := by
    intro first later hfirst
    have hcontinues : ∀ before env' after, first = before ++ .governor env' .unpause :: after →
        ¬ Accepted env' .unpause (paused before) := by
      intro before env' after hsplit
      exact hmore before env' (after ++ later) (by rw [hfirst, hsplit]; simp)
    simp only [paused, unpaused] at hcontinues ⊢
    rw [Clocked.run_append, Clocked.run_append, Clocked.run_cons]
    apply Clocked.run_purged (R := fun s s' => Alike unpausedView s s' ∧ Paused s)
    · intro before i after hsplit hkeep t ht
      refine ⟨ht.1.step (covers_of_not_pausable (by simpa using hkeep)), ht.2.step ?_⟩
      rintro env' rfl
      have hrefused := hcontinues before env' after hsplit
      rwa [Clocked.run_append, Clocked.run_cons] at hrefused
    · intro before i after hsplit hleft t ht
      rw [ht.2.step_pausable (by simpa using hleft)]
      exact ht
    · exact ⟨halike, hpaused⟩
  refine ⟨(hbefore more [] (List.append_nil more).symm).1, ?_, fun env' => ?_⟩
  · intro first env' c later hsplit
    obtain ⟨halike, hpaused⟩ := hbefore first _ hsplit
    cases hpausable : Invocation.pausable (.governor env' c) with
    | false =>
      rw [halike.accepted_iff (covers_of_not_pausable hpausable)]
      exact (and_iff_right rfl).symm
    | true => exact ⟨fun h => absurd h (hpaused.refuses hpausable), fun h => nomatch h.1⟩
  · exact unpause_alike (hbefore more [] (List.append_nil more).symm).1

/-- While the governor is paused a vote on the open proposal counts, and an unpause that nobody
has authorized and a second proposal are refused. -/
theorem pause_leaves_out_vote :
    let calls := launchCalls 3 ++
      [.governor (.authorized 5) (.createProposal (.account 1) [84] [] [])]
    let unsigned : Env := { Env.authorized 7 with auth := fun _ => false }
    let more : List Invocation := [.governor (.authorized 6) (.vote (.account 1) 1 1),
      .governor unsigned .unpause,
      .governor (.authorized 7) (.createProposal (.account 1) [85] [] []),
      .governor (.authorized 10) (.finalize 1)]
    Alike unpausedView
      (machine.run System.empty (calls ++ .governor (.authorized 5) (.pause (.account 1)) :: more))
      (machine.run System.empty (calls ++ more.filter fun i => !i.pausable)) := by
  intro calls unsigned more
  have hcalls : machine.Scheduled 0 5 calls := by decide
  have haccepted : Accepted (.authorized 5) (.pause (.account 1))
      (machine.run System.empty calls) := by decide
  have hrefused : ∀ first ∈ more.inits, ¬ Accepted unsigned .unpause
      (machine.run System.empty (calls ++ .governor (.authorized 5) (.pause (.account 1)) :: first)) := by
    decide
  refine (pause_leaves_out hcalls haccepted ?_).1
  intro first env' later hsplit
  have hmem : Invocation.governor env' .unpause ∈ more := by
    rw [hsplit]
    simp
  obtain rfl : env' = unsigned := by simpa [more] using hmem
  exact hrefused first ((List.mem_inits _ _).mpr ⟨_, hsplit.symm⟩)

end Quorum.Governor

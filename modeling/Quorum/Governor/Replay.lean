import Quorum.Foundation.EventLog
import Quorum.Governor.Lifecycle

/-!
# The governor as its events tell it

A reader of the event log keeps a `Replica`: the status, the queue ledger and the tallies of every
proposal, the latest choice of every voter, the held deposits, the allowlist, and the admin, the
guardian, the pause and the deposit in force. `Replica.apply` is what one event does to it.
-/

namespace Quorum.Governor

open Foundation Contract

variable {s s' : System} {env : Env} {start now id : ℕ}

/-! ## The view -/

/-- What the events tell about one proposal. -/
structure Tracked where
  status : ProposalStatus
  queueLedger : ℕ
  forVotes : ℤ
  againstVotes : ℤ
  abstainVotes : ℤ
deriving DecidableEq

/-- What the events tell about the configuration. -/
structure Settings where
  admin : Address
  guardian : Address
  paused : Bool
  proposalDeposit : I128
deriving DecidableEq

/-- What a reader of the events knows. -/
@[ext] structure Replica where
  proposal : ℕ → Option Tracked
  hasVoted : ℕ → Address → Option ℕ
  deposit : ℕ → Option I128
  allowedTarget : Address → Bool
  settings : Option Settings

/-- The reader's knowledge before any event. -/
def Replica.empty : Replica where
  proposal := fun _ => none
  hasVoted := fun _ _ => none
  deposit := fun _ => none
  allowedTarget := fun _ => false
  settings := none

/-- The tracked part of a proposal. -/
def Proposal.tracked (p : Proposal) : Tracked where
  status := p.status
  queueLedger := p.queueLedger
  forVotes := p.forVotes.val
  againstVotes := p.againstVotes.val
  abstainVotes := p.abstainVotes.val

/-- The tracked part of a configuration. -/
def Config.tracked (config : Config) : Settings where
  admin := config.admin
  guardian := config.guardian
  paused := config.paused
  proposalDeposit := config.proposalDeposit

/-- The tracked parts of the stored proposals. The executions in `pending` have begun and are not
announced yet. -/
def shown (pending : List ℕ) (proposal : ℕ → Option Proposal) (id : ℕ) : Option Tracked :=
  (proposal id).map fun p =>
    if id ∈ pending then { p.tracked with status := .queued } else p.tracked

/-- What the events are to tell about the governor. -/
def view (pending : List ℕ) (g : Storage) : Replica where
  proposal := shown pending g.proposal
  hasVoted := g.hasVoted
  deposit := g.deposit
  allowedTarget := targetAllowed g
  settings := g.config.map Config.tracked

/-! ## The reader -/

/-- Adds a weight to the tally of a choice. -/
def Tracked.add (t : Tracked) (support : ℕ) (weight : ℤ) : Tracked :=
  match support with
  | 0 => { t with againstVotes := t.againstVotes + weight }
  | 1 => { t with forVotes := t.forVotes + weight }
  | _ => { t with abstainVotes := t.abstainVotes + weight }

/-- Moves a weight from the tally of the previous choice, if any, to the tally of the new one. -/
def Tracked.recount (t : Tracked) (previous : Option ℕ) (support : ℕ) (weight : ℤ) : Tracked :=
  match previous with
  | some previous => (t.add previous (-weight)).add support weight
  | none => t.add support weight

/-- Changes what is known about one proposal. -/
def Replica.revise (r : Replica) (id : ℕ) (change : Tracked → Tracked) : Replica :=
  { r with proposal := Function.update r.proposal id ((r.proposal id).map change) }

/-- Changes what is known about the configuration. -/
def Replica.configure (r : Replica) (change : Settings → Settings) : Replica :=
  { r with settings := r.settings.map change }

/-- What one event tells. -/
def Replica.apply (r : Replica) : Event → Replica
  | .contractInitialized admin guardian _ _ _ _ _ _ =>
    { r with settings := some ⟨admin, guardian, false, 0⟩ }
  | .proposalCreated id _ _ _ _ _ _ =>
    { r with
      proposal := Function.update r.proposal id (some ⟨.active, 0, 0, 0, 0⟩)
      deposit :=
        match r.settings with
        | some settings =>
          if 0 < settings.proposalDeposit.val then
            Function.update r.deposit id (some settings.proposalDeposit)
          else r.deposit
        | none => r.deposit }
  | .contractPaused _ => r.configure fun settings => { settings with paused := true }
  | .contractUnpaused _ => r.configure fun settings => { settings with paused := false }
  | .voteCast id voter support votingPower =>
    { r.revise id fun t => t.recount (r.hasVoted id voter) support votingPower.val with
      hasVoted := Function.update r.hasVoted id
        (Function.update (r.hasVoted id) voter (some support)) }
  | .proposalFinalized id status _ _ _ => r.revise id fun t => { t with status := status }
  | .proposalQueued id queueLedger => r.revise id fun t => { t with queueLedger := queueLedger }
  | .proposalExecuted id _ => r.revise id fun t => { t with status := .executed }
  | .proposalCancelled id _ => r.revise id fun t => { t with status := .cancelled }
  | .proposalVetoed id _ _ => r.revise id fun t => { t with status := .vetoed }
  | .guardianChanged _ newGuardian =>
    r.configure fun settings => { settings with guardian := newGuardian }
  | .proposalDepositUpdated amount =>
    r.configure fun settings => { settings with proposalDeposit := amount }
  | .depositRefunded id _ _ | .depositForfeited id _ =>
    { r with deposit := Function.update r.deposit id none }
  | .targetAllowlistUpdated _ target allowed =>
    { r with allowedTarget := Function.update r.allowedTarget target allowed }
  | .delegated _ _ | .proposerCooldownUpdated _ | .proposalActionSet _ _ _ => r

/-! ## What the entries tell -/

variable {pending : List ℕ} {g : Storage}

/-- Storing a proposal that is not being executed shows it. -/
theorem shown_put {proposal : ℕ → Option Proposal} (hid : id ∉ pending) (p : Proposal) :
    shown pending (Function.update proposal id (some p)) =
      Function.update (shown pending proposal) id (some p.tracked) := by
  funext other
  by_cases hother : other = id
  · subst hother
    rw [shown, Function.update_self, Function.update_self, Option.map_some, if_neg hid]
  · rw [shown, Function.update_of_ne hother, Function.update_of_ne hother, shown]

/-- Revising a proposal that is not being executed shows the version that is stored. -/
theorem shown_revise {proposal : ℕ → Option Proposal} {p p' : Proposal}
    {change : Tracked → Tracked} (hstored : proposal id = some p) (hid : id ∉ pending)
    (hchange : change p.tracked = p'.tracked) :
    Function.update (shown pending proposal) id ((shown pending proposal id).map change) =
      shown pending (Function.update proposal id (some p')) := by
  rw [shown_put hid, shown, hstored, Option.map_some, Option.map_some, if_neg hid, hchange]

/-- Two revisions in a row, with the version `p'` between them that is never stored. -/
theorem shown_revise_twice {proposal : ℕ → Option Proposal} {p p'' : Proposal} (p' : Proposal)
    {change change' : Tracked → Tracked} (hstored : proposal id = some p) (hid : id ∉ pending)
    (hchange : change p.tracked = p'.tracked) (hchange' : change' p'.tracked = p''.tracked) :
    let first := Function.update (shown pending proposal) id ((shown pending proposal id).map change)
    Function.update first id ((first id).map change') =
      shown pending (Function.update proposal id (some p'')) := by
  intro first
  have hfirst : first = shown pending (Function.update proposal id (some p')) :=
    shown_revise hstored hid hchange
  rw [hfirst, shown_revise (Function.update_self ..) hid hchange', Function.update_idem]

/-- The tracked tallies follow a new tally. -/
theorem Proposal.tracked_setTally {p : Proposal} {support : ℕ} {value : I128} {weight : ℤ}
    (h : value.val = (p.tally support).val + weight) :
    (p.setTally support value).tracked = p.tracked.add support weight := by
  unfold Proposal.tally at h
  unfold Proposal.setTally Tracked.add
  split at h
  all_goals simp only [Proposal.tracked, h]

/-- The tracked tallies lose the weight of an earlier ballot. -/
theorem tracked_uncount {p q : Proposal} {previous : ℕ} {votingPower : I128}
    (h : uncount p (some previous) votingPower = some q) :
    q.tracked = p.tracked.add previous (-votingPower.val) := by
  obtain ⟨rest, hrest, rfl⟩ := Option.map_eq_some_iff.mp h
  obtain ⟨hsub, -⟩ := Option.filter_eq_some_iff.mp hrest
  apply Proposal.tracked_setTally
  rw [I128.checkedSub_eq_some] at hsub
  omega

/-- The tracked tallies gain the weight of a ballot. -/
theorem tracked_count {p q : Proposal} {support : ℕ} {votingPower : I128}
    (h : count p support votingPower = some q) :
    q.tracked = p.tracked.add support votingPower.val := by
  obtain ⟨sum, hsum, rfl⟩ := Option.map_eq_some_iff.mp h
  apply Proposal.tracked_setTally
  rw [addWeight, I128.checkedAdd_eq_some] at hsum
  omega

/-- A reader counts a vote as the governor does. -/
theorem tracked_recount {p q counted : Proposal} {previous : Option ℕ} {support : ℕ}
    {votingPower : I128} (huncount : uncount p previous votingPower = some q)
    (hcount : count q support votingPower = some counted) :
    counted.tracked = p.tracked.recount previous support votingPower.val := by
  rw [tracked_count hcount]
  cases previous with
  | none =>
    obtain rfl := Option.some.inj huncount
    rfl
  | some previous =>
    rw [tracked_uncount huncount]
    rfl

/-- Clearing a deposit is announced if there was one. -/
theorem accounts_settle {announce : I128 → Event}
    (h : ∀ (r : Replica) (amount : I128), r.apply (announce amount) =
      { r with deposit := Function.update r.deposit id none }) :
    Accounts Replica.apply g.events (g.settle id announce).events (view pending g)
      (view pending (g.settle id announce)) := by
  unfold Storage.settle
  cases hdeposit : g.deposit id with
  | none =>
    have hsame : Function.update g.deposit id none = g.deposit := by
      rw [← hdeposit, Function.update_eq_self]
    simp only [hsame, Option.map_none, Option.toList_none, List.append_nil]
    exact .refl _ _
  | some amount => exact .one _ (h _ amount)

/-- The allowlist after one entry has been written. -/
theorem update_targetAllowed {g' : Storage} {target : Address} {allowed : Bool}
    (h : g'.allowedTarget =
      Function.update g.allowedTarget target (if allowed then some true else none)) :
    Function.update (targetAllowed g) target allowed = targetAllowed g' := by
  funext other
  rw [targetAllowed, h]
  by_cases hother : other = target
  · subst hother
    rw [Function.update_self, Function.update_self]
    cases allowed <;> rfl
  · rw [Function.update_of_ne hother, Function.update_of_ne hother, targetAllowed]

/-- A change of the configuration as its tracked part shows it. -/
theorem configure_view {config config' : Config} {change : Settings → Settings}
    (hconfig : g.config = some config) (hchange : change config.tracked = config'.tracked) :
    (view pending g).configure change = view pending { g with config := some config' } := by
  unfold Replica.configure view
  rw [hconfig, Option.map_some, Option.map_some, hchange]
  rfl

/-! ## One call -/

/-- A step whose effect no event announces: an expiry, or a hand-over to another admin. -/
def Unannounced (i : Invocation) (s : System) : Prop :=
  (∃ env id, i = .governor env (.markExpired id) ∧ Accepted env (.markExpired id) s) ∨
    ∃ env pending config, i = .governor env .acceptAdmin ∧ Accepted env .acceptAdmin s ∧
      s.governor.pendingAdmin = some pending ∧ s.governor.config = some config ∧
        pending ≠ config.admin

/-- A call of either contract other than the two ends of an execution. -/
def Invocation.plain : Invocation → Bool
  | .governor _ (.beginExecution _ _) | .governor _ (.endExecution _ _) => false
  | _ => true

/-- The proposals in `pending` are stored as executed. -/
def Pending (pending : List ℕ) (s : System) : Prop :=
  ∀ id ∈ pending, statusOf s id = some .executed

/-- A proposal that is not executed is not among the pending executions. -/
theorem Pending.not_mem (h : Pending pending s) {status : ProposalStatus}
    (hstatus : statusOf s id = some status) (hne : status ≠ .executed) : id ∉ pending := by
  intro hid
  rw [h id hid] at hstatus
  exact hne (Option.some.inj hstatus).symm

/-- An id without a proposal is not among the pending executions. -/
theorem Pending.not_mem_of_none (h : Pending pending s) (hnone : s.governor.proposal id = none) :
    id ∉ pending := by
  intro hid
  have hstatus := h id hid
  rw [statusOf, hnone] at hstatus
  contradiction

/-- The events of an accepted call account for what it does, except for an expiry and a hand-over
to another admin. -/
theorem Outcome.accounts {c : Call} (hw : WellFormed now s) (hpending : Pending pending s)
    (h : Outcome env s c s') (hplain : (Invocation.governor env c).plain = true)
    (haccepted : Accepted env c s) (hannounced : ¬ Unannounced (.governor env c) s) :
    Accounts Replica.apply s.governor.events s'.governor.events (view pending s.governor)
      (view pending s'.governor) := by
  cases h with
  | initialized => exact .one _ rfl
  | @opened _ _ config proposer conviction p _ h hqueue _ _ hleft =>
    have hid := hpending.not_mem_of_none (hw.fresh h).1
    have htracked : p.tracked = ⟨.active, 0, 0, 0, 0⟩ := by
      unfold Proposal.tracked
      rw [h.status, hqueue, show p.forVotes = 0 from h.tallies 1,
        show p.againstVotes = 0 from h.tallies 0, show p.abstainVotes = 0 from h.tallies 2]
      rfl
    rw [hleft]
    refine .one _ (Replica.ext ?_ rfl ?_ rfl rfl)
    · exact (htracked ▸ shown_put hid p).symm
    · simp only [Replica.apply, view, h.configured, Option.map_some]
      rfl
  | @voted voter id support p counted votingPower _ h hleft =>
    have hid := hpending.not_mem (statusOf_eq h.stored) (by rw [h.active]; decide)
    obtain ⟨q, huncount, hcount⟩ := h.recount
    have hrecount : (fun t : Tracked =>
        t.recount (s.governor.hasVoted id voter) support votingPower.val) p.tracked =
          counted.tracked := (tracked_recount huncount hcount).symm
    rw [hleft]
    exact .one _ (Replica.ext (shown_revise h.stored hid hrecount) rfl rfl rfl rfl)
  | delegated =>
    refine ⟨_, rfl, ?_⟩
    split <;> rfl
  | @queued id config p total t _ hstored _ hactive =>
    have hid := hpending.not_mem (statusOf_eq hstored) (by rw [hactive]; decide)
    refine ((accounts_settle fun _ _ => rfl).trans (.one _ rfl)).trans (.one _ ?_)
    refine Replica.ext ?_ rfl rfl rfl rfl
    exact shown_revise_twice { p with status := .queued } hstored hid rfl rfl
  | failed _ hstored _ hactive =>
    have hid := hpending.not_mem (statusOf_eq hstored) (by rw [hactive]; decide)
    refine (accounts_settle fun _ _ => rfl).trans (.one _ ?_)
    exact Replica.ext (shown_revise hstored hid rfl) rfl rfl rfl rfl
  | cancelled _ _ hstored _ hactive =>
    have hid := hpending.not_mem (statusOf_eq hstored) (by rw [hactive]; decide)
    refine (accounts_settle fun _ _ => rfl).trans (.one _ ?_)
    exact Replica.ext (shown_revise hstored hid rfl) rfl rfl rfl rfl
  | vetoed _ _ _ hstored hqueued =>
    have hid := hpending.not_mem (statusOf_eq hstored) (by rw [hqueued]; decide)
    exact .one _ (Replica.ext (shown_revise hstored hid rfl) rfl rfl rfl rfl)
  | actionSet => exact .one _ rfl
  | targetSet => exact .one _ (Replica.ext rfl rfl rfl (update_targetAllowed rfl) rfl)
  | nominated => exact .refl _ _
  | @accepted pending config hp hauth hconfig =>
    have hsame : pending = config.admin := by
      by_contra hne
      exact hannounced (.inr ⟨env, pending, config, rfl, haccepted, hp, hconfig, hne⟩)
    refine ⟨[], (List.append_nil _).symm, Replica.ext rfl rfl rfl rfl ?_⟩
    subst hsame
    exact congrArg (Option.map Config.tracked) hconfig
  | depositSet hconfig => exact .one _ (configure_view hconfig rfl)
  | cooldownSet hconfig =>
    exact .one _ (Replica.ext rfl rfl rfl rfl (congrArg (Option.map Config.tracked) hconfig))
  | guardianSet hconfig => exact .one _ (configure_view hconfig rfl)
  | paused _ hconfig => exact .one _ (configure_view hconfig rfl)
  | unpaused hconfig => exact .one _ (configure_view hconfig rfl)
  | extended => exact .refl _ _
  | begun => contradiction
  | ended => contradiction
  | expired => exact absurd (.inl ⟨env, _, rfl, haccepted⟩) hannounced

/-! ## Executions -/

/-- An execution that begins is not shown yet. -/
theorem begun_view {executor : Address} (hpending : Pending pending s)
    (h : Outcome env s (.beginExecution executor id) s') :
    s'.governor.events = s.governor.events ∧
      view (id :: pending) s'.governor = view pending s.governor ∧ Pending (id :: pending) s' := by
  cases h with
  | opened hopens => contradiction
  | delegated hcall => simp at hcall
  | targetSet hcall => simp at hcall
  | nominated hcall => simp at hcall
  | @begun _ _ config p _ _ _ hstored hqueued =>
    have hid := hpending.not_mem (statusOf_eq hstored) (by rw [hqueued]; decide)
    refine ⟨rfl, Replica.ext ?_ rfl rfl rfl rfl, ?_⟩
    · funext other
      by_cases hother : other = id
      · subst hother
        simp [view, shown, hstored, hid, Proposal.tracked, hqueued]
      · simp [view, shown, hother]
    · intro other hmem
      by_cases hother : other = id
      · subst hother
        simp [statusOf]
      · simp only [List.mem_cons, hother, false_or] at hmem
        simp only [statusOf, System.mapGovernor_governor, Function.update_of_ne hother]
        exact hpending other hmem

/-- The event at the end of an execution shows it. -/
theorem ended_accounts {executor : Address} (hid : id ∉ pending)
    (hexecuted : statusOf s id = some .executed)
    (h : Outcome env s (.endExecution executor id) s') :
    Accounts Replica.apply s.governor.events s'.governor.events (view (id :: pending) s.governor)
      (view pending s'.governor) := by
  cases h with
  | opened hopens => contradiction
  | delegated hcall => simp at hcall
  | targetSet hcall => simp at hcall
  | nominated hcall => simp at hcall
  | ended =>
    obtain ⟨p, hstored, hstatus⟩ := Option.map_eq_some_iff.mp hexecuted
    refine .one _ (Replica.ext ?_ rfl rfl rfl rfl)
    funext other
    by_cases hother : other = id
    · subst hother
      simp [Replica.apply, Replica.revise, view, shown, hstored, hid, Proposal.tracked, hstatus]
    · simp [Replica.apply, Replica.revise, view, shown, hother]

/-- From the state `s` every execution in the run is a whole one: it is accepted, the calls that the
dispatched contracts make follow, and its end comes after them. -/
inductive Bracketed : System → List Invocation → Prop
  | nil {s : System} : Bracketed s []
  | call {s : System} {i : Invocation} {rest : List Invocation} (hplain : i.plain = true)
      (hrest : Bracketed (machine.step i s) rest) : Bracketed s (i :: rest)
  | execution {s : System} {env : Env} {executor : Address} {id : ℕ}
      {inner rest : List Invocation} (haccepted : Accepted env (.beginExecution executor id) s)
      (hinner : Bracketed (machine.step (.governor env (.beginExecution executor id)) s) inner)
      (hrest : Bracketed (machine.run s (.governor env (.beginExecution executor id) ::
        (inner ++ [.governor env (.endExecution executor id)]))) rest) :
      Bracketed s (.governor env (.beginExecution executor id) ::
        (inner ++ .governor env (.endExecution executor id) :: rest))

/-- No call of the run is an unannounced one. -/
def Announced (s : System) (calls : List Invocation) : Prop :=
  ∀ first i later, calls = first ++ i :: later → ¬ Unannounced i (machine.run s first)

/-- An announced run starts with an announced invocation and goes on announced. -/
theorem Announced.cons {i : Invocation} {rest : List Invocation} (h : Announced s (i :: rest)) :
    ¬ Unannounced i s ∧ Announced (machine.step i s) rest := by
  refine ⟨h [] i rest rfl, ?_⟩
  rintro first j later rfl
  exact h (i :: first) j later rfl

/-- Both parts of an announced run are announced. -/
theorem Announced.append {first later : List Invocation} (h : Announced s (first ++ later)) :
    Announced s first ∧ Announced (machine.run s first) later := by
  constructor
  · rintro before i after rfl
    exact h before i (after ++ later) (by simp)
  · rintro before i after rfl
    have hboth := h (first ++ before) i after (by simp)
    rwa [Clocked.run_append] at hboth

/-- Through every run the pending executions stay those of executed proposals. -/
theorem Pending.run {calls : List Invocation} (h : Pending pending s) (hw : WellFormed start s)
    (hcalls : machine.Scheduled start now calls) : Pending pending (machine.run s calls) :=
  fun id hid => terminal_run hw hcalls (h id hid) rfl

/-- Every step leaves the pending executions those of executed proposals. -/
theorem Pending.step {i : Invocation} (h : Pending pending s) (hw : WellFormed i.sequence s) :
    Pending pending (machine.step i s) := by
  have hcalls : machine.Scheduled i.sequence i.sequence [i] := ⟨le_rfl, le_rfl⟩
  exact h.run hw hcalls

/-- One step of the run other than an end of an execution. -/
theorem Step.accounts {i : Invocation} (hw : WellFormed now s) (hpending : Pending pending s)
    (h : Step i s s') (hplain : i.plain = true) (hannounced : ¬ Unannounced i s) :
    Accounts Replica.apply s.governor.events s'.governor.events (view pending s.governor)
      (view pending s'.governor) := by
  cases h with
  | token h => exact .refl _ _
  | refused => exact .refl _ _
  | governor hret he =>
    exact (invoke_outcome hret).accounts hw hpending hplain ⟨(), s', hret⟩ hannounced

/-- The events of a run account for what it does. -/
theorem accounts_run {calls : List Invocation} (hb : Bracketed s calls) (hw : WellFormed start s)
    (hpending : Pending pending s) (hcalls : machine.Scheduled start now calls)
    (hannounced : Announced s calls) :
    Accounts Replica.apply s.governor.events (machine.run s calls).governor.events
      (view pending s.governor) (view pending (machine.run s calls).governor) := by
  induction hb generalizing start now pending with
  | nil => exact .refl _ _
  | @call s i rest hplain _ ih =>
    have hi := hw.mono hcalls.1
    have hstep := machine_step hi.blank i
    exact (hstep.accounts hi hpending hplain hannounced.cons.1).trans
      (ih (hi.step hstep) (hpending.step hi) hcalls.2 hannounced.cons.2)
  | @execution s env executor id inner rest haccepted _ _ ihinner ihrest =>
    have hi := hw.mono hcalls.1
    obtain ⟨p, hstored, hqueued, -, hexecuted⟩ := haccepted.executes hi.blank
    have hid := hpending.not_mem (statusOf_eq hstored) (by rw [hqueued]; decide)
    obtain ⟨hlog, hview, hbegun⟩ :=
      begun_view hpending (invoke_outcome haccepted.returns)
    have hw₁ := hi.step (i := .governor env (.beginExecution executor id))
      (machine_step hi.blank _)
    obtain ⟨hinside, hafter⟩ := hcalls.2.of_append
    obtain ⟨hannounced₁, hannounced₂⟩ := hannounced.cons.2.append
    have hinner := ihinner hw₁ hbegun hinside hannounced₁
    rw [Clocked.run_cons, Clocked.run_append] at ihrest
    rw [Clocked.run_cons, Clocked.run_append, Clocked.run_cons]
    have hw₂ := hw₁.run hinside
    have hbegun₂ := hbegun.run hw₁ hinside
    generalize machine.run (machine.step (.governor env (.beginExecution executor id)) s) inner =
      s₂ at hinner ihrest hannounced₂ hw₂ hbegun₂ ⊢
    have hended : Accepted env (.endExecution executor id) s₂ := ⟨(), _, rfl⟩
    have hend := ended_accounts hid (hbegun₂ id List.mem_cons_self) (invoke_outcome hended.returns)
    have hpending₂ : Pending pending s₂ := fun x hx => hbegun₂ x (List.mem_cons_of_mem id hx)
    have hpending₃ := hpending₂.step (i := .governor env (.endExecution executor id)) hw₂
    have hw₃ := hw₂.step (i := .governor env (.endExecution executor id))
      (machine_step hw₂.blank _)
    rw [hlog, hview] at hinner
    exact (hinner.trans hend).trans (ihrest hw₃ hpending₃ hafter hannounced₂.cons.2)

/-- What the log misses leaves it as it is and still changes what it is to tell. -/
theorem Unannounced.view_ne {i : Invocation} (h : Unannounced i s) :
    (machine.step i s).governor.events = s.governor.events ∧
      view [] (machine.step i s).governor ≠ view [] s.governor := by
  rcases h with ⟨env, id, rfl, haccepted⟩ |
    ⟨env, pending, config, rfl, haccepted, hpending, hconfig, hne⟩
  · have h := invoke_outcome haccepted.returns
    generalize machine.step (.governor env (.markExpired id)) s = s' at h ⊢
    cases h with
    | opened hopens => contradiction
    | delegated hcall => simp at hcall
    | targetSet hcall => simp at hcall
    | nominated hcall => simp at hcall
    | expired _ hstored hqueued =>
      refine ⟨rfl, fun heq => ?_⟩
      have hproposal := congrFun (congrArg Replica.proposal heq) id
      simp [view, shown, hstored, Proposal.tracked, hqueued] at hproposal
  · have h := invoke_outcome haccepted.returns
    generalize machine.step (.governor env .acceptAdmin) s = s' at h ⊢
    cases h with
    | opened hopens => contradiction
    | delegated hcall => simp at hcall
    | targetSet hcall => simp at hcall
    | nominated hcall => simp at hcall
    | accepted hpending' _ hconfig' =>
      obtain rfl := Option.some.inj (hpending.symm.trans hpending')
      obtain rfl := Option.some.inj (hconfig.symm.trans hconfig')
      refine ⟨rfl, fun heq => ?_⟩
      have hsettings := congrArg Replica.settings heq
      simp [view, hconfig, Config.tracked, hne] at hsettings

/-! ## Whole executions -/

/-- Runs of whole executions go on one after the other. -/
theorem Bracketed.append {first later : List Invocation} (h : Bracketed s first)
    (hlater : Bracketed (machine.run s first) later) : Bracketed s (first ++ later) := by
  induction h with
  | nil => exact hlater
  | call hplain _ ih => exact .call hplain (ih hlater)
  | execution haccepted hinner _ _ ih =>
    rw [List.cons_append, List.append_assoc, List.cons_append]
    refine .execution haccepted hinner (ih ?_)
    simpa only [Clocked.run_cons, Clocked.run_append, Clocked.run_nil] using hlater

/-- A run without executions has only whole ones. -/
theorem Bracketed.of_plain {calls : List Invocation} (h : ∀ i ∈ calls, i.plain = true) :
    Bracketed s calls := by
  induction calls generalizing s with
  | nil => exact .nil
  | cons i rest ih =>
    exact .call (h i List.mem_cons_self) (ih fun j hj => h j (List.mem_cons_of_mem i hj))

/-- All that the dispatched contracts do to the system are calls and whole executions at the same
ledger. -/
def CallsBackWhole (callee : Callee) : Prop :=
  ∀ env action s s', callee env action s = some s' →
    ∃ calls, (∀ i ∈ calls, i.sequence = env.sequence) ∧ Bracketed s calls ∧ machine.run s calls = s'

/-- What the actions dispatch is a run of whole executions. -/
theorem dispatchActions_bracketed {callee : Callee} (hcallee : CallsBackWhole callee)
    {actions : List ProposalAction} {u : Unit}
    (h : (dispatchActions callee env actions).Returns s u s') :
    ∃ calls, (∀ i ∈ calls, i.sequence = env.sequence) ∧ Bracketed s calls ∧
      machine.run s calls = s' := by
  induction actions generalizing s with
  | nil => exact ⟨[], by simp, .nil, (returns_pure_iff.mp h).2⟩
  | cons action rest ih =>
    rw [dispatchActions, returns_read_bind_iff, returns_okOr_bind_iff] at h
    obtain ⟨s₁, hcall, h⟩ := h
    obtain ⟨first, hfirst, hbfirst, rfl⟩ := hcallee env action s s₁ hcall
    obtain ⟨later, hlater, hblater, rfl⟩ := ih h
    refine ⟨first ++ later, ?_, hbfirst.append hblater, Clocked.run_append ..⟩
    intro i hi
    rcases List.mem_append.mp hi with hi | hi
    · exact hfirst i hi
    · exact hlater i hi

/-- A successful execution is a whole one. -/
theorem execute_bracketed {callee : Callee} (hcallee : CallsBackWhole callee) {executor : Address}
    {u : Unit} (h : (execute callee env executor id).Returns s u s') :
    ∃ calls, (∀ i ∈ calls, i.sequence = env.sequence) ∧ Bracketed s calls ∧
      machine.run s calls = s' := by
  obtain ⟨actions, s₁, hbegin, h⟩ := returns_bind_iff.mp h
  obtain ⟨_, s₂, hdispatch, h⟩ := returns_bind_iff.mp h
  have hfirst : (invoke env (.beginExecution executor id)).Returns s () s₁ := hbegin.bind rfl
  have hlast : (invoke env (.endExecution executor id)).Returns s₂ () s' := h
  obtain ⟨inner, htime, hinner, hrun⟩ := dispatchActions_bracketed hcallee hdispatch
  have hstep : machine.step (.governor env (.beginExecution executor id)) s = s₁ := hfirst.commit_eq
  refine ⟨_, ?_, @Bracketed.execution _ _ _ _ inner [] ⟨(), s₁, hfirst⟩ (hstep ▸ hinner) .nil, ?_⟩
  · intro i hi
    simp only [List.mem_cons, List.mem_append, List.not_mem_nil, or_false] at hi
    rcases hi with rfl | hi | rfl
    · rfl
    · exact htime i hi
    · rfl
  · rw [Clocked.run_cons, Clocked.run_append, hstep, hrun]
    exact hlast.commit_eq

/-! ## Completeness -/

/-- In every run without an expiry and without a hand-over to another admin, folding the events
alone gives the status, the queue ledger and the tallies of every proposal, the held deposits, the
allowlist, the admin, the guardian and the pause. Each of the two steps left out changes these
and publishes nothing, so that no fold can follow it. -/
theorem event_log_complete {calls : List Invocation} (hcalls : machine.Scheduled start now calls)
    (hb : Bracketed System.empty calls) :
    let s := machine.run System.empty calls
    (Announced System.empty calls →
      replay Replica.apply Replica.empty s.governor.events = view [] s.governor) ∧
    (∀ i, Unannounced i s →
      (machine.step i s).governor.events = s.governor.events ∧
        view [] (machine.step i s).governor ≠ view [] s.governor) ∧
    ∀ (callee : Callee) (env : Env) (executor : Address) (id : ℕ) (s' : System),
      CallsBackWhole callee → (execute callee env executor id).Returns s () s' →
        ∃ more, (∀ i ∈ more, i.sequence = env.sequence) ∧
          Bracketed System.empty (calls ++ more) ∧ s' = machine.run System.empty (calls ++ more) := by
  intro s
  refine ⟨fun hannounced => ?_, fun i h => h.view_ne, ?_⟩
  · have hpending : Pending [] System.empty := fun id hid => absurd hid List.not_mem_nil
    exact (accounts_run hb (.empty start) hpending hcalls hannounced).replay_eq rfl
  · intro callee env executor id s' hcallee hret
    obtain ⟨more, htime, hmore, hrun⟩ := execute_bracketed hcallee hret
    exact ⟨more, htime, hb.append hmore, by rw [Clocked.run_append]; exact hrun.symm⟩

/-- The calls that may leave something unannounced. -/
def Invocation.silent : Invocation → Bool
  | .governor _ (.markExpired _) | .governor _ .acceptAdmin => true
  | _ => false

/-- A run without silent invocations is announced. -/
theorem announced_of_forall {calls : List Invocation} (h : ∀ i ∈ calls, i.silent = false) :
    Announced s calls := by
  rintro first i later rfl hunannounced
  have hi := h i (by simp)
  rcases hunannounced with ⟨env, id, rfl, -⟩ | ⟨env, pending, config, rfl, -⟩
  · contradiction
  · contradiction

/-- A proposal that is opened, voted for, queued and executed, read off the events. -/
theorem event_log_complete_passing :
    let g := (machine.run System.empty (passingCalls.take 7)).governor
    replay Replica.apply Replica.empty g.events = view [] g ∧
      statusOf (machine.run System.empty (passingCalls.take 7)) 1 = some .executed := by
  have hcalls : machine.Scheduled 0 12 (passingCalls.take 7) := by decide
  have hexecution : Bracketed (machine.run System.empty (passingCalls.take 5))
      [.governor (.authorized 12) (.beginExecution (.account 3) 1),
        .governor (.authorized 12) (.endExecution (.account 3) 1)] :=
    @Bracketed.execution _ _ _ _ [] [] (by decide) .nil .nil
  have hb : Bracketed System.empty (passingCalls.take 7) :=
    @Bracketed.append _ (passingCalls.take 5) _ (.of_plain (by decide)) hexecution
  exact ⟨(event_log_complete hcalls hb).1 (announced_of_forall (by decide)), by decide⟩

/-- A proposal is queued, with five ledgers to execute it. -/
def lapsingCalls : List Invocation :=
  [.token ⟨.authorized 1, .initializeToken (.account 1) [] [] 7 (.ofNat 100)⟩,
    .governor (.authorized 1)
      (.initializeGovernor (.account 1) (.account 2) (.contract 1) 1000 3 2 5 0),
    .governor (.authorized 5) (.createProposal (.account 1) [84] [] []),
    .governor (.authorized 6) (.vote (.account 1) 1 1),
    .governor (.authorized 10) (.finalize 1)]

/-- Two runs with the same events end with the proposal queued in one and expired in the other. -/
theorem event_log_incomplete :
    ¬ ∀ calls calls' : List Invocation,
      machine.Scheduled 0 18 calls → machine.Scheduled 0 18 calls' →
      Bracketed System.empty calls → Bracketed System.empty calls' →
      (machine.run System.empty calls).governor.events =
        (machine.run System.empty calls').governor.events →
      view [] (machine.run System.empty calls).governor =
        view [] (machine.run System.empty calls').governor := by
  intro h
  have hview := h lapsingCalls (lapsingCalls ++ [.governor (.authorized 18) (.markExpired 1)])
    (by decide) (by decide) (.of_plain (by decide)) (.of_plain (by decide)) (by decide)
  have hstatus := congrArg (fun r : Replica => (r.proposal 1).map Tracked.status) hview
  revert hstatus
  decide

end Quorum.Governor

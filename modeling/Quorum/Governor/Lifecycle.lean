import Quorum.Governor.Runs

/-!
# The life of a proposal

`StatusChange` lists the ways in which the stored status of a proposal may change in one step,
with the ledgers and the roles they ask for. Every step of a run is one of them, so the five
terminal statuses are never left, no proposal is executed twice, and an execution comes no
sooner than the timelock after the decision that queued it.
-/

namespace Quorum.Governor

open Foundation Contract

variable {s s' : System} {env : Env} {start now id : ℕ}

/-- The stored status of a proposal, if it is stored. -/
def statusOf (s : System) (id : ℕ) : Option ProposalStatus :=
  (s.governor.proposal id).map Proposal.status

/-- The statuses that end the life of a proposal. -/
def ProposalStatus.terminal : ProposalStatus → Bool
  | .failed | .executed | .cancelled | .expired | .vetoed => true
  | .active | .queued => false

/-- The ways in which the status of a proposal may change in a step from the state `s`. -/
inductive StatusChange (s : System) (id : ℕ) :
    Invocation → Option ProposalStatus → Option ProposalStatus → Prop
  | same {i : Invocation} {status : Option ProposalStatus} : StatusChange s id i status status
  | created {env : Env} {c : Call} {config : Config} {proposer : Address} {conviction : Bool}
      (hopens : c.opens = some (proposer, conviction)) (hauth : env.auth proposer = true)
      (hconfig : s.governor.config = some config) (hunpaused : config.paused = false) :
      StatusChange s id (.governor env c) none (some .active)
  | decided {env : Env} {p : Proposal} {status : ProposalStatus}
      (hstored : s.governor.proposal id = some p) (hclosed : p.endLedger < env.sequence)
      (hstatus : status = .queued ∨ status = .failed) :
      StatusChange s id (.governor env (.finalize id)) (some .active) (some status)
  | cancelled {env : Env} {caller : Address} {p : Proposal} {config : Config}
      (hstored : s.governor.proposal id = some p) (hconfig : s.governor.config = some config)
      (hauth : env.auth caller = true) (hrole : caller = p.proposer ∨ caller = config.admin)
      (hopen : env.sequence ≤ p.endLedger) :
      StatusChange s id (.governor env (.cancel caller id)) (some .active) (some .cancelled)
  | vetoed {env : Env} {caller : Address} {reason : Text} {p : Proposal} {config : Config}
      (hstored : s.governor.proposal id = some p) (hconfig : s.governor.config = some config)
      (hauth : env.auth caller = true) (hrole : caller = config.guardian)
      (hearly : env.sequence < p.queueLedger) :
      StatusChange s id (.governor env (.veto caller id reason)) (some .queued) (some .vetoed)
  | executed {env : Env} {executor : Address} {p : Proposal} {config : Config}
      (hstored : s.governor.proposal id = some p) (hconfig : s.governor.config = some config)
      (hunpaused : config.paused = false) (hready : p.queueLedger ≤ env.sequence)
      (hdeadline : 0 < config.executionGracePeriod →
        env.sequence ≤ p.queueLedger + config.executionGracePeriod) :
      StatusChange s id (.governor env (.beginExecution executor id)) (some .queued)
        (some .executed)
  | expired {env : Env} {p : Proposal} {config : Config}
      (hstored : s.governor.proposal id = some p) (hconfig : s.governor.config = some config)
      (hgrace : 0 < config.executionGracePeriod)
      (hlate : p.queueLedger + config.executionGracePeriod < env.sequence) :
      StatusChange s id (.governor env (.markExpired id)) (some .queued) (some .expired)

/-! ## One step -/

/-- The status of a stored proposal is the stored one. -/
theorem statusOf_eq {p : Proposal} (h : s.governor.proposal id = some p) :
    statusOf s id = some p.status := by
  rw [statusOf, h, Option.map_some]

/-- A restated proposal goes from its old status to its new one. -/
theorem Restates.statusOf_self {p p' : Proposal} (h : Restates id p p' s s') :
    statusOf s id = some p.status ∧ statusOf s' id = some p'.status := by
  refine ⟨statusOf_eq h.stored, statusOf_eq ?_⟩
  rw [h.proposal, Function.update_self]

/-- Restating a proposal leaves the statuses of others. -/
theorem Restates.statusOf_other {p p' : Proposal} (h : Restates id p p' s s') {other : ℕ}
    (hne : other ≠ id) : statusOf s' other = statusOf s other := by
  rw [statusOf, h.proposal, Function.update_of_ne hne, statusOf]

/-- Restating a proposal is a change of status of that proposal alone. -/
theorem Restates.statusChange {i : Invocation} {p p' : Proposal} (h : Restates id p p' s s')
    (hself : StatusChange s id i (some p.status) (some p'.status)) (other : ℕ) :
    StatusChange s other i (statusOf s other) (statusOf s' other) := by
  by_cases hother : other = id
  · subst hother
    rw [h.statusOf_self.1, h.statusOf_self.2]
    exact hself
  · rw [h.statusOf_other hother]
    exact .same

/-- A new tally leaves the status. -/
theorem Proposal.status_setTally (p : Proposal) (support : ℕ) (value : I128) :
    (p.setTally support value).status = p.status := by
  unfold Proposal.setTally
  split <;> rfl

/-- A new tally leaves the end of the timelock. -/
theorem Proposal.queueLedger_setTally (p : Proposal) (support : ℕ) (value : I128) :
    (p.setTally support value).queueLedger = p.queueLedger := by
  unfold Proposal.setTally
  split <;> rfl

/-- A counted vote leaves the status and the queue ledger alone. -/
theorem Votes.status {voter : Address} {support : ℕ} {p counted : Proposal} {votingPower : I128}
    (h : Votes env voter id support p counted votingPower s s') :
    counted.status = p.status ∧ counted.queueLedger = p.queueLedger := by
  obtain ⟨q, huncount, hcount⟩ := h.recount
  obtain ⟨sum, -, rfl⟩ := Option.map_eq_some_iff.mp hcount
  rw [Proposal.status_setTally, Proposal.queueLedger_setTally]
  cases hprevious : s.governor.hasVoted id voter with
  | none =>
    rw [hprevious] at huncount
    obtain rfl := Option.some.inj huncount
    exact ⟨rfl, rfl⟩
  | some previous =>
    rw [hprevious] at huncount
    obtain ⟨rest, -, rfl⟩ := Option.map_eq_some_iff.mp huncount
    exact ⟨p.status_setTally _ _, p.queueLedger_setTally _ _⟩

/-- A vote changes no status. -/
theorem Votes.statusOf {voter : Address} {support : ℕ} {p counted : Proposal} {votingPower : I128}
    (h : Votes env voter id support p counted votingPower s s') (other : ℕ) :
    statusOf s' other = Governor.statusOf s other := by
  by_cases hother : other = id
  · subst hother
    rw [Governor.statusOf, h.proposal, Function.update_self, Option.map_some, h.status.1,
      statusOf_eq h.stored]
  · rw [Governor.statusOf, h.proposal, Function.update_of_ne hother, Governor.statusOf]

/-- Every change moves the status of every proposal in one of the listed ways. -/
theorem Change.statusChange {c : Call} (hw : WellFormed now s) (h : Change env c s s') (id : ℕ) :
    StatusChange s id (.governor env c) (statusOf s id) (statusOf s' id) := by
  cases h with
  | quiet _ h =>
    rw [statusOf, statusOf, h.proposal]
    exact .same
  | voted h =>
    rw [h.statusOf]
    exact .same
  | @opened _ _ _ config proposer conviction p hopens h =>
    by_cases hid : id = p.id
    · subst hid
      have hnone : statusOf s p.id = none := by
        rw [statusOf, (hw.fresh h).1, Option.map_none]
      have hsome : statusOf s' p.id = some .active := by
        rw [statusOf, h.proposal, Function.update_self, Option.map_some, h.status]
      rw [hnone, hsome]
      exact .created hopens h.authorized h.configured h.unpaused
    · have hsame : statusOf s' id = statusOf s id := by
        rw [statusOf, h.proposal, Function.update_of_ne hid, statusOf]
      rw [hsame]
      exact .same
  | queued hclosed hactive _ _ _ h =>
    exact h.statusChange (hactive ▸ .decided h.stored hclosed (.inl rfl)) id
  | failed hclosed hactive _ _ h =>
    exact h.statusChange (hactive ▸ .decided h.stored hclosed (.inr rfl)) id
  | executed hconfig hunpaused hqueued hready hdeadline h =>
    exact h.statusChange (hqueued ▸ .executed h.stored hconfig hunpaused hready hdeadline) id
  | cancelled hconfig hauth hrole hactive hopen h =>
    exact h.statusChange (hactive ▸ .cancelled h.stored hconfig hauth hrole hopen) id
  | vetoed hconfig hauth hrole hqueued hearly h =>
    exact h.statusChange (hqueued ▸ .vetoed h.stored hconfig hauth hrole hearly) id
  | expired hconfig hqueued hgrace hlate h =>
    exact h.statusChange (hqueued ▸ .expired h.stored hconfig hgrace hlate) id

/-- Every step changes a status only in one of the ways told. -/
theorem Step.statusChange {i : Invocation} (hw : WellFormed now s) (h : Step i s s') (id : ℕ) :
    StatusChange s id i (statusOf s id) (statusOf s' id) := by
  cases h with
  | token h => exact .same
  | refused => exact .same
  | governor hret he => exact he.change.statusChange hw id

/-- A terminal status allows no further change. -/
theorem StatusChange.terminal {i : Invocation} {status : ProposalStatus}
    {status' : Option ProposalStatus} (h : StatusChange s id i (some status) status')
    (hterminal : status.terminal = true) : status' = some status := by
  cases h with
  | same => rfl
  | decided => contradiction
  | cancelled => contradiction
  | vetoed => contradiction
  | executed => contradiction
  | expired => contradiction

/-! ## Runs -/

/-- A terminal status lasts to the end of every run. -/
theorem terminal_run {calls : List Invocation} {status : ProposalStatus} (hw : WellFormed start s)
    (hcalls : machine.Scheduled start now calls) (hstatus : statusOf s id = some status)
    (hterminal : status.terminal = true) : statusOf (machine.run s calls) id = some status := by
  induction calls generalizing start s with
  | nil => exact hstatus
  | cons i rest ih =>
    have hi := hw.mono hcalls.1
    have hstep := machine_step hi.blank i
    have hchange := hstep.statusChange hi id
    rw [hstatus] at hchange
    exact ih (hi.step hstep) hcalls.2 (hchange.terminal hterminal)

/-- An accepted execution takes a queued proposal to `executed`. -/
theorem Accepted.executes {executor : Address} (hblank : Blank s)
    (h : Accepted env (.beginExecution executor id) s) :
    ∃ p, s.governor.proposal id = some p ∧ p.status = .queued ∧ p.queueLedger ≤ env.sequence ∧
      statusOf (machine.step (.governor env (.beginExecution executor id)) s) id =
        some .executed := by
  have hchange := (h.effect hblank).change
  generalize machine.step (.governor env (.beginExecution executor id)) s = s' at hchange ⊢
  cases hchange with
  | quiet hquiet _ => contradiction
  | opened hopens _ => contradiction
  | executed hconfig hunpaused hqueued hready hdeadline h =>
    exact ⟨_, h.stored, hqueued, hready, h.statusOf_self.2⟩

/-- A queued version of a proposal is written by an accepted decision after the close of voting,
and its queue ledger is set then. -/
theorem Step.queued {i : Invocation} {p : Proposal} (h : Step i s s')
    (hqueued : p.status = .queued) (hbefore : s.governor.proposal id ≠ some p)
    (hafter : s'.governor.proposal id = some p) :
    ∃ env, i = .governor env (.finalize id) ∧ Accepted env (.finalize id) s ∧
      p.endLedger < env.sequence ∧ p.queueLedger = env.sequence + p.timelockPeriod := by
  have hwritten : ∀ {other : ℕ} {q : Proposal},
      s'.governor.proposal = Function.update s.governor.proposal other (some q) →
        other = id ∧ q = p := by
    intro other q hproposal
    rw [hproposal] at hafter
    by_cases hother : id = other
    · rw [hother, Function.update_self] at hafter
      exact ⟨hother.symm, Option.some.inj hafter⟩
    · rw [Function.update_of_ne hother] at hafter
      exact absurd hafter hbefore
  cases h with
  | token h => exact absurd hafter hbefore
  | refused => exact absurd hafter hbefore
  | @governor env c _ _ hret he =>
    cases he.change with
    | quiet _ h => exact absurd (h.proposal ▸ hafter) hbefore
    | opened _ h =>
      obtain ⟨-, rfl⟩ := hwritten h.proposal
      rw [h.status] at hqueued
      contradiction
    | voted h =>
      obtain ⟨-, rfl⟩ := hwritten h.proposal
      rw [h.status.1, h.active] at hqueued
      contradiction
    | queued hclosed _ _ _ _ h =>
      obtain ⟨rfl, rfl⟩ := hwritten h.proposal
      exact ⟨env, rfl, ⟨(), s', hret⟩, hclosed, rfl⟩
    | failed _ _ _ _ h =>
      obtain ⟨-, rfl⟩ := hwritten h.proposal
      contradiction
    | executed _ _ _ _ _ h =>
      obtain ⟨-, rfl⟩ := hwritten h.proposal
      contradiction
    | cancelled _ _ _ _ _ h =>
      obtain ⟨-, rfl⟩ := hwritten h.proposal
      contradiction
    | vetoed _ _ _ _ _ h =>
      obtain ⟨-, rfl⟩ := hwritten h.proposal
      contradiction
    | expired _ _ _ _ h =>
      obtain ⟨-, rfl⟩ := hwritten h.proposal
      contradiction

/-- Behind every accepted execution in a run lies the accepted decision that queued it, by at
least the timelock of one ledger or more. -/
theorem execution_after_finalize {calls : List Invocation} {executor : Address}
    (hcalls : machine.Scheduled start now calls)
    (h : Accepted env (.beginExecution executor id) (machine.run System.empty calls)) :
    ∃ before fenv between p, calls = before ++ .governor fenv (.finalize id) :: between ∧
      Accepted fenv (.finalize id) (machine.run System.empty before) ∧
      (machine.run System.empty calls).governor.proposal id = some p ∧
      p.endLedger < fenv.sequence ∧ 1 ≤ p.timelockPeriod ∧
      fenv.sequence + p.timelockPeriod ≤ env.sequence := by
  have hw := wellFormed_run hcalls
  obtain ⟨p, hstored, hqueued, hready, -⟩ := h.executes hw.blank
  have htimelock := (hw.proposals id p hstored).timelock
  obtain ⟨before, i, between, rfl, hbefore, hafter⟩ :=
    Clocked.exists_step_of_run (P := fun s : System => s.governor.proposal id = some p)
      (by simp [System.empty, Storage.empty]) hstored
  have hfirst : machine.Scheduled start (machine.time i) before := (hcalls.of_append).1
  have hstep := machine_step (wellFormed_run hfirst).blank i
  obtain ⟨fenv, rfl, haccepted, hclosed, hqueue⟩ := hstep.queued hqueued hbefore hafter
  exact ⟨before, fenv, between, p, rfl, haccepted, hstored, hclosed, htimelock, by omega⟩

/-- No call after an accepted execution is another accepted execution of the same proposal. -/
theorem executed_once {calls more : List Invocation} {executor executor' : Address} {env' : Env}
    {later : ℕ} (hcalls : machine.Scheduled start now calls) (hnow : now ≤ env.sequence)
    (hmore : machine.Scheduled env.sequence later more)
    (h : Accepted env (.beginExecution executor id) (machine.run System.empty calls)) :
    ¬ Accepted env' (.beginExecution executor' id)
      (machine.run System.empty
        (calls ++ .governor env (.beginExecution executor id) :: more)) := by
  have hw := (wellFormed_run hcalls).mono hnow
  obtain ⟨p, -, -, -, hexecuted⟩ := h.executes hw.blank
  rw [Clocked.run_append, Clocked.run_cons]
  have hw' := hw.step (i := .governor env (.beginExecution executor id))
    (machine_step hw.blank _)
  have hlast := terminal_run hw' hmore hexecuted rfl
  intro hagain
  obtain ⟨p', hstored, hqueued, -, -⟩ := hagain.executes (hw'.run hmore).blank
  rw [statusOf_eq hstored, hqueued] at hlast
  contradiction

/-! ## The lifecycle -/

/-- In every run the status of a proposal changes only in the listed ways, and terminal statuses
last. An accepted execution follows the accepted decision that queued it by at least the
timelock and the close of voting, is never repeated, and meets no proposal that was cancelled,
vetoed, expired or failed before. A whole execution with its dispatched calls is such a run. -/
theorem proposal_lifecycle {calls : List Invocation} (hcalls : machine.Scheduled start now calls)
    (id : ℕ) :
    (∀ first i later, calls = first ++ i :: later →
      let s := machine.run System.empty first
      StatusChange s id i (statusOf s id) (statusOf (machine.step i s) id)) ∧
    (∀ first later status, calls = first ++ later →
      statusOf (machine.run System.empty first) id = some status → status.terminal = true →
        statusOf (machine.run System.empty calls) id = some status) ∧
    (∀ first env executor later,
      calls = first ++ .governor env (.beginExecution executor id) :: later →
      Accepted env (.beginExecution executor id) (machine.run System.empty first) →
        (∃ before fenv between p, first = before ++ .governor fenv (.finalize id) :: between ∧
          Accepted fenv (.finalize id) (machine.run System.empty before) ∧
          (machine.run System.empty first).governor.proposal id = some p ∧
          p.endLedger < fenv.sequence ∧ 1 ≤ p.timelockPeriod ∧
          fenv.sequence + p.timelockPeriod ≤ env.sequence) ∧
        ∀ between env' executor' rest,
          later = between ++ .governor env' (.beginExecution executor' id) :: rest →
            ¬ Accepted env' (.beginExecution executor' id) (machine.run System.empty
              (first ++ .governor env (.beginExecution executor id) :: between))) ∧
    ∀ (callee : Callee) (env : Env) (executor : Address) (s' : System), CallsBack callee →
      (execute callee env executor id).Returns (machine.run System.empty calls) () s' →
        Accepted env (.beginExecution executor id) (machine.run System.empty calls) ∧
        ∃ inner, (∀ i ∈ inner, i.sequence = env.sequence) ∧
          s' = machine.run System.empty (calls ++ .governor env (.beginExecution executor id) ::
            (inner ++ [.governor env (.endExecution executor id)])) := by
  refine ⟨?_, ?_, ?_, ?_⟩
  · rintro first i later rfl
    have hw := wellFormed_run hcalls.of_append.1
    exact (machine_step hw.blank i).statusChange hw id
  · rintro first later status rfl hstatus hterminal
    cases later with
    | nil => rwa [List.append_nil]
    | cons i rest =>
      obtain ⟨hfirst, hrest⟩ := hcalls.of_append
      have hlater : machine.Scheduled (machine.time i) now (i :: rest) := ⟨le_rfl, hrest⟩
      rw [Clocked.run_append]
      exact terminal_run (wellFormed_run hfirst) hlater hstatus hterminal
  · rintro first env executor later rfl haccepted
    obtain ⟨hfirst, hlater⟩ := hcalls.of_append
    refine ⟨execution_after_finalize hfirst haccepted, ?_⟩
    rintro between env' executor' rest rfl
    exact executed_once hfirst le_rfl hlater.of_append.1 haccepted
  · intro callee env executor s' hcallee hret
    obtain ⟨haccepted, inner, htime, hrun⟩ := execute_run hcallee hret
    exact ⟨haccepted, inner, htime, by rw [hrun, Clocked.run_append]⟩

/-- A token whose supply of 100 has a single holder, and a governor over it. -/
def launchCalls (votingPeriod : ℕ) : List Invocation :=
  [.token ⟨.authorized 1, .initializeToken (.account 1) [] [] 7 (.ofNat 100)⟩,
    .governor (.authorized 1)
      (.initializeGovernor (.account 1) (.account 2) (.contract 1) 1000 votingPeriod 2 0 0)]

/-- A proposal is opened, voted for, queued and executed; a second execution and a veto come too
late. -/
def passingCalls : List Invocation :=
  launchCalls 3 ++ [.governor (.authorized 5) (.createProposal (.account 1) [84] [] []),
    .governor (.authorized 6) (.vote (.account 1) 1 1),
    .governor (.authorized 10) (.finalize 1),
    .governor (.authorized 12) (.beginExecution (.account 3) 1),
    .governor (.authorized 12) (.endExecution (.account 3) 1),
    .governor (.authorized 13) (.beginExecution (.account 3) 1),
    .governor (.authorized 14) (.veto (.account 2) 1 [86])]

/-- A proposal is opened, passes, waits and is executed. -/
theorem proposal_lifecycle_passing :
    statusOf (machine.run System.empty passingCalls) 1 = some .executed := by
  have hcalls : machine.Scheduled 0 14 passingCalls := by decide
  have hexecuted : statusOf (machine.run System.empty (passingCalls.take 7)) 1 = some .executed := by
    decide
  exact (proposal_lifecycle hcalls 1).2.1 (passingCalls.take 7) (passingCalls.drop 7) .executed rfl
    hexecuted rfl

end Quorum.Governor

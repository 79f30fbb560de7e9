import Quorum.Governor.Phases

/-!
# Executing a proposal

The contracts that an execution dispatches to have states of their own, here of any type, and may
call back into the governor and the token. A successful execution dispatches the attached actions
in their order and no others; a failed one leaves everything as it was. From the commit of the
terminal state on, whatever is called, another execution of the same proposal is refused before
it writes or dispatches anything.
-/

namespace Quorum.Governor

open Foundation Contract

variable {s s' : System} {env : Env} {start now id : ℕ} {W : Type}

/-! ## Executions in a world -/

/-- A dispatched contract in a world that holds the states of all other contracts: what a
successful call leaves, or `none` for a failed one. -/
abbrev WorldCallee (W : Type) := Env → ProposalAction → System × W → Option (System × W)

/-- A part of an execution that does not leave the two contracts. -/
def inWorld {A : Type} (m : GovernorM A) : Contract GovernanceError (System × W) A :=
  zoom Prod.fst (fun s x => (s, x.2)) m

/-- Dispatches the actions in order, stopping at the first that fails. -/
def dispatchInWorld (callee : WorldCallee W) (env : Env) :
    List ProposalAction → Contract GovernanceError (System × W) Unit
  | [] => pure ()
  | action :: rest => do
    let x ← read
    let x' ← okOr (callee env action x) .actionFailed
    write fun _ => x'
    dispatchInWorld callee env rest

/-- `execute`, with the effects of the dispatched contracts on the world. -/
def executeInWorld (callee : WorldCallee W) (env : Env) (executor : Address) (proposalId : ℕ) :
    Contract GovernanceError (System × W) Unit := do
  let actions ← inWorld (beginExecution env executor proposalId)
  dispatchInWorld callee env actions
  inWorld (endExecution executor proposalId)

/-- A contract without a state of its own, in a world. -/
def Callee.inWorld (callee : Callee) : WorldCallee W := fun env action x =>
  (callee env action x.1).map fun s => (s, x.2)

/-- Contracts that leave the world are dispatched as in the governor's own model. -/
theorem dispatchInWorld_inWorld (callee : Callee) (actions : List ProposalAction) :
    dispatchInWorld (W := W) callee.inWorld env actions =
      inWorld (dispatchActions callee env actions) := by
  induction actions with
  | nil => rfl
  | cons action rest ih =>
    funext x
    obtain ⟨s, w⟩ := x
    change (dispatchInWorld (W := W) callee.inWorld env (action :: rest)).run (s, w) =
      (inWorld (dispatchActions callee env (action :: rest))).run (s, w)
    rw [dispatchInWorld, ih, dispatchActions]
    unfold inWorld
    rw [run_zoom, run_read_bind, run_read_bind]
    cases hcall : callee env action s with
    | none =>
      simp only [Callee.inWorld, hcall]
      rfl
    | some s' =>
      simp only [Callee.inWorld, hcall]
      rfl

/-- A sequence in the world runs part by part. -/
theorem inWorld_bind {A B : Type} (m : GovernorM A) (f : A → GovernorM B) :
    inWorld (W := W) (m >>= f) = inWorld m >>= fun a => inWorld (f a) := by
  unfold inWorld
  exact zoom_bind (by intros; rfl) (by intros; rfl) m f

/-- `execute` is the case of contracts without states of their own. -/
theorem executeInWorld_inWorld (callee : Callee) (executor : Address) (id : ℕ) :
    executeInWorld (W := W) callee.inWorld env executor id =
      inWorld (execute callee env executor id) := by
  unfold executeInWorld execute
  rw [inWorld_bind]
  congr 1
  funext actions
  rw [inWorld_bind, dispatchInWorld_inWorld]

/-- An operation in the world returns as it does alone, and leaves the rest of the world. -/
theorem returns_inWorld_iff {A : Type} {m : GovernorM A} {x y : System × W} {a : A} :
    (inWorld m).Returns x a y ↔ m.Returns x.1 a y.1 ∧ y.2 = x.2 := by
  rw [inWorld, returns_zoom_iff]
  constructor
  · rintro ⟨t, hm, rfl⟩
    exact ⟨hm, rfl⟩
  · rintro ⟨hm, hw⟩
    exact ⟨y.1, hm, Prod.ext rfl hw.symm⟩

/-! ## Dispatching -/

/-- The calls of the dispatched contracts lead from one state of the world to another, one call for
each action. -/
inductive Dispatched (callee : WorldCallee W) (env : Env) :
    List ProposalAction → System × W → System × W → Prop
  | nil {x : System × W} : Dispatched callee env [] x x
  | cons {action : ProposalAction} {rest : List ProposalAction} {x y z : System × W}
      (hcall : callee env action x = some y) (hrest : Dispatched callee env rest y z) :
      Dispatched callee env (action :: rest) x z

variable {callee : WorldCallee W}

/-- A dispatch that returns has made one call for each action, in order. -/
theorem dispatchInWorld_returns {actions : List ProposalAction} {u : Unit} {x y : System × W}
    (h : (dispatchInWorld callee env actions).Returns x u y) :
    Dispatched callee env actions x y := by
  induction actions generalizing x with
  | nil =>
    obtain ⟨-, rfl⟩ := returns_pure_iff.mp h
    exact .nil
  | cons action rest ih =>
    rw [dispatchInWorld, returns_read_bind_iff, returns_okOr_bind_iff] at h
    obtain ⟨x', hcall, h⟩ := h
    exact .cons hcall (ih h)

/-- All that the dispatched contracts do to the governor and the token are calls made at the same
ledger. -/
def CallsBackInWorld (callee : WorldCallee W) : Prop :=
  ∀ env action x y, callee env action x = some y → machine.Advances env.sequence x.1 y.1

/-- What the dispatched contracts do to the system is a run of calls in the ledger of the
execution. -/
theorem Dispatched.advances (hcallee : CallsBackInWorld callee) {actions : List ProposalAction}
    {x y : System × W} (h : Dispatched callee env actions x y) :
    machine.Advances env.sequence x.1 y.1 := by
  induction h with
  | nil => exact .refl _ _
  | cons hcall _ ih => exact (hcallee _ _ _ _ hcall).trans ih

/-! ## The attached actions -/

/-- The action that a step attaches to a proposal, if it is an accepted attachment. -/
def attachedBy (id : ℕ) (s : System) : Invocation → List ProposalAction
  | .governor env (.setProposalAction proposer id' target function args) =>
    if id' = id ∧ Accepted env (.setProposalAction proposer id' target function args) s then
      [⟨target, function, args⟩]
    else []
  | _ => []

/-- The actions that the accepted attachments of a run name for a proposal, in order. -/
def attached (id : ℕ) : System → List Invocation → List ProposalAction
  | _, [] => []
  | s, i :: rest => attachedBy id s i ++ attached id (machine.step i s) rest

/-- Only an accepted attachment attaches an action. -/
theorem attachedBy_eq_nil {c : Call}
    (h : ∀ proposer id' target function args, c ≠ .setProposalAction proposer id' target function args) :
    attachedBy id s (.governor env c) = [] := by
  cases c with
  | setProposalAction proposer id' target function args =>
    exact absurd rfl (h proposer id' target function args)
  | _ => rfl

/-- An accepted call appends what it attaches to the actions of the proposal. -/
theorem Outcome.proposalActions {c : Call} (h : Outcome env s c s') (haccepted : Accepted env c s) :
    getProposalActions s'.governor id =
      getProposalActions s.governor id ++ attachedBy id s (.governor env c) := by
  have hsame : s'.governor.proposalAction = s.governor.proposalAction →
      (∀ proposer id' target function args,
        c ≠ .setProposalAction proposer id' target function args) →
      getProposalActions s'.governor id =
        getProposalActions s.governor id ++ attachedBy id s (.governor env c) := by
    intro hentry hc
    rw [attachedBy_eq_nil hc, List.append_nil, getProposalActions, hentry, getProposalActions]
  cases h with
  | @actionSet proposer target id' function args p =>
    by_cases hid : id' = id
    · subst hid
      simp [attachedBy, haccepted, getProposalActions]
    · simp [attachedBy, hid, getProposalActions, Function.update_of_ne (Ne.symm hid)]
  | opened hopens _ _ _ _ hleft =>
    refine hsame (by rw [hleft]) ?_
    rintro _ _ _ _ _ rfl
    contradiction
  | voted _ hleft => exact hsame (by rw [hleft]) (by simp)
  | delegated hcall => exact hsame rfl (by rcases hcall with rfl | ⟨rfl, -⟩ <;> simp)
  | targetSet hcall => exact hsame rfl (by rcases hcall with ⟨rfl, -⟩ | ⟨rfl, -⟩ <;> simp)
  | nominated hcall => exact hsame rfl (by rcases hcall with ⟨_, rfl, -⟩ | ⟨rfl, -⟩ <;> simp)
  | _ => exact hsame rfl (by simp)

/-- Every step appends what it attaches to the actions of the proposal. -/
theorem step_proposalActions (i : Invocation) :
    getProposalActions (machine.step i s).governor id =
      getProposalActions s.governor id ++ attachedBy id s i := by
  cases i with
  | token i => exact (List.append_nil _).symm
  | governor env c =>
    by_cases haccepted : Accepted env c s
    · exact (invoke_outcome haccepted.returns).proposalActions haccepted
    · have hnone : attachedBy id s (.governor env c) = [] := by
        unfold attachedBy
        split
        · rename_i heq
          obtain ⟨rfl, rfl⟩ := Invocation.governor.inj heq
          rw [if_neg fun h => haccepted h.2]
        · rfl
      rw [step_eq_of_not_accepted haccepted, hnone, List.append_nil]

/-- The stored actions are the attached ones. -/
theorem proposalActions_run (calls : List Invocation) (s : System) :
    getProposalActions (machine.run s calls).governor id =
      getProposalActions s.governor id ++ attached id s calls := by
  induction calls generalizing s with
  | nil => exact (List.append_nil _).symm
  | cons i rest ih => rw [Clocked.run_cons, ih, step_proposalActions, attached, List.append_assoc]

/-- An accepted attachment is the proposer's, and voting is not over. -/
theorem Accepted.attaches {proposer target : Address} {function : Text} {args : List Val}
    (h : Accepted env (.setProposalAction proposer id target function args) s) :
    ∃ p, s.governor.proposal id = some p ∧ proposer = p.proposer ∧ env.auth proposer = true ∧
      env.sequence ≤ p.endLedger ∧ (getProposalActions s.governor id).length < maxProposalActions := by
  have hout := invoke_outcome h.returns
  generalize machine.step _ s = s' at hout
  cases hout with
  | opened hopens => contradiction
  | delegated hcall => simp at hcall
  | targetSet hcall => simp at hcall
  | nominated hcall => simp at hcall
  | actionSet hauth hstored hproposer hopen _ _ hroom =>
    exact ⟨_, hstored, hproposer, hauth, hopen, hroom⟩

/-- A step attaches an action only by an accepted attachment. -/
theorem attachedBy_ne_nil {i : Invocation} (h : attachedBy id s i ≠ []) :
    ∃ env proposer target function args,
      i = .governor env (.setProposalAction proposer id target function args) ∧
        Accepted env (.setProposalAction proposer id target function args) s ∧
        attachedBy id s i = [⟨target, function, args⟩] := by
  unfold attachedBy at h ⊢
  split at h
  · rename_i env proposer id' target function args
    split at h <;> rename_i haccepted
    · obtain ⟨rfl, haccepted⟩ := haccepted
      exact ⟨env, proposer, target, function, args, rfl, haccepted, if_pos ⟨rfl, haccepted⟩⟩
    · contradiction
  · contradiction

/-- No proposal carries more actions than it may. -/
theorem length_proposalActions_run (calls : List Invocation) (s : System)
    (hs : (getProposalActions s.governor id).length ≤ maxProposalActions) :
    (getProposalActions (machine.run s calls).governor id).length ≤ maxProposalActions := by
  induction calls generalizing s with
  | nil => exact hs
  | cons i rest ih =>
    apply ih
    rw [step_proposalActions, List.length_append]
    by_cases hnone : attachedBy id s i = []
    · rw [hnone]
      exact hs
    · obtain ⟨env, proposer, target, function, args, -, haccepted, hone⟩ := attachedBy_ne_nil hnone
      obtain ⟨p, -, -, -, -, hroom⟩ := haccepted.attaches
      rw [hone, List.length_singleton]
      exact hroom

/-! ## The two ends -/

/-- A refused execution has written nothing. -/
theorem beginExecution_refuses {executor : Address} :
    (beginExecution env executor id).Refuses (fun _ => True) s := by
  refine refuses_demand_bind (fun _ => trivial) fun _ => ?_
  refine refuses_orElse_bind (o := s.governor.config) (fun _ => trivial) fun config _ => ?_
  refine refuses_rejectIf_bind (fun _ => trivial) fun _ => ?_
  refine refuses_orElse_bind (o := s.governor.proposal id) (fun _ => trivial) fun p _ => ?_
  refine refuses_rejectIf_bind (fun _ => trivial) fun _ => ?_
  refine refuses_rejectIf_bind (fun _ => trivial) fun _ => ?_
  refine refuses_rejectIf_bind (fun _ => trivial) fun _ => ?_
  refine refuses_orElse_bind (fun _ => trivial) fun deadline _ => ?_
  refine refuses_rejectIf_bind (fun _ => trivial) fun _ => ?_
  refine refuses_read_bind (refuses_rejectIf_bind (fun _ => trivial) fun _ => ?_)
  exact Succeeds.refuses ⟨_, _, rfl⟩

/-- The checks of an execution that come before the allowlist. -/
structure Executable (env : Env) (executor : Address) (p : Proposal) (s : System) : Prop where
  authorized : env.auth executor = true
  queued : p.status = .queued
  kind : p.kind ≠ .signaling
  ready : p.queueLedger ≤ env.sequence
  config : ∃ config, s.governor.config = some config ∧ config.paused = false ∧
    p.queueLedger + config.executionGracePeriod ≤ maxU32 ∧
    (0 < config.executionGracePeriod →
      env.sequence ≤ p.queueLedger + config.executionGracePeriod)

/-- With one target off the allowlist an otherwise good execution is refused for it. -/
theorem beginExecution_notAllowed {executor : Address} {p : Proposal} {action : ProposalAction}
    (hstored : s.governor.proposal id = some p) (h : Executable env executor p s)
    (haction : action ∈ getProposalActions s.governor id)
    (hoff : targetAllowed s.governor action.target = false) :
    (beginExecution env executor id).run s = (.error (.error .targetNotAllowed), s) := by
  obtain ⟨config, hconfig, hunpaused, hfits, hdeadline⟩ := h.config
  have hsum := checkedAddU32_eq_some.mpr
    ⟨(rfl : p.queueLedger + config.executionGracePeriod = _), hfits⟩
  have hlate : ¬ (0 < config.executionGracePeriod ∧
      p.queueLedger + config.executionGracePeriod < env.sequence) :=
    fun hlate => absurd (hdeadline hlate.1) (Nat.not_le.mpr hlate.2)
  have hany : (getProposalActions s.governor id).any
      (fun action => !targetAllowed s.governor action.target) = true :=
    List.any_eq_true.mpr ⟨action, haction, by rw [hoff]; rfl⟩
  rw [beginExecution, requireAuth, run_demand_bind, if_pos h.authorized,
    (returns_getConfig hconfig).run_bind, run_rejectIf_bind, if_neg (by simp [hunpaused]),
    (returns_requireProposal hstored).run_bind, run_rejectIf_bind, if_neg (not_not.mpr h.queued),
    run_rejectIf_bind, if_neg h.kind, run_rejectIf_bind, if_neg (Nat.not_lt.mpr h.ready), hsum,
    run_unwrap_some_bind, run_rejectIf_bind, if_neg hlate, run_read_bind, run_rejectIf_bind,
    if_pos hany]

/-- An execution that does not begin is refused and changes nothing anywhere. -/
theorem executeInWorld_refused {executor : Address} {x : System × W}
    (h : ¬ (beginExecution env executor id).Succeeds x.1) :
    ∃ f, (beginExecution env executor id).run x.1 = (.error f, x.1) ∧
      (executeInWorld callee env executor id).run x = (.error f, x) := by
  rcases hrun : (beginExecution env executor id).run x.1 with ⟨f | actions, s₁⟩
  · obtain ⟨-, rfl⟩ := beginExecution_refuses f s₁ hrun
    refine ⟨f, rfl, ?_⟩
    rw [executeInWorld, run_bind, inWorld, run_zoom, hrun]
  · exact absurd ⟨actions, s₁, hrun⟩ h

/-- An execution that begins takes the attached actions, all of them allowed, and stores the
proposal as executed. -/
theorem beginExecution_begins {executor : Address} {actions : List ProposalAction} {s₁ : System}
    {p : Proposal} (hstored : s.governor.proposal id = some p)
    (h : (beginExecution env executor id).Returns s actions s₁) :
    actions = getProposalActions s.governor id ∧
      (∀ action ∈ actions, targetAllowed s.governor action.target = true) ∧
      s₁ = putProposal id { p with status := .executed } s := by
  obtain ⟨hout, rfl⟩ := beginExecution_returns h
  cases hout with
  | opened hopens => contradiction
  | delegated hcall => simp at hcall
  | targetSet hcall => simp at hcall
  | nominated hcall => simp at hcall
  | begun _ _ _ hstored' _ _ _ hallowed =>
    obtain rfl := Option.some.inj (hstored'.symm.trans hstored)
    exact ⟨rfl, hallowed, rfl⟩

/-- After an execution has begun the proposal stays executed, whatever is called. -/
theorem executed_advances {executor : Address} {actions : List ProposalAction} {s₁ y : System}
    (hw : WellFormed env.sequence s)
    (hbegin : (beginExecution env executor id).Returns s actions s₁)
    (hy : machine.Advances env.sequence s₁ y) : statusOf y id = some .executed := by
  have hret : (invoke env (.beginExecution executor id)).Returns s () s₁ := hbegin.bind rfl
  have haccepted : Accepted env (.beginExecution executor id) s := ⟨(), s₁, hret⟩
  obtain ⟨-, -, -, -, hexecuted⟩ := haccepted.executes hw.blank
  have hw₁ := hw.step (i := .governor env (.beginExecution executor id)) (machine_step hw.blank _)
  rw [show machine.step (.governor env (.beginExecution executor id)) s = s₁ from hret.commit_eq]
    at hexecuted hw₁
  obtain ⟨calls, htime, rfl⟩ := hy
  exact terminal_run hw₁ (Clocked.Scheduled.of_forall htime) hexecuted rfl

/-- An executed proposal is not executed again. -/
theorem not_begins_of_executed {executor : Address} (h : statusOf s id = some .executed) :
    ¬ (beginExecution env executor id).Succeeds s := by
  rintro ⟨actions, s₁, hret⟩
  have hout := (beginExecution_returns hret).1
  cases hout with
  | opened hopens => contradiction
  | delegated hcall => simp at hcall
  | targetSet hcall => simp at hcall
  | nominated hcall => simp at hcall
  | begun _ _ _ hstored hqueued =>
    rw [statusOf_eq hstored, hqueued] at h
    contradiction

/-! ## All or nothing -/

/-- What a successful execution has done to the world. -/
structure Performed (callee : WorldCallee W) (env : Env) (executor : Address) (id : ℕ)
    (actions : List ProposalAction) (p : Proposal) (x y : System × W) : Prop where
  allowed : ∀ action ∈ actions, targetAllowed x.1.governor action.target = true
  dispatched : ∃ z, Dispatched callee env actions
    (putProposal id { p with status := .executed } x.1, x.2) z ∧
      y = (z.1.mapGovernor fun g => { g with events := g.events ++ [.proposalExecuted id executor] },
        z.2)
  executed : statusOf y.1 id = some .executed

/-- A successful execution has been performed as told. -/
theorem executeInWorld_performs (hcallee : CallsBackInWorld callee) {executor : Address}
    {p : Proposal} {x y : System × W} {u : Unit} (hw : WellFormed env.sequence x.1)
    (hstored : x.1.governor.proposal id = some p)
    (h : (executeInWorld callee env executor id).Returns x u y) :
    Performed callee env executor id (getProposalActions x.1.governor id) p x y := by
  obtain ⟨actions, x₁, hbegin, h⟩ := returns_bind_iff.mp h
  obtain ⟨_, z, hdispatch, h⟩ := returns_bind_iff.mp h
  obtain ⟨hbegin, hworld⟩ := returns_inWorld_iff.mp hbegin
  obtain ⟨hend, hworld'⟩ := returns_inWorld_iff.mp h
  have hend := returns_publish_iff.mp hend
  have hdispatched := dispatchInWorld_returns hdispatch
  obtain ⟨rfl, hallowed, hbegun⟩ := beginExecution_begins hstored hbegin
  have hstatus := executed_advances hw hbegin (hdispatched.advances hcallee)
  refine ⟨hallowed, ⟨z, ?_, Prod.ext hend.symm hworld'⟩, ?_⟩
  · rw [← hbegun, ← hworld]
    exact hdispatched
  · rw [← hend]
    exact hstatus

/-- For a queued proposal in any reachable state and any dispatched contracts: the stored actions
are the attached ones, at most ten, each attached by the proposer before the end of voting. An
execution performs exactly these, or fails and leaves the whole world as it was. With one target
off the allowlist it is refused before anything is written or dispatched. Once it has begun,
every further execution of the proposal is refused in the same way, at every state that calls
lead to and so between and within the dispatched calls. -/
theorem execute_atomic {calls : List Invocation} (hcalls : machine.Scheduled start now calls)
    (hnow : now ≤ env.sequence) (hcallee : CallsBackInWorld callee) (w : W) (executor : Address)
    {p : Proposal} (hstored : (machine.run System.empty calls).governor.proposal id = some p)
    (hqueued : p.status = .queued) :
    let s := machine.run System.empty calls
    let actions := attached id System.empty calls
    actions.length ≤ 10 ∧
    (∀ first i later, calls = first ++ i :: later →
      attachedBy id (machine.run System.empty first) i ≠ [] →
        ∃ env target function args,
          i = .governor env (.setProposalAction p.proposer id target function args) ∧
          Accepted env (.setProposalAction p.proposer id target function args)
            (machine.run System.empty first) ∧
          env.auth p.proposer = true ∧ env.sequence ≤ p.endLedger) ∧
    ((∃ y, (executeInWorld callee env executor id).Returns (s, w) () y ∧
        Performed callee env executor id actions p (s, w) y) ∨
      ∃ f x, (executeInWorld callee env executor id).run (s, w) = (.error f, x) ∧
        (executeInWorld callee env executor id).commit (s, w) = (s, w) ∧
        statusOf s id = some .queued) ∧
    (∀ action ∈ actions, targetAllowed s.governor action.target = false →
      ∃ f, (executeInWorld callee env executor id).run (s, w) = (.error f, (s, w)) ∧
        (Executable env executor p s → f = .error .targetNotAllowed)) ∧
    ∀ started s₁, (beginExecution env executor id).Returns s started s₁ →
      (∀ first rest y, actions = first ++ rest → Dispatched callee env first (s₁, w) y →
        machine.Advances env.sequence s₁ y.1) ∧
      ∀ y, machine.Advances env.sequence s₁ y →
        ∀ (callee' : WorldCallee W) env' executor' w',
          ∃ f, (executeInWorld callee' env' executor' id).run (y, w') = (.error f, (y, w')) := by
  intro s actions
  have hw : WellFormed env.sequence s := (wellFormed_run hcalls).mono hnow
  have hactions : getProposalActions s.governor id = actions := by
    rw [proposalActions_run]
    rfl
  refine ⟨?_, ?_, ?_, ?_, ?_⟩
  · rw [← hactions]
    exact length_proposalActions_run calls System.empty (Nat.zero_le _)
  · rintro first i later rfl hattached
    obtain ⟨env, proposer, target, function, args, rfl, haccepted, -⟩ := attachedBy_ne_nil hattached
    obtain ⟨q, hq, rfl, hauth, hopen, -⟩ := haccepted.attaches
    obtain ⟨hfirst, hlater⟩ := hcalls.of_append
    have hrest : machine.Scheduled env.sequence now
        (.governor env (.setProposalAction q.proposer id target function args) :: later) :=
      ⟨le_rfl, hlater⟩
    obtain ⟨p', hp', hkept⟩ := kept_run (wellFormed_run hfirst) hrest hq
    rw [← Clocked.run_append] at hp'
    obtain rfl := Option.some.inj (hp'.symm.trans hstored)
    rw [hkept.proposer, hkept.endLedger]
    exact ⟨env, target, function, args, rfl, haccepted, hauth, hopen⟩
  · rcases hrun : (executeInWorld callee env executor id).run (s, w) with ⟨f | u, y⟩
    · refine .inr ⟨f, y, rfl, ?_, by rw [statusOf_eq hstored, hqueued]⟩
      rw [commit, hrun]
    · have hperformed := executeInWorld_performs (x := (s, w)) hcallee hw hstored hrun
      rw [show getProposalActions (s, w).1.governor id = actions from hactions] at hperformed
      exact .inl ⟨y, hrun, hperformed⟩
  · intro action haction hoff
    rw [← hactions] at haction
    have hstopped : ¬ (beginExecution env executor id).Succeeds s := by
      rintro ⟨started, s₁, hret⟩
      obtain ⟨rfl, hallowed, -⟩ := beginExecution_begins hstored hret
      rw [hallowed action haction] at hoff
      contradiction
    obtain ⟨f, hbegin, hexecute⟩ : ∃ f, (beginExecution env executor id).run s = (.error f, s) ∧
        (executeInWorld callee env executor id).run (s, w) = (.error f, (s, w)) :=
      executeInWorld_refused (x := (s, w)) hstopped
    refine ⟨f, hexecute, fun hexecutable => ?_⟩
    rw [beginExecution_notAllowed hstored hexecutable haction hoff] at hbegin
    exact (Except.error.inj (Prod.mk.inj hbegin).1).symm
  · intro started s₁ hbegin
    refine ⟨fun first rest y _ hdispatched => hdispatched.advances hcallee, ?_⟩
    intro y hy callee' env' executor' w'
    have hexecuted := executed_advances hw hbegin hy
    obtain ⟨f, -, hrefused⟩ :=
      executeInWorld_refused (x := (y, w')) (not_begins_of_executed hexecuted)
    exact ⟨f, hrefused⟩

/-- A proposal with one action passes. -/
def attachingCalls : List Invocation :=
  launchCalls 3 ++ [.governor (.authorized 5) (.createProposal (.account 1) [84] [] []),
    .governor (.authorized 5) (.allowTarget (.contract 9)),
    .governor (.authorized 6) (.setProposalAction (.account 1) 1 (.contract 9) [102] []),
    .governor (.authorized 6) (.vote (.account 1) 1 1),
    .governor (.authorized 10) (.finalize 1)]

/-- A contract that notes each call in the world. -/
def notingCallee : WorldCallee (List ProposalAction) := fun _ action x =>
  some (x.1, x.2 ++ [action])

/-- The one action of a queued proposal is performed, in a world that notes calls. -/
theorem execute_atomic_attached : ∃ p y,
    Performed notingCallee (.authorized 12) (.account 3) 1 [⟨.contract 9, [102], []⟩] p
      (machine.run System.empty attachingCalls, []) y := by
  have hcalls : machine.Scheduled 0 10 attachingCalls := by decide
  have hnow : 10 ≤ (Env.authorized 12).sequence := by decide
  have hcallee : CallsBackInWorld notingCallee := by
    rintro env action x y hcall
    obtain rfl := Option.some.inj hcall
    exact .refl _ _
  have hstatus : statusOf (machine.run System.empty attachingCalls) 1 = some .queued := by decide
  obtain ⟨p, hstored, hqueued⟩ := Option.map_eq_some_iff.mp hstatus
  have hattached : attached 1 System.empty attachingCalls = [⟨.contract 9, [102], []⟩] := by decide
  have hok : ((executeInWorld notingCallee (.authorized 12) (.account 3) 1).run
      (machine.run System.empty attachingCalls, [])).1.isOk = true := by decide
  obtain ⟨-, -, houtcome, -⟩ :=
    execute_atomic hcalls hnow hcallee [] (.account 3) hstored hqueued
  rcases houtcome with ⟨y, -, hperformed⟩ | ⟨f, x, hrun, -⟩
  · rw [hattached] at hperformed
    exact ⟨p, y, hperformed⟩
  · rw [hrun] at hok
    contradiction

end Quorum.Governor

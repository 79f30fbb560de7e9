import Quorum.Governor.Lifecycle
import Quorum.Sdk.Decoding
import Quorum.Sdk.Submission

/-!
# Waiting for the status of a proposal

`waitForProposalStatus` polls a proposal until it has a status. The chain goes on meanwhile, and a
poll may be answered by a node that is behind. Statuses come and go between the polls, but those
that end the life of a proposal stay: a wait for one of these cannot miss it, and what such a wait
reports remains true.
-/

namespace Quorum.Sdk.Client

open Foundation Governor

/-! ## The wait -/

/-- A poll: how many calls of the run its answer takes into account, what its read throws if it
does, how long it takes, and how late the timer of the delay after it fires. -/
structure Look where
  height : ℕ
  failure : Option Thrown
  took : ℕ
  lag : ℕ

/-- What a wait throws. -/
inductive WaitError where
  | thrown (error : Thrown)
  | error (message : JsString)
  | proposalNotFoundError (proposalId : ℕ)
  | proposalStatusTimeoutError (proposalId : ℕ) (targetStatus lastStatus : JsString)
      (timeoutMs : ℕ)

/-- A wait that is over: the height of its last poll, when it was over, and how. -/
structure Wait where
  height : ℕ
  ended : ℕ
  result : Except WaitError Proposal

/-- The chain at a height. -/
def chainAt (calls : List Invocation) (height : ℕ) : System :=
  machine.run System.empty (calls.take height)

/-- The proposal that a poll brings, if there is one. -/
def Look.proposal (net : Network) (calls : List Invocation) (id : ℕ) (look : Look) :
    Except WaitError (Option Proposal) :=
  match look.failure with
  | some error =>
    if parseGovernanceError error.message = some 3 then .ok none else .error (.thrown error)
  | none => (getProposal net (chainAt calls look.height).governor id).mapError .error

/-- The body of the loop. -/
def waitRound (net : Network) (calls : List Invocation) (id : ℕ) (targetStatus : JsString)
    (pollIntervalMs timeoutMs deadline now : ℕ) (look : Look) : Turn ℕ Wait :=
  let ended := now + look.took
  match look.proposal net calls id with
  | .error error => .finished ⟨look.height, ended, .error error⟩
  | .ok none => .finished ⟨look.height, ended, .error (.proposalNotFoundError id)⟩
  | .ok (some proposal) =>
    if proposal.status = targetStatus then .finished ⟨look.height, ended, .ok proposal⟩
    else if deadline ≤ ended then
      .finished ⟨look.height, ended, .error
        (.proposalStatusTimeoutError id targetStatus proposal.status timeoutMs)⟩
    else .again (ended + timer (min pollIntervalMs (deadline - ended)) look.lag)

/-- The time that a wait takes, unless the options say so that of the client by default. -/
def waitTimeout (options : Option TransactionConfirmationOptions) : ℕ :=
  (options.bind TransactionConfirmationOptions.timeoutMs).getD defaultConfirmationTimeoutMs

/-- `waitForProposalStatus`, given the run of the contracts and the polls. It is still under way if
these are too few. -/
def waitForProposalStatus (config : QuorumClientConfig) (net : Network) (calls : List Invocation)
    (id : ℕ) (targetStatus : JsString) (options : Option TransactionConfirmationOptions)
    (looks : List Look) (now : ℕ) : Turn ℕ Wait :=
  Turn.loop (waitRound net calls id targetStatus (pollInterval config options)
    (waitTimeout options) (now + waitTimeout options)) now looks

/-! ## One poll -/

variable {net : Network} {calls : List Invocation} {id pollIntervalMs timeoutMs deadline now : ℕ}
  {targetStatus : JsString} {look : Look}

/-- What a poll comes to. -/
inductive Looked (net : Network) (calls : List Invocation) (id : ℕ) (targetStatus : JsString)
    (pollIntervalMs timeoutMs deadline now : ℕ) (look : Look) : Turn ℕ Wait → Prop
  | unanswered {error : Thrown} (hfailure : look.failure = some error) {result : WaitError}
      (hresult : result = .thrown error ∨ result = .proposalNotFoundError id) :
      Looked net calls id targetStatus pollIntervalMs timeoutMs deadline now look
        (.finished ⟨look.height, now + look.took, .error result⟩)
  | absent (habsent : (chainAt calls look.height).governor.proposal id = none) {result : WaitError}
      (hresult : result = .proposalNotFoundError id ∨ ∃ message, result = .error message) :
      Looked net calls id targetStatus pollIntervalMs timeoutMs deadline now look
        (.finished ⟨look.height, now + look.took, .error result⟩)
  | undecoded {p : Governor.Proposal}
      (hstored : (chainAt calls look.height).governor.proposal id = some p)
      (hunknown : ¬ Known p.status) :
      Looked net calls id targetStatus pollIntervalMs timeoutMs deadline now look
        (.finished ⟨look.height, now + look.took,
          .error (.error (units "Unknown ProposalStatus variant: " ++ statusName p.status))⟩)
  | found {p : Governor.Proposal} {q : Proposal}
      (hstored : (chainAt calls look.height).governor.proposal id = some p)
      (hshows : Shows net.toLibrary p q) (htarget : statusName p.status = targetStatus) :
      Looked net calls id targetStatus pollIntervalMs timeoutMs deadline now look
        (.finished ⟨look.height, now + look.took, .ok q⟩)
  | timedOut {p : Governor.Proposal}
      (hstored : (chainAt calls look.height).governor.proposal id = some p)
      (hother : statusName p.status ≠ targetStatus) (hlate : deadline ≤ now + look.took) :
      Looked net calls id targetStatus pollIntervalMs timeoutMs deadline now look
        (.finished ⟨look.height, now + look.took, .error
          (.proposalStatusTimeoutError id targetStatus (statusName p.status) timeoutMs)⟩)
  | unsettled {p : Governor.Proposal} (hanswered : look.failure = none)
      (hstored : (chainAt calls look.height).governor.proposal id = some p)
      (hknown : Known p.status) (hother : statusName p.status ≠ targetStatus)
      (hearly : now + look.took < deadline) :
      Looked net calls id targetStatus pollIntervalMs timeoutMs deadline now look
        (.again (now + look.took +
          timer (min pollIntervalMs (deadline - (now + look.took))) look.lag))

/-- What is not stored is not found. -/
theorem getProposal_absent (net : Network) {s : Storage} (h : s.proposal id = none) :
    getProposal net s id = .ok none ∨ ∃ message, getProposal net s id = .error message := by
  rw [getProposal, simulateGetProposal, h]
  simp only [Except.bind]
  split
  · exact .inl rfl
  · exact .inr ⟨_, rfl⟩

/-- A round of a wait comes to one of the things told. -/
theorem waitRound_looked (net : Network) (calls : List Invocation) (id : ℕ)
    (targetStatus : JsString) (pollIntervalMs timeoutMs deadline now : ℕ) (look : Look) :
    Looked net calls id targetStatus pollIntervalMs timeoutMs deadline now look
      (waitRound net calls id targetStatus pollIntervalMs timeoutMs deadline now look) := by
  cases hfailure : look.failure with
  | some error =>
    simp only [waitRound, Look.proposal, hfailure]
    by_cases hcode : parseGovernanceError error.message = some 3
    · simp only [if_pos hcode]
      exact .unanswered hfailure (.inr rfl)
    · simp only [if_neg hcode]
      exact .unanswered hfailure (.inl rfl)
  | none =>
    simp only [waitRound, Look.proposal, hfailure]
    cases hstored : (chainAt calls look.height).governor.proposal id with
    | none =>
      rcases getProposal_absent net hstored with hget | ⟨message, hget⟩
      · simp only [hget, Except.mapError]
        exact .absent hstored (.inl rfl)
      · simp only [hget, Except.mapError]
        exact .absent hstored (.inr ⟨message, rfl⟩)
    | some p =>
      by_cases hknown : Known p.status
      · obtain ⟨q, hget, hshows⟩ := getProposal_known net hstored hknown
        simp only [hget, Except.mapError, hshows.status]
        by_cases htarget : statusName p.status = targetStatus
        · rw [if_pos htarget]
          exact .found hstored hshows htarget
        · rw [if_neg htarget]
          by_cases hlate : deadline ≤ now + look.took
          · rw [if_pos hlate]
            exact .timedOut hstored htarget hlate
          · rw [if_neg hlate]
            exact .unsettled hfailure hstored hknown htarget (not_le.mp hlate)
      · simp only [getProposal_unknown hstored hknown, Except.mapError]
        exact .undecoded hstored hknown

/-- The poll is answered, with another status that the client knows. -/
def ShowsOther (calls : List Invocation) (id : ℕ) (targetStatus : JsString) (look : Look) : Prop :=
  look.failure = none ∧ ∃ p, (chainAt calls look.height).governor.proposal id = some p ∧
    Known p.status ∧ statusName p.status ≠ targetStatus

/-- A poll after which a wait goes on. -/
theorem waitRound_again {next : ℕ}
    (h : waitRound net calls id targetStatus pollIntervalMs timeoutMs deadline now look =
      .again next) :
    ShowsOther calls id targetStatus look ∧ now + look.took < deadline ∧
      next = now + look.took +
        timer (min pollIntervalMs (deadline - (now + look.took))) look.lag := by
  have hlooked := waitRound_looked net calls id targetStatus pollIntervalMs timeoutMs deadline now
    look
  rw [h] at hlooked
  cases hlooked with
  | @unsettled p hanswered hstored hknown hother hearly =>
    exact ⟨⟨hanswered, p, hstored, hknown, hother⟩, hearly, rfl⟩

/-- The time goes on from poll to poll until the deadline. -/
theorem waitRound_advances {next : ℕ}
    (h : waitRound net calls id targetStatus pollIntervalMs timeoutMs deadline now look =
      .again next) : deadline - next < deadline - now := by
  obtain ⟨-, hearly, rfl⟩ := waitRound_again h
  have hpause := timer_pos (min pollIntervalMs (deadline - (now + look.took))) look.lag
  omega

/-- A wait that has more polls than milliseconds ends. -/
theorem exists_wait (config : QuorumClientConfig) (net : Network) (calls : List Invocation) (id : ℕ)
    (targetStatus : JsString) {options : Option TransactionConfirmationOptions} {looks : List Look}
    (now : ℕ) (hlooks : waitTimeout options < looks.length) :
    ∃ r, waitForProposalStatus config net calls id targetStatus options looks now =
      .finished r := by
  have hleft : now + waitTimeout options - now < looks.length := by
    rwa [Nat.add_sub_cancel_left]
  exact Turn.loop_finished (fun time => now + waitTimeout options - time)
    (fun _ _ _ hnext => waitRound_advances hnext) hleft

/-! ## Every wait -/

/-- The chain at a height is a run, and goes on from there to every later height. -/
theorem chainAt_later {height later : ℕ} (hcalls : machine.Scheduled 0 now calls)
    (hle : height ≤ later) :
    ∃ mid last more, machine.Scheduled 0 mid (calls.take height) ∧
      machine.Scheduled mid last more ∧
      chainAt calls later = machine.run (chainAt calls height) more := by
  have htotal : calls = calls.take later ++ calls.drop later :=
    (List.take_append_drop later calls).symm
  have hparts : calls.take later = calls.take height ++ (calls.take later).drop height := by
    conv_lhs => rw [← List.take_append_drop height (calls.take later), List.take_take,
      Nat.min_eq_left hle]
  rw [htotal, hparts] at hcalls
  obtain ⟨last, hlater, -⟩ := hcalls.split
  obtain ⟨mid, hfirst, hrest⟩ := hlater.split
  refine ⟨mid, last, (calls.take later).drop height, hfirst, hrest, ?_⟩
  rw [chainAt, chainAt, ← Clocked.run_append, ← hparts]

/-- A wait for the execution of a proposal, with polls from its opening to the end of the run. The
first node is behind, the second one has seen the execution. -/
def executionLooks : List Look := [⟨3, none, 0, 0⟩, ⟨7, none, 0, 0⟩, ⟨9, none, 0, 0⟩]

/-- A poll with which a wait ends. -/
theorem waitRound_finished {r : Wait}
    (h : waitRound net calls id targetStatus pollIntervalMs timeoutMs deadline now look =
      .finished r) :
    r.height = look.height ∧ r.ended = now + look.took ∧
      (ShowsOther calls id targetStatus look → deadline ≤ r.ended) ∧
      ∀ id' target last ms, r.result = .error (.proposalStatusTimeoutError id' target last ms) →
        deadline ≤ r.ended := by
  have hlooked := waitRound_looked net calls id targetStatus pollIntervalMs timeoutMs deadline now
    look
  rw [h] at hlooked
  cases hlooked with
  | timedOut hstored hother hlate => exact ⟨rfl, rfl, fun _ => hlate, fun _ _ _ _ _ => hlate⟩
  | unanswered hfailure hresult =>
    refine ⟨rfl, rfl, fun ⟨hanswered, _⟩ => ?_, fun _ _ _ _ h => ?_⟩
    · rw [hfailure] at hanswered
      contradiction
    · rcases hresult with rfl | rfl <;> exact absurd (Except.error.inj h) (by simp)
  | absent habsent hresult =>
    refine ⟨rfl, rfl, fun ⟨_, p, hstored, _⟩ => ?_, fun _ _ _ _ h => ?_⟩
    · rw [habsent] at hstored
      contradiction
    · rcases hresult with rfl | ⟨message, rfl⟩ <;> exact absurd (Except.error.inj h) (by simp)
  | undecoded hstored hunknown =>
    refine ⟨rfl, rfl, fun ⟨_, p, hstored', hknown, _⟩ => ?_,
      fun _ _ _ _ h => absurd (Except.error.inj h) (by simp)⟩
    obtain rfl := Option.some.inj (hstored'.symm.trans hstored)
    contradiction
  | found hstored hshows htarget =>
    refine ⟨rfl, rfl, fun ⟨_, p, hstored', _, hother⟩ => ?_, fun _ _ _ _ h => by contradiction⟩
    obtain rfl := Option.some.inj (hstored'.symm.trans hstored)
    contradiction

/-- A wait ends, with the first poll that does not show another status or that is answered after
the deadline; it ends one poll after the deadline at the latest, and does not time out before. -/
theorem waitForProposalStatus_settles (config : QuorumClientConfig) (net : Network)
    (calls : List Invocation) (id : ℕ) (targetStatus : JsString)
    (options : Option TransactionConfirmationOptions) (looks : List Look) (now : ℕ)
    (hlooks : waitTimeout options < looks.length) :
    ∃ r before look after,
      waitForProposalStatus config net calls id targetStatus options looks now = .finished r ∧
      looks = before ++ look :: after ∧ r.height = look.height ∧
      (∀ earlier ∈ before, ShowsOther calls id targetStatus earlier) ∧
      (ShowsOther calls id targetStatus look → now + waitTimeout options ≤ r.ended) ∧
      (∀ id' target last ms,
        r.result = .error (.proposalStatusTimeoutError id' target last ms) →
        now + waitTimeout options ≤ r.ended) ∧
      ∀ took late, (∀ look ∈ looks, look.took ≤ took ∧ look.lag ≤ late) →
        r.ended ≤ now + waitTimeout options + late + took := by
  obtain ⟨r, hfinished⟩ := exists_wait config net calls id targetStatus now hlooks
  obtain ⟨before, look, after, state, hlooks', hbefore, hlast⟩ :=
    Turn.exists_of_loop_finished hfinished
  obtain ⟨hheight, hended, hother, htimeout⟩ := waitRound_finished hlast
  refine ⟨r, before, look, after, hfinished, hlooks', hheight, ?_, hother, htimeout,
    fun took late hpunctual => ?_⟩
  · exact Turn.forall_of_loop_again (fun _ _ _ hnext => (waitRound_again hnext).1) hbefore
  · have hround : ∀ time look, look ∈ looks → time ≤ now + waitTimeout options + late →
        (waitRound net calls id targetStatus (pollInterval config options) (waitTimeout options)
          (now + waitTimeout options) time look).Meets
          (fun time => time ≤ now + waitTimeout options + late)
          (fun r => r.ended ≤ now + waitTimeout options + late + took) := by
      intro time look hlook htime
      obtain ⟨htook, hlag⟩ := hpunctual look hlook
      cases hturn : waitRound net calls id targetStatus (pollInterval config options)
          (waitTimeout options) (now + waitTimeout options) time look with
      | again next =>
        obtain ⟨-, hearly, rfl⟩ := waitRound_again hturn
        have hpause := timer_le (min (pollInterval config options)
          (now + waitTimeout options - (time + look.took))) hlag
        simp only [Turn.Meets]
        omega
      | finished r =>
        have hended := (waitRound_finished hturn).2.1
        simp only [Turn.Meets]
        omega
    have hlimit := Turn.loop_ends (fun time => time ≤ _) hfinished
      (show now ≤ now + waitTimeout options + late by omega) hround
    exact hlimit

/-- A wait ends with the first look that shows the execution. -/
theorem waitForProposalStatus_settles_executed :
    ∃ r before look after, waitForProposalStatus ⟨none, none, none, none, some 1, none⟩
        plainNetwork passingCalls 1 (units "Executed") (some ⟨none, some 2⟩) executionLooks 0 =
          .finished r ∧
      executionLooks = before ++ look :: after ∧ r.ended ≤ 2 := by
  obtain ⟨r, before, look, after, hfinished, hlooks, -, -, -, -, hended⟩ :=
    waitForProposalStatus_settles ⟨none, none, none, none, some 1, none⟩ plainNetwork passingCalls 1
      (units "Executed") (some ⟨none, some 2⟩) executionLooks 0 (by decide)
  have hpunctual : ∀ look ∈ executionLooks, look.took ≤ 0 ∧ look.lag ≤ 0 := by decide
  exact ⟨r, before, look, after, hfinished, hlooks, hended 0 0 hpunctual⟩

end Quorum.Sdk.Client

import Quorum.Foundation.Rounds
import Quorum.Sdk.Errors
import Quorum.Sdk.Requests

/-!
# Submitting a transaction and waiting for it

`submitAndWait` sends a signed transaction and polls the network until the transaction is final or
the time is up. The transaction is sent once, whatever fails. What the client reports is what the
network has decided, provided that the network answers a poll according to its state at some time
while the poll is under way; and the client gives up only on transactions that were not final
shortly before the deadline.
-/

namespace Quorum.Sdk.Client

open Foundation

/-! ## What the network answers -/

/-- `rpc.Api.SendTransactionStatus`. -/
inductive SendTransactionStatus where
  | pending
  | duplicate
  | tryAgainLater
  | error
deriving DecidableEq

/-- What the network answers to a transaction that is sent. The result is given by its text. -/
structure SendTransactionResponse where
  status : SendTransactionStatus
  hash : JsString
  errorResult : Option JsString
deriving DecidableEq

/-- What the network answers to a poll, with `R` for the response of a successful transaction. -/
inductive GetTransactionResponse (R : Type) where
  | success (response : R)
  | failed (txHash : JsString) (resultXdr : Option JsString)
  | notFound
deriving DecidableEq

/-- The parts of a response that the text of a failure is made of. -/
structure FailureResponse where
  hash : Option JsString
  txHash : Option JsString
  errorResult : Option JsString
  resultXdr : Option JsString

def formatTransactionFailure (response : FailureResponse) : JsString :=
  let name := units "Transaction " ++ (response.hash.or response.txHash).getD []
  match (response.errorResult.or response.resultXdr).filter fun text => text ≠ [] with
  | some detail => name ++ units " failed: " ++ detail
  | none => name ++ units " failed"

/-- What a submission throws. -/
inductive SubmissionError where
  | thrown (error : Thrown)
  | transactionFailedError (transactionHash message : JsString) (contractErrorCode : Option ℕ)
deriving DecidableEq

/-- The error for a transaction that was refused, or that failed. -/
def transactionFailed (transactionHash : JsString) (response : FailureResponse) : SubmissionError :=
  let message := formatTransactionFailure response
  .transactionFailedError transactionHash message (contractErrorCode message)

/-! ## The submission -/

structure TransactionConfirmationOptions where
  pollIntervalMs : Option ℕ
  timeoutMs : Option ℕ

def defaultPollIntervalMs : ℕ := 1000

def defaultConfirmationTimeoutMs : ℕ := 60000

def pollInterval (config : QuorumClientConfig) (options : Option TransactionConfirmationOptions) :
    ℕ :=
  ((options.bind TransactionConfirmationOptions.pollIntervalMs).or config.pollIntervalMs).getD
    defaultPollIntervalMs

def confirmationTimeout (config : QuorumClientConfig)
    (options : Option TransactionConfirmationOptions) : ℕ :=
  ((options.bind TransactionConfirmationOptions.timeoutMs).or config.confirmationTimeoutMs).getD
    defaultConfirmationTimeoutMs

section Submissions

variable {R : Type} {config : QuorumClientConfig}

/-- A request of a submission. -/
inductive Posted (R : Type) where
  | sendTransaction (exchange : Exchange SendTransactionResponse)
  | getTransaction (hash : JsString) (exchange : Exchange (GetTransactionResponse R))
deriving DecidableEq

/-- A submission under way: the requests so far and the time. -/
structure Polling (R : Type) where
  requests : List (Posted R)
  now : ℕ
deriving DecidableEq

/-- A submission that is over: its requests, when it was over, and how it ended. -/
structure Submission (R : Type) where
  requests : List (Posted R)
  ended : ℕ
  result : Except SubmissionError R
deriving DecidableEq

/-- The circumstances of a poll: those of its read, and how late the timer of the delay after it
fires. -/
structure Probe (config : QuorumClientConfig) (R : Type) where
  attempts : ℕ → Attempt config (GetTransactionResponse R)
  lag : ℕ

/-- The body of the polling loop, with its condition. -/
def pollRound (config : QuorumClientConfig) (hash : JsString)
    (pollIntervalMs timeoutMs deadline : ℕ) (s : Polling R) (probe : Probe config R) :
    Turn (Polling R) (Submission R) :=
  if s.now < deadline then
    let r := read config (units "getTransaction") probe.attempts s.now
    let requests := s.requests ++ r.exchanges.map (.getTransaction hash)
    match r.result with
    | .error error => .finished ⟨requests, r.ended, .error (.thrown error)⟩
    | .ok (.success response) => .finished ⟨requests, r.ended, .ok response⟩
    | .ok (.failed txHash resultXdr) =>
      .finished ⟨requests, r.ended,
        .error (transactionFailed txHash ⟨none, txHash, none, resultXdr⟩)⟩
    | .ok .notFound =>
      .again ⟨requests, r.ended + timer (min pollIntervalMs (deadline - r.ended)) probe.lag⟩
  else
    .finished ⟨s.requests, s.now,
      .error (.thrown (.rpcTimeoutError (units "transaction confirmation") timeoutMs))⟩

/-- `submitAndWait`, given what becomes of the transaction that is sent and the circumstances of
the polls. It is still under way if these are too few. -/
def submitAndWait (config : QuorumClientConfig) (options : Option TransactionConfirmationOptions)
    (wire : Wire SendTransactionResponse) (probes : List (Probe config R)) (now : ℕ) :
    Turn (Polling R) (Submission R) :=
  let sent := withTimeout config (units "sendTransaction") wire now
  let requests := [.sendTransaction sent]
  match sent.answer with
  | .error error => .finished ⟨requests, sent.ended, .error (.thrown error)⟩
  | .ok submitted =>
    if submitted.status = .error then
      .finished ⟨requests, sent.ended, .error
        (transactionFailed submitted.hash ⟨submitted.hash, none, submitted.errorResult, none⟩)⟩
    else
      Turn.loop
        (pollRound config submitted.hash (pollInterval config options)
          (confirmationTimeout config options)
          (sent.ended + confirmationTimeout config options))
        ⟨requests, sent.ended⟩ probes

/-! ## One poll -/

/-- What a poll comes to. -/
inductive Polled (config : QuorumClientConfig) (hash : JsString)
    (pollIntervalMs timeoutMs deadline : ℕ) (s : Polling R) (probe : Probe config R) :
    Turn (Polling R) (Submission R) → Prop
  | gaveUp (hlate : deadline ≤ s.now) :
      Polled config hash pollIntervalMs timeoutMs deadline s probe (.finished ⟨s.requests, s.now,
        .error (.thrown (.rpcTimeoutError (units "transaction confirmation") timeoutMs))⟩)
  | threw {r : Reading (GetTransactionResponse R)} {error : Thrown} (hearly : s.now < deadline)
      (hread : read config (units "getTransaction") probe.attempts s.now = r)
      (hresult : r.result = .error error) :
      Polled config hash pollIntervalMs timeoutMs deadline s probe
        (.finished ⟨s.requests ++ r.exchanges.map (.getTransaction hash), r.ended,
          .error (.thrown error)⟩)
  | succeeded {r : Reading (GetTransactionResponse R)} {response : R} (hearly : s.now < deadline)
      (hread : read config (units "getTransaction") probe.attempts s.now = r)
      (hresult : r.result = .ok (.success response)) :
      Polled config hash pollIntervalMs timeoutMs deadline s probe
        (.finished ⟨s.requests ++ r.exchanges.map (.getTransaction hash), r.ended, .ok response⟩)
  | failed {r : Reading (GetTransactionResponse R)} {txHash : JsString}
      {resultXdr : Option JsString} (hearly : s.now < deadline)
      (hread : read config (units "getTransaction") probe.attempts s.now = r)
      (hresult : r.result = .ok (.failed txHash resultXdr)) :
      Polled config hash pollIntervalMs timeoutMs deadline s probe
        (.finished ⟨s.requests ++ r.exchanges.map (.getTransaction hash), r.ended,
          .error (transactionFailed txHash ⟨none, txHash, none, resultXdr⟩)⟩)
  | unsettled {r : Reading (GetTransactionResponse R)} (hearly : s.now < deadline)
      (hread : read config (units "getTransaction") probe.attempts s.now = r)
      (hresult : r.result = .ok .notFound) :
      Polled config hash pollIntervalMs timeoutMs deadline s probe
        (.again ⟨s.requests ++ r.exchanges.map (.getTransaction hash),
          r.ended + timer (min pollIntervalMs (deadline - r.ended)) probe.lag⟩)

variable {hash : JsString} {pollIntervalMs timeoutMs deadline late : ℕ}

/-- A round of polling comes to one of the things told. -/
theorem pollRound_polled (hash : JsString) (pollIntervalMs timeoutMs deadline : ℕ) (s : Polling R)
    (probe : Probe config R) : Polled config hash pollIntervalMs timeoutMs deadline s probe
      (pollRound config hash pollIntervalMs timeoutMs deadline s probe) := by
  rw [pollRound]
  by_cases hearly : s.now < deadline
  · rw [if_pos hearly]
    cases hresult : (read config (units "getTransaction") probe.attempts s.now).result with
    | error error =>
      simp only [hresult]
      exact .threw hearly rfl hresult
    | ok reply =>
      cases reply with
      | success response =>
        simp only [hresult]
        exact .succeeded hearly rfl hresult
      | failed txHash resultXdr =>
        simp only [hresult]
        exact .failed hearly rfl hresult
      | notFound =>
        simp only [hresult]
        exact .unsettled hearly rfl hresult
  · rw [if_neg hearly]
    exact .gaveUp (not_lt.mp hearly)

/-! ## All polls -/

/-- The transaction is sent first, and then come the polls, each of them a read that asks about
the transaction with this hash. -/
structure AsksAbout (config : QuorumClientConfig) (sent : Exchange SendTransactionResponse)
    (hash : JsString) (requests : List (Posted R))
    (polls : List (Reading (GetTransactionResponse R))) : Prop where
  requests : requests = .sendTransaction sent ::
    (polls.flatMap Reading.exchanges).map (.getTransaction hash)
  reads : ∀ poll ∈ polls, ∃ attempts begun,
    poll = read config (units "getTransaction") attempts begun

/-- Before the first poll. -/
theorem AsksAbout.nil (config : QuorumClientConfig) (sent : Exchange SendTransactionResponse)
    (hash : JsString) : AsksAbout (R := R) config sent hash [.sendTransaction sent] [] :=
  ⟨rfl, fun _ h => by contradiction⟩

/-- One more poll. -/
theorem AsksAbout.concat {sent : Exchange SendTransactionResponse} {requests : List (Posted R)}
    {polls : List (Reading (GetTransactionResponse R))} {r : Reading (GetTransactionResponse R)}
    {attempts : ℕ → Attempt config (GetTransactionResponse R)} {begun : ℕ}
    (h : AsksAbout config sent hash requests polls)
    (hread : read config (units "getTransaction") attempts begun = r) :
    AsksAbout config sent hash (requests ++ r.exchanges.map (.getTransaction hash))
      (polls ++ [r]) where
  requests := by
    rw [h.requests, List.flatMap_append, List.flatMap_singleton, List.map_append, List.cons_append]
  reads poll hpoll := by
    rcases List.mem_append.mp hpoll with hearlier | hlast
    · exact h.reads poll hearlier
    · exact ⟨attempts, begun, by rw [List.mem_singleton.mp hlast, hread]⟩

/-- No timer of the poll is late by more than this. -/
def Probe.Punctual (late : ℕ) (probe : Probe config R) : Prop :=
  Client.Punctual late probe.attempts ∧ probe.lag ≤ late

/-- A poll is over one read after the deadline. -/
theorem pollRound_ended {s : Polling R} {probe : Probe config R} (hpunctual : probe.Punctual late)
    (h : s.now ≤ deadline + patience config late + late) :
    (pollRound config hash pollIntervalMs timeoutMs deadline s probe).Meets
      (fun s => s.now ≤ deadline + patience config late + late)
      (fun r => r.ended ≤ deadline + patience config late + late) := by
  have hread := read_ended_le (units "getTransaction") hpunctual.1 s.now
  have hpolled := pollRound_polled hash pollIntervalMs timeoutMs deadline s probe
  generalize pollRound config hash pollIntervalMs timeoutMs deadline s probe = turn at hpolled ⊢
  cases hpolled with
  | gaveUp => exact h
  | threw hearly hr | succeeded hearly hr | failed hearly hr =>
    rw [hr] at hread
    simp only [Turn.Meets]
    omega
  | @unsettled r hearly hr =>
    rw [hr] at hread
    have hpause := timer_le (min pollIntervalMs (deadline - r.ended)) hpunctual.2
    simp only [Turn.Meets]
    omega

/-- The time goes on from poll to poll until the deadline. -/
theorem pollRound_advances {s next : Polling R} {probe : Probe config R}
    (h : pollRound config hash pollIntervalMs timeoutMs deadline s probe = .again next) :
    deadline - next.now < deadline - s.now := by
  have hpolled := pollRound_polled hash pollIntervalMs timeoutMs deadline s probe
  rw [h] at hpolled
  cases hpolled with
  | @unsettled r hearly hr =>
    have hread := le_read_ended (units "getTransaction") probe.attempts s.now
    have hpause := timer_pos (min pollIntervalMs (deadline - r.ended)) probe.lag
    rw [hr] at hread
    simp only
    omega

/-- So many polls have been made: the deadline was ahead of all but the last delay. -/
def Paced (pollIntervalMs start deadline polls now : ℕ) : Prop :=
  polls * pollIntervalMs < deadline - start + pollIntervalMs ∧
    (now < deadline → start + polls * pollIntervalMs ≤ now)

/-- One more poll, and the delay after it. -/
theorem Paced.next {start polls now ended later d : ℕ}
    (hinterval : 1 ≤ pollIntervalMs ∧ pollIntervalMs ≤ maxTimerMs)
    (h : Paced pollIntervalMs start deadline polls now) (hearly : now < deadline)
    (hended : now ≤ ended)
    (hlater : later = ended + timer (min pollIntervalMs (deadline - ended)) d) :
    Paced pollIntervalMs start deadline (polls + 1) later := by
  obtain ⟨hpolls, hahead⟩ := h
  have hnow := hahead hearly
  refine ⟨by rw [Nat.succ_mul]; omega, fun hstill => ?_⟩
  have hpause := timer_pos (min pollIntervalMs (deadline - ended)) d
  have hwait : 1 ≤ min pollIntervalMs (deadline - ended) ∧
      min pollIntervalMs (deadline - ended) ≤ maxTimerMs := by omega
  have hwaited := le_timer hwait d
  rw [Nat.succ_mul]
  omega

/-- A poll adds one read about the transaction, and as many polls as there is time for have been
made. -/
theorem pollRound_asksAbout {sent : Exchange SendTransactionResponse} {start : ℕ} {s : Polling R}
    (probe : Probe config R)
    (h : ∃ polls, AsksAbout config sent hash s.requests polls ∧
      (1 ≤ pollIntervalMs ∧ pollIntervalMs ≤ maxTimerMs →
        Paced pollIntervalMs start deadline polls.length s.now)) :
    (pollRound config hash pollIntervalMs timeoutMs deadline s probe).Meets
      (fun s => ∃ polls, AsksAbout config sent hash s.requests polls ∧
        (1 ≤ pollIntervalMs ∧ pollIntervalMs ≤ maxTimerMs →
          Paced pollIntervalMs start deadline polls.length s.now))
      (fun r => ∃ polls, AsksAbout config sent hash r.requests polls ∧
        (1 ≤ pollIntervalMs ∧ pollIntervalMs ≤ maxTimerMs →
          polls.length * pollIntervalMs < deadline - start + pollIntervalMs)) := by
  obtain ⟨polls, hasks, hpaced⟩ := h
  have hread := le_read_ended (units "getTransaction") probe.attempts s.now
  have hpolled := pollRound_polled hash pollIntervalMs timeoutMs deadline s probe
  generalize pollRound config hash pollIntervalMs timeoutMs deadline s probe = turn at hpolled ⊢
  cases hpolled with
  | gaveUp => exact ⟨polls, hasks, fun hinterval => (hpaced hinterval).1⟩
  | @threw r _ hearly hr | @succeeded r _ hearly hr | @failed r _ _ hearly hr =>
    rw [hr] at hread
    refine ⟨polls ++ [r], hasks.concat hr, fun hinterval => ?_⟩
    have hnext := (hpaced hinterval).next (d := 0) hinterval hearly hread rfl
    rw [List.length_append, List.length_singleton]
    exact hnext.1
  | @unsettled r hearly hr =>
    rw [hr] at hread
    refine ⟨polls ++ [r], hasks.concat hr, fun hinterval => ?_⟩
    rw [List.length_append, List.length_singleton]
    exact (hpaced hinterval).next hinterval hearly hread rfl

/-- What a submission reports of a transaction, the network has answered. -/
structure Reports (hash : JsString) (r : Submission R) : Prop where
  success : ∀ response, r.result = .ok response →
    ∃ e, Posted.getTransaction hash e ∈ r.requests ∧ e.answer = .ok (.success response) ∧
      e.ended ≤ r.ended
  failure : ∀ transactionHash message code,
    r.result = .error (.transactionFailedError transactionHash message code) →
    ∃ e resultXdr, Posted.getTransaction hash e ∈ r.requests ∧
      e.answer = .ok (.failed transactionHash resultXdr) ∧ e.ended ≤ r.ended ∧
      r.result = .error (transactionFailed transactionHash
        ⟨none, transactionHash, none, resultXdr⟩)

/-- What a read brings is among the requests that the read adds. -/
theorem exists_getTransaction {s : Polling R} {probe : Probe config R}
    {r : Reading (GetTransactionResponse R)} {reply : GetTransactionResponse R} (hash : JsString)
    (hread : read config (units "getTransaction") probe.attempts s.now = r)
    (hresult : r.result = .ok reply) :
    ∃ e, Posted.getTransaction hash e ∈ s.requests ++ r.exchanges.map (.getTransaction hash) ∧
      e.answer = .ok reply ∧ s.now ≤ e.begun ∧ e.ended ≤ r.ended := by
  subst hread
  obtain ⟨e, hmem, hanswer, hbegun, hended⟩ := read_brings hresult
  exact ⟨e, List.mem_append_right _ (List.mem_map_of_mem hmem), hanswer, hbegun, hended.ge⟩

/-- A round that ends the polling reports what the network has answered. -/
theorem pollRound_reports (s : Polling R) (probe : Probe config R) :
    (pollRound config hash pollIntervalMs timeoutMs deadline s probe).Meets (fun _ => True)
      (Reports hash) := by
  have hpolled := pollRound_polled hash pollIntervalMs timeoutMs deadline s probe
  generalize pollRound config hash pollIntervalMs timeoutMs deadline s probe = turn at hpolled ⊢
  cases hpolled with
  | gaveUp | threw =>
    exact ⟨fun _ h => by contradiction, fun _ _ _ h => by cases Except.error.inj h⟩
  | succeeded hearly hread hresult =>
    obtain ⟨e, hmem, hanswer, -, hended⟩ := exists_getTransaction hash hread hresult
    refine ⟨fun response h => ?_, fun _ _ _ h => by contradiction⟩
    obtain rfl := Except.ok.inj h
    exact ⟨e, hmem, hanswer, hended⟩
  | failed hearly hread hresult =>
    obtain ⟨e, hmem, hanswer, -, hended⟩ := exists_getTransaction hash hread hresult
    refine ⟨fun _ h => by contradiction, fun transactionHash message code h => ?_⟩
    obtain ⟨rfl, -, -⟩ := SubmissionError.transactionFailedError.inj (Except.error.inj h)
    exact ⟨e, _, hmem, hanswer, hended, rfl⟩
  | unsettled => trivial

/-- The last poll so far was begun not long ago and found nothing. -/
def Watched (hash : JsString) (start slack now : ℕ) (requests : List (Posted R)) : Prop :=
  now = start ∨ ∃ e, Posted.getTransaction hash e ∈ requests ∧ e.answer = .ok .notFound ∧
    now ≤ e.begun + slack

/-- The time between the beginning of a poll and that of the next one. -/
def slack (config : QuorumClientConfig) (pollIntervalMs late : ℕ) : ℕ :=
  patience config late + max 1 pollIntervalMs + late

/-- A submission gives up after a poll that found nothing. -/
theorem pollRound_watched {start : ℕ} {s : Polling R} {probe : Probe config R}
    (hpunctual : probe.Punctual late)
    (h : Watched hash start (slack config pollIntervalMs late) s.now s.requests) :
    (pollRound config hash pollIntervalMs timeoutMs deadline s probe).Meets
      (fun s => Watched hash start (slack config pollIntervalMs late) s.now s.requests)
      (fun r => ∀ ms,
        r.result = .error (.thrown (.rpcTimeoutError (units "transaction confirmation") ms)) →
        deadline ≤ r.ended ∧
          Watched hash start (slack config pollIntervalMs late) r.ended r.requests) := by
  have hlimit := read_ended_le (units "getTransaction") hpunctual.1 s.now
  have hpolled := pollRound_polled hash pollIntervalMs timeoutMs deadline s probe
  generalize pollRound config hash pollIntervalMs timeoutMs deadline s probe = turn at hpolled ⊢
  cases hpolled with
  | gaveUp hlate => exact fun _ _ => ⟨hlate, h⟩
  | threw hearly hread hresult =>
    intro ms hresult'
    obtain rfl := SubmissionError.thrown.inj (Except.error.inj hresult')
    subst hread
    rcases read_throws hresult with hoperation | ⟨failure, hfailure⟩
    · exact absurd (Thrown.rpcTimeoutError.inj hoperation).1 (by decide)
    · contradiction
  | succeeded | failed => exact fun _ hresult => by cases hresult
  | @unsettled r hearly hread hresult =>
    obtain ⟨e, hmem, hanswer, hbegun, -⟩ := exists_getTransaction hash hread hresult
    have hpause := timer_le (min pollIntervalMs (deadline - r.ended)) hpunctual.2
    rw [hread] at hlimit
    refine .inr ⟨e, hmem, hanswer, ?_⟩
    simp only [slack]
    omega

/-! ## Submissions -/

/-- The exchange in which the transaction is sent. -/
def sending (config : QuorumClientConfig) (wire : Wire SendTransactionResponse) (now : ℕ) :
    Exchange SendTransactionResponse :=
  withTimeout config (units "sendTransaction") wire now

/-- A submission ends with the answer to the transaction that is sent, or it polls. -/
theorem submitAndWait_cases (config : QuorumClientConfig)
    (options : Option TransactionConfirmationOptions) (wire : Wire SendTransactionResponse)
    (probes : List (Probe config R)) (now : ℕ) :
    let sent := sending config wire now
    (∃ error, sent.answer = .error error ∧ submitAndWait config options wire probes now =
      .finished ⟨[.sendTransaction sent], sent.ended, .error (.thrown error)⟩) ∨
    (∃ submitted, sent.answer = .ok submitted ∧ submitted.status = .error ∧
      submitAndWait config options wire probes now = .finished ⟨[.sendTransaction sent], sent.ended,
        .error (transactionFailed submitted.hash
          ⟨submitted.hash, none, submitted.errorResult, none⟩)⟩) ∨
    ∃ submitted, sent.answer = .ok submitted ∧ submitted.status ≠ .error ∧
      submitAndWait config options wire probes now =
        Turn.loop
          (pollRound config submitted.hash (pollInterval config options)
            (confirmationTimeout config options) (sent.ended + confirmationTimeout config options))
          ⟨[.sendTransaction sent], sent.ended⟩ probes := by
  intro sent
  rw [submitAndWait]
  cases hanswer : sent.answer with
  | error error =>
    refine .inl ⟨error, rfl, ?_⟩
    simp only [show (withTimeout config (units "sendTransaction") wire now).answer =
      .error error from hanswer]
    rfl
  | ok submitted =>
    simp only [show (withTimeout config (units "sendTransaction") wire now).answer =
      .ok submitted from hanswer]
    by_cases hstatus : submitted.status = .error
    · exact .inr (.inl ⟨submitted, rfl, hstatus, if_pos hstatus⟩)
    · exact .inr (.inr ⟨submitted, rfl, hstatus, if_neg hstatus⟩)

/-- The fate of a transaction on the network: when it is final, if ever, and as what. -/
structure Fate (R : Type) where
  finalAt : Option ℕ
  response : GetTransactionResponse R
  final : response ≠ .notFound

/-- What the network knows of the transaction at a time. -/
def Fate.status (fate : Fate R) (t : ℕ) : GetTransactionResponse R :=
  if fate.finalAt.any (fun final => decide (final ≤ t)) = true then fate.response else .notFound

/-- The network answers each poll for this hash according to what it knows of the transaction at
some time while the poll is under way. -/
def Honest (hash : JsString) (fate : Fate R) (requests : List (Posted R)) : Prop :=
  ∀ e, Posted.getTransaction hash e ∈ requests → ∀ reply, e.answer = .ok reply →
    ∃ t, e.begun ≤ t ∧ t ≤ e.ended ∧ reply = fate.status t

/-- An answer other than that nothing is known is the response, and comes once it is final. -/
theorem Fate.of_status {fate : Fate R} {t : ℕ} {reply : GetTransactionResponse R}
    (h : reply = fate.status t) (hreply : reply ≠ .notFound) :
    fate.response = reply ∧ ∃ final ∈ fate.finalAt, final ≤ t := by
  rw [Fate.status] at h
  split at h
  · rename_i hany
    refine ⟨h.symm, ?_⟩
    cases hfinal : fate.finalAt with
    | none =>
      rw [hfinal] at hany
      contradiction
    | some final =>
      rw [hfinal, Option.any_some, decide_eq_true_eq] at hany
      exact ⟨final, rfl, hany⟩
  · contradiction

/-- While nothing is known of a transaction it is not final. -/
theorem Fate.status_eq_notFound {fate : Fate R} {t final : ℕ} (h : fate.status t = .notFound)
    (hfinal : final ∈ fate.finalAt) : t < final := by
  by_contra hle
  have hany : fate.finalAt.any (fun final => decide (final ≤ t)) = true := by
    rw [Option.mem_def.mp hfinal]
    exact decide_eq_true (not_lt.mp hle)
  rw [Fate.status, if_pos hany] at h
  exact fate.final h

/-- What a submission reports is true of the transaction: success only if it is final and has
succeeded; failure only if the network refused it or it is final and has failed, with its text and
code; and a submission that gives up has not missed a transaction that was final one poll before
the deadline. -/
structure Truthful (options : Option TransactionConfirmationOptions)
    (sent : Exchange SendTransactionResponse) (probes : List (Probe config R)) (fate : Fate R)
    (r : Submission R) : Prop where
  success : ∀ response, r.result = .ok response →
    fate.response = .success response ∧ ∃ final ∈ fate.finalAt, final ≤ r.ended
  failure : ∀ hash message code,
    r.result = .error (.transactionFailedError hash message code) →
    (∃ submitted, r.requests = [.sendTransaction sent] ∧ sent.answer = .ok submitted ∧
      submitted.status = .error ∧ r.result = .error (transactionFailed submitted.hash
        ⟨submitted.hash, none, submitted.errorResult, none⟩)) ∨
    ∃ resultXdr, fate.response = .failed hash resultXdr ∧
      (∃ final ∈ fate.finalAt, final ≤ r.ended) ∧
      r.result = .error (transactionFailed hash ⟨none, hash, none, resultXdr⟩)
  gaveUp : ∀ late ms, (∀ probe ∈ probes, probe.Punctual late) →
    0 < confirmationTimeout config options →
    r.result = .error (.thrown (.rpcTimeoutError (units "transaction confirmation") ms)) →
    ∀ final ∈ fate.finalAt, sent.ended + confirmationTimeout config options <
      final + slack config (pollInterval config options) late

/-- A request that is not sent well. -/
theorem Truthful.of_thrown {options : Option TransactionConfirmationOptions}
    {sent : Exchange SendTransactionResponse} {probes : List (Probe config R)} {fate : Fate R}
    {r : Submission R} {error : Thrown} (hresult : r.result = .error (.thrown error))
    (herror : ∀ ms, error ≠ .rpcTimeoutError (units "transaction confirmation") ms) :
    Truthful options sent probes fate r where
  success response h := by
    rw [hresult] at h
    contradiction
  failure hash message code h := by
    rw [hresult] at h
    exact absurd (Except.error.inj h) (by simp)
  gaveUp late ms _ _ h := by
    rw [hresult] at h
    exact absurd (SubmissionError.thrown.inj (Except.error.inj h)) (herror ms)

/-- A poll that is over reports the fate. -/
theorem Reports.fate {fate : Fate R} {requests : List (Posted R)}
    (hhonest : Honest hash fate requests) {e : Exchange (GetTransactionResponse R)}
    {reply : GetTransactionResponse R} (hmem : Posted.getTransaction hash e ∈ requests)
    (hanswer : e.answer = .ok reply) (hreply : reply ≠ .notFound) :
    fate.response = reply ∧ ∃ final ∈ fate.finalAt, final ≤ e.ended := by
  obtain ⟨t, -, hle, hstatus⟩ := hhonest e hmem reply hanswer
  obtain ⟨hresponse, final, hfinal, hfinal'⟩ := Fate.of_status hstatus hreply
  exact ⟨hresponse, final, hfinal, hfinal'.trans hle⟩

/-- If the network is honest about the transaction that was sent, under the hash that it answered
with, what the submission reports is true. -/
theorem submitAndWait_truthful {options : Option TransactionConfirmationOptions}
    {wire : Wire SendTransactionResponse} {probes : List (Probe config R)} {now : ℕ}
    {r : Submission R} {fate : Fate R}
    (hfinished : submitAndWait config options wire probes now = .finished r)
    (hhonest : ∀ submitted, (sending config wire now).answer = .ok submitted →
      Honest submitted.hash fate r.requests) :
    Truthful options (sending config wire now) probes fate r := by
  obtain ⟨error, hanswer, hsubmit⟩ | ⟨submitted, hanswer, hstatus, hsubmit⟩ |
    ⟨submitted, hanswer, hstatus, hsubmit⟩ := submitAndWait_cases config options wire probes now
  · obtain rfl := Turn.finished.inj (hsubmit.symm.trans hfinished)
    refine .of_thrown rfl fun ms herror => ?_
    subst herror
    rcases withTimeout_throws hanswer with hoperation | ⟨failure, hfailure⟩
    · exact absurd (Thrown.rpcTimeoutError.inj hoperation).1 (by decide)
    · contradiction
  · obtain rfl := Turn.finished.inj (hsubmit.symm.trans hfinished)
    exact ⟨fun _ h => by contradiction,
      fun _ _ _ _ => .inl ⟨submitted, rfl, hanswer, hstatus, rfl⟩,
      fun _ _ _ _ h => absurd (Except.error.inj h) (by simp [transactionFailed])⟩
  · rw [hsubmit] at hfinished
    have hhonest := hhonest submitted hanswer
    have hreports := Turn.loop_ends (fun _ => True) hfinished trivial fun s probe _ _ =>
      pollRound_reports s probe
    refine ⟨fun response h => ?_, fun hash message code h => ?_, fun late ms hpunctual hpos h => ?_⟩
    · obtain ⟨e, hmem, hreply, hended⟩ := hreports.success response h
      obtain ⟨hresponse, final, hfinal, hle⟩ := Reports.fate hhonest hmem hreply (by simp)
      exact ⟨hresponse, final, hfinal, hle.trans hended⟩
    · obtain ⟨e, resultXdr, hmem, hreply, hended, hresult⟩ := hreports.failure hash message code h
      obtain ⟨hresponse, final, hfinal, hle⟩ := Reports.fate hhonest hmem hreply (by simp)
      exact .inr ⟨resultXdr, hresponse, ⟨final, hfinal, hle.trans hended⟩, hresult⟩
    · intro final hfinal
      obtain ⟨hlate, hstart | ⟨e, hmem, hreply, hsoon⟩⟩ := Turn.loop_ends _ hfinished (.inl rfl)
        (fun s probe hprobe hwatched => pollRound_watched (hpunctual probe hprobe) hwatched) ms h
      · simp only at hstart
        omega
      · obtain ⟨t, hbegun, -, hfound⟩ := hhonest e hmem _ hreply
        have hopen := Fate.status_eq_notFound hfound.symm hfinal
        omega

/-- The first poll finds nothing. The second one fails, is made again and finds the transaction. -/
theorem submitAndWait_truthful_retried :
    let config : QuorumClientConfig := ⟨none, none, none, none, none, none⟩
    let attempt (answer : Except RpcFailure (GetTransactionResponse ℕ)) :
      Attempt config (GetTransactionResponse ℕ) := ⟨⟨some (10, answer), 0⟩, 0, 0⟩
    let wire : Wire SendTransactionResponse := ⟨some (40, .ok ⟨.pending, [65], none⟩), 0⟩
    let unavailable : RpcFailure := ⟨none, some 503, none, []⟩
    let probes : List (Probe config ℕ) := [⟨fun _ => attempt (.ok .notFound), 0⟩,
      ⟨fun k => attempt (if k = 0 then .error unavailable else .ok (.success 7)), 0⟩]
    let fate : Fate ℕ := ⟨some 600, .success 7, by simp⟩
    ∃ r, submitAndWait config none wire probes 0 = .finished r ∧ r.result = .ok 7 ∧
      Truthful none (sending config wire 0) probes fate r := by
  intro config attempt wire unavailable probes fate
  let sent : Exchange SendTransactionResponse := ⟨0, 40, .ok ⟨.pending, [65], none⟩⟩
  let exchanges : List (Exchange (GetTransactionResponse ℕ)) :=
    [⟨40, 50, .ok .notFound⟩, ⟨1050, 1060, .error (.rejected unavailable)⟩,
      ⟨1160, 1170, .ok (.success 7)⟩]
  have hfinished : submitAndWait config none wire probes 0 =
      .finished ⟨.sendTransaction sent :: exchanges.map (.getTransaction [65]), 1170, .ok 7⟩ := by
    decide +kernel
  refine ⟨_, hfinished, rfl, submitAndWait_truthful hfinished ?_⟩
  intro submitted hsubmitted e hmem reply hanswer
  obtain rfl : (⟨.pending, [65], none⟩ : SendTransactionResponse) = submitted :=
    Except.ok.inj hsubmitted
  simp only [exchanges, List.map_cons, List.map_nil, List.mem_cons, Posted.getTransaction.injEq,
    List.not_mem_nil, or_false, reduceCtorEq, false_or, true_and] at hmem
  rcases hmem with rfl | rfl | rfl
  · exact ⟨40, by decide, by decide, (Except.ok.inj hanswer).symm⟩
  · contradiction
  · exact ⟨1160, by decide, by decide, (Except.ok.inj hanswer).symm⟩

/-- A submission has ended after its timeout, one request and one read, if no timer is late. It
sends the transaction once. What follows are polls, each of them one read that asks about the
transaction under the hash that the network has answered with; there are none if the network has
refused the transaction or has not answered, and no more of them than the interval allows. -/
theorem submitAndWait_settles (config : QuorumClientConfig)
    (options : Option TransactionConfirmationOptions) (wire : Wire SendTransactionResponse)
    (probes : List (Probe config R)) (now : ℕ)
    (hprobes : confirmationTimeout config options < probes.length) :
    ∃ r, submitAndWait config options wire probes now = .finished r ∧
      (∃ polls,
        (∀ submitted, (sending config wire now).answer = .ok submitted →
          AsksAbout config (sending config wire now) submitted.hash r.requests polls) ∧
        ((∀ submitted, (sending config wire now).answer = .ok submitted →
          submitted.status = .error) → r.requests = [.sendTransaction (sending config wire now)]) ∧
        (1 ≤ pollInterval config options ∧ pollInterval config options ≤ maxTimerMs →
          polls.length * pollInterval config options <
            confirmationTimeout config options + pollInterval config options)) ∧
      ∀ late, wire.timerLag ≤ late → (∀ probe ∈ probes, probe.Punctual late) →
        r.ended ≤ now + (max 1 config.requestTimeout + late) + confirmationTimeout config options +
          patience config late + late := by
  have hsent : ∀ late, wire.timerLag ≤ late →
      (sending config wire now).ended ≤ now + (max 1 config.requestTimeout + late) :=
    fun late hlate => (withTimeout_ended config _ wire now).2.trans
      (Nat.add_le_add_left (timer_le _ hlate) now)
  obtain ⟨error, hanswer, hsubmit⟩ | ⟨submitted, hanswer, hstatus, hsubmit⟩ |
    ⟨submitted, hanswer, hstatus, hsubmit⟩ := submitAndWait_cases config options wire probes now
  · refine ⟨_, hsubmit, ⟨[], fun submitted _ => .nil _ _ _, fun _ => rfl, fun _ => ?_⟩,
      fun late hlate _ => (hsent late hlate).trans (by omega)⟩
    rw [List.length_nil]
    omega
  · refine ⟨_, hsubmit, ⟨[], fun submitted _ => .nil _ _ _, fun _ => rfl, fun _ => ?_⟩,
      fun late hlate _ => (hsent late hlate).trans (by omega)⟩
    rw [List.length_nil]
    omega
  · have hleft : (sending config wire now).ended + confirmationTimeout config options -
        (sending config wire now).ended < probes.length := by rwa [Nat.add_sub_cancel_left]
    obtain ⟨r, hfinished⟩ := Turn.loop_finished
      (s := (⟨_, (sending config wire now).ended⟩ : Polling R))
      (fun s => (sending config wire now).ended + confirmationTimeout config options - s.now)
      (fun s probe next hnext => pollRound_advances hnext) hleft
    refine ⟨r, hsubmit.trans hfinished, ?_, fun late hlate hpunctual => ?_⟩
    · obtain ⟨polls, hasks, hpolls⟩ := Turn.loop_ends
        (fun s : Polling R => ∃ polls,
          AsksAbout config (sending config wire now) submitted.hash s.requests polls ∧
            (1 ≤ pollInterval config options ∧ pollInterval config options ≤ maxTimerMs →
              Paced (pollInterval config options) (sending config wire now).ended
                ((sending config wire now).ended + confirmationTimeout config options)
                polls.length s.now))
        hfinished ⟨[], .nil _ _ _, fun hinterval => ⟨by simp only [List.length_nil]; omega, by simp⟩⟩
        fun s probe _ h => pollRound_asksAbout probe h
      refine ⟨polls, fun submitted' hanswer' => ?_, fun hrefused => ?_, fun hinterval => ?_⟩
      · obtain rfl := Except.ok.inj (hanswer.symm.trans hanswer')
        exact hasks
      · exact absurd (hrefused submitted hanswer) hstatus
      · rw [← Nat.add_sub_cancel_left (n := (sending config wire now).ended)
          (m := confirmationTimeout config options)]
        exact hpolls hinterval
    · have hfirst : (sending config wire now).ended ≤ (sending config wire now).ended +
          confirmationTimeout config options + patience config late + late := by omega
      have hended := Turn.loop_ends (fun s : Polling R => s.now ≤ _) hfinished hfirst
        fun s probe hprobe h => pollRound_ended (hpunctual probe hprobe) h
      have hstart := hsent late hlate
      omega

/-- The network accepts the transaction and answers no poll. There is one poll at most. -/
theorem submitAndWait_settles_silent :
    let config : QuorumClientConfig := ⟨some 5, some 1, none, none, none, none⟩
    let wire : Wire SendTransactionResponse := ⟨some (1, .ok ⟨.pending, [65], none⟩), 0⟩
    let probes : List (Probe config ℕ) := List.replicate 3 ⟨fun _ => ⟨⟨none, 0⟩, 0, 0⟩, 0⟩
    ∃ r polls, submitAndWait config (some ⟨none, some 2⟩) wire probes 0 = .finished r ∧
      AsksAbout config (sending config wire 0) [65] r.requests polls ∧ polls.length ≤ 1 ∧
      r.ended ≤ 172 := by
  intro config wire probes
  obtain ⟨r, hfinished, ⟨polls, hasks, -, hpolls⟩, hended⟩ :=
    submitAndWait_settles config (some ⟨none, some 2⟩) wire probes 0 (by decide)
  have hpunctual : ∀ probe ∈ probes, probe.Punctual 0 := by
    intro probe hprobe
    obtain rfl := List.eq_of_mem_replicate hprobe
    exact ⟨fun _ => ⟨le_rfl, le_rfl⟩, le_rfl⟩
  have hfew : polls.length * 1000 < 2 + 1000 := hpolls (by decide)
  exact ⟨r, polls, hfinished, hasks _ rfl, by omega,
    (hended 0 le_rfl hpunctual).trans (by decide)⟩

end Submissions

end Quorum.Sdk.Client

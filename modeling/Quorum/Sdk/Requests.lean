import Mathlib.Algebra.BigOperators.Group.Finset.Basic
import Mathlib.Algebra.Order.BigOperators.Group.Finset
import Quorum.Foundation.CodeUnits

/-!
# Requests, timeouts and retries

Every request of the client races a timer. A read is made again after a failure that may pass, but
never after a timeout, at most as often as the configuration says, and later each time.
-/

namespace Quorum.Sdk.Client

open Foundation

/-! ## The configuration -/

/-- The options of the client that its requests depend on. -/
structure QuorumClientConfig where
  requestTimeoutMs : Option ℕ
  readRetryAttempts : Option ℕ
  retryBaseDelayMs : Option ℕ
  retryJitterMs : Option ℕ
  pollIntervalMs : Option ℕ
  confirmationTimeoutMs : Option ℕ

def defaultRequestTimeoutMs : ℕ := 15000

def defaultReadRetryAttempts : ℕ := 2

def defaultRetryBaseDelayMs : ℕ := 100

def defaultRetryJitterMs : ℕ := 50

namespace QuorumClientConfig

variable (config : QuorumClientConfig)

def requestTimeout : ℕ := config.requestTimeoutMs.getD defaultRequestTimeoutMs

def retries : ℕ := config.readRetryAttempts.getD defaultReadRetryAttempts

def base : ℕ := config.retryBaseDelayMs.getD defaultRetryBaseDelayMs

def jitter : ℕ := config.retryJitterMs.getD defaultRetryJitterMs

end QuorumClientConfig

/-! ## Failures -/

/-- An error object that a request is rejected with, by what the client looks at: the `status` of
its `response`, its own `status`, its `code` and its `message`. -/
structure RpcFailure where
  responseStatus : Option ℕ
  status : Option ℕ
  code : Option JsString
  message : JsString
deriving DecidableEq

/-- What a request throws: the client's own timeout error, or what it was rejected with. -/
inductive Thrown where
  | rpcTimeoutError (operation : JsString) (timeoutMs : ℕ)
  | rejected (failure : RpcFailure)
deriving DecidableEq

namespace Thrown

def message : Thrown → JsString
  | rpcTimeoutError operation timeoutMs =>
    operation ++ units " timed out after " ++ decimalUnits timeoutMs ++ units "ms"
  | rejected failure => failure.message

def code : Thrown → Option JsString
  | rpcTimeoutError _ _ => none
  | rejected failure => failure.code

/-- `candidate.response?.status ?? candidate.status`. -/
def status : Thrown → Option ℕ
  | rpcTimeoutError _ _ => none
  | rejected failure => failure.responseStatus.or failure.status

/-- `error instanceof RpcTimeoutError`. -/
def isRpcTimeoutError : Thrown → Bool
  | rpcTimeoutError _ _ => true
  | rejected _ => false

end Thrown

/-- The unit in upper case, if it is an ASCII letter. No other unit equals an ASCII letter where
case is ignored. -/
def upperUnit (c : UInt16) : UInt16 := if 97 ≤ c ∧ c ≤ 122 then c - 32 else c

/-- The pattern is found somewhere in the text, whatever the case. -/
def foundIn (text : JsString) (pattern : String) : Bool :=
  decide ((units pattern).map upperUnit <:+: text.map upperUnit)

/-- Texts of failures that may pass. -/
def transientTexts : List String :=
  ["timeout", "temporar", "network", "fetch failed", "rate limit", "try again"]

def isTransientRpcError (error : Thrown) : Bool :=
  error.status.any (fun status => status = 408 || status = 429 || decide (500 ≤ status)) ||
    error.code = some (units "ECONNRESET") || error.code = some (units "ETIMEDOUT") ||
    transientTexts.any (foundIn error.message)

def isTimeoutError (error : Thrown) : Bool :=
  error.code = some (units "ECONNABORTED") || error.code = some (units "ETIMEDOUT") ||
    foundIn error.message "timeout"

/-! ## Timers -/

/-- The longest delay of a timer. -/
def maxTimerMs : ℕ := 2147483647

/-- How long it takes until a timer fires that is set to `ms` and late by `lag`. A delay out of
range counts as one millisecond. -/
def timer (ms lag : ℕ) : ℕ := (if 1 ≤ ms ∧ ms ≤ maxTimerMs then ms else 1) + lag

/-- Every timer takes time. -/
theorem timer_pos (ms lag : ℕ) : 0 < timer ms lag := by
  rw [timer]
  split <;> omega

/-- A timer takes its time and at most the lateness more. -/
theorem timer_le (ms : ℕ) {lag late : ℕ} (h : lag ≤ late) : timer ms lag ≤ max 1 ms + late := by
  rw [timer]
  split <;> omega

/-- A timer within the range of timers takes at least its time. -/
theorem le_timer {ms : ℕ} (h : 1 ≤ ms ∧ ms ≤ maxTimerMs) (lag : ℕ) : ms ≤ timer ms lag := by
  rw [timer, if_pos h]
  exact Nat.le_add_right ms lag

/-! ## One request -/

/-- What becomes of a request: after how long it settles, if ever, and how; and how late the timer
fires that it races. -/
structure Wire (A : Type) where
  settles : Option (ℕ × Except RpcFailure A)
  timerLag : ℕ

/-- A request that was made: when, until when, and what came of it. -/
structure Exchange (A : Type) where
  begun : ℕ
  ended : ℕ
  answer : Except Thrown A
deriving DecidableEq

section Reads

variable {A : Type} {config : QuorumClientConfig} {operation : JsString} {now : ℕ}

/-- The race between a request and its timer. -/
def withTimeout (config : QuorumClientConfig) (operation : JsString) (wire : Wire A) (now : ℕ) :
    Exchange A :=
  let fires := timer config.requestTimeout wire.timerLag
  match wire.settles with
  | some (after, answer) =>
    if after < fires then ⟨now, now + after, answer.mapError .rejected⟩
    else ⟨now, now + fires, .error (.rpcTimeoutError operation config.requestTimeout)⟩
  | none => ⟨now, now + fires, .error (.rpcTimeoutError operation config.requestTimeout)⟩

/-- A request begins when it is made. -/
@[simp] theorem withTimeout_begun (config : QuorumClientConfig) (operation : JsString)
    (wire : Wire A) (now : ℕ) : (withTimeout config operation wire now).begun = now := by
  simp only [withTimeout]
  split
  · split <;> rfl
  · rfl

/-- A request ends when its timer fires, if not before. -/
theorem withTimeout_ended (config : QuorumClientConfig) (operation : JsString) (wire : Wire A)
    (now : ℕ) : now ≤ (withTimeout config operation wire now).ended ∧
      (withTimeout config operation wire now).ended ≤
        now + timer config.requestTimeout wire.timerLag := by
  simp only [withTimeout]
  split
  · split
    · simp only
      omega
    · simp
  · simp

/-- What is thrown is the timeout, or what the request was rejected with. -/
theorem withTimeout_throws {wire : Wire A} {error : Thrown}
    (h : (withTimeout config operation wire now).answer = .error error) :
    error = .rpcTimeoutError operation config.requestTimeout ∨
      ∃ failure, error = .rejected failure := by
  simp only [withTimeout] at h
  split at h
  · rename_i after answer _
    split at h
    · cases answer with
      | ok value => contradiction
      | error failure => exact .inr ⟨failure, (Except.error.inj h).symm⟩
    · exact .inl (Except.error.inj h).symm
  · exact .inl (Except.error.inj h).symm

/-! ## A read -/

/-- The circumstances of an attempt: what becomes of its request, the random part of the delay
after it and how late the timer of that delay fires. -/
structure Attempt (config : QuorumClientConfig) (A : Type) where
  wire : Wire A
  roll : Fin (config.jitter + 1)
  lag : ℕ

/-- What a read did: its requests, the result, and when it was there. -/
structure Reading (A : Type) where
  exchanges : List (Exchange A)
  result : Except Thrown A
  ended : ℕ

/-- The error that a read ends with. -/
def lastError (config : QuorumClientConfig) (operation : JsString) (error : Thrown) : Thrown :=
  if isTimeoutError error = true then .rpcTimeoutError operation config.requestTimeout else error

/-- The attempts of a read from one on, with a number of them left after it. -/
def readFrom (config : QuorumClientConfig) (operation : JsString)
    (attempts : ℕ → Attempt config A) (left attempt now : ℕ) : Reading A :=
  let exchange := withTimeout config operation (attempts attempt).wire now
  match exchange.answer with
  | .ok value => ⟨[exchange], .ok value, exchange.ended⟩
  | .error error =>
    let last := lastError config operation error
    if last.isRpcTimeoutError = true ∨ isTransientRpcError error = false then
      ⟨[exchange], .error last, exchange.ended⟩
    else
      match left with
      | 0 => ⟨[exchange], .error last, exchange.ended⟩
      | left + 1 =>
        let pause := timer (config.base * 2 ^ attempt + (attempts attempt).roll)
          (attempts attempt).lag
        let rest := readFrom config operation attempts left (attempt + 1) (exchange.ended + pause)
        { rest with exchanges := exchange :: rest.exchanges }

/-- A read: a request, and up to the configured number of others in its place. -/
def read (config : QuorumClientConfig) (operation : JsString) (attempts : ℕ → Attempt config A)
    (now : ℕ) : Reading A := readFrom config operation attempts config.retries 0 now

/-! ## What a read does -/

/-- A failure after which a read goes on, if it has attempts left. -/
def MayPass (error : Thrown) : Prop :=
  isTimeoutError error = false ∧ error.isRpcTimeoutError = false ∧ isTransientRpcError error = true

/-- A read ends at once with all other failures. -/
theorem ends_iff (error : Thrown) :
    ((lastError config operation error).isRpcTimeoutError = true ∨
      isTransientRpcError error = false) ↔ ¬ MayPass error := by
  have hlast : (lastError config operation error).isRpcTimeoutError =
      (isTimeoutError error || error.isRpcTimeoutError) := by
    rw [lastError]
    cases isTimeoutError error <;> rfl
  rw [hlast, MayPass]
  cases isTimeoutError error <;> cases error.isRpcTimeoutError <;>
    cases isTransientRpcError error <;> simp

/-- The requests of a read from one attempt on: each of them goes as its attempt has it, the next
one is made only after a failure that may pass and a delay that doubles, the last one decides, and
a failure that may pass decides only if no attempt is left. -/
structure Reads (config : QuorumClientConfig) (operation : JsString)
    (attempts : ℕ → Attempt config A) (left attempt now : ℕ) (r : Reading A) : Prop where
  limited : r.exchanges.length ≤ left + 1
  first : r.exchanges.head?.map Exchange.begun = some now
  raced : ∀ k e, r.exchanges[k]? = some e →
    e = withTimeout config operation (attempts (attempt + k)).wire e.begun
  repeated : ∀ k e e', r.exchanges[k]? = some e → r.exchanges[k + 1]? = some e' →
    (∃ error, e.answer = .error error ∧ MayPass error) ∧
      e'.begun = e.ended + timer (config.base * 2 ^ (attempt + k) + (attempts (attempt + k)).roll)
        (attempts (attempt + k)).lag
  concluded : ∃ e, r.exchanges.getLast? = some e ∧ r.ended = e.ended ∧
    r.result = e.answer.mapError (lastError config operation) ∧
    ∀ error, e.answer = .error error → MayPass error → r.exchanges.length = left + 1

/-- A read ends with its first request, or goes on after it. -/
theorem readFrom_cases (operation : JsString) (attempts : ℕ → Attempt config A)
    (left attempt now : ℕ) :
    let e := withTimeout config operation (attempts attempt).wire now
    (readFrom config operation attempts left attempt now =
        ⟨[e], e.answer.mapError (lastError config operation), e.ended⟩ ∧
      ∀ error, e.answer = .error error → MayPass error → left = 0) ∨
    ∃ rest error, left = rest + 1 ∧ e.answer = .error error ∧ MayPass error ∧
      let r := readFrom config operation attempts rest (attempt + 1) (e.ended +
        timer (config.base * 2 ^ attempt + (attempts attempt).roll) (attempts attempt).lag)
      readFrom config operation attempts left attempt now =
        { r with exchanges := e :: r.exchanges } := by
  intro e
  cases hanswer : e.answer with
  | ok value =>
    refine .inl ⟨?_, fun error herror => by simp at herror⟩
    rw [readFrom.eq_def]
    simp only [show (withTimeout config operation (attempts attempt).wire now).answer = .ok value
      from hanswer]
    rfl
  | error error =>
    have hread := readFrom.eq_def config operation attempts left attempt now
    simp only [show (withTimeout config operation (attempts attempt).wire now).answer =
      .error error from hanswer] at hread
    by_cases hpass : MayPass error
    · rw [if_neg fun h => (ends_iff error).mp h hpass] at hread
      cases left with
      | zero => exact .inl ⟨hread, fun _ _ _ => rfl⟩
      | succ rest => exact .inr ⟨rest, error, rfl, rfl, hpass, hread⟩
    · rw [if_pos ((ends_iff error).mpr hpass)] at hread
      refine .inl ⟨hread, fun error' herror hpass' => ?_⟩
      obtain rfl := Except.error.inj herror
      contradiction

/-- A read that ends with its first request. -/
theorem Reads.single {attempts : ℕ → Attempt config A} {left attempt : ℕ} {e : Exchange A}
    {result : Except Thrown A} (he : withTimeout config operation (attempts attempt).wire now = e)
    (hresult : result = e.answer.mapError (lastError config operation))
    (hends : ∀ error, e.answer = .error error → MayPass error → left = 0) :
    Reads config operation attempts left attempt now ⟨[e], result, e.ended⟩ where
  limited := Nat.le_add_left 1 left
  first := by simp [← he]
  raced k e' hk := by
    cases k with
    | zero =>
      obtain rfl := Option.some.inj hk
      simp [← he]
    | succ k => simp at hk
  repeated k e' e'' _ hnext := by simp at hnext
  concluded := ⟨e, rfl, rfl, hresult, fun error herror hpass => by simp [hends error herror hpass]⟩

/-- A read that goes on after its first request. -/
theorem Reads.cons {attempts : ℕ → Attempt config A} {left attempt later : ℕ} {e : Exchange A}
    {r : Reading A} {error : Thrown}
    (h : Reads config operation attempts left (attempt + 1) later r)
    (he : withTimeout config operation (attempts attempt).wire now = e)
    (herror : e.answer = .error error) (hpass : MayPass error)
    (hlater : later = e.ended + timer (config.base * 2 ^ attempt + (attempts attempt).roll)
      (attempts attempt).lag) :
    Reads config operation attempts (left + 1) attempt now
      { r with exchanges := e :: r.exchanges } where
  limited := Nat.succ_le_succ h.limited
  first := by simp [← he]
  raced k e' hk := by
    cases k with
    | zero =>
      obtain rfl := Option.some.inj hk
      simp [← he]
    | succ k =>
      have hraced := h.raced k e' hk
      rwa [Nat.add_right_comm] at hraced
  repeated k e' e'' hk hnext := by
    cases k with
    | zero =>
      obtain rfl := Option.some.inj hk
      refine ⟨⟨error, herror, hpass⟩, ?_⟩
      have hfirst := h.first
      rw [List.head?_eq_getElem?, show r.exchanges[0]? = some e'' from hnext] at hfirst
      exact (Option.some.inj hfirst).trans hlater
    | succ k =>
      have hrepeated := h.repeated k e' e'' hk hnext
      rwa [Nat.add_right_comm] at hrepeated
  concluded := by
    obtain ⟨last, hlast, hended, hresult, hleft⟩ := h.concluded
    refine ⟨last, ?_, hended, hresult, fun error' herror' hpass' => ?_⟩
    · rw [List.getLast?_cons, hlast, Option.getD_some]
    · rw [List.length_cons, hleft error' herror' hpass']

/-- The requests of a read go as their attempts have it; the induction is on the attempts left. -/
theorem readFrom_reads (attempts : ℕ → Attempt config A) (left attempt now : ℕ) :
    Reads config operation attempts left attempt now
      (readFrom config operation attempts left attempt now) := by
  induction left generalizing attempt now with
  | zero =>
    rcases readFrom_cases operation attempts 0 attempt now with
      ⟨hread, hends⟩ | ⟨rest, error, hrest, -⟩
    · rw [hread]
      exact .single rfl rfl hends
    · omega
  | succ left ih =>
    rcases readFrom_cases operation attempts (left + 1) attempt now with
      ⟨hread, hends⟩ | ⟨rest, error, hrest, herror, hpass, hread⟩
    · rw [hread]
      exact .single rfl rfl hends
    · obtain rfl := Nat.succ.inj hrest
      rw [hread]
      exact (ih _ _).cons rfl herror hpass rfl

/-- The requests of a read are made while it lasts. -/
theorem readFrom_within (operation : JsString) (attempts : ℕ → Attempt config A)
    (left attempt now : ℕ) :
    now ≤ (readFrom config operation attempts left attempt now).ended ∧
      ∀ e ∈ (readFrom config operation attempts left attempt now).exchanges,
        now ≤ e.begun ∧ e.ended ≤ (readFrom config operation attempts left attempt now).ended := by
  induction left generalizing attempt now with
  | zero =>
    obtain ⟨hread, -⟩ | ⟨rest, error, hrest, -⟩ :=
      readFrom_cases operation attempts 0 attempt now
    · rw [hread]
      simp only [List.mem_singleton, forall_eq, withTimeout_begun, le_refl, and_self, and_true]
      exact (withTimeout_ended _ _ _ _).1
    · omega
  | succ left ih =>
    obtain ⟨hread, -⟩ | ⟨rest, error, hrest, -, -, hread⟩ :=
      readFrom_cases operation attempts (left + 1) attempt now
    · rw [hread]
      simp only [List.mem_singleton, forall_eq, withTimeout_begun, le_refl, and_self, and_true]
      exact (withTimeout_ended _ _ _ _).1
    · obtain rfl := Nat.succ.inj hrest
      have hended := (withTimeout_ended config operation (attempts attempt).wire now).1
      obtain ⟨hle, hmem⟩ := ih (attempt + 1)
        ((withTimeout config operation (attempts attempt).wire now).ended +
          timer (config.base * 2 ^ attempt + (attempts attempt).roll) (attempts attempt).lag)
      have hfirst := (Nat.le_add_right _ _).trans hle
      rw [hread]
      refine ⟨hended.trans hfirst, fun e he => ?_⟩
      rcases List.mem_cons.mp he with rfl | he
      · exact ⟨(withTimeout_begun _ _ _ _).ge, hfirst⟩
      · obtain ⟨hbegun, hlast⟩ := hmem e he
        exact ⟨hended.trans ((Nat.le_add_right _ _).trans hbegun), hlast⟩

/-! ## How long a read takes -/

/-- No timer of the read is late by more than this. -/
def Punctual (late : ℕ) (attempts : ℕ → Attempt config A) : Prop :=
  ∀ k, (attempts k).wire.timerLag ≤ late ∧ (attempts k).lag ≤ late

/-- The longest time that a read takes from an attempt on. -/
def patienceFrom (config : QuorumClientConfig) (late left attempt : ℕ) : ℕ :=
  (left + 1) * (max 1 config.requestTimeout + late) +
    ∑ k ∈ Finset.range left, (max 1 (config.base * 2 ^ (attempt + k) + config.jitter) + late)

/-- The longest time that a read takes. -/
def patience (config : QuorumClientConfig) (late : ℕ) : ℕ :=
  patienceFrom config late config.retries 0

/-- One attempt more takes a request and a delay more. -/
theorem patienceFrom_succ (late left attempt : ℕ) :
    patienceFrom config late (left + 1) attempt = (max 1 config.requestTimeout + late) +
      (max 1 (config.base * 2 ^ attempt + config.jitter) + late) +
      patienceFrom config late left (attempt + 1) := by
  have hshift : ∀ k ∈ Finset.range left,
      max 1 (config.base * 2 ^ (attempt + (k + 1)) + config.jitter) + late =
        max 1 (config.base * 2 ^ (attempt + 1 + k) + config.jitter) + late := fun k _ => by
    rw [show attempt + (k + 1) = attempt + 1 + k by omega]
  rw [patienceFrom, patienceFrom, Finset.sum_range_succ', Finset.sum_congr rfl hshift,
    Nat.add_zero attempt, Nat.succ_mul (left + 1)]
  omega

/-- A read whose attempts are punctual ends within its patience. -/
theorem readFrom_ended_le {late : ℕ} {attempts : ℕ → Attempt config A}
    (h : Punctual late attempts) (left attempt now : ℕ) :
    (readFrom config operation attempts left attempt now).ended ≤
      now + patienceFrom config late left attempt := by
  have hraces : ∀ attempt now,
      (withTimeout config operation (attempts attempt).wire now).ended ≤
        now + (max 1 config.requestTimeout + late) := fun attempt now =>
    (withTimeout_ended _ _ _ _).2.trans (Nat.add_le_add_left (timer_le _ (h attempt).1) now)
  induction left generalizing attempt now with
  | zero =>
    obtain ⟨hread, -⟩ | ⟨rest, error, hrest, -⟩ :=
      readFrom_cases operation attempts 0 attempt now
    · rw [hread]
      simpa [patienceFrom] using hraces attempt now
    · omega
  | succ left ih =>
    rw [patienceFrom_succ]
    obtain ⟨hread, -⟩ | ⟨rest, error, hrest, -, -, hread⟩ :=
      readFrom_cases operation attempts (left + 1) attempt now
    · rw [hread]
      exact (hraces attempt now).trans (by omega)
    · obtain rfl := Nat.succ.inj hrest
      have hpause : timer (config.base * 2 ^ attempt + (attempts attempt).roll)
          (attempts attempt).lag ≤
            max 1 (config.base * 2 ^ attempt + config.jitter) + late := by
        have hroll := Nat.le_of_lt_succ (attempts attempt).roll.isLt
        exact (timer_le _ (h attempt).2).trans (by omega)
      have hrest := ih (attempt + 1)
        ((withTimeout config operation (attempts attempt).wire now).ended +
          timer (config.base * 2 ^ attempt + (attempts attempt).roll) (attempts attempt).lag)
      have hrace := hraces attempt now
      rw [hread]
      exact hrest.trans (by omega)

/-! ## Every read -/

/-- The texts of a failure that may pass. The text of a timeout is not among them, although it
counts as transient, and neither is its code. -/
theorem mayPass_iff (error : Thrown) : MayPass error ↔
    ∃ failure, error = .rejected failure ∧ failure.code ≠ some (units "ECONNABORTED") ∧
      failure.code ≠ some (units "ETIMEDOUT") ∧ foundIn failure.message "timeout" = false ∧
      ((∃ status ∈ failure.responseStatus.or failure.status,
          status = 408 ∨ status = 429 ∨ 500 ≤ status) ∨
        failure.code = some (units "ECONNRESET") ∨
        ∃ text ∈ transientTexts.tail, foundIn failure.message text = true) := by
  cases error with
  | rpcTimeoutError operation timeoutMs => simp [MayPass, Thrown.isRpcTimeoutError]
  | rejected failure =>
    have hstatus : ∀ status : Option ℕ, status.any (fun status =>
        status = 408 || status = 429 || decide (500 ≤ status)) = true ↔
          ∃ value ∈ status, value = 408 ∨ value = 429 ∨ 500 ≤ value := by
      intro status
      cases status <;> simp [or_assoc]
    simp only [MayPass, isTimeoutError, isTransientRpcError, Bool.or_eq_true,
      Bool.or_eq_false_iff, decide_eq_true_eq, decide_eq_false_iff_not, hstatus]
    constructor
    · rintro ⟨⟨⟨haborted, htimed⟩, htimeout⟩, -, hpass⟩
      refine ⟨failure, rfl, haborted, htimed, htimeout, ?_⟩
      rcases hpass with ((hcode | hreset) | hetimedout) | htext
      · exact .inl hcode
      · exact .inr (.inl hreset)
      · exact absurd hetimedout htimed
      · rw [transientTexts, List.any_cons, htimeout, Bool.false_or, List.any_eq_true] at htext
        exact .inr (.inr htext)
    · rintro ⟨_, hfailure, haborted, htimed, htimeout, hpass⟩
      obtain rfl := Thrown.rejected.inj hfailure
      refine ⟨⟨⟨haborted, htimed⟩, htimeout⟩, rfl, ?_⟩
      rcases hpass with hcode | hreset | ⟨text, hmem, htext⟩
      · exact .inl (.inl (.inl hcode))
      · exact .inl (.inl (.inr hreset))
      · exact .inr (List.any_eq_true.mpr ⟨text, List.mem_of_mem_tail hmem, htext⟩)

/-- The requests of a whole read go as their attempts have it. -/
theorem read_reads (config : QuorumClientConfig) (operation : JsString)
    (attempts : ℕ → Attempt config A) (now : ℕ) :
    Reads config operation attempts config.retries 0 now (read config operation attempts now) :=
  readFrom_reads attempts config.retries 0 now

/-- A read does not end before it begins. -/
theorem le_read_ended (operation : JsString) (attempts : ℕ → Attempt config A) (now : ℕ) :
    now ≤ (read config operation attempts now).ended :=
  (readFrom_within operation attempts config.retries 0 now).1

/-- A whole read whose attempts are punctual ends within its patience. -/
theorem read_ended_le (operation : JsString) {late : ℕ} {attempts : ℕ → Attempt config A}
    (h : Punctual late attempts) (now : ℕ) :
    (read config operation attempts now).ended ≤ now + patience config late :=
  readFrom_ended_le h config.retries 0 now

/-- What a read throws is a timeout of its operation, or what a request was rejected with. -/
theorem read_throws {attempts : ℕ → Attempt config A} {error : Thrown}
    (h : (read config operation attempts now).result = .error error) :
    error = .rpcTimeoutError operation config.requestTimeout ∨
      ∃ failure, error = .rejected failure := by
  have hreads := read_reads config operation attempts now
  obtain ⟨e, hlast, -, hresult, -⟩ := hreads.concluded
  rw [List.getLast?_eq_getElem?] at hlast
  have hraced := hreads.raced _ e hlast
  rw [h] at hresult
  cases hanswer : e.answer with
  | ok value =>
    rw [hanswer] at hresult
    contradiction
  | error thrown =>
    rw [hanswer] at hresult
    obtain rfl : error = lastError config operation thrown := Except.error.inj hresult
    rw [hraced] at hanswer
    rw [lastError]
    split
    · exact .inl rfl
    · exact withTimeout_throws hanswer

/-- What a read brings is what the network answered its last request. -/
theorem read_brings {attempts : ℕ → Attempt config A} {value : A}
    (h : (read config operation attempts now).result = .ok value) :
    ∃ e ∈ (read config operation attempts now).exchanges, e.answer = .ok value ∧
      now ≤ e.begun ∧ (read config operation attempts now).ended = e.ended := by
  obtain ⟨e, hlast, hended, hresult, -⟩ := (read_reads config operation attempts now).concluded
  have hmem := List.mem_of_getLast? hlast
  have hwithin := (readFrom_within operation attempts config.retries 0 now).2 e hmem
  refine ⟨e, hmem, ?_, hwithin.1, hended⟩
  rw [h] at hresult
  cases hanswer : e.answer with
  | ok value' =>
    rw [hanswer] at hresult
    exact hresult.symm
  | error error =>
    rw [hanswer] at hresult
    contradiction

/-- For every read, whatever the network does. -/
theorem read_disciplined (config : QuorumClientConfig) (operation : JsString)
    (attempts : ℕ → Attempt config A) (now : ℕ) :
    Reads config operation attempts config.retries 0 now (read config operation attempts now) ∧
      ∀ late, Punctual late attempts →
        (read config operation attempts now).ended ≤ now + patience config late :=
  ⟨read_reads config operation attempts now, fun _ h => read_ended_le operation h now⟩

end Reads

end Quorum.Sdk.Client

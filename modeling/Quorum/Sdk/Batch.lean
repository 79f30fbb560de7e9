import Mathlib.Data.List.Perm.Subperm
import Quorum.Foundation.Decimals
import Quorum.Foundation.JsonValue
import Quorum.Foundation.OrderedMap

/-!
# Batched simulations

Reads that are enqueued together are simulated in batches. A flush cuts them into chunks and awaits
one batch after the other, while new reads queue up for another flush. The provider may answer a
batch with anything, late, or never. When an answer is not one response for each index, or the
provider refuses batches, the reads of the chunk fall back to a request each, and no batch is sent
any more.

Every read is in one place at every time: enqueued for a flush that is queued, in a flush that
awaits the batch of the read or an earlier one, in its own fallback, or settled.
-/

namespace Quorum.Sdk.Batch

open Foundation

/-! ## Requests and replies -/

/-- An error object, by its message and its `status`. -/
structure ErrorObject where
  message : JsString
  status : Option Json

/-- What can be thrown: a value, an error object, or an error of a library or a fallback. -/
inductive Thrown (X : Type) where
  | value (error : Json)
  | error (error : ErrorObject)
  | other (error : X)

/-- How the call of the provider ends. -/
inductive Reply where
  | resolved (raw : Option Json)
  | rejected (error : ErrorObject)

/-- One request of a batch. -/
structure BatchRequest (T : Type) where
  jsonrpc : JsString
  id : ℕ
  method : JsString
  transaction : T

/-- The body of a batch. -/
def batchBody {T : Type} (transactions : List T) : List (BatchRequest T) :=
  transactions.mapIdx fun id transaction =>
    ⟨units "2.0", id, units "simulateTransaction", transaction⟩

/-- What `fetch` brings: an error, or a response whose body is JSON or not. -/
inductive Fetched where
  | failed (error : ErrorObject)
  | response (status : ℕ) (body : Except ErrorObject Json)

/-- The call of the provider, given what is fetched and whether it has been aborted by then. -/
def postSimulationBatch (fetched : Fetched) (aborted : Bool) : Reply :=
  let timeout : ErrorObject := ⟨units "Batch simulation timeout", none⟩
  match fetched with
  | .failed error => .rejected (if aborted = true then timeout else error)
  | .response status body =>
    if 200 ≤ status ∧ status ≤ 299 then
      match body with
      | .ok value => .resolved (some value)
      | .error _ => if aborted = true then .rejected timeout else .resolved none
    else
      .rejected (if aborted = true then timeout else
        { message := units "Batch simulation HTTP " ++ decimalUnits status
          status := some (.number ⟨some status, decimalUnits status⟩) })

/-- The statuses of a provider that does not support batches. -/
def unsupportedStatuses : List ℤ := [400, 404, 405, 413, 415, 422, 501]

/-- The error says that the provider does not support batches. -/
def unsupported (error : ErrorObject) : Bool :=
  truthy error.status && (integer error.status).any fun status => unsupportedStatuses.contains status

/-- The identifier of a response. -/
def responseId (response : Json) : Option Json := property "id" (some response)

/-- A response that a batch of this length cannot have. -/
def misfits (length : ℕ) (response : Json) : Bool :=
  let code := integer (property "code" (property "error" (some response)))
  !truthy (some response) || !isString "2.0" (property "jsonrpc" (some response)) ||
    !(integer (responseId response)).any (fun id : ℤ => decide (0 ≤ id ∧ id < length)) ||
    decide (code = some (-32600)) || decide (code = some (-32601))

/-- The responses to a batch of this length, unless the provider is incompatible. -/
def responses (length : ℕ) : Option Json → Option (List Json)
  | some (.array items) =>
    if items.length ≠ length then none
    else if setSize (items.map responseId) ≠ length ∨ items.any (misfits length) = true then none
    else some items
  | _ => none

/-- The index in the batch that a response is for. -/
def index (response : Json) : Option ℕ := (integer (responseId response)).bind Int.toNat?

/-- The value, if it counts as true. -/
def present (value : Option Json) : Option Json := value.filter fun v => truthy (some v)

section Outcomes

variable {X V : Type}

/-- The outcome of a read, given the response to it and how results are decoded. -/
def outcome (decode : Json → Except X V) (response : Json) : Except (Thrown X) V :=
  let result := property "result" (some response)
  match present (property "error" (some response)) with
  | some error => .error (.value error)
  | none =>
    match present (property "error" result) with
    | some failure =>
      match templateText failure with
      | some text => .error (.error ⟨units "Simulation of get_proposal failed: " ++ text, none⟩)
      | none => .error (.error ⟨units "Cannot convert object to primitive value", none⟩)
    | none =>
      match present (property "xdr" (firstElement (property "results" result))) with
      | some retval => (decode retval).mapError .other
      | none => .error (.error ⟨units "Simulation of get_proposal returned no result", none⟩)

end Outcomes

/-! ## The batcher -/

/-- The size of a batch. -/
structure BatchSize where
  value : ℕ
  pos : 0 < value
  le_hundred : value ≤ 100

/-- The constructor's check of the size. -/
def BatchSize.ofNumber (size : Option ℚ) : Except JsString BatchSize :=
  let message := units "simulationBatchSize must be an integer between 1 and 100"
  match size with
  | none => .error message
  | some size =>
    if h : size.den = 1 ∧ 1 ≤ size.num ∧ size.num ≤ 100 then
      .ok ⟨size.num.toNat, by omega, by omega⟩
    else .error message

/-- The constructor accepts the integers from 1 to 100, and keeps them. -/
theorem BatchSize.ofNumber_eq_ok_iff (number : Option ℚ) (size : BatchSize) :
    BatchSize.ofNumber number = .ok size ↔ number = some (size.value : ℚ) := by
  unfold ofNumber
  constructor
  · intro h
    cases number with
    | none => contradiction
    | some q =>
      dsimp only at h
      split at h
      · rename_i hvalid
        obtain rfl := Except.ok.inj h
        have hnum : ((q.num.toNat : ℤ) : ℚ) = q := by
          rw [Int.toNat_of_nonneg (by omega)]
          exact Rat.coe_int_num_of_den_eq_one hvalid.1
        exact congrArg some hnum.symm
      · contradiction
  · rintro rfl
    have hvalid : (size.value : ℚ).den = 1 ∧ 1 ≤ (size.value : ℚ).num ∧
        (size.value : ℚ).num ≤ 100 := by
      have hpos := size.pos
      have hle := size.le_hundred
      rw [Rat.den_natCast, Rat.num_natCast]
      omega
    dsimp only
    rw [dif_pos hvalid]
    rfl

/-- A read that has been enqueued. Each has its own `id`, its fallback and its promise. -/
structure Pending (T : Type) where
  id : ℕ
  transaction : T

/-- A flush that awaits a batch: its reads, and where the chunk of the batch starts. -/
structure Flush (T : Type) where
  pending : List (Pending T)
  start : ℕ

/-- A batcher: the reads that are enqueued, whether batches are sent, the flushes that are queued,
the ones that await a batch, under the number of the batch, the reads whose fallback has not
settled, and the numbers of reads and of batches so far. -/
structure SimulationBatcher (T : Type) where
  pending : List (Pending T)
  supported : Bool
  queued : ℕ
  flushes : List (ℕ × Flush T)
  fallbacks : List ℕ
  reads : ℕ
  batches : ℕ

/-- A new batcher. -/
def SimulationBatcher.empty {T : Type} : SimulationBatcher T := ⟨[], true, 0, [], [], 0, 0⟩

/-- What can happen to a batcher: a read is enqueued, a queued flush starts, the call of the
provider for a batch ends, or a fallback does. -/
inductive Input (T X V : Type) where
  | enqueue (transaction : T)
  | flush
  | reply (batch : ℕ) (reply : Reply)
  | returned (id : ℕ) (outcome : Except (Thrown X) V)

/-- What a batcher does: it sends a batch, calls the fallback of a read, or settles a read. -/
inductive Effect (T X V : Type) where
  | sent (batch : ℕ) (transactions : List T)
  | fellBack (id : ℕ)
  | settled (id : ℕ) (outcome : Except (Thrown X) V)

section Steps

variable {T X V : Type}

/-- The identifiers of reads. -/
def ids (items : List (Pending T)) : List ℕ := items.map Pending.id

/-- The chunk of the batch that a flush awaits. -/
def Flush.chunk (size : BatchSize) (f : Flush T) : List (Pending T) :=
  (f.pending.drop f.start).take size.value

/-- Calls the fallbacks of reads. -/
def fallback (s : SimulationBatcher T) (items : List (Pending T)) :
    List (Effect T X V) × SimulationBatcher T :=
  ((ids items).map .fellBack, { s with fallbacks := s.fallbacks ++ ids items })

/-- The loop of a flush from a chunk on: until a batch is sent. -/
def advance (size : BatchSize) (s : SimulationBatcher T) (pending : List (Pending T)) (start : ℕ) :
    List (Effect T X V) × SimulationBatcher T :=
  if start < pending.length then
    let f : Flush T := ⟨pending, start⟩
    let chunk := f.chunk size
    if s.supported = false ∨ chunk.length = 1 then
      let fell := fallback s chunk
      let rest := advance size fell.2 pending (start + size.value)
      (fell.1 ++ rest.1, rest.2)
    else
      ([.sent s.batches (chunk.map Pending.transaction)],
        { s with flushes := s.flushes ++ [(s.batches, f)], batches := s.batches + 1 })
  else ([], s)
termination_by pending.length - start
decreasing_by
  have := size.pos
  omega

/-- Enqueues a read. -/
def enqueue (s : SimulationBatcher T) (transaction : T) :
    List (Effect T X V) × SimulationBatcher T :=
  let s' := { s with reads := s.reads + 1 }
  if s.supported = false then
    ([.fellBack s.reads], { s' with fallbacks := s.fallbacks ++ [s.reads] })
  else
    let pending := s.pending ++ [⟨s.reads, transaction⟩]
    ([], { s' with
      pending := pending
      queued := if pending.length = 1 then s.queued + 1 else s.queued })

/-- Starts a queued flush. -/
def flush (size : BatchSize) (s : SimulationBatcher T) : List (Effect T X V) × SimulationBatcher T :=
  if s.queued = 0 then ([], s)
  else advance size { s with pending := [], queued := s.queued - 1 } s.pending 0

/-- Settles the read that a response is for. -/
def settle (decode : Json → Except X V) (chunk : List (Pending T)) (response : Json) :
    Option (Effect T X V) :=
  ((index response).bind fun i => chunk[i]?).map fun item =>
    .settled item.id (outcome decode response)

/-- What becomes of the chunk when the call of the provider for it ends. -/
def handle (decode : Json → Except X V) (s : SimulationBatcher T) (chunk : List (Pending T)) :
    Reply → List (Effect T X V) × SimulationBatcher T
  | .resolved raw =>
    match responses chunk.length raw with
    | none => fallback { s with supported := false } chunk
    | some responses => (responses.filterMap (settle decode chunk), s)
  | .rejected error =>
    if unsupported error = true then fallback { s with supported := false } chunk
    else (chunk.map fun item => .settled item.id (.error (.error error)), s)

/-- The call of the provider for a batch ends, and the flush goes on. -/
def reply (decode : Json → Except X V) (size : BatchSize) (s : SimulationBatcher T) (batch : ℕ)
    (r : Reply) : List (Effect T X V) × SimulationBatcher T :=
  match mapGet s.flushes batch with
  | none => ([], s)
  | some f =>
    let handled := handle decode { s with flushes := mapDelete s.flushes batch } (f.chunk size) r
    let rest := advance size handled.2 f.pending (f.start + size.value)
    (handled.1 ++ rest.1, rest.2)

/-- The fallback of a read settles, and the read with it. -/
def returned (s : SimulationBatcher T) (id : ℕ) (outcome : Except (Thrown X) V) :
    List (Effect T X V) × SimulationBatcher T :=
  if id ∈ s.fallbacks then ([.settled id outcome], { s with fallbacks := s.fallbacks.erase id })
  else ([], s)

/-- One step. -/
def step (decode : Json → Except X V) (size : BatchSize) (s : SimulationBatcher T) :
    Input T X V → List (Effect T X V) × SimulationBatcher T
  | .enqueue transaction => enqueue s transaction
  | .flush => flush size s
  | .reply batch r => reply decode size s batch r
  | .returned id outcome => returned s id outcome

/-- What the batcher does at a row of inputs, and what it is after it. -/
def play (decode : Json → Except X V) (size : BatchSize) (inputs : List (Input T X V)) :
    List (Effect T X V) × SimulationBatcher T :=
  inputs.foldl (fun p i => (p.1 ++ (step decode size p.2 i).1, (step decode size p.2 i).2))
    ([], .empty)

/-- What the batcher has done. -/
def history (decode : Json → Except X V) (size : BatchSize) (inputs : List (Input T X V)) :
    List (Effect T X V) := (play decode size inputs).1

/-- The batcher after a row of inputs. -/
def run (decode : Json → Except X V) (size : BatchSize) (inputs : List (Input T X V)) :
    SimulationBatcher T := (play decode size inputs).2

/-- What the batcher does at an input after a row of others. -/
def effects (decode : Json → Except X V) (size : BatchSize) (inputs : List (Input T X V))
    (i : Input T X V) : List (Effect T X V) :=
  (step decode size (run decode size inputs) i).1

variable {decode : Json → Except X V} {size : BatchSize}

/-- The batcher after one more input is a step further. -/
theorem run_concat (inputs : List (Input T X V)) (i : Input T X V) :
    run decode size (inputs ++ [i]) = (step decode size (run decode size inputs) i).2 := by
  rw [run, play, List.foldl_append]
  rfl

/-- The history of one more input is continued by what the batcher does at it. -/
theorem history_concat (inputs : List (Input T X V)) (i : Input T X V) :
    history decode size (inputs ++ [i]) =
      history decode size inputs ++ effects decode size inputs i := by
  rw [history, play, List.foldl_append]
  rfl

/-! ## Responses that fit -/

/-- A response of the protocol that does not say that batches are invalid or unknown. -/
def WellFormed (response : Json) : Prop :=
  isString "2.0" (property "jsonrpc" (some response)) = true ∧
    integer (property "code" (property "error" (some response))) ∉ [some (-32600), some (-32601)]

/-- A response has an index exactly when its id is that whole number. -/
theorem index_eq_some_iff {response : Json} {i : ℕ} :
    index response = some i ↔ integer (responseId response) = some (i : ℤ) := by
  unfold index
  cases integer (responseId response) with
  | none => simp
  | some k => simp [Int.mem_toNat?]

/-- What has an index is an object. -/
theorem truthy_of_index {response : Json} {i : ℕ} (h : index response = some i) :
    truthy (some response) = true := by
  cases response with
  | object => rfl
  | _ => simp [index, responseId, property, integer] at h

/-- A response fits when it is well formed and is for an index of the batch. -/
theorem misfits_eq_false_iff (length : ℕ) (response : Json) :
    misfits length response = false ↔
      WellFormed response ∧ ∃ i < length, index response = some i := by
  simp only [misfits, Bool.or_eq_false_iff, Bool.not_eq_false', decide_eq_false_iff_not, WellFormed,
    List.mem_cons, List.not_mem_nil, or_false, not_or, Option.any_eq_true, decide_eq_true_eq]
  constructor
  · rintro ⟨⟨⟨⟨-, hversion⟩, k, hid, hnonneg, hlt⟩, hinvalid⟩, hunknown⟩
    refine ⟨⟨hversion, hinvalid, hunknown⟩, k.toNat, by omega, index_eq_some_iff.mpr ?_⟩
    rw [hid, Int.toNat_of_nonneg hnonneg]
  · rintro ⟨⟨hversion, hinvalid, hunknown⟩, i, hlt, hindex⟩
    refine ⟨⟨⟨⟨truthy_of_index hindex, hversion⟩, i, index_eq_some_iff.mp hindex, ?_, ?_⟩, hinvalid⟩,
      hunknown⟩ <;> omega

/-- Responses with one index have the same identifier to a set. -/
theorem sameValue_responseId {a b : Json} {i : ℕ} (ha : index a = some i) (hb : index b = some i) :
    sameValue (responseId a) (responseId b) = true :=
  sameValue_of_integer (index_eq_some_iff.mp ha) (index_eq_some_iff.mp hb)

/-- The answer of a provider that supports batches: well-formed responses, one for each index. -/
def Complete (length : ℕ) (raw : Option Json) (items : List Json) : Prop :=
  raw = some (.array items) ∧ (∀ item ∈ items, WellFormed item) ∧
    (items.map index).Perm ((List.range length).map some)

/-- The responses have different indices exactly when their identifiers are as many to a set. -/
theorem nodup_index_iff {items : List Json} (hindex : ∀ item ∈ items, ∃ i, index item = some i) :
    (items.map index).Nodup ↔ setSize (items.map responseId) = items.length := by
  have hsize := setSize_eq_length_iff (items.map responseId)
  rw [List.length_map] at hsize
  rw [hsize, List.Nodup, List.pairwise_map, List.pairwise_map]
  constructor
  · refine fun h => h.imp fun {a b} hne => Bool.eq_false_iff.mpr fun hsame => hne ?_
    rw [index, integer_eq_of_sameValue hsame, index]
  · refine fun h => h.imp_of_mem fun {a b} ha hb hdiffer heq => ?_
    obtain ⟨i, hi⟩ := hindex a ha
    rw [sameValue_responseId hi (heq ▸ hi)] at hdiffer
    contradiction

/-- The checks accept exactly the answers that are complete. -/
theorem responses_eq_some_iff (length : ℕ) (raw : Option Json) (items : List Json) :
    responses length raw = some items ↔ Complete length raw items := by
  have hfits : ∀ {items : List Json}, items.any (misfits length) = false →
      ∀ item ∈ items, WellFormed item ∧ ∃ i < length, index item = some i := fun h item hitem =>
    (misfits_eq_false_iff length item).mp (Bool.eq_false_iff.mpr fun hmisfit =>
      Bool.eq_false_iff.mp h (List.any_eq_true.mpr ⟨item, hitem, hmisfit⟩))
  constructor
  · intro h
    unfold responses at h
    split at h
    · rename_i items'
      split_ifs at h with hlength hset
      obtain rfl := Option.some.inj h
      rw [not_or, not_not, Bool.not_eq_true] at hset
      rw [ne_eq, not_not] at hlength
      have hall := hfits hset.2
      refine ⟨rfl, fun item hitem => (hall item hitem).1, ?_⟩
      have hnodup : (items'.map index).Nodup :=
        (nodup_index_iff fun item hitem => (hall item hitem).2.imp fun _ h => h.2).mpr
          (hset.1.trans hlength.symm)
      have hsubset : items'.map index ⊆ (List.range length).map some := fun found hfound => by
        obtain ⟨item, hitem, rfl⟩ := List.mem_map.mp hfound
        obtain ⟨i, hlt, hi⟩ := (hall item hitem).2
        exact List.mem_map.mpr ⟨i, List.mem_range.mpr hlt, hi.symm⟩
      refine (List.subperm_of_subset hnodup hsubset).perm_of_length_le ?_
      rw [List.length_map, List.length_map, List.length_range, hlength]
    · contradiction
  · rintro ⟨rfl, hformed, hperm⟩
    have hlength : items.length = length := by simpa using hperm.length_eq
    have hindex : ∀ item ∈ items, ∃ i < length, index item = some i := fun item hitem => by
      obtain ⟨i, hi, heq⟩ := List.mem_map.mp (hperm.subset (List.mem_map_of_mem hitem))
      exact ⟨i, List.mem_range.mp hi, heq.symm⟩
    have hnodup : (items.map index).Nodup :=
      hperm.nodup_iff.mpr (List.nodup_range.map (Option.some_injective ℕ))
    have hset := (nodup_index_iff fun item hitem => (hindex item hitem).imp fun _ h => h.2).mp hnodup
    have hany : items.any (misfits length) = false := List.any_eq_false.mpr fun item hitem =>
      Bool.eq_false_iff.mp
        ((misfits_eq_false_iff length item).mpr ⟨hformed item hitem, hindex item hitem⟩)
    simp [responses, hlength, hset, hany]

/-- The answer of a provider that does not support batches. -/
def Incompatible (length : ℕ) : Reply → Prop
  | .resolved raw => ∀ items, ¬ Complete length raw items
  | .rejected error => unsupported error = true

/-- A call that has been aborted before its body was read says nothing about the provider. -/
theorem not_incompatible_of_aborted {fetched : Fetched}
    (h : ∀ status body, fetched ≠ .response status (.ok body)) (length : ℕ) :
    ¬ Incompatible length (postSimulationBatch fetched true) := by
  have htimeout : ¬ Incompatible length
      (.rejected ⟨units "Batch simulation timeout", none⟩) := Bool.false_ne_true
  cases fetched with
  | failed error => exact htimeout
  | response status body =>
    cases body with
    | ok value => exact absurd rfl (h status value)
    | error error =>
      rw [postSimulationBatch]
      split <;> exact htimeout

/-- Of a complete answer one response is for the index. -/
theorem Complete.exists_response {length : ℕ} {raw : Option Json} {items : List Json}
    (h : Complete length raw items) {i : ℕ} (hi : i < length) :
    ∃ response, items.filter (fun item => index item = some i) = [response] := by
  have hnodup : (items.map index).Nodup :=
    h.2.2.nodup_iff.mpr (List.nodup_range.map (Option.some_injective ℕ))
  have hmem : some i ∈ items.map index :=
    h.2.2.mem_iff.mpr (List.mem_map_of_mem (List.mem_range.mpr hi))
  apply List.length_eq_one_iff.mp
  rw [← List.countP_eq_length_filter, ← List.count_eq_one_of_mem hnodup hmem, List.count,
    List.countP_map]
  exact List.countP_congr fun item _ => by simp

/-- The reads that settle. -/
def settledIds (es : List (Effect T X V)) : List ℕ :=
  es.filterMap fun
    | .settled id _ => some id
    | _ => none

/-- The reads whose fallback is called. -/
def fellIds (es : List (Effect T X V)) : List ℕ :=
  es.filterMap fun
    | .fellBack id => some id
    | _ => none

/-- Nothing settles in an empty history. -/
@[simp]
theorem settledIds_nil : settledIds ([] : List (Effect T X V)) = [] := rfl

/-- Sending a batch settles no read. -/
@[simp]
theorem settledIds_sent (batch : ℕ) (transactions : List T) :
    settledIds ([.sent batch transactions] : List (Effect T X V)) = [] := rfl

/-- A settled read is the one that settles. -/
@[simp]
theorem settledIds_settled (id : ℕ) (outcome : Except (Thrown X) V) :
    settledIds ([.settled id outcome] : List (Effect T X V)) = [id] := rfl

/-- The reads settled in two histories in a row are those of both. -/
@[simp]
theorem settledIds_append (es es' : List (Effect T X V)) :
    settledIds (es ++ es') = settledIds es ++ settledIds es' := List.filterMap_append

/-- The reads that fall back in two histories in a row are those of both. -/
@[simp]
theorem fellIds_append (es es' : List (Effect T X V)) :
    fellIds (es ++ es') = fellIds es ++ fellIds es' := List.filterMap_append

/-- Falling back settles no read. -/
@[simp]
theorem settledIds_fellBack (fallen : List ℕ) :
    settledIds (fallen.map .fellBack : List (Effect T X V)) = [] := by
  simp [settledIds, List.filterMap_map]

/-- The reads that fall back are those whose fallback is called. -/
@[simp]
theorem fellIds_fellBack (fallen : List ℕ) :
    fellIds (fallen.map .fellBack : List (Effect T X V)) = fallen := by
  simp [fellIds, List.filterMap_map]

/-- Looking up every position of a list gives the list. -/
theorem filterMap_range_getElem? {A : Type} (l : List A) :
    ((List.range l.length).filterMap fun i => l[i]?) = l := by
  induction l with
  | nil => rfl
  | cons a l ih =>
    rw [List.length_cons, List.range_succ_eq_map, List.filterMap_cons, List.getElem?_cons_zero,
      List.filterMap_map]
    exact congrArg (List.cons a) ih

/-- A complete answer settles the reads of the chunk. -/
theorem Complete.settledIds_perm {raw : Option Json} {items : List Json} {chunk : List (Pending T)}
    (h : Complete chunk.length raw items) :
    (settledIds (items.filterMap (settle decode chunk))).Perm (ids chunk) := by
  have hsettled : settledIds (items.filterMap (settle decode chunk)) =
      (items.map index).filterMap fun i => i.bind fun i => (ids chunk)[i]? := by
    rw [settledIds, List.filterMap_filterMap, List.filterMap_map]
    congr 1
    funext item
    simp only [settle, ids, Function.comp_apply, List.getElem?_map, Option.bind_map]
    cases index item with
    | none => rfl
    | some i =>
      simp only [Option.bind_some]
      cases chunk[i]? <;> rfl
  have hall : ((List.range chunk.length).map some).filterMap
      (fun i => i.bind fun i => (ids chunk)[i]?) = ids chunk := by
    rw [List.filterMap_map, ← List.length_map (f := Pending.id)]
    exact filterMap_range_getElem? (ids chunk)
  rw [hsettled]
  exact (h.2.2.filterMap _).trans (List.Perm.of_eq hall)

/-! ## What a step does -/

/-- All that the loop of a flush can do from a chunk on: the reads that are left fall back, or some
of them do and the chunk after them is sent. -/
inductive Advanced (size : BatchSize) (s : SimulationBatcher T) (pending : List (Pending T))
    (start : ℕ) : List (Effect T X V) × SimulationBatcher T → Prop where
  | finished : Advanced size s pending start ((ids (pending.drop start)).map .fellBack,
      { s with fallbacks := s.fallbacks ++ ids (pending.drop start) })
  | sent (fallen : List (Pending T)) (stop : ℕ) (hsupported : s.supported = true)
      (hleft : pending.drop start = fallen ++ pending.drop stop) :
      Advanced size s pending start
        ((ids fallen).map .fellBack ++
            [.sent s.batches (((⟨pending, stop⟩ : Flush T).chunk size).map Pending.transaction)],
          { s with
            fallbacks := s.fallbacks ++ ids fallen
            flushes := s.flushes ++ [(s.batches, ⟨pending, stop⟩)]
            batches := s.batches + 1 })

/-- The chunk of a flush, and what comes after it. -/
theorem Flush.chunk_append (size : BatchSize) (f : Flush T) :
    f.chunk size ++ f.pending.drop (f.start + size.value) = f.pending.drop f.start := by
  rw [chunk, ← List.drop_drop, List.take_append_drop]

/-- No item, no id. -/
@[simp]
theorem ids_nil : ids ([] : List (Pending T)) = [] := rfl

/-- The ids of a list begin with that of its first item. -/
@[simp]
theorem ids_cons (item : Pending T) (items : List (Pending T)) :
    ids (item :: items) = item.id :: ids items := rfl

/-- The ids of two lists in a row are those of both. -/
@[simp]
theorem ids_append (items items' : List (Pending T)) :
    ids (items ++ items') = ids items ++ ids items' := List.map_append

/-- A chunk falls back before the others. -/
theorem Advanced.after_fallback {s : SimulationBatcher T} {pending : List (Pending T)} {start : ℕ}
    {rest : List (Effect T X V) × SimulationBatcher T} {chunk : List (Pending T)} {next : ℕ}
    (hchunk : chunk ++ pending.drop next = pending.drop start)
    (h : Advanced size { s with fallbacks := s.fallbacks ++ ids chunk } pending next rest) :
    Advanced size s pending start ((ids chunk).map .fellBack ++ rest.1, rest.2) := by
  cases h with
  | finished =>
    have hresult : Advanced size s pending start
        (_ : List (Effect T X V) × SimulationBatcher T) := .finished
    rw [← hchunk, ids_append, List.map_append, ← List.append_assoc] at hresult
    exact hresult
  | sent fallen stop hsupported hleft =>
    have hresult : Advanced size s pending start
        (_ : List (Effect T X V) × SimulationBatcher T) :=
      .sent (chunk ++ fallen) stop hsupported (by rw [← hchunk, hleft, List.append_assoc])
    rw [ids_append, List.map_append, ← List.append_assoc, List.append_assoc] at hresult
    exact hresult

/-- The loop of a flush does one of what it can do; the induction follows its chunks. -/
theorem advance_advanced (size : BatchSize) (s : SimulationBatcher T) (pending : List (Pending T))
    (start : ℕ) :
    Advanced size s pending start
      (advance size s pending start : List (Effect T X V) × SimulationBatcher T) := by
  induction s, start using advance.induct (X := X) (V := V) size pending with
  | case1 s start hstart f chunk hfalls fell ih =>
    rw [advance, if_pos hstart, if_pos hfalls]
    exact ih.after_fallback (f.chunk_append size)
  | case2 s start hstart f chunk hsent =>
    rw [advance, if_pos hstart, if_neg hsent]
    have hresult : Advanced size s pending start
        (_ : List (Effect T X V) × SimulationBatcher T) :=
      .sent [] start (Bool.eq_true_of_not_eq_false fun h => hsent (.inl h)) rfl
    simpa [ids] using hresult
  | case3 s start hstart =>
    rw [advance, if_neg hstart]
    have hresult : Advanced size s pending start
        (_ : List (Effect T X V) × SimulationBatcher T) := .finished
    rw [List.drop_eq_nil_of_le (Nat.le_of_not_lt hstart)] at hresult
    simpa [ids] using hresult

/-- Nothing comes of the input: no flush is queued, or what ends is not under way. -/
def Idle (s : SimulationBatcher T) : Input T X V → Prop
  | .enqueue _ => False
  | .flush => s.queued = 0
  | .reply batch _ => mapGet s.flushes batch = none
  | .returned id _ => id ∉ s.fallbacks

/-- All that a step can do. -/
inductive Stepped (decode : Json → Except X V) (size : BatchSize) (s : SimulationBatcher T) :
    Input T X V → List (Effect T X V) × SimulationBatcher T → Prop where
  | enqueued {transaction : T} (hsupported : s.supported = true) :
      Stepped decode size s (.enqueue transaction) ([],
        { s with
          pending := s.pending ++ [⟨s.reads, transaction⟩]
          queued := if s.pending = [] then s.queued + 1 else s.queued
          reads := s.reads + 1 })
  | passed {transaction : T} (hunsupported : s.supported = false) :
      Stepped decode size s (.enqueue transaction) ([.fellBack s.reads],
        { s with fallbacks := s.fallbacks ++ [s.reads], reads := s.reads + 1 })
  | flushed {result : List (Effect T X V) × SimulationBatcher T} (hqueued : s.queued ≠ 0)
      (hrest : Advanced size { s with pending := [], queued := s.queued - 1 } s.pending 0 result) :
      Stepped decode size s .flush result
  | answered {batch : ℕ} {f : Flush T} {raw : Option Json} {items : List Json}
      {rest : List (Effect T X V) × SimulationBatcher T} (hflush : mapGet s.flushes batch = some f)
      (hcomplete : Complete (f.chunk size).length raw items)
      (hrest : Advanced size { s with flushes := mapDelete s.flushes batch } f.pending
        (f.start + size.value) rest) :
      Stepped decode size s (.reply batch (.resolved raw))
        (items.filterMap (settle decode (f.chunk size)) ++ rest.1, rest.2)
  | abandoned {batch : ℕ} {f : Flush T} {r : Reply}
      {rest : List (Effect T X V) × SimulationBatcher T} (hflush : mapGet s.flushes batch = some f)
      (hincompatible : Incompatible (f.chunk size).length r)
      (hrest : Advanced size
        { s with flushes := mapDelete s.flushes batch, supported := false } f.pending f.start rest) :
      Stepped decode size s (.reply batch r) rest
  | rejected {batch : ℕ} {f : Flush T} {error : ErrorObject}
      {rest : List (Effect T X V) × SimulationBatcher T} (hflush : mapGet s.flushes batch = some f)
      (hsupported : unsupported error = false)
      (hrest : Advanced size { s with flushes := mapDelete s.flushes batch } f.pending
        (f.start + size.value) rest) :
      Stepped decode size s (.reply batch (.rejected error))
        ((f.chunk size).map (fun item => .settled item.id (.error (.error error))) ++ rest.1, rest.2)
  | returned {id : ℕ} {outcome : Except (Thrown X) V} (hmem : id ∈ s.fallbacks) :
      Stepped decode size s (.returned id outcome) ([.settled id outcome],
        { s with fallbacks := s.fallbacks.erase id })
  | idle {i : Input T X V} (hidle : Idle s i) : Stepped decode size s i ([], s)

/-- Enqueueing is one of the steps. -/
theorem enqueue_stepped (s : SimulationBatcher T) (transaction : T) :
    Stepped decode size s (.enqueue transaction) (enqueue s transaction) := by
  cases hsupported : s.supported with
  | false =>
    rw [enqueue, if_pos hsupported]
    exact .passed hsupported
  | true =>
    have hlength : (s.pending ++ [(⟨s.reads, transaction⟩ : Pending T)]).length = 1 ↔
        s.pending = [] := by
      rw [List.length_append, List.length_singleton, Nat.add_eq_right, List.length_eq_zero_iff]
    rw [enqueue, if_neg (by simp [hsupported])]
    simp only [hlength]
    exact .enqueued hsupported

/-- Taking a reply is one of the steps. -/
theorem reply_stepped (s : SimulationBatcher T) (batch : ℕ) (r : Reply) :
    Stepped decode size s (.reply batch r) (reply decode size s batch r) := by
  unfold reply
  cases hflush : mapGet s.flushes batch with
  | none => exact .idle hflush
  | some f =>
    have habandon : Incompatible (f.chunk size).length r →
        Stepped decode size s (.reply batch r)
          (let fell := fallback
            { s with flushes := mapDelete s.flushes batch, supported := false } (f.chunk size)
          let rest := advance size fell.2 f.pending (f.start + size.value)
          (fell.1 ++ rest.1, rest.2)) := fun hincompatible =>
      .abandoned hflush hincompatible
        ((advance_advanced size _ _ _).after_fallback (f.chunk_append size))
    cases r with
    | resolved raw =>
      cases hresponses : responses (f.chunk size).length raw with
      | none =>
        simp only [handle, hresponses]
        refine habandon fun items hcomplete => ?_
        rw [(responses_eq_some_iff ..).mpr hcomplete] at hresponses
        contradiction
      | some items =>
        simp only [handle, hresponses]
        exact .answered hflush ((responses_eq_some_iff ..).mp hresponses) (advance_advanced ..)
    | rejected error =>
      cases hunsupported : unsupported error with
      | true =>
        simp only [handle, hunsupported, if_true]
        exact habandon hunsupported
      | false =>
        simp only [handle, hunsupported, Bool.false_eq_true, if_false]
        exact .rejected hflush hunsupported (advance_advanced ..)

/-- A step does one of these things. -/
theorem step_stepped (decode : Json → Except X V) (size : BatchSize) (s : SimulationBatcher T)
    (i : Input T X V) :
    Stepped decode size s i (step decode size s i) := by
  cases i with
  | enqueue transaction => exact enqueue_stepped s transaction
  | flush =>
    by_cases hqueued : s.queued = 0
    · simp only [step, flush, if_pos hqueued]
      exact .idle hqueued
    · simp only [step, flush, if_neg hqueued]
      exact .flushed hqueued (advance_advanced ..)
  | reply batch r => exact reply_stepped s batch r
  | returned id outcome =>
    by_cases hmem : id ∈ s.fallbacks
    · simp only [step, returned, if_pos hmem]
      exact .returned hmem
    · simp only [step, returned, if_neg hmem]
      exact .idle hmem

/-! ## Where the reads are -/

/-- The reads of flushes whose batch has not been answered. -/
def flushing (flushes : List (ℕ × Flush T)) : List ℕ :=
  flushes.flatMap fun p => ids (p.2.pending.drop p.2.start)

/-- The reads that have not settled: the enqueued ones, those of flushes, and those of fallbacks. -/
def SimulationBatcher.waiting (s : SimulationBatcher T) : List ℕ :=
  ids s.pending ++ flushing s.flushes ++ s.fallbacks

/-- The read that an input brings. -/
def arrivals (s : SimulationBatcher T) : Input T X V → List ℕ
  | .enqueue _ => [s.reads]
  | _ => []

/-- The reads under way are those of one flush and those of the others. -/
theorem flushing_perm {flushes : List (ℕ × Flush T)} (hunique : UniqueKeys flushes) {batch : ℕ}
    {f : Flush T} (hflush : mapGet flushes batch = some f) :
    (flushing flushes).Perm
      (ids (f.pending.drop f.start) ++ flushing (mapDelete flushes batch)) :=
  (hunique.perm_mapDelete (mem_of_mapGet hflush)).flatMap_right _

/-- The loop of a flush settles nothing, and loses nothing. -/
theorem Advanced.waiting_perm {s : SimulationBatcher T} {pending : List (Pending T)} {start : ℕ}
    {result : List (Effect T X V) × SimulationBatcher T}
    (h : Advanced size s pending start result) :
    settledIds result.1 = [] ∧
      result.2.waiting.Perm (s.waiting ++ ids (pending.drop start)) := by
  cases h with
  | finished =>
    refine ⟨settledIds_fellBack _, ?_⟩
    simp only [SimulationBatcher.waiting, List.append_assoc]
    exact .refl _
  | sent fallen stop hsupported hleft =>
    refine ⟨by simp [settledIds], ?_⟩
    rw [List.perm_iff_count]
    intro id
    simp only [SimulationBatcher.waiting, flushing, List.flatMap_append, List.flatMap_singleton,
      hleft, ids_append, List.count_append]
    omega

/-- A rejected chunk settles each of its reads. -/
theorem settledIds_rejected (chunk : List (Pending T)) (error : ErrorObject) :
    settledIds (chunk.map fun item => .settled item.id (.error (.error error)) :
      List (Effect T X V)) = ids chunk := by
  simp [settledIds, ids, List.filterMap_map]

/-- A step takes each read to one place. -/
theorem Stepped.waiting_perm {s : SimulationBatcher T} {i : Input T X V}
    {result : List (Effect T X V) × SimulationBatcher T} (h : Stepped decode size s i result)
    (hunique : UniqueKeys s.flushes) :
    (result.2.waiting ++ settledIds result.1).Perm (s.waiting ++ arrivals s i) := by
  rw [List.perm_iff_count]
  intro id
  cases h with
  | enqueued =>
    simp only [SimulationBatcher.waiting, arrivals, ids_append, ids_cons, ids_nil, settledIds_nil,
      List.count_append, List.count_nil]
    omega
  | passed =>
    rw [show settledIds ([.fellBack s.reads] : List (Effect T X V)) = [] from rfl]
    simp only [SimulationBatcher.waiting, arrivals, List.count_append, List.count_nil]
    omega
  | flushed hqueued hrest =>
    obtain ⟨hsettled, hperm⟩ := hrest.waiting_perm
    have hcount := hperm.count_eq id
    simp only [SimulationBatcher.waiting, arrivals, hsettled, List.count_append, List.count_nil,
      ids_nil, List.drop_zero] at hcount ⊢
    omega
  | @answered batch f raw items rest hflush hcomplete hrest =>
    obtain ⟨hsettled, hperm⟩ := hrest.waiting_perm
    have hcount := hperm.count_eq id
    have hchunk : (settledIds (items.filterMap (settle decode (f.chunk size)))).count id =
        (ids (f.chunk size)).count id := hcomplete.settledIds_perm.count_eq id
    have hflushing := (flushing_perm hunique hflush).count_eq id
    rw [← f.chunk_append size] at hflushing
    simp only [SimulationBatcher.waiting, arrivals, settledIds_append, hsettled, ids_append,
      List.count_append, List.count_nil] at hcount hflushing ⊢
    omega
  | @abandoned batch f r rest hflush hincompatible hrest =>
    obtain ⟨hsettled, hperm⟩ := hrest.waiting_perm
    have hcount := hperm.count_eq id
    have hflushing := (flushing_perm hunique hflush).count_eq id
    simp only [SimulationBatcher.waiting, arrivals, hsettled, List.count_append,
      List.count_nil] at hcount hflushing ⊢
    omega
  | @rejected batch f error rest hflush hsupported hrest =>
    obtain ⟨hsettled, hperm⟩ := hrest.waiting_perm
    have hcount := hperm.count_eq id
    have hflushing := (flushing_perm hunique hflush).count_eq id
    rw [← f.chunk_append size] at hflushing
    simp only [SimulationBatcher.waiting, arrivals, settledIds_append, settledIds_rejected, hsettled,
      ids_append, List.count_append, List.count_nil] at hcount hflushing ⊢
    omega
  | returned hmem =>
    have hcount := (List.perm_cons_erase hmem).count_eq id
    rw [List.count_cons] at hcount
    simp only [SimulationBatcher.waiting, arrivals, settledIds_settled, List.count_append,
      List.count_cons, List.count_nil]
    omega
  | idle hidle =>
    cases i with
    | enqueue => exact hidle.elim
    | _ => rfl

/-! ## What is under way -/

/-- The transactions of the reads, in the order in which they are enqueued. -/
def enqueued (inputs : List (Input T X V)) : List T :=
  inputs.filterMap fun
    | .enqueue transaction => some transaction
    | _ => none

/-- The provider has been called with a batch of these transactions, and has not answered. -/
def Calling (decode : Json → Except X V) (size : BatchSize) (inputs : List (Input T X V))
    (batch : ℕ) (transactions : List T) : Prop :=
  ∃ before i after, inputs = before ++ i :: after ∧
    .sent batch transactions ∈ effects decode size before i ∧ ∀ r, .reply batch r ∉ after

/-- The fallback of the read has been called, and has not settled. -/
def Awaiting (decode : Json → Except X V) (size : BatchSize) (inputs : List (Input T X V))
    (id : ℕ) : Prop :=
  ∃ before i after, inputs = before ++ i :: after ∧
    .fellBack id ∈ effects decode size before i ∧ ∀ outcome, .returned id outcome ∉ after

variable {inputs : List (Input T X V)} {i : Input T X V}

/-- A call of the provider stays open under inputs that are not its reply. -/
theorem Calling.concat {batch : ℕ} {transactions : List T}
    (h : Calling decode size inputs batch transactions) (hi : ∀ r, i ≠ .reply batch r) :
    Calling decode size (inputs ++ [i]) batch transactions := by
  obtain ⟨before, j, after, rfl, hsent, hopen⟩ := h
  refine ⟨before, j, after ++ [i], by simp, hsent, fun r hr => ?_⟩
  rcases mem_concat.mp hr with hmem | hlast
  · exact hopen r hmem
  · exact hi r hlast.symm

/-- A fallback stays open under inputs that are not its outcome. -/
theorem Awaiting.concat {id : ℕ} (h : Awaiting decode size inputs id)
    (hi : ∀ outcome, i ≠ .returned id outcome) : Awaiting decode size (inputs ++ [i]) id := by
  obtain ⟨before, j, after, rfl, hfell, hopen⟩ := h
  refine ⟨before, j, after ++ [i], by simp, hfell, fun outcome hr => ?_⟩
  rcases mem_concat.mp hr with hmem | hlast
  · exact hopen outcome hmem
  · exact hi outcome hlast.symm

/-- The loop of a flush leaves the other flushes, and may add its own. -/
theorem Advanced.mem_flushes {s : SimulationBatcher T} {pending : List (Pending T)} {start : ℕ}
    {result : List (Effect T X V) × SimulationBatcher T}
    (h : Advanced size s pending start result) {p : ℕ × Flush T} (hp : p ∈ result.2.flushes) :
    p ∈ s.flushes ∨ (p.2.pending = pending ∧
      .sent p.1 ((p.2.chunk size).map Pending.transaction) ∈ result.1) := by
  cases h with
  | finished => exact .inl hp
  | sent fallen stop =>
    rcases mem_concat.mp hp with hold | rfl
    · exact .inl hold
    · exact .inr ⟨rfl, List.mem_append_right _ List.mem_cons_self⟩

/-- The flushes of a batcher have numbers of their own. -/
def Numbered (s : SimulationBatcher T) : Prop :=
  UniqueKeys s.flushes ∧ ∀ p ∈ s.flushes, p.1 < s.batches

/-- With fewer flushes the numbers stay their own. -/
theorem Numbered.sublist {s s' : SimulationBatcher T} (h : Numbered s)
    (hsub : s'.flushes.Sublist s.flushes) (hbatches : s.batches = s'.batches) : Numbered s' :=
  ⟨h.1.sublist hsub, fun p hp => hbatches ▸ h.2 p (hsub.subset hp)⟩

/-- The loop of a flush keeps the numbers of flushes apart. -/
theorem Advanced.numbered {s : SimulationBatcher T} {pending : List (Pending T)} {start : ℕ}
    {result : List (Effect T X V) × SimulationBatcher T}
    (h : Advanced size s pending start result) (hs : Numbered s) : Numbered result.2 := by
  cases h with
  | finished => exact hs
  | sent =>
    refine ⟨hs.1.append fun hmem => ?_, fun p hp => ?_⟩
    · obtain ⟨p, hp, heq⟩ := List.mem_map.mp hmem
      exact (hs.2 p hp).ne heq
    · rcases mem_concat.mp hp with hold | rfl
      · exact Nat.lt_succ_of_lt (hs.2 p hold)
      · exact Nat.lt_succ_self _

/-- What the loop of a flush leaves as it is. -/
theorem Advanced.frame {s : SimulationBatcher T} {pending : List (Pending T)} {start : ℕ}
    {result : List (Effect T X V) × SimulationBatcher T}
    (h : Advanced size s pending start result) :
    result.2.pending = s.pending ∧ result.2.queued = s.queued ∧ result.2.reads = s.reads ∧
      result.2.supported = s.supported ∧ result.2.fallbacks = s.fallbacks ++ fellIds result.1 := by
  cases h with
  | finished => simp
  | sent => simp [fellIds]

/-- A read falls back exactly when its fallback is called. -/
theorem mem_fellIds {es : List (Effect T X V)} {id : ℕ} :
    id ∈ fellIds es ↔ .fellBack id ∈ es := by
  constructor
  · intro h
    obtain ⟨e, he, hid⟩ := List.mem_filterMap.mp h
    cases e with
    | fellBack id' =>
      obtain rfl := Option.some.inj hid
      exact he
    | _ => contradiction
  · exact fun h => List.mem_filterMap.mpr ⟨_, h, rfl⟩

/-- A read settles exactly when some outcome is given to it. -/
theorem mem_settledIds {es : List (Effect T X V)} {id : ℕ} :
    id ∈ settledIds es ↔ ∃ outcome, .settled id outcome ∈ es := by
  constructor
  · intro h
    obtain ⟨e, he, hid⟩ := List.mem_filterMap.mp h
    cases e with
    | settled id' outcome =>
      obtain rfl := Option.some.inj hid
      exact ⟨outcome, he⟩
    | _ => contradiction
  · rintro ⟨outcome, h⟩
    exact List.mem_filterMap.mpr ⟨_, h, rfl⟩

section Stepped

variable {s : SimulationBatcher T} {result : List (Effect T X V) × SimulationBatcher T}

/-- Every step keeps the numbers of flushes apart. -/
theorem Stepped.numbered (h : Stepped decode size s i result) (hs : Numbered s) :
    Numbered result.2 := by
  cases h with
  | enqueued => exact hs
  | passed => exact hs
  | flushed hqueued hrest => exact hrest.numbered (hs.sublist (List.Sublist.refl _) rfl)
  | answered hflush hcomplete hrest => exact hrest.numbered (hs.sublist List.filter_sublist rfl)
  | abandoned hflush hincompatible hrest =>
    exact hrest.numbered (hs.sublist List.filter_sublist rfl)
  | rejected hflush hsupported hrest => exact hrest.numbered (hs.sublist List.filter_sublist rfl)
  | returned => exact hs
  | idle => exact hs

/-- A flush has been there before, with its batch unanswered, or it has just sent its batch. -/
theorem Stepped.mem_flushes (h : Stepped decode size s i result) (hs : Numbered s)
    {p : ℕ × Flush T} (hp : p ∈ result.2.flushes) :
    (p ∈ s.flushes ∧ ∀ r, i ≠ .reply p.1 r) ∨
      ((p.2.pending = s.pending ∨ ∃ q ∈ s.flushes, p.2.pending = q.2.pending) ∧
        .sent p.1 ((p.2.chunk size).map Pending.transaction) ∈ result.1) := by
  have hother : ∀ {batch : ℕ} {r' : Reply}, p ∈ mapDelete s.flushes batch →
      p ∈ s.flushes ∧ ∀ r, (.reply batch r' : Input T X V) ≠ .reply p.1 r := fun hmem =>
    have hkept := mem_mapDelete.mp hmem
    ⟨hkept.1, fun r heq => hkept.2 (Input.reply.inj heq).1.symm⟩
  cases h with
  | enqueued => exact .inl ⟨hp, fun r heq => by contradiction⟩
  | passed => exact .inl ⟨hp, fun r heq => by contradiction⟩
  | flushed hqueued hrest =>
    rcases hrest.mem_flushes hp with hold | ⟨hpending, hsent⟩
    · exact .inl ⟨hold, fun r heq => by contradiction⟩
    · exact .inr ⟨.inl hpending, hsent⟩
  | answered hflush hcomplete hrest =>
    rcases hrest.mem_flushes hp with hold | ⟨hpending, hsent⟩
    · exact .inl (hother hold)
    · exact .inr ⟨.inr ⟨_, mem_of_mapGet hflush, hpending⟩, List.mem_append_right _ hsent⟩
  | abandoned hflush hincompatible hrest =>
    rcases hrest.mem_flushes hp with hold | ⟨hpending, hsent⟩
    · exact .inl (hother hold)
    · exact .inr ⟨.inr ⟨_, mem_of_mapGet hflush, hpending⟩, hsent⟩
  | rejected hflush hsupported hrest =>
    rcases hrest.mem_flushes hp with hold | ⟨hpending, hsent⟩
    · exact .inl (hother hold)
    · exact .inr ⟨.inr ⟨_, mem_of_mapGet hflush, hpending⟩, List.mem_append_right _ hsent⟩
  | returned => exact .inl ⟨hp, fun r heq => by contradiction⟩
  | idle hidle =>
    refine .inl ⟨hp, fun r heq => ?_⟩
    subst heq
    have hnone : mapGet s.flushes p.1 = none := hidle
    rw [mapGet_of_mem hs.1 hp] at hnone
    contradiction

/-- Settling the items of an answer calls no fallback. -/
theorem fellIds_settle (chunk : List (Pending T)) (items : List Json) :
    fellIds (items.filterMap (settle decode chunk)) = [] := by
  rw [fellIds, List.filterMap_filterMap, List.filterMap_eq_nil_iff]
  intro item _
  simp only [settle, Option.bind_map]
  cases (index item).bind fun i => chunk[i]? <;> rfl

/-- Rejecting a chunk calls no fallback. -/
theorem fellIds_rejected (chunk : List (Pending T)) (error : ErrorObject) :
    fellIds (chunk.map fun item => .settled item.id (.error (.error error)) :
      List (Effect T X V)) = [] := by
  simp [fellIds, List.filterMap_map]

/-- The reads whose fallback is called come to those whose fallback has not settled. -/
theorem Stepped.fallbacks (h : Stepped decode size s i result) :
    (∃ id outcome, i = .returned id outcome ∧ id ∈ s.fallbacks ∧
      result.2.fallbacks = s.fallbacks.erase id ∧ result.1 = [.settled id outcome]) ∨
    ((∀ id outcome, i = .returned id outcome → id ∉ s.fallbacks) ∧
      result.2.fallbacks = s.fallbacks ++ fellIds result.1) := by
  cases h with
  | enqueued => exact .inr ⟨fun id outcome heq => by contradiction, (List.append_nil _).symm⟩
  | passed => exact .inr ⟨fun id outcome heq => by contradiction, rfl⟩
  | flushed hqueued hrest =>
    exact .inr ⟨fun id outcome heq => by contradiction, hrest.frame.2.2.2.2⟩
  | answered hflush hcomplete hrest =>
    refine .inr ⟨fun id outcome heq => by contradiction, ?_⟩
    rw [fellIds_append, fellIds_settle]
    exact hrest.frame.2.2.2.2
  | abandoned hflush hincompatible hrest =>
    exact .inr ⟨fun id outcome heq => by contradiction, hrest.frame.2.2.2.2⟩
  | rejected hflush hsupported hrest =>
    refine .inr ⟨fun id outcome heq => by contradiction, ?_⟩
    rw [fellIds_append, fellIds_rejected]
    exact hrest.frame.2.2.2.2
  | returned hmem => exact .inl ⟨_, _, rfl, hmem, rfl, rfl⟩
  | idle hidle =>
    refine .inr ⟨fun id outcome heq => ?_, (List.append_nil _).symm⟩
    subst heq
    exact hidle

/-- A flush is queued exactly when reads are enqueued for it. -/
def Queued (s : SimulationBatcher T) : Prop := s.queued = if s.pending = [] then 0 else 1

/-- The loop of a flush leaves the queue as it is. -/
theorem Advanced.queued {pending : List (Pending T)} {start : ℕ}
    (h : Advanced size s pending start result) (hs : Queued s) : Queued result.2 := by
  rw [Queued, h.frame.1, h.frame.2.1]
  exact hs

/-- After every step a flush is queued exactly when reads are enqueued for it. -/
theorem Stepped.queued (h : Stepped decode size s i result) (hs : Queued s) : Queued result.2 := by
  cases h with
  | enqueued =>
    rw [Queued] at hs ⊢
    by_cases hempty : s.pending = [] <;> simp_all
  | passed => exact hs
  | flushed hqueued hrest =>
    refine hrest.queued ?_
    rw [Queued] at hs ⊢
    split at hs <;> simp_all
  | answered hflush hcomplete hrest => exact hrest.queued hs
  | abandoned hflush hincompatible hrest => exact hrest.queued hs
  | rejected hflush hsupported hrest => exact hrest.queued hs
  | returned => exact hs
  | idle => exact hs

/-- Every step counts the reads that arrive. -/
theorem Stepped.reads (h : Stepped decode size s i result) :
    result.2.reads = s.reads + (arrivals s i).length := by
  cases h with
  | enqueued => rfl
  | passed => rfl
  | flushed hqueued hrest => exact hrest.frame.2.2.1
  | answered hflush hcomplete hrest => exact hrest.frame.2.2.1
  | abandoned hflush hincompatible hrest => exact hrest.frame.2.2.1
  | rejected hflush hsupported hrest => exact hrest.frame.2.2.1
  | returned => rfl
  | idle hidle =>
    cases i with
    | enqueue => exact hidle.elim
    | _ => rfl

/-- The reads that are enqueued after a step have been there before, or the input brings one. -/
theorem Stepped.mem_pending (h : Stepped decode size s i result) {item : Pending T}
    (hitem : item ∈ result.2.pending) :
    item ∈ s.pending ∨ (item.id = s.reads ∧ i = .enqueue item.transaction) := by
  cases h with
  | enqueued =>
    rcases mem_concat.mp hitem with hold | rfl
    · exact .inl hold
    · exact .inr ⟨rfl, rfl⟩
  | passed => exact .inl hitem
  | flushed hqueued hrest =>
    rw [hrest.frame.1] at hitem
    exact absurd hitem List.not_mem_nil
  | answered hflush hcomplete hrest => exact .inl (hrest.frame.1 ▸ hitem)
  | abandoned hflush hincompatible hrest => exact .inl (hrest.frame.1 ▸ hitem)
  | rejected hflush hsupported hrest => exact .inl (hrest.frame.1 ▸ hitem)
  | returned => exact .inl hitem
  | idle => exact .inl hitem

/-- A fallback that has not settled has not settled before, or it has just been called. -/
theorem Stepped.mem_fallbacks (h : Stepped decode size s i result) (hnodup : s.fallbacks.Nodup)
    {id : ℕ} (hid : id ∈ result.2.fallbacks) :
    (id ∈ s.fallbacks ∧ ∀ outcome, i ≠ .returned id outcome) ∨ .fellBack id ∈ result.1 := by
  rcases h.fallbacks with ⟨id', outcome, rfl, -, herase, -⟩ | ⟨habsent, happend⟩
  · rw [herase] at hid
    obtain ⟨hne, hold⟩ := (List.Nodup.mem_erase_iff hnodup).mp hid
    exact .inl ⟨hold, fun outcome' heq => hne (Input.returned.inj heq).1.symm⟩
  · rw [happend] at hid
    rcases List.mem_append.mp hid with hold | hnew
    · exact .inl ⟨hold, fun outcome heq => habsent id outcome heq hold⟩
    · exact .inr (mem_fellIds.mp hnew)

/-- A fallback that has been called is under way, or its read has settled. -/
theorem Stepped.mem_fallbacks_or (h : Stepped decode size s i result) {id : ℕ}
    (hid : id ∈ s.fallbacks ∨ id ∈ fellIds result.1) :
    id ∈ result.2.fallbacks ∨ id ∈ settledIds result.1 := by
  rcases h.fallbacks with ⟨id', outcome, -, -, herase, hsettled⟩ | ⟨-, happend⟩
  · rw [herase, hsettled]
    rw [hsettled] at hid
    rcases hid with hold | hnew
    · by_cases heq : id = id'
      · exact .inr (List.mem_singleton.mpr heq)
      · exact .inl ((List.mem_erase_of_ne heq).mpr hold)
    · contradiction
  · rw [happend]
    exact .inl (List.mem_append.mpr hid)

end Stepped

/-- The invariant of a batcher. -/
structure Sound (decode : Json → Except X V) (size : BatchSize) (inputs : List (Input T X V))
    (s : SimulationBatcher T) (es : List (Effect T X V)) : Prop where
  placed : (s.waiting ++ settledIds es).Perm (List.range s.reads)
  numbered : Numbered s
  queued : Queued s
  reads : s.reads = (enqueued inputs).length
  pending : ∀ item ∈ s.pending, (enqueued inputs)[item.id]? = some item.transaction
  flushing : ∀ p ∈ s.flushes, ∀ item ∈ p.2.pending,
    (enqueued inputs)[item.id]? = some item.transaction
  calling : ∀ p ∈ s.flushes,
    Calling decode size inputs p.1 ((p.2.chunk size).map Pending.transaction)
  awaiting : ∀ id ∈ s.fallbacks, Awaiting decode size inputs id
  fell : ∀ id ∈ fellIds es, id ∈ s.fallbacks ∨ id ∈ settledIds es

/-- One more input enqueues its read after those before it. -/
theorem enqueued_concat (inputs : List (Input T X V)) (i : Input T X V) :
    enqueued (inputs ++ [i]) = enqueued inputs ++ enqueued [i] := List.filterMap_append

/-- An input lets as many reads arrive as it enqueues. -/
theorem length_arrivals (s : SimulationBatcher T) (i : Input T X V) :
    (arrivals s i).length = (enqueued [i]).length := by
  cases i <;> rfl

/-- The reads that arrive get the next numbers. -/
theorem range_arrivals (s : SimulationBatcher T) (i : Input T X V) :
    List.range s.reads ++ arrivals s i = List.range (s.reads + (arrivals s i).length) := by
  cases i with
  | enqueue => exact List.range_succ.symm
  | _ => exact List.append_nil _

namespace Sound

variable {s : SimulationBatcher T} {es : List (Effect T X V)}

/-- No read both waits and has settled, and none does either twice. -/
theorem nodup (h : Sound decode size inputs s es) : (s.waiting ++ settledIds es).Nodup :=
  h.placed.nodup_iff.mpr List.nodup_range

/-- No read has two fallbacks under way. -/
theorem nodup_fallbacks (h : Sound decode size inputs s es) : s.fallbacks.Nodup :=
  ((List.nodup_append.mp (List.nodup_append.mp h.nodup).1).2).1

/-- An unused batcher is sound. -/
theorem empty (decode : Json → Except X V) (size : BatchSize) :
    Sound decode size ([] : List (Input T X V)) .empty [] where
  placed := .refl _
  numbered := ⟨List.nodup_nil, fun _ h => absurd h List.not_mem_nil⟩
  queued := rfl
  reads := rfl
  pending _ h := absurd h List.not_mem_nil
  flushing _ h := absurd h List.not_mem_nil
  calling _ h := absurd h List.not_mem_nil
  awaiting _ h := absurd h List.not_mem_nil
  fell _ h := absurd h List.not_mem_nil

/-- What is known of the transaction of a read stays known. -/
theorem enqueued_mono {k : ℕ} {transaction : T} (h : (enqueued inputs)[k]? = some transaction)
    (i : Input T X V) : (enqueued (inputs ++ [i]))[k]? = some transaction := by
  rw [enqueued_concat, List.getElem?_append_left (List.getElem?_eq_some_iff.mp h).1]
  exact h

/-- A step keeps the invariant. -/
theorem step (h : Sound decode size inputs (run decode size inputs) (history decode size inputs))
    (i : Input T X V) :
    Sound decode size (inputs ++ [i]) (run decode size (inputs ++ [i]))
      (history decode size (inputs ++ [i])) := by
  have hstep := step_stepped decode size (run decode size inputs) i
  rw [run_concat, history_concat, effects]
  set s := run decode size inputs with hs
  set es := history decode size inputs with hes
  have heffects : effects decode size inputs i = (Batch.step decode size s i).1 := rfl
  generalize hresult : Batch.step decode size s i = result at hstep heffects
  exact {
    placed := by
      have hwaiting := hstep.waiting_perm h.numbered.1
      rw [hstep.reads, ← range_arrivals, settledIds_append]
      rw [List.perm_iff_count] at hwaiting ⊢
      intro id
      have hbefore := h.placed.count_eq id
      have hafter := hwaiting id
      simp only [List.count_append] at hbefore hafter ⊢
      omega
    numbered := hstep.numbered h.numbered
    queued := hstep.queued h.queued
    reads := by
      rw [hstep.reads, h.reads, length_arrivals, enqueued_concat, List.length_append]
    pending := fun item hitem => by
      rcases hstep.mem_pending hitem with hold | ⟨hid, rfl⟩
      · exact enqueued_mono (h.pending item hold) i
      · rw [hid, h.reads, enqueued_concat]
        exact List.getElem?_concat_length
    flushing := fun p hp item hitem => by
      rcases hstep.mem_flushes h.numbered hp with ⟨hold, -⟩ | ⟨hpending | ⟨q, hq, hpending⟩, -⟩
      · exact enqueued_mono (h.flushing p hold item hitem) i
      · exact enqueued_mono (h.pending item (hpending ▸ hitem)) i
      · exact enqueued_mono (h.flushing q hq item (hpending ▸ hitem)) i
    calling := fun p hp => by
      rcases hstep.mem_flushes h.numbered hp with ⟨hold, hopen⟩ | ⟨-, hsent⟩
      · exact (h.calling p hold).concat hopen
      · exact ⟨inputs, i, [], rfl, heffects ▸ hsent, fun r hr => absurd hr List.not_mem_nil⟩
    awaiting := fun id hid => by
      rcases hstep.mem_fallbacks h.nodup_fallbacks hid with ⟨hold, hopen⟩ | hfell
      · exact (h.awaiting id hold).concat hopen
      · exact ⟨inputs, i, [], rfl, heffects ▸ hfell, fun _ hr => absurd hr List.not_mem_nil⟩
    fell := fun id hid => by
      rw [fellIds_append, List.mem_append] at hid
      rw [settledIds_append, List.mem_append]
      have hknown : id ∈ s.fallbacks ∨ id ∈ settledIds es ∨ id ∈ fellIds result.1 := by
        rcases hid with hold | hnew
        · exact (h.fell id hold).imp_right .inl
        · exact .inr (.inr hnew)
      rcases hknown with hwaits | hsettled | hnew
      · exact (hstep.mem_fallbacks_or (.inl hwaits)).imp_right .inr
      · exact .inr (.inl hsettled)
      · exact (hstep.mem_fallbacks_or (.inr hnew)).imp_right .inr }

end Sound

/-- The invariant holds after every row of inputs. -/
theorem sound_run (decode : Json → Except X V) (size : BatchSize) (inputs : List (Input T X V)) :
    Sound decode size inputs (run decode size inputs) (history decode size inputs) := by
  induction inputs using List.reverseRecOn with
  | nil => exact .empty decode size
  | append_singleton inputs i ih => exact ih.step i

/-! ## Who settles a read -/

/-- What settles a read, and how: the one response for its index in its batch, the error of the call
of the provider with its batch, or its fallback. -/
inductive SettledBy (decode : Json → Except X V) (size : BatchSize) (inputs : List (Input T X V)) :
    Input T X V → ℕ → Except (Thrown X) V → Prop where
  | response {batch : ℕ} {f : Flush T} {items : List Json} {i : ℕ} {item : Pending T}
      {response : Json} (hflush : (batch, f) ∈ (run decode size inputs).flushes)
      (hitem : (f.chunk size)[i]? = some item)
      (hresponse : items.filter (fun response => index response = some i) = [response]) :
      SettledBy decode size inputs (.reply batch (.resolved (some (.array items)))) item.id
        (outcome decode response)
  | transport {batch : ℕ} {f : Flush T} {item : Pending T} {error : ErrorObject}
      (hflush : (batch, f) ∈ (run decode size inputs).flushes) (hitem : item ∈ f.chunk size)
      (hsupported : unsupported error = false) :
      SettledBy decode size inputs (.reply batch (.rejected error)) item.id (.error (.error error))
  | fallback {id : ℕ} {outcome : Except (Thrown X) V}
      (hfallback : Awaiting decode size inputs id) :
      SettledBy decode size inputs (.returned id outcome) id outcome

/-- The loop of a flush settles no read. -/
theorem Advanced.settled_notMem {s : SimulationBatcher T} {pending : List (Pending T)} {start : ℕ}
    {result : List (Effect T X V) × SimulationBatcher T}
    (h : Advanced size s pending start result) {id : ℕ} {outcome : Except (Thrown X) V} :
    .settled id outcome ∉ result.1 := fun hmem =>
  absurd (mem_settledIds.mpr ⟨outcome, hmem⟩) (h.waiting_perm.1 ▸ List.not_mem_nil)

/-- A read settles at an input only by its response, its batch's failure or its fallback's
outcome. -/
theorem settledBy_of_mem {id : ℕ} {outcome : Except (Thrown X) V}
    (h : .settled id outcome ∈ effects decode size inputs i) :
    SettledBy decode size inputs i id outcome := by
  have hsound := sound_run decode size inputs
  have hstep := step_stepped decode size (run decode size inputs) i
  rw [effects] at h
  generalize step decode size (run decode size inputs) i = result at hstep h
  cases hstep with
  | enqueued => contradiction
  | passed => simp at h
  | flushed hqueued hrest => exact absurd h hrest.settled_notMem
  | @answered batch f raw items rest hflush hcomplete hrest =>
    have hsettled := (List.mem_append.mp h).resolve_right hrest.settled_notMem
    obtain ⟨response, hresponse, heq⟩ := List.mem_filterMap.mp hsettled
    obtain ⟨item, hitem, hsame⟩ := Option.map_eq_some_iff.mp heq
    obtain ⟨rfl, rfl⟩ := Effect.settled.inj hsame
    obtain ⟨i, hindex, hget⟩ := Option.bind_eq_some_iff.mp hitem
    obtain ⟨rfl, -, -⟩ := id hcomplete
    obtain ⟨only, honly⟩ := hcomplete.exists_response (List.getElem?_eq_some_iff.mp hget).1
    have hmem : response ∈ items.filter fun response => index response = some i :=
      List.mem_filter.mpr ⟨hresponse, decide_eq_true hindex⟩
    rw [honly, List.mem_singleton] at hmem
    obtain rfl := hmem
    exact .response (mem_of_mapGet hflush) hget honly
  | abandoned hflush hincompatible hrest => exact absurd h hrest.settled_notMem
  | rejected hflush hsupported hrest =>
    have hsettled := (List.mem_append.mp h).resolve_right hrest.settled_notMem
    obtain ⟨item, hitem, heq⟩ := List.mem_map.mp hsettled
    obtain ⟨rfl, rfl⟩ := Effect.settled.inj heq
    exact .transport (mem_of_mapGet hflush) hitem hsupported
  | returned hmem =>
    obtain ⟨rfl, rfl⟩ := Effect.settled.inj (List.mem_singleton.mp h)
    exact .fallback (hsound.awaiting _ hmem)
  | idle => contradiction

/-- The reads of a chunk are among those that the flush has left. -/
theorem ids_chunk_subset (size : BatchSize) (f : Flush T) {item : Pending T}
    (hitem : item ∈ f.chunk size) : item.id ∈ ids (f.pending.drop f.start) :=
  List.mem_map_of_mem (List.mem_of_mem_take hitem)

/-- A read whose fallback has been called is not settled by anything else. -/
theorem returned_of_fell {id : ℕ} {outcome : Except (Thrown X) V}
    (hfell : .fellBack id ∈ history decode size inputs)
    (h : .settled id outcome ∈ effects decode size inputs i) : i = .returned id outcome := by
  have hsound := sound_run decode size inputs
  have hgone : ∀ {batch : ℕ} {f : Flush T} {item : Pending T},
      (batch, f) ∈ (run decode size inputs).flushes → item ∈ f.chunk size → item.id ≠ id := by
    rintro batch f item hflush hitem rfl
    have hflushing : item.id ∈ flushing (run decode size inputs).flushes :=
      List.mem_flatMap.mpr ⟨_, hflush, ids_chunk_subset size f hitem⟩
    obtain ⟨hwaiting, -, hdisjoint⟩ := List.nodup_append.mp hsound.nodup
    rcases hsound.fell _ (mem_fellIds.mpr hfell) with hwaits | hsettled
    · exact (List.nodup_append.mp hwaiting).2.2 _ (List.mem_append_right _ hflushing) _ hwaits rfl
    · exact hdisjoint _ (List.mem_append_left _ (List.mem_append_right _ hflushing)) _ hsettled rfl
  cases settledBy_of_mem h with
  | response hflush hitem => exact absurd rfl (hgone hflush (List.mem_of_getElem? hitem))
  | transport hflush hitem => exact absurd rfl (hgone hflush hitem)
  | fallback => rfl

/-- When batches are not sent any more, the loop of a flush calls the fallbacks of all its reads. -/
theorem Advanced.of_unsupported {s : SimulationBatcher T} {pending : List (Pending T)} {start : ℕ}
    {result : List (Effect T X V) × SimulationBatcher T}
    (h : Advanced size s pending start result) (hs : s.supported = false) :
    result.1 = (ids (pending.drop start)).map .fellBack := by
  cases h with
  | finished => rfl
  | sent fallen stop hsupported => exact absurd (hs.symm.trans hsupported) Bool.false_ne_true

/-- When the call of the provider for a batch ends, each read of the batch settles or falls back. -/
theorem handled_of_reply {batch : ℕ} {f : Flush T}
    (hflush : (batch, f) ∈ (run decode size inputs).flushes) (r : Reply) {item : Pending T}
    (hitem : item ∈ f.chunk size) :
    (∃ outcome, .settled item.id outcome ∈ effects decode size inputs (.reply batch r)) ∨
      .fellBack item.id ∈ effects decode size inputs (.reply batch r) := by
  have hsound := sound_run decode size inputs
  have hget := mapGet_of_mem hsound.numbered.1 hflush
  have hstep := step_stepped decode size (run decode size inputs)
    (.reply batch r)
  have hid : item.id ∈ ids (f.chunk size) := List.mem_map_of_mem hitem
  rw [effects, ← mem_settledIds]
  generalize step decode size (run decode size inputs) (.reply batch r) = result at hstep
  cases hstep with
  | answered hflush' hcomplete hrest =>
    obtain rfl := Option.some.inj (hget.symm.trans hflush')
    rw [settledIds_append]
    exact .inl (List.mem_append_left _ (hcomplete.settledIds_perm.mem_iff.mpr hid))
  | abandoned hflush' hincompatible hrest =>
    obtain rfl := Option.some.inj (hget.symm.trans hflush')
    rw [hrest.of_unsupported rfl]
    exact .inr (List.mem_map_of_mem (ids_chunk_subset size f hitem))
  | rejected hflush' hsupported hrest =>
    obtain rfl := Option.some.inj (hget.symm.trans hflush')
    rw [settledIds_append, settledIds_rejected]
    exact .inl (List.mem_append_left _ hid)
  | idle hidle => exact absurd (hget.symm.trans hidle) (Option.some_ne_none f)

/-! ## No further batch -/

/-- Without support the loop of a flush sends no batch. -/
theorem Advanced.sent_notMem {s : SimulationBatcher T} {pending : List (Pending T)} {start : ℕ}
    {result : List (Effect T X V) × SimulationBatcher T}
    (h : Advanced size s pending start result) (hs : s.supported = false) (batch : ℕ)
    (transactions : List T) : .sent batch transactions ∉ result.1 := by
  rw [h.of_unsupported hs]
  intro hmem
  obtain ⟨id, -, heq⟩ := List.mem_map.mp hmem
  contradiction

/-- When batches are not sent any more, that stays so, and a read that is enqueued falls back. -/
theorem Stepped.unsupported {s : SimulationBatcher T}
    {result : List (Effect T X V) × SimulationBatcher T} (h : Stepped decode size s i result)
    (hs : s.supported = false) :
    result.2.supported = false ∧ (∀ batch transactions, .sent batch transactions ∉ result.1) ∧
      ∀ transaction, i = .enqueue transaction → .fellBack s.reads ∈ result.1 := by
  cases h with
  | enqueued hsupported => exact absurd (hs.symm.trans hsupported) Bool.false_ne_true
  | passed => exact ⟨hs, by simp, fun _ _ => List.mem_cons_self⟩
  | flushed hqueued hrest =>
    exact ⟨hrest.frame.2.2.2.1.trans hs, hrest.sent_notMem hs, fun _ heq => by contradiction⟩
  | answered hflush hcomplete hrest =>
    refine ⟨hrest.frame.2.2.2.1.trans hs, fun batch transactions hmem => ?_,
      fun _ heq => by contradiction⟩
    rcases List.mem_append.mp hmem with hsettled | hlater
    · obtain ⟨response, -, heq⟩ := List.mem_filterMap.mp hsettled
      obtain ⟨item, -, hsame⟩ := Option.map_eq_some_iff.mp heq
      contradiction
    · exact hrest.sent_notMem hs batch transactions hlater
  | abandoned hflush hincompatible hrest =>
    exact ⟨hrest.frame.2.2.2.1, hrest.sent_notMem rfl, fun _ heq => by contradiction⟩
  | rejected hflush hsupported hrest =>
    refine ⟨hrest.frame.2.2.2.1.trans hs, fun batch transactions hmem => ?_,
      fun _ heq => by contradiction⟩
    rcases List.mem_append.mp hmem with hsettled | hlater
    · obtain ⟨item, -, heq⟩ := List.mem_map.mp hsettled
      contradiction
    · exact hrest.sent_notMem hs batch transactions hlater
  | returned => exact ⟨hs, by simp, fun _ heq => by contradiction⟩
  | idle hidle =>
    refine ⟨hs, fun _ _ => List.not_mem_nil, fun transaction heq => ?_⟩
    subst heq
    exact hidle.elim

/-- An answer of a provider that does not support batches is the last batch. -/
theorem unsupported_of_reply {batch : ℕ} {f : Flush T} {r : Reply}
    (hflush : (batch, f) ∈ (run decode size inputs).flushes)
    (hr : Incompatible (f.chunk size).length r) :
    (run decode size (inputs ++ [.reply batch r])).supported = false ∧
      ∀ later transactions,
        .sent later transactions ∉ effects decode size inputs (.reply batch r) := by
  have hget := mapGet_of_mem (sound_run decode size inputs).numbered.1 hflush
  have hstep := step_stepped decode size (run decode size inputs)
    (.reply batch r)
  rw [run_concat, effects]
  generalize step decode size (run decode size inputs) (.reply batch r) = result at hstep
  cases hstep with
  | answered hflush' hcomplete =>
    obtain rfl := Option.some.inj (hget.symm.trans hflush')
    exact absurd hcomplete (hr _)
  | abandoned hflush' hincompatible hrest =>
    exact ⟨hrest.frame.2.2.2.1, hrest.sent_notMem rfl⟩
  | rejected hflush' hsupported => exact absurd (hsupported.symm.trans hr) Bool.false_ne_true
  | idle hidle => exact absurd (hget.symm.trans hidle) (Option.some_ne_none f)

/-- Support that is given up is never taken back. -/
theorem unsupported_run (h : (run decode size inputs).supported = false)
    (later : List (Input T X V)) : (run decode size (inputs ++ later)).supported = false := by
  induction later using List.reverseRecOn with
  | nil => rw [List.append_nil]; exact h
  | append_singleton later i ih =>
    rw [← List.append_assoc, run_concat]
    exact ((step_stepped decode size _ i).unsupported ih).1

/-- A step keeps the batches if it is not the answer of a provider that does not support them. -/
theorem Stepped.supported {s : SimulationBatcher T} {i : Input T X V}
    {result : List (Effect T X V) × SimulationBatcher T} (h : Stepped decode size s i result)
    (hs : s.supported = true)
    (hi : ∀ batch r, i = .reply batch r → ∀ length, ¬ Incompatible length r) :
    result.2.supported = true := by
  cases h with
  | enqueued | passed | returned | idle => exact hs
  | flushed hqueued hrest => exact hrest.frame.2.2.2.1.trans hs
  | answered hflush hcomplete hrest => exact hrest.frame.2.2.2.1.trans hs
  | abandoned hflush hincompatible hrest => exact absurd hincompatible (hi _ _ rfl _)
  | rejected hflush hsupported hrest => exact hrest.frame.2.2.2.1.trans hs

/-- Batches that are aborted before their answers have been read never make the batcher give up
batches. -/
theorem supported_of_aborted
    (h : ∀ batch r, .reply batch r ∈ inputs → ∃ fetched,
      (∀ status body, fetched ≠ .response status (.ok body)) ∧ r = postSimulationBatch fetched true) :
    (run decode size inputs).supported = true := by
  induction inputs using List.reverseRecOn with
  | nil => rfl
  | append_singleton inputs i ih =>
    have hbefore := ih fun batch r hmem => h batch r (List.mem_append_left _ hmem)
    rw [run_concat]
    refine (step_stepped decode size _ i).supported hbefore ?_
    rintro batch r rfl length
    obtain ⟨fetched, hfetched, rfl⟩ := h batch r (by simp)
    exact not_incompatible_of_aborted hfetched length

/-! ## The law -/

/-- What an unsettled read waits for: a queued flush, the answer to its batch or an earlier one of
its flush, or its fallback. -/
def Waits (decode : Json → Except X V) (size : BatchSize) (inputs : List (Input T X V)) (id : ℕ) :
    Prop :=
  (id ∈ ids (run decode size inputs).pending ∧ (run decode size inputs).queued = 1) ∨
  (∃ batch f i item, (batch, f) ∈ (run decode size inputs).flushes ∧ f.start ≤ i ∧
    f.pending[i]? = some item ∧ item.id = id ∧
    Calling decode size inputs batch ((f.chunk size).map Pending.transaction)) ∨
  (id ∈ (run decode size inputs).fallbacks ∧ Awaiting decode size inputs id)

/-- A read that is enqueued and has not settled waits for an input that is due. -/
theorem waits_of_unsettled {id : ℕ} (hid : id < (enqueued inputs).length)
    (hopen : id ∉ settledIds (history decode size inputs)) : Waits decode size inputs id := by
  have hsound := sound_run decode size inputs
  have hplaced : id ∈ (run decode size inputs).waiting ++
      settledIds (history decode size inputs) :=
    hsound.placed.mem_iff.mpr (List.mem_range.mpr (hsound.reads ▸ hid))
  have hwaits := (List.mem_append.mp hplaced).resolve_right hopen
  rcases List.mem_append.mp hwaits with hearly | hfallback
  · rcases List.mem_append.mp hearly with hpending | hflushing
    · refine .inl ⟨hpending, ?_⟩
      have hne : (run decode size inputs).pending ≠ [] := fun hempty => by
        rw [hempty] at hpending
        contradiction
      rw [hsound.queued, if_neg hne]
    · obtain ⟨⟨batch, f⟩, hflush, hmem⟩ := List.mem_flatMap.mp hflushing
      obtain ⟨item, hitem, rfl⟩ := List.mem_map.mp hmem
      obtain ⟨i, hi⟩ := List.mem_iff_getElem?.mp hitem
      rw [List.getElem?_drop] at hi
      exact .inr (.inl ⟨batch, f, f.start + i, item, hflush, Nat.le_add_right _ _, hi, rfl,
        hsound.calling _ hflush⟩)
  · exact .inr (.inr ⟨hfallback, hsound.awaiting id hfallback⟩)

/-- Nothing is lost and nothing is mixed up. -/
structure Lossless (decode : Json → Except X V) (size : BatchSize) (inputs : List (Input T X V)) :
    Prop where
  /-- A read settles at most once. -/
  once : (settledIds (history decode size inputs)).Nodup
  known : ∀ id ∈ settledIds (history decode size inputs), id < (enqueued inputs).length
  /-- A read that has not settled waits for an answer or a fallback that is still to come. -/
  waits : ∀ id < (enqueued inputs).length, id ∉ settledIds (history decode size inputs) →
    Waits decode size inputs id
  /-- When nothing is under way, every read has settled, once. -/
  drained : (run decode size inputs).pending = [] → (run decode size inputs).flushes = [] →
    (run decode size inputs).fallbacks = [] →
    (settledIds (history decode size inputs)).Perm (List.range (enqueued inputs).length)
  settledBy : ∀ i id outcome, .settled id outcome ∈ effects decode size inputs i →
    SettledBy decode size inputs i id outcome
  /-- A batch has under each index the transaction of the read at that place of the chunk. -/
  own : ∀ batch f, (batch, f) ∈ (run decode size inputs).flushes →
    Calling decode size inputs batch ((f.chunk size).map Pending.transaction) ∧
      ∀ (i : ℕ) (item : Pending T), (f.chunk size)[i]? = some item →
        (enqueued inputs)[item.id]? = some item.transaction ∧
        (batchBody ((f.chunk size).map Pending.transaction))[i]? =
          some ⟨units "2.0", i, units "simulateTransaction", item.transaction⟩
  handled : ∀ batch f, (batch, f) ∈ (run decode size inputs).flushes →
    ∀ r, ∀ item ∈ f.chunk size,
      (∃ outcome, .settled item.id outcome ∈ effects decode size inputs (.reply batch r)) ∨
        .fellBack item.id ∈ effects decode size inputs (.reply batch r)
  returned : ∀ id ∈ (run decode size inputs).fallbacks, ∀ outcome,
    .settled id outcome ∈ effects decode size inputs (.returned id outcome)
  /-- The fallback that is called is what settles the read. -/
  fellBack : ∀ id, .fellBack id ∈ history decode size inputs → ∀ i outcome,
    .settled id outcome ∈ effects decode size inputs i → i = .returned id outcome
  /-- Once the provider has been found incompatible, no batch is sent, and a read that is enqueued
  falls back. -/
  incompatible : ∀ batch f r, (batch, f) ∈ (run decode size inputs).flushes →
    Incompatible (f.chunk size).length r →
    (∀ later transactions,
      .sent later transactions ∉ effects decode size inputs (.reply batch r)) ∧
    ∀ after i,
      (∀ later transactions, .sent later transactions ∉
        effects decode size (inputs ++ .reply batch r :: after) i) ∧
      ∀ transaction, i = .enqueue transaction →
        .fellBack (enqueued (inputs ++ .reply batch r :: after)).length ∈
          effects decode size (inputs ++ .reply batch r :: after) i

/-- For every row of reads, flushes, answers of the provider and ends of fallbacks, nothing is lost
and nothing is mixed up. -/
theorem simulationBatcher_lossless (decode : Json → Except X V) (size : BatchSize)
    (inputs : List (Input T X V)) : Lossless decode size inputs where
  once := (List.nodup_append.mp (sound_run decode size inputs).nodup).2.1
  known id hid := by
    have hsound := sound_run decode size inputs
    rw [← hsound.reads, ← List.mem_range]
    exact hsound.placed.mem_iff.mp (List.mem_append_right _ hid)
  waits id hid hopen := waits_of_unsettled hid hopen
  drained hpending hflushes hfallbacks := by
    have hsound := sound_run decode size inputs
    have hplaced := hsound.placed
    rw [SimulationBatcher.waiting, hpending, hflushes, hfallbacks, hsound.reads] at hplaced
    exact hplaced
  settledBy i id outcome h := settledBy_of_mem h
  own batch f hflush := by
    have hsound := sound_run decode size inputs
    refine ⟨hsound.calling _ hflush, fun i item hitem => ⟨?_, ?_⟩⟩
    · have hmem : item ∈ f.pending :=
        List.mem_of_mem_drop (List.mem_of_mem_take (List.mem_of_getElem? hitem))
      exact hsound.flushing _ hflush item hmem
    · rw [batchBody, List.getElem?_mapIdx, List.getElem?_map, hitem]
      rfl
  handled batch f hflush r item hitem := handled_of_reply hflush r hitem
  returned id hid outcome := by
    rw [effects, step, returned, if_pos hid]
    exact List.mem_cons_self
  fellBack id hfell i outcome h := returned_of_fell hfell h
  incompatible batch f r hflush hr := by
    obtain ⟨hunsupported, hsent⟩ := unsupported_of_reply hflush hr
    refine ⟨hsent, fun after i => ?_⟩
    have hlater := unsupported_run hunsupported after
    rw [List.append_assoc, List.singleton_append] at hlater
    have hstep := (step_stepped decode size _ i).unsupported hlater
    rw [← (sound_run decode size (inputs ++ .reply batch r :: after)).reads]
    exact hstep.2

/-- Two reads are sent together. The body of the answer is not JSON, so the next one falls back. -/
example (decode : Json → Except X V) (a b : T) :
    let size : BatchSize := ⟨2, by decide, by decide⟩
    effects decode size [.enqueue a, .enqueue b] .flush = [.sent 0 [a, b]] ∧
      effects decode size [.enqueue a, .enqueue b, .flush, .reply 0 (.resolved none)] (.enqueue a) =
        [.fellBack 2] := by
  have hsent : ∀ s : SimulationBatcher T, s.supported = true →
      (advance ⟨2, by decide, by decide⟩ s [⟨0, a⟩, ⟨1, b⟩] 0 : List (Effect T X V) × _) =
        ([.sent s.batches [a, b]], { s with
          flushes := s.flushes ++ [(s.batches, ⟨[⟨0, a⟩, ⟨1, b⟩], 0⟩)]
          batches := s.batches + 1 }) := fun s hs => by
    rw [advance]
    simp [Flush.chunk, hs]
  have hend : ∀ s : SimulationBatcher T,
      (advance ⟨2, by decide, by decide⟩ s [⟨0, a⟩, ⟨1, b⟩] 2 : List (Effect T X V) × _) =
        ([], s) := fun s => by
    rw [advance]
    simp
  constructor <;>
    simp [effects, run, play, step, enqueue, flush, reply, handle, fallback, responses, mapGet,
      mapDelete, Flush.chunk, SimulationBatcher.empty, hsent, hend]

end Steps

end Quorum.Sdk.Batch

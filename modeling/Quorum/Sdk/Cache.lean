import Mathlib.Algebra.Order.Field.Rat
import Quorum.Foundation.OrderedMap
import Quorum.Sdk.CacheKey

/-!
# The read cache

A read through the cache is answered from an entry, or it reserves one and starts a request. The
entry is filled when the request succeeds and is taken out when it fails, but only if it is still
the one that was reserved: an invalidation, an eviction or another read of the same key may have
taken it out while the request was under way. Reads, the ends of requests and invalidations come in
any order.

What a hit returns comes from a request that was started after the last invalidation of its key
and that ended less than the time to live ago.

`structuredClone` has no counterpart: values are immutable here, and the copy of a value is the
value. That no two callers share an object is outside of this model.
-/

namespace Quorum.Sdk

open Foundation

/-! ## The configuration -/

/-- A number, unless it is not finite. -/
abbrev Finite := Option ℚ

/-- The options of the cache. -/
structure ReadCacheConfig where
  enabled : Bool
  ttlMs : Option Finite
  methodTtlMs : List (ReadMethod × Finite)
  maxEntries : Option Finite

/-- What an enabled cache works with. -/
structure Settings where
  ttl : ReadMethod → ℚ
  maxEntries : ℕ
  ttl_nonneg : ∀ method, 0 ≤ ttl method
  maxEntries_pos : 0 < maxEntries

/-- A finite non-negative number. -/
def validTtl (ttl : Finite) : Bool := ttl.any fun value => decide (0 ≤ value)

/-- A positive integer. -/
def validCount (count : Finite) : Bool :=
  count.any fun value => decide (value.den = 1 ∧ 1 ≤ value.num)

/-- The times to live that the constructor checks. -/
def ReadCacheConfig.ttls (config : ReadCacheConfig) : List Finite :=
  config.ttlMs.getD (some 5000) :: config.methodTtlMs.map Prod.snd

/-- The time to live of the results of a method. -/
def ReadCacheConfig.ttl (config : ReadCacheConfig) (method : ReadMethod) : Finite :=
  ((config.methodTtlMs.lookup method).or config.ttlMs).getD (some 5000)

/-- The largest number of entries. -/
def ReadCacheConfig.count (config : ReadCacheConfig) : Finite := config.maxEntries.getD (some 1000)

/-- The time to live of each method is among those that are checked. -/
theorem ReadCacheConfig.ttl_mem (config : ReadCacheConfig) (method : ReadMethod) :
    config.ttl method ∈ config.ttls := by
  unfold ReadCacheConfig.ttl ReadCacheConfig.ttls
  cases hlookup : config.methodTtlMs.lookup method with
  | none => exact List.mem_cons_self
  | some ttl =>
    obtain ⟨before, after, hentries, -⟩ := List.lookup_eq_some_iff.mp hlookup
    rw [hentries]
    simp

/-- A valid time to live is not negative. -/
theorem getD_nonneg_of_validTtl {ttl : Finite} (h : validTtl ttl = true) : 0 ≤ ttl.getD 0 := by
  cases ttl with
  | none => contradiction
  | some value => exact of_decide_eq_true h

/-- A valid number of entries is positive. -/
theorem toNat_pos_of_validCount {count : Finite} (h : validCount count = true) :
    0 < (count.getD 0).num.toNat := by
  cases count with
  | none => contradiction
  | some value =>
    have hpos := (of_decide_eq_true h).2
    change 0 < value.num.toNat
    omega

/-- The constructor: what the cache works with if it is enabled, or the message of an error. -/
def ReadCacheConfig.settings : Option ReadCacheConfig → Except JsString (Option Settings)
  | none => .ok none
  | some config =>
    if config.enabled = true then
      if httls : ∀ ttl ∈ config.ttls, validTtl ttl = true then
        if hcount : validCount config.count = true then
          .ok (some {
            ttl := fun method => (config.ttl method).getD 0
            maxEntries := (config.count.getD 0).num.toNat
            ttl_nonneg := fun method => getD_nonneg_of_validTtl (httls _ (config.ttl_mem method))
            maxEntries_pos := toNat_pos_of_validCount hcount })
        else .error (units "Cache maxEntries must be a positive integer")
      else .error (units "Cache TTL must be a finite non-negative number")
    else .ok none

/-! ## The cache -/

/-- An entry. Each object that is put into the map has its own `id`. -/
structure Entry (V : Type) where
  id : ℕ
  expiresAt : ℚ
  value : Option V
  pending : Bool

/-- A request under way: the key and the time to live of its read, and whether the read has
reserved an entry, the one with the same `id`. -/
structure Request where
  id : ℕ
  key : JsString
  ttl : ℚ
  reserves : Bool

/-- The entries of the map, the requests under way and the next `id`. -/
structure ReadCache (V : Type) where
  entries : List (JsString × Entry V)
  requests : List Request
  nextId : ℕ

/-- A new cache. -/
def ReadCache.empty {V : Type} : ReadCache V := ⟨[], [], 0⟩

/-- The options of a read. -/
structure ReadOptions where
  bypassCache : Bool
  invalidateCache : Bool

/-- A read. -/
structure Read where
  method : ReadMethod
  args : List Argument
  options : ReadOptions

/-- The key of a read. -/
def Read.key (r : Read) : JsString := Sdk.key r.method r.args

/-- What can happen to a cache. A read comes with the readings of the clock: the one that decides
on a hit, and the ones that decide on each entry when the expired ones are swept out. -/
inductive Input (V E : Type) where
  | read (r : Read) (now : ℕ) (sweptAt : JsString → ℕ)
  | succeed (id : ℕ) (value : V) (now : ℕ)
  | fail (id : ℕ) (error : E)
  | invalidate (method : Option ReadMethod) (args : Option (List Argument))

/-- What comes of it: a read that is answered, a request that is started, or a read that settles
with the end of its request. -/
inductive Output (V E : Type) where
  | hit (value : Option V)
  | requested (id : ℕ)
  | settled (id : ℕ) (outcome : Except E V)
  | nothing

section Steps

variable {V E : Type}

/-- Evicts everything, one method, or one method with arguments. -/
def invalidate (s : ReadCache V) (method : Option ReadMethod) (args : Option (List Argument)) :
    ReadCache V :=
  match method, args with
  | none, _ => { s with entries := [] }
  | some method, some args => { s with entries := mapDelete s.entries (key method args) }
  | some method, none => { s with entries := s.entries.filter fun p => !keyOf method p.1 }

/-- Starts the request of a read, with these entries. -/
def request (s : ReadCache V) (r : Read) (ttl : ℚ) (reserves : Bool)
    (entries : List (JsString × Entry V)) : Output V E × ReadCache V :=
  (.requested s.nextId,
    { entries := entries, requests := s.requests ++ [⟨s.nextId, r.key, ttl, reserves⟩],
      nextId := s.nextId + 1 })

/-- The map without its oldest entry. -/
def evictOldest : List (JsString × Entry V) → List (JsString × Entry V)
  | [] => []
  | p :: rest => mapDelete (p :: rest) p.1

/-- A read. -/
def read (settings : Option Settings) (s : ReadCache V) (r : Read) (now : ℕ)
    (sweptAt : JsString → ℕ) : Output V E × ReadCache V :=
  let entries := if r.options.invalidateCache = true then mapDelete s.entries r.key else s.entries
  match settings with
  | none => request s r 0 false entries
  | some settings =>
    if r.options.bypassCache = true ∨ settings.ttl r.method = 0 then
      request s r (settings.ttl r.method) false entries
    else
      match (mapGet entries r.key).filter fun e => !e.pending && decide ((now : ℚ) < e.expiresAt) with
      | some hit => (.hit hit.value, { s with entries := entries })
      | none =>
        let swept := (mapDelete entries r.key).filter fun p =>
          p.2.pending || decide ((sweptAt p.1 : ℚ) < p.2.expiresAt)
        let room := if settings.maxEntries ≤ swept.length then evictOldest swept else swept
        request s r (settings.ttl r.method) true
          (mapSet room r.key ⟨s.nextId, 0, none, true⟩)

/-- The entry of the key is the one that the request has reserved. -/
def holds (s : ReadCache V) (request : Request) : Bool :=
  request.reserves && (mapGet s.entries request.key).any fun e => e.id = request.id

/-- A request succeeds. -/
def succeed (s : ReadCache V) (id : ℕ) (value : V) (now : ℕ) : Output V E × ReadCache V :=
  match s.requests.find? fun request => request.id = id with
  | none => (.nothing, s)
  | some request =>
    let filled := fun e : Entry V =>
      { e with value := some value, expiresAt := now + request.ttl, pending := false }
    (.settled id (.ok value),
      { s with
        entries := if holds s request = true then mapAdjust s.entries request.key filled
          else s.entries
        requests := s.requests.filter fun request => request.id ≠ id })

/-- A request fails. -/
def fail (s : ReadCache V) (id : ℕ) (error : E) : Output V E × ReadCache V :=
  match s.requests.find? fun request => request.id = id with
  | none => (.nothing, s)
  | some request =>
    (.settled id (.error error),
      { s with
        entries := if holds s request = true then mapDelete s.entries request.key else s.entries
        requests := s.requests.filter fun request => request.id ≠ id })

/-- One step. -/
def step (settings : Option Settings) (s : ReadCache V) : Input V E → Output V E × ReadCache V
  | .read r now sweptAt => read settings s r now sweptAt
  | .succeed id value now => succeed s id value now
  | .fail id error => fail s id error
  | .invalidate method args => (.nothing, invalidate s method args)

/-- The cache after a row of inputs. -/
def run (settings : Option Settings) (inputs : List (Input V E)) : ReadCache V :=
  inputs.foldl (fun s i => (step settings s i).2) .empty

/-- What comes of an input after a row of others. -/
def output (settings : Option Settings) (inputs : List (Input V E)) (i : Input V E) : Output V E :=
  (step settings (run settings inputs) i).1

/-- The cache after one more input is a step further. -/
theorem run_concat (settings : Option Settings) (inputs : List (Input V E)) (i : Input V E) :
    run settings (inputs ++ [i]) = (step settings (run settings inputs) i).2 := by
  rw [run, List.foldl_append]
  rfl

/-! ## What a step does -/

/-- The input takes the entry of the key out, whatever it is. -/
def Clears (key : JsString) : Input V E → Prop
  | .read r _ _ => r.options.invalidateCache = true ∧ r.key = key
  | .invalidate none _ => True
  | .invalidate (some method) (some args) => Sdk.key method args = key
  | .invalidate (some method) none => keyOf method key = true
  | _ => False

/-- The entry with the value of a request. -/
def Entry.fill (e : Entry V) (value : V) (expiresAt : ℚ) : Entry V :=
  { e with value := some value, expiresAt := expiresAt, pending := false }

/-- What ends is not under way. -/
def Late (s : ReadCache V) : Input V E → Prop
  | .succeed id _ _ => ∀ q ∈ s.requests, q.id ≠ id
  | .fail id _ => ∀ q ∈ s.requests, q.id ≠ id
  | _ => False

/-- All that a step can do. -/
inductive Stepped (settings : Option Settings) (s : ReadCache V) :
    Input V E → Output V E × ReadCache V → Prop where
  | hit {r : Read} {now : ℕ} {sweptAt : JsString → ℕ} {e : Entry V}
      (hvalid : r.options.invalidateCache = false) (hcached : r.options.bypassCache = false)
      (hmem : (r.key, e) ∈ s.entries) (hfilled : e.pending = false) (hlive : now < e.expiresAt) :
      Stepped settings s (.read r now sweptAt) (.hit e.value, s)
  | passed {r : Read} {now : ℕ} {sweptAt : JsString → ℕ} {ttl : ℚ}
      {entries : List (JsString × Entry V)}
      (hpasses : r.options.bypassCache = false → ∀ c ∈ settings, c.ttl r.method = 0)
      (hsub : entries.Sublist s.entries)
      (hclear : r.options.invalidateCache = true → ∀ p ∈ entries, p.1 ≠ r.key) :
      Stepped settings s (.read r now sweptAt) (.requested s.nextId,
        ⟨entries, s.requests ++ [⟨s.nextId, r.key, ttl, false⟩], s.nextId + 1⟩)
  | missed {r : Read} {now : ℕ} {sweptAt : JsString → ℕ} {c : Settings}
      {entries : List (JsString × Entry V)} (hsettings : settings = some c)
      (hcached : r.options.bypassCache = false) (httl : c.ttl r.method ≠ 0)
      (hsub : entries.Sublist (mapDelete s.entries r.key)) (hroom : entries.length < c.maxEntries) :
      Stepped settings s (.read r now sweptAt) (.requested s.nextId,
        ⟨entries ++ [(r.key, ⟨s.nextId, 0, none, true⟩)],
          s.requests ++ [⟨s.nextId, r.key, c.ttl r.method, true⟩], s.nextId + 1⟩)
  | filled {q : Request} {value : V} {now : ℕ} (hmem : q ∈ s.requests)
      (hholds : holds s q = true) :
      Stepped settings s (.succeed q.id value now) (.settled q.id (.ok value),
        { s with
          entries := mapAdjust s.entries q.key fun e => e.fill value (now + q.ttl)
          requests := s.requests.filter fun request => request.id ≠ q.id })
  | superseded {q : Request} {value : V} {now : ℕ} (hmem : q ∈ s.requests)
      (hgone : holds s q = false) :
      Stepped settings s (.succeed q.id value now) (.settled q.id (.ok value),
        { s with requests := s.requests.filter fun request => request.id ≠ q.id })
  | failed {q : Request} {error : E} (hmem : q ∈ s.requests) {entries : List (JsString × Entry V)}
      (hsub : entries.Sublist s.entries)
      (hgone : holds s q = true → ∀ p ∈ entries, p.1 ≠ q.key) :
      Stepped settings s (.fail q.id error) (.settled q.id (.error error),
        { s with
          entries := entries
          requests := s.requests.filter fun request => request.id ≠ q.id })
  | late {i : Input V E} (hlate : Late s i) : Stepped settings s i (.nothing, s)
  | invalidated {method : Option ReadMethod} {args : Option (List Argument)}
      {entries : List (JsString × Entry V)} (hsub : entries.Sublist s.entries)
      (hclear : ∀ p ∈ entries, ¬ Clears p.1 (.invalidate method args : Input V E)) :
      Stepped settings s (.invalidate method args) (.nothing, { s with entries := entries })

variable {settings : Option Settings} {s : ReadCache V} {i : Input V E}

/-- Evicting makes room for one more entry. -/
theorem length_evictOldest {m : List (JsString × Entry V)} {n : ℕ} (h : 0 < n)
    (hle : m.length ≤ n) : (evictOldest m).length < n := by
  cases m with
  | nil => exact h
  | cons p rest =>
    have hfirst : mapDelete (p :: rest) p.1 = mapDelete rest p.1 :=
      List.filter_cons_of_neg (by simp)
    rw [evictOldest, hfirst]
    exact ((List.length_filter_le ..).trans_lt (Nat.lt_succ_self _)).trans_le hle

/-- Evicting adds nothing. -/
theorem evictOldest_sublist (m : List (JsString × Entry V)) : (evictOldest m).Sublist m := by
  cases m with
  | nil => exact .slnil
  | cons p rest => exact List.filter_sublist

/-- A read is one of the steps. -/
theorem read_stepped (hsize : ∀ c ∈ settings, s.entries.length ≤ c.maxEntries) (r : Read) (now : ℕ)
    (sweptAt : JsString → ℕ) :
    Stepped settings s (.read r now sweptAt : Input V E) (read settings s r now sweptAt) := by
  unfold read
  dsimp only
  generalize hentries : (if r.options.invalidateCache = true then
      mapDelete s.entries r.key else s.entries) = entries
  have hsub : entries.Sublist s.entries := by
    rw [← hentries]
    split
    · exact List.filter_sublist
    · exact List.Sublist.refl _
  have hclear : r.options.invalidateCache = true → ∀ p ∈ entries, p.1 ≠ r.key := by
    intro hinvalidate p hp
    rw [← hentries, if_pos hinvalidate] at hp
    exact (mem_mapDelete.mp hp).2
  cases settings with
  | none => exact .passed (fun _ c hc => absurd hc (Option.not_mem_none c)) hsub hclear
  | some c =>
    dsimp only
    split <;> rename_i hbypass
    · refine .passed (fun hcached c' hc' => ?_) hsub hclear
      obtain rfl := Option.some.inj hc'
      exact hbypass.resolve_left (by simp [hcached])
    · obtain ⟨hcached, httl⟩ := not_or.mp hbypass
      rw [Bool.not_eq_true] at hcached
      split
      · rename_i hit hhit
        obtain ⟨hget, hcondition⟩ := Option.filter_eq_some_iff.mp hhit
        obtain ⟨hfilled, hlive⟩ := Bool.and_eq_true_iff.mp hcondition
        have hmem := mem_of_mapGet hget
        have hvalid : r.options.invalidateCache = false :=
          Bool.eq_false_iff.mpr fun h => hclear h _ hmem rfl
        obtain rfl : s.entries = entries := by rw [← hentries, hvalid]; rfl
        exact .hit hvalid hcached hmem (by simpa using hfilled) (of_decide_eq_true hlive)
      · generalize hswept : (mapDelete entries r.key).filter (fun p =>
          p.2.pending || decide ((sweptAt p.1 : ℚ) < p.2.expiresAt)) = swept
        generalize hroom : (if c.maxEntries ≤ swept.length then evictOldest swept else swept) = room
        have hkept : swept.Sublist (mapDelete s.entries r.key) :=
          hswept ▸ List.filter_sublist.trans (hsub.filter _)
        have hlength : swept.length ≤ c.maxEntries :=
          (hkept.trans List.filter_sublist).length_le.trans (hsize c rfl)
        have hroomsub : room.Sublist (mapDelete s.entries r.key) := by
          rw [← hroom]
          split
          · exact (evictOldest_sublist _).trans hkept
          · exact hkept
        have hroomlength : room.length < c.maxEntries := by
          rw [← hroom]
          split
          · exact length_evictOldest c.maxEntries_pos hlength
          · omega
        have habsent : r.key ∉ room.map Prod.fst := fun hmem =>
          key_notMem_mapDelete ((hroomsub.map Prod.fst).subset hmem)
        rw [mapSet_of_absent habsent]
        exact .missed rfl hcached httl hroomsub hroomlength

/-- A request of which there is one with this `id`. -/
theorem find?_request {id : ℕ} {q : Request}
    (h : (s.requests.find? fun request => request.id = id) = some q) :
    q ∈ s.requests ∧ q.id = id :=
  ⟨List.mem_of_find?_eq_some h, by simpa using List.find?_some h⟩

/-- A request that succeeds is one of the steps. -/
theorem succeed_stepped (s : ReadCache V) (id : ℕ) (value : V) (now : ℕ) :
    Stepped settings s (.succeed id value now : Input V E) (succeed s id value now) := by
  unfold succeed
  cases hfind : s.requests.find? fun request => request.id = id with
  | none => exact .late (by simpa [Late] using hfind)
  | some q =>
    obtain ⟨hmem, rfl⟩ := find?_request hfind
    cases hholds : holds s q with
    | true =>
      simp only [hholds, if_true]
      exact .filled hmem hholds
    | false =>
      simp only [hholds, Bool.false_eq_true, if_false]
      exact .superseded hmem hholds

/-- A request that fails is one of the steps. -/
theorem fail_stepped (s : ReadCache V) (id : ℕ) (error : E) :
    Stepped settings s (.fail id error) (fail s id error) := by
  unfold fail
  cases hfind : s.requests.find? fun request => request.id = id with
  | none => exact .late (by simpa [Late] using hfind)
  | some q =>
    obtain ⟨hmem, rfl⟩ := find?_request hfind
    refine .failed hmem ?_ ?_
    · split
      · exact List.filter_sublist
      · exact List.Sublist.refl _
    · intro hholds p hp
      rw [if_pos hholds] at hp
      exact (mem_mapDelete.mp hp).2

/-- An invalidation is one of the steps. -/
theorem invalidate_stepped (s : ReadCache V) (method : Option ReadMethod)
    (args : Option (List Argument)) :
    Stepped settings s (.invalidate method args : Input V E)
      (.nothing, invalidate s method args) := by
  cases method with
  | none => exact .invalidated (List.nil_sublist _) fun p hp => absurd hp List.not_mem_nil
  | some method =>
    cases args with
    | none =>
      refine .invalidated List.filter_sublist fun p hp hclears => ?_
      have hkept := (List.mem_filter.mp hp).2
      rw [show keyOf method p.1 = true from hclears] at hkept
      contradiction
    | some args =>
      refine .invalidated List.filter_sublist fun p hp hclears => ?_
      exact (mem_mapDelete.mp hp).2 (show key method args = p.1 from hclears).symm

/-- A cache within its size does one of these things. -/
theorem step_stepped (hsize : ∀ c ∈ settings, s.entries.length ≤ c.maxEntries) (i : Input V E) :
    Stepped settings s i (step settings s i) := by
  cases i with
  | read r now sweptAt => exact read_stepped hsize r now sweptAt
  | succeed id value now => exact succeed_stepped s id value now
  | fail id error => exact fail_stepped s id error
  | invalidate method args => exact invalidate_stepped s method args

/-- Filling changes the entry of the request's key and no other. -/
theorem mem_fill (s : ReadCache V) (q : Request) (value : V) (now : ℕ) {p : JsString × Entry V}
    (hp : p ∈ mapAdjust s.entries q.key fun e => e.fill value (now + q.ttl)) :
    (p ∈ s.entries ∧ p.1 ≠ q.key) ∨
      ∃ e, p = (q.key, e.fill value (now + q.ttl)) ∧ (q.key, e) ∈ s.entries :=
  mem_mapAdjust hp

/-! ## Where the entries come from -/

/-- The request with this `id` was started by a read of the key, and nothing has cleared the key
since. -/
def Pending (settings : Option Settings) (inputs : List (Input V E)) (key : JsString) (id : ℕ) :
    Prop :=
  ∃ before r now sweptAt after, inputs = before ++ .read r now sweptAt :: after ∧
    output settings before (.read r now sweptAt) = .requested id ∧ r.key = key ∧
    ∀ i ∈ after, ¬ Clears key i

/-- The value of the entry is that of a request which was started by a read of the key and has
succeeded, it expires when the time to live is over, and nothing has cleared the key since the
request was started. -/
def Filled (settings : Option Settings) (inputs : List (Input V E)) (key : JsString)
    (e : Entry V) : Prop :=
  ∃ before r now sweptAt mid value ended after,
    inputs = before ++ .read r now sweptAt :: (mid ++ .succeed e.id value ended :: after) ∧
    output settings before (.read r now sweptAt) = .requested e.id ∧
    output settings (before ++ .read r now sweptAt :: mid) (.succeed e.id value ended) =
      .settled e.id (.ok value) ∧
    r.key = key ∧ e.value = some value ∧
    (∃ c ∈ settings, e.expiresAt = ended + c.ttl r.method) ∧ ∀ i ∈ mid ++ after, ¬ Clears key i

/-- A request stays pending under inputs that do not clear its key. -/
theorem Pending.concat {inputs : List (Input V E)} {key : JsString} {id : ℕ}
    (h : Pending settings inputs key id) (hi : ¬ Clears key i) :
    Pending settings (inputs ++ [i]) key id := by
  obtain ⟨before, r, now, sweptAt, after, rfl, hstart, hkey, hclear⟩ := h
  refine ⟨before, r, now, sweptAt, after ++ [i], by simp, hstart, hkey, fun i' hi' => ?_⟩
  rcases mem_concat.mp hi' with hmem | rfl
  · exact hclear i' hmem
  · exact hi

/-- An entry stays filled under inputs that do not clear its key. -/
theorem Filled.concat {inputs : List (Input V E)} {key : JsString} {e : Entry V}
    (h : Filled settings inputs key e) (hi : ¬ Clears key i) :
    Filled settings (inputs ++ [i]) key e := by
  obtain ⟨before, r, now, sweptAt, mid, value, ended, after, rfl, hstart, hend, hkey, hvalue,
    hexpires, hclear⟩ := h
  refine ⟨before, r, now, sweptAt, mid, value, ended, after ++ [i], by simp, hstart, hend, hkey,
    hvalue, hexpires, fun i' hi' => ?_⟩
  rw [← List.append_assoc] at hi'
  rcases mem_concat.mp hi' with hmem | rfl
  · exact hclear i' hmem
  · exact hi

/-- The invariant of a cache. -/
structure Sound (settings : Option Settings) (inputs : List (Input V E)) (s : ReadCache V) : Prop where
  unique : UniqueKeys s.entries
  size : ∀ c ∈ settings, s.entries.length ≤ c.maxEntries
  entries_lt : ∀ p ∈ s.entries, p.2.id < s.nextId
  requests_lt : ∀ q ∈ s.requests, q.id < s.nextId
  asked : ∀ q ∈ s.requests, q.reserves = true →
    ∃ c ∈ settings, ∃ r : Read, q.key = r.key ∧ q.ttl = c.ttl r.method ∧ c.ttl r.method ≠ 0
  matched : ∀ p ∈ s.entries, ∀ q ∈ s.requests, q.id = p.2.id →
    p.2.pending = true ∧ q.reserves = true ∧ q.key = p.1
  pending : ∀ p ∈ s.entries, p.2.pending = true → Pending settings inputs p.1 p.2.id
  filled : ∀ p ∈ s.entries, p.2.pending = false → Filled settings inputs p.1 p.2

namespace Sound

variable {inputs : List (Input V E)}

/-- An unused cache is sound. -/
theorem empty (settings : Option Settings) : Sound settings ([] : List (Input V E)) .empty where
  unique := List.nodup_nil
  size _ _ := Nat.zero_le _
  entries_lt _ h := absurd h List.not_mem_nil
  requests_lt _ h := absurd h List.not_mem_nil
  asked _ h := absurd h List.not_mem_nil
  matched _ h := absurd h List.not_mem_nil
  pending _ h := absurd h List.not_mem_nil
  filled _ h := absurd h List.not_mem_nil

/-- Entries and requests may go, and the entries that stay may be cleared by nothing. -/
theorem shrink (h : Sound settings inputs s) {entries : List (JsString × Entry V)}
    {requests : List Request} (hentries : entries.Sublist s.entries)
    (hrequests : requests.Sublist s.requests) (hclear : ∀ p ∈ entries, ¬ Clears p.1 i) :
    Sound settings (inputs ++ [i]) ⟨entries, requests, s.nextId⟩ where
  unique := h.unique.sublist hentries
  size c hc := hentries.length_le.trans (h.size c hc)
  entries_lt p hp := h.entries_lt p (hentries.subset hp)
  requests_lt q hq := h.requests_lt q (hrequests.subset hq)
  asked q hq := h.asked q (hrequests.subset hq)
  matched p hp q hq := h.matched p (hentries.subset hp) q (hrequests.subset hq)
  pending p hp hpending := (h.pending p (hentries.subset hp) hpending).concat (hclear p hp)
  filled p hp hfilled := (h.filled p (hentries.subset hp) hfilled).concat (hclear p hp)

/-- A read that passes by the cache asks for itself. -/
theorem pass (h : Sound settings inputs s) (key : JsString) (ttl : ℚ) :
    Sound settings inputs
      ⟨s.entries, s.requests ++ [⟨s.nextId, key, ttl, false⟩], s.nextId + 1⟩ where
  unique := h.unique
  size := h.size
  entries_lt p hp := Nat.lt_succ_of_lt (h.entries_lt p hp)
  requests_lt q hq := by
    rcases mem_concat.mp hq with hmem | rfl
    · exact Nat.lt_succ_of_lt (h.requests_lt q hmem)
    · exact Nat.lt_succ_self _
  asked q hq hreserves := by
    rcases mem_concat.mp hq with hmem | rfl
    · exact h.asked q hmem hreserves
    · contradiction
  matched p hp q hq hid := by
    rcases mem_concat.mp hq with hmem | rfl
    · exact h.matched p hp q hmem hid
    · exact absurd hid (h.entries_lt p hp).ne'
  pending := h.pending
  filled := h.filled

/-- A read that misses reserves an entry for a key that has none. -/
theorem reserve (h : Sound settings inputs s) {r : Read} {c : Settings} (hc : settings = some c)
    (httl : c.ttl r.method ≠ 0)
    (habsent : r.key ∉ s.entries.map Prod.fst) (hroom : s.entries.length < c.maxEntries)
    (hpending : Pending settings inputs r.key s.nextId) :
    Sound settings inputs ⟨s.entries ++ [(r.key, ⟨s.nextId, 0, none, true⟩)],
      s.requests ++ [⟨s.nextId, r.key, c.ttl r.method, true⟩], s.nextId + 1⟩ where
  unique := h.unique.append habsent
  size c' hc' := by
    obtain rfl := Option.some.inj (hc.symm.trans hc')
    rw [List.length_append, List.length_singleton]
    exact hroom
  entries_lt p hp := by
    rcases mem_concat.mp hp with hmem | rfl
    · exact Nat.lt_succ_of_lt (h.entries_lt p hmem)
    · exact Nat.lt_succ_self _
  requests_lt q hq := by
    rcases mem_concat.mp hq with hmem | rfl
    · exact Nat.lt_succ_of_lt (h.requests_lt q hmem)
    · exact Nat.lt_succ_self _
  asked q hq hreserves := by
    rcases mem_concat.mp hq with hmem | rfl
    · exact h.asked q hmem hreserves
    · exact ⟨c, hc, r, rfl, rfl, httl⟩
  matched p hp q hq hid := by
    rcases List.mem_append.mp hp with hp | hp <;> rcases List.mem_append.mp hq with hq | hq
    · exact h.matched p hp q hq hid
    · obtain rfl := List.mem_singleton.mp hq
      exact absurd hid (h.entries_lt p hp).ne'
    · obtain rfl := List.mem_singleton.mp hp
      exact absurd hid (h.requests_lt q hq).ne
    · obtain rfl := List.mem_singleton.mp hp
      obtain rfl := List.mem_singleton.mp hq
      exact ⟨rfl, rfl, rfl⟩
  pending p hp hpend := by
    rcases mem_concat.mp hp with hmem | rfl
    · exact h.pending p hmem hpend
    · exact hpending
  filled p hp hfilled := by
    rcases mem_concat.mp hp with hmem | rfl
    · exact h.filled p hmem hfilled
    · contradiction

/-- The entry that a request under way holds is the one that its read has reserved. -/
theorem held (h : Sound settings inputs s) {q : Request} (hmem : q ∈ s.requests)
    (hholds : holds s q = true) {e : Entry V} (hentry : (q.key, e) ∈ s.entries) :
    q.reserves = true ∧ e.id = q.id ∧ e.pending = true := by
  obtain ⟨hreserves, hany⟩ := Bool.and_eq_true_iff.mp hholds
  rw [mapGet_of_mem h.unique hentry] at hany
  have hid : e.id = q.id := of_decide_eq_true hany
  exact ⟨hreserves, hid, (h.matched _ hentry q hmem hid.symm).1⟩

/-- A request that succeeds fills the entry that it holds. -/
theorem fill (h : Sound settings inputs s) {q : Request} (hmem : q ∈ s.requests)
    (hholds : holds s q = true) {value : V} {now : ℕ}
    (hend : output settings inputs (.succeed q.id value now) = .settled q.id (.ok value)) :
    Sound settings (inputs ++ [.succeed q.id value now])
      { s with
        entries := mapAdjust s.entries q.key fun e => e.fill value (now + q.ttl)
        requests := s.requests.filter fun request => request.id ≠ q.id } where
  unique := h.unique.mapAdjust (fun e => e.fill value (now + q.ttl))
  size c hc := by
    rw [mapAdjust, List.length_map]
    exact h.size c hc
  entries_lt p hp := by
    rcases mem_fill s q value now hp with ⟨hold, -⟩ | ⟨e, rfl, hentry⟩
    · exact h.entries_lt p hold
    · exact h.entries_lt (q.key, e) hentry
  requests_lt q' hq' := h.requests_lt q' (List.mem_filter.mp hq').1
  asked q' hq' := h.asked q' (List.mem_filter.mp hq').1
  matched p hp q' hq' hid := by
    obtain ⟨hrequest, hother⟩ := List.mem_filter.mp hq'
    rcases mem_fill s q value now hp with ⟨hold, -⟩ | ⟨e, rfl, hentry⟩
    · exact h.matched p hold q' hrequest hid
    · exact absurd (hid.trans (h.held hmem hholds hentry).2.1) (of_decide_eq_true hother)
  pending p hp hpending := by
    rcases mem_fill s q value now hp with ⟨hold, -⟩ | ⟨e, rfl, hentry⟩
    · exact (h.pending p hold hpending).concat not_false
    · contradiction
  filled p hp hfilled := by
    rcases mem_fill s q value now hp with ⟨hold, -⟩ | ⟨e, rfl, hentry⟩
    · exact (h.filled p hold hfilled).concat not_false
    · obtain ⟨hreserves, hid, hpending⟩ := h.held hmem hholds hentry
      obtain ⟨before, r, started, sweptAt, after, hinputs, hstart, hkey, hclear⟩ :=
        h.pending _ hentry hpending
      obtain ⟨c, hc, r', hrkey, httl, -⟩ := h.asked q hmem hreserves
      have hmethod : r'.method = r.method := (key_inj (hrkey.symm.trans hkey.symm)).1
      have hid' : (e.fill value (now + q.ttl)).id = q.id := hid
      refine ⟨before, r, started, sweptAt, after, value, now, [], ?_, hstart, ?_, hkey, rfl,
        ⟨c, hc, ?_⟩, by simpa using hclear⟩
      · rw [hid', hinputs]
        simp
      · rw [hid', ← hinputs]
        exact hend
      · change (now : ℚ) + q.ttl = now + c.ttl r.method
        rw [httl, hmethod]

end Sound

/-- A request under way that succeeds settles with the value. -/
theorem output_succeed {inputs : List (Input V E)} {q : Request}
    (h : q ∈ (run settings inputs).requests) (value : V) (now : ℕ) :
    output settings inputs (.succeed q.id value now) = .settled q.id (.ok value) := by
  obtain ⟨q', hfind⟩ : ∃ q', ((run settings inputs).requests.find? fun request =>
      request.id = q.id) = some q' :=
    Option.isSome_iff_exists.mp (List.find?_isSome.mpr ⟨q, h, by simp⟩)
  simp [output, step, succeed, hfind]

/-- A step keeps the invariant. -/
theorem Sound.step {inputs : List (Input V E)} (h : Sound settings inputs (run settings inputs))
    (i : Input V E) : Sound settings (inputs ++ [i]) (run settings (inputs ++ [i])) := by
  have hstep := step_stepped h.size i
  rw [run_concat]
  generalize houtcome : Sdk.step settings (run settings inputs) i = outcome at hstep
  cases hstep with
  | hit hvalid =>
    refine h.shrink (List.Sublist.refl _) (List.Sublist.refl _) fun p _ hclears => ?_
    rw [hclears.1] at hvalid
    contradiction
  | passed _ hsub hclear =>
    refine (h.shrink hsub (List.Sublist.refl _) fun p hp hclears => ?_).pass _ _
    exact hclear hclears.1 p hp hclears.2.symm
  | @missed r now sweptAt c entries hsettings hcached httl hsub hroom =>
    have hother : ∀ p ∈ entries, p.1 ≠ r.key := fun p hp => (mem_mapDelete.mp (hsub.subset hp)).2
    have hshrink : Sound settings (inputs ++ [.read r now sweptAt])
        ⟨entries, (run settings inputs).requests, (run settings inputs).nextId⟩ :=
      h.shrink (hsub.trans List.filter_sublist) (List.Sublist.refl _) fun p hp hclears =>
        hother p hp hclears.2.symm
    refine hshrink.reserve hsettings httl ?_ hroom ?_
    · rintro hmem
      obtain ⟨p, hp, hkey⟩ := List.mem_map.mp hmem
      exact hother p hp hkey
    · refine ⟨inputs, r, now, sweptAt, [], rfl, ?_, rfl, by simp⟩
      rw [output, houtcome]
  | filled hmem hholds => exact h.fill hmem hholds (output_succeed hmem _ _)
  | superseded hmem hgone =>
    exact h.shrink (List.Sublist.refl _) List.filter_sublist fun _ _ => not_false
  | failed hmem hsub hgone => exact h.shrink hsub List.filter_sublist fun _ _ => not_false
  | late hlate =>
    refine h.shrink (List.Sublist.refl _) (List.Sublist.refl _) fun p _ => ?_
    cases i with
    | succeed => exact not_false
    | fail => exact not_false
    | _ => exact hlate.elim
  | invalidated hsub hclear => exact h.shrink hsub (List.Sublist.refl _) hclear

/-- The invariant holds after every row of inputs. -/
theorem sound_run (settings : Option Settings) (inputs : List (Input V E)) :
    Sound settings inputs (run settings inputs) := by
  induction inputs using List.reverseRecOn with
  | nil => exact .empty settings
  | append_singleton inputs i ih => exact ih.step i

/-! ## What has been superseded -/

/-- The input ends the request. -/
def Settles (id : ℕ) : Input V E → Prop
  | .succeed id' _ _ => id' = id
  | .fail id' _ => id' = id
  | _ => False

/-- No entry is the one that the request has reserved. -/
def Unheld (s : ReadCache V) (id : ℕ) : Prop := ∀ p ∈ s.entries, p.2.id ≠ id

/-- An entry after a step has been there before, with the same `id`, or it is new. -/
theorem exists_of_mem_step (hsize : ∀ c ∈ settings, s.entries.length ≤ c.maxEntries)
    {p : JsString × Entry V} (hp : p ∈ (step settings s i).2.entries) :
    p.2.id = s.nextId ∨ ∃ e, (p.1, e) ∈ s.entries ∧ e.id = p.2.id := by
  have hstep := step_stepped hsize i
  generalize houtcome : step settings s i = outcome at hstep hp
  cases hstep with
  | hit => exact .inr ⟨p.2, hp, rfl⟩
  | passed _ hsub => exact .inr ⟨p.2, hsub.subset hp, rfl⟩
  | missed _ _ _ hsub =>
    rcases mem_concat.mp hp with hold | rfl
    · exact .inr ⟨p.2, (mem_mapDelete.mp (hsub.subset hold)).1, rfl⟩
    · exact .inl rfl
  | @filled q value now =>
    rcases mem_fill s q value now hp with ⟨hold, -⟩ | ⟨e, rfl, hentry⟩
    · exact .inr ⟨p.2, hold, rfl⟩
    · exact .inr ⟨e, hentry, rfl⟩
  | superseded => exact .inr ⟨p.2, hp, rfl⟩
  | failed _ hsub => exact .inr ⟨p.2, hsub.subset hp, rfl⟩
  | late => exact .inr ⟨p.2, hp, rfl⟩
  | invalidated hsub => exact .inr ⟨p.2, hsub.subset hp, rfl⟩

/-- The numbers of requests only grow. -/
theorem nextId_le_step (hsize : ∀ c ∈ settings, s.entries.length ≤ c.maxEntries) (i : Input V E) :
    s.nextId ≤ (step settings s i).2.nextId := by
  have hstep := step_stepped hsize i
  generalize step settings s i = outcome at hstep
  cases hstep with
  | passed => exact Nat.le_succ _
  | missed => exact Nat.le_succ _
  | _ => exact le_rfl

/-- What is not in the cache does not come into it, unless it is new. -/
theorem unheld_run {inputs : List (Input V E)} {id : ℕ}
    (hunheld : Unheld (run settings inputs) id) (hlt : id < (run settings inputs).nextId)
    (later : List (Input V E)) :
    Unheld (run settings (inputs ++ later)) id ∧
      id < (run settings (inputs ++ later)).nextId := by
  induction later using List.reverseRecOn with
  | nil => rw [List.append_nil]; exact ⟨hunheld, hlt⟩
  | append_singleton later i ih =>
    have hsize := (sound_run settings (inputs ++ later)).size
    rw [← List.append_assoc, run_concat]
    refine ⟨fun p hp hid => ?_, ih.2.trans_le (nextId_le_step hsize i)⟩
    rcases exists_of_mem_step hsize hp with hnew | ⟨e, hmem, he⟩
    · exact ih.2.ne (hid.symm.trans hnew)
    · exact ih.1 _ hmem (he.trans hid)

/-- The input is another read of the key through the cache. -/
def Rereads (key : JsString) : Input V E → Prop
  | .read r _ _ => r.key = key ∧ r.options.bypassCache = false
  | _ => False

/-- Once the key of a request under way has been cleared, read again through the cache, or given up
by the request's own failure, the entry that the request has reserved is gone. -/
theorem Sound.unheld_step {inputs : List (Input V E)} (h : Sound settings inputs s) {q : Request}
    (hmem : q ∈ s.requests)
    (hi : Clears q.key i ∨ Rereads q.key i ∨ ∃ error, i = .fail q.id error) :
    Unheld (Sdk.step settings s i).2 q.id := by
  intro p hp hid
  have hstep := step_stepped h.size i
  have hold : ∀ e, (p.1, e) ∈ s.entries → e.id = p.2.id →
      e.pending = true ∧ q.reserves = true ∧ q.key = p.1 :=
    fun e he heid => h.matched _ he q hmem (hid.symm.trans heid.symm)
  generalize houtcome : Sdk.step settings s i = outcome at hstep hp
  cases hstep with
  | hit hvalid hcached hentry hfilled =>
    obtain ⟨hpending, -, hkey⟩ := hold p.2 hp rfl
    rcases hi with hclears | hrereads | ⟨error, herror⟩
    · rw [hclears.1] at hvalid
      contradiction
    · rw [hrereads.1, hkey] at hentry
      rw [h.unique.eq_of_mem hentry hp] at hfilled
      rw [hpending] at hfilled
      contradiction
    · contradiction
  | passed hpasses hsub hclear =>
    obtain ⟨-, hreserves, hkey⟩ := hold p.2 (hsub.subset hp) rfl
    rcases hi with hclears | hrereads | ⟨error, herror⟩
    · exact hclear hclears.1 p hp (hkey.symm.trans hclears.2.symm)
    · obtain ⟨c, hc, r', hkey', -, hpos⟩ := h.asked q hmem hreserves
      have hmethod := (key_inj (hrereads.1.trans hkey')).1
      exact hpos (hmethod ▸ hpasses hrereads.2 c hc)
    · contradiction
  | missed hsettings hcached httl hsub hroom =>
    rcases mem_concat.mp hp with hkept | rfl
    · obtain ⟨hentry, hother⟩ := mem_mapDelete.mp (hsub.subset hkept)
      obtain ⟨-, -, hkey⟩ := hold p.2 hentry rfl
      rcases hi with hclears | hrereads | ⟨error, herror⟩
      · exact hother (hkey.symm.trans hclears.2.symm)
      · exact hother (hkey.symm.trans hrereads.1.symm)
      · contradiction
    · exact (h.requests_lt q hmem).ne hid.symm
  | filled => rcases hi with hclears | hrereads | ⟨error, herror⟩ <;> contradiction
  | superseded => rcases hi with hclears | hrereads | ⟨error, herror⟩ <;> contradiction
  | @failed q' error' hq hentries hsub hgone =>
    rcases hi with hclears | hrereads | ⟨error, herror⟩
    · contradiction
    · contradiction
    · obtain ⟨hid', -⟩ := Input.fail.inj herror
      have hentry := hsub.subset hp
      obtain ⟨-, hreserves, hkey⟩ := h.matched p hentry q' hq (hid'.trans hid.symm)
      have hreserved : (q'.key, p.2) ∈ s.entries := by
        rw [hkey]
        exact hentry
      refine hgone ?_ p hp hkey.symm
      rw [holds, hreserves, Bool.true_and, mapGet_of_mem h.unique hreserved]
      exact decide_eq_true (hid.trans hid'.symm)
  | late hlate =>
    cases i with
    | succeed => rcases hi with hclears | hrereads | ⟨error, herror⟩ <;> contradiction
    | fail id error' =>
      rcases hi with hclears | hrereads | ⟨error, herror⟩
      · contradiction
      · contradiction
      · exact hlate q hmem (Input.fail.inj herror).1.symm
    | _ => exact hlate.elim
  | invalidated hsub hclear =>
    obtain ⟨-, -, hkey⟩ := hold p.2 (hsub.subset hp) rfl
    rcases hi with hclears | hrereads | ⟨error, herror⟩
    · exact hclear p hp (hkey ▸ hclears)
    · contradiction
    · contradiction

/-! ## The law -/

/-- The request of a read is under way: it has been started, and has not ended yet. -/
def UnderWay (settings : Option Settings) (inputs : List (Input V E)) (r : Read) (id : ℕ) : Prop :=
  ∃ before now sweptAt after, inputs = before ++ .read r now sweptAt :: after ∧
    output settings before (.read r now sweptAt) = .requested id ∧ ∀ i ∈ after, ¬ Settles id i

/-- A request that is not ended stays under way. -/
theorem mem_requests_step (hsize : ∀ c ∈ settings, s.entries.length ≤ c.maxEntries) {q : Request}
    (hmem : q ∈ s.requests) (hi : ¬ Settles q.id i) : q ∈ (step settings s i).2.requests := by
  have hstep := step_stepped hsize i
  generalize houtcome : step settings s i = outcome at hstep
  cases hstep with
  | passed => exact List.mem_append_left _ hmem
  | missed => exact List.mem_append_left _ hmem
  | filled => exact List.mem_filter.mpr ⟨hmem, decide_eq_true fun h => hi h.symm⟩
  | superseded => exact List.mem_filter.mpr ⟨hmem, decide_eq_true fun h => hi h.symm⟩
  | failed => exact List.mem_filter.mpr ⟨hmem, decide_eq_true fun h => hi h.symm⟩
  | _ => exact hmem

/-- The requests that are under way are the ones of the cache. -/
theorem UnderWay.mem {inputs : List (Input V E)} {r : Read} {id : ℕ}
    (h : UnderWay settings inputs r id) :
    ∃ q ∈ (run settings inputs).requests, q.id = id ∧ q.key = r.key := by
  obtain ⟨before, now, sweptAt, after, rfl, hstart, hafter⟩ := h
  induction after using List.reverseRecOn with
  | nil =>
    have hstep := step_stepped (sound_run settings before).size (.read r now sweptAt : Input V E)
    rw [run_concat]
    rw [output] at hstart
    generalize step settings (run settings before) (.read r now sweptAt) = outcome at hstep hstart
    cases hstep with
    | hit => contradiction
    | passed =>
      obtain rfl := Output.requested.inj hstart
      exact ⟨_, List.mem_append_right _ List.mem_cons_self, rfl, rfl⟩
    | missed =>
      obtain rfl := Output.requested.inj hstart
      exact ⟨_, List.mem_append_right _ List.mem_cons_self, rfl, rfl⟩
    | late hlate => exact hlate.elim
  | append_singleton after i ih =>
    obtain ⟨q, hmem, rfl, hkey⟩ := ih fun i' hi' => hafter i' (List.mem_append_left _ hi')
    have hlast : ¬ Settles q.id i := hafter i (List.mem_append_right _ List.mem_cons_self)
    have hsize := (sound_run settings (before ++ .read r now sweptAt :: after)).size
    refine ⟨q, ?_, rfl, hkey⟩
    rw [← List.cons_append, ← List.append_assoc, run_concat]
    exact mem_requests_step hsize hmem hlast

/-- A request under way that fails settles with the error. -/
theorem output_fail {inputs : List (Input V E)} {q : Request}
    (h : q ∈ (run settings inputs).requests) (error : E) :
    output settings inputs (.fail q.id error) = .settled q.id (.error error) := by
  obtain ⟨q', hfind⟩ : ∃ q', ((run settings inputs).requests.find? fun request =>
      request.id = q.id) = some q' :=
    Option.isSome_iff_exists.mp (List.find?_isSome.mpr ⟨q, h, by simp⟩)
  simp [output, step, fail, hfind]

/-- An invalidation that covers the reads of a method with these arguments. -/
def Covers (method : ReadMethod) (args : List Argument) : Input V E → Prop
  | .read r _ _ => r.options.invalidateCache = true ∧ r.method = method ∧ r.args = args
  | .invalidate none _ => True
  | .invalidate (some m) none => m = method
  | .invalidate (some m) (some a) => m = method ∧ a = args
  | _ => False

/-- Another read of the same method with the same arguments, through the cache. -/
def Repeats (r : Read) : Input V E → Prop
  | .read r' _ _ => r'.method = r.method ∧ r'.args = r.args ∧ r'.options.bypassCache = false
  | _ => False

/-- Two reads share a key exactly when they are of one method with the same arguments. -/
theorem key_eq_iff {m n : ReadMethod} {args args' : List Argument} :
    key m args = key n args' ↔ m = n ∧ args = args' := by
  constructor
  · exact key_inj
  · rintro ⟨rfl, rfl⟩
    rfl

/-- An input clears the key of a read exactly when it covers the read. -/
theorem clears_key_iff (method : ReadMethod) (args : List Argument) (i : Input V E) :
    Clears (key method args) i ↔ Covers method args i := by
  cases i with
  | read r now sweptAt => exact and_congr_right fun _ => key_eq_iff
  | invalidate m a =>
    cases m with
    | none => exact Iff.rfl
    | some m =>
      cases a with
      | none => exact keyOf_key m method args
      | some a => exact key_eq_iff
  | _ => exact Iff.rfl

/-- An input reads the key of a read exactly when it repeats the read. -/
theorem rereads_key_iff (r : Read) (i : Input V E) : Rereads r.key i ↔ Repeats r i := by
  cases i with
  | read r' now sweptAt =>
    exact (and_congr_left fun _ => key_eq_iff).trans and_assoc
  | _ => exact Iff.rfl

/-- The value of a hit at this time: that of a request for the same method and arguments which has
succeeded less than the time to live ago. Since it was started nothing has covered the read. -/
def Serves (settings : Option Settings) (inputs : List (Input V E)) (r : Read) (now : ℕ)
    (value : V) : Prop :=
  ∃ before r' started sweptAt id mid ended after,
    inputs = before ++ .read r' started sweptAt :: (mid ++ .succeed id value ended :: after) ∧
    r'.method = r.method ∧ r'.args = r.args ∧
    output settings before (.read r' started sweptAt) = .requested id ∧
    output settings (before ++ .read r' started sweptAt :: mid) (.succeed id value ended) =
      .settled id (.ok value) ∧
    (∀ i ∈ mid ++ after, ¬ Covers r.method r.args i) ∧
    ∃ c ∈ settings, (now : ℚ) < ended + c.ttl r.method

/-- What a read through the cache is answered with is what such a request has brought. -/
theorem hit_serves {inputs : List (Input V E)} {r : Read} {now : ℕ} {sweptAt : JsString → ℕ}
    {value : Option V} (h : output settings inputs (.read r now sweptAt) = .hit value) :
    ¬ Covers r.method r.args (.read r now sweptAt : Input V E) ∧
      ∃ v, value = some v ∧ Serves settings inputs r now v := by
  have hsound := sound_run settings inputs
  have hstep := step_stepped hsound.size (.read r now sweptAt : Input V E)
  rw [output] at h
  generalize step settings (run settings inputs) (.read r now sweptAt) = outcome at hstep h
  cases hstep with
  | @hit _ _ _ e hvalid hcached hmem hfilled hlive =>
    obtain rfl := Output.hit.inj h
    obtain ⟨before, r', started, sweptAt', mid, v, ended, after, hinputs, hstart, hend, hkey,
      hvalue, ⟨c, hc, hexpires⟩, hclear⟩ := hsound.filled _ hmem hfilled
    obtain ⟨hmethod, hargs⟩ := key_inj hkey
    refine ⟨fun hcovers => ?_, v, hvalue, before, r', started, sweptAt', e.id, mid, ended, after,
      hinputs, hmethod, hargs, hstart, hend, fun i hi hcovers => ?_, c, hc, ?_⟩
    · rw [hcovers.1] at hvalid
      contradiction
    · exact hclear i hi ((clears_key_iff r.method r.args i).mpr hcovers)
    · rw [← hmethod, ← hexpires]
      exact hlive
  | late hlate => exact hlate.elim
  | _ => contradiction

/-- A request after a step has been there before, or it is new. -/
theorem exists_of_mem_requests_step (hsize : ∀ c ∈ settings, s.entries.length ≤ c.maxEntries)
    {q : Request} (hq : q ∈ (step settings s i).2.requests) :
    q.id = s.nextId ∨ q ∈ s.requests := by
  have hstep := step_stepped hsize i
  generalize step settings s i = outcome at hstep hq
  cases hstep with
  | passed =>
    rcases mem_concat.mp hq with hold | rfl
    · exact .inr hold
    · exact .inl rfl
  | missed =>
    rcases mem_concat.mp hq with hold | rfl
    · exact .inr hold
    · exact .inl rfl
  | filled => exact .inr (List.mem_filter.mp hq).1
  | superseded => exact .inr (List.mem_filter.mp hq).1
  | failed => exact .inr (List.mem_filter.mp hq).1
  | _ => exact .inr hq

/-- No request with this `id` is under way. -/
def Ended (s : ReadCache V) (id : ℕ) : Prop := ∀ q ∈ s.requests, q.id ≠ id

/-- A request that has ended does not come back. -/
theorem ended_run {inputs : List (Input V E)} {id : ℕ} (hended : Ended (run settings inputs) id)
    (hlt : id < (run settings inputs).nextId) (later : List (Input V E)) :
    Ended (run settings (inputs ++ later)) id ∧ id < (run settings (inputs ++ later)).nextId := by
  induction later using List.reverseRecOn with
  | nil => rw [List.append_nil]; exact ⟨hended, hlt⟩
  | append_singleton later i ih =>
    have hsize := (sound_run settings (inputs ++ later)).size
    rw [← List.append_assoc, run_concat]
    refine ⟨fun q hq hid => ?_, ih.2.trans_le (nextId_le_step hsize i)⟩
    rcases exists_of_mem_requests_step hsize hq with hnew | hold
    · exact ih.2.ne (hid.symm.trans hnew)
    · exact ih.1 q hold hid

/-- A read settles with the end of its own request, which is then no longer under way. -/
theorem settled_step (hsize : ∀ c ∈ settings, s.entries.length ≤ c.maxEntries) {id : ℕ}
    {outcome : Except E V} (h : (step settings s i).1 = .settled id outcome) :
    ((∃ value now, i = .succeed id value now ∧ outcome = .ok value) ∨
      ∃ error, i = .fail id error ∧ outcome = .error error) ∧
    (∃ q ∈ s.requests, q.id = id) ∧ Ended (step settings s i).2 id := by
  have hstep := step_stepped hsize i
  generalize step settings s i = result at hstep h
  have hgone : ∀ id : ℕ, ∀ q ∈ s.requests.filter (fun request => request.id ≠ id), q.id ≠ id :=
    fun id q hq => of_decide_eq_true (List.mem_filter.mp hq).2
  cases hstep with
  | @filled q value now hmem =>
    obtain ⟨rfl, rfl⟩ := Output.settled.inj h
    exact ⟨.inl ⟨value, now, rfl, rfl⟩, ⟨q, hmem, rfl⟩, hgone q.id⟩
  | @superseded q value now hmem =>
    obtain ⟨rfl, rfl⟩ := Output.settled.inj h
    exact ⟨.inl ⟨value, now, rfl, rfl⟩, ⟨q, hmem, rfl⟩, hgone q.id⟩
  | @failed q error hmem =>
    obtain ⟨rfl, rfl⟩ := Output.settled.inj h
    exact ⟨.inr ⟨error, rfl, rfl⟩, ⟨q, hmem, rfl⟩, hgone q.id⟩
  | _ => contradiction

/-- A read that has settled does not settle again. -/
theorem settled_once {inputs : List (Input V E)} {id : ℕ} {outcome : Except E V}
    (h : output settings inputs i = .settled id outcome) (later : List (Input V E))
    (j : Input V E) (outcome' : Except E V) :
    output settings (inputs ++ i :: later) j ≠ .settled id outcome' := by
  intro hagain
  have hsound := sound_run settings inputs
  obtain ⟨-, ⟨q, hmem, rfl⟩, hended⟩ := settled_step hsound.size h
  rw [← run_concat] at hended
  have hlt : q.id < (run settings (inputs ++ [i])).nextId := by
    rw [run_concat]
    exact (hsound.requests_lt q hmem).trans_le (nextId_le_step hsound.size i)
  have hlater := (ended_run hended hlt later).1
  rw [List.append_assoc, List.singleton_append] at hlater
  obtain ⟨-, ⟨q', hmem', hid⟩, -⟩ :=
    settled_step (sound_run settings (inputs ++ i :: later)).size hagain
  exact hlater q' hmem' hid

/-- A read is answered, or it starts a request. -/
theorem read_output (settings : Option Settings) (inputs : List (Input V E)) (r : Read) (now : ℕ)
    (sweptAt : JsString → ℕ) :
    (∃ value, output settings inputs (.read r now sweptAt) = .hit value) ∨
      ∃ id, output settings inputs (.read r now sweptAt) = .requested id ∧
        UnderWay settings (inputs ++ [.read r now sweptAt]) r id := by
  have hstep := step_stepped (sound_run settings inputs).size (.read r now sweptAt : Input V E)
  have hstarted : ∀ id, output settings inputs (.read r now sweptAt) = .requested id →
      UnderWay settings (inputs ++ [.read r now sweptAt]) r id :=
    fun id hid => ⟨inputs, now, sweptAt, [], rfl, hid, fun _ h => absurd h List.not_mem_nil⟩
  rw [output] at hstarted ⊢
  generalize step settings (run settings inputs) (.read r now sweptAt) = outcome at hstep hstarted
  cases hstep with
  | hit => exact .inl ⟨_, rfl⟩
  | passed => exact .inr ⟨_, rfl, hstarted _ rfl⟩
  | missed => exact .inr ⟨_, rfl, hstarted _ rfl⟩
  | late hlate => exact hlate.elim

/-- A request that has been superseded does not fill an entry, then or later. -/
theorem UnderWay.unheld_run {inputs : List (Input V E)} {r : Read} {id : ℕ}
    (h : UnderWay settings inputs r id)
    (hi : Covers r.method r.args i ∨ Repeats r i ∨ (∃ error, i = .fail id error) ∨
      Unheld (run settings (inputs ++ [i])) id) (later : List (Input V E)) :
    Unheld (run settings (inputs ++ i :: later)) id := by
  have hsound := sound_run settings inputs
  obtain ⟨q, hmem, rfl, hkey⟩ := h.mem
  have hlt : q.id < (run settings (inputs ++ [i])).nextId := by
    rw [run_concat]
    exact (hsound.requests_lt q hmem).trans_le (nextId_le_step hsound.size i)
  have hfirst : Unheld (run settings (inputs ++ [i])) q.id := by
    rcases hi with hcovers | hrepeats | herror | hunheld
    · rw [run_concat]
      have hclears : Clears q.key i := by
        rw [hkey]
        exact (clears_key_iff r.method r.args i).mpr hcovers
      exact hsound.unheld_step hmem (.inl hclears)
    · rw [run_concat]
      have hrereads : Rereads q.key i := by
        rw [hkey]
        exact (rereads_key_iff r i).mpr hrepeats
      exact hsound.unheld_step hmem (.inr (.inl hrereads))
    · rw [run_concat]
      exact hsound.unheld_step hmem (.inr (.inr herror))
    · exact hunheld
  rw [← List.singleton_append, ← List.append_assoc]
  exact (Sdk.unheld_run hfirst hlt later).1

/-- The end of a request whose entry is gone changes no entry. -/
theorem entries_of_unheld (hsize : ∀ c ∈ settings, s.entries.length ≤ c.maxEntries) {id : ℕ}
    (hunheld : Unheld s id) (value : V) (now : ℕ) :
    (step settings s (.succeed id value now : Input V E)).2.entries = s.entries := by
  have hstep := step_stepped hsize (.succeed id value now : Input V E)
  generalize step settings s (.succeed id value now) = outcome at hstep
  cases hstep with
  | filled hmem hholds =>
    obtain ⟨e, hget, hid⟩ := (Option.any_eq_true _ _).mp (Bool.and_eq_true_iff.mp hholds).2
    exact absurd (of_decide_eq_true hid) (hunheld _ (mem_of_mapGet hget))
  | superseded => rfl
  | late => rfl

/-- For every row of reads, ends of requests and invalidations:
a hit returns what a successful request for the same method and arguments has brought, which was
started since the read was last invalidated and has ended less than the time to live ago;
once a read is invalidated, repeated through the cache or failed, or its entry is evicted, its
request fills no entry any more;
each read that is not a hit settles with the outcome of its own request, and at most once;
and there are never more entries than there may be. -/
theorem readCache_coherent (settings : Option Settings) (inputs : List (Input V E)) :
    (∀ r now sweptAt value, output settings inputs (.read r now sweptAt) = .hit value →
      r.options.invalidateCache = false ∧
        ∃ v, value = some v ∧ Serves settings inputs r now v) ∧
    (∀ r id i, UnderWay settings inputs r id →
      (Covers r.method r.args i ∨ Repeats r i ∨ (∃ error, i = .fail id error) ∨
        Unheld (run settings (inputs ++ [i])) id) →
      ∀ later, Unheld (run settings (inputs ++ i :: later)) id ∧
        ∀ value now, (run settings (inputs ++ i :: later ++ [.succeed id value now])).entries =
          (run settings (inputs ++ i :: later)).entries) ∧
    (∀ r now sweptAt, (∃ value, output settings inputs (.read r now sweptAt) = .hit value) ∨
      ∃ id, output settings inputs (.read r now sweptAt) = .requested id ∧
        UnderWay settings (inputs ++ [.read r now sweptAt]) r id) ∧
    (∀ r id, UnderWay settings inputs r id →
      (∀ value now, output settings inputs (.succeed id value now) = .settled id (.ok value)) ∧
      ∀ error, output settings inputs (.fail id error) = .settled id (.error error)) ∧
    (∀ i id outcome, output settings inputs i = .settled id outcome →
      ((∃ value now, i = .succeed id value now ∧ outcome = .ok value) ∨
        ∃ error, i = .fail id error ∧ outcome = .error error) ∧
      ∀ later j outcome', output settings (inputs ++ i :: later) j ≠ .settled id outcome') ∧
    ∀ c ∈ settings, (run settings inputs).entries.length ≤ c.maxEntries := by
  have hsound := sound_run settings inputs
  refine ⟨fun r now sweptAt value hhit => ?_, fun r id i hunder hi later => ?_,
    read_output settings inputs, fun r id hunder => ?_, fun i id outcome hsettled => ?_, hsound.size⟩
  · obtain ⟨hcovers, hserves⟩ := hit_serves hhit
    exact ⟨Bool.eq_false_iff.mpr fun h => hcovers ⟨h, rfl, rfl⟩, hserves⟩
  · have hunheld := hunder.unheld_run hi later
    refine ⟨hunheld, fun value now => ?_⟩
    rw [run_concat]
    exact entries_of_unheld (sound_run settings _).size hunheld value now
  · obtain ⟨q, hmem, rfl, -⟩ := hunder.mem
    exact ⟨output_succeed hmem, output_fail hmem⟩
  · exact ⟨(settled_step hsound.size hsettled).1, settled_once hsettled⟩

/-- A repeated read is answered, unless its request ended after an invalidation. -/
example (v : V) (method : ReadMethod) (args : List Argument) :
    let settings : Settings := ⟨fun _ => 5, 1, fun _ => by decide, Nat.one_pos⟩
    let reading : Input V E := .read ⟨method, args, ⟨false, false⟩⟩ 4 fun _ => 0
    output (some settings) [reading, .succeed 0 v 0] reading = .hit (some v) ∧
      output (some settings) [reading, .invalidate none none, .succeed 0 v 0] reading =
        .requested 1 := by
  have hlive : (4 : ℚ) < 5 := by decide
  constructor <;>
    simp [output, run, step, read, request, succeed, holds, invalidate, mapGet, mapDelete, mapSet,
      mapAdjust, ReadCache.empty, Option.filter, hlive]

end Steps

end Quorum.Sdk

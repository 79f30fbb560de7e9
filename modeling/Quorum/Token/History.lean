import Quorum.Foundation.Journal
import Quorum.Token.Boost
import Quorum.Token.Representation

/-!
# Time travel

The token keeps four histories: the balances, the votes, the locks and the supply. Each is
written only at the current ledger, and pruned only behind the retention window, so that what
is read for a closed ledger is what was live when it closed.

A run starts empty, or from a legacy state that holds balances with their checkpoints but knows
neither vote checkpoints nor delegations nor stakes.
-/

namespace Quorum.Token

open Foundation Contract

variable {s s' : Storage} {now start : ℕ} {a : Address}

/-- The ledger before which histories may be pruned at the ledger `now`. -/
def retained (now : ℕ) : ℕ := now - checkpointRetention

/-! ## What the writes do to the histories -/

/-- A history kept for its owner is kept for everyone. -/
theorem journaled_update {E : Type} {time : E → ℕ} {cutoff : ℕ} {histories : Address → List E}
    {owner : Address} {entries : List E}
    (h : Journaled time cutoff now (histories owner) entries) :
    Journaled time cutoff now (histories a) (Function.update histories owner entries a) := by
  by_cases ha : a = owner
  · subst ha
    rwa [Function.update_self]
  · rw [Function.update_of_ne ha]

/-- Recording a checkpoint and pruning is one write. -/
theorem journaled_written (history : List Checkpoint) (value : I128) :
    Journaled Checkpoint.ledger (retained now) now history
      (pruned Checkpoint.ledger now (record history now value)) :=
  .single ⟨⟨now, value⟩, rfl, rfl⟩

namespace Write

/-- Every write keeps the balance histories. -/
theorem checkpoints (h : Write now s s') (a : Address) :
    Journaled Checkpoint.ledger (retained now) now (checkpoints s a) (checkpoints s' a) := by
  cases h with
  | balance owner newBalance hset =>
    obtain ⟨-, votes, -, rfl⟩ := hset
    rw [checkpoints_putBalance]
    exact journaled_update (journaled_written _ _)
  | supply supply => exact .refl
  | delegation delegator delegatee hset =>
    obtain ⟨pv, nv, -, -, -, hagrees⟩ := hset
    rw [hagrees.checkpoints_eq]
    exact .refl
  | lock owner lock hledger hunlock hamount => exact .refl
  | inert hagrees => rw [hagrees.checkpoints_eq]

/-- Every write keeps the vote histories. -/
theorem voteCheckpoints (hc : Coherent now s) (h : Write now s s') (a : Address) :
    Journaled Checkpoint.ledger (retained now) now (voteCheckpoints s a)
      (voteCheckpoints s' a) := by
  cases h with
  | balance owner newBalance hset =>
    obtain ⟨-, votes, -, rfl⟩ := hset
    rw [voteCheckpoints_putBalance fun hnone => hc.represents_self hnone]
    exact journaled_update (journaled_written _ _)
  | supply supply => exact .refl
  | delegation delegator delegatee hset =>
    obtain ⟨pv, nv, hne, -, -, hagrees⟩ := hset
    rw [hagrees.voteCheckpoints_eq, voteCheckpoints_putDelegate pv nv hne]
    apply (journaled_update (journaled_written (Token.voteCheckpoints s _) pv)).trans
    apply journaled_update
    rw [Function.update_of_ne hne.symm]
    exact journaled_written _ _
  | lock owner lock hledger hunlock hamount => exact .refl
  | inert hagrees => rw [hagrees.voteCheckpoints_eq]

/-- Every write keeps the lock histories. -/
theorem locks (h : Write now s s') (a : Address) :
    Journaled Lock.ledger (retained now) now (locks s a) (locks s' a) := by
  cases h with
  | balance owner newBalance hset =>
    obtain ⟨-, votes, -, rfl⟩ := hset
    exact .refl
  | supply supply => exact .refl
  | delegation delegator delegatee hset =>
    obtain ⟨pv, nv, -, -, -, hagrees⟩ := hset
    rw [hagrees.locks_eq]
    exact .refl
  | lock owner lock hledger hunlock hamount =>
    rw [locks_putLock]
    exact journaled_update (.single ⟨lock, hledger, rfl⟩)
  | inert hagrees => rw [hagrees.locks_eq]

/-- The supply history is never pruned. -/
theorem supplyCheckpoints (h : Write now s s') :
    Journaled Checkpoint.ledger 0 now (supplyCheckpoints s) (supplyCheckpoints s') := by
  cases h with
  | balance owner newBalance hset =>
    obtain ⟨-, votes, -, rfl⟩ := hset
    exact .refl
  | supply supply =>
    refine .single ⟨⟨now, supply⟩, rfl, ?_⟩
    rw [prune_zero]
    rfl
  | delegation delegator delegatee hset =>
    obtain ⟨pv, nv, -, -, -, hagrees⟩ := hset
    rw [hagrees.supplyCheckpoints_eq]
    exact .refl
  | lock owner lock hledger hunlock hamount => exact .refl
  | inert hagrees => rw [hagrees.supplyCheckpoints_eq]

end Write

/-- A history that every write keeps is kept by every call. -/
theorem Writes.journaled {E : Type} {time : E → ℕ} {cutoff : ℕ} {history : Storage → List E}
    (hwrite : ∀ s s', Coherent now s → Write now s s' →
      Journaled time cutoff now (history s) (history s'))
    (hc : Coherent now s) (h : Writes now s s') :
    Journaled time cutoff now (history s) (history s') := by
  induction h with
  | refl => exact .refl
  | tail hfirst hlast ih => exact ih.trans (hwrite _ _ (hc.writes hfirst) hlast)

/-- A chronological history that every write keeps is kept by the machine. -/
theorem keeps_of_write {E : Type} {time : E → ℕ} {cutoff : ℕ → ℕ} {history : Storage → List E}
    (hchronological : ∀ now s, Coherent now s → Chronological time now (history s))
    (hwrite : ∀ now s s', Coherent now s → Write now s s' →
      Journaled time (cutoff now) now (history s) (history s')) :
    Keeps machine Coherent time cutoff history where
  mono _ _ _ h hle := h.mono hle
  step i s h := h.writes (machine_writes i s)
  chronological := hchronological
  journaled i s h := Writes.journaled (hwrite i.env.sequence) h (machine_writes i s)

/-- The machine keeps the balance histories. -/
theorem keeps_checkpoints (a : Address) :
    Keeps machine Coherent Checkpoint.ledger retained fun s => checkpoints s a :=
  keeps_of_write (fun _ _ hc => hc.checkpoints a) fun _ _ _ _ h => h.checkpoints a

/-- The machine keeps the vote histories. -/
theorem keeps_voteCheckpoints (a : Address) :
    Keeps machine Coherent Checkpoint.ledger retained fun s => voteCheckpoints s a :=
  keeps_of_write (fun _ _ hc => hc.votes a) fun _ _ _ hc h => h.voteCheckpoints hc a

/-- The machine keeps the lock histories. -/
theorem keeps_locks (a : Address) :
    Keeps machine Coherent Lock.ledger retained fun s => locks s a :=
  keeps_of_write (fun _ _ hc => hc.locks a) fun _ _ _ _ h => h.locks a

/-- The supply history is in order and ends in the supply. -/
structure SupplyCoherent (now : ℕ) (s : Storage) : Prop where
  checkpoints : Chronological Checkpoint.ledger now (supplyCheckpoints s)
  latest_supply : latest (supplyCheckpoints s) = totalSupply s

/-- Every write keeps the supply history in order and ending in the supply. -/
theorem SupplyCoherent.write (h : SupplyCoherent now s) (hw : Write now s s') :
    SupplyCoherent now s' := by
  cases hw with
  | balance owner newBalance hset =>
    obtain ⟨-, votes, -, rfl⟩ := hset
    exact ⟨h.checkpoints, h.latest_supply⟩
  | supply supply =>
    refine ⟨Chronological.record (e := (⟨now, supply⟩ : Checkpoint)) h.checkpoints rfl, ?_⟩
    change latest (record (supplyCheckpoints s) now supply) = supply
    rw [latest, record, getLast?_record, valueOf]
  | delegation delegator delegatee hset =>
    obtain ⟨pv, nv, -, -, -, hagrees⟩ := hset
    exact ⟨by rw [hagrees.supplyCheckpoints_eq]; exact h.checkpoints, by
      rw [hagrees.supplyCheckpoints_eq, hagrees.totalSupply_eq]; exact h.latest_supply⟩
  | lock owner lock hledger hunlock hamount => exact ⟨h.checkpoints, h.latest_supply⟩
  | inert hagrees =>
    exact ⟨by rw [hagrees.supplyCheckpoints_eq]; exact h.checkpoints, by
      rw [hagrees.supplyCheckpoints_eq, hagrees.totalSupply_eq]; exact h.latest_supply⟩

/-- Every row of writes keeps the supply history in order and ending in the supply. -/
theorem SupplyCoherent.writes (h : SupplyCoherent now s) (hw : Writes now s s') :
    SupplyCoherent now s' := by
  induction hw with
  | refl => exact h
  | tail _ hlast ih => exact ih.write hlast

/-- No write prunes the supply history. -/
theorem Writes.supplyCheckpoints (h : Writes now s s') :
    Journaled Checkpoint.ledger 0 now (supplyCheckpoints s) (supplyCheckpoints s') := by
  induction h with
  | refl => exact .refl
  | tail _ hlast ih => exact ih.trans hlast.supplyCheckpoints

/-- The machine keeps the supply history whole. -/
theorem keeps_supplyCheckpoints :
    Keeps machine SupplyCoherent Checkpoint.ledger (fun _ => 0) supplyCheckpoints where
  mono _ _ _ h hle := ⟨h.checkpoints.mono hle, h.latest_supply⟩
  step i s h := h.writes (machine_writes i s)
  chronological _ _ h := h.checkpoints
  journaled i s _ := (machine_writes i s).supplyCheckpoints

/-! ## Where a run starts -/

/-- A state in which a run may start: empty, or a consistent state from before the token knew
vote checkpoints, delegations and stakes. `past` are the balances that were live at the close of
each ledger before the start; the stored checkpoints give them exactly within the retention
window, and beyond it exactly or not at all. -/
structure Genesis where
  state : Storage
  start : ℕ
  past : ℕ → Address → I128
  checkpoints : ∀ a, Chronological Checkpoint.ledger start (checkpoints state a)
  latest_balance : ∀ a, latest (Token.checkpoints state a) = balance state a
  exact : ∀ a L, L < start → start ≤ L + checkpointRetention →
    getPastBalance state a L = past L a
  stale : ∀ a L, L < start → getPastBalance state a L = past L a ∨ getPastBalance state a L = 0
  noVotes : ∀ a, state.voteCheckpointsEntry a = none
  noDelegates : ∀ a, state.delegateEntry a = none
  noLocks : ∀ a, state.locksEntry a = none

namespace Genesis

/-- A freshly deployed token. -/
def empty (start : ℕ) : Genesis where
  state := Storage.empty
  start := start
  past := fun _ _ => 0
  checkpoints _ := .nil
  latest_balance _ := rfl
  exact _ _ _ _ := rfl
  stale _ _ _ := .inl rfl
  noVotes _ := rfl
  noDelegates _ := rfl
  noLocks _ := rfl

/-- The storage of a legacy token all of whose supply has been with one holder since some
ledger. -/
def singleHolderState (holder : Address) (amount : I128) (since : ℕ) : Storage :=
  { Storage.empty with
    totalSupplyEntry := some amount
    balanceEntry := Function.update Storage.empty.balanceEntry holder (some amount)
    checkpointsEntry :=
      Function.update Storage.empty.checkpointsEntry holder (some [⟨since, amount⟩]) }

/-- Only the holder has a checkpoint, the one of the start. -/
theorem checkpoints_singleHolderState (holder : Address) (amount : I128) (since : ℕ)
    (a : Address) : Token.checkpoints (singleHolderState holder amount since) a =
      if a = holder then [⟨since, amount⟩] else [] := by
  by_cases ha : a = holder
  · subst ha
    simp [Token.checkpoints, singleHolderState]
  · simp [Token.checkpoints, singleHolderState, ha, Storage.empty]

/-- Past balances are the holder's amount since it is there. -/
theorem getPastBalance_singleHolderState (holder : Address) (amount : I128) (since L : ℕ)
    (a : Address) : getPastBalance (singleHolderState holder amount since) a L =
      if a = holder ∧ since ≤ L then amount else 0 := by
  rw [getPastBalance, checkpoints_singleHolderState]
  by_cases ha : a = holder
  · by_cases hL : since ≤ L <;> simp [ha, hL, valueAt, newestWhere, searchLoop]
  · simp [ha, valueAt, newestWhere, searchLoop]

/-- The legacy token of a single holder. -/
def singleHolder (holder : Address) (amount : I128) (since start : ℕ) (h : since ≤ start) :
    Genesis where
  state := singleHolderState holder amount since
  start := start
  past L a := if a = holder ∧ since ≤ L then amount else 0
  checkpoints a := by
    rw [checkpoints_singleHolderState]
    split
    · exact ⟨by simp, by simpa using h⟩
    · exact .nil
  latest_balance a := by
    rw [checkpoints_singleHolderState]
    by_cases ha : a = holder
    · subst ha
      simp [latest, valueOf, balance, singleHolderState]
    · simp [latest, valueOf, balance, singleHolderState, ha, Storage.empty]
  exact a L _ _ := getPastBalance_singleHolderState holder amount since L a
  stale a L _ := .inl (getPastBalance_singleHolderState holder amount since L a)
  noVotes _ := rfl
  noDelegates _ := rfl
  noLocks _ := rfl

variable (g : Genesis) (calls : List Invocation)

/-- The balance of an account when a ledger closes. -/
def balanceAtClose (a : Address) (L : ℕ) : I128 :=
  if L < g.start then g.past L a else balance (machine.stateBefore g.state calls (L + 1)) a

/-- The balances of the holders an account represents when a ledger closes. Before the start
everybody represents himself. -/
def votesAtClose (a : Address) (L : ℕ) : ℤ :=
  if L < g.start then (g.past L a).val
  else liveVotes (machine.stateBefore g.state calls (L + 1)) a

/-- The stake state that the operations made strictly before a ledger leave. -/
def stakeBefore (a : Address) (L : ℕ) : Option Lock :=
  currentLock (locks (machine.stateBefore g.state calls L) a)

/-- Without vote checkpoints the balance histories are read for them. -/
theorem voteCheckpoints_eq (a : Address) :
    voteCheckpoints g.state a = Token.checkpoints g.state a := by
  rw [voteCheckpoints, g.noVotes]

/-- Before any delegation everybody represents himself. -/
theorem getDelegates_eq (a : Address) : getDelegates g.state a = a := by
  rw [getDelegates, g.noDelegates, Option.getD_none]

/-- A legacy state holds no locks. -/
theorem locks_eq (a : Address) : locks g.state a = [] := by
  rw [locks, g.noLocks, Option.getD_none]

/-- A legacy state is coherent. -/
theorem coherent : Coherent g.start g.state where
  checkpoints := g.checkpoints
  votes a := by
    rw [g.voteCheckpoints_eq]
    exact g.checkpoints a
  locks a := by
    rw [g.locks_eq]
    exact .nil
  locks_bounded a lock hlock := by
    rw [g.locks_eq] at hlock
    contradiction
  latest_balance := g.latest_balance
  latest_votes d := by
    rw [g.voteCheckpoints_eq, g.latest_balance, liveVotes, delegated]
    simp only [g.getDelegates_eq]
    rw [Finset.sum_ite_eq' Finset.univ d (weight g.state), if_pos (Finset.mem_univ d)]
    rfl
  unmaterialized a _ h := by rw [g.getDelegates_eq]

end Genesis

/-! ## Reading what is closed -/

section Readings

variable {Inv : ℕ → Storage → Prop} {cutoff : ℕ → ℕ} {history : Storage → List Checkpoint}
  {calls : List Invocation} {L : ℕ}

/-- What a history gives for a ledger when the ledger closes. -/
def closingValue (history : Storage → List Checkpoint) (start L : ℕ) (s : Storage)
    (calls : List Invocation) : I128 :=
  if L < start then valueAt (history s) L
  else latest (history (machine.stateBefore s calls (L + 1)))

/-- The newest entry at the close of a ledger gives the closing value. -/
theorem valueOf_closing (hk : Keeps machine Inv Checkpoint.ledger cutoff history)
    (hs : Inv start s) :
    valueOf (Keeps.closing machine Checkpoint.ledger history start (L + 1) s calls) =
      closingValue history start L s calls := by
  unfold Keeps.closing closingValue
  by_cases hlt : L < start
  · rw [if_pos (by omega), if_pos hlt, valueAt_eq (hk.chronological _ _ hs)]
  · rw [if_neg (by omega), if_neg hlt, latest]

/-- A kept history is in order after every run. -/
theorem Keeps.chronological_run (hk : Keeps machine Inv Checkpoint.ledger cutoff history)
    (hs : Inv start s) (hcalls : machine.Scheduled start now calls) :
    Chronological Checkpoint.ledger now (history (machine.run s calls)) :=
  hk.chronological _ _ (machine.run_invariant Inv hk.mono hk.step hs hcalls)

/-- Within the window of a history the reading of a ledger is its closing value. -/
theorem valueAt_run_eq (hk : Keeps machine Inv Checkpoint.ledger cutoff history) (hs : Inv start s)
    (hcalls : machine.Scheduled start now calls) (hcutoff : ∀ t ≤ now, cutoff t ≤ L + 1) :
    valueAt (history (machine.run s calls)) L = closingValue history start L s calls := by
  rw [valueAt_eq (Keeps.chronological_run hk hs hcalls), hk.run_eq hs hcalls hcutoff,
    valueOf_closing hk hs]

/-- Beyond the window the reading is the closing value, or 0 once it has been pruned. -/
theorem valueAt_run_or (hk : Keeps machine Inv Checkpoint.ledger cutoff history) (hs : Inv start s)
    (hcalls : machine.Scheduled start now calls) :
    valueAt (history (machine.run s calls)) L = closingValue history start L s calls ∨
      valueAt (history (machine.run s calls)) L = 0 := by
  rw [valueAt_eq (Keeps.chronological_run hk hs hcalls)]
  rcases hk.run_or hs hcalls (L + 1) with h | h
  · rw [h, valueOf_closing hk hs]
    exact .inl rfl
  · rw [h]
    exact .inr rfl

/-- The reading is the closing value as long as the stored history reaches back that far, and 0
after that. -/
theorem valueAt_run_eq_ite (hk : Keeps machine Inv Checkpoint.ledger cutoff history)
    (hs : Inv start s) (hcalls : machine.Scheduled start now calls) (L : ℕ) :
    valueAt (history (machine.run s calls)) L =
      if reachesBack Checkpoint.ledger (L + 1) (history (machine.run s calls)) = true then
        closingValue history start L s calls
      else 0 := by
  rw [valueAt_eq (Keeps.chronological_run hk hs hcalls), hk.run_eq_ite hs hcalls (L + 1)]
  split
  · rw [valueOf_closing hk hs]
  · rfl

end Readings

namespace Genesis

variable (g : Genesis) {calls : List Invocation} {L : ℕ}

/-- The state at the close of a ledger is coherent. -/
theorem coherent_before (hcalls : machine.Scheduled g.start now calls) (hL : g.start ≤ L) :
    Coherent L (machine.stateBefore g.state calls (L + 1)) :=
  g.coherent.run (hcalls.before hL le_rfl)

/-- The closing value of a balance history is the balance at the close. -/
theorem closingValue_checkpoints (hcalls : machine.Scheduled g.start now calls) (a : Address)
    (hexact : L < g.start → getPastBalance g.state a L = g.past L a) :
    closingValue (fun s => Token.checkpoints s a) g.start L g.state calls =
      g.balanceAtClose calls a L := by
  unfold closingValue balanceAtClose
  by_cases hlt : L < g.start
  · rw [if_pos hlt, if_pos hlt]
    exact hexact hlt
  · rw [if_neg hlt, if_neg hlt]
    exact (g.coherent_before hcalls (Nat.not_lt.mp hlt)).latest_balance a

/-- The closing value of a vote history is what the account represents at the close. -/
theorem closingValue_voteCheckpoints (hcalls : machine.Scheduled g.start now calls) (a : Address)
    (hexact : L < g.start → getPastBalance g.state a L = g.past L a) :
    (closingValue (fun s => voteCheckpoints s a) g.start L g.state calls).val =
      g.votesAtClose calls a L := by
  unfold closingValue votesAtClose
  by_cases hlt : L < g.start
  · rw [if_pos hlt, if_pos hlt]
    change (valueAt (voteCheckpoints g.state a) L).val = _
    rw [g.voteCheckpoints_eq]
    exact congrArg I128.val (hexact hlt)
  · rw [if_neg hlt, if_neg hlt]
    exact (g.coherent_before hcalls (Nat.not_lt.mp hlt)).latest_votes a

/-- A legacy history that has lost a ledger reads it as 0. -/
theorem closingValue_lost (calls : List Invocation) (a : Address)
    (hlost : ¬ (L < g.start → getPastBalance g.state a L = g.past L a)) :
    closingValue (fun s => Token.checkpoints s a) g.start L g.state calls = 0 ∧
      closingValue (fun s => voteCheckpoints s a) g.start L g.state calls = 0 := by
  rw [Classical.not_imp] at hlost
  obtain ⟨hlt, hne⟩ := hlost
  have hzero := (g.stale a L hlt).resolve_left hne
  unfold closingValue
  rw [if_pos hlt, if_pos hlt]
  refine ⟨hzero, ?_⟩
  change valueAt (voteCheckpoints g.state a) L = 0
  rw [g.voteCheckpoints_eq]
  exact hzero

/-- The lock that closes before a ledger is the stake state the earlier operations leave. -/
theorem held_closing (hcalls : machine.Scheduled g.start now calls) (a : Address) (L : ℕ) :
    held (Keeps.closing machine Lock.ledger (fun s => locks s a) g.start L g.state calls) =
      g.stakeBefore calls a L := by
  unfold Keeps.closing stakeBefore
  rw [currentLock_eq]
  by_cases hle : L ≤ g.start
  · rw [if_pos hle, Clocked.stateBefore, hcalls.before_eq_nil hle, Clocked.run_nil]
    simp only [g.locks_eq]
    rfl
  · rw [if_neg hle]

end Genesis

/-- The three readings of a closed ledger are what was live when it closed. -/
structure ReadsExactly (g : Genesis) (calls : List Invocation) (a : Address) (L : ℕ)
    (s : Storage) : Prop where
  balance : getPastBalance s a L = g.balanceAtClose calls a L
  votes : (valueAt (voteCheckpoints s a) L).val = g.votesAtClose calls a L
  boost : ∃ boost, (lockBoost a L).Returns s boost s ∧
    boost.val = boostOf (g.stakeBefore calls a L) L ∧
    (getPastVotes a L).Returns s ((valueAt (voteCheckpoints s a) L).saturatingAdd boost) s

/-- Each of the three readings of a closed ledger is what was live when it closed, or 0. -/
structure ReadsOrZero (g : Genesis) (calls : List Invocation) (a : Address) (L : ℕ)
    (s : Storage) : Prop where
  balance : getPastBalance s a L = g.balanceAtClose calls a L ∨ getPastBalance s a L = 0
  votes : (valueAt (voteCheckpoints s a) L).val = g.votesAtClose calls a L ∨
    valueAt (voteCheckpoints s a) L = 0
  boost : ∃ boost, (lockBoost a L).Returns s boost s ∧
    (boost.val = boostOf (g.stakeBefore calls a L) L ∨ boost = 0) ∧
    (getPastVotes a L).Returns s ((valueAt (voteCheckpoints s a) L).saturatingAdd boost) s

section TimeTravel

variable {g : Genesis} {calls : List Invocation} {L : ℕ}

/-- Past votes are the recorded value and the boost, added with saturation. -/
theorem getPastVotes_returns {boost : I128} (h : (lockBoost a L).Returns s boost s) :
    (getPastVotes a L).Returns s ((valueAt (voteCheckpoints s a) L).saturatingAdd boost) s := by
  rw [getPastVotes, returns_read_bind_iff]
  exact h.bind rfl

/-- Within the retention window the readings are exact. -/
theorem readsExactly_run (hcalls : machine.Scheduled g.start now calls)
    (hretained : now ≤ L + checkpointRetention) (a : Address) :
    ReadsExactly g calls a L (machine.run g.state calls) := by
  have hcutoff : ∀ t ≤ now, retained t ≤ L := by
    intro t ht
    unfold retained
    omega
  have hexact : L < g.start → getPastBalance g.state a L = g.past L a :=
    fun hlt => g.exact a L hlt (hcalls.le.trans hretained)
  have hcoherent := g.coherent.run hcalls
  refine ⟨?_, ?_, ?_⟩
  · rw [← g.closingValue_checkpoints hcalls a hexact]
    exact valueAt_run_eq (keeps_checkpoints a) g.coherent hcalls
      fun t ht => Nat.le_succ_of_le (hcutoff t ht)
  · rw [← g.closingValue_voteCheckpoints hcalls a hexact]
    exact congrArg I128.val (valueAt_run_eq (keeps_voteCheckpoints a) g.coherent hcalls
      fun t ht => Nat.le_succ_of_le (hcutoff t ht))
  · obtain ⟨boost, hret, hval⟩ := lockBoost_returns hcoherent a L
    refine ⟨boost, hret, ?_, getPastVotes_returns hret⟩
    rw [hval, (keeps_locks a).run_eq g.coherent hcalls hcutoff, g.held_closing hcalls]

/-- Whatever has been pruned, the readings are exact or 0. -/
theorem readsOrZero_run (hcalls : machine.Scheduled g.start now calls) (a : Address) (L : ℕ) :
    ReadsOrZero g calls a L (machine.run g.state calls) := by
  have hcoherent := g.coherent.run hcalls
  have hbalance := valueAt_run_or (L := L) (keeps_checkpoints a) g.coherent hcalls
  have hvotes := valueAt_run_or (L := L) (keeps_voteCheckpoints a) g.coherent hcalls
  obtain ⟨boost, hret, hval⟩ := lockBoost_returns hcoherent a L
  have hboost : boost.val = boostOf (g.stakeBefore calls a L) L ∨ boost = 0 := by
    rcases (keeps_locks a).run_or g.coherent hcalls L with h | h
    · left
      rw [hval, h, g.held_closing hcalls]
    · right
      rw [h] at hval
      exact I128.ext hval
  by_cases hpast : L < g.start → getPastBalance g.state a L = g.past L a
  · refine ⟨?_, ?_, boost, hret, hboost, getPastVotes_returns hret⟩
    · rw [← g.closingValue_checkpoints hcalls a hpast]
      exact hbalance
    · rw [← g.closingValue_voteCheckpoints hcalls a hpast]
      exact hvotes.imp_left (congrArg I128.val)
  · obtain ⟨hlost, hlostvotes⟩ := g.closingValue_lost calls a hpast
    refine ⟨.inr ?_, .inr ?_, boost, hret, hboost, getPastVotes_returns hret⟩
    · rw [hlost, or_self] at hbalance
      exact hbalance
    · rw [hlostvotes, or_self] at hvotes
      exact hvotes

/-- In a run started empty the supply of a closed ledger is exact, however long ago it was. -/
theorem getPastTotalSupply_run (hcalls : machine.Scheduled start now calls) (L : ℕ) :
    getPastTotalSupply (machine.run Storage.empty calls) L =
      totalSupply (machine.stateBefore Storage.empty calls (L + 1)) := by
  have hempty : SupplyCoherent start Storage.empty := ⟨.nil, rfl⟩
  have hread : getPastTotalSupply (machine.run Storage.empty calls) L =
      closingValue supplyCheckpoints start L Storage.empty calls :=
    valueAt_run_eq keeps_supplyCheckpoints hempty hcalls fun _ _ => Nat.zero_le _
  rw [hread, closingValue]
  by_cases hlt : L < start
  · rw [if_pos hlt, Clocked.stateBefore, hcalls.before_eq_nil hlt, Clocked.run_nil]
    rfl
  · rw [if_neg hlt]
    have hbefore : machine.Scheduled start L (machine.before (L + 1) calls) :=
      hcalls.before (Nat.not_lt.mp hlt) le_rfl
    exact (machine.run_invariant SupplyCoherent keeps_supplyCheckpoints.mono
      keeps_supplyCheckpoints.step hempty hbefore).latest_supply

/-- Readings of a closed ledger are exact while it lies within the retention window, whatever is
called later, and exact or 0 after that; the supply of a token started empty stays exact. -/
theorem time_travel (g : Genesis) {calls : List Invocation}
    (hcalls : machine.Scheduled g.start now calls) {L : ℕ} (hL : L < now) (a : Address) :
    (now ≤ L + checkpointRetention → ReadsExactly g calls a L (machine.run g.state calls)) ∧
      (∀ later more, machine.Scheduled now later more →
        (later ≤ L + checkpointRetention →
          ReadsExactly g calls a L (machine.run g.state (calls ++ more))) ∧
        ReadsOrZero g calls a L (machine.run g.state (calls ++ more))) ∧
      (g.state = Storage.empty → ∀ later more, machine.Scheduled now later more →
        getPastTotalSupply (machine.run g.state (calls ++ more)) L =
          totalSupply (machine.stateBefore g.state calls (L + 1))) := by
  refine ⟨fun hretained => readsExactly_run hcalls hretained a, ?_, ?_⟩
  · intro later more hmore
    have hall := hcalls.append hmore
    have hclose : machine.stateBefore g.state (calls ++ more) (L + 1) =
        machine.stateBefore g.state calls (L + 1) := hmore.stateBefore_append hL g.state calls
    have hstake : machine.stateBefore g.state (calls ++ more) L =
        machine.stateBefore g.state calls L := hmore.stateBefore_append hL.le g.state calls
    have hbalance : g.balanceAtClose (calls ++ more) a L = g.balanceAtClose calls a L := by
      rw [Genesis.balanceAtClose, hclose, Genesis.balanceAtClose]
    have hvotes : g.votesAtClose (calls ++ more) a L = g.votesAtClose calls a L := by
      rw [Genesis.votesAtClose, hclose, Genesis.votesAtClose]
    have hlock : g.stakeBefore (calls ++ more) a L = g.stakeBefore calls a L := by
      rw [Genesis.stakeBefore, hstake, Genesis.stakeBefore]
    constructor
    · intro hretained
      obtain ⟨h1, h2, h3⟩ := readsExactly_run hall hretained a
      exact ⟨h1.trans hbalance, h2.trans hvotes, hlock ▸ h3⟩
    · obtain ⟨h1, h2, h3⟩ := readsOrZero_run hall a L
      exact ⟨hbalance ▸ h1, hvotes ▸ h2, hlock ▸ h3⟩
  · intro hempty later more hmore
    rw [hempty, getPastTotalSupply_run (hcalls.append hmore), hmore.stateBefore_append hL]

/-- A legacy holder delegates and later moves part of the balance. -/
def legacyCalls : List Invocation :=
  [⟨.authorized 12, .delegate (.account 1) (.account 2)⟩,
    ⟨.authorized 12, .stake (.account 1) (.ofNat 30) minLockLedgers⟩,
    ⟨.authorized 15, .transfer (.account 1) (.account 3) (.ofNat 60)⟩]

/-- The legacy holder's amount is read for a ledger before the start, whatever was done since. -/
theorem time_travel_legacy :
    let g := Genesis.singleHolder (.account 1) (.ofNat 100) 4 10 (by decide)
    getPastBalance (machine.run g.state legacyCalls) (.account 1) 7 = .ofNat 100 ∧
      (valueAt (voteCheckpoints (machine.run g.state legacyCalls) (.account 1)) 7).val = 100 := by
  intro g
  have hcalls : machine.Scheduled g.start 20 legacyCalls := by decide
  have hreads := (time_travel g hcalls (L := 7) (by decide) (.account 1)).1 (by decide)
  exact ⟨hreads.balance.trans (by decide), hreads.votes.trans (by decide)⟩

end TimeTravel

end Quorum.Token

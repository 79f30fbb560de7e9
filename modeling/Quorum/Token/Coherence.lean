import Quorum.Foundation.Delegation
import Quorum.Token.Effects

/-!
# The histories mirror the live state

In a coherent token every history is a chronicle, the newest balance checkpoint of an account
is its balance, and the newest vote checkpoint of an account is the sum of the balances of the
holders it represents. An account without a voting history of its own represents itself and
nobody else, so that its balance history can stand in for it.

Coherence does not speak of the supply: it also holds of a token whose supply history is
younger than its balances.
-/

namespace Quorum.Token

open Foundation Contract

variable {s s' : Storage} {now : ℕ}

/-- The value of a checkpoint that may be missing. -/
def valueOf : Option Checkpoint → I128
  | some checkpoint => checkpoint.balance
  | none => 0

/-- The last recorded value, or 0. -/
def latest (history : List Checkpoint) : I128 := valueOf history.getLast?

/-- The balances as plain integers. -/
def weight (s : Storage) (a : Address) : ℤ := (balance s a).val

/-- The live vote weight of `d`: the balances of the holders it represents. -/
def liveVotes (s : Storage) (d : Address) : ℤ := delegated (getDelegates s) (weight s) d

/-- The stored histories are in order and end in the live state. -/
structure Coherent (now : ℕ) (s : Storage) : Prop where
  checkpoints : ∀ a, Chronological Checkpoint.ledger now (checkpoints s a)
  votes : ∀ a, Chronological Checkpoint.ledger now (voteCheckpoints s a)
  locks : ∀ a, Chronological Lock.ledger now (locks s a)
  locks_bounded : ∀ a, ∀ lock ∈ Token.locks s a,
    lock.unlockLedger ≤ lock.ledger + maxLockLedgers ∧ 0 ≤ lock.amount.val
  latest_balance : ∀ a, latest (Token.checkpoints s a) = balance s a
  latest_votes : ∀ d, (latest (voteCheckpoints s d)).val = liveVotes s d
  unmaterialized : ∀ a, s.voteCheckpointsEntry a = none → ∀ h, getDelegates s h = a ↔ h = a

/-! ## Reading a history -/

/-- A reading at `ledger` is the value of the newest checkpoint before the next ledger. -/
theorem valueAt_eq {history : List Checkpoint} (h : Chronological Checkpoint.ledger now history)
    (ledger : ℕ) :
    valueAt history ledger = valueOf (newestBefore Checkpoint.ledger (ledger + 1) history) := by
  rw [← h.newestWhere_eq]
  simp only [Nat.lt_succ_iff]
  rfl

/-- Reading at the current ledger gives the last recorded value. -/
theorem valueAt_now {history : List Checkpoint} (h : Chronological Checkpoint.ledger now history) :
    valueAt history now = latest history := by
  have hlast : newestBefore Checkpoint.ledger (now + 1) history = history.getLast? :=
    newestBefore_eq_getLast? fun e he => Nat.lt_succ_of_le (h.written e he)
  rw [valueAt_eq h, hlast, latest]

/-- The votes that a coherent token reads are the live ones. -/
theorem Coherent.currentVotes_eq (h : Coherent now s) (d : Address) :
    (currentVotes s d now).val = liveVotes s d := by
  rw [currentVotes, valueAt_now (h.votes d), h.latest_votes]

/-! ## Writing a history -/

section Histories

variable {history : List Checkpoint}

/-- A history stays in order when a value is recorded in it and it is pruned. -/
theorem chronological_written (h : Chronological Checkpoint.ledger now history) (value : I128) :
    Chronological Checkpoint.ledger now
      (pruned Checkpoint.ledger now (record history now value)) :=
  (Chronological.record (e := (⟨now, value⟩ : Checkpoint)) h rfl).prune

/-- The value just recorded is the last one. -/
@[simp] theorem latest_written (value : I128) :
    latest (pruned Checkpoint.ledger now (record history now value)) = value := by
  simp only [latest, pruned, record, getLast?_prune, getLast?_record, valueOf]

/-- A lock history stays in order when a lock is recorded in it and it is pruned. -/
theorem chronological_writtenLock {history : List Lock} {lock : Lock}
    (h : Chronological Lock.ledger now history) (hledger : lock.ledger = now) :
    Chronological Lock.ledger now
      (pruned Lock.ledger now (Foundation.record Lock.ledger history lock)) :=
  (Chronological.record (by rwa [hledger]) hledger).prune

/-- What is left after pruning was there before. -/
theorem mem_of_mem_prune {E : Type} {time : E → ℕ} {cutoff : ℕ} {entries : List E} {e : E}
    (h : e ∈ prune time cutoff entries) : e ∈ entries := by
  obtain ⟨k, hk, -⟩ := prune_eq_drop time cutoff entries
  exact List.mem_of_mem_drop (hk ▸ h)

end Histories

/-! ## What a write leaves to the readers -/

section Readers

variable {owner : Address} {newBalance votes : I128}

/-- A balance write sets the balance of its owner alone. -/
theorem balance_putBalance :
    balance (putBalance now owner newBalance votes s) =
      Function.update (balance s) owner newBalance := by
  funext a
  by_cases h : a = owner
  · subst h
    simp [balance, putBalance]
  · simp [balance, putBalance, putVotes, Function.update_of_ne h]

/-- A balance write sets the weight of its owner alone. -/
theorem weight_putBalance :
    weight (putBalance now owner newBalance votes s) =
      Function.update (weight s) owner newBalance.val := by
  funext a
  rw [weight, balance_putBalance]
  by_cases h : a = owner
  · subst h
    simp
  · simp [weight, Function.update_of_ne h]

/-- A balance write records a checkpoint of its owner alone. -/
theorem checkpoints_putBalance :
    checkpoints (putBalance now owner newBalance votes s) =
      Function.update (checkpoints s) owner
        (pruned Checkpoint.ledger now (record (checkpoints s owner) now newBalance)) := by
  funext a
  by_cases h : a = owner
  · subst h
    simp [checkpoints, putBalance]
  · simp [checkpoints, putBalance, putVotes, Function.update_of_ne h]

/-- A vote write records a checkpoint of its delegatee alone. -/
theorem voteCheckpoints_putVotes (now : ℕ) (d : Address) (votes : I128) (s : Storage) :
    voteCheckpoints (putVotes now d votes s) =
      Function.update (voteCheckpoints s) d
        (pruned Checkpoint.ledger now (record (voteCheckpoints s d) now votes)) := by
  funext a
  by_cases h : a = d
  · subst h
    simp [voteCheckpoints, putVotes]
  · simp [voteCheckpoints, putVotes, checkpoints, Function.update_of_ne h]

/-- A balance write touches one voting history, provided an owner that has none of its own
represents itself. -/
theorem voteCheckpoints_putBalance
    (h : s.voteCheckpointsEntry owner = none → getDelegates s owner = owner) :
    voteCheckpoints (putBalance now owner newBalance votes s) =
      Function.update (voteCheckpoints s) (getDelegates s owner)
        (pruned Checkpoint.ledger now
          (record (voteCheckpoints s (getDelegates s owner)) now votes)) := by
  funext a
  by_cases hrep : a = getDelegates s owner
  · subst hrep
    simp [voteCheckpoints, putBalance, putVotes]
  · rw [Function.update_of_ne hrep]
    simp only [voteCheckpoints, checkpoints_putBalance]
    have hentry : (putBalance now owner newBalance votes s).voteCheckpointsEntry a =
        s.voteCheckpointsEntry a := by
      simp [putBalance, putVotes, Function.update_of_ne hrep]
    rw [hentry]
    cases hhistory : s.voteCheckpointsEntry a with
    | some history => rfl
    | none =>
      have hne : a ≠ owner := by
        rintro rfl
        exact hrep (h hhistory).symm
      simp [Function.update_of_ne hne]

/-- A delegation write changes the representative of its delegator alone. -/
theorem getDelegates_putDelegate (now : ℕ) (delegator delegatee : Address) (pv nv : I128)
    (s : Storage) :
    getDelegates (putDelegate now delegator delegatee pv nv s) =
      Function.update (getDelegates s) delegator delegatee := by
  funext a
  by_cases h : a = delegator
  · subst h
    by_cases hself : delegatee = a <;> simp [getDelegates, putDelegate, hself]
  · simp [getDelegates, putDelegate, putVotes, Function.update_of_ne h]

/-- A delegation write records the votes of the old and of the new delegatee. -/
theorem voteCheckpoints_putDelegate {delegator delegatee : Address} (pv nv : I128)
    (hne : getDelegates s delegator ≠ delegatee) :
    voteCheckpoints (putDelegate now delegator delegatee pv nv s) =
      Function.update (Function.update (voteCheckpoints s) (getDelegates s delegator)
          (pruned Checkpoint.ledger now
            (record (voteCheckpoints s (getDelegates s delegator)) now pv)))
        delegatee (pruned Checkpoint.ledger now (record (voteCheckpoints s delegatee) now nv)) := by
  have hfirst := voteCheckpoints_putVotes now (getDelegates s delegator) pv s
  have hsecond := voteCheckpoints_putVotes now delegatee nv
    (putVotes now (getDelegates s delegator) pv s)
  rw [hfirst, Function.update_of_ne hne.symm] at hsecond
  exact hsecond

/-- A lock write records a lock of its owner alone. -/
theorem locks_putLock {lock : Lock} :
    locks (putLock now owner lock s) =
      Function.update (locks s) owner
        (pruned Lock.ledger now (Foundation.record Lock.ledger (locks s owner) lock)) := by
  funext a
  by_cases h : a = owner
  · subst h
    simp [locks, putLock]
  · simp [locks, putLock, Function.update_of_ne h]

end Readers

/-! ## The readers of storages that agree -/

namespace Agrees

/-- Storages that agree hold the same balances. -/
theorem balance_eq (h : Agrees s s') : Token.balance s' = Token.balance s := by
  funext a
  simp [Token.balance, h.balance]

/-- Storages that agree give the same weights. -/
theorem weight_eq (h : Agrees s s') : weight s' = weight s := by
  funext a
  simp [weight, h.balance_eq]

/-- Storages that agree hold the same supply. -/
theorem totalSupply_eq (h : Agrees s s') : Token.totalSupply s' = Token.totalSupply s := by
  simp [Token.totalSupply, h.totalSupply]

/-- Storages that agree hold the same checkpoints. -/
theorem checkpoints_eq (h : Agrees s s') : Token.checkpoints s' = Token.checkpoints s := by
  funext a
  simp [Token.checkpoints, h.checkpoints]

/-- Storages that agree hold the same supply history. -/
theorem supplyCheckpoints_eq (h : Agrees s s') :
    Token.supplyCheckpoints s' = Token.supplyCheckpoints s := by
  simp [Token.supplyCheckpoints, h.supplyCheckpoints]

/-- Storages that agree hold the same vote histories. -/
theorem voteCheckpoints_eq (h : Agrees s s') :
    Token.voteCheckpoints s' = Token.voteCheckpoints s := by
  funext a
  simp [Token.voteCheckpoints, h.voteCheckpoints, h.checkpoints_eq]

/-- Storages that agree hold the same locks. -/
theorem locks_eq (h : Agrees s s') : Token.locks s' = Token.locks s := by
  funext a
  simp [Token.locks, h.locks]

/-- Storages that agree have the same representatives. -/
theorem getDelegates_eq (h : Agrees s s') : getDelegates s' = getDelegates s := by
  funext a
  simp [getDelegates, h.delegates]

/-- Storages that agree have the same live votes. -/
theorem liveVotes_eq (h : Agrees s s') : liveVotes s' = liveVotes s := by
  funext d
  simp [liveVotes, h.getDelegates_eq, h.weight_eq]

end Agrees

/-! ## Coherence is an invariant -/

/-- A coherent token stays coherent as ledgers pass. -/
theorem Coherent.mono {later : ℕ} (h : Coherent now s) (hle : now ≤ later) : Coherent later s where
  checkpoints a := (h.checkpoints a).mono hle
  votes a := (h.votes a).mono hle
  locks a := (h.locks a).mono hle
  locks_bounded := h.locks_bounded
  latest_balance := h.latest_balance
  latest_votes := h.latest_votes
  unmaterialized := h.unmaterialized

/-- The empty token is coherent. -/
theorem Coherent.empty (now : ℕ) : Coherent now Storage.empty where
  checkpoints _ := .nil
  votes _ := .nil
  locks _ := .nil
  locks_bounded _ _ h := by simp [Token.locks, Storage.empty] at h
  latest_balance _ := rfl
  latest_votes d := by
    have hweight : weight Storage.empty = fun _ => 0 := rfl
    simp only [liveVotes, hweight, delegated, ite_self, Finset.sum_const_zero]
    rfl
  unmaterialized _ _ h := by simp [getDelegates, Storage.empty]

/-- An owner without a voting history of its own represents itself. -/
theorem Coherent.represents_self (h : Coherent now s) {owner : Address}
    (hnone : s.voteCheckpointsEntry owner = none) : getDelegates s owner = owner :=
  (h.unmaterialized owner hnone owner).mpr rfl

/-- A balance write keeps the token coherent. -/
theorem Coherent.setsBalance {owner : Address} {newBalance : I128} (h : Coherent now s)
    (hset : SetsBalance now owner newBalance s s') : Coherent now s' := by
  obtain ⟨hcovered, votes, hvotes, rfl⟩ := hset
  have hself : s.voteCheckpointsEntry owner = none → getDelegates s owner = owner :=
    h.represents_self
  have hrep : getDelegates (putBalance now owner newBalance votes s) = getDelegates s := rfl
  refine ⟨fun a => ?_, fun a => ?_, h.locks, h.locks_bounded, fun a => ?_, fun d => ?_, ?_⟩
  · rw [checkpoints_putBalance]
    by_cases ha : a = owner
    · subst ha
      rw [Function.update_self]
      exact chronological_written (h.checkpoints a) newBalance
    · rw [Function.update_of_ne ha]
      exact h.checkpoints a
  · rw [voteCheckpoints_putBalance hself]
    by_cases ha : a = getDelegates s owner
    · subst ha
      rw [Function.update_self]
      exact chronological_written (h.votes _) votes
    · rw [Function.update_of_ne ha]
      exact h.votes a
  · rw [checkpoints_putBalance, balance_putBalance]
    by_cases ha : a = owner
    · subst ha
      simp
    · simp only [Function.update_of_ne ha, h.latest_balance a]
  · rw [liveVotes, hrep, weight_putBalance, delegated_update_weight, voteCheckpoints_putBalance hself]
    by_cases hd : d = getDelegates s owner
    · subst hd
      rw [Function.update_self, latest_written, hvotes, h.currentVotes_eq, if_pos rfl, liveVotes]
      change _ - weight s owner + _ = _
      omega
    · rw [Function.update_of_ne hd, h.latest_votes, if_neg (Ne.symm hd), add_zero, liveVotes]
  · intro a hnone
    rw [hrep]
    refine h.unmaterialized a ?_
    by_cases ha : a = getDelegates s owner
    · subst ha
      simp [putBalance, putVotes] at hnone
    · simpa [putBalance, putVotes, Function.update_of_ne ha] using hnone

/-- A storage that agrees with a coherent one is coherent. -/
theorem Coherent.agrees (h : Coherent now s) (ha : Agrees s s') : Coherent now s' where
  checkpoints a := by simpa [ha.checkpoints_eq] using h.checkpoints a
  votes a := by simpa [ha.voteCheckpoints_eq] using h.votes a
  locks a := by simpa [ha.locks_eq] using h.locks a
  locks_bounded a := by simpa [ha.locks_eq] using h.locks_bounded a
  latest_balance a := by simpa [ha.checkpoints_eq, ha.balance_eq] using h.latest_balance a
  latest_votes d := by simpa [ha.voteCheckpoints_eq, ha.liveVotes_eq] using h.latest_votes d
  unmaterialized a hnone := by
    simpa [ha.getDelegates_eq] using h.unmaterialized a (by simpa [ha.voteCheckpoints] using hnone)

/-- A change of the representative keeps the token coherent. -/
theorem Coherent.redelegates {delegator delegatee : Address} (h : Coherent now s)
    (hset : Redelegates now delegator delegatee s s') : Coherent now s' := by
  obtain ⟨pv, nv, hne, hprevious, hnext, hagrees⟩ := hset
  refine Coherent.agrees ?_ hagrees
  have hrep := getDelegates_putDelegate now delegator delegatee pv nv s
  have hvotes : voteCheckpoints (putDelegate now delegator delegatee pv nv s) = _ :=
    voteCheckpoints_putDelegate pv nv hne
  refine ⟨h.checkpoints, fun a => ?_, h.locks, h.locks_bounded, h.latest_balance, fun d => ?_, ?_⟩
  · rw [hvotes]
    by_cases ha : a = delegatee
    · subst ha
      rw [Function.update_self]
      exact chronological_written (h.votes a) nv
    · rw [Function.update_of_ne ha]
      by_cases hp : a = getDelegates s delegator
      · subst hp
        rw [Function.update_self]
        exact chronological_written (h.votes _) pv
      · rw [Function.update_of_ne hp]
        exact h.votes a
  · have hlive : liveVotes (putDelegate now delegator delegatee pv nv s) d =
        liveVotes s d - (if getDelegates s delegator = d then weight s delegator else 0) +
          if delegatee = d then weight s delegator else 0 := by
      rw [liveVotes, hrep]
      exact delegated_update_rep delegator delegatee d
    rw [hlive, hvotes]
    by_cases hd : d = delegatee
    · subst hd
      rw [Function.update_self, latest_written, hnext, h.currentVotes_eq, if_neg hne, if_pos rfl,
        sub_zero, weight]
    · rw [Function.update_of_ne hd, if_neg (Ne.symm hd), add_zero]
      by_cases hp : d = getDelegates s delegator
      · subst hp
        rw [Function.update_self, latest_written, hprevious, h.currentVotes_eq, if_pos rfl, weight]
      · rw [Function.update_of_ne hp, h.latest_votes, if_neg (Ne.symm hp), sub_zero]
  · intro a hnone holder
    rw [hrep]
    have hprev : a ≠ getDelegates s delegator := by
      rintro rfl
      by_cases hd : getDelegates s delegator = delegatee
      · exact hne hd
      · simp [putDelegate, putVotes, Function.update_of_ne hd] at hnone
    have hdel : a ≠ delegatee := by
      rintro rfl
      simp [putDelegate, putVotes] at hnone
    have hold := h.unmaterialized a
      (by simpa [putDelegate, putVotes, Function.update_of_ne hprev, Function.update_of_ne hdel]
        using hnone)
    by_cases hh : holder = delegator
    · subst hh
      rw [Function.update_self]
      exact ⟨fun he => absurd he.symm hdel, fun he => absurd ((hold holder).mpr he).symm hprev⟩
    · rw [Function.update_of_ne hh]
      exact hold holder

/-- A lock write of the current ledger keeps the token coherent. -/
theorem Coherent.putLock {owner : Address} {lock : Lock} (h : Coherent now s)
    (hledger : lock.ledger = now) (hunlock : lock.unlockLedger ≤ now + maxLockLedgers)
    (hamount : 0 ≤ lock.amount.val) : Coherent now (putLock now owner lock s) := by
  refine ⟨h.checkpoints, h.votes, fun a => ?_, fun a => ?_, h.latest_balance, h.latest_votes,
    h.unmaterialized⟩
  · rw [locks_putLock]
    by_cases ha : a = owner
    · subst ha
      rw [Function.update_self]
      exact chronological_writtenLock (h.locks a) hledger
    · rw [Function.update_of_ne ha]
      exact h.locks a
  · rw [locks_putLock]
    by_cases ha : a = owner
    · subst ha
      rw [Function.update_self]
      intro l hl
      rcases mem_record (mem_of_mem_prune hl) with hl | rfl
      · exact h.locks_bounded a l hl
      · exact ⟨hledger ▸ hunlock, hamount⟩
    · rw [Function.update_of_ne ha]
      exact h.locks_bounded a

/-- Every write keeps the token coherent. -/
theorem Coherent.write (h : Coherent now s) (hw : Write now s s') : Coherent now s' := by
  cases hw with
  | balance owner newBalance hset => exact h.setsBalance hset
  | supply supply =>
    exact ⟨h.checkpoints, h.votes, h.locks, h.locks_bounded, h.latest_balance, h.latest_votes,
      h.unmaterialized⟩
  | delegation delegator delegatee hset => exact h.redelegates hset
  | lock owner lock hledger hunlock hamount => exact h.putLock hledger hunlock hamount
  | inert hagrees => exact h.agrees hagrees

/-- Every row of writes keeps the token coherent. -/
theorem Coherent.writes (h : Coherent now s) (hw : Writes now s s') : Coherent now s' := by
  induction hw with
  | refl => exact h
  | tail _ hstep ih => exact ih.write hstep

/-- A coherent token stays coherent over every run. -/
theorem Coherent.run {start : ℕ} {calls : List Invocation} (h : Coherent start s)
    (hcalls : machine.Scheduled start now calls) : Coherent now (machine.run s calls) :=
  machine.run_invariant Coherent (fun _ _ _ h hle => h.mono hle)
    (fun i s h => h.writes (machine_writes i s)) h hcalls

end Quorum.Token

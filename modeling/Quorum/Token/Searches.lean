import Quorum.Token.Coherence

/-!
# Searches and the order they rely on

`valueAt` and `lockBefore` are binary searches that differ in how they treat an entry of the
ledger asked for. On a history in ascending order each finds what a newest-first scan finds, and
on any history it comes to its end and reads in range.

The order is kept by the writers. Whatever is written at ledgers that do not go back, and
wherever the retention window cuts, a history stays in ascending order, has one entry for each
ledger, and ends in the last value written.
-/

namespace Quorum.Token

open Foundation Contract

variable {s s' : Storage} {env : Env}

/-! ## The searches -/

/-- The entries up to the time asked for come before the others. -/
theorem early_of_ascending {E : Type} {time : E → ℕ} {entries : List E} (early : ℕ → Bool)
    (h : entries.Pairwise fun a b => time a < time b)
    (hearly : ∀ t t', t ≤ t' → early t' = true → early t = true) :
    entries.Pairwise fun a b => early (time b) = true → early (time a) = true :=
  h.imp fun hab => hearly _ _ hab.le

/-- In an ordered history the search finds what a scan from the end does. -/
theorem valueAt_eq_scan {history : List Checkpoint}
    (h : history.Pairwise fun a b => a.ledger < b.ledger) (ledger : ℕ) :
    valueAt history ledger =
      valueOf (history.reverse.find? fun c => decide (c.ledger ≤ ledger)) := by
  have hsearch := newestWhere_eq history
    (early_of_ascending (fun t => decide (t ≤ ledger)) h (by simp; omega))
  rw [← hsearch]
  rfl

/-- In an ordered lock history the search finds what a scan from the end does. -/
theorem lockBefore_eq_scan {history : List Lock}
    (h : history.Pairwise fun a b => a.ledger < b.ledger) (ledger : ℕ) :
    lockBefore history ledger = history.reverse.find? fun lock => decide (lock.ledger < ledger) :=
  newestWhere_eq history
    (early_of_ascending (fun t => decide (t < ledger)) h (by simp; omega))

/-! ## The writers -/

/-- A writer of a history, applied again and again at ledgers that do not go back, leaves a
history that can be searched and ends in the last entry. -/
def KeepsSearchable {W E : Type} (op : W → TokenM Unit) (entry : W → E) (time : E → ℕ)
    (history : Storage → List E) : Prop :=
  ∀ (writes : List W) (last : W) (s s' : Storage),
    (history s).Pairwise (fun a b => time a < time b) →
    (history s ++ (writes ++ [last]).map entry).Pairwise (fun a b => time a ≤ time b) →
    ((writes ++ [last]).forM op).Returns s () s' →
    EndsIn time (history s') (entry last)

/-- A writer that records its entry and prunes is one that keeps its history searchable. -/
theorem keepsSearchable_of_recorded {W E : Type} {op : W → TokenM Unit} {entry : W → E}
    {time : E → ℕ} {history : Storage → List E} (cutoff : ℕ → ℕ)
    (hop : ∀ w s s', (op w).Returns s () s' → history s' =
      prune time (cutoff (time (entry w))) (Foundation.record time (history s) (entry w))) :
    KeepsSearchable op entry time history := by
  intro writes last s s' hascending hordered hret
  have hall : history s' = recordAll time cutoff (history s) ((writes ++ [last]).map entry) := by
    rw [recordAll, List.foldl_map]
    exact returns_forM (fun entries w =>
      prune time (cutoff (time (entry w))) (Foundation.record time entries (entry w))) hop hret
  rw [List.map_append, List.map_singleton] at hall hordered
  rw [hall]
  exact endsIn_recordAll _ _ hascending hordered

/-- The arguments of a write: the ledger it is made in, and the value. -/
abbrev ValueWrite := Env × I128

/-- The checkpoint that a write leaves. -/
def ValueWrite.checkpoint (w : ValueWrite) : Checkpoint := ⟨w.1.sequence, w.2⟩

/-- The arguments of a lock change: the ledger it is made in, the amount and the unlock ledger. -/
abbrev LockWrite := Env × I128 × ℕ

/-- The lock that a lock change leaves. -/
def LockWrite.lock (w : LockWrite) : Lock := ⟨w.1.sequence, w.2.1, w.2.2⟩

/-- Writes of votes leave a history that can be searched. -/
theorem setVotes_keepsSearchable (owner : Address) :
    KeepsSearchable (fun w : ValueWrite => setVotes w.1 owner w.2) ValueWrite.checkpoint
      Checkpoint.ledger (fun s => voteCheckpoints s owner) := by
  refine keepsSearchable_of_recorded (fun now => now - checkpointRetention) ?_
  intro w s s' hret
  have hs' : putVotes w.1.sequence owner w.2 s = s' := congrArg Prod.snd hret
  rw [← hs', voteCheckpoints_putVotes, Function.update_self]
  rfl

/-- Writes of balances leave a history that can be searched. -/
theorem setBalance_keepsSearchable (owner : Address) :
    KeepsSearchable (fun w : ValueWrite => setBalance w.1 owner w.2) ValueWrite.checkpoint
      Checkpoint.ledger (fun s => checkpoints s owner) := by
  refine keepsSearchable_of_recorded (fun now => now - checkpointRetention) ?_
  intro w s s' hret
  obtain ⟨-, votes, -, rfl⟩ := setBalance_returns hret
  rw [checkpoints_putBalance, Function.update_self]
  rfl

/-- Writes of the supply leave a history that can be searched. -/
theorem setTotalSupply_keepsSearchable :
    KeepsSearchable (fun w : ValueWrite => setTotalSupply w.1 w.2) ValueWrite.checkpoint
      Checkpoint.ledger supplyCheckpoints := by
  refine keepsSearchable_of_recorded (fun _ => 0) ?_
  intro w s s' hret
  have hs' : putSupply w.1.sequence w.2 s = s' := congrArg Prod.snd hret
  rw [← hs', prune_zero]
  rfl

/-- Writes of locks leave a history that can be searched. -/
theorem recordLock_keepsSearchable (owner : Address) :
    KeepsSearchable (fun w : LockWrite => recordLock w.1 owner w.lock) LockWrite.lock Lock.ledger
      (fun s => locks s owner) := by
  refine keepsSearchable_of_recorded (fun now => now - checkpointRetention) ?_
  intro w s s' hret
  have hs' : putLock w.1.sequence owner w.lock s = s' := congrArg Prod.snd hret
  rw [← hs', locks_putLock, Function.update_self]
  rfl

/-- On every history in ascending order the two searches find what the newest-first scans find,
and they come to their end without reading out of range. And every sequence of writes at ledgers
that do not go back leaves each of the histories in ascending order, with at most one entry for
each ledger, not empty, and ending in the last value written. -/
theorem searchable_histories :
    (∀ (history : List Checkpoint) (ledger : ℕ),
      history.Pairwise (fun a b => a.ledger < b.ledger) →
      (checkedSearch (fun c => decide (c.ledger ≤ ledger)) history).map valueOf =
          some (valueAt history ledger) ∧
        valueAt history ledger =
          valueOf (history.reverse.find? fun c => decide (c.ledger ≤ ledger))) ∧
    (∀ (history : List Lock) (ledger : ℕ),
      history.Pairwise (fun a b => a.ledger < b.ledger) →
      checkedSearch (fun lock => decide (lock.ledger < ledger)) history =
          some (lockBefore history ledger) ∧
        lockBefore history ledger =
          history.reverse.find? fun lock => decide (lock.ledger < ledger)) ∧
    (∀ owner : Address,
      KeepsSearchable (fun w : ValueWrite => setBalance w.1 owner w.2) ValueWrite.checkpoint
          Checkpoint.ledger (fun s => checkpoints s owner) ∧
        KeepsSearchable (fun w : ValueWrite => setVotes w.1 owner w.2) ValueWrite.checkpoint
          Checkpoint.ledger (fun s => voteCheckpoints s owner) ∧
        KeepsSearchable (fun w : LockWrite => recordLock w.1 owner w.lock) LockWrite.lock
          Lock.ledger (fun s => locks s owner)) ∧
    KeepsSearchable (fun w : ValueWrite => setTotalSupply w.1 w.2) ValueWrite.checkpoint
      Checkpoint.ledger supplyCheckpoints := by
  refine ⟨fun history ledger h => ⟨?_, valueAt_eq_scan h ledger⟩,
    fun history ledger h => ⟨checkedSearch_eq history, lockBefore_eq_scan h ledger⟩,
    fun owner => ⟨setBalance_keepsSearchable owner, setVotes_keepsSearchable owner,
      recordLock_keepsSearchable owner⟩,
    setTotalSupply_keepsSearchable⟩
  rw [checkedSearch_eq]
  rfl

/-- The votes of account 1 in ledger 5, and again in ledger 2000000. -/
def twiceVoted : Storage :=
  putVotes 2000000 (.account 1) (.ofNat 2) (putVotes 5 (.account 1) (.ofNat 1) Storage.empty)

/-- After two writes far apart the history ends in the second one. -/
theorem searchable_histories_twiceVoted :
    EndsIn Checkpoint.ledger (voteCheckpoints twiceVoted (.account 1)) ⟨2000000, .ofNat 2⟩ :=
  (searchable_histories.2.2.1 (.account 1)).2.1 [(.authorized 5, .ofNat 1)]
    (.authorized 2000000, .ofNat 2) Storage.empty twiceVoted List.Pairwise.nil (by decide) rfl

end Quorum.Token

import Quorum.Token.Operations

/-!
# The writes of the token

The token writes its storage through few helpers. For each of them there is the storage that it
leaves, and the rule by which a program that starts with the helper goes on from there. Only
`setBalance` can fail: it refuses before it writes anything.
-/

namespace Quorum.Token

open Foundation Contract

variable {s s' : Storage} {env : Env} {now : ℕ}

/-- The storage after `setVotes`. -/
def putVotes (now : ℕ) (owner : Address) (votes : I128) (s : Storage) : Storage :=
  { s with
    voteCheckpointsEntry := Function.update s.voteCheckpointsEntry owner
      (some (pruned Checkpoint.ledger now (record (voteCheckpoints s owner) now votes))) }

/-- The storage after the writes of `setBalance`. -/
def putBalance (now : ℕ) (owner : Address) (newBalance votes : I128) (s : Storage) : Storage :=
  { putVotes now (getDelegates s owner) votes s with
    balanceEntry := Function.update s.balanceEntry owner (some newBalance)
    checkpointsEntry := Function.update s.checkpointsEntry owner
      (some (pruned Checkpoint.ledger now (record (checkpoints s owner) now newBalance))) }

/-- The storage after `setTotalSupply`. -/
def putSupply (now : ℕ) (supply : I128) (s : Storage) : Storage :=
  { s with
    totalSupplyEntry := some supply
    supplyCheckpointsEntry := some (record (supplyCheckpoints s) now supply) }

/-- The storage after `recordLock`. -/
def putLock (now : ℕ) (owner : Address) (lock : Lock) (s : Storage) : Storage :=
  { s with
    locksEntry := Function.update s.locksEntry owner
      (some (pruned Lock.ledger now (Foundation.record Lock.ledger (locks s owner) lock))) }

/-- The storage after the writes of `delegate`. -/
def putDelegate (now : ℕ) (delegator delegatee : Address) (previousVotes nextVotes : I128)
    (s : Storage) : Storage :=
  { putVotes now delegatee nextVotes (putVotes now (getDelegates s delegator) previousVotes s) with
    delegateEntry := Function.update s.delegateEntry delegator
      (if delegatee = delegator then none else some delegatee) }

/-- The votes that `setBalance` computes for the owner's representative. -/
def movedVotes (now : ℕ) (owner : Address) (newBalance : I128) (s : Storage) : Option I128 :=
  (((currentVotes s (getDelegates s owner) now).checkedSub (balance s owner)).filter
    fun value => decide (0 ≤ value.val)).bind fun value => value.checkedAdd newBalance

/-- A successful `setBalance`, from the storage before to the storage after. -/
structure SetsBalance (now : ℕ) (owner : Address) (newBalance : I128) (s s' : Storage) : Prop where
  covered : (balance s owner).val ≤ (currentVotes s (getDelegates s owner) now).val
  stored : ∃ votes : I128, votes.val =
    (currentVotes s (getDelegates s owner) now).val - (balance s owner).val + newBalance.val ∧
    s' = putBalance now owner newBalance votes s

/-- The checked vote arithmetic succeeds with the plain integer result. -/
theorem movedVotes_eq_some {owner : Address} {newBalance votes : I128} :
    movedVotes now owner newBalance s = some votes ↔
      (balance s owner).val ≤ (currentVotes s (getDelegates s owner) now).val ∧
      (currentVotes s (getDelegates s owner) now).val - (balance s owner).val ≤ maxI128 ∧
      (currentVotes s (getDelegates s owner) now).val - (balance s owner).val + newBalance.val =
        votes.val := by
  have hmin := I128.minI128_nonpos
  unfold movedVotes I128.checkedSub I128.checkedAdd
  constructor
  · intro h
    obtain ⟨value, hvalue, hvotes⟩ := Option.bind_eq_some_iff.mp h
    obtain ⟨hsub, hnonneg⟩ := Option.filter_eq_some_iff.mp hvalue
    rw [I128.ofInt?_eq_some] at hsub hvotes
    have hnonneg : 0 ≤ value.val := by simpa using hnonneg
    have hupper := value.upper
    omega
  · rintro ⟨hcovered, hmax, hvotes⟩
    obtain ⟨value, hvalue, hval⟩ := I128.exists_ofInt?
      (x := (currentVotes s (getDelegates s owner) now).val - (balance s owner).val)
      (by omega) hmax
    rw [hvalue, Option.filter_some, if_pos (by simp [hval, hcovered]), Option.bind_some,
      I128.ofInt?_eq_some]
    omega

section Infallible

variable {B : Type} {b : B} {f : Unit → TokenM B}

/-- After votes are set the rest runs on the storage with their checkpoint. -/
@[simp] theorem returns_setVotes_bind_iff {owner : Address} {votes : I128} :
    (setVotes env owner votes >>= f).Returns s b s' ↔
      (f ()).Returns (putVotes env.sequence owner votes s) b s' := Iff.rfl

/-- After the supply is set the rest runs on the storage with its checkpoint. -/
@[simp] theorem returns_setTotalSupply_bind_iff {supply : I128} :
    (setTotalSupply env supply >>= f).Returns s b s' ↔
      (f ()).Returns (putSupply env.sequence supply s) b s' := Iff.rfl

/-- After a lock is recorded the rest runs on the storage with it. -/
@[simp] theorem returns_recordLock_bind_iff {owner : Address} {lock : Lock} :
    (recordLock env owner lock >>= f).Returns s b s' ↔
      (f ()).Returns (putLock env.sequence owner lock s) b s' := Iff.rfl

end Infallible

/-- `setBalance` either performs all its writes or refuses with `Overflow` before any. -/
theorem setBalance_run (owner : Address) (newBalance : I128) :
    (setBalance env owner newBalance).run s =
      match movedVotes env.sequence owner newBalance s with
      | some votes => (.ok (), putBalance env.sequence owner newBalance votes s)
      | none => (.error (.error .overflow), s) := by
  unfold setBalance
  rw [run_read_bind]
  change (okOr (movedVotes env.sequence owner newBalance s) TokenError.overflow >>= _).run s = _
  cases movedVotes env.sequence owner newBalance s <;> rfl

/-- An accepted `set_balance` sets the balance. -/
theorem setBalance_returns {owner : Address} {newBalance : I128} {u : Unit}
    (h : (setBalance env owner newBalance).Returns s u s') :
    SetsBalance env.sequence owner newBalance s s' := by
  rw [Returns, setBalance_run] at h
  split at h <;> rename_i votes hvotes
  · obtain ⟨hcovered, -, hval⟩ := movedVotes_eq_some.mp hvotes
    exact ⟨hcovered, votes, hval.symm, by simpa using h.symm⟩
  · simp at h

/-- Publishing an event changes nothing else. -/
def published (e : Event) (s : Storage) : Storage := { s with events := s.events ++ [e] }

/-- Publishing appends the event and returns. -/
@[simp] theorem publish_run (e : Event) : (publish e).run s = (.ok (), published e s) := rfl

/-- Publishing returns with the event at the end of the log. -/
@[simp] theorem publish_returns_iff {e : Event} {u : Unit} :
    (publish e).Returns s u s' ↔ published e s = s' := by
  simp [Returns]

end Quorum.Token

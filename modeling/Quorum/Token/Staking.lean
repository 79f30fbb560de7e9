import Quorum.Token.History
import Quorum.Token.Refusals

/-!
# Stakes

A stake locks part of its owner's balance until an unlock ledger. Every spending path asks for
the amount on top of what is locked, so a lock stays covered by the balance, and nothing but
an expired lock is ever cleared.

The lock counts for the ledgers after the one it was taken in. Up to the close of such a ledger
it is still in force, or has run out and gives nothing, so that a boost never exceeds the
balance at the close of the ledger it is read for.
-/

namespace Quorum.Token

open Foundation Contract

variable {s s' : Storage} {env : Env} {now start : ℕ} {a : Address}

/-! ## What a call does to the locks -/

/-- The readers of the locks depend on the lock histories only. -/
theorem lockedAmount_congr (h : locks s' = locks s) : lockedAmount s' = lockedAmount s := by
  funext a
  rw [lockedAmount, h, lockedAmount]

/-- A balance write leaves the locks. -/
theorem SetsBalance.locks_eq {owner : Address} {newBalance : I128}
    (h : SetsBalance now owner newBalance s s') : locks s' = locks s := by
  obtain ⟨-, votes, -, rfl⟩ := h
  rfl

/-- A stake change puts the new lock in force for its owner, and for nobody else. -/
theorem currentLock_putLock (owner : Address) (lock : Lock) (a : Address) :
    currentLock (locks (putLock now owner lock s) a) =
      if a = owner then held (some lock) else currentLock (locks s a) := by
  rw [locks_putLock]
  by_cases ha : a = owner
  · subst ha
    rw [Function.update_self, if_pos rfl, currentLock_eq, pruned, getLast?_prune, getLast?_record]
  · rw [Function.update_of_ne ha, if_neg ha]

/-- A balance write that stays above a bound keeps all balances above it. -/
theorem SetsBalance.bounded {owner : Address} {newBalance : I128} {bound : Address → ℤ}
    (h : SetsBalance now owner newBalance s s') (hs : ∀ a, bound a ≤ weight s a)
    (hnew : bound owner ≤ newBalance.val) (a : Address) : bound a ≤ weight s' a := by
  rw [h.weight_eq]
  by_cases ha : a = owner
  · subst ha
    rwa [Function.update_self]
  · rw [Function.update_of_ne ha]
    exact hs a

/-- What a call that spends no locked amount leaves of every balance. -/
def spared (s : Storage) (a : Address) : ℤ := min (weight s a) (lockedAmount s a).val

/-- What is spared is part of the balance. -/
theorem spared_le (s : Storage) (a : Address) : spared s a ≤ weight s a := min_le_left _ _

/-- The locks are as before, and no locked amount has been spent. -/
structure Spares (s s' : Storage) : Prop where
  locks : locks s' = locks s
  bounded : ∀ a, spared s a ≤ weight s' a

/-- A storage spares its locked amounts. -/
theorem Spares.refl (s : Storage) : Spares s s := ⟨rfl, spared_le s⟩

/-- Storages that agree spare the locked amounts. -/
theorem Agrees.spares (h : Agrees s s') : Spares s s' where
  locks := h.locks_eq
  bounded a := by
    rw [h.weight_eq]
    exact spared_le s a

/-- The locked amounts stay spared in a storage that agrees. -/
theorem Spares.agrees {s₁ : Storage} (h : Spares s s₁) (ha : Agrees s₁ s') : Spares s s' where
  locks := ha.locks_eq.trans h.locks
  bounded := by
    rw [ha.weight_eq]
    exact h.bounded

/-- A movement keeps all balances above a bound that allows for the debit. -/
theorem Moves.bounded {src dst : Address} {amount : I128} {bound : Address → ℤ}
    (h : Moves now src dst amount s s') (hpos : 0 < amount.val) (hs : ∀ a, bound a ≤ weight s a)
    (hsrc : bound src ≤ weight s src - amount.val) (a : Address) : bound a ≤ weight s' a := by
  obtain ⟨rest, newBalance, s₁, s₂, -, hrest, hdebit, hnew, hcredit, hagrees⟩ := h
  have hdebited : ∀ a, bound a ≤ weight s₁ a := hdebit.bounded hs (by rw [hrest]; exact hsrc)
  have hdst : bound dst ≤ newBalance.val := by
    rw [hnew]
    exact (hdebited dst).trans (Int.le_add_of_nonneg_right hpos.le)
  rw [hagrees.weight_eq]
  exact hcredit.bounded hdebited hdst a

/-- A movement leaves the locks. -/
theorem Moves.locks_eq {src dst : Address} {amount : I128} (h : Moves now src dst amount s s') :
    locks s' = locks s := by
  obtain ⟨rest, newBalance, s₁, s₂, -, -, hdebit, -, hcredit, hagrees⟩ := h
  rw [hagrees.locks_eq, hcredit.locks_eq, hdebit.locks_eq]

/-- A movement of a positive amount spares the locked amounts. -/
theorem Moves.spares {src dst : Address} {amount : I128} (h : Moves now src dst amount s s')
    (hpos : 0 < amount.val) : Spares s s' := by
  refine ⟨h.locks_eq, h.bounded hpos (spared_le s) ?_⟩
  obtain ⟨_, _, _, _, hspendable, -⟩ := h
  exact (min_le_right _ _).trans (by unfold weight; omega)

/-- A burn keeps all balances above a bound that the holder's stays above. -/
theorem Burns.bounded {src : Address} {amount : I128} {bound : Address → ℤ}
    (h : Burns now src amount s s') (hs : ∀ a, bound a ≤ weight s a)
    (hsrc : bound src ≤ weight s src - amount.val) (a : Address) : bound a ≤ weight s' a := by
  obtain ⟨rest, supply, s₁, -, hrest, -, -, hdebit, hagrees⟩ := h
  rw [hagrees.weight_eq]
  exact hdebit.bounded hs (by rw [hrest]; exact hsrc) a

/-- A burn spares the locked amounts. -/
theorem Burns.spares {src : Address} {amount : I128} (h : Burns now src amount s s') :
    Spares s s' := by
  refine ⟨?_, h.bounded (spared_le s) ?_⟩
  · obtain ⟨rest, supply, s₁, -, -, -, -, hdebit, hagrees⟩ := h
    exact hagrees.locks_eq.trans hdebit.locks_eq
  · obtain ⟨_, _, _, hspendable, -⟩ := h
    exact (min_le_right _ _).trans (by unfold weight; omega)

/-- An issue debits nobody. -/
theorem Issues.weight_le {dst : Address} {amount : ℤ} (h : Issues now dst amount s s')
    (hamount : 0 ≤ amount) (a : Address) : weight s a ≤ weight s' a := by
  obtain ⟨supply, newBalance, s₁, s₂, -, hnew, hagrees₁, hcredit, hagrees₂⟩ := h
  have hweight : weight s₁ = weight s := hagrees₁.weight_eq
  rw [hagrees₂.weight_eq]
  apply hcredit.bounded
  · rw [hweight]
    exact fun _ => le_rfl
  · rw [hnew]
    exact Int.le_add_of_nonneg_right hamount

/-- An issue spares the locked amounts. -/
theorem Issues.spares {dst : Address} {amount : ℤ} (h : Issues now dst amount s s')
    (hamount : 0 ≤ amount) : Spares s s' := by
  refine ⟨?_, fun a => (spared_le s a).trans (h.weight_le hamount a)⟩
  obtain ⟨supply, newBalance, s₁, s₂, -, -, hagrees₁, hcredit, hagrees₂⟩ := h
  rw [hagrees₂.locks_eq, hcredit.locks_eq, hagrees₁.locks_eq]
  rfl

/-- The constructor issues the initial supply to an admin who holds nothing yet. -/
theorem initializeToken_issues {admin : Address} {name symbol : Text} {decimals : ℕ}
    {initialSupply : I128} {u : Unit} (hs : Solvent s)
    (h : (initializeToken env admin name symbol decimals initialSupply).Returns s u s') :
    0 ≤ initialSupply.val ∧ Issues env.sequence admin initialSupply.val s s' := by
  obtain ⟨hnone, hpos, -, s₁, s₂, hagrees₁, -, hcredit, hagrees₂⟩ := initializeToken_returns h
  have hzero := hs.uninitialized hnone
  have hle := le_sum hs.nonneg admin
  have hge := hs.nonneg admin
  rw [hs.total, hzero] at hle
  have hadmin : (balance s admin).val = 0 := le_antisymm hle hge
  exact ⟨hpos, initialSupply, initialSupply, s₁, s₂, by omega, by omega, hagrees₁, hcredit,
    hagrees₂⟩

/-- A change of the representative spares the locked amounts. -/
theorem Redelegates.spares {delegator delegatee : Address}
    (h : Redelegates now delegator delegatee s s') : Spares s s' := by
  obtain ⟨pv, nv, -, -, -, hagrees⟩ := h
  have hspares : Spares s (putDelegate now delegator delegatee pv nv s) := ⟨rfl, spared_le s⟩
  exact hspares.agrees hagrees

/-- What a successful call does to the locks: it leaves them alone and spends no locked amount,
it takes a lock where none was, or it clears one that has run out. -/
inductive StakeChange (now : ℕ) (c : Call) (s s' : Storage) : Prop
  | spared (h : Spares s s')
  | taken (owner : Address) (amount : I128) (duration : ℕ)
      (hcall : c = .stake owner amount duration) (hpos : 0 < amount.val)
      (hnone : currentLock (locks s owner) = none) (hcovered : amount.val ≤ weight s owner)
      (h : Agrees (putLock now owner ⟨now, amount, now + duration⟩ s) s')
  | cleared (owner : Address) (lock : Lock) (hlock : currentLock (locks s owner) = some lock)
      (hexpired : lock.unlockLedger ≤ now)
      (h : Agrees (putLock now owner ⟨now, 0, lock.unlockLedger⟩ s) s')

/-- Every accepted call changes the locks in one of these ways. -/
theorem invoke_stakeChange {c : Call} {u : Unit} (hs : Solvent s)
    (h : (invoke env c).Returns s u s') : StakeChange env.sequence c s s' := by
  cases c with
  | initializeToken admin name symbol decimals initialSupply =>
    obtain ⟨hpos, hissues⟩ := initializeToken_issues hs h
    exact .spared (hissues.spares hpos)
  | transfer src dst amount =>
    obtain ⟨-, hpos, hmoves⟩ := transfer_returns h
    exact .spared (hmoves.spares hpos)
  | transferFrom spender src dst amount =>
    obtain ⟨-, hpos, -, hmoves⟩ := transferFrom_returns h
    exact .spared (hmoves.spares hpos)
  | burnFrom spender src amount =>
    obtain ⟨-, -, -, hburns⟩ := burnFrom_returns h
    exact .spared hburns.spares
  | mint dst amount =>
    obtain ⟨-, hpos, hissues⟩ := mint_returns h
    exact .spared (hissues.spares hpos.le)
  | burn src amount =>
    obtain ⟨-, -, hburns⟩ := burn_returns h
    exact .spared hburns.spares
  | delegate delegator delegatee =>
    obtain ⟨-, ⟨-, rfl⟩ | hr⟩ := delegate_returns h
    · exact .spared (.refl s')
    · exact .spared hr.spares
  | stake owner amount duration =>
    obtain ⟨-, hpos, -, -, hnone, hcovered, -, hagrees⟩ := stake_returns h
    exact .taken owner amount duration rfl hpos hnone hcovered hagrees
  | unstake owner =>
    obtain ⟨-, lock, hlock, hexpired, hagrees⟩ := unstake_returns h
    exact .cleared owner lock hlock hexpired hagrees
  | approve owner spender amount expirationLedger => exact .spared (approve_returns h).spares
  | transferAdmin newAdmin => exact .spared (transferAdmin_returns h).spares
  | acceptAdmin => exact .spared (acceptAdmin_returns h).spares
  | cancelAdminTransfer => exact .spared (cancelAdminTransfer_returns h).spares

/-- Every step of a solvent token changes the locks in one of these ways. -/
theorem step_stakeChange (i : Invocation) (hs : Solvent s) :
    StakeChange i.env.sequence i.call s (machine.step i s) := by
  obtain ⟨-, u, hret⟩ | ⟨-, hsame⟩ := accepted_cases i s
  · exact invoke_stakeChange hs hret
  · rw [hsame]
    exact .spared (.refl s)

/-! ## Locks stay covered -/

/-- Every locked amount is part of the owner's balance. -/
def Covered (s : Storage) : Prop := ∀ a, (lockedAmount s a).val ≤ weight s a

/-- The lock of a stake change decides what is locked for the owner. -/
theorem lockedAmount_putLock (owner : Address) (lock : Lock) (a : Address) :
    lockedAmount (putLock now owner lock s) a =
      if a = owner then ((held (some lock)).map Lock.amount).getD 0 else lockedAmount s a := by
  rw [lockedAmount, currentLock_putLock]
  split
  · rfl
  · rw [lockedAmount]

/-- A lock of a positive amount is held. -/
theorem held_of_pos {lock : Lock} (h : 0 < lock.amount.val) : held (some lock) = some lock := by
  simp [held, h]

/-- A cleared lock is not held. -/
theorem held_cleared (now unlock : ℕ) : held (some ⟨now, 0, unlock⟩) = none := by
  simp [held]

/-- A stake change keeps every locked amount part of its owner's balance. -/
theorem StakeChange.covered {c : Call} (h : StakeChange now c s s') (hs : Covered s)
    (hnonneg : ∀ a, 0 ≤ weight s a) : Covered s' := by
  intro a
  cases h with
  | spared hspares =>
    rw [lockedAmount_congr hspares.locks]
    exact (le_min (hs a) le_rfl).trans (hspares.bounded a)
  | taken owner amount duration _ hpos hnone hcovered hagrees =>
    rw [lockedAmount_congr hagrees.locks_eq, hagrees.weight_eq, lockedAmount_putLock,
      held_of_pos hpos]
    change _ ≤ weight s a
    split <;> rename_i ha
    · rw [ha]
      exact hcovered
    · exact hs a
  | cleared owner lock hlock hexpired hagrees =>
    rw [lockedAmount_congr hagrees.locks_eq, hagrees.weight_eq, lockedAmount_putLock, held_cleared]
    change _ ≤ weight s a
    split
    · exact hnonneg a
    · exact hs a

/-- A lock that has not run out stays in force. -/
theorem StakeChange.currentLock_eq {c : Call} {lock : Lock} (h : StakeChange now c s s')
    (hlock : currentLock (locks s a) = some lock) (hlive : now < lock.unlockLedger) :
    currentLock (locks s' a) = some lock := by
  cases h with
  | spared hspares => rw [hspares.locks, hlock]
  | taken owner amount duration _ hpos hnone hcovered hagrees =>
    have hne : a ≠ owner := by
      rintro rfl
      rw [hlock] at hnone
      contradiction
    rw [hagrees.locks_eq, currentLock_putLock, if_neg hne, hlock]
  | cleared owner released hreleased hexpired hagrees =>
    have hne : a ≠ owner := by
      rintro rfl
      rw [hlock, Option.some.injEq] at hreleased
      subst hreleased
      omega
    rw [hagrees.locks_eq, currentLock_putLock, if_neg hne, hlock]

/-- Without a lock an account stays without one, until it stakes. -/
theorem StakeChange.currentLock_eq_none {c : Call} (h : StakeChange now c s s')
    (hnone : currentLock (locks s a) = none)
    (hc : ∀ amount duration, c ≠ .stake a amount duration) : currentLock (locks s' a) = none := by
  cases h with
  | spared hspares => rw [hspares.locks, hnone]
  | taken owner amount duration hcall hpos _ hcovered hagrees =>
    have hne : a ≠ owner := by
      rintro rfl
      exact hc amount duration hcall
    rw [hagrees.locks_eq, currentLock_putLock, if_neg hne, hnone]
  | cleared owner lock hlock hexpired hagrees =>
    rw [hagrees.locks_eq, currentLock_putLock, held_cleared, hnone, ite_self]

/-- A sound token whose locks are covered. -/
structure Secure (now : ℕ) (s : Storage) : Prop where
  sound : Sound now s
  covered : Covered s

namespace Secure

/-- The empty token is secure. -/
theorem empty (now : ℕ) : Secure now Storage.empty := ⟨.empty now, fun _ => le_rfl⟩

/-- A secure token stays secure as ledgers pass. -/
theorem mono {later : ℕ} (h : Secure now s) (hle : now ≤ later) : Secure later s :=
  ⟨h.sound.mono hle, h.covered⟩

/-- Every step keeps the token secure. -/
theorem step {i : Invocation} (h : Secure i.env.sequence s) :
    Secure i.env.sequence (machine.step i s) where
  sound := by
    obtain ⟨-, u, hret⟩ | ⟨-, hsame⟩ := accepted_cases i s
    · exact h.sound.invoke hret
    · rw [hsame]
      exact h.sound
  covered := (step_stakeChange i h.sound.solvent).covered h.covered h.sound.solvent.nonneg

/-- Every run keeps the token secure. -/
theorem run {calls : List Invocation} (h : Secure start s)
    (hcalls : machine.Scheduled start now calls) : Secure now (machine.run s calls) :=
  machine.run_invariant Secure (fun _ _ _ h hle => h.mono hle) (fun _ _ h => h.step) h hcalls

/-- The difference of balance and lock fits. -/
theorem spendableBalance_returns (h : Secure now s) (a : Address) :
    ∃ amount, (spendableBalance a).Returns s amount s ∧ 0 ≤ amount.val ∧
      amount.val = (balance s a).val - (lockedBalance s a).val := by
  have hcovered := h.covered a
  unfold weight at hcovered
  obtain ⟨amount, hsome, hval⟩ :=
    checkedSub_fits (h.sound.balance_nonneg a) (lockedAmount_nonneg s a)
  refine ⟨amount, ?_, by omega, hval⟩
  simp only [spendableBalance, returns_read_bind_iff, hsome]
  rfl

end Secure

/-- A lock stays in force over all calls made before it runs out. -/
theorem currentLock_run {calls : List Invocation} {lock : Lock} (hs : Solvent s)
    (hcalls : ∀ i ∈ calls, i.env.sequence < lock.unlockLedger)
    (hlock : currentLock (locks s a) = some lock) :
    currentLock (locks (machine.run s calls) a) = some lock := by
  induction calls generalizing s with
  | nil => exact hlock
  | cons i rest ih =>
    have hstep : currentLock (locks (machine.step i s) a) = some lock :=
      (step_stakeChange i hs).currentLock_eq hlock (hcalls i List.mem_cons_self)
    have hsolvent : Solvent (machine.step i s) := (hs.run [i]).1
    exact ih hsolvent (fun j hj => hcalls j (List.mem_cons_of_mem i hj)) hstep

/-! ## Boosts -/

/-- The quotient of a part of the scale is at most the whole. -/
theorem boostOf_le {lock : Lock} {L : ℕ} (hnonneg : 0 ≤ lock.amount.val)
    (hbounded : lock.unlockLedger ≤ L + maxLockLedgers) :
    boostOf (some lock) L ≤ lock.amount.val := by
  rw [boostOf]
  split
  · exact hnonneg
  · apply Int.ediv_le_of_le_mul (by decide)
    exact Int.mul_le_mul_of_nonneg_left (by omega) hnonneg

/-- The boost of every lock of a reachable token, at each ledger after the one it was recorded in
and before its unlock ledger: the number of remaining ledgers is positive and at most the scale, no
step of the split computation leaves its range, and the result is the floored quotient of the
product, between 0 and the locked amount. It is what `lockBoost` returns when the search finds the
lock, and it does not grow with the ledger. -/
theorem lockBoost_exact (g : Genesis) {calls : List Invocation}
    (hcalls : machine.Scheduled g.start now calls) (a : Address) {lock : Lock}
    (hlock : lock ∈ locks (machine.run g.state calls) a) (hpos : 0 < lock.amount.val) {L : ℕ}
    (hafter : lock.ledger < L) (hbefore : L < lock.unlockLedger) :
    ∃ remaining boost : I128, I128.ofInt? (lock.unlockLedger - L) = some remaining ∧
      remaining.val = (lock.unlockLedger - L : ℕ) ∧
      0 < remaining.val ∧ remaining.val ≤ maxLockLedgers ∧
      splitBoost lock.amount remaining = some boost ∧
      boost.val = lock.amount.val * (lock.unlockLedger - L) / maxLockLedgers ∧
      0 ≤ boost.val ∧ boost.val ≤ lock.amount.val ∧
      (lockBefore (locks (machine.run g.state calls) a) L = some lock →
        (lockBoost a L).Returns (machine.run g.state calls) boost (machine.run g.state calls)) ∧
      ∀ L' < lock.unlockLedger, L ≤ L' →
        ∃ faded, runningBoost lock L' = some faded ∧ faded.val ≤ boost.val := by
  have hc : Coherent now (machine.run g.state calls) := g.coherent.run hcalls
  obtain ⟨hbounded, hnonneg⟩ := hc.locks_bounded a lock hlock
  obtain ⟨remaining, boost, hremaining, hval, hboost, hboostval⟩ :=
    runningBoost_eq hnonneg hbefore (by omega)
  refine ⟨remaining, boost, hremaining, by omega, by omega, by omega, hboost, ?_, ?_, ?_, ?_, ?_⟩
  · rw [hboostval, boostOf, if_neg (by omega)]
  · rw [hboostval]
    exact boostOf_nonneg (by simpa using hnonneg) L
  · rw [hboostval]
    exact boostOf_le hnonneg (by omega)
  · intro hfound
    simp only [lockBoost, returns_read_bind_iff, hfound,
      show ¬ (lock.amount.val ≤ 0 ∨ lock.unlockLedger ≤ L) by omega, if_false, hremaining, hboost,
      returns_unwrap_bind_iff, Option.some.injEq, exists_eq_left']
    rfl
  · intro L' hlive hle
    obtain ⟨remaining', faded, hremaining', -, hfaded, hfadedval⟩ :=
      runningBoost_eq hnonneg hlive (by omega)
    refine ⟨faded, ?_, ?_⟩
    · rw [runningBoost, hremaining', Option.bind_some, hfaded]
    · rw [hfadedval, hboostval]
      exact boostOf_antitone hnonneg hle

section Closing

variable {calls : List Invocation}

/-- The state that a bounded part of a run leads to is secure. -/
theorem secure_before (hcalls : machine.Scheduled start now calls) {L bound : ℕ}
    (hbound : bound ≤ L + 1) : Secure L (machine.stateBefore Storage.empty calls bound) := by
  rcases Nat.lt_or_ge L start with hlt | hge
  · rw [Clocked.stateBefore, hcalls.before_eq_nil (by omega), Clocked.run_nil]
    exact .empty L
  · exact (Secure.empty start).run (hcalls.before hge hbound)

/-- What is in force before a ledger and runs out after it is in force when the ledger closes. -/
theorem currentLock_close (hcalls : machine.Scheduled start now calls) {L : ℕ} {lock : Lock}
    (hlock : currentLock (locks (machine.stateBefore Storage.empty calls L) a) = some lock)
    (hlive : L < lock.unlockLedger) :
    currentLock (locks (machine.stateBefore Storage.empty calls (L + 1)) a) = some lock := by
  obtain ⟨between, heq, hbetween⟩ :=
    Clocked.exists_before_append (m := machine) (Nat.le_succ L) calls
  rw [Clocked.stateBefore, heq, Clocked.run_append]
  have hsolvent := (secure_before hcalls (Nat.le_succ L)).sound.solvent
  exact currentLock_run hsolvent (fun i hi => (hbetween i hi).trans_le (by omega)) hlock

/-- The current lock is an entry of the history, of a positive amount. -/
theorem currentLock_mem {history : List Lock} {lock : Lock}
    (h : currentLock history = some lock) : lock ∈ history ∧ 0 < lock.amount.val := by
  rw [currentLock_eq, held, Option.filter_eq_some_iff] at h
  exact ⟨List.mem_of_getLast? h.1, by simpa using h.2⟩

/-- The boost of a closed ledger is at most the balance at its close. -/
theorem boostOf_le_close (hcalls : machine.Scheduled start now calls) (a : Address) (L : ℕ) :
    boostOf (currentLock (locks (machine.stateBefore Storage.empty calls L) a)) L ≤
      weight (machine.stateBefore Storage.empty calls (L + 1)) a := by
  have hclose := secure_before hcalls (le_refl (L + 1))
  have hbefore := (secure_before hcalls (Nat.le_succ L)).sound.coherent
  cases hlock : currentLock (locks (machine.stateBefore Storage.empty calls L) a) with
  | none => exact hclose.sound.solvent.nonneg a
  | some lock =>
    rcases Nat.lt_or_ge L lock.unlockLedger with hlive | hexpired
    · obtain ⟨hmem, hpos⟩ := currentLock_mem hlock
      have hbounded := (hbefore.locks_bounded a lock hmem).1
      have hwritten := (hbefore.locks a).written lock hmem
      have hcovered := hclose.covered a
      rw [lockedAmount, currentLock_close hcalls hlock hlive] at hcovered
      exact (boostOf_le hpos.le (by omega)).trans hcovered
    · rw [boostOf, if_pos hexpired]
      exact hclose.sound.solvent.nonneg a

/-- The boost of a current lock is never negative. -/
theorem boostOf_currentLock_nonneg (s : Storage) (a : Address) (L : ℕ) :
    0 ≤ boostOf (currentLock (locks s a)) L :=
  boostOf_nonneg (fun _ hlock => (currentLock_mem hlock).2.le) L

/-- Votes and boosts of a closed ledger fit together into twice the supply. -/
theorem sum_votes_boost_le (hcalls : machine.Scheduled start now calls) (L : ℕ) :
    ∑ a, (liveVotes (machine.stateBefore Storage.empty calls (L + 1)) a +
        boostOf (currentLock (locks (machine.stateBefore Storage.empty calls L) a)) L) ≤
      2 * (totalSupply (machine.stateBefore Storage.empty calls (L + 1))).val := by
  have hclose := (secure_before hcalls (le_refl (L + 1))).sound.solvent
  have hboosts := Finset.sum_le_sum fun a (_ : a ∈ Finset.univ) => boostOf_le_close hcalls a L
  rw [hclose.total] at hboosts
  rw [Finset.sum_add_distrib, hclose.sum_liveVotes, two_mul]
  exact Int.add_le_add_left hboosts _

/-- A token started empty has had no balances before. -/
theorem balanceAtClose_empty (hcalls : machine.Scheduled start now calls) (a : Address) (L : ℕ) :
    (Genesis.empty start).balanceAtClose calls a L =
      balance (machine.stateBefore Storage.empty calls (L + 1)) a := by
  unfold Genesis.balanceAtClose
  split <;> rename_i hlt
  · rw [Clocked.stateBefore, hcalls.before_eq_nil hlt]
    rfl
  · rfl

/-- From the empty token the votes at the close are the live ones at the close. -/
theorem votesAtClose_empty (hcalls : machine.Scheduled start now calls) (a : Address) (L : ℕ) :
    (Genesis.empty start).votesAtClose calls a L =
      liveVotes (machine.stateBefore Storage.empty calls (L + 1)) a := by
  unfold Genesis.votesAtClose
  split <;> rename_i hlt
  · rw [Clocked.stateBefore, hcalls.before_eq_nil hlt, Clocked.run_nil,
      ← (Coherent.empty L).latest_votes]
    rfl
  · rfl

/-- Within the retention window the boost that is read is bounded by the balance that is read. -/
theorem lockBoost_bounded (hcalls : machine.Scheduled start now calls) {L : ℕ}
    (hretained : now ≤ L + checkpointRetention) (a : Address) :
    ∃ boost, (lockBoost a L).Returns (machine.run Storage.empty calls) boost
        (machine.run Storage.empty calls) ∧
      0 ≤ boost.val ∧ boost.val ≤ (getPastBalance (machine.run Storage.empty calls) a L).val := by
  have hreads := readsExactly_run (g := Genesis.empty start) hcalls hretained a
  have hbalance := hreads.balance.trans (balanceAtClose_empty hcalls a L)
  obtain ⟨boost, hboost, hval, -⟩ := hreads.boost
  have hval : boost.val =
      boostOf (currentLock (locks (machine.stateBefore Storage.empty calls L) a)) L := hval
  refine ⟨boost, hboost, ?_, ?_⟩
  · rw [hval]
    exact boostOf_currentLock_nonneg _ a L
  · rw [hval]
    exact (boostOf_le_close hcalls a L).trans_eq (congrArg I128.val hbalance).symm

/-- What is read as the voting power of an account is at most its votes and boost at the close. -/
theorem getPastVotes_bounded (hcalls : machine.Scheduled start now calls) {L : ℕ}
    (hretained : now ≤ L + checkpointRetention) (a : Address) :
    ∃ votes, (getPastVotes a L).Returns (machine.run Storage.empty calls) votes
        (machine.run Storage.empty calls) ∧
      votes.val ≤ liveVotes (machine.stateBefore Storage.empty calls (L + 1)) a +
        boostOf (currentLock (locks (machine.stateBefore Storage.empty calls L) a)) L := by
  have hreads := readsExactly_run (g := Genesis.empty start) hcalls hretained a
  have hvotes := hreads.votes.trans (votesAtClose_empty hcalls a L)
  obtain ⟨boost, -, hval, hret⟩ := hreads.boost
  have hval : boost.val =
      boostOf (currentLock (locks (machine.stateBefore Storage.empty calls L) a)) L := hval
  have hclose := (secure_before hcalls (le_refl (L + 1))).sound.solvent
  have hnonneg : 0 ≤ liveVotes (machine.stateBefore Storage.empty calls (L + 1)) a :=
    delegated_nonneg hclose.nonneg a
  have hboost := boostOf_currentLock_nonneg (machine.stateBefore Storage.empty calls L) a L
  refine ⟨_, hret, ?_⟩
  rw [I128.saturatingAdd_val (by omega), hvotes, hval]
  exact min_le_left _ _

/-! ## Readings of any age -/

/-- The balance of a closed ledger is read as it was at the close, as long as the stored history
reaches back that far. -/
theorem getPastBalance_run_eq_ite (hcalls : machine.Scheduled start now calls) (a : Address)
    (L : ℕ) :
    let s := machine.run Storage.empty calls
    getPastBalance s a L =
      if reachesBack Checkpoint.ledger (L + 1) (checkpoints s a) = true then
        balance (machine.stateBefore Storage.empty calls (L + 1)) a
      else 0 := by
  intro s
  have hread := valueAt_run_eq_ite (keeps_checkpoints a) (Coherent.empty start) hcalls L
  have hclosing : closingValue (fun s => checkpoints s a) start L Storage.empty calls = _ :=
    (Genesis.empty start).closingValue_checkpoints hcalls a fun _ => rfl
  rw [hclosing, balanceAtClose_empty hcalls] at hread
  exact hread

/-- The voting power of a closed ledger is read as it was at the close, each of its two parts as
long as the stored history of that part reaches back that far. -/
theorem getPastVotes_run_eq_ite (hcalls : machine.Scheduled start now calls) (a : Address)
    (L : ℕ) :
    let s := machine.run Storage.empty calls
    ∃ weight, (getPastVotes a L).Returns s weight s ∧ weight.val =
      min ((if reachesBack Checkpoint.ledger (L + 1) (voteCheckpoints s a) = true then
            liveVotes (machine.stateBefore Storage.empty calls (L + 1)) a
          else 0) +
        if reachesBack Lock.ledger L (locks s a) = true then
          boostOf (currentLock (locks (machine.stateBefore Storage.empty calls L) a)) L
        else 0) maxI128 := by
  intro s
  have hempty := Coherent.empty start
  have hread := valueAt_run_eq_ite (keeps_voteCheckpoints a) hempty hcalls L
  have hclosing : (closingValue (fun s => voteCheckpoints s a) start L Storage.empty calls).val = _ :=
    (Genesis.empty start).closingValue_voteCheckpoints hcalls a fun _ => rfl
  rw [votesAtClose_empty hcalls] at hclosing
  have hvotes : (valueAt (voteCheckpoints s a) L).val =
      if reachesBack Checkpoint.ledger (L + 1) (voteCheckpoints s a) = true then
        liveVotes (machine.stateBefore Storage.empty calls (L + 1)) a
      else 0 := by
    rw [← hclosing, hread]
    exact apply_ite I128.val _ _ _
  obtain ⟨boost, hret, hval⟩ := lockBoost_returns (hempty.run hcalls) a L
  have hboost : boost.val = if reachesBack Lock.ledger L (locks s a) = true then
      boostOf (currentLock (locks (machine.stateBefore Storage.empty calls L) a)) L else 0 := by
    rw [hval, (keeps_locks a).run_eq_ite hempty hcalls L]
    split
    · exact congrArg (boostOf · L) ((Genesis.empty start).held_closing hcalls a L)
    · rfl
  have hclose := (secure_before hcalls (le_refl (L + 1))).sound.solvent
  have hvotesnonneg : 0 ≤ liveVotes (machine.stateBefore Storage.empty calls (L + 1)) a :=
    delegated_nonneg hclose.nonneg a
  have hboostnonneg := boostOf_currentLock_nonneg (machine.stateBefore Storage.empty calls L) a L
  refine ⟨_, getPastVotes_returns hret, ?_⟩
  rw [I128.saturatingAdd_val, hvotes, hboost]
  rw [hvotes, hboost]
  split <;> split <;> omega

/-! ## Safety -/

/-- In every reachable state each account's lock is covered by its balance. A stake stays in
force and covered until its unlock ledger, whatever is called. And of every closed ledger within
the retention window a boost is between 0 and the account's balance, so that all voting power
together is at most twice the supply. -/
theorem stake_safety (hcalls : machine.Scheduled start now calls) :
    let s := machine.run Storage.empty calls
    (∀ a, 0 ≤ (lockedBalance s a).val ∧ (lockedBalance s a).val ≤ (balance s a).val ∧
      ∃ amount, (spendableBalance a).Returns s amount s ∧
        amount.val = (balance s a).val - (lockedBalance s a).val) ∧
    (∀ (env : Env) (owner : Address) (amount : I128) (duration : ℕ) (s' : Storage),
      env.sequence = now → (stake env owner amount duration).Returns s () s' →
      ∀ (later : ℕ) (more : List Invocation), machine.Scheduled now later more →
        later < now + duration →
          currentLock (locks (machine.run s' more) owner) = some ⟨now, amount, now + duration⟩ ∧
          amount.val ≤ (balance (machine.run s' more) owner).val) ∧
    ∀ L < now, now ≤ L + checkpointRetention →
      (∀ a, ∃ boost, (lockBoost a L).Returns s boost s ∧
        0 ≤ boost.val ∧ boost.val ≤ (getPastBalance s a L).val) ∧
      ∃ votes : Address → I128, (∀ a, (getPastVotes a L).Returns s (votes a) s) ∧
        ∑ a, (votes a).val ≤ 2 * (getPastTotalSupply s L).val := by
  intro s
  have hs : Secure now s := (Secure.empty start).run hcalls
  refine ⟨fun a => ?_, ?_, fun L _ hretained => ⟨lockBoost_bounded hcalls hretained, ?_⟩⟩
  · obtain ⟨amount, hret, -, hval⟩ := hs.spendableBalance_returns a
    exact ⟨lockedAmount_nonneg s a, hs.covered a, amount, hret, hval⟩
  · rintro env owner amount duration s' rfl hret later more hmore hlive
    obtain ⟨-, hpos, -, -, -, -, -, hagrees⟩ := stake_returns hret
    have hs' : Sound env.sequence s' := hs.sound.invoke (c := .stake owner amount duration) hret
    have hcovered : Covered s' := (invoke_stakeChange (c := .stake owner amount duration)
      hs.sound.solvent hret).covered hs.covered hs.sound.solvent.nonneg
    have hlock : currentLock (locks s' owner) =
        some ⟨env.sequence, amount, env.sequence + duration⟩ := by
      rw [hagrees.locks_eq, currentLock_putLock, if_pos rfl, held_of_pos hpos]
    have hkept := currentLock_run hs'.solvent
      (fun i hi => (hmore.mem hi).2.trans_lt hlive) hlock
    have hlater := (Secure.run ⟨hs', hcovered⟩ hmore).covered owner
    rw [lockedAmount, hkept] at hlater
    exact ⟨hkept, hlater⟩
  · choose votes hvotes hle using getPastVotes_bounded hcalls hretained
    refine ⟨votes, hvotes, ?_⟩
    rw [getPastTotalSupply_run hcalls]
    exact (Finset.sum_le_sum fun a _ => hle a).trans (sum_votes_boost_le hcalls L)

/-- Account 1 stakes 60 of 100, tries to move 50 of them, and moves 40. -/
def stakedCalls : List Invocation :=
  [⟨.authorized 5, .initializeToken (.account 1) [] [] 7 (.ofNat 100)⟩,
    ⟨.authorized 6, .stake (.account 1) (.ofNat 60) maxLockLedgers⟩,
    ⟨.authorized 7, .transfer (.account 1) (.account 2) (.ofNat 50)⟩,
    ⟨.authorized 7, .transfer (.account 1) (.account 2) (.ofNat 40)⟩]

/-- The staked amount stays with its owner, with a boost within its bounds. -/
theorem stake_safety_staked :
    (lockedBalance (machine.run Storage.empty stakedCalls) (.account 1)).val = 60 ∧
      (balance (machine.run Storage.empty stakedCalls) (.account 1)).val = 60 ∧
      ∃ boost, (lockBoost (.account 1) 7).Returns (machine.run Storage.empty stakedCalls) boost
          (machine.run Storage.empty stakedCalls) ∧
        boost.val ≤ (getPastBalance (machine.run Storage.empty stakedCalls) (.account 1) 7).val := by
  have hcalls : machine.Scheduled 0 8 stakedCalls := by decide
  obtain ⟨-, -, hboost⟩ := stake_safety hcalls
  obtain ⟨boost, hret, -, hle⟩ := (hboost 7 (by decide) (by decide)).1 (.account 1)
  exact ⟨by decide, by decide, boost, hret, hle⟩

/-- At ledger 3153606, with half of the scale still to go, the stake gives half of its amount. -/
theorem lockBoost_exact_staked :
    ∃ boost : I128, boost.val = 60 * (6307206 - 3153606) / 6307200 ∧
      (lockBoost (.account 1) 3153606).Returns (machine.run Storage.empty stakedCalls) boost
        (machine.run Storage.empty stakedCalls) := by
  have hcalls : machine.Scheduled (Genesis.empty 0).start 8 stakedCalls := by decide
  have hlocks : locks (machine.run (Genesis.empty 0).state stakedCalls) (.account 1) =
      [⟨6, .ofNat 60, 6307206⟩] := by decide
  have hlock : (⟨6, .ofNat 60, 6307206⟩ : Lock) ∈
      locks (machine.run (Genesis.empty 0).state stakedCalls) (.account 1) := by
    rw [hlocks]
    exact List.mem_singleton_self _
  obtain ⟨remaining, boost, -, -, -, -, -, hval, -, -, hret, -⟩ :=
    lockBoost_exact (Genesis.empty 0) hcalls (.account 1) hlock (by decide) (L := 3153606)
      (by decide) (by decide)
  exact ⟨boost, hval, hret (by rw [hlocks]; decide)⟩

end Closing

end Quorum.Token

import Mathlib.Logic.Relation
import Quorum.Token.Outcomes

/-!
# What a successful token call does

Every successful call of the token is a sequence of few kinds of writes: a balance with its
history and the votes of the owner's representative, the supply, a delegation, a lock, or
something that none of these depends on. `Write` lists the kinds once, and `invoke_writes`
shows that nothing else happens. Invariants are then proved for each kind of write, not for
each call.
-/

namespace Quorum.Token

open Foundation Contract

variable {s s' : Storage} {env : Env} {now : ℕ}

/-! ## Calls -/

/-- The two storages hold the same balances, supply, delegations, votes, locks and histories,
and the admin of the first has not been removed. -/
structure Agrees (s s' : Storage) : Prop where
  admin : s'.admin = none → s.admin = none
  totalSupply : s'.totalSupplyEntry = s.totalSupplyEntry
  supplyCheckpoints : s'.supplyCheckpointsEntry = s.supplyCheckpointsEntry
  balance : s'.balanceEntry = s.balanceEntry
  checkpoints : s'.checkpointsEntry = s.checkpointsEntry
  delegates : s'.delegateEntry = s.delegateEntry
  voteCheckpoints : s'.voteCheckpointsEntry = s.voteCheckpointsEntry
  locks : s'.locksEntry = s.locksEntry

/-- A storage agrees with itself. -/
theorem Agrees.refl (s : Storage) : Agrees s s := ⟨id, rfl, rfl, rfl, rfl, rfl, rfl, rfl⟩

/-- Publishing an event touches no balance, no supply and no history. -/
theorem agrees_published (e : Event) (s : Storage) : Agrees s (published e s) :=
  ⟨id, rfl, rfl, rfl, rfl, rfl, rfl, rfl⟩

/-- A movement of `amount`: the debit, then the credit of what is then stored. -/
def Moves (now : ℕ) (src dst : Address) (amount : I128) (s s' : Storage) : Prop :=
  ∃ rest newBalance s₁ s₂,
    amount.val ≤ (balance s src).val - (lockedAmount s src).val ∧
    rest.val = (balance s src).val - amount.val ∧
    SetsBalance now src rest s s₁ ∧
    newBalance.val = (balance s₁ dst).val + amount.val ∧
    SetsBalance now dst newBalance s₁ s₂ ∧
    Agrees s₂ s'

/-- A burn of `amount`: the debit, then the reduced supply. -/
def Burns (now : ℕ) (src : Address) (amount : I128) (s s' : Storage) : Prop :=
  ∃ rest supply s₁,
    amount.val ≤ (balance s src).val - (lockedAmount s src).val ∧
    rest.val = (balance s src).val - amount.val ∧
    supply.val = (totalSupply s).val - amount.val ∧ 0 ≤ supply.val ∧
    SetsBalance now src rest s s₁ ∧
    Agrees (putSupply now supply s₁) s'

/-- An issue of `amount`: the increased supply, then the credit. -/
def Issues (now : ℕ) (dst : Address) (amount : ℤ) (s s' : Storage) : Prop :=
  ∃ supply newBalance s₁ s₂,
    supply.val = (totalSupply s).val + amount ∧
    newBalance.val = (balance s dst).val + amount ∧
    Agrees (putSupply now supply s) s₁ ∧
    SetsBalance now dst newBalance s₁ s₂ ∧
    Agrees s₂ s'

/-- A successful change of representative. -/
def Redelegates (now : ℕ) (delegator delegatee : Address) (s s' : Storage) : Prop :=
  ∃ previousVotes nextVotes : I128,
    getDelegates s delegator ≠ delegatee ∧
    previousVotes.val =
      (currentVotes s (getDelegates s delegator) now).val - (balance s delegator).val ∧
    nextVotes.val = (currentVotes s delegatee now).val + (balance s delegator).val ∧
    Agrees (putDelegate now delegator delegatee previousVotes nextVotes s) s'

/-- Agreement passes from one storage to the next. -/
theorem Agrees.trans {s₁ s₂ s₃ : Storage} (h : Agrees s₁ s₂) (h' : Agrees s₂ s₃) : Agrees s₁ s₃ :=
  ⟨fun hn => h.admin (h'.admin hn), h'.totalSupply.trans h.totalSupply,
    h'.supplyCheckpoints.trans h.supplyCheckpoints, h'.balance.trans h.balance,
    h'.checkpoints.trans h.checkpoints, h'.delegates.trans h.delegates,
    h'.voteCheckpoints.trans h.voteCheckpoints, h'.locks.trans h.locks⟩

/-- A shift followed by calls that agree moves the amount. -/
theorem Shifts.moves {src dst : Address} {amount : I128} {s₁ : Storage}
    (h : Shifts now src dst amount s s₁) (ha : Agrees s₁ s') : Moves now src dst amount s s' := by
  obtain ⟨hspendable, rest, newBalance, s₂, hrest, hdebit, hnew, hcredit⟩ := h
  exact ⟨rest, newBalance, s₂, s₁, hspendable, hrest, hdebit, hnew, hcredit, ha⟩

/-- A debit followed by the smaller supply burns the amount. -/
theorem Debits.burns {src : Address} {amount supply : I128} {s₁ : Storage}
    (h : Debits now src amount supply s s₁) (ha : Agrees (putSupply now supply s₁) s') :
    Burns now src amount s s' := by
  obtain ⟨hspendable, hremaining, hnonneg, rest, hrest, hdebit⟩ := h
  exact ⟨rest, supply, s₁, hspendable, hrest, hremaining, hnonneg, hdebit, ha⟩

/-- Storing an allowance touches no balance, no supply and no history. -/
theorem agrees_putAllowance (owner spender : Address) (value : AllowanceValue) (s : Storage) :
    Agrees s (putAllowance owner spender value s) := ⟨id, rfl, rfl, rfl, rfl, rfl, rfl, rfl⟩

/-- An accepted `transfer` is authorized by the sender and moves a positive amount. -/
theorem transfer_returns {src dst : Address} {amount : I128} {u : Unit}
    (h : (transfer env src dst amount).Returns s u s') :
    env.auth src = true ∧ 0 < amount.val ∧ Moves env.sequence src dst amount s s' := by
  cases transfer_outcome h with
  | transferred hauth hpos hshifts => exact ⟨hauth, hpos, hshifts.moves (agrees_published _ _)⟩

/-- An accepted `transfer_from` is authorized by the spender, stays within the live allowance and
moves a positive amount. -/
theorem transferFrom_returns {spender src dst : Address} {amount : I128} {u : Unit}
    (h : (transferFrom env spender src dst amount).Returns s u s') :
    env.auth spender = true ∧ 0 < amount.val ∧
      amount.val ≤ (liveAllowance s env src spender).amount.val ∧
      Moves env.sequence src dst amount s s' := by
  cases transferFrom_outcome h with
  | transferredFrom hauth hpos hrest hallowed hshifts =>
    refine ⟨hauth, hpos, by omega, hshifts.moves (Agrees.trans ?_ (agrees_putAllowance _ _ _ _))⟩
    exact agrees_published _ _

/-- An accepted `burn` is authorized by the holder and burns a positive amount. -/
theorem burn_returns {src : Address} {amount : I128} {u : Unit}
    (h : (burn env src amount).Returns s u s') :
    env.auth src = true ∧ 0 < amount.val ∧ Burns env.sequence src amount s s' := by
  cases burn_outcome h with
  | burned hauth hpos hdebits => exact ⟨hauth, hpos, hdebits.burns (agrees_published _ _)⟩

/-- An accepted `burn_from` is authorized by the spender, stays within the live allowance and burns
a positive amount. -/
theorem burnFrom_returns {spender src : Address} {amount : I128} {u : Unit}
    (h : (burnFrom env spender src amount).Returns s u s') :
    env.auth spender = true ∧ 0 < amount.val ∧
      amount.val ≤ (liveAllowance s env src spender).amount.val ∧
      Burns env.sequence src amount s s' := by
  cases burnFrom_outcome h with
  | burnedFrom hauth hpos hrest hallowed hdebits =>
    refine ⟨hauth, hpos, by omega, hdebits.burns (Agrees.trans ?_ (agrees_published _ _))⟩
    exact agrees_putAllowance _ _ _ _

/-- An accepted `mint` is authorized by the stored admin and issues a positive amount. -/
theorem mint_returns {dst : Address} {amount : I128} {u : Unit}
    (h : (mint env dst amount).Returns s u s') :
    (∃ admin, s.admin = some admin ∧ env.auth admin = true) ∧ 0 < amount.val ∧
      Issues env.sequence dst amount.val s s' := by
  cases mint_outcome h with
  | minted hadmin hauth hpos hsupply hnew hcredit =>
    exact ⟨⟨_, hadmin, hauth⟩, hpos, _, _, _, _, hsupply, hnew, .refl _, hcredit,
      agrees_published _ _⟩

/-- The constructor runs once, and sets the supply and the admin's balance alike. -/
theorem initializeToken_returns {admin : Address} {name symbol : Text} {decimals : ℕ}
    {initialSupply : I128} {u : Unit}
    (h : (initializeToken env admin name symbol decimals initialSupply).Returns s u s') :
    s.admin = none ∧ 0 ≤ initialSupply.val ∧ env.auth admin = true ∧
      ∃ s₁ s₂, Agrees (putSupply env.sequence initialSupply s) s₁ ∧ s₁.admin = some admin ∧
        SetsBalance env.sequence admin initialSupply s₁ s₂ ∧ Agrees s₂ s' := by
  cases initializeToken_outcome h with
  | initialized hnone hsupply hdecimals hauth hcredit =>
    refine ⟨hnone, hsupply, hauth, _, _, ?_, ?_, hcredit, agrees_published _ _⟩
    · exact ⟨fun h => by simp [putSupply] at h, rfl, rfl, rfl, rfl, rfl, rfl, rfl⟩
    · rfl

/-- A delegation either keeps the representative, changing nothing, or changes it. -/
theorem delegate_returns {delegator delegatee : Address} {u : Unit}
    (h : (delegate env delegator delegatee).Returns s u s') :
    env.auth delegator = true ∧
      ((getDelegates s delegator = resolveDelegatee delegator delegatee ∧ s' = s) ∨
        Redelegates env.sequence delegator (resolveDelegatee delegator delegatee) s s') := by
  cases delegate_outcome h with
  | kept hauth hsame => exact ⟨hauth, .inl ⟨hsame, rfl⟩⟩
  | delegated hauth hchange hprevious hnext =>
    exact ⟨hauth, .inr ⟨_, _, hchange, hprevious, hnext, agrees_published _ _⟩⟩

/-- An accepted `approve` moves nothing. -/
theorem approve_returns {owner spender : Address} {amount : I128} {expirationLedger : ℕ}
    {u : Unit} (h : (approve env owner spender amount expirationLedger).Returns s u s') :
    Agrees s s' := by
  cases approve_outcome h with
  | approved => exact (agrees_putAllowance owner spender _ s).trans (agrees_published _ _)

/-- An accepted `transfer_admin` moves nothing. -/
theorem transferAdmin_returns {newAdmin : Address} {u : Unit}
    (h : (transferAdmin env newAdmin).Returns s u s') : Agrees s s' := by
  cases transferAdmin_outcome h with
  | nominated => exact ⟨id, rfl, rfl, rfl, rfl, rfl, rfl, rfl⟩

/-- An accepted `accept_admin` moves nothing. -/
theorem acceptAdmin_returns {u : Unit} (h : (acceptAdmin env).Returns s u s') : Agrees s s' := by
  cases acceptAdmin_outcome h with
  | accepted => exact ⟨fun h => by simp [published] at h, rfl, rfl, rfl, rfl, rfl, rfl, rfl⟩

/-- An accepted `cancel_admin_transfer` moves nothing. -/
theorem cancelAdminTransfer_returns {u : Unit} (h : (cancelAdminTransfer env).Returns s u s') :
    Agrees s s' := by
  cases cancelAdminTransfer_outcome h with
  | withdrawn => exact ⟨id, rfl, rfl, rfl, rfl, rfl, rfl, rfl⟩

/-- A stake locks part of a balance that was free of locks. -/
theorem stake_returns {owner : Address} {amount : I128} {duration : ℕ} {u : Unit}
    (h : (stake env owner amount duration).Returns s u s') :
    env.auth owner = true ∧ 0 < amount.val ∧ minLockLedgers ≤ duration ∧
      duration ≤ maxLockLedgers ∧ currentLock (locks s owner) = none ∧
      amount.val ≤ (balance s owner).val ∧ env.sequence + duration ≤ maxU32 ∧
      Agrees (putLock env.sequence owner ⟨env.sequence, amount, env.sequence + duration⟩ s) s' := by
  cases stake_outcome h with
  | staked hauth hpos hmin hmax hnone hbalance hfits =>
    exact ⟨hauth, hpos, hmin, hmax, hnone, hbalance, hfits, agrees_published _ _⟩

/-- Unstaking records a cleared lock once the current one has expired. -/
theorem unstake_returns {owner : Address} {u : Unit} (h : (unstake env owner).Returns s u s') :
    env.auth owner = true ∧ ∃ lock, currentLock (locks s owner) = some lock ∧
      lock.unlockLedger ≤ env.sequence ∧
      Agrees (putLock env.sequence owner ⟨env.sequence, 0, lock.unlockLedger⟩ s) s' := by
  cases unstake_outcome h with
  | unstaked hauth hlock hexpired => exact ⟨hauth, _, hlock, hexpired, agrees_published _ _⟩

/-! ## Every call is a sequence of writes -/

/-- One write at the ledger `now`. -/
inductive Write (now : ℕ) : Storage → Storage → Prop
  | balance {s s' : Storage} (owner : Address) (newBalance : I128)
      (h : SetsBalance now owner newBalance s s') : Write now s s'
  | supply {s : Storage} (supply : I128) : Write now s (putSupply now supply s)
  | delegation {s s' : Storage} (delegator delegatee : Address)
      (h : Redelegates now delegator delegatee s s') : Write now s s'
  | lock {s : Storage} (owner : Address) (lock : Lock) (hledger : lock.ledger = now)
      (hunlock : lock.unlockLedger ≤ now + maxLockLedgers) (hamount : 0 ≤ lock.amount.val) :
      Write now s (putLock now owner lock s)
  | inert {s s' : Storage} (h : Agrees s s') : Write now s s'

/-- Any number of writes at the ledger `now`. -/
abbrev Writes (now : ℕ) : Storage → Storage → Prop := Relation.ReflTransGen (Write now)

/-- A successful call is a sequence of writes at the current ledger. -/
theorem invoke_writes {c : Call} {u : Unit} (h : (invoke env c).Returns s u s') :
    Writes env.sequence s s' := by
  cases c with
  | initializeToken admin name symbol decimals initialSupply =>
    obtain ⟨-, -, -, s₁, s₂, h₁, -, h₂, h₃⟩ := initializeToken_returns h
    exact .tail (.tail (.tail (.single (.supply initialSupply)) (.inert h₁)) (.balance _ _ h₂))
      (.inert h₃)
  | transfer src dst amount =>
    obtain ⟨-, -, _, _, s₁, s₂, -, -, h₁, -, h₂, h₃⟩ := transfer_returns h
    exact .tail (.tail (.single (.balance _ _ h₁)) (.balance _ _ h₂)) (.inert h₃)
  | transferFrom spender src dst amount =>
    obtain ⟨-, -, -, _, _, s₁, s₂, -, -, h₁, -, h₂, h₃⟩ := transferFrom_returns h
    exact .tail (.tail (.single (.balance _ _ h₁)) (.balance _ _ h₂)) (.inert h₃)
  | burnFrom spender src amount =>
    obtain ⟨-, -, -, _, supply, s₁, -, -, -, -, h₁, h₂⟩ := burnFrom_returns h
    exact .tail (.tail (.single (.balance _ _ h₁)) (.supply supply)) (.inert h₂)
  | mint dst amount =>
    obtain ⟨-, -, supply, _, s₁, s₂, -, -, h₁, h₂, h₃⟩ := mint_returns h
    exact .tail (.tail (.tail (.single (.supply supply)) (.inert h₁)) (.balance _ _ h₂)) (.inert h₃)
  | burn src amount =>
    obtain ⟨-, -, _, supply, s₁, -, -, -, -, h₁, h₂⟩ := burn_returns h
    exact .tail (.tail (.single (.balance _ _ h₁)) (.supply supply)) (.inert h₂)
  | approve owner spender amount expirationLedger => exact .single (.inert (approve_returns h))
  | transferAdmin newAdmin => exact .single (.inert (transferAdmin_returns h))
  | acceptAdmin => exact .single (.inert (acceptAdmin_returns h))
  | cancelAdminTransfer => exact .single (.inert (cancelAdminTransfer_returns h))
  | delegate delegator delegatee =>
    obtain ⟨-, ⟨-, rfl⟩ | h⟩ := delegate_returns h
    · exact .refl
    · exact .single (.delegation _ _ h)
  | stake owner amount duration =>
    obtain ⟨-, hpos, -, hmax, -, -, -, h⟩ := stake_returns h
    exact .tail (.single (.lock owner _ rfl (Nat.add_le_add_left hmax _) hpos.le)) (.inert h)
  | unstake owner =>
    obtain ⟨-, lock, -, hexpired, h⟩ := unstake_returns h
    exact .tail (.single (.lock owner ⟨env.sequence, 0, lock.unlockLedger⟩ rfl
      (hexpired.trans (Nat.le_add_right _ _)) le_rfl)) (.inert h)

/-- A step of the machine is a sequence of writes at the ledger of the invocation. -/
theorem machine_writes (i : Invocation) (s : Storage) :
    Writes i.env.sequence s (machine.step i s) := by
  obtain ⟨u, s', hret, hcommit⟩ | hcommit := commit_cases (invoke i.env i.call) s
  · rw [show machine.step i s = s' from hcommit]
    exact invoke_writes hret
  · rw [show machine.step i s = s from hcommit]

end Quorum.Token

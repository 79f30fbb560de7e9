import Quorum.Token.Writes

/-!
# What an accepted token call leaves behind

`Outcome` lists the accepted calls of the token with the conditions under which they are accepted,
and gives for each the storage that it leaves. Only the votes that a balance write computes are
left to `SetsBalance`. `invoke_outcome` shows that there are no other accepted calls; what later
modules say about single entries of the storage is read off from it.
-/

namespace Quorum.Token

open Foundation Contract

variable {s s' : Storage} {env : Env} {u : Unit}

/-! ## The accepted calls -/

/-- The storage after an allowance has been written. -/
def putAllowance (owner spender : Address) (value : AllowanceValue) (s : Storage) : Storage :=
  { s with
    allowanceEntry := Function.update s.allowanceEntry owner
      (Function.update (s.allowanceEntry owner) spender (some value)) }

/-- The two balance writes of a movement: the debit, then the credit of what is then stored. -/
structure Shifts (now : ℕ) (src dst : Address) (amount : I128) (s s' : Storage) : Prop where
  spendable : amount.val ≤ (balance s src).val - (lockedAmount s src).val
  written : ∃ rest newBalance s₁, rest.val = (balance s src).val - amount.val ∧
    SetsBalance now src rest s s₁ ∧ newBalance.val = (balance s₁ dst).val + amount.val ∧
      SetsBalance now dst newBalance s₁ s'

/-- The debit of a burn that is to leave the total supply `supply`. -/
structure Debits (now : ℕ) (src : Address) (amount supply : I128) (s s' : Storage) : Prop where
  spendable : amount.val ≤ (balance s src).val - (lockedAmount s src).val
  remaining : supply.val = (totalSupply s).val - amount.val
  nonneg : 0 ≤ supply.val
  written : ∃ rest : I128, rest.val = (balance s src).val - amount.val ∧
    SetsBalance now src rest s s'

/-- An accepted call, with the storage that it leaves. -/
inductive Outcome (env : Env) (s : Storage) : Call → Storage → Prop
  | initialized {admin : Address} {name symbol : Text} {decimals : ℕ} {initialSupply : I128}
      {s₁ : Storage} (hnone : s.admin = none) (hsupply : 0 ≤ initialSupply.val)
      (hdecimals : decimals ≤ maxDecimals) (hauth : env.auth admin = true)
      (hcredit : SetsBalance env.sequence admin initialSupply
        (putSupply env.sequence initialSupply { s with
          admin := some admin, name := some name, symbol := some symbol
          decimals := some decimals }) s₁) :
      Outcome env s (.initializeToken admin name symbol decimals initialSupply)
        (published (.mint admin initialSupply initialSupply) s₁)
  | transferred {src dst : Address} {amount : I128} {s₁ : Storage} (hauth : env.auth src = true)
      (hpos : 0 < amount.val) (h : Shifts env.sequence src dst amount s s₁) :
      Outcome env s (.transfer src dst amount) (published (.transfer src dst amount) s₁)
  | transferredFrom {spender src dst : Address} {amount rest : I128} {s₁ : Storage}
      (hauth : env.auth spender = true) (hpos : 0 < amount.val)
      (hrest : rest.val = (liveAllowance s env src spender).amount.val - amount.val)
      (hallowed : 0 ≤ rest.val) (h : Shifts env.sequence src dst amount s s₁) :
      Outcome env s (.transferFrom spender src dst amount)
        (putAllowance src spender ⟨rest, (liveAllowance s env src spender).expirationLedger⟩
          (published (.transfer src dst amount) s₁))
  | burned {src : Address} {amount supply : I128} {s₁ : Storage} (hauth : env.auth src = true)
      (hpos : 0 < amount.val) (h : Debits env.sequence src amount supply s s₁) :
      Outcome env s (.burn src amount)
        (published (.burn src amount supply) (putSupply env.sequence supply s₁))
  | burnedFrom {spender src : Address} {amount rest supply : I128} {s₁ : Storage}
      (hauth : env.auth spender = true) (hpos : 0 < amount.val)
      (hrest : rest.val = (liveAllowance s env src spender).amount.val - amount.val)
      (hallowed : 0 ≤ rest.val) (h : Debits env.sequence src amount supply s s₁) :
      Outcome env s (.burnFrom spender src amount)
        (published (.burn src amount supply)
          (putAllowance src spender ⟨rest, (liveAllowance s env src spender).expirationLedger⟩
            (putSupply env.sequence supply s₁)))
  | minted {admin dst : Address} {amount supply newBalance : I128} {s₁ : Storage}
      (hadmin : s.admin = some admin) (hauth : env.auth admin = true) (hpos : 0 < amount.val)
      (hsupply : supply.val = (totalSupply s).val + amount.val)
      (hnew : newBalance.val = (balance s dst).val + amount.val)
      (hcredit : SetsBalance env.sequence dst newBalance (putSupply env.sequence supply s) s₁) :
      Outcome env s (.mint dst amount) (published (.mint dst amount supply) s₁)
  | approved {owner spender : Address} {amount : I128} {expirationLedger : ℕ}
      (hauth : env.auth owner = true) (hamount : 0 ≤ amount.val)
      (hlive : 0 < amount.val → env.sequence ≤ expirationLedger) :
      Outcome env s (.approve owner spender amount expirationLedger)
        (published (.approve owner spender amount expirationLedger)
          (putAllowance owner spender ⟨amount, expirationLedger⟩ s))
  | nominated {admin newAdmin : Address} (hadmin : s.admin = some admin)
      (hauth : env.auth admin = true) :
      Outcome env s (.transferAdmin newAdmin) { s with pendingAdmin := some newAdmin }
  | accepted {admin pending : Address} (hpending : s.pendingAdmin = some pending)
      (hauth : env.auth pending = true) (hadmin : s.admin = some admin) :
      Outcome env s .acceptAdmin
        (published (.adminTransferred admin pending)
          { s with admin := some pending, pendingAdmin := none })
  | withdrawn {admin : Address} (hadmin : s.admin = some admin) (hauth : env.auth admin = true) :
      Outcome env s .cancelAdminTransfer { s with pendingAdmin := none }
  | kept {delegator delegatee : Address} (hauth : env.auth delegator = true)
      (hsame : getDelegates s delegator = resolveDelegatee delegator delegatee) :
      Outcome env s (.delegate delegator delegatee) s
  | delegated {delegator delegatee : Address} {previousVotes nextVotes : I128}
      (hauth : env.auth delegator = true)
      (hchange : getDelegates s delegator ≠ resolveDelegatee delegator delegatee)
      (hprevious : previousVotes.val =
        (currentVotes s (getDelegates s delegator) env.sequence).val - (balance s delegator).val)
      (hnext : nextVotes.val =
        (currentVotes s (resolveDelegatee delegator delegatee) env.sequence).val +
          (balance s delegator).val) :
      Outcome env s (.delegate delegator delegatee)
        (published (.delegated delegator (resolveDelegatee delegator delegatee))
          (putDelegate env.sequence delegator (resolveDelegatee delegator delegatee) previousVotes
            nextVotes s))
  | staked {owner : Address} {amount : I128} {duration : ℕ} (hauth : env.auth owner = true)
      (hpos : 0 < amount.val) (hmin : minLockLedgers ≤ duration) (hmax : duration ≤ maxLockLedgers)
      (hnone : currentLock (locks s owner) = none) (hbalance : amount.val ≤ (balance s owner).val)
      (hfits : env.sequence + duration ≤ maxU32) :
      Outcome env s (.stake owner amount duration)
        (published (.staked owner amount (env.sequence + duration))
          (putLock env.sequence owner ⟨env.sequence, amount, env.sequence + duration⟩ s))
  | unstaked {owner : Address} {lock : Lock} (hauth : env.auth owner = true)
      (hlock : currentLock (locks s owner) = some lock)
      (hexpired : lock.unlockLedger ≤ env.sequence) :
      Outcome env s (.unstake owner)
        (published (.unstaked owner lock.amount)
          (putLock env.sequence owner ⟨env.sequence, 0, lock.unlockLedger⟩ s))

/-! ## What the balance writes leave alone -/

/-- The two storages differ at most in balances, votes and histories. -/
structure Aside (s s' : Storage) : Prop where
  admin : s'.admin = s.admin
  pendingAdmin : s'.pendingAdmin = s.pendingAdmin
  totalSupplyEntry : s'.totalSupplyEntry = s.totalSupplyEntry
  allowanceEntry : s'.allowanceEntry = s.allowanceEntry
  delegateEntry : s'.delegateEntry = s.delegateEntry
  locksEntry : s'.locksEntry = s.locksEntry
  events : s'.events = s.events

/-- Setting a balance leaves the entries beside the balances as they are. -/
theorem SetsBalance.aside {now : ℕ} {owner : Address} {newBalance : I128}
    (h : SetsBalance now owner newBalance s s') : Aside s s' := by
  obtain ⟨-, votes, -, rfl⟩ := h
  exact ⟨rfl, rfl, rfl, rfl, rfl, rfl, rfl⟩

/-- A movement between two holders leaves the entries beside the balances as they are. -/
theorem Shifts.aside {now : ℕ} {src dst : Address} {amount : I128}
    (h : Shifts now src dst amount s s') : Aside s s' := by
  obtain ⟨-, rest, newBalance, s₁, -, hdebit, -, hcredit⟩ := h
  have h₁ := hdebit.aside
  have h₂ := hcredit.aside
  exact ⟨h₂.admin.trans h₁.admin, h₂.pendingAdmin.trans h₁.pendingAdmin,
    h₂.totalSupplyEntry.trans h₁.totalSupplyEntry, h₂.allowanceEntry.trans h₁.allowanceEntry,
    h₂.delegateEntry.trans h₁.delegateEntry, h₂.locksEntry.trans h₁.locksEntry,
    h₂.events.trans h₁.events⟩

/-- A debit leaves the entries beside the balances as they are. -/
theorem Debits.aside {now : ℕ} {src : Address} {amount supply : I128}
    (h : Debits now src amount supply s s') : Aside s s' := by
  obtain ⟨-, -, -, rest, -, hdebit⟩ := h
  exact hdebit.aside

/-! ## Balances, supply and allowances -/

/-- An accepted `move_balance` is a shift followed by its transfer event. -/
theorem moveBalance_shifts {src dst : Address} {amount : I128}
    (h : (moveBalance env src dst amount).Returns s u s') :
    ∃ s₁, Shifts env.sequence src dst amount s s₁ ∧
      s' = published (.transfer src dst amount) s₁ := by
  simp only [moveBalance, returns_read_bind_iff, returns_unwrap_bind_iff,
    returns_rejectIf_bind_iff, I128.checkedSub_eq_some] at h
  obtain ⟨spendable, hspendable, hamount, rest, hrest, h⟩ := h
  obtain ⟨_, s₁, hdebit, h⟩ := returns_bind_iff.mp h
  simp only [returns_read_bind_iff, returns_okOr_bind_iff, I128.checkedAdd_eq_some] at h
  obtain ⟨newBalance, hnew, h⟩ := h
  obtain ⟨_, s₂, hcredit, h⟩ := returns_bind_iff.mp h
  obtain rfl := publish_returns_iff.mp h
  exact ⟨s₂, ⟨by omega, rest, newBalance, s₁, hrest.symm, setBalance_returns hdebit, hnew.symm,
    setBalance_returns hcredit⟩, rfl⟩

/-- What is left of an allowance is stored under its old expiry. -/
theorem spendAllowance_returns_iff {src spender : Address} {approval : AllowanceValue}
    {amount : I128} :
    (spendAllowance src spender approval amount).Returns s u s' ↔
      ∃ rest : I128, approval.amount.val - amount.val = rest.val ∧
        putAllowance src spender ⟨rest, approval.expirationLedger⟩ s = s' := by
  simp only [spendAllowance, returns_unwrap_bind_iff, returns_write_iff, I128.checkedSub_eq_some]
  rfl

/-- An accepted `initialize` has the outcome told of it. -/
theorem initializeToken_outcome {admin : Address} {name symbol : Text} {decimals : ℕ}
    {initialSupply : I128}
    (h : (initializeToken env admin name symbol decimals initialSupply).Returns s u s') :
    Outcome env s (.initializeToken admin name symbol decimals initialSupply) s' := by
  simp only [initializeToken, requireAuth, returns_demand_bind_iff, returns_rejectIf_bind_iff,
    returns_read_bind_iff, returns_write_bind_iff] at h
  obtain ⟨hnone, hnonneg, hdecimals, hauth, h⟩ := h
  rw [returns_setTotalSupply_bind_iff, returns_bind_iff] at h
  obtain ⟨_, s₁, hcredit, h⟩ := h
  obtain rfl := publish_returns_iff.mp h
  exact .initialized (by simpa using hnone) (by omega) (by omega) hauth (setBalance_returns hcredit)

/-- An accepted `transfer` has the outcome told of it. -/
theorem transfer_outcome {src dst : Address} {amount : I128}
    (h : (transfer env src dst amount).Returns s u s') :
    Outcome env s (.transfer src dst amount) s' := by
  simp only [transfer, requireAuth, returns_demand_bind_iff, returns_rejectIf_bind_iff] at h
  obtain ⟨hauth, hpos, h⟩ := h
  obtain ⟨s₁, hshifts, rfl⟩ := moveBalance_shifts h
  exact .transferred hauth (by omega) hshifts

/-- An accepted `transfer_from` has the outcome told of it: the draw, then the shift. -/
theorem transferFrom_outcome {spender src dst : Address} {amount : I128}
    (h : (transferFrom env spender src dst amount).Returns s u s') :
    Outcome env s (.transferFrom spender src dst amount) s' := by
  simp only [transferFrom, requireAuth, returns_demand_bind_iff, returns_rejectIf_bind_iff,
    returns_read_bind_iff] at h
  obtain ⟨hauth, hpos, hallowed, h⟩ := h
  obtain ⟨_, s₁, hmove, h⟩ := returns_bind_iff.mp h
  obtain ⟨s₂, hshifts, rfl⟩ := moveBalance_shifts hmove
  obtain ⟨rest, hrest, rfl⟩ := spendAllowance_returns_iff.mp h
  exact .transferredFrom hauth (by omega) hrest.symm (by omega) hshifts

/-- An accepted `burn` has the outcome told of it. -/
theorem burn_outcome {src : Address} {amount : I128} (h : (burn env src amount).Returns s u s') :
    Outcome env s (.burn src amount) s' := by
  simp only [burn, requireAuth, returns_demand_bind_iff, returns_rejectIf_bind_iff,
    returns_read_bind_iff, returns_unwrap_bind_iff, returns_okOr_bind_iff,
    I128.filter_checkedSub_eq_some, I128.checkedSub_eq_some] at h
  obtain ⟨hauth, hpos, spendable, hspendable, hamount, supply, hsupply, rest, hrest, h⟩ := h
  obtain ⟨_, s₁, hdebit, h⟩ := returns_bind_iff.mp h
  rw [returns_setTotalSupply_bind_iff, publish_returns_iff] at h
  subst h
  exact .burned hauth (by omega)
    ⟨by omega, hsupply.1, hsupply.2, rest, hrest.symm, setBalance_returns hdebit⟩

/-- An accepted `burn_from` has the outcome told of it: the draw, then the debit. -/
theorem burnFrom_outcome {spender src : Address} {amount : I128}
    (h : (burnFrom env spender src amount).Returns s u s') :
    Outcome env s (.burnFrom spender src amount) s' := by
  simp only [burnFrom, requireAuth, returns_demand_bind_iff, returns_rejectIf_bind_iff,
    returns_read_bind_iff, returns_unwrap_bind_iff, returns_okOr_bind_iff,
    I128.filter_checkedSub_eq_some, I128.checkedSub_eq_some] at h
  obtain ⟨hauth, hpos, hallowed, spendable, hspendable, hamount, supply, hsupply, rest, hrest,
    h⟩ := h
  obtain ⟨_, s₁, hdebit, h⟩ := returns_bind_iff.mp h
  rw [returns_setTotalSupply_bind_iff, returns_bind_iff] at h
  obtain ⟨_, s₂, hspend, h⟩ := h
  obtain ⟨left, hleft, rfl⟩ := spendAllowance_returns_iff.mp hspend
  obtain rfl := publish_returns_iff.mp h
  exact .burnedFrom hauth (by omega) hleft.symm (by omega)
    ⟨by omega, hsupply.1, hsupply.2, rest, hrest.symm, setBalance_returns hdebit⟩

/-- An accepted `mint` has the outcome told of it. -/
theorem mint_outcome {dst : Address} {amount : I128} (h : (mint env dst amount).Returns s u s') :
    Outcome env s (.mint dst amount) s' := by
  simp only [mint, requireAuth, returns_demand_bind_iff, returns_rejectIf_bind_iff,
    returns_read_bind_iff, returns_unwrap_bind_iff, returns_okOr_bind_iff,
    I128.checkedAdd_eq_some] at h
  obtain ⟨admin, hadmin, hauth, hpos, supply, hsupply, newBalance, hnew, h⟩ := h
  rw [returns_setTotalSupply_bind_iff, returns_bind_iff] at h
  obtain ⟨_, s₁, hcredit, h⟩ := h
  obtain rfl := publish_returns_iff.mp h
  exact .minted hadmin hauth (by omega) hsupply.symm hnew.symm (setBalance_returns hcredit)

/-- An accepted `approve` has the outcome told of it. -/
theorem approve_outcome {owner spender : Address} {amount : I128} {expirationLedger : ℕ}
    (h : (approve env owner spender amount expirationLedger).Returns s u s') :
    Outcome env s (.approve owner spender amount expirationLedger) s' := by
  simp only [approve, requireAuth, returns_demand_bind_iff, returns_rejectIf_bind_iff,
    returns_write_bind_iff, publish_returns_iff] at h
  obtain ⟨hauth, hamount, hlive, rfl⟩ := h
  exact .approved hauth (by omega) fun hpos => by omega

/-! ## Administration, delegation and staking -/

/-- An accepted `transfer_admin` has the outcome told of it. -/
theorem transferAdmin_outcome {newAdmin : Address}
    (h : (transferAdmin env newAdmin).Returns s u s') :
    Outcome env s (.transferAdmin newAdmin) s' := by
  simp only [transferAdmin, requireAuth, returns_read_bind_iff, returns_unwrap_bind_iff,
    returns_demand_bind_iff, returns_write_iff] at h
  obtain ⟨admin, hadmin, hauth, rfl⟩ := h
  exact .nominated hadmin hauth

/-- An accepted `accept_admin` has the outcome told of it. -/
theorem acceptAdmin_outcome (h : (acceptAdmin env).Returns s u s') :
    Outcome env s .acceptAdmin s' := by
  simp only [acceptAdmin, requireAuth, returns_read_bind_iff, returns_okOr_bind_iff,
    returns_unwrap_bind_iff, returns_demand_bind_iff, returns_write_bind_iff,
    publish_returns_iff] at h
  obtain ⟨pending, hpending, hauth, admin, hadmin, rfl⟩ := h
  exact .accepted hpending hauth hadmin

/-- An accepted `cancel_admin_transfer` has the outcome told of it. -/
theorem cancelAdminTransfer_outcome (h : (cancelAdminTransfer env).Returns s u s') :
    Outcome env s .cancelAdminTransfer s' := by
  simp only [cancelAdminTransfer, requireAuth, returns_read_bind_iff, returns_unwrap_bind_iff,
    returns_demand_bind_iff, returns_write_iff] at h
  obtain ⟨admin, hadmin, hauth, rfl⟩ := h
  exact .withdrawn hadmin hauth

/-- An accepted `delegate` has the outcome told of it. -/
theorem delegate_outcome {delegator delegatee : Address}
    (h : (delegate env delegator delegatee).Returns s u s') :
    Outcome env s (.delegate delegator delegatee) s' := by
  simp only [delegate, requireAuth, returns_demand_bind_iff, returns_read_bind_iff] at h
  obtain ⟨hauth, h⟩ := h
  split at h <;> rename_i hsame
  · obtain ⟨-, rfl⟩ := returns_pure_iff.mp h
    exact .kept hauth hsame
  · simp only [returns_okOr_bind_iff, I128.filter_checkedSub_eq_some, I128.checkedAdd_eq_some,
      returns_setVotes_bind_iff, returns_write_bind_iff, publish_returns_iff] at h
    obtain ⟨previousVotes, ⟨hprevious, -⟩, nextVotes, hnext, rfl⟩ := h
    exact .delegated hauth hsame hprevious hnext.symm

/-- An accepted `stake` has the outcome told of it. -/
theorem stake_outcome {owner : Address} {amount : I128} {duration : ℕ}
    (h : (stake env owner amount duration).Returns s u s') :
    Outcome env s (.stake owner amount duration) s' := by
  simp only [stake, requireAuth, returns_demand_bind_iff, returns_rejectIf_bind_iff,
    returns_read_bind_iff, returns_okOr_bind_iff, checkedAddU32_eq_some, not_not] at h
  obtain ⟨hauth, hpos, hduration, hnone, hbalance, unlock, ⟨rfl, hfits⟩, h⟩ := h
  rw [returns_recordLock_bind_iff, publish_returns_iff] at h
  subst h
  exact .staked hauth (by omega) hduration.1 hduration.2 (by simpa using hnone) (by omega) hfits

/-- An accepted `unstake` has the outcome told of it. -/
theorem unstake_outcome {owner : Address} (h : (unstake env owner).Returns s u s') :
    Outcome env s (.unstake owner) s' := by
  simp only [unstake, requireAuth, returns_demand_bind_iff, returns_rejectIf_bind_iff,
    returns_read_bind_iff, returns_okOr_bind_iff] at h
  obtain ⟨hauth, lock, hlock, hexpired, h⟩ := h
  rw [returns_recordLock_bind_iff, publish_returns_iff] at h
  subst h
  exact .unstaked hauth hlock (by omega)

/-! ## Every call -/

/-- Every accepted call of a token is one of the listed ones. -/
theorem invoke_outcome {c : Call} (h : (invoke env c).Returns s u s') : Outcome env s c s' := by
  cases c with
  | initializeToken => exact initializeToken_outcome h
  | transfer => exact transfer_outcome h
  | transferFrom => exact transferFrom_outcome h
  | burnFrom => exact burnFrom_outcome h
  | mint => exact mint_outcome h
  | burn => exact burn_outcome h
  | approve => exact approve_outcome h
  | transferAdmin => exact transferAdmin_outcome h
  | acceptAdmin => exact acceptAdmin_outcome h
  | cancelAdminTransfer => exact cancelAdminTransfer_outcome h
  | delegate => exact delegate_outcome h
  | stake => exact stake_outcome h
  | unstake => exact unstake_outcome h

end Quorum.Token

import Quorum.Foundation.Clocked
import Quorum.Token.Storage

/-!
# The token's operations

The contract functions of the QUORUM token and their internal helpers. Reads happen where the
contract reads, so a helper that runs after a write sees it. An unchecked machine operation
that leaves its range is a trap; a checked one is the error code the contract returns.

`invoke` is the dispatch of an invocation, and `machine` the token as a clocked machine under
the host's rollback.
-/

namespace Quorum.Token

open Foundation Contract

/-- A function of the token contract. -/
abbrev TokenM := Contract TokenError Storage

/-- `env.events().publish`. -/
def publish (e : Event) : TokenM Unit := write fun s => { s with events := s.events ++ [e] }

/-! ## Writing the histories -/

/-- Records the vote weight of `owner` at the current ledger. -/
def setVotes (env : Env) (owner : Address) (votes : I128) : TokenM Unit := do
  let s ← read
  let history := record (voteCheckpoints s owner) env.sequence votes
  let history := pruned Checkpoint.ledger env.sequence history
  write fun s =>
    { s with voteCheckpointsEntry := Function.update s.voteCheckpointsEntry owner (some history) }

/-- Writes `newBalance` for `owner` and records it, after moving the difference in the votes of
the owner's representative. -/
def setBalance (env : Env) (owner : Address) (newBalance : I128) : TokenM Unit := do
  let s ← read
  let oldBalance := balance s owner
  let delegatee := getDelegates s owner
  let votes ← okOr
    ((((currentVotes s delegatee env.sequence).checkedSub oldBalance).filter
      fun value => decide (0 ≤ value.val)).bind fun value => value.checkedAdd newBalance)
    .overflow
  setVotes env delegatee votes
  write fun s => { s with balanceEntry := Function.update s.balanceEntry owner (some newBalance) }
  let s ← read
  let history := record (checkpoints s owner) env.sequence newBalance
  let history := pruned Checkpoint.ledger env.sequence history
  write fun s =>
    { s with checkpointsEntry := Function.update s.checkpointsEntry owner (some history) }

/-- Writes the total supply and records it; supply history is never pruned. -/
def setTotalSupply (env : Env) (totalSupply : I128) : TokenM Unit := do
  write fun s => { s with totalSupplyEntry := some totalSupply }
  let s ← read
  let history := record (supplyCheckpoints s) env.sequence totalSupply
  write fun s => { s with supplyCheckpointsEntry := some history }

/-- Appends a lock change at the current ledger. -/
def recordLock (env : Env) (owner : Address) (lock : Lock) : TokenM Unit := do
  let s ← read
  let history := Foundation.record Lock.ledger (locks s owner) lock
  let history := pruned Lock.ledger env.sequence history
  write fun s => { s with locksEntry := Function.update s.locksEntry owner (some history) }

/-! ## Balances and supply -/

/-- Debits `src`, credits `dst`, and emits the transfer event. -/
def moveBalance (env : Env) (src dst : Address) (amount : I128) : TokenM Unit := do
  let s ← read
  let srcBalance := balance s src
  let spendable ← unwrap (srcBalance.checkedSub (lockedAmount s src)) .arithmetic
  rejectIf (spendable.val < amount.val) .insufficientBalance
  let rest ← unwrap (srcBalance.checkedSub amount) .arithmetic
  setBalance env src rest
  -- `dst` is read after the debit, so a self-transfer credits the debited balance.
  let s ← read
  let newBalance ← okOr ((balance s dst).checkedAdd amount) .overflow
  setBalance env dst newBalance
  publish (.transfer src dst amount)

/-- Stores what is left of an allowance after a spend, under its old expiry. -/
def spendAllowance (src spender : Address) (approval : AllowanceValue) (amount : I128) :
    TokenM Unit := do
  let rest ← unwrap (approval.amount.checkedSub amount) .arithmetic
  write fun s => { s with
    allowanceEntry := Function.update s.allowanceEntry src
      (Function.update (s.allowanceEntry src) spender
        (some ⟨rest, approval.expirationLedger⟩)) }

/-- The constructor; `initialize` in the contract. -/
def initializeToken (env : Env) (admin : Address) (name symbol : Text) (decimals : ℕ)
    (initialSupply : I128) : TokenM Unit := do
  let s ← read
  rejectIf (s.admin.isSome = true) .alreadyInitialized
  rejectIf (initialSupply.val < 0) .invalidSupply
  rejectIf (maxDecimals < decimals) .invalidDecimals
  requireAuth env admin
  write fun s => { s with
    admin := some admin, name := some name, symbol := some symbol, decimals := some decimals }
  setTotalSupply env initialSupply
  setBalance env admin initialSupply
  publish (.mint admin initialSupply initialSupply)

/-- Moves `amount` from `src` to `dst`. -/
def transfer (env : Env) (src dst : Address) (amount : I128) : TokenM Unit := do
  requireAuth env src
  rejectIf (amount.val ≤ 0) .invalidAmount
  moveBalance env src dst amount

/-- Moves `amount` from `src` to `dst` on behalf of `spender`. -/
def transferFrom (env : Env) (spender src dst : Address) (amount : I128) : TokenM Unit := do
  requireAuth env spender
  rejectIf (amount.val ≤ 0) .invalidAmount
  let s ← read
  let approval := liveAllowance s env src spender
  rejectIf (approval.amount.val < amount.val) .insufficientAllowance
  moveBalance env src dst amount
  spendAllowance src spender approval amount

/-- Burns `amount` from `src` on behalf of `spender`. -/
def burnFrom (env : Env) (spender src : Address) (amount : I128) : TokenM Unit := do
  requireAuth env spender
  rejectIf (amount.val ≤ 0) .invalidAmount
  let s ← read
  let approval := liveAllowance s env src spender
  rejectIf (approval.amount.val < amount.val) .insufficientAllowance
  let srcBalance := balance s src
  let spendable ← unwrap (srcBalance.checkedSub (lockedAmount s src)) .arithmetic
  rejectIf (spendable.val < amount.val) .insufficientBalance
  let newSupply ← okOr
    (((totalSupply s).checkedSub amount).filter fun remaining => decide (0 ≤ remaining.val))
    .overflow
  let rest ← unwrap (srcBalance.checkedSub amount) .arithmetic
  setBalance env src rest
  setTotalSupply env newSupply
  spendAllowance src spender approval amount
  publish (.burn src amount newSupply)

/-- Creates `amount` for `dst`; admin only. -/
def mint (env : Env) (dst : Address) (amount : I128) : TokenM Unit := do
  let s ← read
  let admin ← unwrap s.admin .missing
  requireAuth env admin
  rejectIf (amount.val ≤ 0) .invalidAmount
  let newSupply ← okOr ((totalSupply s).checkedAdd amount) .overflow
  let newBalance ← okOr ((balance s dst).checkedAdd amount) .overflow
  setTotalSupply env newSupply
  setBalance env dst newBalance
  publish (.mint dst amount newSupply)

/-- Burns `amount` of the balance of `src`. -/
def burn (env : Env) (src : Address) (amount : I128) : TokenM Unit := do
  requireAuth env src
  rejectIf (amount.val ≤ 0) .invalidAmount
  let s ← read
  let srcBalance := balance s src
  let spendable ← unwrap (srcBalance.checkedSub (lockedAmount s src)) .arithmetic
  rejectIf (spendable.val < amount.val) .insufficientBalance
  let newSupply ← okOr
    (((totalSupply s).checkedSub amount).filter fun remaining => decide (0 ≤ remaining.val))
    .overflow
  let rest ← unwrap (srcBalance.checkedSub amount) .arithmetic
  setBalance env src rest
  setTotalSupply env newSupply
  publish (.burn src amount newSupply)

/-! ## Allowances and administration -/

/-- Grants `spender` the right to move up to `amount` until `expirationLedger` has passed. -/
def approve (env : Env) (owner spender : Address) (amount : I128) (expirationLedger : ℕ) :
    TokenM Unit := do
  requireAuth env owner
  rejectIf (amount.val < 0) .invalidAmount
  rejectIf (0 < amount.val ∧ expirationLedger < env.sequence) .invalidExpiration
  write fun s => { s with
    allowanceEntry := Function.update s.allowanceEntry owner
      (Function.update (s.allowanceEntry owner) spender (some ⟨amount, expirationLedger⟩)) }
  publish (.approve owner spender amount expirationLedger)

/-- Nominates a new admin; admin only. -/
def transferAdmin (env : Env) (newAdmin : Address) : TokenM Unit := do
  let s ← read
  let admin ← unwrap s.admin .missing
  requireAuth env admin
  write fun s => { s with pendingAdmin := some newAdmin }

/-- Completes the hand-over to the nominated admin. -/
def acceptAdmin (env : Env) : TokenM Unit := do
  let s ← read
  let pending ← okOr s.pendingAdmin .unauthorized
  requireAuth env pending
  let admin ← unwrap s.admin .missing
  write fun s => { s with admin := some pending, pendingAdmin := none }
  publish (.adminTransferred admin pending)

/-- Withdraws the nomination; admin only. -/
def cancelAdminTransfer (env : Env) : TokenM Unit := do
  let s ← read
  let admin ← unwrap s.admin .missing
  requireAuth env admin
  write fun s => { s with pendingAdmin := none }

/-! ## Delegation and staking -/

/-- The representative a delegation names: the all-zero account stands for the holder. -/
def resolveDelegatee (delegator delegatee : Address) : Address :=
  if delegatee = Address.zero then delegator else delegatee

/-- Assigns the holder's own balance to one representative. -/
def delegate (env : Env) (delegator delegatee : Address) : TokenM Unit := do
  requireAuth env delegator
  let delegatee := resolveDelegatee delegator delegatee
  let s ← read
  let previous := getDelegates s delegator
  if previous = delegatee then pure ()
  else do
    let amount := balance s delegator
    let previousVotes ← okOr
      (((currentVotes s previous env.sequence).checkedSub amount).filter
        fun value => decide (0 ≤ value.val)) .overflow
    let nextVotes ← okOr ((currentVotes s delegatee env.sequence).checkedAdd amount) .overflow
    setVotes env previous previousVotes
    setVotes env delegatee nextVotes
    write fun s => { s with
      delegateEntry := Function.update s.delegateEntry delegator
        (if delegatee = delegator then none else some delegatee) }
    publish (.delegated delegator delegatee)

/-- Locks `amount` of the owner's balance for `duration` ledgers. -/
def stake (env : Env) (owner : Address) (amount : I128) (duration : ℕ) : TokenM Unit := do
  requireAuth env owner
  rejectIf (amount.val ≤ 0) .invalidAmount
  rejectIf (¬ (minLockLedgers ≤ duration ∧ duration ≤ maxLockLedgers)) .invalidDuration
  let s ← read
  rejectIf ((currentLock (locks s owner)).isSome = true) .alreadyStaked
  rejectIf ((balance s owner).val < amount.val) .insufficientBalance
  let unlockLedger ← okOr (checkedAddU32 env.sequence duration) .overflow
  recordLock env owner ⟨env.sequence, amount, unlockLedger⟩
  publish (.staked owner amount unlockLedger)

/-- Releases the lock once its unlock ledger has passed. -/
def unstake (env : Env) (owner : Address) : TokenM Unit := do
  requireAuth env owner
  let s ← read
  let lock ← okOr (currentLock (locks s owner)) .notStaked
  rejectIf (env.sequence < lock.unlockLedger) .lockNotExpired
  recordLock env owner ⟨env.sequence, 0, lock.unlockLedger⟩
  publish (.unstaked owner lock.amount)

/-- The part of the owner's balance that is locked. -/
def lockedBalance (s : Storage) (owner : Address) : I128 := lockedAmount s owner

/-- What the owner can spend now; an unchecked difference. -/
def spendableBalance (owner : Address) : TokenM I128 := do
  let s ← read
  let spendable ← unwrap ((balance s owner).checkedSub (lockedAmount s owner)) .arithmetic
  pure spendable

/-! ## Voting power -/

/-- The scale of the boost as a machine integer. -/
def boostScale : I128 := ⟨maxLockLedgers, by decide, by decide⟩

/-- The split computation of `lock_boost`, with `remaining` ledgers until the unlock ledger:
`(amount / scale) * remaining + (amount % scale) * remaining / scale`. -/
def splitBoost (amount remaining : I128) : Option I128 := do
  let whole ← amount.checkedDiv boostScale
  let whole ← whole.checkedMul remaining
  let part ← amount.checkedRem boostScale
  let part ← part.checkedMul remaining
  let part ← part.checkedDiv boostScale
  whole.checkedAdd part

/-- The voting boost `owner` holds at the close of `ledger`. -/
def lockBoost (owner : Address) (ledger : ℕ) : TokenM I128 := do
  let s ← read
  match lockBefore (locks s owner) ledger with
  | none => pure 0
  | some lock =>
    if lock.amount.val ≤ 0 ∨ lock.unlockLedger ≤ ledger then pure 0
    else do
      let remaining ← unwrap (I128.ofInt? (lock.unlockLedger - ledger)) .arithmetic
      let boost ← unwrap (splitBoost lock.amount remaining) .arithmetic
      pure boost

/-- Effective voting power at the close of `ledger`. -/
def getPastVotes (account : Address) (ledger : ℕ) : TokenM I128 := do
  let s ← read
  let votes := valueAt (voteCheckpoints s account) ledger
  let boost ← lockBoost account ledger
  pure (votes.saturatingAdd boost)

/-! ## Invocations -/

/-- The calls that can change the token. -/
inductive Call where
  | initializeToken (admin : Address) (name symbol : Text) (decimals : ℕ) (initialSupply : I128)
  | transfer (src dst : Address) (amount : I128)
  | transferFrom (spender src dst : Address) (amount : I128)
  | burnFrom (spender src : Address) (amount : I128)
  | mint (dst : Address) (amount : I128)
  | burn (src : Address) (amount : I128)
  | approve (owner spender : Address) (amount : I128) (expirationLedger : ℕ)
  | transferAdmin (newAdmin : Address)
  | acceptAdmin
  | cancelAdminTransfer
  | delegate (delegator delegatee : Address)
  | stake (owner : Address) (amount : I128) (duration : ℕ)
  | unstake (owner : Address)

/-- Runs the contract function a call names. -/
def invoke (env : Env) : Call → TokenM Unit
  | .initializeToken admin name symbol decimals initialSupply =>
    Token.initializeToken env admin name symbol decimals initialSupply
  | .transfer src dst amount => Token.transfer env src dst amount
  | .transferFrom spender src dst amount => Token.transferFrom env spender src dst amount
  | .burnFrom spender src amount => Token.burnFrom env spender src amount
  | .mint dst amount => Token.mint env dst amount
  | .burn src amount => Token.burn env src amount
  | .approve owner spender amount expirationLedger =>
    Token.approve env owner spender amount expirationLedger
  | .transferAdmin newAdmin => Token.transferAdmin env newAdmin
  | .acceptAdmin => Token.acceptAdmin env
  | .cancelAdminTransfer => Token.cancelAdminTransfer env
  | .delegate delegator delegatee => Token.delegate env delegator delegatee
  | .stake owner amount duration => Token.stake env owner amount duration
  | .unstake owner => Token.unstake env owner

/-- A call made to the token in an environment. -/
structure Invocation where
  env : Env
  call : Call

/-- The token under the host's rollback: a failed invocation changes nothing. -/
def machine : Clocked Storage Invocation where
  time i := i.env.sequence
  step i s := (invoke i.env i.call).commit s

end Quorum.Token

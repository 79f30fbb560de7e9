import Quorum.Foundation.Chronicle
import Quorum.Foundation.Int128
import Quorum.Host

/-!
# The token's data model

The storage entries of the QUORUM token and the records kept in them. Every entry is optional,
as in the host's storage, and the readers below supply the defaults that the contract uses for
an absent entry.
-/

namespace Quorum.Token

open Foundation

/-- The token's error codes. -/
inductive TokenError where
  | alreadyInitialized
  | unauthorized
  | insufficientBalance
  | insufficientAllowance
  | invalidAmount
  | overflow
  | invalidExpiration
  | invalidSupply
  | invalidDecimals
  | invalidDuration
  | alreadyStaked
  | notStaked
  | lockNotExpired
deriving DecidableEq

/-- The number under which an error code is reported to callers. -/
def TokenError.code : TokenError → ℕ
  | .alreadyInitialized => 1
  | .unauthorized => 2
  | .insufficientBalance => 3
  | .insufficientAllowance => 4
  | .invalidAmount => 5
  | .overflow => 6
  | .invalidExpiration => 7
  | .invalidSupply => 8
  | .invalidDecimals => 9
  | .invalidDuration => 10
  | .alreadyStaked => 11
  | .notStaked => 12
  | .lockNotExpired => 13

/-- A balance, vote weight or total supply recorded at the ledger on which it changed. -/
structure Checkpoint where
  ledger : ℕ
  balance : I128
deriving DecidableEq

/-- A stored allowance and the ledger it lapses after. -/
structure AllowanceValue where
  amount : I128
  expirationLedger : ℕ
deriving DecidableEq

/-- A stake lock, recorded at the ledger it was taken or released. -/
structure Lock where
  ledger : ℕ
  amount : I128
  unlockLedger : ℕ
deriving DecidableEq

/-- The payloads of the published events. -/
inductive Event where
  | transfer (src dst : Address) (amount : I128)
  | mint (dst : Address) (amount totalSupply : I128)
  | burn (src : Address) (amount totalSupply : I128)
  | approve (owner spender : Address) (amount : I128) (expirationLedger : ℕ)
  | adminTransferred (previousAdmin newAdmin : Address)
  | delegated (delegator delegatee : Address)
  | staked (owner : Address) (amount : I128) (unlockLedger : ℕ)
  | unstaked (owner : Address) (amount : I128)
deriving DecidableEq

/-- The storage entries, one field for each kind of `DataKey`, and the published events. -/
structure Storage where
  admin : Option Address
  name : Option Text
  symbol : Option Text
  decimals : Option ℕ
  totalSupplyEntry : Option I128
  pendingAdmin : Option Address
  supplyCheckpointsEntry : Option (List Checkpoint)
  balanceEntry : Address → Option I128
  allowanceEntry : Address → Address → Option AllowanceValue
  checkpointsEntry : Address → Option (List Checkpoint)
  delegateEntry : Address → Option Address
  voteCheckpointsEntry : Address → Option (List Checkpoint)
  locksEntry : Address → Option (List Lock)
  events : List Event

/-- The storage of a freshly deployed token. -/
def Storage.empty : Storage where
  admin := none
  name := none
  symbol := none
  decimals := none
  totalSupplyEntry := none
  pendingAdmin := none
  supplyCheckpointsEntry := none
  balanceEntry := fun _ => none
  allowanceEntry := fun _ _ => none
  checkpointsEntry := fun _ => none
  delegateEntry := fun _ => none
  voteCheckpointsEntry := fun _ => none
  locksEntry := fun _ => none
  events := []

/-- Ledgers in roughly one day. -/
def ledgersPerDay : ℕ := 17280

/-- How far back checkpoints are kept, in ledgers (60 days). -/
def checkpointRetention : ℕ := ledgersPerDay * 60

/-- Maximum precision supported by the token. -/
def maxDecimals : ℕ := 18

/-- Shortest stake lock, in ledgers (7 days). -/
def minLockLedgers : ℕ := ledgersPerDay * 7

/-- Longest stake lock, in ledgers (365 days); also the scale of the voting boost. -/
def maxLockLedgers : ℕ := ledgersPerDay * 365

/-! ## Histories -/

/-- Appends `value` at `ledger`, or overwrites the last entry if it is already there. -/
def record (checkpoints : List Checkpoint) (ledger : ℕ) (value : I128) : List Checkpoint :=
  Foundation.record Checkpoint.ledger checkpoints ⟨ledger, value⟩

/-- The pruning loop of `set_balance`, `set_votes` and `record_lock`: drops what is older than
the retention window at `ledger`, except the newest such entry. -/
def pruned {E : Type} (time : E → ℕ) (ledger : ℕ) (entries : List E) : List E :=
  prune time (ledger - checkpointRetention) entries

/-- The value in effect at the end of `ledger`, or 0 if there is none. -/
def valueAt (checkpoints : List Checkpoint) (ledger : ℕ) : I128 :=
  match newestWhere (fun c => decide (c.ledger ≤ ledger)) checkpoints with
  | some checkpoint => checkpoint.balance
  | none => 0

/-- The newest lock recorded strictly before `ledger`. -/
def lockBefore (locks : List Lock) (ledger : ℕ) : Option Lock :=
  newestWhere (fun lock => decide (lock.ledger < ledger)) locks

/-- The newest lock, provided it still holds an amount. -/
def currentLock (locks : List Lock) : Option Lock :=
  if locks.length = 0 then none
  else (locks[locks.length - 1]?).filter fun lock => decide (0 < lock.amount.val)

/-! ## Readers -/

/-- The balance of `owner`. -/
def balance (s : Storage) (owner : Address) : I128 := (s.balanceEntry owner).getD 0

/-- The total supply. -/
def totalSupply (s : Storage) : I128 := s.totalSupplyEntry.getD 0

/-- The balance history of `owner`. -/
def checkpoints (s : Storage) (owner : Address) : List Checkpoint :=
  (s.checkpointsEntry owner).getD []

/-- The supply history. -/
def supplyCheckpoints (s : Storage) : List Checkpoint := s.supplyCheckpointsEntry.getD []

/-- The voting history of `owner`. Without one of its own it is the balance history. -/
def voteCheckpoints (s : Storage) (owner : Address) : List Checkpoint :=
  match s.voteCheckpointsEntry owner with
  | some history => history
  | none => checkpoints s owner

/-- The vote weight of `owner` at the ledger `now`. -/
def currentVotes (s : Storage) (owner : Address) (now : ℕ) : I128 :=
  valueAt (voteCheckpoints s owner) now

/-- The lock history of `owner`. -/
def locks (s : Storage) (owner : Address) : List Lock := (s.locksEntry owner).getD []

/-- The amount `owner` has locked now, or 0. -/
def lockedAmount (s : Storage) (owner : Address) : I128 :=
  ((currentLock (locks s owner)).map Lock.amount).getD 0

/-- The current representative; holders vote for themselves by default. -/
def getDelegates (s : Storage) (account : Address) : Address :=
  (s.delegateEntry account).getD account

/-- The stored allowance if it is still live, otherwise a zero allowance. -/
def liveAllowance (s : Storage) (env : Env) (owner spender : Address) : AllowanceValue :=
  match s.allowanceEntry owner spender with
  | some allowance =>
    if env.sequence ≤ allowance.expirationLedger then allowance else ⟨0, 0⟩
  | none => ⟨0, 0⟩

/-- Amount `spender` may still draw from `owner`. -/
def allowance (s : Storage) (env : Env) (owner spender : Address) : I128 :=
  (liveAllowance s env owner spender).amount

/-- Balance of `owner` as of the end of `ledger`. -/
def getPastBalance (s : Storage) (owner : Address) (ledger : ℕ) : I128 :=
  valueAt (checkpoints s owner) ledger

/-- Total supply as of the end of `ledger`. -/
def getPastTotalSupply (s : Storage) (ledger : ℕ) : I128 :=
  valueAt (supplyCheckpoints s) ledger

end Quorum.Token

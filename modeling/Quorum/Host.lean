import Mathlib.Data.BitVec
import Mathlib.Data.Fintype.Sum
import Mathlib.Data.Fintype.EquivFin
import Mathlib.Tactic.DeriveFintype
import Quorum.Foundation.Contract

/-!
# The host environment of a contract invocation

An address is an account or a contract, each named by 32 bytes, so there are finitely many of
them and sums over all addresses are plain finite sums. An environment holds what a contract
function asks the host for: the ledger sequence, its own address and what has been authorized.
The host keeps a tree of authorizations for each address: the entry for the invocation, and below
it one for each call that the invocation makes and that asks for the address again. Storage
lifetimes are not modelled: an entry that exists is readable.
-/

namespace Quorum

open Foundation

instance Address.fintypeKey {w : ℕ} : Fintype (BitVec w) :=
  Fintype.ofEquiv (Fin (2 ^ w)) ⟨BitVec.ofFin, BitVec.toFin, fun _ => rfl, fun _ => rfl⟩

/-- A contract or account address. -/
inductive Address where
  | account (key : BitVec 256)
  | contract (hash : BitVec 256)
deriving DecidableEq, Fintype

/-- The all-zero account `GAAAA…WHF`. -/
def Address.zero : Address := .account 0

/-- A string of the host: its bytes. -/
abbrev Text := List UInt8

/-- What an invocation reads from the host. -/
structure Env where
  /-- The current ledger, `env.ledger().sequence()`. -/
  sequence : ℕ
  /-- The address of the running contract, `env.current_contract_address()`. -/
  contract : Address
  /-- The addresses that have authorized the invocation: each has an entry for it in the host's tree
  of authorizations, or is the contract that makes it. -/
  auth : Address → Bool
  /-- The addresses whose authorization has an entry below that for the invocation, for the call
  of the other contract that it makes in their name. Who signs for the invocation alone has none,
  and neither has a contract that makes the invocation itself. No function here makes more than
  one such call. -/
  nested : Address → Bool

/-- The environment at a ledger in which every address has authorized the invocation and the call
that it makes. -/
def Env.authorized (sequence : ℕ) : Env where
  sequence := sequence
  contract := .contract 0
  auth := fun _ => true
  nested := fun _ => true

/-- `address.require_auth()`: the host traps without the authorization. -/
def requireAuth {E S : Type} (env : Env) (address : Address) : Contract E S Unit :=
  Contract.demand (env.auth address = true) .auth

end Quorum

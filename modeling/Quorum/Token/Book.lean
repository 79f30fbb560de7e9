import Quorum.Token.Custody
import Quorum.Token.Replay

/-!
# The token as a book of holdings

What the token is for fits on one page: who holds how much, who represents whom, what is locked
until when, who may draw how much until when, and who administers it. A `Book` holds nothing
else. It has no histories, no stored supply and no votes, which are sums over the holdings, and
its amounts are integers.

The contract refines the book. A call is accepted exactly when the book allows it, an accepted
call does to the token what it does to the book, and every reading of the token, of the present
as of a retained past, is the answer of the book at that time.
-/

namespace Quorum.Token

open Foundation Contract

variable {s s' : Storage} {env : Env} {start now : ℕ}

/-! ## The book -/

/-- What may still be drawn, and the ledger after which nothing may. -/
structure Grant where
  amount : ℤ
  expiry : ℕ

/-- What is locked, and the ledger from which it may be released. -/
structure Stake where
  amount : ℤ
  unlock : ℕ

/-- Everything that the token's users can tell about it. -/
@[ext] structure Book where
  admin : Option Address
  nominee : Option Address
  holdings : Address → ℤ
  representative : Address → Address
  staked : Address → Option Stake
  granted : Address → Address → Grant

namespace Book

variable (b : Book)

/-- Nobody holds anything. -/
def empty : Book where
  admin := none
  nominee := none
  holdings := fun _ => 0
  representative := id
  staked := fun _ => none
  granted := fun _ _ => ⟨0, 0⟩

/-- All that is held. -/
def supply : ℤ := ∑ a, b.holdings a

/-- All that is held by those whom an account represents. -/
def votes (a : Address) : ℤ := delegated b.representative b.holdings a

/-- What an account has locked. -/
def locked (a : Address) : ℤ :=
  match b.staked a with
  | some stake => stake.amount
  | none => 0

/-- What an account holds and has not locked. -/
def spendable (a : Address) : ℤ := b.holdings a - b.locked a

/-- What `spender` may draw from `owner` at a ledger. -/
def allowed (now : ℕ) (owner spender : Address) : ℤ :=
  if now ≤ (b.granted owner spender).expiry then (b.granted owner spender).amount else 0

/-- What a stake adds to the votes of its owner when a ledger closes: its amount at first if it
is locked for the longest time there is, and proportionally less with the time that is left. -/
def boost (a : Address) (ledger : ℕ) : ℤ :=
  match b.staked a with
  | some stake =>
    if stake.unlock ≤ ledger then 0
    else stake.amount * (stake.unlock - ledger) / maxLockLedgers
  | none => 0

/-- Adds to what an account holds. -/
def credit (a : Address) (amount : ℤ) : Book :=
  { b with holdings := Function.update b.holdings a (b.holdings a + amount) }

/-- Moves an amount between two accounts. -/
def pay (src dst : Address) (amount : ℤ) : Book := (b.credit src (-amount)).credit dst amount

/-- Replaces what `spender` may draw from `owner`. -/
def grant (owner spender : Address) (value : Grant) : Book :=
  { b with
    granted := Function.update b.granted owner
      (Function.update (b.granted owner) spender value) }

/-- Takes from what `spender` may draw, up to the same ledger. -/
def draw (owner spender : Address) (amount : ℤ) : Book :=
  b.grant owner spender
    ⟨(b.granted owner spender).amount - amount, (b.granted owner spender).expiry⟩

/-- The conditions of a call. -/
def Accepts (env : Env) : Call → Prop
  | .initializeToken admin _ _ decimals initialSupply =>
    b.admin = none ∧ env.auth admin = true ∧ 0 ≤ initialSupply.val ∧ decimals ≤ maxDecimals
  | .transfer src _ amount | .burn src amount =>
    env.auth src = true ∧ 0 < amount.val ∧ amount.val ≤ b.spendable src
  | .transferFrom spender src _ amount | .burnFrom spender src amount =>
    env.auth spender = true ∧ 0 < amount.val ∧ amount.val ≤ b.allowed env.sequence src spender ∧
      amount.val ≤ b.spendable src
  | .mint _ amount =>
    (∃ admin, b.admin = some admin ∧ env.auth admin = true) ∧ 0 < amount.val ∧
      b.supply + amount.val ≤ maxI128
  | .approve owner _ amount expirationLedger =>
    env.auth owner = true ∧ 0 ≤ amount.val ∧ (0 < amount.val → env.sequence ≤ expirationLedger)
  | .transferAdmin _ | .cancelAdminTransfer =>
    ∃ admin, b.admin = some admin ∧ env.auth admin = true
  | .acceptAdmin => ∃ nominee, b.nominee = some nominee ∧ env.auth nominee = true
  | .delegate delegator _ => env.auth delegator = true
  | .stake owner amount duration =>
    env.auth owner = true ∧ 0 < amount.val ∧
      (minLockLedgers ≤ duration ∧ duration ≤ maxLockLedgers) ∧ b.staked owner = none ∧
      amount.val ≤ b.holdings owner ∧ env.sequence + duration ≤ maxU32
  | .unstake owner =>
    env.auth owner = true ∧ ∃ stake, b.staked owner = some stake ∧ stake.unlock ≤ env.sequence

/-- What a call does. -/
def after (env : Env) : Call → Book
  | .initializeToken admin _ _ _ initialSupply =>
    { b.credit admin initialSupply.val with admin := some admin }
  | .transfer src dst amount => b.pay src dst amount.val
  | .transferFrom spender src dst amount => (b.pay src dst amount.val).draw src spender amount.val
  | .burn src amount => b.credit src (-amount.val)
  | .burnFrom spender src amount => (b.credit src (-amount.val)).draw src spender amount.val
  | .mint dst amount => b.credit dst amount.val
  | .approve owner spender amount expirationLedger =>
    b.grant owner spender ⟨amount.val, expirationLedger⟩
  | .transferAdmin newAdmin => { b with nominee := some newAdmin }
  | .acceptAdmin => { b with admin := b.nominee, nominee := none }
  | .cancelAdminTransfer => { b with nominee := none }
  | .delegate delegator delegatee =>
    { b with
      representative :=
        Function.update b.representative delegator (resolveDelegatee delegator delegatee) }
  | .stake owner amount duration =>
    { b with
      staked := Function.update b.staked owner (some ⟨amount.val, env.sequence + duration⟩) }
  | .unstake owner => { b with staked := Function.update b.staked owner none }

open Classical in
/-- The book takes the calls it accepts and ignores the others. -/
noncomputable def machine : Clocked Book Invocation where
  time i := i.env.sequence
  step i b := if b.Accepts i.env i.call then b.after i.env i.call else b

end Book

/-! ## The book of a token -/

/-- What a stored allowance grants. -/
def grantOf : Option AllowanceValue → Grant
  | some value => ⟨value.amount.val, value.expirationLedger⟩
  | none => ⟨0, 0⟩

/-- What a storage says to the token's users. -/
def book (s : Storage) : Book where
  admin := s.admin
  nominee := s.pendingAdmin
  holdings := weight s
  representative := getDelegates s
  staked a := (activeLock s a).map fun lock => ⟨lock.amount.val, lock.unlockLedger⟩
  granted owner spender := grantOf (s.allowanceEntry owner spender)

/-- The empty token has the empty book. -/
theorem book_empty : book Storage.empty = Book.empty := rfl

section Readers

/-- The supply of the book is the stored one. -/
theorem book_supply (hs : Solvent s) : (book s).supply = (totalSupply s).val := hs.total

/-- The votes of the book are the current ones. -/
theorem book_votes (hs : Sound now s) (a : Address) :
    (book s).votes a = (currentVotes s a now).val := (hs.coherent.currentVotes_eq a).symm

/-- The locked amounts of the book are those of the token. -/
theorem book_locked (a : Address) : (book s).locked a = (lockedAmount s a).val := by
  simp only [Book.locked, book, activeLock, lockedAmount, Option.map_map]
  cases currentLock (locks s a) <;> rfl

/-- The spendable amounts of the book are the balances less what is locked. -/
theorem book_spendable (a : Address) :
    (book s).spendable a = (balance s a).val - (lockedAmount s a).val := by
  rw [Book.spendable, book_locked]
  rfl

/-- The allowances of the book are the live ones. -/
theorem book_allowed (env : Env) (owner spender : Address) :
    (book s).allowed env.sequence owner spender = (allowance s env owner spender).val := by
  simp only [Book.allowed, book, allowance, liveAllowance]
  rcases Option.eq_none_or_eq_some (s.allowanceEntry owner spender) with hnone | ⟨value, hsome⟩
  · simp only [hnone, grantOf, ite_self]
    rfl
  · simp only [hsome, grantOf]
    split
    · rfl
    · rfl

/-- The boosts of the book are those of the current locks. -/
theorem book_boost (a : Address) (ledger : ℕ) :
    (book s).boost a ledger = boostOf (currentLock (locks s a)) ledger := by
  simp only [Book.boost, book, activeLock, boostOf, Option.map_map]
  cases currentLock (locks s a) <;> rfl

/-- The book shows no stake exactly when no lock is in force. -/
theorem book_staked_eq_none_iff (a : Address) :
    (book s).staked a = none ↔ currentLock (locks s a) = none := by
  simp [book, activeLock]

end Readers

/-! ## What an accepted call does to the book -/

section Effects

/-- What leaves the entries beside the balances changes the holdings of the book alone. -/
theorem Aside.book_eq (h : Aside s s') : book s' = { book s with holdings := weight s' } := by
  have hview := h.view_eq
  have hrepresentative : getDelegates s' = getDelegates s := congrArg Replica.representative hview
  have hlock : activeLock s' = activeLock s := congrArg Replica.lock hview
  refine Book.ext h.admin h.pendingAdmin rfl hrepresentative ?_ ?_
  · funext a
    simp only [book, hlock]
  · funext owner spender
    simp only [book, h.allowanceEntry]

/-- A balance write credits the owner in the book. -/
theorem SetsBalance.book_eq {owner : Address} {newBalance : I128} {amount : ℤ}
    (h : SetsBalance now owner newBalance s s')
    (hnew : newBalance.val = (balance s owner).val + amount) :
    book s' = (book s).credit owner amount := by
  rw [h.aside.book_eq, h.weight_eq, hnew]
  rfl

/-- A shift pays in the book. -/
theorem Shifts.book_eq {src dst : Address} {amount : I128} (h : Shifts now src dst amount s s') :
    book s' = (book s).pay src dst amount.val := by
  obtain ⟨-, rest, newBalance, s₁, hrest, hdebit, hnew, hcredit⟩ := h
  have hrest : rest.val = (balance s src).val + -amount.val := by omega
  rw [hcredit.book_eq hnew, hdebit.book_eq hrest]
  rfl

/-- A debit takes from the holder in the book. -/
theorem Debits.book_eq {src : Address} {amount supply : I128}
    (h : Debits now src amount supply s s') : book s' = (book s).credit src (-amount.val) := by
  obtain ⟨-, -, -, rest, hrest, hdebit⟩ := h
  exact hdebit.book_eq (by omega)

/-- An allowance write grants in the book. -/
theorem book_putAllowance (owner spender : Address) (value : AllowanceValue) (s : Storage) :
    book (putAllowance owner spender value s) =
      (book s).grant owner spender ⟨value.amount.val, value.expirationLedger⟩ := by
  refine Book.ext rfl rfl rfl rfl rfl ?_
  funext a d
  by_cases ha : a = owner
  · subst ha
    by_cases hd : d = spender
    · subst hd
      simp [book, Book.grant, putAllowance, grantOf]
    · simp [book, Book.grant, putAllowance, Function.update_of_ne hd]
  · simp [book, Book.grant, putAllowance, Function.update_of_ne ha]

/-- A lock write stakes in the book. -/
theorem book_putLock (owner : Address) (lock : Lock) (s : Storage) :
    book (putLock now owner lock s) =
      { book s with
        staked := Function.update (book s).staked owner
          ((held (some lock)).map fun lock => ⟨lock.amount.val, lock.unlockLedger⟩) } := by
  refine Book.ext rfl rfl rfl rfl ?_ rfl
  funext a
  simp only [book, activeLock_putLock]
  by_cases ha : a = owner
  · subst ha
    simp only [Function.update_self, Option.map_map]
    rfl
  · simp only [Function.update_of_ne ha]

/-- A draw that the live allowance covers is one from the grant. -/
theorem book_draw {owner spender : Address} {amount rest : I128} (hpos : 0 < amount.val)
    (hrest : rest.val = (liveAllowance s env owner spender).amount.val - amount.val)
    (hallowed : 0 ≤ rest.val) (s₁ : Storage) (hgranted : (book s₁).granted = (book s).granted) :
    book (putAllowance owner spender
        ⟨rest, (liveAllowance s env owner spender).expirationLedger⟩ s₁) =
      (book s₁).draw owner spender amount.val := by
  have hgrant : (book s).granted owner spender =
      ⟨(liveAllowance s env owner spender).amount.val,
        (liveAllowance s env owner spender).expirationLedger⟩ := by
    simp only [book, liveAllowance] at hrest ⊢
    rcases Option.eq_none_or_eq_some (s.allowanceEntry owner spender) with hnone | ⟨value, hsome⟩
    · simp only [hnone, grantOf]
      rfl
    · rw [hsome] at hrest ⊢
      by_cases hlive : env.sequence ≤ value.expirationLedger
      · simp only [hlive, if_true, grantOf]
      · simp only [hlive, if_false] at hrest
        have hzero : (0 : I128).val = 0 := rfl
        omega
  rw [book_putAllowance, Book.draw, hgranted, hgrant, hrest]

/-- An accepted call does to the token what it does to the book. -/
theorem Outcome.book_eq {c : Call} (hs : Solvent s) (h : Outcome env s c s') :
    book s' = (book s).after env c := by
  cases h with
  | @initialized admin name symbol decimals initialSupply s₁ hnone _ _ _ hcredit =>
    have hheld : (balance s admin).val = 0 := congrFun (hs.blank hnone).1 admin
    have hnew : initialSupply.val = (balance s admin).val + initialSupply.val := by omega
    exact hcredit.book_eq hnew
  | transferred _ _ h => exact h.book_eq
  | @transferredFrom spender src dst amount rest s₁ _ hpos hrest hallowed h =>
    have hgranted : (book s₁).granted = (book s).granted := by rw [h.book_eq]; rfl
    have hdraw := book_draw hpos hrest hallowed s₁ hgranted
    rw [h.book_eq] at hdraw
    exact hdraw
  | burned _ _ h => exact h.book_eq
  | @burnedFrom spender src amount rest supply s₁ _ hpos hrest hallowed h =>
    have hgranted : (book s₁).granted = (book s).granted := by rw [h.book_eq]; rfl
    have hdraw := book_draw hpos hrest hallowed s₁ hgranted
    rw [h.book_eq] at hdraw
    exact hdraw
  | minted _ _ _ _ hnew hcredit => exact hcredit.book_eq hnew
  | approved => exact book_putAllowance _ _ _ s
  | nominated => rfl
  | accepted hpending => exact Book.ext hpending.symm rfl rfl rfl rfl rfl
  | withdrawn => rfl
  | @kept delegator delegatee _ hsame =>
    refine Book.ext rfl rfl rfl ?_ rfl rfl
    change getDelegates s = Function.update (getDelegates s) delegator _
    rw [← hsame, Function.update_eq_self]
  | @delegated delegator delegatee previousVotes nextVotes =>
    refine Book.ext rfl rfl rfl ?_ rfl rfl
    exact getDelegates_putDelegate env.sequence delegator _ previousVotes nextVotes s
  | staked _ hpos =>
    refine (book_putLock _ _ s).trans ?_
    rw [held_of_pos hpos]
    rfl
  | unstaked =>
    refine (book_putLock _ _ s).trans ?_
    rw [held_cleared]
    rfl

end Effects

/-! ## Which calls are accepted -/

section Accepted

/-- An accepted call meets the conditions of the book. -/
theorem Outcome.accepts {c : Call} (hs : Solvent s) (h : Outcome env s c s') :
    (book s).Accepts env c := by
  cases h with
  | initialized hnone hsupply hdecimals hauth => exact ⟨hnone, hauth, hsupply, hdecimals⟩
  | transferred hauth hpos h => exact ⟨hauth, hpos, h.spendable.trans_eq (book_spendable _).symm⟩
  | transferredFrom hauth hpos hrest hallowed h =>
    refine ⟨hauth, hpos, ?_, h.spendable.trans_eq (book_spendable _).symm⟩
    rw [book_allowed, allowance]
    omega
  | burned hauth hpos h => exact ⟨hauth, hpos, h.spendable.trans_eq (book_spendable _).symm⟩
  | burnedFrom hauth hpos hrest hallowed h =>
    refine ⟨hauth, hpos, ?_, h.spendable.trans_eq (book_spendable _).symm⟩
    rw [book_allowed, allowance]
    omega
  | @minted admin dst amount supply _ _ hadmin hauth hpos hsupply _ _ =>
    refine ⟨⟨admin, hadmin, hauth⟩, hpos, ?_⟩
    rw [book_supply hs, ← hsupply]
    exact supply.upper
  | approved hauth hamount hlive => exact ⟨hauth, hamount, hlive⟩
  | @nominated admin _ hadmin hauth => exact ⟨admin, hadmin, hauth⟩
  | @accepted _ pending hpending hauth _ => exact ⟨pending, hpending, hauth⟩
  | @withdrawn admin hadmin hauth => exact ⟨admin, hadmin, hauth⟩
  | kept hauth _ => exact hauth
  | delegated hauth _ _ _ => exact hauth
  | staked hauth hpos hmin hmax hnone hbalance hfits =>
    exact ⟨hauth, hpos, ⟨hmin, hmax⟩, (book_staked_eq_none_iff _).mpr hnone, hbalance, hfits⟩
  | @unstaked owner lock hauth hlock hexpired =>
    refine ⟨hauth, ⟨lock.amount.val, lock.unlockLedger⟩, ?_, hexpired⟩
    simp only [book, activeLock, hlock]
    rfl

variable {amount : I128}

/-- `initialize` succeeds where the book accepts it. -/
theorem initializeToken_succeeds {admin : Address} {name symbol : Text} {decimals : ℕ}
    (hs : Sound env.sequence s)
    (h : (book s).Accepts env (.initializeToken admin name symbol decimals amount)) :
    (initializeToken env admin name symbol decimals amount).Succeeds s := by
  obtain ⟨hnone, hauth, hsupply, hdecimals⟩ := h
  have hadmin : s.admin = none := hnone
  have hblank := hs.solvent.blank hadmin
  let named : Storage := { s with
    admin := some admin, name := some name, symbol := some symbol, decimals := some decimals }
  have hcoherent : Coherent env.sequence named :=
    hs.coherent.agrees ⟨fun _ => hadmin, rfl, rfl, rfl, rfl, rfl, rfl, rfl⟩
  have hroom : ∑ a, weight s a - weight s admin + amount.val ≤ maxI128 := by
    rw [hblank.1]
    simpa using amount.upper
  obtain ⟨s₁, hcredit⟩ := setBalance_succeeds admin amount (hcoherent.write (.supply amount))
    hs.solvent.nonneg hsupply hroom
  simp only [initializeToken, requireAuth, succeeds_read_bind_iff, succeeds_rejectIf_bind_iff,
    succeeds_demand_bind_iff]
  refine ⟨by simp [hadmin], by omega, by omega, hauth, ?_⟩
  exact hcredit.succeeds_bind (publish_succeeds _ s₁)

/-- `transfer_from` succeeds where the book accepts it. -/
theorem transferFrom_succeeds {spender src dst : Address} (hs : Sound env.sequence s)
    (h : (book s).Accepts env (.transferFrom spender src dst amount)) :
    (transferFrom env spender src dst amount).Succeeds s := by
  obtain ⟨hauth, hpos, hallowed, hcovered⟩ := h
  rw [book_allowed, allowance] at hallowed
  rw [book_spendable] at hcovered
  simp only [transferFrom, requireAuth, succeeds_read_bind_iff, succeeds_rejectIf_bind_iff,
    succeeds_demand_bind_iff]
  refine ⟨hauth, by omega, by omega, ?_⟩
  apply (moveBalance_succeeds hs hpos hcovered).bind
  intro _ s₁
  exact spendAllowance_succeeds src spender hpos hallowed s₁

/-- `burn_from` succeeds where the book accepts it. -/
theorem burnFrom_succeeds {spender src : Address} (hs : Sound env.sequence s)
    (h : (book s).Accepts env (.burnFrom spender src amount)) :
    (burnFrom env spender src amount).Succeeds s := by
  obtain ⟨hauth, hpos, hallowed, hcovered⟩ := h
  rw [book_allowed, allowance] at hallowed
  rw [book_spendable] at hcovered
  obtain ⟨spendable, hspendable, hval⟩ :=
    checkedSub_fits (hs.balance_nonneg src) (lockedAmount_nonneg s src)
  obtain ⟨supply, rest, s₁, hsupply, hrest, hdebit⟩ := burn_parts src amount hs hpos hcovered
  simp only [burnFrom, requireAuth, succeeds_read_bind_iff, succeeds_rejectIf_bind_iff,
    succeeds_demand_bind_iff]
  refine ⟨hauth, by omega, by omega, ?_⟩
  apply succeeds_unwrap_bind hspendable
  apply succeeds_rejectIf_bind (by omega)
  apply succeeds_okOr_bind hsupply
  apply succeeds_unwrap_bind hrest
  apply hdebit.succeeds_bind
  apply (setTotalSupply_returns supply s₁).succeeds_bind
  obtain ⟨_, s₂, hspend⟩ := spendAllowance_succeeds src spender hpos hallowed
    (putSupply env.sequence supply s₁)
  apply hspend.succeeds_bind
  exact publish_succeeds _ _

/-- `mint` succeeds where the book accepts it. -/
theorem mint_succeeds {dst : Address} (hs : Sound env.sequence s)
    (h : (book s).Accepts env (.mint dst amount)) : (mint env dst amount).Succeeds s := by
  obtain ⟨⟨admin, hadmin, hauth⟩, hpos, hroom⟩ := h
  rw [book_supply hs.solvent] at hroom
  have hmin := I128.minI128_nonpos
  have hdst := hs.balance_nonneg dst
  have hle := hs.balance_le dst
  have htotal := hs.solvent.total
  obtain ⟨supply, hsupply, hsupplyval⟩ := I128.exists_ofInt?
    (x := (totalSupply s).val + amount.val) (by omega) hroom
  obtain ⟨newBalance, hnew, hnewval⟩ := I128.exists_ofInt?
    (x := (balance s dst).val + amount.val) (by omega) (by omega)
  have hfits : ∑ a, weight s a - weight s dst + newBalance.val ≤ maxI128 := by
    unfold weight at htotal ⊢
    omega
  obtain ⟨s₁, hcredit⟩ := setBalance_succeeds dst newBalance
    (hs.coherent.write (.supply supply)) hs.solvent.nonneg (by omega) hfits
  simp only [mint, requireAuth, succeeds_read_bind_iff]
  apply succeeds_unwrap_bind hadmin
  simp only [succeeds_demand_bind_iff, succeeds_rejectIf_bind_iff]
  refine ⟨hauth, by omega, ?_⟩
  apply succeeds_okOr_bind hsupply
  apply succeeds_okOr_bind hnew
  apply (setTotalSupply_returns supply s).succeeds_bind
  exact hcredit.succeeds_bind (publish_succeeds _ s₁)

/-- `delegate` succeeds once the delegator authorizes it. -/
theorem delegate_succeeds {delegator delegatee : Address} (hs : Sound env.sequence s)
    (hauth : env.auth delegator = true) : (delegate env delegator delegatee).Succeeds s := by
  simp only [delegate, requireAuth, succeeds_demand_bind_iff, succeeds_read_bind_iff]
  refine ⟨hauth, ?_⟩
  by_cases hsame : getDelegates s delegator = resolveDelegatee delegator delegatee
  · rw [if_pos hsame]
    exact ⟨(), s, rfl⟩
  · rw [if_neg hsame]
    have hmin := I128.minI128_nonpos
    have hbalance := hs.balance_nonneg delegator
    have hcovered := hs.balance_le_currentVotes delegator
    have hnonneg := hs.currentVotes_nonneg (resolveDelegatee delegator delegatee)
    have hroom := hs.currentVotes_add_balance_le hsame
    have hfits := (totalSupply s).upper
    obtain ⟨previousVotes, hprevious, hpreviousval⟩ :=
      checkedSub_fits (hbalance.trans hcovered) hbalance
    obtain ⟨nextVotes, hnext, -⟩ := I128.exists_ofInt?
      (x := (currentVotes s (resolveDelegatee delegator delegatee) env.sequence).val +
        (balance s delegator).val) (by omega) (by omega)
    apply succeeds_okOr_bind (I128.filter_checkedSub_eq_some.mpr ⟨hpreviousval, by omega⟩)
    apply succeeds_okOr_bind hnext
    apply (setVotes_returns _ previousVotes s).succeeds_bind
    apply (setVotes_returns _ nextVotes _).succeeds_bind
    exact ⟨(), _, rfl⟩

/-- `stake` succeeds where the book accepts it. -/
theorem stake_succeeds {owner : Address} {duration : ℕ}
    (h : (book s).Accepts env (.stake owner amount duration)) :
    (stake env owner amount duration).Succeeds s := by
  obtain ⟨hauth, hpos, hduration, hnone, hbalance, hfits⟩ := h
  rw [book_staked_eq_none_iff] at hnone
  have hcovered : amount.val ≤ (balance s owner).val := hbalance
  simp only [stake, requireAuth, succeeds_demand_bind_iff, succeeds_rejectIf_bind_iff,
    succeeds_read_bind_iff, hnone]
  refine ⟨hauth, by omega, not_not_intro hduration, by simp, by omega, ?_⟩
  exact succeeds_okOr_bind (if_pos hfits) ⟨(), _, rfl⟩

/-- `unstake` succeeds where the book accepts it. -/
theorem unstake_succeeds {owner : Address} (h : (book s).Accepts env (.unstake owner)) :
    (unstake env owner).Succeeds s := by
  obtain ⟨hauth, stake, hstaked, hunlocked⟩ := h
  obtain ⟨active, hactive, rfl⟩ := Option.map_eq_some_iff.mp hstaked
  obtain ⟨lock, hlock, rfl⟩ := Option.map_eq_some_iff.mp hactive
  have hexpired : lock.unlockLedger ≤ env.sequence := hunlocked
  simp only [unstake, requireAuth, succeeds_demand_bind_iff, succeeds_read_bind_iff]
  refine ⟨hauth, ?_⟩
  apply succeeds_okOr_bind hlock
  apply succeeds_rejectIf_bind (by omega)
  exact ⟨(), _, rfl⟩

/-- `approve` succeeds where the book accepts it. -/
theorem approve_succeeds {owner spender : Address} {expirationLedger : ℕ}
    (h : (book s).Accepts env (.approve owner spender amount expirationLedger)) :
    (approve env owner spender amount expirationLedger).Succeeds s := by
  obtain ⟨hauth, hamount, hlive⟩ := h
  simp only [approve, requireAuth, succeeds_demand_bind_iff, succeeds_rejectIf_bind_iff]
  refine ⟨hauth, by omega, ?_, ⟨(), _, rfl⟩⟩
  rintro ⟨hpos, hpast⟩
  have hle := hlive hpos
  omega

/-- The conditions of the book suffice, provided whoever is nominated has been nominated by an
admin. -/
theorem invoke_succeeds (hs : Sound env.sequence s)
    (hnominated : s.pendingAdmin ≠ none → s.admin ≠ none) (c : Call)
    (h : (book s).Accepts env c) : (invoke env c).Succeeds s := by
  cases c with
  | initializeToken => exact initializeToken_succeeds hs h
  | transfer src dst amount =>
    exact transfer_succeeds hs h.1 h.2.1 (h.2.2.trans_eq (book_spendable src))
  | transferFrom => exact transferFrom_succeeds hs h
  | burnFrom => exact burnFrom_succeeds hs h
  | mint => exact mint_succeeds hs h
  | burn src amount => exact burn_succeeds hs h.1 h.2.1 (h.2.2.trans_eq (book_spendable src))
  | approve => exact approve_succeeds h
  | transferAdmin newAdmin =>
    obtain ⟨admin, hadmin, hauth⟩ := h
    apply succeeds_read_bind
    apply succeeds_unwrap_bind hadmin
    exact succeeds_demand_bind_iff.mpr ⟨hauth, (), _, rfl⟩
  | acceptAdmin =>
    obtain ⟨nominee, hnominee, hauth⟩ := h
    have hpending : s.pendingAdmin = some nominee := hnominee
    obtain ⟨admin, hadmin⟩ := Option.ne_none_iff_exists'.mp
      (hnominated (by rw [hpending]; exact Option.some_ne_none nominee))
    apply succeeds_read_bind
    apply succeeds_okOr_bind hpending
    refine succeeds_demand_bind_iff.mpr ⟨hauth, ?_⟩
    apply succeeds_unwrap_bind hadmin
    exact ⟨(), _, rfl⟩
  | cancelAdminTransfer =>
    obtain ⟨admin, hadmin, hauth⟩ := h
    apply succeeds_read_bind
    apply succeeds_unwrap_bind hadmin
    exact succeeds_demand_bind_iff.mpr ⟨hauth, (), _, rfl⟩
  | delegate => exact delegate_succeeds hs h
  | stake => exact stake_succeeds h
  | unstake => exact unstake_succeeds h

end Accepted

/-! ## Whole runs -/

/-- Only an admin nominates. -/
theorem Book.nominated_after {b : Book} {c : Call} (h : b.Accepts env c)
    (hb : b.nominee ≠ none → b.admin ≠ none) :
    (b.after env c).nominee ≠ none → (b.after env c).admin ≠ none := by
  cases c with
  | initializeToken => exact fun _ => Option.some_ne_none _
  | transferAdmin =>
    obtain ⟨admin, hadmin, -⟩ := h
    intro _
    change b.admin ≠ none
    rw [hadmin]
    exact Option.some_ne_none admin
  | acceptAdmin => exact fun hnominee => absurd rfl hnominee
  | cancelAdminTransfer => exact fun hnominee => absurd rfl hnominee
  | _ => exact hb

/-- The invariant of a token started empty under which it answers like its book. -/
structure Orderly (now : ℕ) (s : Storage) : Prop where
  secure : Secure now s
  nominated : s.pendingAdmin ≠ none → s.admin ≠ none

namespace Orderly

/-- The empty token is orderly. -/
theorem empty (now : ℕ) : Orderly now Storage.empty := ⟨.empty now, fun h => absurd rfl h⟩

/-- An orderly token stays orderly as ledgers pass. -/
theorem mono {later : ℕ} (h : Orderly now s) (hle : now ≤ later) : Orderly later s :=
  ⟨h.secure.mono hle, h.nominated⟩

/-- The token accepts what the book accepts. -/
theorem succeeds_iff (h : Orderly env.sequence s) (c : Call) :
    (invoke env c).Succeeds s ↔ (book s).Accepts env c := by
  constructor
  · rintro ⟨u, s', hret⟩
    exact (invoke_outcome hret).accepts h.secure.sound.solvent
  · exact invoke_succeeds h.secure.sound h.nominated c

/-- One call does to the token what it does to the book, and keeps the invariant. -/
theorem step {i : Invocation} (h : Orderly i.env.sequence s) :
    Orderly i.env.sequence (machine.step i s) ∧
      book (machine.step i s) = Book.machine.step i (book s) := by
  have hs := h.secure.sound.solvent
  obtain ⟨-, u, hret⟩ | ⟨hrefused, hsame⟩ := accepted_cases i s
  · have houtcome := invoke_outcome hret
    have haccepts := houtcome.accepts hs
    have hbook := houtcome.book_eq hs
    refine ⟨⟨h.secure.step, ?_⟩, hbook.trans (if_pos haccepts).symm⟩
    have hnominated := Book.nominated_after haccepts h.nominated
    rw [← hbook] at hnominated
    exact hnominated
  · have hnot : ¬ (book s).Accepts i.env i.call := by
      rw [← h.succeeds_iff]
      rintro ⟨u, s', hret⟩
      rw [accepted, hret] at hrefused
      exact Bool.noConfusion hrefused
    rw [hsame]
    exact ⟨h, (if_neg hnot).symm⟩

/-- So does every run. -/
theorem run {calls : List Invocation} (h : Orderly start s)
    (hcalls : machine.Scheduled start now calls) :
    Orderly now (machine.run s calls) ∧
      book (machine.run s calls) = Book.machine.run (book s) calls := by
  induction calls generalizing start s with
  | nil => exact ⟨h.mono hcalls, rfl⟩
  | cons i rest ih =>
    obtain ⟨hstep, hbook⟩ := (h.mono hcalls.1).step
    rw [Clocked.run_cons, Clocked.run_cons, ← hbook]
    exact ih hstep hcalls.2

end Orderly

/-- The readings of the present are those of a book. -/
structure Shows (now : ℕ) (s : Storage) (b : Book) : Prop where
  totalSupply : (totalSupply s).val = b.supply
  balance : ∀ a, (balance s a).val = b.holdings a
  delegates : ∀ a, getDelegates s a = b.representative a
  votes : ∀ a, (currentVotes s a now).val = b.votes a
  locked : ∀ a, (lockedBalance s a).val = b.locked a
  spendable : ∀ a, ∃ amount, (spendableBalance a).Returns s amount s ∧ amount.val = b.spendable a
  allowance : ∀ env owner spender,
    (allowance s env owner spender).val = b.allowed env.sequence owner spender

/-- The readings of a ledger are those of the book when the ledger closes, with the stakes that
have been taken before it. -/
structure Recalls (ledger : ℕ) (s : Storage) (before closing : Book) : Prop where
  balance : ∀ a, (getPastBalance s a ledger).val = closing.holdings a
  votes : ∀ a, ∃ power, (getPastVotes a ledger).Returns s power s ∧
    power.val = min (closing.votes a + before.boost a ledger) maxI128

/-- An orderly token shows its book. -/
theorem Orderly.shows (h : Orderly now s) : Shows now s (book s) where
  totalSupply := (book_supply h.secure.sound.solvent).symm
  balance _ := rfl
  delegates _ := rfl
  votes a := (book_votes h.secure.sound a).symm
  locked a := (book_locked a).symm
  spendable a := by
    obtain ⟨amount, hret, -, hval⟩ := h.secure.spendableBalance_returns a
    exact ⟨amount, hret, hval.trans (book_spendable a).symm⟩
  allowance env owner spender := (book_allowed env owner spender).symm

section Run

variable {calls : List Invocation}

/-- The state before a ledger, as a book. -/
theorem book_stateBefore (hcalls : machine.Scheduled start now calls) (bound : ℕ) :
    book (machine.stateBefore Storage.empty calls bound) =
      Book.machine.stateBefore Book.empty calls bound := by
  rcases Nat.lt_or_ge start bound with hlt | hge
  · have hbefore : machine.Scheduled start bound (machine.before bound calls) :=
      hcalls.before hlt.le (Nat.le_succ bound)
    exact ((Orderly.empty start).run hbefore).2
  · rw [Clocked.stateBefore, hcalls.before_eq_nil hge]
    have hnone : Book.machine.before bound calls = [] := hcalls.before_eq_nil hge
    rw [Clocked.stateBefore, hnone]
    rfl

/-- After every run the token recalls the book at the close of every retained ledger. -/
theorem recalls_run (hcalls : machine.Scheduled start now calls) {L : ℕ}
    (hretained : now ≤ L + checkpointRetention) :
    Recalls L (machine.run Storage.empty calls) (Book.machine.stateBefore Book.empty calls L)
      (Book.machine.stateBefore Book.empty calls (L + 1)) := by
  rw [← book_stateBefore hcalls, ← book_stateBefore hcalls]
  constructor
  · intro a
    have hreads := readsExactly_run (g := Genesis.empty start) hcalls hretained a
    exact congrArg I128.val (hreads.balance.trans (balanceAtClose_empty hcalls a L))
  · intro a
    have hreads := readsExactly_run (g := Genesis.empty start) hcalls hretained a
    obtain ⟨boost, -, hboost, hret⟩ := hreads.boost
    have hvotes := hreads.votes
    rw [votesAtClose_empty hcalls] at hvotes
    have hsolvent : Solvent (machine.stateBefore Storage.empty calls (L + 1)) :=
      (Solvent.empty.run _).1
    have hnonneg : 0 ≤ liveVotes (machine.stateBefore Storage.empty calls (L + 1)) a :=
      delegated_nonneg hsolvent.nonneg a
    have hboosted := boostOf_currentLock_nonneg (machine.stateBefore Storage.empty calls L) a L
    have hstake : boost.val = boostOf
        (currentLock (locks (machine.stateBefore Storage.empty calls L) a)) L := hboost
    refine ⟨_, hret, ?_⟩
    rw [I128.saturatingAdd_val (by rw [hvotes, hstake]; exact add_nonneg hnonneg hboosted), hvotes,
      hstake, ← book_boost]
    rfl

end Run

/-- The token refines its book. In every run from a freshly deployed contract the state, seen as a
book, is where the book gets to with the same calls. Whatever is called next, at whatever ledger
and with whatever authorizations, is accepted exactly when the book accepts it, and then does to
the token what it does to the book. The readings of the present are those of the book. The balances
of every ledger within the retention window, and the supply of every ledger at all, are those of the
book when that ledger closes; the voting power of a ledger within the window is what is delegated
when it closes, with the boost of the stakes taken before it. -/
theorem token_refines_book {calls : List Invocation}
    (hcalls : machine.Scheduled start now calls) :
    let s := machine.run Storage.empty calls
    let b := Book.machine.run Book.empty calls
    let earlier := Book.machine.stateBefore Book.empty calls
    book s = b ∧
      (∀ env c, now ≤ env.sequence → ((invoke env c).Succeeds s ↔ b.Accepts env c) ∧
        book (machine.step ⟨env, c⟩ s) = Book.machine.step ⟨env, c⟩ b) ∧
      Shows now s b ∧
      (∀ L, now ≤ L + checkpointRetention → Recalls L s (earlier L) (earlier (L + 1))) ∧
      ∀ L, (getPastTotalSupply s L).val = (earlier (L + 1)).supply := by
  intro s b earlier
  obtain ⟨horderly, hbook⟩ := (Orderly.empty start).run hcalls
  have hb : book s = b := hbook
  refine ⟨hb, fun env c hnow => ?_, hb ▸ horderly.shows, fun L => recalls_run hcalls,
    fun L => ?_⟩
  · have hnext : Orderly env.sequence s := horderly.mono hnow
    rw [← hb]
    exact ⟨hnext.succeeds_iff c, (hnext.step (i := ⟨env, c⟩)).2⟩
  · rw [getPastTotalSupply_run hcalls L]
    have hclosing : book (machine.stateBefore Storage.empty calls (L + 1)) = earlier (L + 1) :=
      book_stateBefore hcalls (L + 1)
    rw [← hclosing]
    exact (book_supply (Solvent.empty.run _).1).symm

/-- The holder of the supply delegates, locks a part of it and grants an allowance, which is
drawn from. -/
def bookedCalls : List Invocation :=
  [⟨.authorized 1, .initializeToken (.account 1) [] [] 7 (.ofNat 100)⟩,
    ⟨.authorized 2, .delegate (.account 1) (.account 2)⟩,
    ⟨.authorized 2, .stake (.account 1) (.ofNat 30) minLockLedgers⟩,
    ⟨.authorized 3, .approve (.account 1) (.account 3) (.ofNat 50) 9⟩,
    ⟨.authorized 4, .transferFrom (.account 3) (.account 1) (.account 4) (.ofNat 20)⟩]

/-- What is not locked can still be transferred, and no more. -/
theorem token_refines_book_booked :
    let b := Book.machine.run Book.empty bookedCalls
    b.Accepts (.authorized 5) (.transfer (.account 1) (.account 4) (.ofNat 50)) ∧
      ¬ b.Accepts (.authorized 5) (.transfer (.account 1) (.account 4) (.ofNat 51)) := by
  have hcalls : machine.Scheduled 0 5 bookedCalls := by decide
  have hnext := (token_refines_book hcalls).2.1 (.authorized 5)
  constructor
  · exact (hnext _ (by decide)).1.mp (by decide)
  · intro haccepts
    have hsucceeds := (hnext _ (by decide)).1.mpr haccepts
    exact absurd hsucceeds (by decide)

end Quorum.Token

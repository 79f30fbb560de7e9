import Quorum.Foundation.EventLog
import Quorum.Token.Staking

/-!
# The token as its events tell it

A reader of the event log keeps a `Replica`: every balance, the total supply, every holder's
representative, every active lock and the admin. `Replica.apply` is what one event does to it. The
first mint of a log is the genesis allocation, and its receiver is the first admin.
-/

namespace Quorum.Token

open Foundation Contract

variable {s s' : Storage} {env : Env} {u : Unit}

/-! ## The view -/

/-- What the events tell about an active lock. -/
structure ActiveLock where
  amount : I128
  unlockLedger : ℕ
deriving DecidableEq

/-- What a reader of the events knows. -/
@[ext] structure Replica where
  balance : Address → ℤ
  totalSupply : ℤ
  representative : Address → Address
  lock : Address → Option ActiveLock
  admin : Option Address

/-- The reader's knowledge before any event. -/
def Replica.empty : Replica where
  balance := fun _ => 0
  totalSupply := 0
  representative := id
  lock := fun _ => none
  admin := none

/-- The active lock of an account, if it has one. -/
def activeLock (s : Storage) (owner : Address) : Option ActiveLock :=
  (currentLock (locks s owner)).map fun lock => ⟨lock.amount, lock.unlockLedger⟩

/-- What the events are to tell about the token. -/
def view (s : Storage) : Replica where
  balance := weight s
  totalSupply := (totalSupply s).val
  representative := getDelegates s
  lock := activeLock s
  admin := s.admin

/-! ## The reader -/

/-- Adds an amount to the balance of an account. -/
def Replica.credit (r : Replica) (a : Address) (amount : ℤ) : Replica :=
  { r with balance := Function.update r.balance a (r.balance a + amount) }

/-- What one event tells. -/
def Replica.apply (r : Replica) : Event → Replica
  | .transfer src dst amount => (r.credit src (-amount.val)).credit dst amount.val
  | .mint dst amount _ =>
    { r.credit dst amount.val with
      totalSupply := r.totalSupply + amount.val
      admin := r.admin.or (some dst) }
  | .burn src amount _ =>
    { r.credit src (-amount.val) with totalSupply := r.totalSupply - amount.val }
  | .adminTransferred _ newAdmin => { r with admin := some newAdmin }
  | .delegated delegator delegatee =>
    { r with representative := Function.update r.representative delegator delegatee }
  | .staked owner amount unlockLedger =>
    { r with lock := Function.update r.lock owner (some ⟨amount, unlockLedger⟩) }
  | .unstaked owner _ => { r with lock := Function.update r.lock owner none }
  | .approve _ _ _ _ => r

/-- The total supply that an event carries, if it carries one. -/
def Event.carriedSupply : Event → Option I128
  | .mint _ _ totalSupply | .burn _ _ totalSupply => some totalSupply
  | _ => none

/-! ## What the writes tell -/

/-- The active locks depend on the lock histories alone. -/
theorem activeLock_congr (h : locks s' = locks s) : activeLock s' = activeLock s := by
  funext a
  rw [activeLock, h, activeLock]

/-- A new lock is the active one of its owner, unless it holds nothing. -/
theorem activeLock_putLock {now : ℕ} (owner : Address) (lock : Lock) (s : Storage) :
    activeLock (putLock now owner lock s) = Function.update (activeLock s) owner
      ((held (some lock)).map fun lock => ⟨lock.amount, lock.unlockLedger⟩) := by
  funext a
  rw [activeLock, currentLock_putLock]
  by_cases ha : a = owner
  · subst ha
    rw [if_pos rfl, Function.update_self]
  · rw [if_neg ha, Function.update_of_ne ha, activeLock]

/-- Storages that differ in balances, votes and histories only tell the same about the rest. -/
theorem Aside.view_eq (h : Aside s s') : view s' = { view s with balance := weight s' } := by
  refine Replica.ext rfl ?_ ?_ ?_ h.admin
  · simp [view, totalSupply, h.totalSupplyEntry]
  · funext a
    simp [view, getDelegates, h.delegateEntry]
  · apply activeLock_congr
    funext a
    simp [locks, h.locksEntry]

/-- A balance that is written is the old one with the difference added. -/
theorem SetsBalance.view_eq {now : ℕ} {owner : Address} {newBalance : I128} {amount : ℤ}
    (h : SetsBalance now owner newBalance s s')
    (hnew : newBalance.val = (balance s owner).val + amount) :
    view s' = (view s).credit owner amount := by
  rw [h.aside.view_eq, h.weight_eq, hnew]
  rfl

/-- A shift shows as a debit and a credit. -/
theorem Shifts.view_eq {now : ℕ} {src dst : Address} {amount : I128}
    (h : Shifts now src dst amount s s') :
    view s' = ((view s).credit src (-amount.val)).credit dst amount.val := by
  obtain ⟨-, rest, newBalance, s₁, hrest, hdebit, hnew, hcredit⟩ := h
  have hrest : rest.val = (balance s src).val + -amount.val := by omega
  rw [hcredit.view_eq hnew, hdebit.view_eq hrest]

/-- A debit shows as a debit. -/
theorem Debits.view_eq {now : ℕ} {src : Address} {amount supply : I128}
    (h : Debits now src amount supply s s') : view s' = (view s).credit src (-amount.val) := by
  obtain ⟨-, -, -, rest, hrest, hdebit⟩ := h
  exact hdebit.view_eq (by omega)

/-- The debit of a burn with the supply that it leaves. -/
theorem Debits.burn_view_eq {now : ℕ} {src : Address} {amount supply : I128}
    (h : Debits now src amount supply s s') :
    view (putSupply now supply s') = (view s).apply (.burn src amount supply) := by
  have hbalance : weight s' = _ := congrArg Replica.balance h.view_eq
  have hrepresentative : getDelegates s' = _ := congrArg Replica.representative h.view_eq
  have hlock : activeLock s' = _ := congrArg Replica.lock h.view_eq
  exact Replica.ext hbalance h.remaining hrepresentative hlock h.aside.admin

/-! ## One call -/

/-- A step publishes at most one event, which accounts for what the step does and carries the
supply that the step leaves. -/
structure Tells (s s' : Storage) (events : List Event) : Prop where
  appended : s'.events = s.events ++ events
  few : events.length ≤ 1
  replayed : replay Replica.apply (view s) events = view s'
  carried : ∀ e ∈ events, ∀ supply ∈ e.carriedSupply, supply = totalSupply s'

/-- A step that changes nothing shown tells nothing. -/
theorem Tells.nothing (hevents : s'.events = s.events) (hview : view s' = view s) :
    Tells s s' [] where
  appended := by rw [hevents, List.append_nil]
  few := Nat.zero_le 1
  replayed := by rw [replay_nil, hview]
  carried _ he := absurd he List.not_mem_nil

/-- A step that publishes one event tells it. -/
theorem Tells.one {e : Event} (hevents : s'.events = s.events ++ [e])
    (hview : (view s).apply e = view s')
    (hcarried : ∀ supply ∈ e.carriedSupply, supply = totalSupply s') : Tells s s' [e] where
  appended := hevents
  few := le_rfl
  replayed := hview
  carried e' he := by
    obtain rfl := List.mem_singleton.mp he
    exact hcarried

/-- A step whose event carries no supply tells it. -/
theorem Tells.other {e : Event} (hevents : s'.events = s.events ++ [e])
    (hview : (view s).apply e = view s') (hnone : e.carriedSupply = none) : Tells s s' [e] := by
  refine .one hevents hview fun supply hsupply => ?_
  rw [hnone] at hsupply
  contradiction

/-- Before the constructor has run nobody holds anything. -/
theorem Solvent.blank (h : Solvent s) (hnone : s.admin = none) :
    weight s = 0 ∧ (totalSupply s).val = 0 := by
  have hsupply := h.uninitialized hnone
  have hzero : ∀ a ∈ Finset.univ, weight s a = 0 :=
    (Finset.sum_eq_zero_iff_of_nonneg fun a _ => h.nonneg a).mp (h.total.trans hsupply)
  exact ⟨funext fun a => hzero a (Finset.mem_univ a), hsupply⟩

/-- What an accepted call publishes accounts for what it does. -/
theorem Outcome.tells {c : Call} (hs : Solvent s) (h : Outcome env s c s') :
    ∃ events, Tells s s' events := by
  cases h with
  | @initialized admin name symbol decimals initialSupply s₁ hnone _ _ _ hcredit =>
    obtain ⟨hweight, hsupply⟩ := hs.blank hnone
    have hbalance : (balance s admin).val = 0 := congrFun hweight admin
    have haside := hcredit.aside
    refine ⟨_, .one (congrArg (· ++ [_]) haside.events) ?_ ?_⟩
    · have hnew : initialSupply.val = (balance s admin).val + initialSupply.val := by omega
      refine Eq.trans ?_ (hcredit.view_eq hnew).symm
      refine Replica.ext rfl ?_ rfl rfl ?_
      · change (totalSupply s).val + initialSupply.val = initialSupply.val
        rw [hsupply, zero_add]
      · change s.admin.or (some admin) = some admin
        rw [hnone, Option.none_or]
    · rintro supply ⟨⟩
      simp [published, totalSupply, haside.totalSupplyEntry, putSupply]
  | transferred _ _ h =>
    exact ⟨_, .other (congrArg (· ++ [_]) h.aside.events) h.view_eq.symm rfl⟩
  | transferredFrom _ _ _ _ h =>
    exact ⟨_, .other (congrArg (· ++ [_]) h.aside.events) h.view_eq.symm rfl⟩
  | burned _ _ h =>
    refine ⟨_, .one (congrArg (· ++ [_]) h.aside.events) h.burn_view_eq.symm ?_⟩
    rintro _ ⟨⟩
    rfl
  | burnedFrom _ _ _ _ h =>
    refine ⟨_, .one (congrArg (· ++ [_]) h.aside.events) h.burn_view_eq.symm ?_⟩
    rintro _ ⟨⟩
    rfl
  | @minted admin dst amount supply newBalance s₁ hadmin _ _ hsupply hnew hcredit =>
    have haside := hcredit.aside
    refine ⟨_, .one (congrArg (· ++ [_]) haside.events) ?_ ?_⟩
    · refine Eq.trans ?_ (hcredit.view_eq hnew).symm
      refine Replica.ext rfl hsupply.symm rfl rfl ?_
      change s.admin.or (some dst) = s.admin
      rw [hadmin, Option.some_or]
    · rintro supply ⟨⟩
      simp [published, totalSupply, haside.totalSupplyEntry, putSupply]
  | approved => exact ⟨_, .other rfl rfl rfl⟩
  | nominated => exact ⟨_, .nothing rfl rfl⟩
  | accepted => exact ⟨_, .other rfl rfl rfl⟩
  | withdrawn => exact ⟨_, .nothing rfl rfl⟩
  | kept => exact ⟨_, .nothing rfl rfl⟩
  | @delegated delegator delegatee previousVotes nextVotes =>
    refine ⟨_, .other rfl (Replica.ext rfl rfl ?_ rfl rfl) rfl⟩
    exact (getDelegates_putDelegate env.sequence delegator _ previousVotes nextVotes s).symm
  | staked _ hpos =>
    refine ⟨_, .other rfl (Replica.ext rfl rfl rfl ?_ rfl) rfl⟩
    refine Eq.trans ?_ (activeLock_putLock _ _ s).symm
    rw [held_of_pos hpos]
    rfl
  | unstaked =>
    refine ⟨_, .other rfl (Replica.ext rfl rfl rfl ?_ rfl) rfl⟩
    refine Eq.trans ?_ (activeLock_putLock _ _ s).symm
    rw [held_cleared]
    rfl

/-- A refused call publishes nothing. -/
theorem step_tells (hs : Solvent s) (i : Invocation) :
    ∃ events, Tells s (machine.step i s) events := by
  obtain ⟨-, u, hret⟩ | ⟨-, hsame⟩ := accepted_cases i s
  · exact (invoke_outcome hret).tells hs
  · rw [hsame]
    exact ⟨_, .nothing rfl rfl⟩

/-- A step that leaves the view as it is publishes nothing that would alter it. -/
theorem Tells.inert {events : List Event} (h : Tells s s' events) (hview : view s' = view s)
    {e : Event} (he : e ∈ events) : (view s).apply e = view s := by
  obtain ⟨e', rfl⟩ := List.length_eq_one_iff.mp
    (le_antisymm h.few (List.length_pos_of_mem he))
  obtain rfl := List.mem_singleton.mp he
  exact h.replayed.trans hview

/-- A movement is announced alike, whoever initiates it. -/
theorem Outcome.transfer_events {c : Call} {src dst : Address} {amount : I128}
    (h : Outcome env s c s')
    (hc : c = .transfer src dst amount ∨ ∃ spender, c = .transferFrom spender src dst amount) :
    s'.events = s.events ++ [.transfer src dst amount] := by
  rcases hc with rfl | ⟨spender, rfl⟩
  · cases h with
    | transferred _ _ h => exact congrArg (· ++ [_]) h.aside.events
  · cases h with
    | transferredFrom _ _ _ _ h => exact congrArg (· ++ [_]) h.aside.events

/-- A burn is announced alike, whoever initiates it. -/
theorem Outcome.burn_events {c : Call} {src : Address} {amount : I128} (h : Outcome env s c s')
    (hc : c = .burn src amount ∨ ∃ spender, c = .burnFrom spender src amount) :
    s'.events = s.events ++ [.burn src amount (totalSupply s')] := by
  rcases hc with rfl | ⟨spender, rfl⟩
  · cases h with
    | burned _ _ h => exact congrArg (· ++ [_]) h.aside.events
  · cases h with
    | burnedFrom _ _ _ _ h => exact congrArg (· ++ [_]) h.aside.events

/-! ## Whole runs -/

/-- Every event that carries a supply carries the one that a reader then arrives at. -/
def CarriesSupply (log : List Event) : Prop :=
  ∀ earlier e later, log = earlier ++ e :: later → ∀ supply ∈ e.carriedSupply,
    supply.val = (replay Replica.apply .empty (earlier ++ [e])).totalSupply

/-- An empty log carries nothing. -/
theorem CarriesSupply.nil : CarriesSupply [] := by
  intro earlier e later h
  simp at h

/-- One more event that carries the right supply leaves a log that does. -/
theorem CarriesSupply.snoc {log : List Event} {e : Event} (h : CarriesSupply log)
    (he : ∀ supply ∈ e.carriedSupply,
      supply.val = (replay Replica.apply .empty (log ++ [e])).totalSupply) :
    CarriesSupply (log ++ [e]) := by
  intro earlier e' later heq
  rcases snoc_eq_append_cons heq with ⟨rfl, rfl⟩ | ⟨before, rfl⟩
  · exact he
  · exact h earlier e' before rfl

/-- A reader of the log knows the token. -/
structure Told (s : Storage) : Prop where
  solvent : Solvent s
  replayed : replay Replica.apply .empty s.events = view s
  carried : CarriesSupply s.events

namespace Told

/-- A reader knows the empty token. -/
theorem empty : Told Storage.empty where
  solvent := .empty
  replayed := rfl
  carried := .nil

/-- After every step a reader of the log knows the token. -/
theorem step (h : Told s) (i : Invocation) : Told (machine.step i s) := by
  obtain ⟨events, htells⟩ := step_tells h.solvent i
  have haccounts : Accounts Replica.apply s.events (machine.step i s).events (view s)
      (view (machine.step i s)) := ⟨events, htells.appended, htells.replayed⟩
  have hreplayed := haccounts.replay_eq h.replayed
  refine ⟨(h.solvent.run [i]).1, hreplayed, ?_⟩
  have happended := htells.appended
  have hfew := htells.few
  have hcarried := htells.carried
  rcases events with _ | ⟨e, _ | ⟨e', rest⟩⟩
  · rw [happended, List.append_nil]
    exact h.carried
  · rw [happended]
    refine h.carried.snoc fun supply hsupply => ?_
    rw [← happended, hreplayed, hcarried e List.mem_cons_self supply hsupply]
    rfl
  · simp at hfew

/-- After every run a reader of the log knows the token. -/
theorem run (h : Told s) (calls : List Invocation) : Told (machine.run s calls) := by
  induction calls generalizing s with
  | nil => exact h
  | cons i rest ih => exact ih (h.step i)

end Told

/-- In every run, folding the events alone gives every balance, the total supply, every
representative, every active lock and the admin. Each mint and burn carries the supply at that
point, a spender's transfers and burns are announced as the owner's own, and a call that changes
nothing of the view publishes nothing that would alter it. -/
theorem token_log_complete (calls : List Invocation) :
    let s := machine.run Storage.empty calls
    replay Replica.apply .empty s.events = view s ∧
    (∀ earlier e later, s.events = earlier ++ e :: later → ∀ supply ∈ e.carriedSupply,
      supply.val = (replay Replica.apply .empty (earlier ++ [e])).totalSupply) ∧
    (∀ i, ∃ events, (machine.step i s).events = s.events ++ events ∧
      (∀ e ∈ events, ∀ supply ∈ e.carriedSupply, supply = totalSupply (machine.step i s)) ∧
      (view (machine.step i s) = view s → ∀ e ∈ events, (view s).apply e = view s)) ∧
    (∀ env c s' src dst amount, (invoke env c).Returns s () s' →
      (c = .transfer src dst amount ∨ ∃ spender, c = .transferFrom spender src dst amount) →
      s'.events = s.events ++ [.transfer src dst amount]) ∧
    ∀ env c s' src amount, (invoke env c).Returns s () s' →
      (c = .burn src amount ∨ ∃ spender, c = .burnFrom spender src amount) →
      s'.events = s.events ++ [.burn src amount (totalSupply s')] := by
  intro s
  have htold : Told s := Told.empty.run calls
  refine ⟨htold.replayed, htold.carried, fun i => ?_, ?_, ?_⟩
  · obtain ⟨events, htells⟩ := step_tells htold.solvent i
    exact ⟨events, htells.appended, htells.carried, fun hview e he => htells.inert hview he⟩
  · intro env c s' src dst amount hret hc
    exact (invoke_outcome hret).transfer_events hc
  · intro env c s' src amount hret hc
    exact (invoke_outcome hret).burn_events hc

end Quorum.Token

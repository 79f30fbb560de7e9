import Quorum.Token.Representation

/-!
# A refused call changes nothing

Several error exits of the token stand after writes. In a sound token they are out of reach: the
balances, the votes and the supply bound each other, so that every checked operation after the
first write succeeds and no unchecked one leaves its range. What remains are refusals that come
before any write, and the host's trap when an authorization is missing.
-/

namespace Quorum.Token

open Foundation Contract

variable {s s' : Storage} {env : Env} {now start : ℕ}

/-- The address whose authorization a call demands. -/
def authorizer (s : Storage) : Call → Option Address
  | .initializeToken admin _ _ _ _ => some admin
  | .transfer src _ _ => some src
  | .transferFrom spender _ _ _ => some spender
  | .burnFrom spender _ _ => some spender
  | .mint _ _ => s.admin
  | .burn src _ => some src
  | .approve owner _ _ _ => some owner
  | .transferAdmin _ => s.admin
  | .acceptAdmin => s.pendingAdmin
  | .cancelAdminTransfer => s.admin
  | .delegate delegator _ => some delegator
  | .stake owner _ _ => some owner
  | .unstake owner => some owner

/-- The amounts for which a call may overflow. -/
def overflows (env : Env) (s : Storage) : Call → Prop
  | .mint _ amount => maxI128 < (totalSupply s).val + amount.val
  | .stake _ _ duration => maxU32 < env.sequence + duration
  | _ => False

/-- A failure that a call to an initialized token may end with. -/
inductive Excused (env : Env) (s : Storage) (c : Call) : Failure TokenError → Prop
  | auth {a : Address} (h : authorizer s c = some a) (hmissing : env.auth a = false) :
      Excused env s c (.trap .auth)
  | overflow (h : overflows env s c) : Excused env s c (.error .overflow)
  | rejected {e : TokenError} (h : e ≠ .overflow) : Excused env s c (.error e)

/-! ## Writes that succeed -/

/-- A balance write succeeds as long as the balances still fit with it. -/
theorem setBalance_succeeds (owner : Address) (newBalance : I128) (hc : Coherent env.sequence s)
    (hnonneg : ∀ a, 0 ≤ weight s a) (hnew : 0 ≤ newBalance.val)
    (hfit : ∑ a, weight s a - weight s owner + newBalance.val ≤ maxI128) :
    ∃ s', (setBalance env owner newBalance).Returns s () s' := by
  have hrep : weight s owner ≤ liveVotes s (getDelegates s owner) := le_delegated hnonneg owner
  have hsum : liveVotes s (getDelegates s owner) ≤ ∑ a, weight s a :=
    delegated_le_sum hnonneg (getDelegates s owner)
  rw [← hc.currentVotes_eq] at hrep hsum
  unfold weight at hrep hfit
  have hmin := I128.minI128_nonpos
  have hupper := (currentVotes s (getDelegates s owner) env.sequence).upper
  have howner := hnonneg owner
  unfold weight at howner
  obtain ⟨votes, -, hvotes⟩ := I128.exists_ofInt?
    (x := (currentVotes s (getDelegates s owner) env.sequence).val - (balance s owner).val +
      newBalance.val) (by omega) (by unfold weight at hsum; omega)
  have hmoved : movedVotes env.sequence owner newBalance s = some votes :=
    movedVotes_eq_some.mpr ⟨hrep, by omega, hvotes.symm⟩
  exact ⟨_, by rw [Returns, setBalance_run, hmoved]⟩

/-- Publishing never fails. -/
theorem publish_succeeds (e : Event) (s : Storage) : (publish e).Succeeds s :=
  ⟨(), _, publish_run e⟩

/-- A difference of two amounts that are not negative fits. -/
theorem checkedSub_fits {a b : I128} (ha : 0 ≤ a.val) (hb : 0 ≤ b.val) :
    ∃ c, a.checkedSub b = some c ∧ c.val = a.val - b.val := by
  have hmin : minI128 = -maxI128 - 1 := rfl
  have hupper := b.upper
  have hle := a.upper
  exact I128.exists_ofInt? (by omega) (by omega)

/-- A covered movement goes through, whatever the two parties are. -/
theorem moveBalance_succeeds {src dst : Address} {amount : I128} (hs : Sound env.sequence s)
    (hpos : 0 < amount.val)
    (hcovered : amount.val ≤ (balance s src).val - (lockedAmount s src).val) :
    (moveBalance env src dst amount).Succeeds s := by
  have hmin := I128.minI128_nonpos
  have hsrc := hs.balance_nonneg src
  have hlocked := lockedAmount_nonneg s src
  have htotal := hs.solvent.total
  have hfits := (totalSupply s).upper
  obtain ⟨spendable, hspendable, hspendval⟩ := checkedSub_fits hsrc hlocked
  obtain ⟨rest, hrest, hrestval⟩ := checkedSub_fits hsrc hpos.le
  obtain ⟨s₁, hdebit⟩ := setBalance_succeeds src rest hs.coherent hs.solvent.nonneg (by omega)
    (by unfold weight at htotal ⊢; omega)
  -- The debited storage is not solvent, but its balances leave room for the credit.
  have hset := setBalance_returns hdebit
  have hnonneg := hset.nonneg hs.solvent.nonneg (by omega)
  have hsum := hset.sum_weight
  have hle := le_sum hnonneg dst
  have hdst := hnonneg dst
  unfold weight at htotal hsum hle hdst
  obtain ⟨newBalance, hnew, hnewval⟩ := I128.exists_ofInt?
    (x := (balance s₁ dst).val + amount.val) (by omega) (by omega)
  obtain ⟨s₂, hcredit⟩ := setBalance_succeeds dst newBalance (hs.coherent.setsBalance hset) hnonneg
    (by omega) (by unfold weight; omega)
  apply succeeds_read_bind
  apply succeeds_unwrap_bind hspendable
  rw [rejectIf, if_neg (by omega)]
  apply succeeds_unwrap_bind hrest
  apply hdebit.succeeds_bind
  apply succeeds_read_bind
  apply succeeds_okOr_bind hnew
  exact hcredit.succeeds_bind (publish_succeeds _ _)

/-- What a covered burn computes and writes first. -/
theorem burn_parts (src : Address) (amount : I128) (hs : Sound env.sequence s)
    (hpos : 0 < amount.val)
    (hcovered : amount.val ≤ (balance s src).val - (lockedAmount s src).val) :
    ∃ supply rest s₁,
      (((totalSupply s).checkedSub amount).filter fun remaining => decide (0 ≤ remaining.val)) =
        some supply ∧
      (balance s src).checkedSub amount = some rest ∧
      (setBalance env src rest).Returns s () s₁ := by
  have hsrc := hs.balance_nonneg src
  have hlocked := lockedAmount_nonneg s src
  have hle := hs.balance_le src
  have htotal := hs.solvent.total
  have hfits := (totalSupply s).upper
  obtain ⟨supply, hsupply, hsupplyval⟩ := checkedSub_fits (hsrc.trans hle) hpos.le
  obtain ⟨rest, hrest, hrestval⟩ := checkedSub_fits hsrc hpos.le
  obtain ⟨s₁, hdebit⟩ := setBalance_succeeds src rest hs.coherent hs.solvent.nonneg (by omega)
    (by unfold weight at htotal ⊢; omega)
  exact ⟨supply, rest, s₁, I128.filter_checkedSub_eq_some.mpr ⟨hsupplyval, by omega⟩, hrest, hdebit⟩

/-- A spend within the allowance can be subtracted from it. -/
theorem spendAllowance_succeeds (src spender : Address) {approval : AllowanceValue}
    {amount : I128} (hpos : 0 < amount.val) (hallowed : amount.val ≤ approval.amount.val)
    (s : Storage) : (spendAllowance src spender approval amount).Succeeds s := by
  obtain ⟨rest, hrest, -⟩ := checkedSub_fits (hpos.le.trans hallowed) hpos.le
  apply succeeds_unwrap_bind hrest
  exact ⟨(), _, rfl⟩

/-- Setting the supply never fails. -/
theorem setTotalSupply_returns (supply : I128) (s : Storage) :
    (setTotalSupply env supply).Returns s () (putSupply env.sequence supply s) := rfl

/-- Setting votes never fails. -/
theorem setVotes_returns (owner : Address) (votes : I128) (s : Storage) :
    (setVotes env owner votes).Returns s () (putVotes env.sequence owner votes s) := rfl

/-- A transfer that the holder authorizes and that is covered goes through. -/
theorem transfer_succeeds {src dst : Address} {amount : I128} (hs : Sound env.sequence s)
    (hauth : env.auth src = true) (hpos : 0 < amount.val)
    (hcovered : amount.val ≤ (balance s src).val - (lockedAmount s src).val) :
    (transfer env src dst amount).Succeeds s := by
  rw [transfer, requireAuth, demand, if_pos hauth, rejectIf, if_neg (by omega)]
  exact moveBalance_succeeds hs hpos hcovered

/-- So does a burn. -/
theorem burn_succeeds {src : Address} {amount : I128} (hs : Sound env.sequence s)
    (hauth : env.auth src = true) (hpos : 0 < amount.val)
    (hcovered : amount.val ≤ (balance s src).val - (lockedAmount s src).val) :
    (burn env src amount).Succeeds s := by
  obtain ⟨spendable, hsome, hval⟩ :=
    checkedSub_fits (hs.balance_nonneg src) (lockedAmount_nonneg s src)
  obtain ⟨supply, rest, s₁, hsupply, hrest, hdebit⟩ := burn_parts src amount hs hpos hcovered
  rw [burn, requireAuth, demand, if_pos hauth, rejectIf, if_neg (by omega)]
  apply succeeds_read_bind
  apply succeeds_unwrap_bind hsome
  apply succeeds_rejectIf_bind (by omega)
  apply succeeds_okOr_bind hsupply
  apply succeeds_unwrap_bind hrest
  apply hdebit.succeeds_bind
  apply (setTotalSupply_returns supply s₁).succeeds_bind
  exact publish_succeeds _ _

/-! ## Refusals of single calls -/

section Calls

variable {amount : I128}

/-- Without the authorization the call traps in the host; with it the rest decides. -/
theorem refuses_requireAuth_bind {c : Call} {a : Address} {f : Unit → TokenM Unit}
    (ha : authorizer s c = some a) (hf : (f ()).Refuses (Excused env s c) s) :
    (requireAuth env a >>= f).Refuses (Excused env s c) s :=
  refuses_demand_bind (fun hmissing => .auth ha (by simpa using hmissing)) fun _ => hf

/-- A movement is refused only for a balance that does not cover it. -/
theorem moveBalance_refuses {P : Failure TokenError → Prop} {src dst : Address}
    (hs : Sound env.sequence s) (hpos : 0 < amount.val) (hP : P (.error .insufficientBalance)) :
    (moveBalance env src dst amount).Refuses P s := by
  rcases Int.lt_or_le ((balance s src).val - (lockedAmount s src).val) amount.val with hlt | hle
  · obtain ⟨spendable, hspendable, hval⟩ :=
      checkedSub_fits (hs.balance_nonneg src) (lockedAmount_nonneg s src)
    apply refuses_read_bind
    apply refuses_unwrap_bind_of_some hspendable
    exact refuses_rejectIf_bind (fun _ => hP) fun hnot => absurd (by omega) hnot
  · exact (moveBalance_succeeds hs hpos hle).refuses

/-- A refused `transfer` has an excuse and has written nothing. -/
theorem transfer_refuses (src dst : Address) (hs : Sound env.sequence s) :
    (transfer env src dst amount).Refuses (Excused env s (.transfer src dst amount)) s := by
  apply refuses_requireAuth_bind rfl
  apply refuses_rejectIf_bind (fun _ => .rejected (by decide))
  intro hpos
  exact moveBalance_refuses hs (by omega) (.rejected (by decide))

/-- A refused `transfer_from` has an excuse and has written nothing. -/
theorem transferFrom_refuses (spender src dst : Address) (hs : Sound env.sequence s) :
    (transferFrom env spender src dst amount).Refuses
      (Excused env s (.transferFrom spender src dst amount)) s := by
  apply refuses_requireAuth_bind rfl
  apply refuses_rejectIf_bind (fun _ => .rejected (by decide))
  intro hpos
  apply refuses_read_bind
  apply refuses_rejectIf_bind (fun _ => .rejected (by decide))
  intro hallowed
  apply (moveBalance_refuses hs (by omega) (.rejected (by decide))).bind
  intro _ s₁ _
  exact spendAllowance_succeeds src spender (by omega) (by omega) s₁

/-- A refused `burn` has an excuse and has written nothing. -/
theorem burn_refuses (src : Address) (hs : Sound env.sequence s) :
    (burn env src amount).Refuses (Excused env s (.burn src amount)) s := by
  obtain ⟨spendable, hspendable, hval⟩ :=
    checkedSub_fits (hs.balance_nonneg src) (lockedAmount_nonneg s src)
  apply refuses_requireAuth_bind rfl
  apply refuses_rejectIf_bind (fun _ => .rejected (by decide))
  intro hpos
  apply refuses_read_bind
  apply refuses_unwrap_bind_of_some hspendable
  apply refuses_rejectIf_bind (fun _ => .rejected (by decide))
  intro hcovered
  obtain ⟨supply, rest, s₁, hsupply, hrest, hdebit⟩ :=
    burn_parts src amount hs (by omega) (by omega)
  apply refuses_okOr_bind_of_some hsupply
  apply refuses_unwrap_bind_of_some hrest
  apply Succeeds.refuses
  apply hdebit.succeeds_bind
  apply (setTotalSupply_returns supply s₁).succeeds_bind
  exact publish_succeeds _ _

/-- A refused `burn_from` has an excuse and has written nothing. -/
theorem burnFrom_refuses (spender src : Address) (hs : Sound env.sequence s) :
    (burnFrom env spender src amount).Refuses (Excused env s (.burnFrom spender src amount)) s := by
  obtain ⟨spendable, hspendable, hval⟩ :=
    checkedSub_fits (hs.balance_nonneg src) (lockedAmount_nonneg s src)
  apply refuses_requireAuth_bind rfl
  apply refuses_rejectIf_bind (fun _ => .rejected (by decide))
  intro hpos
  apply refuses_read_bind
  apply refuses_rejectIf_bind (fun _ => .rejected (by decide))
  intro hallowed
  apply refuses_unwrap_bind_of_some hspendable
  apply refuses_rejectIf_bind (fun _ => .rejected (by decide))
  intro hcovered
  obtain ⟨supply, rest, s₁, hsupply, hrest, hdebit⟩ :=
    burn_parts src amount hs (by omega) (by omega)
  apply refuses_okOr_bind_of_some hsupply
  apply refuses_unwrap_bind_of_some hrest
  apply Succeeds.refuses
  apply hdebit.succeeds_bind
  apply (setTotalSupply_returns supply s₁).succeeds_bind
  obtain ⟨_, s₂, hspend⟩ := spendAllowance_succeeds src spender (Int.lt_of_not_ge hpos)
    (Int.le_of_not_gt hallowed) (putSupply env.sequence supply s₁)
  apply hspend.succeeds_bind
  exact publish_succeeds _ _

/-- A refused `mint` has an excuse and has written nothing. -/
theorem mint_refuses (dst : Address) (hs : Sound env.sequence s) (hadmin : s.admin ≠ none) :
    (mint env dst amount).Refuses (Excused env s (.mint dst amount)) s := by
  obtain ⟨admin, hsome⟩ := Option.ne_none_iff_exists'.mp hadmin
  have hmin := I128.minI128_nonpos
  have hdst := hs.balance_nonneg dst
  have hle := hs.balance_le dst
  have htotal := hs.solvent.total
  apply refuses_read_bind
  apply refuses_unwrap_bind_of_some hsome
  apply refuses_requireAuth_bind (c := .mint dst amount) hsome
  apply refuses_rejectIf_bind (fun _ => .rejected (by decide))
  intro hpos
  apply refuses_okOr_bind
  · intro hnone
    have hrange := I128.ofInt?_eq_none.mp hnone
    exact .overflow (by unfold overflows; omega)
  · intro supply hsupply
    have hsupplyval := I128.checkedAdd_eq_some.mp hsupply
    have hfits := supply.upper
    obtain ⟨newBalance, hnew, hnewval⟩ := I128.exists_ofInt?
      (x := (balance s dst).val + amount.val) (by omega) (by omega)
    obtain ⟨s₁, hcredit⟩ := setBalance_succeeds (s := putSupply env.sequence supply s) dst newBalance
      (hs.coherent.write (.supply supply)) hs.solvent.nonneg (by omega) (by
        change ∑ a, weight s a - weight s dst + newBalance.val ≤ maxI128
        unfold weight at htotal ⊢
        omega)
    apply refuses_okOr_bind_of_some hnew
    apply Succeeds.refuses
    apply (setTotalSupply_returns supply s).succeeds_bind
    apply hcredit.succeeds_bind
    exact publish_succeeds _ _

/-- A refused `approve` has an excuse and has written nothing. -/
theorem approve_refuses (owner spender : Address) (expirationLedger : ℕ) :
    (approve env owner spender amount expirationLedger).Refuses
      (Excused env s (.approve owner spender amount expirationLedger)) s := by
  apply refuses_requireAuth_bind rfl
  apply refuses_rejectIf_bind (fun _ => .rejected (by decide))
  intro _
  apply refuses_rejectIf_bind (fun _ => .rejected (by decide))
  intro _
  exact Succeeds.refuses ⟨(), _, rfl⟩

/-- A refused `delegate` has an excuse and has written nothing. -/
theorem delegate_refuses (delegator delegatee : Address) (hs : Sound env.sequence s) :
    (delegate env delegator delegatee).Refuses (Excused env s (.delegate delegator delegatee)) s := by
  apply refuses_requireAuth_bind rfl
  apply refuses_read_bind
  change (if getDelegates s delegator = resolveDelegatee delegator delegatee then pure () else _ :
    TokenM Unit).Refuses _ s
  by_cases hsame : getDelegates s delegator = resolveDelegatee delegator delegatee
  · rw [if_pos hsame]
    exact Succeeds.refuses ⟨(), s, rfl⟩
  · rw [if_neg hsame]
    have hmin := I128.minI128_nonpos
    have hbalance := hs.balance_nonneg delegator
    have hcovered := hs.balance_le_currentVotes delegator
    have hnonneg := hs.currentVotes_nonneg (resolveDelegatee delegator delegatee)
    have hroom := hs.currentVotes_add_balance_le hsame
    have hfits := (totalSupply s).upper
    obtain ⟨previousVotes, hprevious, hpreviousval⟩ :=
      checkedSub_fits (hbalance.trans hcovered) hbalance
    obtain ⟨nextVotes, hnext, -⟩ := I128.exists_ofInt?
      (x := (currentVotes s (resolveDelegatee delegator delegatee) env.sequence).val +
        (balance s delegator).val) (by omega) (by omega)
    apply refuses_okOr_bind_of_some (I128.filter_checkedSub_eq_some.mpr ⟨hpreviousval, by omega⟩)
    apply refuses_okOr_bind_of_some hnext
    apply Succeeds.refuses
    apply (setVotes_returns _ previousVotes s).succeeds_bind
    apply (setVotes_returns _ nextVotes _).succeeds_bind
    exact ⟨(), _, rfl⟩

/-- A refused `stake` has an excuse and has written nothing. -/
theorem stake_refuses (owner : Address) (duration : ℕ) :
    (stake env owner amount duration).Refuses (Excused env s (.stake owner amount duration)) s := by
  apply refuses_requireAuth_bind rfl
  apply refuses_rejectIf_bind (fun _ => .rejected (by decide))
  intro _
  apply refuses_rejectIf_bind (fun _ => .rejected (by decide))
  intro _
  apply refuses_read_bind
  apply refuses_rejectIf_bind (fun _ => .rejected (by decide))
  intro _
  apply refuses_rejectIf_bind (fun _ => .rejected (by decide))
  intro _
  apply refuses_okOr_bind
  · exact fun hnone => .overflow (checkedAddU32_eq_none.mp hnone)
  · exact fun unlockLedger _ => Succeeds.refuses ⟨(), _, rfl⟩

/-- A refused `unstake` has an excuse and has written nothing. -/
theorem unstake_refuses (owner : Address) :
    (unstake env owner).Refuses (Excused env s (.unstake owner)) s := by
  apply refuses_requireAuth_bind rfl
  apply refuses_read_bind
  apply refuses_okOr_bind (fun _ => .rejected (by decide))
  intro lock _
  apply refuses_rejectIf_bind (fun _ => .rejected (by decide))
  intro _
  exact Succeeds.refuses ⟨(), _, rfl⟩

/-- A second `initialize` has an excuse and has written nothing. -/
theorem initializeToken_refuses {admin : Address} {name symbol : Text} {decimals : ℕ}
    (hadmin : s.admin ≠ none) :
    (initializeToken env admin name symbol decimals amount).Refuses
      (Excused env s (.initializeToken admin name symbol decimals amount)) s := by
  apply refuses_read_bind
  apply refuses_rejectIf_bind (fun _ => .rejected (by decide))
  intro hnone
  exact absurd (Option.isSome_iff_ne_none.mpr hadmin) hnone

/-- A refused `transfer_admin` has an excuse and has written nothing. -/
theorem transferAdmin_refuses (newAdmin : Address) (hadmin : s.admin ≠ none) :
    (transferAdmin env newAdmin).Refuses (Excused env s (.transferAdmin newAdmin)) s := by
  obtain ⟨admin, hsome⟩ := Option.ne_none_iff_exists'.mp hadmin
  apply refuses_read_bind
  apply refuses_unwrap_bind_of_some hsome
  apply refuses_requireAuth_bind (c := .transferAdmin newAdmin) hsome
  exact Succeeds.refuses ⟨(), _, rfl⟩

/-- A refused `accept_admin` has an excuse and has written nothing. -/
theorem acceptAdmin_refuses (hadmin : s.admin ≠ none) :
    (acceptAdmin env).Refuses (Excused env s .acceptAdmin) s := by
  obtain ⟨admin, hsome⟩ := Option.ne_none_iff_exists'.mp hadmin
  apply refuses_read_bind
  apply refuses_okOr_bind (fun _ => .rejected (by decide))
  intro pending hpending
  apply refuses_requireAuth_bind (c := .acceptAdmin) hpending
  apply refuses_unwrap_bind_of_some hsome
  exact Succeeds.refuses ⟨(), _, rfl⟩

/-- A refused `cancel_admin_transfer` has an excuse and has written nothing. -/
theorem cancelAdminTransfer_refuses (hadmin : s.admin ≠ none) :
    (cancelAdminTransfer env).Refuses (Excused env s .cancelAdminTransfer) s := by
  obtain ⟨admin, hsome⟩ := Option.ne_none_iff_exists'.mp hadmin
  apply refuses_read_bind
  apply refuses_unwrap_bind_of_some hsome
  apply refuses_requireAuth_bind (c := .cancelAdminTransfer) hsome
  exact Succeeds.refuses ⟨(), _, rfl⟩

end Calls

/-- Whatever an initialized sound token refuses, it refuses before any write and for an excused
reason. -/
theorem invoke_refuses (hs : Sound env.sequence s) (hadmin : s.admin ≠ none) (c : Call) :
    (invoke env c).Refuses (Excused env s c) s := by
  cases c with
  | initializeToken admin name symbol decimals initialSupply =>
    exact initializeToken_refuses hadmin
  | transfer src dst amount => exact transfer_refuses src dst hs
  | transferFrom spender src dst amount => exact transferFrom_refuses spender src dst hs
  | burnFrom spender src amount => exact burnFrom_refuses spender src hs
  | mint dst amount => exact mint_refuses dst hs hadmin
  | burn src amount => exact burn_refuses src hs
  | approve owner spender amount expirationLedger =>
    exact approve_refuses owner spender expirationLedger
  | transferAdmin newAdmin => exact transferAdmin_refuses newAdmin hadmin
  | acceptAdmin => exact acceptAdmin_refuses hadmin
  | cancelAdminTransfer => exact cancelAdminTransfer_refuses hadmin
  | delegate delegator delegatee => exact delegate_refuses delegator delegatee hs
  | stake owner amount duration => exact stake_refuses owner duration
  | unstake owner => exact unstake_refuses owner

/-- A mint the admin has authorized overflows exactly when the supply would. -/
theorem mint_overflow_iff {admin dst : Address} {amount : I128} (hs : Sound env.sequence s)
    (hadmin : s.admin = some admin) (hauth : env.auth admin = true) :
    (mint env dst amount).run s = (.error (.error .overflow), s) ↔
      maxI128 < (totalSupply s).val + amount.val := by
  have hfits := (totalSupply s).upper
  constructor
  · intro hrun
    cases (mint_refuses dst hs (by simp [hadmin]) _ _ hrun).1 with
    | overflow h => exact h
    | rejected h => exact absurd rfl h
  · intro hlt
    have hnone : (totalSupply s).checkedAdd amount = none := I128.ofInt?_eq_none.mpr (.inr hlt)
    have hnot : ¬ amount.val ≤ 0 := by omega
    rw [mint, run_read_bind, hadmin, run_unwrap_some_bind, requireAuth, run_demand_bind,
      if_pos hauth, run_rejectIf_bind, if_neg hnot, hnone]
    rfl

/-- In every reachable state of an initialized token a call either succeeds, or is refused with an
error code and nothing written, or lacks its authorization. Only a mint and a stake can overflow,
a mint exactly when the supply would, and a stake only past the last ledger. -/
theorem refused_call_changes_nothing {calls : List Invocation}
    (hcalls : machine.Scheduled start env.sequence calls)
    (hadmin : (machine.run Storage.empty calls).admin ≠ none) (c : Call) :
    let s := machine.run Storage.empty calls
    ((∃ s', (invoke env c).run s = (.ok (), s')) ∨
      (∃ e, (invoke env c).run s = (.error (.error e), s) ∧ (e = .overflow → overflows env s c)) ∨
      ∃ a, authorizer s c = some a ∧ env.auth a = false ∧
        (invoke env c).run s = (.error (.trap .auth), s)) ∧
    ∀ dst amount, c = .mint dst amount → (∀ a, authorizer s c = some a → env.auth a = true) →
      ((invoke env c).run s = (.error (.error .overflow), s) ↔
        maxI128 < (totalSupply s).val + amount.val) := by
  intro s
  have hs : Sound env.sequence s := (Sound.empty start).run hcalls
  constructor
  · rcases hrun : (invoke env c).run s with ⟨f | ⟨⟩, s'⟩
    · obtain ⟨hexcused, rfl⟩ := invoke_refuses hs hadmin c f s' hrun
      cases hexcused with
      | auth ha hmissing => exact .inr (.inr ⟨_, ha, hmissing, rfl⟩)
      | overflow h => exact .inr (.inl ⟨.overflow, rfl, fun _ => h⟩)
      | rejected h => exact .inr (.inl ⟨_, rfl, fun he => absurd he h⟩)
    · exact .inl ⟨s', rfl⟩
  · rintro dst amount rfl hauth
    obtain ⟨admin, hsome⟩ := Option.ne_none_iff_exists'.mp hadmin
    exact mint_overflow_iff hs hsome (hauth admin hsome)

/-- The whole range of amounts is minted by the constructor. -/
def fullSupplyCalls : List Invocation :=
  [⟨.authorized 5, .initializeToken (.account 1) [] [] 7 I128.top⟩]

/-- With the whole range of amounts minted, one more is refused as an overflow and writes
nothing. -/
theorem refused_call_changes_nothing_fullSupply :
    (invoke (.authorized 6) (.mint (.account 2) (.ofNat 1))).run
        (machine.run Storage.empty fullSupplyCalls) =
      (.error (.error .overflow), machine.run Storage.empty fullSupplyCalls) := by
  have hcalls : machine.Scheduled 0 (Env.authorized 6).sequence fullSupplyCalls := by decide
  have hmint := (refused_call_changes_nothing hcalls (by decide)
    (.mint (.account 2) (.ofNat 1))).2 _ _ rfl fun _ _ => rfl
  exact hmint.mpr (by decide)

end Quorum.Token

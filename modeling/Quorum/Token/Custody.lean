import Quorum.Token.Allowances
import Quorum.Token.Staking

/-!
# What an account keeps that gives nothing away

Nobody but an account itself can debit its balance, unless it has granted an allowance. An
account that has neither locked anything nor granted anything therefore keeps its balance over
all calls in which it does not itself spend, and can spend the whole of it at any time.
-/

namespace Quorum.Token

open Foundation Contract

variable {s s' : Storage} {env : Env} {now start : ℕ} {holder : Address}

/-! ## Allowances -/

/-- The allowances that an account has granted. -/
def granted (holder : Address) (s : Storage) : Address → Option AllowanceValue :=
  s.allowanceEntry holder

/-- The account whose allowances a call writes. -/
def Call.grantor : Call → Option Address
  | .approve owner _ _ _ => some owner
  | .transferFrom _ src _ _ => some src
  | .burnFrom _ src _ => some src
  | _ => none

/-- A call leaves the allowances of all other accounts alone. -/
theorem invoke_granted {c : Call} {u : Unit} (h : (invoke env c).Returns s u s')
    (hc : c.grantor ≠ some holder) : granted holder s' = granted holder s := by
  funext spender
  refine (invoke_outcome h).allowanceEntry_eq fun hpair => hc ?_
  cases c with
  | approve | transferFrom | burnFrom => exact congrArg (Option.map Prod.fst) hpair
  | _ => contradiction

/-! ## Balances -/

/-- What a call takes from the balance of an account. -/
def takenFrom (holder : Address) : Call → ℤ
  | .transfer src _ amount => if holder = src then amount.val else 0
  | .transferFrom _ src _ amount => if holder = src then amount.val else 0
  | .burn src amount => if holder = src then amount.val else 0
  | .burnFrom _ src amount => if holder = src then amount.val else 0
  | _ => 0

/-- A movement takes its amount from the sender at most, and nothing from others. -/
theorem Moves.loss {src dst : Address} {amount : I128} (h : Moves now src dst amount s s')
    (hpos : 0 < amount.val) (a : Address) :
    weight s a - (if a = src then amount.val else 0) ≤ weight s' a := by
  have hs : ∀ b, weight s b - (if b = src then amount.val else 0) ≤ weight s b := by
    intro b
    split <;> omega
  exact h.bounded hpos hs (by rw [if_pos rfl]) a

/-- The receiver of a movement gains its amount, unless it is the sender. -/
theorem Moves.gain {src dst : Address} {amount : I128} (h : Moves now src dst amount s s')
    (hne : dst ≠ src) : weight s' dst = weight s dst + amount.val := by
  obtain ⟨rest, newBalance, s₁, s₂, -, -, hdebit, hnew, hcredit, hagrees⟩ := h
  rw [hagrees.weight_eq, hcredit.weight_eq, Function.update_self, hnew]
  change weight s₁ dst + amount.val = weight s dst + amount.val
  rw [hdebit.weight_eq, Function.update_of_ne hne]

/-- A burn takes its amount from the holder at most, and nothing from others. -/
theorem Burns.loss {src : Address} {amount : I128} (h : Burns now src amount s s')
    (hpos : 0 < amount.val) (a : Address) :
    weight s a - (if a = src then amount.val else 0) ≤ weight s' a := by
  have hs : ∀ b, weight s b - (if b = src then amount.val else 0) ≤ weight s b := by
    intro b
    split <;> omega
  exact h.bounded hs (by rw [if_pos rfl]) a

/-- A call takes from an account at most what it names. -/
theorem invoke_loss {c : Call} {u : Unit} (hs : Solvent s) (h : (invoke env c).Returns s u s')
    (a : Address) : weight s a - takenFrom a c ≤ weight s' a := by
  cases c with
  | initializeToken admin name symbol decimals initialSupply =>
    obtain ⟨hpos, hissues⟩ := initializeToken_issues hs h
    simpa [takenFrom] using hissues.weight_le hpos a
  | transfer src dst amount =>
    obtain ⟨-, hpos, hmoves⟩ := transfer_returns h
    exact hmoves.loss hpos a
  | transferFrom spender src dst amount =>
    obtain ⟨-, hpos, -, hmoves⟩ := transferFrom_returns h
    exact hmoves.loss hpos a
  | burnFrom spender src amount =>
    obtain ⟨-, hpos, -, hburns⟩ := burnFrom_returns h
    exact hburns.loss hpos a
  | mint dst amount =>
    obtain ⟨-, hpos, hissues⟩ := mint_returns h
    simpa [takenFrom] using hissues.weight_le hpos.le a
  | burn src amount =>
    obtain ⟨-, hpos, hburns⟩ := burn_returns h
    exact hburns.loss hpos a
  | delegate delegator delegatee =>
    obtain ⟨-, ⟨-, rfl⟩ | hr⟩ := delegate_returns h
    · simp [takenFrom]
    · simp [takenFrom, (hs.redelegates hr).2.2]
  | stake owner amount duration =>
    obtain ⟨-, -, -, -, -, -, -, hagrees⟩ := stake_returns h
    rw [hagrees.weight_eq]
    exact (sub_zero _).le
  | unstake owner =>
    obtain ⟨-, lock, -, -, hagrees⟩ := unstake_returns h
    rw [hagrees.weight_eq]
    exact (sub_zero _).le
  | approve owner spender amount expirationLedger =>
    rw [(approve_returns h).weight_eq]
    exact (sub_zero _).le
  | transferAdmin newAdmin =>
    rw [(transferAdmin_returns h).weight_eq]
    exact (sub_zero _).le
  | acceptAdmin =>
    rw [(acceptAdmin_returns h).weight_eq]
    exact (sub_zero _).le
  | cancelAdminTransfer =>
    rw [(cancelAdminTransfer_returns h).weight_eq]
    exact (sub_zero _).le

/-! ## Accounts that give nothing away -/

/-- The account has nothing locked and has granted nothing. -/
structure Untouched (holder : Address) (s : Storage) : Prop where
  unlocked : currentLock (locks s holder) = none
  ungranted : ∀ spender, granted holder s spender = none

/-- The call locks tokens of the account or grants an allowance on them. -/
def Call.commits (holder : Address) : Call → Bool
  | .approve owner _ _ _ => decide (owner = holder)
  | .stake owner _ _ => decide (owner = holder)
  | _ => false

/-- The call moves, burns, stakes or approves tokens of the account in its own name. -/
def Call.spends (holder : Address) : Call → Bool
  | .transfer src _ _ => decide (src = holder)
  | .burn src _ => decide (src = holder)
  | c => c.commits holder

namespace Untouched

/-- In the empty token every account is untouched. -/
theorem empty (holder : Address) : Untouched holder Storage.empty := ⟨rfl, fun _ => rfl⟩

/-- Without an allowance nothing can be drawn from the account. -/
theorem liveAllowance_eq (h : Untouched holder s) (spender : Address) :
    (liveAllowance s env holder spender).amount = 0 := by
  have hnone : s.allowanceEntry holder spender = none := h.ungranted spender
  rw [liveAllowance, hnone]

/-- No accepted call draws on the account's behalf. -/
theorem grantor_ne {c : Call} {u : Unit} (h : Untouched holder s)
    (hret : (Token.invoke env c).Returns s u s') (hc : c.commits holder = false) :
    c.grantor ≠ some holder := by
  intro hgrantor
  cases c with
  | approve owner spender amount expirationLedger =>
    obtain rfl := Option.some.inj hgrantor
    simp [Call.commits] at hc
  | transferFrom spender src dst amount =>
    obtain rfl := Option.some.inj hgrantor
    obtain ⟨-, hpos, hallowed, -⟩ := transferFrom_returns hret
    rw [h.liveAllowance_eq spender, I128.zero_val] at hallowed
    omega
  | burnFrom spender src amount =>
    obtain rfl := Option.some.inj hgrantor
    obtain ⟨-, hpos, hallowed, -⟩ := burnFrom_returns hret
    rw [h.liveAllowance_eq spender, I128.zero_val] at hallowed
    omega
  | _ => contradiction

/-- A lock of the account is taken only by a stake in its name. -/
theorem invoke {c : Call} {u : Unit} (h : Untouched holder s) (hs : Solvent s)
    (hret : (Token.invoke env c).Returns s u s') (hc : c.commits holder = false) :
    Untouched holder s' where
  unlocked := by
    apply (invoke_stakeChange hs hret).currentLock_eq_none h.unlocked
    rintro amount duration rfl
    simp [Call.commits] at hc
  ungranted := by
    rw [invoke_granted hret (h.grantor_ne hret hc)]
    exact h.ungranted

/-- A call that spends nothing of an account commits nothing of it. -/
theorem commits_of_spends {c : Call} (hc : c.spends holder = false) : c.commits holder = false := by
  cases c with
  | transfer src dst amount => rfl
  | burn src amount => rfl
  | _ => exact hc

/-- A call that spends nothing in the account's own name takes nothing from it. -/
theorem takenFrom_eq {c : Call} {u : Unit} (h : Untouched holder s)
    (hret : (Token.invoke env c).Returns s u s') (hc : c.spends holder = false) :
    takenFrom holder c = 0 := by
  have hgrantor := h.grantor_ne hret (commits_of_spends hc)
  cases c with
  | transfer src dst amount =>
    have hne : holder ≠ src := by simpa [Call.spends, eq_comm] using hc
    exact if_neg hne
  | burn src amount =>
    have hne : holder ≠ src := by simpa [Call.spends, eq_comm] using hc
    exact if_neg hne
  | transferFrom spender src dst amount =>
    exact if_neg fun heq => hgrantor (congrArg some heq.symm)
  | burnFrom spender src amount =>
    exact if_neg fun heq => hgrantor (congrArg some heq.symm)
  | _ => rfl

/-- An account that is left untouched, by itself as well, loses nothing. -/
theorem step {i : Invocation} (h : Untouched holder s) (hs : Solvent s)
    (hc : i.call.spends holder = true → accepted i s = false) :
    Untouched holder (machine.step i s) ∧ weight s holder ≤ weight (machine.step i s) holder := by
  obtain ⟨hacc, u, hret⟩ | ⟨-, hsame⟩ := accepted_cases i s
  · have hspends : i.call.spends holder = false := by
      by_contra hspends
      rw [hc (Bool.not_eq_false _ ▸ hspends)] at hacc
      contradiction
    have hloss := invoke_loss hs hret holder
    rw [h.takenFrom_eq hret hspends, sub_zero] at hloss
    exact ⟨h.invoke hs hret (commits_of_spends hspends), hloss⟩
  · rw [hsame]
    exact ⟨h, le_rfl⟩

/-- An untouched account has nothing locked. -/
theorem lockedAmount_eq (h : Untouched holder s) : lockedAmount s holder = 0 := by
  rw [lockedAmount, h.unlocked]
  rfl

/-- All that the account holds can be spent. -/
theorem covered {amount : I128} (h : Untouched holder s) (hcovered : amount.val ≤ weight s holder) :
    amount.val ≤ (balance s holder).val - (lockedAmount s holder).val := by
  rw [h.lockedAmount_eq, I128.zero_val, sub_zero]
  exact hcovered

end Untouched

end Quorum.Token

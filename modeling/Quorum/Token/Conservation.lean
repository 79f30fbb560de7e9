import Quorum.Token.Coherence

/-!
# Conservation of balances, supply and votes

In a solvent token no balance is negative and the balances add up to the supply. Solvency needs
no assumption about the order of the ledgers: each call moves, issues or burns an amount that it
reads and writes in one go.

Together with coherence it bounds every amount the token computes with, and it makes the vote
weights of all accounts add up to the supply.
-/

namespace Quorum.Token

open Foundation Contract

variable {s s' : Storage} {env : Env} {now : ℕ}

/-- No balance is negative, and the balances add up to the supply. -/
structure Solvent (s : Storage) : Prop where
  nonneg : ∀ a, 0 ≤ weight s a
  total : ∑ a, weight s a = (totalSupply s).val
  uninitialized : s.admin = none → (totalSupply s).val = 0

/-- Every unit of the supply is delegated to exactly one account. -/
theorem Solvent.sum_liveVotes (h : Solvent s) : ∑ d, liveVotes s d = (totalSupply s).val := by
  rw [← h.total]
  exact sum_delegated (getDelegates s) (weight s)

/-- Nobody represents more than the supply. -/
theorem Solvent.liveVotes_le (h : Solvent s) (d : Address) :
    liveVotes s d ≤ (totalSupply s).val := by
  rw [← h.total]
  exact delegated_le_sum h.nonneg d

/-- What a successful call of the constructor puts into circulation. -/
def initialAmount : Call → ℤ
  | .initializeToken _ _ _ _ initialSupply => initialSupply.val
  | _ => 0

/-- What a successful call mints. -/
def mintedAmount : Call → ℤ
  | .mint _ amount => amount.val
  | _ => 0

/-- What a successful call burns. -/
def burnedAmount : Call → ℤ
  | .burn _ amount => amount.val
  | .burnFrom _ _ amount => amount.val
  | _ => 0

/-- The invocation succeeds in the storage. -/
def accepted (i : Invocation) (s : Storage) : Bool :=
  match (invoke i.env i.call).run s with
  | (.ok _, _) => true
  | (.error _, _) => false

/-- The sum of an amount over the successful calls of a run. -/
def acceptedTotal (amount : Call → ℤ) (s : Storage) : List Invocation → ℤ
  | [] => 0
  | i :: rest =>
    (if accepted i s then amount i.call else 0) + acceptedTotal amount (machine.step i s) rest

/-! ## Writes and the sum of the balances -/

/-- A locked amount is never negative, since a lock without a positive amount is no lock. -/
theorem lockedAmount_nonneg (s : Storage) (owner : Address) : 0 ≤ (lockedAmount s owner).val := by
  unfold lockedAmount
  cases h : currentLock (locks s owner) with
  | none => simp
  | some lock =>
    unfold currentLock at h
    split at h
    · contradiction
    · have hpos := (Option.filter_eq_some_iff.mp h).2
      simp only [decide_eq_true_eq] at hpos
      simpa using hpos.le

namespace SetsBalance

variable {owner : Address} {newBalance : I128}

/-- Setting a balance sets the weight of its owner alone. -/
theorem weight_eq (h : SetsBalance now owner newBalance s s') :
    weight s' = Function.update (weight s) owner newBalance.val := by
  obtain ⟨-, votes, -, rfl⟩ := h
  exact weight_putBalance

/-- Setting a balance leaves the supply. -/
theorem totalSupply_eq (h : SetsBalance now owner newBalance s s') :
    totalSupply s' = totalSupply s := by
  obtain ⟨-, votes, -, rfl⟩ := h
  rfl

/-- Setting a balance leaves the admin. -/
theorem admin_eq (h : SetsBalance now owner newBalance s s') : s'.admin = s.admin := by
  obtain ⟨-, votes, -, rfl⟩ := h
  rfl

/-- Setting a balance changes the sum by what its owner gains or loses. -/
theorem sum_weight (h : SetsBalance now owner newBalance s s') :
    ∑ a, weight s' a = ∑ a, weight s a - weight s owner + newBalance.val := by
  rw [h.weight_eq, sum_change (f := weight s) owner fun x hx => Function.update_of_ne hx _ _,
    Function.update_self]

/-- Setting a balance that is not negative leaves none negative. -/
theorem nonneg (h : SetsBalance now owner newBalance s s') (hs : ∀ a, 0 ≤ weight s a)
    (hnew : 0 ≤ newBalance.val) (a : Address) : 0 ≤ weight s' a := by
  rw [h.weight_eq]
  by_cases ha : a = owner
  · subst ha
    simpa using hnew
  · simpa [Function.update_of_ne ha] using hs a

end SetsBalance

/-- A storage that agrees with a solvent one is solvent. -/
theorem Solvent.agrees (h : Solvent s) (ha : Agrees s s') : Solvent s' where
  nonneg := by simpa [ha.weight_eq] using h.nonneg
  total := by simpa [ha.weight_eq, ha.totalSupply_eq] using h.total
  uninitialized hn := by simpa [ha.totalSupply_eq] using h.uninitialized (ha.admin hn)

/-- The empty token is solvent. -/
theorem Solvent.empty : Solvent Storage.empty := by
  have hweight : weight Storage.empty = fun _ => 0 := rfl
  refine ⟨fun a => ?_, ?_, fun _ => rfl⟩
  · rw [hweight]
  · rw [hweight, Finset.sum_const_zero]
    rfl

/-- A movement keeps the sum, whether or not the two parties are the same. -/
theorem Solvent.moves {src dst : Address} {amount : I128} (h : Solvent s)
    (hpos : 0 < amount.val) (hm : Moves now src dst amount s s') :
    Solvent s' ∧ totalSupply s' = totalSupply s := by
  obtain ⟨rest, newBalance, s₁, s₂, hspendable, hrest, hdebit, hnew, hcredit, hagrees⟩ := hm
  have hlocked := lockedAmount_nonneg s src
  have hnonneg₁ := hdebit.nonneg h.nonneg (by omega)
  have hnonneg₂ := hcredit.nonneg hnonneg₁ (by
    have hdst := hnonneg₁ dst
    unfold weight at hdst
    omega)
  have hsupply : totalSupply s₂ = totalSupply s := by
    rw [hcredit.totalSupply_eq, hdebit.totalSupply_eq]
  have hsum : ∑ a, weight s₂ a = ∑ a, weight s a := by
    rw [hcredit.sum_weight, hdebit.sum_weight]
    unfold weight
    omega
  have hsolvent : Solvent s₂ :=
    ⟨hnonneg₂, by rw [hsum, hsupply, h.total], fun hn => by
      rw [hsupply]
      exact h.uninitialized (by rw [← hdebit.admin_eq, ← hcredit.admin_eq, hn])⟩
  exact ⟨hsolvent.agrees hagrees, by rw [hagrees.totalSupply_eq, hsupply]⟩

/-- A burn takes the same amount from one balance and from the supply. -/
theorem Solvent.burns {src : Address} {amount : I128} (h : Solvent s) (hpos : 0 < amount.val)
    (hb : Burns now src amount s s') :
    Solvent s' ∧ (totalSupply s').val = (totalSupply s).val - amount.val := by
  obtain ⟨rest, supply, s₁, hspendable, hrest, hsupply, hnonneg, hdebit, hagrees⟩ := hb
  have hlocked := lockedAmount_nonneg s src
  have hsum : ∑ a, weight s₁ a = supply.val := by
    rw [hdebit.sum_weight, h.total]
    unfold weight
    omega
  have hsolvent : Solvent (putSupply now supply s₁) :=
    ⟨hdebit.nonneg h.nonneg (by omega), hsum, fun hn => by
      have hzero := h.uninitialized (by rw [← hdebit.admin_eq]; exact hn)
      change supply.val = 0
      omega⟩
  refine ⟨hsolvent.agrees hagrees, ?_⟩
  rw [hagrees.totalSupply_eq]
  exact hsupply

/-- An issue adds the same amount to the supply and to one balance. -/
theorem Solvent.issues {dst : Address} {amount : ℤ} (h : Solvent s) (hamount : 0 ≤ amount)
    (hi : Issues now dst amount s s') (hadmin : s.admin ≠ none) :
    Solvent s' ∧ (totalSupply s').val = (totalSupply s).val + amount := by
  obtain ⟨supply, newBalance, s₁, s₂, hsupply, hnew, hagrees₁, hcredit, hagrees₂⟩ := hi
  have hweight : weight s₁ = weight s := hagrees₁.weight_eq
  have hsupply₂ : totalSupply s₂ = supply := by
    rw [hcredit.totalSupply_eq, hagrees₁.totalSupply_eq]
    rfl
  have hdst := h.nonneg dst
  have hsolvent : Solvent s₂ := by
    refine ⟨hcredit.nonneg (by rw [hweight]; exact h.nonneg) ?_, ?_, fun hn => ?_⟩
    · unfold weight at hdst
      omega
    · rw [hcredit.sum_weight, hweight, h.total, hsupply₂]
      unfold weight
      omega
    · exact absurd (hagrees₁.admin (by rw [← hcredit.admin_eq, hn])) hadmin
  refine ⟨hsolvent.agrees hagrees₂, ?_⟩
  rw [hagrees₂.totalSupply_eq, hsupply₂, hsupply]

/-- The constructor puts the initial supply into an empty circulation. -/
theorem Solvent.initialized {admin : Address} {name symbol : Text} {decimals : ℕ}
    {initialSupply : I128} {u : Unit} (h : Solvent s)
    (hret : (initializeToken env admin name symbol decimals initialSupply).Returns s u s') :
    Solvent s' ∧ (totalSupply s').val = (totalSupply s).val + initialSupply.val := by
  obtain ⟨hnone, hpos, -, s₁, s₂, hagrees₁, hadmin, hcredit, hagrees₂⟩ :=
    initializeToken_returns hret
  have hzero := h.uninitialized hnone
  have hweight : weight s₁ = weight s := hagrees₁.weight_eq
  have hsupply : totalSupply s₂ = initialSupply := by
    rw [hcredit.totalSupply_eq, hagrees₁.totalSupply_eq]
    rfl
  have hbalance : weight s admin = 0 := by
    have hle := le_sum h.nonneg admin
    have hge := h.nonneg admin
    rw [h.total] at hle
    omega
  have hsolvent : Solvent s₂ := by
    refine ⟨hcredit.nonneg (by rw [hweight]; exact h.nonneg) hpos, ?_, fun hn => ?_⟩
    · rw [hcredit.sum_weight, hweight, h.total, hsupply, hbalance, hzero]
      omega
    · rw [hcredit.admin_eq, hadmin] at hn
      contradiction
  refine ⟨hsolvent.agrees hagrees₂, ?_⟩
  rw [hagrees₂.totalSupply_eq, hsupply, hzero, zero_add]

/-- A change of representative moves no balance. -/
theorem Solvent.redelegates {delegator delegatee : Address} (h : Solvent s)
    (hr : Redelegates now delegator delegatee s s') :
    Solvent s' ∧ totalSupply s' = totalSupply s ∧ weight s' = weight s := by
  obtain ⟨pv, nv, -, -, -, hagrees⟩ := hr
  have hsolvent : Solvent (putDelegate now delegator delegatee pv nv s) :=
    ⟨h.nonneg, h.total, h.uninitialized⟩
  exact ⟨hsolvent.agrees hagrees, hagrees.totalSupply_eq, hagrees.weight_eq⟩

/-- A change of locks moves no balance. -/
theorem Solvent.locked {owner : Address} {lock : Lock} (h : Solvent s)
    (ha : Agrees (putLock now owner lock s) s') :
    Solvent s' ∧ totalSupply s' = totalSupply s := by
  have hsolvent : Solvent (putLock now owner lock s) := ⟨h.nonneg, h.total, h.uninitialized⟩
  exact ⟨hsolvent.agrees ha, ha.totalSupply_eq⟩

/-! ## Calls and runs -/

/-- A successful call keeps the token solvent and changes the supply by what it issues. -/
theorem Solvent.invoke {c : Call} {u : Unit} (h : Solvent s)
    (hret : (invoke env c).Returns s u s') :
    Solvent s' ∧ (totalSupply s').val =
      (totalSupply s).val + initialAmount c + mintedAmount c - burnedAmount c := by
  cases c with
  | initializeToken admin name symbol decimals initialSupply =>
    obtain ⟨hsolvent, hsupply⟩ := h.initialized hret
    exact ⟨hsolvent, by simp only [initialAmount, mintedAmount, burnedAmount]; omega⟩
  | transfer src dst amount =>
    obtain ⟨-, hpos, hmoves⟩ := transfer_returns hret
    obtain ⟨hsolvent, hsupply⟩ := h.moves hpos hmoves
    exact ⟨hsolvent, by simp [hsupply, initialAmount, mintedAmount, burnedAmount]⟩
  | transferFrom spender src dst amount =>
    obtain ⟨-, hpos, -, hmoves⟩ := transferFrom_returns hret
    obtain ⟨hsolvent, hsupply⟩ := h.moves hpos hmoves
    exact ⟨hsolvent, by simp [hsupply, initialAmount, mintedAmount, burnedAmount]⟩
  | burnFrom spender src amount =>
    obtain ⟨-, hpos, -, hburns⟩ := burnFrom_returns hret
    obtain ⟨hsolvent, hsupply⟩ := h.burns hpos hburns
    exact ⟨hsolvent, by simp only [initialAmount, mintedAmount, burnedAmount]; omega⟩
  | mint dst amount =>
    obtain ⟨⟨admin, hadmin, -⟩, hpos, hissues⟩ := mint_returns hret
    obtain ⟨hsolvent, hsupply⟩ := h.issues hpos.le hissues (by simp [hadmin])
    exact ⟨hsolvent, by simp only [initialAmount, mintedAmount, burnedAmount]; omega⟩
  | burn src amount =>
    obtain ⟨-, hpos, hburns⟩ := burn_returns hret
    obtain ⟨hsolvent, hsupply⟩ := h.burns hpos hburns
    exact ⟨hsolvent, by simp only [initialAmount, mintedAmount, burnedAmount]; omega⟩
  | delegate delegator delegatee =>
    obtain ⟨-, ⟨-, rfl⟩ | hr⟩ := delegate_returns hret
    · exact ⟨h, by simp [initialAmount, mintedAmount, burnedAmount]⟩
    · obtain ⟨hsolvent, hsupply, -⟩ := h.redelegates hr
      exact ⟨hsolvent, by simp [hsupply, initialAmount, mintedAmount, burnedAmount]⟩
  | stake owner amount duration =>
    obtain ⟨-, -, -, -, -, -, -, hagrees⟩ := stake_returns hret
    obtain ⟨hsolvent, hsupply⟩ := h.locked hagrees
    exact ⟨hsolvent, by simp [hsupply, initialAmount, mintedAmount, burnedAmount]⟩
  | unstake owner =>
    obtain ⟨-, lock, -, -, hagrees⟩ := unstake_returns hret
    obtain ⟨hsolvent, hsupply⟩ := h.locked hagrees
    exact ⟨hsolvent, by simp [hsupply, initialAmount, mintedAmount, burnedAmount]⟩
  | approve owner spender amount expirationLedger =>
    have hagrees := approve_returns hret
    exact ⟨h.agrees hagrees, by
      simp [hagrees.totalSupply_eq, initialAmount, mintedAmount, burnedAmount]⟩
  | transferAdmin newAdmin =>
    have hagrees := transferAdmin_returns hret
    exact ⟨h.agrees hagrees, by
      simp [hagrees.totalSupply_eq, initialAmount, mintedAmount, burnedAmount]⟩
  | acceptAdmin =>
    have hagrees := acceptAdmin_returns hret
    exact ⟨h.agrees hagrees, by
      simp [hagrees.totalSupply_eq, initialAmount, mintedAmount, burnedAmount]⟩
  | cancelAdminTransfer =>
    have hagrees := cancelAdminTransfer_returns hret
    exact ⟨h.agrees hagrees, by
      simp [hagrees.totalSupply_eq, initialAmount, mintedAmount, burnedAmount]⟩

/-- An accepted invocation returns and is committed; any other leaves the storage alone. -/
theorem accepted_cases (i : Invocation) (s : Storage) :
    (accepted i s = true ∧ ∃ u, (invoke i.env i.call).Returns s u (machine.step i s)) ∨
      (accepted i s = false ∧ machine.step i s = s) := by
  unfold accepted
  change (_ ∧ ∃ u, (invoke i.env i.call).Returns s u ((invoke i.env i.call).commit s)) ∨
    (_ ∧ (invoke i.env i.call).commit s = s)
  rcases h : (invoke i.env i.call).run s with ⟨e | u, s'⟩
  · exact .inr ⟨rfl, by rw [Contract.commit, h]⟩
  · exact .inl ⟨rfl, u, by rw [Contract.commit, h]; exact h⟩

/-- Every run keeps the token solvent, and moves the supply by the accepted mints and burns. -/
theorem Solvent.run (calls : List Invocation) (h : Solvent s) :
    Solvent (machine.run s calls) ∧ (totalSupply (machine.run s calls)).val =
      (totalSupply s).val + acceptedTotal initialAmount s calls + acceptedTotal mintedAmount s calls -
        acceptedTotal burnedAmount s calls := by
  induction calls generalizing s with
  | nil => exact ⟨h, by simp [acceptedTotal]⟩
  | cons i rest ih =>
    simp only [Clocked.run_cons, acceptedTotal]
    obtain ⟨hacc, u, hret⟩ | ⟨hacc, hsame⟩ := accepted_cases i s
    · obtain ⟨hsolvent, hsupply⟩ := h.invoke hret
      obtain ⟨hrun, htotal⟩ := ih hsolvent
      refine ⟨hrun, ?_⟩
      simp only [hacc, if_true]
      omega
    · rw [hsame]
      obtain ⟨hrun, htotal⟩ := ih h
      refine ⟨hrun, ?_⟩
      simp only [hacc, Bool.false_eq_true, if_false]
      omega

/-! ## The constructor runs once -/

/-- No write removes an admin. -/
theorem Write.admin (h : Write now s s') (hn : s'.admin = none) : s.admin = none := by
  cases h with
  | balance owner newBalance hset => rw [← hset.admin_eq, hn]
  | supply supply => exact hn
  | delegation delegator delegatee hset =>
    obtain ⟨pv, nv, -, -, -, hagrees⟩ := hset
    exact hagrees.admin hn
  | lock owner lock hledger hunlock hamount => exact hn
  | inert hagrees => exact hagrees.admin hn

/-- No row of writes removes an admin. -/
theorem Writes.admin (h : Writes now s s') (hn : s'.admin = none) : s.admin = none := by
  induction h with
  | refl => exact hn
  | tail _ hstep ih => exact ih (hstep.admin hn)

/-- The admin is never removed. -/
theorem run_admin (calls : List Invocation) (h : (machine.run s calls).admin = none) :
    s.admin = none := by
  induction calls generalizing s with
  | nil => exact h
  | cons i rest ih => exact (machine_writes i s).admin (ih h)

/-- An initialized token rejects every further call of the constructor. -/
theorem acceptedTotal_initialAmount_of_admin (calls : List Invocation) (h : s.admin ≠ none) :
    acceptedTotal initialAmount s calls = 0 := by
  induction calls generalizing s with
  | nil => rfl
  | cons i rest ih =>
    rw [acceptedTotal, ih fun hn => h ((machine_writes i s).admin hn), add_zero]
    obtain ⟨hacc, u, hret⟩ | ⟨hacc, -⟩ := accepted_cases i s
    · rw [hacc, if_pos rfl]
      cases hcall : i.call with
      | initializeToken admin name symbol decimals initialSupply =>
        rw [hcall] at hret
        exact absurd (initializeToken_returns hret).1 h
      | _ => rfl
    · rw [hacc, if_neg Bool.false_ne_true]

/-- As long as no admin is set, the constructor has not succeeded. -/
theorem acceptedTotal_initialAmount_of_none (calls : List Invocation)
    (h : (machine.run s calls).admin = none) : acceptedTotal initialAmount s calls = 0 := by
  induction calls generalizing s with
  | nil => rfl
  | cons i rest ih =>
    rw [acceptedTotal, ih h, add_zero]
    have hnone : (machine.step i s).admin = none := run_admin rest h
    obtain ⟨hacc, u, hret⟩ | ⟨hacc, -⟩ := accepted_cases i s
    · rw [hacc, if_pos rfl]
      cases hcall : i.call with
      | initializeToken admin name symbol decimals initialSupply =>
        rw [hcall] at hret
        obtain ⟨-, -, -, s₁, s₂, -, hadmin, hcredit, hagrees⟩ := initializeToken_returns hret
        have habsurd := hagrees.admin hnone
        rw [hcredit.admin_eq, hadmin] at habsurd
        contradiction
      | _ => rfl
    · rw [hacc, if_neg Bool.false_ne_true]

/-- The accepted amounts of two runs in a row add up. -/
theorem acceptedTotal_append (amount : Call → ℤ) (first later : List Invocation) :
    acceptedTotal amount s (first ++ later) =
      acceptedTotal amount s first + acceptedTotal amount (machine.run s first) later := by
  induction first generalizing s with
  | nil => simp [acceptedTotal]
  | cons i rest ih => simp only [List.cons_append, acceptedTotal, ih, Clocked.run_cons, add_assoc]

/-- Once the constructor has succeeded, the balances are not negative and add up to the supply,
and the supply is what was created, plus what was minted, minus what was burned. -/
theorem supply_conserved {admin : Address} {name symbol : Text} {decimals : ℕ}
    {initialSupply : I128} {before after : List Invocation} {i : Invocation}
    (hcall : i.call = .initializeToken admin name symbol decimals initialSupply)
    (hacc : accepted i (machine.run Storage.empty before) = true) :
    (∀ a, 0 ≤ (balance (machine.run Storage.empty (before ++ i :: after)) a).val) ∧
      ∑ a, (balance (machine.run Storage.empty (before ++ i :: after)) a).val =
        (totalSupply (machine.run Storage.empty (before ++ i :: after))).val ∧
      (totalSupply (machine.run Storage.empty (before ++ i :: after))).val =
        initialSupply.val +
          acceptedTotal mintedAmount Storage.empty (before ++ i :: after) -
          acceptedTotal burnedAmount Storage.empty (before ++ i :: after) := by
  obtain ⟨hsolvent, hsupply⟩ := Solvent.empty.run (before ++ i :: after)
  refine ⟨hsolvent.nonneg, hsolvent.total, ?_⟩
  obtain ⟨-, u, hret⟩ | ⟨hrefused, -⟩ := accepted_cases i (machine.run Storage.empty before)
  · rw [hcall] at hret
    obtain ⟨hnone, -, -, s₁, s₂, -, hadmin, hcredit, hagrees⟩ := initializeToken_returns hret
    have hsome : (machine.step i (machine.run Storage.empty before)).admin ≠ none := by
      intro hn
      have habsurd := hagrees.admin hn
      rw [hcredit.admin_eq, hadmin] at habsurd
      contradiction
    have hinitial : acceptedTotal initialAmount Storage.empty (before ++ i :: after) =
        initialSupply.val := by
      rw [acceptedTotal_append, acceptedTotal_initialAmount_of_none before hnone, acceptedTotal,
        acceptedTotal_initialAmount_of_admin after hsome, hacc, if_pos rfl, hcall]
      simp [initialAmount]
    have hempty : (totalSupply Storage.empty).val = 0 := rfl
    omega
  · rw [hacc] at hrefused
    contradiction

/-- A transfer to oneself and a burn leave the balances adding up to the supply. -/
theorem supply_conserved_selfTransfer :
    let i : Invocation := ⟨.authorized 5, .initializeToken (.account 1) [] [] 7 (.ofNat 100)⟩
    let after : List Invocation :=
      [⟨.authorized 5, .transfer (.account 1) (.account 1) (.ofNat 60)⟩,
        ⟨.authorized 6, .burn (.account 1) (.ofNat 30)⟩]
    ∑ a, (balance (machine.run Storage.empty ([] ++ i :: after)) a).val =
      (totalSupply (machine.run Storage.empty ([] ++ i :: after))).val :=
  (supply_conserved rfl (by decide)).2.1

end Quorum.Token

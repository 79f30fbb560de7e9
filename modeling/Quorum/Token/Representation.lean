import Quorum.Token.Conservation

/-!
# Delegation conserves voting power

In every state that a run reaches, the vote weight of an account is the sum of the balances of
the holders that name it, so every unit of the supply votes through exactly one account. A
delegation moves the delegator's own balance and nothing that was delegated to the delegator.
-/

namespace Quorum.Token

open Foundation Contract

variable {s s' : Storage} {env : Env} {now start : ℕ}

/-- The invariant of a token started empty: coherent histories over solvent balances. -/
structure Sound (now : ℕ) (s : Storage) : Prop where
  coherent : Coherent now s
  solvent : Solvent s

namespace Sound

/-- The empty token is sound. -/
theorem empty (now : ℕ) : Sound now Storage.empty := ⟨.empty now, .empty⟩

/-- A sound token stays sound as ledgers pass. -/
theorem mono {later : ℕ} (h : Sound now s) (hle : now ≤ later) : Sound later s :=
  ⟨h.coherent.mono hle, h.solvent⟩

/-- A successful call keeps the token sound. -/
theorem invoke {c : Call} {u : Unit} (h : Sound env.sequence s)
    (hret : (invoke env c).Returns s u s') : Sound env.sequence s' :=
  ⟨h.coherent.writes (invoke_writes hret), (h.solvent.invoke hret).1⟩

/-- Every run keeps the token sound. -/
theorem run {calls : List Invocation} (h : Sound start s)
    (hcalls : machine.Scheduled start now calls) : Sound now (machine.run s calls) :=
  ⟨h.coherent.run hcalls, (h.solvent.run calls).1⟩

/-- The vote weights of all accounts add up to the supply. -/
theorem sum_currentVotes (h : Sound now s) :
    ∑ d, (currentVotes s d now).val = (totalSupply s).val := by
  simp only [h.coherent.currentVotes_eq]
  exact h.solvent.sum_liveVotes

/-- A balance is part of the vote weight of the representative. -/
theorem balance_le_currentVotes (h : Sound now s) (a : Address) :
    (balance s a).val ≤ (currentVotes s (getDelegates s a) now).val := by
  rw [h.coherent.currentVotes_eq]
  exact le_delegated h.solvent.nonneg a

/-- No balance of a sound token is negative. -/
theorem balance_nonneg (h : Sound now s) (a : Address) : 0 ≤ (balance s a).val :=
  h.solvent.nonneg a

/-- No votes of a sound token are negative. -/
theorem currentVotes_nonneg (h : Sound now s) (d : Address) :
    0 ≤ (currentVotes s d now).val := by
  rw [h.coherent.currentVotes_eq]
  exact delegated_nonneg h.solvent.nonneg d

/-- No balance of a sound token exceeds the supply. -/
theorem balance_le (h : Sound now s) (a : Address) :
    (balance s a).val ≤ (totalSupply s).val := by
  rw [← h.solvent.total]
  exact le_sum h.solvent.nonneg a

/-- Outside the holder's own representative, votes and balance fit into the supply together. -/
theorem currentVotes_add_balance_le (h : Sound now s) {a d : Address}
    (hne : getDelegates s a ≠ d) :
    (currentVotes s d now).val + (balance s a).val ≤ (totalSupply s).val := by
  have hsum : delegated (getDelegates s) (weight s) _ + delegated (getDelegates s) (weight s) _ ≤ _ :=
    add_le_sum (delegated_nonneg h.solvent.nonneg) hne
  have hle : _ ≤ delegated (getDelegates s) (weight s) _ := le_delegated h.solvent.nonneg a
  rw [sum_delegated, h.solvent.total] at hsum
  rw [h.coherent.currentVotes_eq]
  unfold liveVotes
  change weight s a ≤ _ at hle
  change _ + weight s a ≤ _
  linarith

end Sound

/-! ## Delegation -/

/-- A change of the representative is the delegator's alone. -/
theorem Redelegates.getDelegates_eq {delegator delegatee : Address}
    (h : Redelegates now delegator delegatee s s') :
    getDelegates s' = Function.update (getDelegates s) delegator delegatee := by
  obtain ⟨pv, nv, -, -, -, hagrees⟩ := h
  rw [hagrees.getDelegates_eq, getDelegates_putDelegate]

/-- A change of the representative moves no balance. -/
theorem Redelegates.balance_eq {delegator delegatee : Address}
    (h : Redelegates now delegator delegatee s s') : balance s' = balance s := by
  obtain ⟨pv, nv, -, -, -, hagrees⟩ := h
  exact hagrees.balance_eq

/-- A delegation changes one representative and no balance. -/
theorem delegate_effect {delegator delegatee : Address} {u : Unit}
    (h : (delegate env delegator delegatee).Returns s u s') :
    getDelegates s' =
        Function.update (getDelegates s) delegator (resolveDelegatee delegator delegatee) ∧
      balance s' = balance s := by
  obtain ⟨-, ⟨hsame, rfl⟩ | hr⟩ := delegate_returns h
  · exact ⟨by rw [← hsame, Function.update_eq_self], rfl⟩
  · exact ⟨hr.getDelegates_eq, hr.balance_eq⟩

/-- A delegation takes the delegator's balance from the old representative and gives it to the
new one; what others delegated to the delegator stays where it is. -/
theorem delegate_currentVotes {delegator delegatee : Address} {u : Unit}
    (hs : Sound env.sequence s) (h : (delegate env delegator delegatee).Returns s u s')
    (d : Address) :
    (currentVotes s' d env.sequence).val =
      (currentVotes s d env.sequence).val -
        (if getDelegates s delegator = d then (balance s delegator).val else 0) +
        if resolveDelegatee delegator delegatee = d then (balance s delegator).val else 0 := by
  obtain ⟨hrep, hbalance⟩ := delegate_effect h
  have hs' : Sound env.sequence s' := hs.invoke (c := .delegate delegator delegatee) h
  have hweight : weight s' = weight s := by
    funext a
    rw [weight, hbalance, weight]
  rw [hs'.coherent.currentVotes_eq, hs.coherent.currentVotes_eq, liveVotes, hrep, hweight,
    delegated_update_rep]
  rfl

/-- Delegating to oneself, or to the all-zero account, gives back one's own balance. -/
theorem delegate_self {holder delegatee : Address} {u : Unit} (hs : Sound env.sequence s)
    (hself : delegatee = holder ∨ delegatee = Address.zero)
    (h : (delegate env holder delegatee).Returns s u s') :
    getDelegates s' holder = holder ∧
      (currentVotes s' holder env.sequence).val = (currentVotes s holder env.sequence).val +
        if getDelegates s holder = holder then 0 else (balance s holder).val := by
  have hresolve : resolveDelegatee holder delegatee = holder := by
    unfold resolveDelegatee
    rcases hself with rfl | rfl <;> simp
  refine ⟨by rw [(delegate_effect h).1, hresolve, Function.update_self], ?_⟩
  rw [delegate_currentVotes hs h, hresolve, if_pos rfl]
  split <;> omega

/-- Any number of delegations leaves every balance and the supply as they are. -/
theorem run_delegations (calls : List Invocation)
    (hdelegate : ∀ i ∈ calls, ∃ delegator delegatee, i.call = .delegate delegator delegatee) :
    balance (machine.run s calls) = balance s ∧
      totalSupply (machine.run s calls) = totalSupply s := by
  induction calls generalizing s with
  | nil => exact ⟨rfl, rfl⟩
  | cons i rest ih =>
    obtain ⟨delegator, delegatee, hcall⟩ := hdelegate i List.mem_cons_self
    have hrest := ih (s := machine.step i s) fun j hj => hdelegate j (List.mem_cons_of_mem i hj)
    have hstep : balance (machine.step i s) = balance s ∧
        totalSupply (machine.step i s) = totalSupply s := by
      obtain ⟨-, u, hret⟩ | ⟨-, hsame⟩ := accepted_cases i s
      · rw [hcall] at hret
        obtain ⟨-, ⟨-, hsame⟩ | hr⟩ := delegate_returns hret
        · rw [hsame]
          exact ⟨rfl, rfl⟩
        · obtain ⟨pv, nv, -, -, -, hagrees⟩ := hr
          exact ⟨hagrees.balance_eq, hagrees.totalSupply_eq⟩
      · rw [hsame]
        exact ⟨rfl, rfl⟩
    exact ⟨hrest.1.trans hstep.1, hrest.2.trans hstep.2⟩

/-- In every reachable state the vote weight of an account is the sum of the balances of the
holders it represents. The weights add up to the supply, a delegation moves exactly the
delegator's own balance, delegating to oneself or to the all-zero account gives it back, and no
sequence of delegations changes the sum. -/
theorem delegation_conserves {calls : List Invocation}
    (hcalls : machine.Scheduled start now calls) :
    let s := machine.run Storage.empty calls
    (∀ d, (currentVotes s d now).val =
      ∑ h, if getDelegates s h = d then (balance s h).val else 0) ∧
    ∑ d, (currentVotes s d now).val = (totalSupply s).val ∧
    (∀ (env : Env) (delegator delegatee : Address) (s' : Storage), env.sequence = now →
      (delegate env delegator delegatee).Returns s () s' →
        getDelegates s' =
          Function.update (getDelegates s) delegator (resolveDelegatee delegator delegatee) ∧
        balance s' = balance s ∧
        (∀ d, (currentVotes s' d now).val = (currentVotes s d now).val -
          (if getDelegates s delegator = d then (balance s delegator).val else 0) +
          if resolveDelegatee delegator delegatee = d then (balance s delegator).val else 0) ∧
        (delegatee = delegator ∨ delegatee = Address.zero →
          getDelegates s' delegator = delegator ∧
          (currentVotes s' delegator now).val = (currentVotes s delegator now).val +
            if getDelegates s delegator = delegator then 0 else (balance s delegator).val)) ∧
    ∀ (later : ℕ) (delegations : List Invocation), machine.Scheduled now later delegations →
      (∀ i ∈ delegations, ∃ delegator delegatee, i.call = .delegate delegator delegatee) →
        balance (machine.run s delegations) = balance s ∧
        ∑ d, (currentVotes (machine.run s delegations) d later).val =
          ∑ d, (currentVotes s d now).val := by
  intro s
  have hs : Sound now s := (Sound.empty start).run hcalls
  refine ⟨fun d => hs.coherent.currentVotes_eq d, hs.sum_currentVotes, ?_, ?_⟩
  · rintro env delegator delegatee s' rfl hret
    obtain ⟨hrep, hbalance⟩ := delegate_effect hret
    exact ⟨hrep, hbalance, delegate_currentVotes hs hret,
      fun hself => delegate_self hs hself hret⟩
  · intro later delegations hlater hdelegate
    obtain ⟨hbalance, hsupply⟩ := run_delegations (s := s) delegations hdelegate
    exact ⟨hbalance, by rw [(hs.run hlater).sum_currentVotes, hs.sum_currentVotes, hsupply]⟩

/-- Account 1 delegates to account 2, which delegates onward to account 3. -/
def onwardCalls : List Invocation :=
  [⟨.authorized 5, .initializeToken (.account 1) [] [] 7 (.ofNat 100)⟩,
    ⟨.authorized 5, .delegate (.account 1) (.account 2)⟩,
    ⟨.authorized 6, .delegate (.account 2) (.account 3)⟩]

/-- A delegation that is passed on takes only the delegator's own balance along. -/
theorem delegation_conserves_onward :
    (∑ h, if getDelegates (machine.run Storage.empty onwardCalls) h = .account 2 then
        (balance (machine.run Storage.empty onwardCalls) h).val else 0) = 100 ∧
      ∑ d, (currentVotes (machine.run Storage.empty onwardCalls) d 8).val = 100 := by
  have hcalls : machine.Scheduled 0 8 onwardCalls := by decide
  obtain ⟨hvotes, hsum, -⟩ := delegation_conserves hcalls
  have hsecond : (currentVotes (machine.run Storage.empty onwardCalls) (.account 2) 8).val = 100 := by
    decide
  have hsupply : (totalSupply (machine.run Storage.empty onwardCalls)).val = 100 := by decide
  exact ⟨(hvotes (.account 2)).symm.trans hsecond, hsum.trans hsupply⟩

end Quorum.Token

import Quorum.Token.Conservation

/-!
# What an allowance pays for

An allowance is set by `approve` and drawn on by the two spending operations. From one approval of
a pair to the next, what is stored is the amount approved less what has been drawn since, under the
expiry that was approved, and no draw is made after that expiry. What a draw takes from the
allowance it takes from the owner's balance too, unless it hands it back to the owner.
-/

namespace Quorum.Token

open Foundation Contract

variable {s s' : Storage} {env : Env} {owner spender : Address}

/-! ## Which calls write an allowance -/

/-- The allowance that a call writes, by its owner and its spender. -/
def Call.allowancePair : Call → Option (Address × Address)
  | .approve owner spender _ _ => some (owner, spender)
  | .transferFrom spender src _ _ => some (src, spender)
  | .burnFrom spender src _ => some (src, spender)
  | _ => none

/-- What a call draws from the allowance of a spender on an owner if it is accepted: its amount. -/
def drawn (owner spender : Address) : Call → ℤ
  | .transferFrom taker src _ amount => if src = owner ∧ taker = spender then amount.val else 0
  | .burnFrom taker src amount => if src = owner ∧ taker = spender then amount.val else 0
  | _ => 0

/-- The call sets the allowance of a spender on an owner. -/
def Call.approves (owner spender : Address) : Call → Bool
  | .approve o s _ _ => decide (o = owner ∧ s = spender)
  | _ => false

/-- An allowance that is written elsewhere stays as it is. -/
theorem putAllowance_of_ne {o p : Address} {value : AllowanceValue}
    (h : some (o, p) ≠ some (owner, spender)) :
    (putAllowance o p value s).allowanceEntry owner spender = s.allowanceEntry owner spender := by
  by_cases ho : owner = o
  · subst ho
    have hp : spender ≠ p := by
      rintro rfl
      exact h rfl
    simp [putAllowance, Function.update_of_ne hp]
  · simp [putAllowance, Function.update_of_ne ho]

/-- The allowance just stored is found. -/
@[simp] theorem putAllowance_self {value : AllowanceValue} :
    (putAllowance owner spender value s).allowanceEntry owner spender = some value := by
  simp [putAllowance]

/-- Only an approval and the two spending operations write an allowance, each that of its pair. -/
theorem Outcome.allowanceEntry_eq {c : Call} (h : Outcome env s c s')
    (hc : c.allowancePair ≠ some (owner, spender)) :
    s'.allowanceEntry owner spender = s.allowanceEntry owner spender := by
  cases h with
  | initialized _ _ _ _ hcredit => exact congrFun (congrFun hcredit.aside.allowanceEntry _) _
  | transferred _ _ h => exact congrFun (congrFun h.aside.allowanceEntry _) _
  | transferredFrom _ _ _ _ h =>
    rw [putAllowance_of_ne hc]
    exact congrFun (congrFun h.aside.allowanceEntry _) _
  | burned _ _ h => exact congrFun (congrFun h.aside.allowanceEntry _) _
  | burnedFrom _ _ _ _ h =>
    refine Eq.trans (putAllowance_of_ne hc) ?_
    exact congrFun (congrFun h.aside.allowanceEntry _) _
  | minted _ _ _ _ _ hcredit => exact congrFun (congrFun hcredit.aside.allowanceEntry _) _
  | approved => exact putAllowance_of_ne hc
  | _ => rfl

/-- A spend within an allowance draws on one that is live. -/
theorem liveAllowance_of_pos (env : Env) {value : AllowanceValue}
    (hentry : s.allowanceEntry owner spender = some value)
    (hpos : 0 < (liveAllowance s env owner spender).amount.val) :
    env.sequence ≤ value.expirationLedger ∧ liveAllowance s env owner spender = value := by
  unfold liveAllowance at hpos ⊢
  rw [hentry] at hpos ⊢
  simp only at hpos ⊢
  split at hpos <;> rename_i hlive
  · exact ⟨hlive, if_pos hlive⟩
  · exact absurd hpos (lt_irrefl 0)

/-- An accepted spend is authorized by the spender, made while the allowance is live, and leaves
the rest of it under the same expiry. -/
theorem Outcome.draws {c : Call} {value : AllowanceValue} (h : Outcome env s c s')
    (hpair : c.allowancePair = some (owner, spender)) (hdraw : c.approves owner spender = false)
    (hentry : s.allowanceEntry owner spender = some value) :
    env.auth spender = true ∧ env.sequence ≤ value.expirationLedger ∧
      0 < drawn owner spender c ∧ ∃ rest : I128, 0 ≤ rest.val ∧
        rest.val = value.amount.val - drawn owner spender c ∧
        s'.allowanceEntry owner spender = some ⟨rest, value.expirationLedger⟩ := by
  cases h with
  | transferredFrom hauth hpos hrest hallowed h =>
    cases hpair
    obtain ⟨hlive, heq⟩ := liveAllowance_of_pos env hentry (by omega)
    rw [heq] at hrest ⊢
    simp only [drawn, and_self, if_true]
    exact ⟨hauth, hlive, hpos, _, hallowed, hrest, putAllowance_self⟩
  | burnedFrom hauth hpos hrest hallowed h =>
    cases hpair
    obtain ⟨hlive, heq⟩ := liveAllowance_of_pos env hentry (by omega)
    rw [heq] at hrest ⊢
    simp only [drawn, and_self, if_true]
    exact ⟨hauth, hlive, hpos, _, hallowed, hrest, putAllowance_self⟩
  | approved =>
    cases hpair
    simp [Call.approves] at hdraw
  | _ => contradiction

/-- What a transfer leaves of the sender's balance. -/
theorem Shifts.weight_src {now : ℕ} {src dst : Address} {amount : I128}
    (h : Shifts now src dst amount s s') :
    weight s' src = if dst = src then weight s src else weight s src - amount.val := by
  obtain ⟨-, rest, newBalance, s₁, hrest, hdebit, hnew, hcredit⟩ := h
  have hleft : weight s₁ src = weight s src - amount.val := by
    rw [hdebit.weight_eq, Function.update_self, hrest, weight]
  rw [hcredit.weight_eq]
  by_cases hsame : dst = src
  · subst hsame
    have hback : newBalance.val = weight s₁ dst + amount.val := hnew
    rw [if_pos rfl, Function.update_self, hback, hleft, sub_add_cancel]
  · rw [if_neg hsame, Function.update_of_ne (Ne.symm hsame), hleft]

/-- What a burn leaves of the owner's balance. -/
theorem Debits.weight_src {now : ℕ} {src : Address} {amount supply : I128}
    (h : Debits now src amount supply s s') : weight s' src = weight s src - amount.val := by
  obtain ⟨-, -, -, rest, hrest, hdebit⟩ := h
  rw [hdebit.weight_eq, Function.update_self, hrest, weight]

/-- A call for another pair draws nothing from the pair. -/
theorem drawn_eq_zero {c : Call} (hc : c.allowancePair ≠ some (owner, spender)) :
    drawn owner spender c = 0 := by
  cases c with
  | transferFrom taker src dst amount =>
    refine if_neg ?_
    rintro ⟨rfl, rfl⟩
    exact hc rfl
  | burnFrom taker src amount =>
    refine if_neg ?_
    rintro ⟨rfl, rfl⟩
    exact hc rfl
  | _ => rfl

/-- A call that draws from a pair is for the pair. -/
theorem allowancePair_of_drawn {c : Call} (h : 0 < drawn owner spender c) :
    c.allowancePair = some (owner, spender) := by
  by_contra hne
  rw [drawn_eq_zero hne] at h
  exact lt_irrefl 0 h

/-- An accepted draw takes its amount from the owner's balance, unless the owner is the recipient
too. -/
theorem Outcome.draws_balance {c : Call} (h : Outcome env s c s')
    (hpos : 0 < drawn owner spender c) :
    weight s' owner = weight s owner - drawn owner spender c ∨
      ∃ amount, c = .transferFrom spender owner owner amount ∧ weight s' owner = weight s owner := by
  have hpair := allowancePair_of_drawn hpos
  cases h with
  | @transferredFrom taker src dst amount _ _ _ _ _ _ hshifts =>
    cases hpair
    have hleft := hshifts.weight_src
    by_cases hsame : dst = owner
    · subst hsame
      rw [if_pos rfl] at hleft
      exact .inr ⟨amount, rfl, hleft⟩
    · rw [if_neg hsame] at hleft
      refine .inl ?_
      rw [drawn, if_pos ⟨rfl, rfl⟩]
      exact hleft
  | @burnedFrom taker src amount _ _ _ _ _ _ _ hdebits =>
    cases hpair
    refine .inl ?_
    rw [drawn, if_pos ⟨rfl, rfl⟩]
    exact hdebits.weight_src
  | _ => exact absurd hpos (lt_irrefl 0)

/-! ## Between two approvals -/

/-- No approval of the pair is accepted along the run. -/
def Unrenewed (owner spender : Address) (s : Storage) (calls : List Invocation) : Prop :=
  ∀ first i later, calls = first ++ i :: later → i.call.approves owner spender = true →
    accepted i (machine.run s first) = false

/-- A run without renewals starts with a call that does not renew and goes on so. -/
theorem Unrenewed.cons {i : Invocation} {rest : List Invocation}
    (h : Unrenewed owner spender s (i :: rest)) :
    (i.call.approves owner spender = true → accepted i s = false) ∧
      Unrenewed owner spender (machine.step i s) rest := by
  refine ⟨h [] i rest rfl, fun first j later heq => ?_⟩
  exact h (i :: first) j later (by rw [heq, List.cons_append])

/-- One step takes from an allowance what it draws, and draws before the expiry only. -/
theorem step_allowance {i : Invocation} {value : AllowanceValue}
    (hentry : s.allowanceEntry owner spender = some value) (hnonneg : 0 ≤ value.amount.val)
    (hrenewed : i.call.approves owner spender = true → accepted i s = false) :
    (accepted i s = true → 0 < drawn owner spender i.call →
      i.env.sequence ≤ value.expirationLedger) ∧
    ∃ rest : I128, 0 ≤ rest.val ∧
      rest.val = value.amount.val - (if accepted i s then drawn owner spender i.call else 0) ∧
      (machine.step i s).allowanceEntry owner spender = some ⟨rest, value.expirationLedger⟩ := by
  obtain ⟨hacc, u, hret⟩ | ⟨hacc, hsame⟩ := accepted_cases i s
  · have hdraw : i.call.approves owner spender = false := by
      by_contra happroves
      rw [hrenewed (Bool.not_eq_false _ ▸ happroves)] at hacc
      contradiction
    rw [if_pos hacc]
    by_cases hpair : i.call.allowancePair = some (owner, spender)
    · obtain ⟨-, hlive, -, hrest⟩ := (invoke_outcome hret).draws hpair hdraw hentry
      exact ⟨fun _ _ => hlive, hrest⟩
    · rw [drawn_eq_zero hpair]
      refine ⟨fun _ hpos => absurd hpos (lt_irrefl 0), value.amount, hnonneg, (sub_zero _).symm, ?_⟩
      rw [(invoke_outcome hret).allowanceEntry_eq hpair, hentry]
  · rw [hsame, hacc]
    exact ⟨fun h => by contradiction, value.amount, hnonneg, (sub_zero _).symm, hentry⟩

/-- Over a run without a new approval the allowance pays for what is drawn. -/
theorem run_allowance {calls : List Invocation} {value : AllowanceValue}
    (hentry : s.allowanceEntry owner spender = some value) (hnonneg : 0 ≤ value.amount.val)
    (hcalls : Unrenewed owner spender s calls) :
    ∃ rest : I128, 0 ≤ rest.val ∧
      rest.val = value.amount.val - acceptedTotal (drawn owner spender) s calls ∧
      (machine.run s calls).allowanceEntry owner spender = some ⟨rest, value.expirationLedger⟩ := by
  induction calls generalizing s value with
  | nil => exact ⟨value.amount, hnonneg, (sub_zero _).symm, hentry⟩
  | cons i rest ih =>
    obtain ⟨hfirst, hlater⟩ := hcalls.cons
    obtain ⟨-, left, hleft, hval, hstored⟩ := step_allowance hentry hnonneg hfirst
    obtain ⟨last, hlast, hvalLast, hstoredLast⟩ := ih hstored hleft hlater
    refine ⟨last, hlast, ?_, hstoredLast⟩
    rw [hvalLast, hval, acceptedTotal, sub_sub]

/-- The beginning of a run without renewals is one. -/
theorem Unrenewed.of_append {first later : List Invocation}
    (h : Unrenewed owner spender s (first ++ later)) : Unrenewed owner spender s first := by
  intro earlier i rest heq
  exact h earlier i (rest ++ later) (by rw [heq, List.append_assoc, List.cons_append])

/-- A run without approvals of the pair does not renew it. -/
theorem Unrenewed.of_forall {calls : List Invocation}
    (h : ∀ i ∈ calls, i.call.approves owner spender = false) :
    Unrenewed owner spender s calls := by
  rintro first i later rfl happroves
  rw [h i (by simp)] at happroves
  contradiction

/-- An accepted approval is authorized by the owner. -/
theorem Outcome.approves_auth {c : Call} (h : Outcome env s c s')
    (hc : c.approves owner spender = true) : env.auth owner = true := by
  cases h with
  | approved hauth =>
    obtain ⟨rfl, -⟩ := of_decide_eq_true hc
    exact hauth
  | _ => contradiction

/-- Every change of an allowance is authorized, by the owner for a new one and by the spender for
a draw. -/
theorem step_allowance_authorized {i : Invocation} {value : AllowanceValue}
    (hentry : s.allowanceEntry owner spender = some value)
    (hchange : (machine.step i s).allowanceEntry owner spender ≠ s.allowanceEntry owner spender) :
    (i.call.approves owner spender = true ∧ i.env.auth owner = true) ∨
      (0 < drawn owner spender i.call ∧ i.env.auth spender = true) := by
  obtain ⟨-, u, hret⟩ | ⟨-, hsame⟩ := accepted_cases i s
  · have hpair : i.call.allowancePair = some (owner, spender) := by
      by_contra hpair
      exact hchange ((invoke_outcome hret).allowanceEntry_eq hpair)
    cases happroves : i.call.approves owner spender with
    | false =>
      obtain ⟨hauth, -, hpos, -⟩ := (invoke_outcome hret).draws hpair happroves hentry
      exact .inr ⟨hpos, hauth⟩
    | true => exact .inl ⟨rfl, (invoke_outcome hret).approves_auth happroves⟩
  · rw [hsame] at hchange
    contradiction

/-- From a successful approval to the next one of the same pair, at most the approved amount is
drawn, never after the expiry; what is stored is the rest under the same expiry, and that is what
the allowance reads until then. Failed calls change nothing, and only the owner and the spender
change the entry. What is drawn is the amount of the accepted draws, which the owner's balance
loses by `Outcome.draws_balance`. -/
theorem allowance_accounting {amount : I128} {expirationLedger : ℕ} {before after : List Invocation}
    (hgranted : accepted ⟨env, .approve owner spender amount expirationLedger⟩
      (machine.run Storage.empty before) = true)
    (hafter : Unrenewed owner spender
      (machine.step ⟨env, .approve owner spender amount expirationLedger⟩
        (machine.run Storage.empty before)) after) :
    let granted := machine.step ⟨env, .approve owner spender amount expirationLedger⟩
      (machine.run Storage.empty before)
    let s := machine.run granted after
    let total := acceptedTotal (drawn owner spender) granted after
    total ≤ amount.val ∧
    (∀ first i later, after = first ++ i :: later → accepted i (machine.run granted first) = true →
      0 < drawn owner spender i.call → i.env.sequence ≤ expirationLedger) ∧
    (∃ rest : I128, rest.val = amount.val - total ∧
      s.allowanceEntry owner spender = some ⟨rest, expirationLedger⟩) ∧
    (∀ env, (allowance s env owner spender).val =
      if env.sequence ≤ expirationLedger then amount.val - total else 0) ∧
    (∀ i, accepted i s = false → machine.step i s = s) ∧
    ∀ i, (machine.step i s).allowanceEntry owner spender ≠ s.allowanceEntry owner spender →
      (i.call.approves owner spender = true ∧ i.env.auth owner = true) ∨
        (0 < drawn owner spender i.call ∧ i.env.auth spender = true) := by
  intro granted s total
  obtain ⟨-, u, hret⟩ | ⟨hrefused, -⟩ := accepted_cases
    ⟨env, .approve owner spender amount expirationLedger⟩ (machine.run Storage.empty before)
  swap
  · rw [hrefused] at hgranted
    contradiction
  have hstart : granted.allowanceEntry owner spender = some ⟨amount, expirationLedger⟩ ∧
      0 ≤ amount.val := by
    generalize hnext : granted = s₁
    rw [show machine.step _ _ = s₁ from hnext] at hret
    cases invoke_outcome hret with
    | approved _ hamount => exact ⟨putAllowance_self, hamount⟩
  obtain ⟨hentry, hamount⟩ := hstart
  obtain ⟨rest, hrest, hval, hstored⟩ := run_allowance hentry hamount hafter
  have hval : rest.val = amount.val - total := hval
  refine ⟨by omega, ?_, ⟨rest, hval, hstored⟩, fun env => ?_, fun i hrefused => ?_, fun i hchange => ?_⟩
  · rintro first i later rfl haccepted hpos
    obtain ⟨left, hleft, -, hmid⟩ := run_allowance hentry hamount hafter.of_append
    exact (step_allowance hmid hleft fun happroves => hafter first i later rfl happroves).1
      haccepted hpos
  · rw [allowance, liveAllowance, hstored]
    by_cases hlive : env.sequence ≤ expirationLedger
    · simp only [if_pos hlive]
      exact hval
    · simp only [if_neg hlive]
      rfl
  · obtain ⟨hacc, -⟩ | ⟨-, hsame⟩ := accepted_cases i s
    · rw [hacc] at hrefused
      contradiction
    · exact hsame
  · exact step_allowance_authorized hstored hchange

/-- A spender draws twice and fails once, at the expiry and after it. -/
def drawingCalls : List Invocation :=
  [⟨.authorized 6, .transferFrom (.account 2) (.account 1) (.account 3) (.ofNat 20)⟩,
    ⟨.authorized 10, .burnFrom (.account 2) (.account 1) (.ofNat 25)⟩,
    ⟨.authorized 11, .transferFrom (.account 2) (.account 1) (.account 2) (.ofNat 5)⟩]

/-- Of an allowance of 50 two draws leave 5, and nothing once it has expired. -/
theorem allowance_accounting_drawn :
    let s := machine.run Storage.empty
      ([⟨.authorized 1, .initializeToken (.account 1) [] [] 7 (.ofNat 100)⟩,
        ⟨.authorized 5, .approve (.account 1) (.account 2) (.ofNat 50) 10⟩] ++ drawingCalls)
    (allowance s (.authorized 10) (.account 1) (.account 2)).val = 5 ∧
      (allowance s (.authorized 11) (.account 1) (.account 2)).val = 0 := by
  have hgranted : accepted ⟨.authorized 5, .approve (.account 1) (.account 2) (.ofNat 50) 10⟩
      (machine.run Storage.empty
        [⟨.authorized 1, .initializeToken (.account 1) [] [] 7 (.ofNat 100)⟩]) = true := by decide
  have hafter : ∀ i ∈ drawingCalls, i.call.approves (.account 1) (.account 2) = false := by decide
  obtain ⟨-, -, -, hreads, -⟩ := allowance_accounting hgranted (.of_forall hafter)
  exact ⟨hreads (.authorized 10), hreads (.authorized 11)⟩

end Quorum.Token

import Quorum.Governor.Statistics
import Quorum.Token.Custody

/-!
# Deposits in custody

A proposer pays the deposit in force to the governor when the proposal is opened. The governor
holds it while the proposal is active, pays it back when the proposal is queued, and burns it
when the proposal fails or is cancelled. As long as nobody makes the governor spend its own
tokens in another way, its balance covers the deposits it holds, so that every payment goes
through.
-/

namespace Quorum.Governor

open Foundation Contract

variable {s s' : System} {env : Env} {start now id : ℕ} {governor : Address} {amount : I128}

/-! ## Payments of the governor -/

/-- What a payment in force takes or brings. -/
def amountOf (payment : Option I128) : ℤ := worth I128.val payment

/-- The governor has given nothing away, and its balance has grown by `gain` at least. -/
structure Retains (governor : Address) (gain : ℤ) (t t' : Token.Storage) : Prop where
  untouched : Token.Untouched governor t'
  weight : Token.weight t governor + gain ≤ Token.weight t' governor

/-- A token in which the governor is untouched retains what it holds. -/
theorem Retains.refl {t : Token.Storage} (h : Token.Untouched governor t) :
    Retains governor 0 t t := ⟨h, (add_zero _).le⟩

/-- What a call of the token takes from the governor is all that the governor loses. -/
theorem retains_of_returns {t t' : Token.Storage} {c : Token.Call} {u : Unit}
    (h : Token.Untouched governor t) (hs : Token.Solvent t)
    (hret : (Token.invoke env c).Returns t u t') (hc : c.commits governor = false) :
    Retains governor (-Token.takenFrom governor c) t t' where
  untouched := h.invoke hs hret hc
  weight := by
    have hloss := Token.invoke_loss hs hret governor
    omega

/-- A deposit that is paid in stays with the governor. -/
theorem payIn_retains {config : Config} {proposer : Address} {payment : Option I128}
    {t t' : Token.Storage} (h : Token.Untouched env.contract t) (hs : Token.Solvent t)
    (hne : payment.isSome = true → proposer ≠ env.contract)
    (hpaid : Pays (payIn env config proposer) payment t t') :
    Retains env.contract (amountOf payment) t t' := by
  cases payment with
  | none =>
    obtain rfl : t' = t := hpaid
    exact .refl h
  | some amount =>
    obtain ⟨-, -, hmoves⟩ := Token.transfer_returns hpaid
    have hinvoke : (Token.invoke (tokenEnv env config)
      (.transfer proposer env.contract amount)).Returns t () t' := hpaid
    exact ⟨h.invoke hs hinvoke rfl, (hmoves.gain (hne rfl).symm).ge⟩

/-- What the governor pays out it has no longer. -/
theorem payBack_retains {config : Config} {proposer : Address} {payment : Option I128}
    {t t' : Token.Storage} (h : Token.Untouched env.contract t) (hs : Token.Solvent t)
    (hpaid : Pays (payBack env config proposer) payment t t') :
    Retains env.contract (-amountOf payment) t t' := by
  cases payment with
  | none =>
    obtain rfl : t' = t := hpaid
    exact .refl h
  | some amount =>
    have hinvoke : (Token.invoke (tokenEnv env config)
      (.transfer env.contract proposer amount)).Returns t () t' := hpaid
    have hretains := retains_of_returns h hs hinvoke rfl
    rwa [Token.takenFrom, if_pos rfl] at hretains

/-- A forfeit takes its payment out of what the governor holds, and no more. -/
theorem payOff_retains {config : Config} {payment : Option I128} {t t' : Token.Storage}
    (h : Token.Untouched env.contract t) (hs : Token.Solvent t)
    (hpaid : Pays (payOff env config) payment t t') :
    Retains env.contract (-amountOf payment) t t' := by
  cases payment with
  | none =>
    obtain rfl : t' = t := hpaid
    exact .refl h
  | some amount =>
    have hinvoke : (Token.invoke (tokenEnv env config)
      (.burn env.contract amount)).Returns t () t' := hpaid
    have hretains := retains_of_returns h hs hinvoke rfl
    rwa [Token.takenFrom, if_pos rfl] at hretains

/-! ## What a call does to the deposits -/

/-- A deposit leaves the governor: it is sent to the proposer when the proposal is queued, or
burned from the supply when the proposal fails or is cancelled. -/
inductive Released (governor : Address) (id : ℕ) (amount : I128) (s s' : System) :
    Invocation → Prop
  | refunded {env : Env} {config : Config} {p : Proposal}
      (hstored : s.governor.proposal id = some p) (hstatus : statusOf s' id = some .queued)
      (hpaid : (Token.transfer (tokenEnv env config) governor p.proposer amount).Returns s.token ()
        s'.token) : Released governor id amount s s' (.governor env (.finalize id))
  | forfeited {env : Env} {c : Call} {config : Config}
      (hcall : c = .finalize id ∧ statusOf s' id = some .failed ∨
        ∃ caller, c = .cancel caller id ∧ statusOf s' id = some .cancelled)
      (hpaid : (Token.burn (tokenEnv env config) governor amount).Returns s.token () s'.token)
      (hsupply : (Token.totalSupply s'.token).val = (Token.totalSupply s.token).val - amount.val) :
      Released governor id amount s s' (.governor env c)

/-- The deposit that a proposal opened in this state leaves with the governor. -/
def depositInForce (s : System) : Option I128 := s.governor.config.bind Config.demanded

/-- What a call does to the deposits: nothing, and active proposals stay active; or it opens the
next proposal and takes its deposit in; or a proposal is active no longer, and its deposit is
released. -/
inductive DepositChange (governor : Address) (i : Invocation) (s s' : System) : Prop
  | kept (hdeposit : s'.governor.deposit = s.governor.deposit)
      (hcount : s'.governor.proposalCount.getD 0 = s.governor.proposalCount.getD 0)
      (hactive : ∀ id, statusOf s' id = some .active ↔ statusOf s id = some .active)
      (hstored : ∀ id, statusOf s' id = none ↔ statusOf s id = none)
      (htoken : Retains governor 0 s.token s'.token)
  | opened (hcount : s'.governor.proposalCount = some (s.governor.proposalCount.getD 0 + 1))
      (hstatus : statusOf s' =
        Function.update (statusOf s) (s.governor.proposalCount.getD 0 + 1) (some .active))
      (hdeposit : s'.governor.deposit = Function.update s.governor.deposit
        (s.governor.proposalCount.getD 0 + 1) (depositInForce s))
      (htoken : Retains governor (amountOf (depositInForce s)) s.token s'.token)
  | closed (id : ℕ) (status : ProposalStatus) (hactive : statusOf s id = some .active)
      (hne : status ≠ .active)
      (hcount : s'.governor.proposalCount = s.governor.proposalCount)
      (hstatus : statusOf s' = Function.update (statusOf s) id (some status))
      (hdeposit : s'.governor.deposit = Function.update s.governor.deposit id none)
      (hreleased : ∀ amount, s.governor.deposit id = some amount →
        Released governor id amount s s' i)
      (htoken : Retains governor (-amountOf (s.governor.deposit id)) s.token s'.token)

/-- What the governor holds is covered by what it owns, and belongs to active proposals. -/
structure Custody (governor : Address) (s : System) : Prop where
  untouched : Token.Untouched governor s.token
  active : ∀ id amount, s.governor.deposit id = some amount →
    statusOf s id = some .active ∧ 0 < amount.val
  covered : total (s.governor.proposalCount.getD 0) s.governor.deposit I128.val ≤
    Token.weight s.token governor

/-- Unless a proposal that is not active is concerned, nothing about the deposits changes. -/
theorem DepositChange.of_put {i : Invocation} {p p' : Proposal}
    (hstored : s.governor.proposal id = some p)
    (hproposal : s'.governor.proposal = Function.update s.governor.proposal id (some p'))
    (hactive : p'.status = .active ↔ p.status = .active)
    (hdeposit : s'.governor.deposit = s.governor.deposit)
    (hcount : s'.governor.proposalCount = s.governor.proposalCount)
    (htoken : Retains governor 0 s.token s'.token) : DepositChange governor i s s' := by
  have hstatus := statusOf_put hproposal
  refine .kept hdeposit (by rw [hcount]) (fun other => ?_) (fun other => ?_) htoken
  · rw [hstatus]
    by_cases hother : other = id
    · subst hother
      rw [Function.update_self, statusOf_eq hstored, Option.some.injEq, Option.some.injEq, hactive]
    · rw [Function.update_of_ne hother]
  · rw [hstatus]
    by_cases hother : other = id
    · subst hother
      rw [Function.update_self, statusOf_eq hstored]
      simp
    · rw [Function.update_of_ne hother]

/-- A proposal that stops being active has its deposit released. -/
theorem DepositChange.of_close {i : Invocation} {p p' : Proposal}
    (hstored : s.governor.proposal id = some p)
    (hproposal : s'.governor.proposal = Function.update s.governor.proposal id (some p'))
    (hactive : p.status = .active) (hne : p'.status ≠ .active)
    (hcount : s'.governor.proposalCount = s.governor.proposalCount)
    (hdeposit : s'.governor.deposit = Function.update s.governor.deposit id none)
    (hreleased : statusOf s' id = some p'.status →
      ∀ amount, s.governor.deposit id = some amount → Released governor id amount s s' i)
    (htoken : Retains governor (-amountOf (s.governor.deposit id)) s.token s'.token) :
    DepositChange governor i s s' := by
  have hstatus := statusOf_put hproposal
  refine .closed id p'.status (by rw [statusOf_eq hstored, hactive]) hne hcount hstatus hdeposit
    (hreleased ?_) htoken
  rw [hstatus, Function.update_self]

/-- Without a change of proposals nothing about the deposits changes. -/
theorem DepositChange.of_same {i : Invocation}
    (hproposal : s'.governor.proposal = s.governor.proposal)
    (hdeposit : s'.governor.deposit = s.governor.deposit)
    (hcount : s'.governor.proposalCount.getD 0 = s.governor.proposalCount.getD 0)
    (htoken : Retains governor 0 s.token s'.token) : DepositChange governor i s s' := by
  have hstatus : statusOf s' = statusOf s := by
    funext other
    rw [statusOf, hproposal, statusOf]
  exact .kept hdeposit hcount (fun _ => by rw [hstatus]) (fun _ => by rw [hstatus]) htoken

/-- A proposal that is active no longer holds no deposit. -/
theorem Custody.deposit_eq_none (hc : Custody governor s) (h : statusOf s id ≠ some .active) :
    s.governor.deposit id = none := by
  cases hdeposit : s.governor.deposit id with
  | none => rfl
  | some amount => exact absurd (hc.active id amount hdeposit).1 h

/-- An accepted call changes the deposits in one of the listed ways, provided that no proposal
is opened with a deposit that the governor would owe to itself. -/
theorem Outcome.depositChange {c : Call} (hw : WellFormed now s) (hs : Token.Solvent s.token)
    (h : Outcome env s c s') (hc : Custody env.contract s)
    (hown : c.opens.map Prod.fst = some env.contract → depositInForce s = none) :
    DepositChange env.contract (.governor env c) s s' := by
  have hretains := Retains.refl hc.untouched
  cases h with
  | initialized hnone =>
    refine .of_same rfl rfl ?_ hretains
    rw [hw.blank hnone]
    rfl
  | @opened _ _ config proposer conviction p hopens h _ _ hpaid hleft =>
    have hforce : depositInForce s = config.demanded := by
      rw [depositInForce, h.configured, Option.bind_some]
    have hnone : s.governor.deposit p.id = none := by
      apply hc.deposit_eq_none
      rw [statusOf, (hw.fresh h).1]
      simp
    refine .opened (by rw [h.proposalCount, h.id]) ?_ ?_ ?_
    · rw [statusOf_put h.proposal, h.status, h.id]
    · rw [hleft, hforce, ← h.id, Config.demanded]
      split
      · rfl
      · rw [← hnone, Function.update_eq_self]
    · rw [hforce]
      refine payIn_retains hc.untouched hs (fun hsome hself => ?_) hpaid
      rw [← hforce, hown (by rw [hopens, hself]; rfl)] at hsome
      contradiction
  | voted h hleft =>
    refine .of_put h.stored h.proposal (by rw [h.status.1]) (by rw [hleft]) h.proposalCount ?_
    rw [h.token]
    exact hretains
  | @delegated _ delegator delegatee config t hcall _ _ hdelegates =>
    have hinvoke : (Token.invoke (tokenEnv env config) (.delegate delegator delegatee)).Returns
      s.token () t := hdelegates
    exact .of_same rfl rfl rfl (retains_of_returns hc.untouched hs hinvoke rfl)
  | @queued id config p total t _ hstored _ hactive _ _ _ _ hpaid =>
    have hid := hw.ids id p hstored
    rw [hid] at hpaid
    refine .of_close hstored rfl hactive (by simp) rfl
      (congrArg (Function.update s.governor.deposit · none) hid) ?_
      (payBack_retains hc.untouched hs hpaid)
    intro hstatus amount hdeposit
    rw [hdeposit] at hpaid
    exact .refunded hstored hstatus hpaid
  | @failed id config p total t _ hstored _ hactive _ _ hpaid =>
    refine .of_close hstored rfl hactive (by simp) rfl rfl ?_
      (payOff_retains hc.untouched hs hpaid)
    intro hstatus amount hdeposit
    rw [hdeposit] at hpaid
    have hburns := Token.burn_returns hpaid
    exact .forfeited (.inl ⟨rfl, hstatus⟩) hpaid
      (hs.burns hburns.2.1 hburns.2.2).2
  | begun _ _ _ hstored hqueued =>
    exact .of_put hstored rfl (by simp [hqueued]) rfl rfl hretains
  | ended => exact .of_same rfl rfl rfl hretains
  | expired _ hstored hqueued =>
    exact .of_put hstored rfl (by simp [hqueued]) rfl rfl hretains
  | @cancelled caller id config p t _ _ hstored _ hactive _ hpaid =>
    refine .of_close hstored rfl hactive (by simp) rfl rfl ?_
      (payOff_retains hc.untouched hs hpaid)
    intro hstatus amount hdeposit
    rw [hdeposit] at hpaid
    have hburns := Token.burn_returns hpaid
    exact .forfeited (.inr ⟨caller, rfl, hstatus⟩) hpaid
      (hs.burns hburns.2.1 hburns.2.2).2
  | vetoed _ _ _ hstored hqueued =>
    exact .of_put hstored rfl (by simp [hqueued]) rfl rfl hretains
  | _ => exact .of_same rfl rfl rfl hretains

/-! ## Custody is kept -/

/-- A family with a member removed has the others left. -/
theorem update_none_eq_some {A : Type*} {f : ℕ → Option A} {id other : ℕ} {a : A} :
    Function.update f id none other = some a ↔ other ≠ id ∧ f other = some a := by
  by_cases hother : other = id
  · subst hother
    simp
  · simp [hother]

/-- A deposit in force is positive. -/
theorem depositInForce_pos (h : depositInForce s = some amount) : 0 < amount.val := by
  obtain ⟨config, -, hdemanded⟩ := Option.bind_eq_some_iff.mp h
  rw [Config.demanded] at hdemanded
  split at hdemanded <;> rename_i hpos
  · exact Option.some.inj hdemanded ▸ hpos
  · contradiction

/-- No proposal is stored under the next id. -/
theorem WellFormed.statusOf_next (hw : WellFormed now s) :
    statusOf s (s.governor.proposalCount.getD 0 + 1) = none := by
  rw [statusOf, hw.unopened _ (Nat.lt_succ_self _), Option.map_none]

/-- The id of a stored proposal is at most the count. -/
theorem WellFormed.id_le_of_statusOf {status : ProposalStatus} (hw : WellFormed now s)
    (h : statusOf s id = some status) : id ≤ s.governor.proposalCount.getD 0 := by
  obtain ⟨p, hstored, -⟩ := Option.map_eq_some_iff.mp h
  exact hw.id_le hstored

/-- What the listed changes do to the sum of the deposits, they do to the balance. -/
theorem DepositChange.custody {i : Invocation} (hw : WellFormed now s)
    (h : DepositChange governor i s s') (hc : Custody governor s) : Custody governor s' := by
  cases h with
  | kept hdeposit hcount hactive hstored htoken =>
    refine ⟨htoken.untouched, fun id amount h => ?_, ?_⟩
    · rw [hdeposit] at h
      exact ⟨(hactive id).mpr (hc.active id amount h).1, (hc.active id amount h).2⟩
    · have hweight := htoken.weight
      rw [add_zero] at hweight
      rw [hdeposit, hcount]
      exact hc.covered.trans hweight
  | opened hcount hstatus hdeposit htoken =>
    refine ⟨htoken.untouched, fun id amount h => ?_, ?_⟩
    · rw [hdeposit] at h
      rw [hstatus]
      by_cases hid : id = s.governor.proposalCount.getD 0 + 1
      · subst hid
        rw [Function.update_self] at h ⊢
        exact ⟨rfl, depositInForce_pos h⟩
      · rw [Function.update_of_ne hid] at h ⊢
        exact hc.active id amount h
    · rw [hdeposit, hcount, Option.getD_some, total_succ]
      exact (Int.add_le_add_right hc.covered _).trans htoken.weight
  | closed id status hactive hne hcount hstatus hdeposit _ htoken =>
    refine ⟨htoken.untouched, fun other amount h => ?_, ?_⟩
    · rw [hdeposit, update_none_eq_some] at h
      rw [hstatus, Function.update_of_ne h.1]
      exact hc.active other amount h.2
    · have htotal := total_update (w := I128.val) (f := s.governor.deposit)
        (hw.id_le_of_statusOf hactive) none
      have hcovered := hc.covered
      have hweight := htoken.weight
      rw [worth_none] at htotal
      rw [hdeposit, hcount]
      unfold amountOf at hweight
      omega

/-- The governor calls under its own address, opens no proposal whose deposit it would pay to
itself, and neither moves nor burns nor stakes nor approves its own tokens otherwise. -/
def Undiverting (governor : Address) (s : System) : Invocation → Prop
  | .token i => i.call.spends governor = true → Token.accepted i s.token = false
  | .governor env c => env.contract = governor ∧
    (c.opens.map Prod.fst = some governor → Accepted env c s → depositInForce s = none)

instance Undiverting.decidable : ∀ i, Decidable (Undiverting governor s i)
  | .token _ => inferInstanceAs (Decidable (_ → _))
  | .governor _ _ => inferInstanceAs (Decidable (_ ∧ _))

/-- No call of a run diverts tokens of the governor. -/
def Undiverted (governor : Address) (s : System) : List Invocation → Prop
  | [] => True
  | i :: rest => Undiverting governor s i ∧ Undiverted governor (machine.step i s) rest

instance Undiverted.decidable : ∀ (s : System) (calls : List Invocation),
    Decidable (Undiverted governor s calls)
  | _, [] => inferInstanceAs (Decidable True)
  | s, i :: rest =>
    have := Undiverted.decidable (machine.step i s) rest
    inferInstanceAs (Decidable (_ ∧ _))

/-- A state of the two contracts in which the deposits are in custody. -/
structure Guarded (governor : Address) (now : ℕ) (s : System) : Prop where
  wellFormed : WellFormed now s
  sound : Token.Sound now s.token
  custody : Custody governor s

/-- A call of the system is a number of calls of its token. -/
theorem Step.sound {i : Invocation} (h : Step i s s') (hs : Token.Sound i.sequence s.token) :
    Token.Sound i.sequence s'.token := by
  obtain ⟨calls, htimes, hrun⟩ := h.advances
  rw [← hrun]
  exact hs.run (.of_forall htimes)

namespace Guarded

/-- The empty state is guarded. -/
theorem empty (governor : Address) (now : ℕ) : Guarded governor now System.empty where
  wellFormed := .empty now
  sound := .empty now
  custody := ⟨.empty governor, fun _ _ h => by contradiction,
    (total_eq_zero fun _ => rfl).trans_le (Token.Solvent.empty.nonneg governor)⟩

/-- A guarded state stays guarded as ledgers pass. -/
theorem mono {later : ℕ} (h : Guarded governor now s) (hle : now ≤ later) :
    Guarded governor later s := ⟨h.wellFormed.mono hle, h.sound.mono hle, h.custody⟩

/-- A call that diverts nothing changes the deposits in one of the listed ways. -/
theorem change {i : Invocation} (h : Guarded governor (machine.time i) s)
    (hi : Undiverting governor s i) : DepositChange governor i s (machine.step i s) := by
  cases i with
  | token i =>
    obtain ⟨huntouched, hweight⟩ := h.custody.untouched.step h.sound.solvent hi
    exact .of_same rfl rfl rfl ⟨huntouched, by rwa [add_zero]⟩
  | governor env c =>
    obtain ⟨rfl, hown⟩ := hi
    by_cases haccepted : Accepted env c s
    · exact (invoke_outcome haccepted.returns).depositChange h.wellFormed h.sound.solvent h.custody
        fun hopens => hown hopens haccepted
    · rw [step_eq_of_not_accepted haccepted]
      exact .of_same rfl rfl rfl (.refl h.custody.untouched)

/-- A step that does not divert the governor's tokens keeps the state guarded. -/
theorem step {i : Invocation} (h : Guarded governor (machine.time i) s)
    (hi : Undiverting governor s i) : Guarded governor (machine.time i) (machine.step i s) where
  wellFormed := h.wellFormed.step (machine_step h.wellFormed.blank i)
  sound := (machine_step h.wellFormed.blank i).sound h.sound
  custody := (h.change hi).custody h.wellFormed h.custody

/-- A run that does not divert the governor's tokens keeps the state guarded. -/
theorem run {calls : List Invocation} (h : Guarded governor start s)
    (hcalls : machine.Scheduled start now calls) (hundiverted : Undiverted governor s calls) :
    Guarded governor now (machine.run s calls) := by
  induction calls generalizing start s with
  | nil => exact h.mono hcalls
  | cons i rest ih => exact ih ((h.mono hcalls.1).step hundiverted.1) hcalls.2 hundiverted.2

end Guarded

/-! ## The life of a deposit -/

/-- The deposit that was in force when a proposal was opened in a run. -/
def openingDeposit (id : ℕ) (s : System) : List Invocation → Option I128
  | [] => none
  | i :: rest =>
    if statusOf s id = none ∧ statusOf (machine.step i s) id ≠ none then depositInForce s
    else openingDeposit id (machine.step i s) rest

/-- How often the deposit of a proposal leaves the governor in a run. -/
def releases (id : ℕ) (s : System) : List Invocation → ℕ
  | [] => 0
  | i :: rest =>
    (if (s.governor.deposit id).isSome = true ∧ (machine.step i s).governor.deposit id = none
      then 1 else 0) + releases id (machine.step i s) rest

/-- A proposal that has been opened keeps its deposit as long as it is active, and neither it nor
its deposit comes back. -/
theorem DepositChange.stored {i : Invocation} (hw : WellFormed now s) (hc : Custody governor s)
    (h : DepositChange governor i s s') (hstored : statusOf s id ≠ none) :
    statusOf s' id ≠ none ∧
      (statusOf s' id = some .active → statusOf s id = some .active) ∧
      s'.governor.deposit id =
        if statusOf s' id = some .active then s.governor.deposit id else none := by
  cases h with
  | kept hdeposit hcount hactive hstored' htoken =>
    refine ⟨(hstored' id).not.mpr hstored, (hactive id).mp, ?_⟩
    rw [hdeposit]
    split <;> rename_i hstatus
    · rfl
    · exact hc.deposit_eq_none ((hactive id).not.mp hstatus)
  | opened hcount hstatus hdeposit htoken =>
    have hne : id ≠ s.governor.proposalCount.getD 0 + 1 := by
      rintro rfl
      exact hstored hw.statusOf_next
    rw [hstatus, hdeposit, Function.update_of_ne hne, Function.update_of_ne hne]
    refine ⟨hstored, fun h => h, ?_⟩
    split <;> rename_i hactive
    · rfl
    · exact hc.deposit_eq_none hactive
  | closed other status hactive hne hcount hstatus hdeposit _ htoken =>
    rw [hstatus, hdeposit]
    by_cases hother : id = other
    · subst hother
      rw [Function.update_self, Function.update_self, if_neg fun h => hne (Option.some.inj h)]
      exact ⟨Option.some_ne_none _, fun _ => hactive, rfl⟩
    · rw [Function.update_of_ne hother, Function.update_of_ne hother]
      refine ⟨hstored, fun h => h, ?_⟩
      split <;> rename_i hactive
      · rfl
      · exact hc.deposit_eq_none hactive

/-- A proposal is opened active, with the deposit in force. -/
theorem DepositChange.fresh {i : Invocation} (h : DepositChange governor i s s')
    (hfresh : statusOf s id = none) (hopened : statusOf s' id ≠ none) :
    statusOf s' id = some .active ∧ s'.governor.deposit id = depositInForce s := by
  cases h with
  | kept hdeposit hcount hactive hstored htoken => exact absurd ((hstored id).mpr hfresh) hopened
  | opened hcount hstatus hdeposit htoken =>
    rw [hstatus] at hopened ⊢
    rw [hdeposit]
    by_cases hid : id = s.governor.proposalCount.getD 0 + 1
    · subst hid
      rw [Function.update_self, Function.update_self]
      exact ⟨rfl, rfl⟩
    · rw [Function.update_of_ne hid] at hopened
      exact absurd hfresh hopened
  | closed other status hactive hne hcount hstatus hdeposit _ htoken =>
    rw [hstatus] at hopened
    by_cases hother : id = other
    · subst hother
      rw [hactive] at hfresh
      contradiction
    · rw [Function.update_of_ne hother] at hopened
      exact absurd hfresh hopened

/-- A deposit that a call clears is released by it. -/
theorem DepositChange.released {i : Invocation} (hw : WellFormed now s) (hc : Custody governor s)
    (h : DepositChange governor i s s') (hheld : s.governor.deposit id = some amount)
    (hcleared : s'.governor.deposit id ≠ some amount) : Released governor id amount s s' i := by
  cases h with
  | kept hdeposit hcount hactive hstored htoken =>
    rw [hdeposit] at hcleared
    exact absurd hheld hcleared
  | opened hcount hstatus hdeposit htoken =>
    have hne : id ≠ s.governor.proposalCount.getD 0 + 1 := by
      rintro rfl
      have hactive := (hc.active _ _ hheld).1
      rw [hw.statusOf_next] at hactive
      contradiction
    rw [hdeposit, Function.update_of_ne hne] at hcleared
    exact absurd hheld hcleared
  | closed other status hactive hne hcount hstatus hdeposit hreleased htoken =>
    by_cases hother : id = other
    · subst hother
      exact hreleased amount hheld
    · rw [hdeposit, Function.update_of_ne hother] at hcleared
      exact absurd hheld hcleared

/-- Both parts of an undiverted run are undiverted. -/
theorem Undiverted.append {first later : List Invocation}
    (h : Undiverted governor s (first ++ later)) :
    Undiverted governor s first ∧ Undiverted governor (machine.run s first) later := by
  induction first generalizing s with
  | nil => exact ⟨trivial, h⟩
  | cons i rest ih => exact ⟨⟨h.1, (ih h.2).1⟩, (ih h.2).2⟩

section Life

variable {calls : List Invocation}

/-- From the opening on the deposit stays until the proposal is active no longer, and is then
released once. -/
theorem stored_run (h : Guarded governor start s) (hcalls : machine.Scheduled start now calls)
    (hundiverted : Undiverted governor s calls) (hstored : statusOf s id ≠ none) :
    (statusOf (machine.run s calls) id = some .active → statusOf s id = some .active) ∧
      (machine.run s calls).governor.deposit id =
        (if statusOf (machine.run s calls) id = some .active then s.governor.deposit id
        else none) ∧
      releases id s calls =
        if (s.governor.deposit id).isSome = true ∧ statusOf (machine.run s calls) id ≠ some .active
        then 1 else 0 := by
  induction calls generalizing start s with
  | nil =>
    rw [Clocked.run_nil]
    refine ⟨fun h => h, ?_, ?_⟩
    · split <;> rename_i hactive
      · rfl
      · exact h.custody.deposit_eq_none hactive
    · rw [releases, if_neg]
      rintro ⟨hsome, hactive⟩
      rw [h.custody.deposit_eq_none hactive] at hsome
      contradiction
  | cons i rest ih =>
    have hi := h.mono hcalls.1
    obtain ⟨hstored', hback, hdeposit⟩ :=
      (hi.change hundiverted.1).stored hi.wellFormed hi.custody hstored
    obtain ⟨hback', hdeposit', hreleases⟩ :=
      ih (hi.step hundiverted.1) hcalls.2 hundiverted.2 hstored'
    rw [Clocked.run_cons, releases, hdeposit', hreleases, hdeposit]
    refine ⟨fun hactive => hback (hback' hactive), ?_, ?_⟩
    · split <;> rename_i hactive
      · rw [if_pos (hback' hactive)]
      · rfl
    · cases hheld : s.governor.deposit id with
      | none => simp
      | some amount =>
        by_cases hactive : statusOf (machine.step i s) id = some .active
        · simp [hactive]
        · have hgone : statusOf (machine.run (machine.step i s) rest) id ≠ some .active :=
            fun h => hactive (hback' h)
          simp [hactive, hgone]

/-- A proposal that a run opens has the deposit in force then, as long as it is active. -/
theorem opened_run (h : Guarded governor start s) (hcalls : machine.Scheduled start now calls)
    (hundiverted : Undiverted governor s calls) (hfresh : statusOf s id = none) :
    (machine.run s calls).governor.deposit id =
        (if statusOf (machine.run s calls) id = some .active then openingDeposit id s calls
        else none) ∧
      releases id s calls =
        if (openingDeposit id s calls).isSome = true ∧
          statusOf (machine.run s calls) id ≠ some .active then 1 else 0 := by
  have hnone : s.governor.deposit id = none := h.custody.deposit_eq_none (by rw [hfresh]; simp)
  induction calls generalizing start s with
  | nil =>
    rw [Clocked.run_nil, hnone, hfresh]
    exact ⟨rfl, rfl⟩
  | cons i rest ih =>
    have hi := h.mono hcalls.1
    have hchange := hi.change hundiverted.1
    have hnext := hi.step hundiverted.1
    have hreleases : releases id s (i :: rest) = releases id (machine.step i s) rest := by
      rw [releases, hnone]
      simp
    rw [Clocked.run_cons, hreleases]
    by_cases hopened : statusOf (machine.step i s) id = none
    · have hopening : openingDeposit id s (i :: rest) =
          openingDeposit id (machine.step i s) rest := if_neg fun h => h.2 hopened
      rw [hopening]
      exact ih hnext hcalls.2 hundiverted.2 hopened
        (hnext.custody.deposit_eq_none (by rw [hopened]; simp))
    · obtain ⟨-, hdeposit⟩ := hchange.fresh hfresh hopened
      have hopening : openingDeposit id s (i :: rest) = (machine.step i s).governor.deposit id :=
        (if_pos ⟨hfresh, hopened⟩).trans hdeposit.symm
      rw [hopening]
      exact (stored_run hnext hcalls.2 hundiverted.2 hopened).2

/-- A held deposit can be paid out, in either way. -/
theorem Guarded.pays {config : Config} {proposer : Address} (h : Guarded env.contract now s)
    (hnow : now ≤ env.sequence) (hheld : s.governor.deposit id = some amount) :
    (payBack env config proposer amount).Succeeds s.token ∧
      (payOff env config amount).Succeeds s.token := by
  obtain ⟨hactive, hpos⟩ := h.custody.active id amount hheld
  have hnonneg : ∀ other, 0 ≤ worth I128.val (s.governor.deposit other) := by
    intro other
    cases hother : s.governor.deposit other with
    | none => exact le_rfl
    | some held => exact (h.custody.active other held hother).2.le
  have hworth := worth_le_total hnonneg (h.wellFormed.id_le_of_statusOf hactive)
  rw [hheld, worth_some] at hworth
  have hcovered := hworth.trans h.custody.covered
  have hsound : Token.Sound (tokenEnv env config).sequence s.token := h.sound.mono hnow
  have hauth : (tokenEnv env config).auth env.contract = true := by simp [tokenEnv]
  exact ⟨Token.transfer_succeeds hsound hauth hpos (h.custody.untouched.covered hcovered),
    Token.burn_succeeds hsound hauth hpos (h.custody.untouched.covered hcovered)⟩

/-- In a run in which nobody diverts tokens of the governor, the deposit of a proposal is held
exactly while the proposal is active, and is the one that was in force when it was opened. It
leaves the governor once, as the outcome of the proposal demands. The governor's balance covers
all held deposits, and each of them can be paid out. -/
theorem deposits_conserved (hcalls : machine.Scheduled start now calls)
    (hundiverted : Undiverted governor System.empty calls) :
    let s := machine.run System.empty calls
    (∀ id, s.governor.deposit id =
      if statusOf s id = some .active then openingDeposit id System.empty calls else none) ∧
    (∀ id, releases id System.empty calls =
      if (openingDeposit id System.empty calls).isSome = true ∧ statusOf s id ≠ some .active
      then 1 else 0) ∧
    (∀ first i rest id amount, calls = first ++ i :: rest →
      (machine.run System.empty first).governor.deposit id = some amount →
      (machine.run System.empty (first ++ [i])).governor.deposit id ≠ some amount →
      Released governor id amount (machine.run System.empty first)
        (machine.run System.empty (first ++ [i])) i) ∧
    total (s.governor.proposalCount.getD 0) s.governor.deposit I128.val ≤
      (Token.balance s.token governor).val ∧
    ∀ id amount, s.governor.deposit id = some amount →
      ∀ (env : Env) (config : Config) (proposer : Address), env.contract = governor →
        now ≤ env.sequence →
        (payBack env config proposer amount).Succeeds s.token ∧
          (payOff env config amount).Succeeds s.token := by
  intro s
  have hempty := Guarded.empty governor start
  have hend := hempty.run hcalls hundiverted
  refine ⟨fun id => (opened_run hempty hcalls hundiverted rfl).1,
    fun id => (opened_run hempty hcalls hundiverted rfl).2, ?_, hend.custody.covered, ?_⟩
  · rintro first i rest id amount rfl hheld hcleared
    obtain ⟨hfirst, -⟩ := hcalls.of_append
    obtain ⟨hundiverted₁, hundiverted₂⟩ := hundiverted.append
    have hbefore := hempty.run hfirst hundiverted₁
    rw [Clocked.run_append] at hcleared ⊢
    exact (hbefore.change hundiverted₂.1).released hbefore.wellFormed hbefore.custody hheld hcleared
  · rintro id amount hheld env config proposer rfl hnow
    exact hend.pays hnow hheld

end Life

/-- Two proposals are opened under different deposits; the first one passes. -/
def depositCalls : List Invocation :=
  launchCalls 3 ++ [.governor (.authorized 2) (.setProposalDeposit (.ofNat 10)),
    .governor (.authorized 5) (.createProposal (.account 1) [84] [] []),
    .governor (.authorized 5) (.setProposalDeposit (.ofNat 25)),
    .governor (.authorized 5) (.createProposal (.account 1) [85] [] []),
    .governor (.authorized 6) (.vote (.account 1) 1 1),
    .governor (.authorized 10) (.finalize 1)]

/-- The deposit of a queued proposal is released once, and the other one is still held. -/
theorem deposits_conserved_passing :
    (machine.run System.empty depositCalls).governor.deposit 1 = none ∧
      releases 1 System.empty depositCalls = 1 ∧
      (machine.run System.empty depositCalls).governor.deposit 2 = some (.ofNat 25) ∧
      total 2 (machine.run System.empty depositCalls).governor.deposit I128.val ≤
        (Token.balance (machine.run System.empty depositCalls).token (.contract 0)).val := by
  have hcalls : machine.Scheduled 0 10 depositCalls := by decide
  have hundiverted : Undiverted (.contract 0) System.empty depositCalls := by decide
  obtain ⟨hheld, hreleases, -, hcovered, -⟩ := deposits_conserved hcalls hundiverted
  refine ⟨?_, ?_, ?_, hcovered⟩
  · rw [hheld]
    decide
  · rw [hreleases]
    decide
  · rw [hheld]
    decide

end Quorum.Governor

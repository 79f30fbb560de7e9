import Quorum.Foundation.Registry
import Quorum.Token.Custody

/-!
# Nothing is taken without consent

A call that an account has not authorized leaves its representative and its locks as they are,
grants nothing in its name, and takes nothing from its balance but what earlier allowances cover:
the balance less what others may still draw from it never falls.
-/

namespace Quorum.Token

open Foundation Contract

variable {s s' : Storage} {env : Env} {c : Call} {u : Unit} {holder : Address}

/-- What others may still draw from the balance of an account. -/
def onCall (holder : Address) (s : Storage) : ℤ :=
  ∑ spender, worth (fun value : AllowanceValue => value.amount.val) (granted holder s spender)

/-- What an account keeps that authorizes nothing. -/
structure Respects (holder : Address) (s s' : Storage) : Prop where
  represented : s'.delegateEntry holder = s.delegateEntry holder
  locked : s'.locksEntry holder = s.locksEntry holder
  granted : ∀ spender value', granted holder s' spender = some value' →
    ∃ value, granted holder s spender = some value ∧ value'.amount.val ≤ value.amount.val ∧
      value'.expirationLedger = value.expirationLedger
  covered : weight s holder - onCall holder s ≤ weight s' holder - onCall holder s'

/-- A storage respects everybody's consent to itself. -/
theorem Respects.refl (holder : Address) (s : Storage) : Respects holder s s :=
  ⟨rfl, rfl, fun _ value h => ⟨value, h, le_rfl, rfl⟩, le_rfl⟩

/-- Respect passes from one storage to the next. -/
theorem Respects.trans {s₁ s₂ s₃ : Storage} (h : Respects holder s₁ s₂)
    (h' : Respects holder s₂ s₃) : Respects holder s₁ s₃ where
  represented := h'.represented.trans h.represented
  locked := h'.locked.trans h.locked
  granted spender value₃ hvalue₃ := by
    obtain ⟨value₂, hvalue₂, hle, hexpires⟩ := h'.granted spender value₃ hvalue₃
    obtain ⟨value₁, hvalue₁, hle', hexpires'⟩ := h.granted spender value₂ hvalue₂
    exact ⟨value₁, hvalue₁, hle.trans hle', hexpires.trans hexpires'⟩
  covered := h.covered.trans h'.covered

/-! ## One call -/

/-- A call without the consent of an account leaves its representative and its locks. -/
theorem Outcome.own_entries (h : Outcome env s c s') (hauth : env.auth holder = false) :
    s'.delegateEntry holder = s.delegateEntry holder ∧
      s'.locksEntry holder = s.locksEntry holder := by
  have hother : ∀ {owner}, env.auth owner = true → holder ≠ owner := by
    rintro owner howner rfl
    rw [howner] at hauth
    contradiction
  cases h with
  | initialized _ _ _ _ hcredit =>
    exact ⟨congrFun hcredit.aside.delegateEntry holder, congrFun hcredit.aside.locksEntry holder⟩
  | transferred _ _ h | transferredFrom _ _ _ _ h | burned _ _ h | burnedFrom _ _ _ _ h =>
    exact ⟨congrFun h.aside.delegateEntry holder, congrFun h.aside.locksEntry holder⟩
  | minted _ _ _ _ _ hcredit =>
    exact ⟨congrFun hcredit.aside.delegateEntry holder, congrFun hcredit.aside.locksEntry holder⟩
  | delegated howner => exact ⟨Function.update_of_ne (hother howner) _ _, rfl⟩
  | staked howner | unstaked howner => exact ⟨rfl, Function.update_of_ne (hother howner) _ _⟩
  | _ => exact ⟨rfl, rfl⟩

/-- A spend from an allowance needs one. -/
theorem Outcome.exists_granted {spender : Address} (h : Outcome env s c s')
    (hpair : c.allowancePair = some (holder, spender))
    (hdraw : c.approves holder spender = false) :
    ∃ value, s.allowanceEntry holder spender = some value := by
  have hlive : 0 < (liveAllowance s env holder spender).amount.val := by
    cases h with
    | transferredFrom _ hpos hrest hallowed | burnedFrom _ hpos hrest hallowed =>
      cases hpair
      omega
    | approved =>
      cases hpair
      simp [Call.approves] at hdraw
    | _ => contradiction
  cases hentry : s.allowanceEntry holder spender with
  | some value => exact ⟨value, rfl⟩
  | none =>
    rw [liveAllowance, hentry] at hlive
    exact absurd hlive (lt_irrefl 0)

/-- A call without the consent of an account draws on its allowances and changes them in no other
way. -/
theorem Outcome.draws_only (h : Outcome env s c s') (hauth : env.auth holder = false)
    (spender : Address) :
    worth (fun value : AllowanceValue => value.amount.val) (granted holder s' spender) =
        worth (fun value : AllowanceValue => value.amount.val) (granted holder s spender) -
          drawn holder spender c ∧
      ∀ value', granted holder s' spender = some value' →
        ∃ value, granted holder s spender = some value ∧ value'.amount.val ≤ value.amount.val ∧
          value'.expirationLedger = value.expirationLedger := by
  by_cases hpair : c.allowancePair = some (holder, spender)
  · have hdraw : c.approves holder spender = false := by
      by_contra hset
      have howner := h.approves_auth (Bool.eq_true_of_not_eq_false hset)
      rw [howner] at hauth
      contradiction
    obtain ⟨value, hentry⟩ := h.exists_granted hpair hdraw
    obtain ⟨-, -, hpos, rest, -, hrest, hleft⟩ := h.draws hpair hdraw hentry
    have hbefore : granted holder s spender = some value := hentry
    have hafter : granted holder s' spender = some ⟨rest, value.expirationLedger⟩ := hleft
    rw [hbefore, hafter, worth_some, worth_some]
    refine ⟨hrest, fun value' hvalue' => ?_⟩
    obtain rfl := Option.some.inj hvalue'
    refine ⟨value, rfl, ?_, rfl⟩
    change rest.val ≤ value.amount.val
    omega
  · have hsame : granted holder s' spender = granted holder s spender := h.allowanceEntry_eq hpair
    rw [hsame, drawn_eq_zero hpair, sub_zero]
    exact ⟨rfl, fun value hvalue => ⟨value, hvalue, le_rfl, rfl⟩⟩

/-- What a call takes from an account that has not authorized it is drawn from its allowances. -/
theorem Outcome.takenFrom_eq (h : Outcome env s c s') (hauth : env.auth holder = false) :
    takenFrom holder c = ∑ spender, drawn holder spender c := by
  have hother : ∀ {owner}, env.auth owner = true → holder ≠ owner := by
    rintro owner howner rfl
    rw [howner] at hauth
    contradiction
  cases h with
  | transferred hsrc => simp [takenFrom, drawn, hother hsrc]
  | burned hsrc => simp [takenFrom, drawn, hother hsrc]
  | @transferredFrom spender src | @burnedFrom spender src =>
    by_cases hsrc : holder = src
    · simp [takenFrom, drawn, hsrc]
    · simp [takenFrom, drawn, hsrc, Ne.symm hsrc]
  | _ => simp [takenFrom, drawn]

/-- A call respects every account that has not authorized it. -/
theorem invoke_respects (hs : Solvent s) (h : (invoke env c).Returns s u s')
    (hauth : env.auth holder = false) : Respects holder s s' := by
  have houtcome := invoke_outcome h
  obtain ⟨hrepresented, hlocked⟩ := houtcome.own_entries hauth
  have honCall : onCall holder s' = onCall holder s - takenFrom holder c := by
    rw [houtcome.takenFrom_eq hauth, onCall, onCall, ← Finset.sum_sub_distrib]
    exact Finset.sum_congr rfl fun spender _ => (houtcome.draws_only hauth spender).1
  have hloss := invoke_loss hs h holder
  exact ⟨hrepresented, hlocked, fun spender => (houtcome.draws_only hauth spender).2, by omega⟩

/-- Every step respects an account that does not authorize it. -/
theorem step_respects {i : Invocation} (hs : Solvent s) (hauth : i.env.auth holder = false) :
    Respects holder s (machine.step i s) := by
  obtain ⟨-, u, hret⟩ | ⟨-, hsame⟩ := accepted_cases i s
  · exact invoke_respects hs hret hauth
  · rw [hsame]
    exact .refl holder s

end Quorum.Token

import Quorum.Governor.Admission
import Quorum.Governor.Facade
import Quorum.Governor.Independence
import Quorum.Governor.Phases

/-!
# Every trap has its cause

The fuzz targets of the contract demand that valid input never traps: a call may be refused with
an error of the contract, but a trap is a fault. `TrapCause` lists the traps that there are, apart
from a missing authorization of the call itself, and `traps_accounted` shows that the list is
complete: no arithmetic leaves its range, no entry is missing and no call of the token fails
otherwise. In particular `vote` never traps, `delegate` only if the call of the token is not
authorized with it, and `finalize` and `cancel` not as long as the governor still owns the deposits
it holds. `upgrade`, which puts other code in the place of this one, is not among the calls.
-/

namespace Quorum.Governor

open Foundation Contract

variable {s s' : System} {env : Env} {start now id : ℕ} {c : Call}

/-- A trap other than a missing authorization. -/
def Stopped : Failure GovernanceError → Prop
  | .trap t => t ≠ .auth
  | .error _ => False

/-- An error is no trap. -/
@[simp] theorem stopped_error {e : GovernanceError} : Stopped (.error e) ↔ False := Iff.rfl

/-- A missing authorization does not count as a trap here. -/
@[simp] theorem stopped_auth : Stopped (.trap .auth) ↔ False := iff_false_intro fun h => h rfl

/-- The calls that unwrap the configuration before anything is known about it. -/
def Call.unwraps : Call → Bool
  | .beginExecution .. | .transferAdmin _ | .acceptAdmin | .cancelAdminTransfer | .pause _
  | .unpause => true
  | _ => false

/-- What makes the host stop a call that is authorized itself: an unwrapped configuration that is
not there, an exhausted counter, a deposit that is locked, a call of the token that is not
authorized along with it, a deposit that the governor has spent, or a deadline beyond the last
ledger. -/
inductive TrapCause (env : Env) (s : System) : Call → Prop
  | unconfigured {c : Call} (hunwraps : c.unwraps = true) (hnone : s.governor.config = none) :
      TrapCause env s c
  | exhausted {c : Call} {proposer : Address} {conviction : Bool}
      (hopens : c.opens = some (proposer, conviction))
      (hfull : maxU64 ≤ getProposalCount s.governor) : TrapCause env s c
  | unfunded {c : Call} {proposer : Address} {conviction : Bool} {config : Config}
      (hopens : c.opens = some (proposer, conviction)) (hconfig : s.governor.config = some config)
      (hshown : config.proposalDeposit.val ≤ (Token.balance s.token proposer).val)
      (hlocked : unlocked s.token proposer < config.proposalDeposit.val) : TrapCause env s c
  | unsignedDeposit {c : Call} {proposer : Address} {conviction : Bool} {config : Config}
      (hopens : c.opens = some (proposer, conviction)) (hconfig : s.governor.config = some config)
      (hset : 0 < config.proposalDeposit.val) (hnested : env.nested proposer = false)
      (hother : proposer ≠ env.contract) : TrapCause env s c
  | unsignedDelegation {c : Call} {delegator delegatee : Address}
      (hcall : c = .delegate delegator delegatee ∨ c = .undelegate delegator ∧ delegatee = delegator)
      (hnested : env.nested delegator = false) (hother : delegator ≠ env.contract) :
      TrapCause env s c
  | unbacked {c : Call} {id : ℕ} {amount : I128} (hreleases : c.releases = true)
      (hnames : c.names = some id) (hheld : s.governor.deposit id = some amount)
      (hspent : unlocked s.token env.contract < amount.val) : TrapCause env s c
  | unending {c : Call} {id : ℕ} {p : Proposal} {config : Config}
      (hcall : (∃ executor, c = .beginExecution executor id) ∨ c = .markExpired id)
      (hconfig : s.governor.config = some config) (hstored : s.governor.proposal id = some p)
      (hqueued : p.status = .queued)
      (hlong : maxU32 < p.queueLedger + config.executionGracePeriod) : TrapCause env s c

/-! ## Payments -/

/-- Whatever a deposit is released for, the call is stopped only if the governor has spent it. -/
theorem release_stopped (pay : I128 → Token.TokenM Unit) {announce : I128 → Event}
    (h : (do
      let held ← takeDeposit id
      match held with
      | some amount => do
        callToken (pay amount)
        publish (announce amount)
      | none => pure () : GovernorM Unit).Fails Stopped s)
    (hpay : ∀ amount : I128, 0 < amount.val → amount.val ≤ unlocked s.token env.contract →
      (pay amount).Succeeds s.token) (hpositive : DepositsPositive s) :
    ∃ amount, s.governor.deposit id = some amount ∧ unlocked s.token env.contract < amount.val := by
  rcases fails_bind_iff.mp h with h | ⟨held, s₁, htake, h⟩
  · exact absurd h takeDeposit_fails
  · obtain ⟨rfl, rfl⟩ := takeDeposit_returns htake
    cases hheld : s.governor.deposit id with
    | none =>
      rw [hheld] at h
      exact absurd h (by simp)
    | some amount =>
      rw [hheld] at h
      refine ⟨amount, rfl, Int.not_le.mp fun hcovered => ?_⟩
      rcases fails_bind_iff.mp h with h | ⟨-, t, -, h⟩
      · exact h.not_succeeds_of_call (hpay amount (hpositive id amount hheld) hcovered)
      · exact absurd h (by simp)

/-- A forfeit traps only where the governor's free balance does not cover the deposit. -/
theorem forfeitDeposit_stopped {config : Config}
    (h : (forfeitDeposit env config id).Fails Stopped s)
    (hsound : Token.Sound env.sequence s.token) (hpositive : DepositsPositive s) :
    ∃ amount, s.governor.deposit id = some amount ∧ unlocked s.token env.contract < amount.val := by
  have hauth : (tokenEnv env config).auth env.contract = true := by simp [tokenEnv]
  exact release_stopped (fun amount => Token.burn (tokenEnv env config) env.contract amount) h
    (fun _ hpos hcovered => Token.burn_succeeds hsound hauth hpos hcovered) hpositive

/-- A refund traps only where the governor's free balance does not cover the deposit. -/
theorem refundDeposit_stopped {config : Config} {p : Proposal}
    (h : (refundDeposit env config p).Fails Stopped s)
    (hsound : Token.Sound env.sequence s.token) (hpositive : DepositsPositive s) :
    ∃ amount, s.governor.deposit p.id = some amount ∧
      unlocked s.token env.contract < amount.val := by
  have hauth : (tokenEnv env config).auth env.contract = true := by simp [tokenEnv]
  exact release_stopped
    (fun amount => Token.transfer (tokenEnv env config) env.contract p.proposer amount) h
    (fun _ hpos hcovered => Token.transfer_succeeds hsound hauth hpos hcovered) hpositive

/-! ## Calls that never trap -/

/-- The token always tells the weight of a voter. -/
def Tells (s : System) : Prop :=
  ∀ voter ledger, (Token.getPastVotes voter ledger).Succeeds s.token

/-- A vote does not trap, as long as the token tells its weight. -/
theorem vote_not_stopped {voter : Address} {support : ℕ} (htells : Tells s) :
    ¬ (vote env voter id support).Fails Stopped s := by
  intro h
  simp only [vote, requireAuth, fails_requireConfig_bind_iff, fails_demand_bind_iff,
    fails_rejectIf_bind_iff, fails_requireProposal_bind_iff, fails_read_bind_iff, stopped_error,
    stopped_auth, and_false, false_or] at h
  obtain ⟨config, -, -, -, p, -, -, -, -, -, h⟩ := h
  rcases fails_bind_iff.mp h with h | ⟨weight, s₁, -, h⟩
  · exact h.not_succeeds_of_call (htells voter p.snapshotLedger)
  · simp only [fails_rejectIf_bind_iff, fails_okOr_bind_iff, stopped_error, and_false,
      false_or] at h
    obtain ⟨-, q, -, r, -, h⟩ := h
    rcases fails_bind_iff.mp h with h | ⟨_, s₂, -, h⟩
    · exact (voteConviction_fails h).1
    · simp at h

/-- A delegation is stopped only if the call of the token is not authorized along with it. -/
theorem delegate_stopped {delegator delegatee : Address}
    (hsound : Token.Sound env.sequence s.token)
    (hfails : (delegate env delegator delegatee).Fails Stopped s) :
    env.nested delegator = false ∧ delegator ≠ env.contract := by
  by_contra hsigned
  have h := hfails
  simp only [delegate, requireAuth, fails_requireConfig_bind_iff, fails_demand_bind_iff,
    stopped_error, stopped_auth, and_false, false_or] at h
  obtain ⟨config, hconfig, hauth, -⟩ := h
  have hallowed : (tokenEnv env config).auth delegator = true := by
    rw [not_and_or, Bool.not_eq_false, not_not] at hsigned
    simpa [tokenEnv, hauth] using hsigned
  have hsound' : Token.Sound (tokenEnv env config).sequence s.token := hsound
  obtain ⟨⟨⟩, t, hret⟩ := token_delegate_succeeds delegatee hsound' hallowed
  obtain ⟨g, hg, -⟩ := delegate_facade_returns hconfig hauth hret
  exact Succeeds.not_fails ⟨_, _, hg⟩ hfails

/-! ## Calls that may trap -/

/-- An operation whose value is dropped fails as the operation does. -/
theorem discard_fails_iff {A : Type} {m : GovernorM A} {P : Failure GovernanceError → Prop} :
    (discard m).Fails P s ↔ m.Fails P s := by
  rw [discard, fails_bind_iff]
  simp

/-- The combined balance does not trap. -/
theorem combinedBalance_not_stopped {sponsors : List Address} {combined : I128} :
    ¬ (combinedBalance sponsors combined).Fails Stopped s := by
  induction sponsors generalizing combined with
  | nil => simp [combinedBalance]
  | cons sponsor rest ih => simp [combinedBalance, ih]

/-- Opening a proposal traps only for an exhausted counter, or for a deposit that is locked or
whose transfer is not authorized. -/
theorem openProposal_stopped {proposer : Address} {cosponsors : List Address}
    {title description metadataUri : Text} {conviction : Bool}
    (hsound : Token.Sound env.sequence s.token) (hindexed : Indexed s.governor)
    (h : (openProposal env proposer cosponsors title description metadataUri conviction).Fails
      Stopped s) :
    maxU64 ≤ getProposalCount s.governor ∨ ∃ config, s.governor.config = some config ∧
      (config.proposalDeposit.val ≤ (Token.balance s.token proposer).val ∧
          unlocked s.token proposer < config.proposalDeposit.val ∨
        0 < config.proposalDeposit.val ∧ env.nested proposer = false ∧
          proposer ≠ env.contract) := by
  simp only [openProposal, requireAuth, validateCosponsors_eq, requireAuths_eq,
    fails_requireConfig_bind_iff, fails_demand_bind_iff, fails_rejectIf_bind_iff,
    fails_read_bind_iff, fails_unwrap_bind_iff, fails_queryToken_bind_iff,
    checkedAddU64_eq_some, stopped_error, stopped_auth, and_false, false_or] at h
  obtain ⟨config, hconfig, hauth, -, -, -, -, -, -, -, ⟨hnone, -⟩ | ⟨newId, ⟨-, hid⟩, h⟩⟩ := h
  · refine .inl (Nat.not_lt.mp fun hroom => ?_)
    have hfits : s.governor.proposalCount.getD 0 + 1 ≤ maxU64 := hroom
    rw [checkedAddU64, if_pos hfits] at hnone
    contradiction
  · rcases fails_bind_iff.mp h with h | ⟨combined, s₁, hcombined, h⟩
    · exact absurd h combinedBalance_not_stopped
    · rw [combinedBalance_returns hcombined] at h
      simp only [fails_rejectIf_bind_iff, fails_queryToken_bind_iff, fails_okOr_bind_iff,
        fails_storeProposal_bind_iff, fails_store_bind_iff, stopped_error, and_false,
        false_or] at h
      obtain ⟨-, hshown, quorum, -, startLedger, -, endLedger, -, h⟩ := h
      refine .inr ⟨config, hconfig, ?_⟩
      by_contra hcause
      obtain ⟨hlocked, hunsigned⟩ := not_or.mp hcause
      have hpayable : Payable env proposer config s := by
        refine (payable_iff hsound).mpr fun hset => ⟨?_, ?_⟩
        · by_contra hnot
          obtain ⟨hmissing, hother⟩ := not_or.mp hnot
          exact hunsigned ⟨hset, Bool.not_eq_true _ ▸ fun hnested => hmissing ⟨hauth, hnested⟩,
            hother⟩
        · exact Int.not_lt.mp fun hlow => hlocked ⟨Int.not_lt.mp hshown, hlow⟩
      have hcount : (s.governor.proposerCount proposer).getD 0 < maxU64 :=
        (hindexed.proposerCount_le proposer).trans_lt hid
      refine Succeeds.not_fails ((writes_succeed_iff ?_).mpr ?_) h
      · exact hcount
      · exact hpayable

/-- Before the governor is configured nothing is stored. -/
theorem Indexed.none_of_blank {g : Storage} (h : Indexed g) (hzero : g.proposalCount.getD 0 = 0)
    (id : ℕ) : g.proposal id = none := by
  rw [← Option.not_isSome_iff_eq_none, h.stored id, getProposalCount, hzero]
  omega

/-- `finalize` traps only where the governor's free balance does not cover the deposit. -/
theorem finalize_stopped (hsound : Token.Sound env.sequence s.token)
    (hpositive : DepositsPositive s)
    (hids : ∀ id p, s.governor.proposal id = some p → p.id = id)
    (h : (finalize env id).Fails Stopped s) :
    ∃ amount, s.governor.deposit id = some amount ∧ unlocked s.token env.contract < amount.val := by
  simp only [finalize, fails_requireConfig_bind_iff, fails_requireProposal_bind_iff,
    fails_rejectIf_bind_iff, fails_okOr_bind_iff, fails_read_bind_iff, stopped_error, and_false,
    false_or] at h
  obtain ⟨config, -, p, hstored, -, -, total, -, h⟩ := h
  split at h
  · simp only [fails_okOr_bind_iff, fails_storeProposal_bind_iff, recordStatusChange,
      fails_updateStats_bind_iff, stopped_error, and_false, false_or] at h
    obtain ⟨queueLedger, -, h⟩ := h
    rcases fails_bind_iff.mp h with h | ⟨-, s₁, -, h⟩
    · have hcause := refundDeposit_stopped h hsound hpositive
      rwa [hids id p hstored] at hcause
    · simp at h
  · simp only [fails_storeProposal_bind_iff, recordStatusChange, fails_updateStats_bind_iff] at h
    rcases fails_bind_iff.mp h with h | ⟨-, s₁, -, h⟩
    · have hcause := forfeitDeposit_stopped h hsound hpositive
      exact hcause
    · simp at h

/-- `cancel` traps only where the governor's free balance does not cover the deposit. -/
theorem cancel_stopped {caller : Address} (hsound : Token.Sound env.sequence s.token)
    (hpositive : DepositsPositive s) (h : (cancel env caller id).Fails Stopped s) :
    ∃ amount, s.governor.deposit id = some amount ∧ unlocked s.token env.contract < amount.val := by
  simp only [cancel, requireAuth, fails_requireConfig_bind_iff, fails_demand_bind_iff,
    fails_requireProposal_bind_iff, fails_rejectIf_bind_iff, fails_storeProposal_bind_iff,
    stopped_error, stopped_auth, and_false, false_or] at h
  obtain ⟨config, -, -, p, -, -, -, h⟩ := h
  rcases fails_bind_iff.mp h with h | ⟨-, s₁, -, h⟩
  · have hcause := forfeitDeposit_stopped h hsound hpositive
    exact hcause
  · simp at h

/-- `execute` traps before its actions only without a configuration or past the last deadline of 32
bits. -/
theorem beginExecution_stopped {executor : Address}
    (h : (beginExecution env executor id).Fails Stopped s) :
    s.governor.config = none ∨ ∃ p config, s.governor.config = some config ∧
      s.governor.proposal id = some p ∧ p.status = .queued ∧
      maxU32 < p.queueLedger + config.executionGracePeriod := by
  simp only [beginExecution, requireAuth, fails_demand_bind_iff, fails_getConfig_bind_iff,
    fails_rejectIf_bind_iff, fails_requireProposal_bind_iff, fails_unwrap_bind_iff,
    fails_read_bind_iff, fails_storeProposal_bind_iff, fails_pure_iff, checkedAddU32_eq_none,
    stopped_error, stopped_auth, and_false, false_or, or_false, exists_false] at h
  obtain ⟨-, ⟨hnone, -⟩ | ⟨config, hconfig, -, p, hstored, hqueued, -, -, hlong, -⟩⟩ := h
  · exact .inl hnone
  · exact .inr ⟨p, config, hconfig, hstored, not_not.mp hqueued, hlong⟩

/-- `mark_expired` traps only past the last deadline of 32 bits. -/
theorem markExpired_stopped (hnone : s.governor.config = none → s.governor.proposal id = none)
    (h : (markExpired env id).Fails Stopped s) :
    ∃ p config, s.governor.config = some config ∧ s.governor.proposal id = some p ∧
      p.status = .queued ∧ maxU32 < p.queueLedger + config.executionGracePeriod := by
  simp only [markExpired, recordStatusChange, fails_requireProposal_bind_iff,
    fails_rejectIf_bind_iff, fails_getConfig_bind_iff, fails_unwrap_bind_iff,
    fails_storeProposal_bind_iff, checkedAddU32_eq_none, stopped_error, and_false, false_or] at h
  obtain ⟨p, hstored, hqueued, ⟨hblank, -⟩ | ⟨config, hconfig, ⟨hlong, -⟩ | ⟨_, -, -, h⟩⟩⟩ := h
  · rw [hnone hblank] at hstored
    contradiction
  · exact ⟨p, config, hconfig, hstored, not_not.mp hqueued, hlong⟩
  · exact absurd h fails_store_iff.mp

/-- Every call that is stopped has one of the causes. -/
theorem invoke_stopped (hsound : Token.Sound env.sequence s.token) (hindexed : Indexed s.governor)
    (htells : Tells s) (hpositive : DepositsPositive s)
    (hids : ∀ id p, s.governor.proposal id = some p → p.id = id)
    (hblank : Blank s) (h : (invoke env c).Fails Stopped s) : TrapCause env s c := by
  cases c with
  | initializeGovernor =>
    exact absurd h (by simp [invoke, initializeGovernor, requireAuth, storeConfig])
  | createProposal | createCosponsoredProposal | createConvictionProposal =>
    rcases openProposal_stopped hsound hindexed (discard_fails_iff.mp h) with
      hfull | ⟨config, hconfig, ⟨hshown, hlocked⟩ | ⟨hset, hnested, hother⟩⟩
    · exact .exhausted rfl hfull
    · exact .unfunded rfl hconfig hshown hlocked
    · exact .unsignedDeposit rfl hconfig hset hnested hother
  | vote => exact absurd h (vote_not_stopped htells)
  | delegate delegator delegatee =>
    obtain ⟨hnested, hother⟩ := delegate_stopped hsound h
    exact .unsignedDelegation (.inl rfl) hnested hother
  | undelegate delegator =>
    obtain ⟨hnested, hother⟩ := delegate_stopped hsound h
    exact .unsignedDelegation (.inr ⟨rfl, rfl⟩) hnested hother
  | finalize id =>
    obtain ⟨amount, hheld, hspent⟩ :=
      finalize_stopped hsound hpositive hids (discard_fails_iff.mp h)
    exact .unbacked rfl rfl hheld hspent
  | cancel caller id =>
    obtain ⟨amount, hheld, hspent⟩ := cancel_stopped hsound hpositive h
    exact .unbacked rfl rfl hheld hspent
  | beginExecution executor id =>
    rcases beginExecution_stopped (discard_fails_iff.mp h) with
      hnone | ⟨p, config, hconfig, hstored, hqueued, hlong⟩
    · exact .unconfigured rfl hnone
    · exact .unending (.inl ⟨executor, rfl⟩) hconfig hstored hqueued hlong
  | markExpired id =>
    obtain ⟨p, config, hconfig, hstored, hqueued, hlong⟩ :=
      markExpired_stopped (fun hnone => hindexed.none_of_blank (hblank hnone) id) h
    exact .unending (.inr rfl) hconfig hstored hqueued hlong
  | transferAdmin | cancelAdminTransfer | pause | unpause | acceptAdmin =>
    refine .unconfigured rfl ?_
    by_contra hsome
    simp [invoke, transferAdmin, cancelAdminTransfer, pause, unpause, acceptAdmin, requireAuth,
      storeConfig, hsome] at h
  | endExecution | veto | setProposalAction | allowTarget | disallowTarget | setProposalDeposit
  | setProposerCooldown | setGuardian | extendProposalTtl =>
    exact absurd h (by simp [invoke, endExecution, veto, setProposalAction, allowTarget,
      disallowTarget, setTargetAllowed, setProposalDeposit, setProposerCooldown, setGuardian,
      extendProposalTtl, requireAuth, storeConfig])

/-! ## Every reachable state -/

/-- In every reachable state a call that is authorized itself traps only for one of the causes.
As long as nobody diverts tokens of the governor, finalizing and cancelling never trap at all. -/
theorem traps_accounted {calls : List Invocation} (hcalls : machine.Scheduled start now calls)
    (hnow : now ≤ env.sequence) (c : Call) {t : Trap}
    (htrap : ((invoke env c).run (machine.run System.empty calls)).1 = .error (.trap t))
    (hauth : t ≠ .auth) :
    TrapCause env (machine.run System.empty calls) c ∧
      (Undiverted env.contract System.empty calls → c.releases = false) := by
  have hsound := (token_sound hcalls).mono hnow
  have htells : Tells (machine.run System.empty calls) := by
    intro voter ledger
    obtain ⟨weight, hret, -⟩ := getPastVotes_run_eq_ite hcalls voter ledger
    exact ⟨weight, _, hret⟩
  have hwellFormed := wellFormed_run hcalls
  have hcause := invoke_stopped hsound (Indexed.run hcalls) htells (depositsPositive_run hcalls)
    hwellFormed.ids hwellFormed.blank ⟨.trap t, htrap, hauth⟩
  refine ⟨hcause, fun hundiverted => ?_⟩
  have hguarded := (Guarded.empty env.contract start).run hcalls hundiverted
  cases hcause with
  | unconfigured hunwraps => cases c <;> first | rfl | contradiction
  | exhausted hopens | unfunded hopens | unsignedDeposit hopens =>
    cases c <;> first | rfl | contradiction
  | unsignedDelegation hcall => rcases hcall with rfl | ⟨rfl, -⟩ <;> rfl
  | unending hcall => rcases hcall with ⟨executor, rfl⟩ | rfl <;> rfl
  | @unbacked id amount _ _ hheld hspent =>
    obtain ⟨hactive, -⟩ := hguarded.custody.active id amount hheld
    obtain ⟨p, hp, -⟩ := Option.map_eq_some_iff.mp hactive
    obtain ⟨config, -, -⟩ := (hwellFormed.proposals id p hp).endLedger
    have hpays : (payBack env config p.proposer amount).Succeeds _ ∧
        (payOff env config amount).Succeeds _ := hguarded.pays hnow hheld
    obtain ⟨-, u, t, hpaid⟩ := hpays
    obtain ⟨-, -, rest, supply, s₁, hcovered, -⟩ := Token.burn_returns hpaid
    exact absurd hcovered (Int.not_le.mpr hspent)

/-- Opening a proposal under a locked deposit is such a case. -/
theorem traps_accounted_locked :
    TrapCause (.authorized 5) (machine.run System.empty lockedDepositCalls)
      (.createProposal (.account 1) [84] [] []) := by
  have hcalls : machine.Scheduled 0 5 lockedDepositCalls := by decide
  have hnow : 5 ≤ (Env.authorized 5).sequence := le_rfl
  have htrap : ((invoke (.authorized 5) (.createProposal (.account 1) [84] [] [])).run
      (machine.run System.empty lockedDepositCalls)).1 = .error (.trap .call) := by decide
  exact (traps_accounted hcalls hnow _ htrap (by decide)).1

end Quorum.Governor

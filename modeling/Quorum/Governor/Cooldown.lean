import Quorum.Foundation.Stamp
import Quorum.Governor.Admission

/-!
# The wait between two proposals

The governor keeps for every proposer the ledger of the latest proposal, a stamp that the
proposer's own accepted constructors set and nothing else touches. So an accepted constructor
comes late enough after every earlier one of the same proposer, and one that is refused for coming
too early comes too early after one of them.
-/

namespace Quorum.Governor

open Foundation Contract

variable {s s' : System} {env : Env} {start now : ℕ}

/-- The call opens a proposal for `proposer`. -/
def OpensFor (proposer : Address) (i : Invocation) (s : System) : Prop :=
  ∃ env c conviction, i = .governor env c ∧ c.opens = some (proposer, conviction) ∧
    Accepted env c s

/-- The ledger of a proposer's latest proposal is a stamp. -/
theorem stamps_lastProposal (proposer : Address) : machine.Stamps WellFormed
    (fun s => s.governor.lastProposal proposer) (OpensFor proposer) where
  mono _ _ _ h hle := h.mono hle
  step i _ h := h.step (machine_step h.blank i)
  set i s h hopens := by
    obtain ⟨env, c, conviction, rfl, hopens, haccepted⟩ := hopens
    obtain ⟨_, p, hopened, hfiles⟩ := (invoke_outcome haccepted.returns).opens hopens
    rw [hfiles.lastProposal, hopened.proposer, Function.update_self]
    rfl
  kept i s h hnot := by
    rcases step_files h.blank i with hrefiles | ⟨env, c, conviction, p, rfl, hopens, haccepted, hfiles⟩
    · rw [hrefiles.lastProposal]
    · have hne : proposer ≠ p.proposer := by
        rintro rfl
        exact hnot ⟨env, c, conviction, rfl, hopens, haccepted⟩
      rw [hfiles.lastProposal, Function.update_of_ne hne]

/-! ## Refusals -/

/-- Adding up balances fails only by an overflow. -/
theorem combinedBalance_not_fail {codes : List GovernanceError} (hcodes : .overflow ∉ codes)
    {cosponsors : List Address} {combined : I128} :
    ¬ (combinedBalance cosponsors combined).Fails (Failure.IsOneOf codes) s := by
  induction cosponsors generalizing combined with
  | nil => exact fails_pure_iff.mp
  | cons sponsor rest ih =>
    rw [combinedBalance, fails_queryToken_bind_iff, fails_okOr_bind_iff]
    rintro (⟨-, hin⟩ | ⟨next, -, h⟩)
    · exact hcodes hin
    · exact ih h

/-- A constructor is refused for its proposer's cooldown only where the check finds the proposer
waiting. -/
theorem onCooldown_of_refused {c : Call} {proposer : Address} {conviction : Bool}
    (hopens : c.opens = some (proposer, conviction))
    (h : ((invoke env c).run s).1 = .error (.error .proposerOnCooldown)) :
    ∃ config, s.governor.config = some config ∧
      onCooldown env config (s.governor.lastProposal proposer) = true := by
  have hfails : (invoke env c).Fails (Failure.IsOneOf [.proposerOnCooldown]) s :=
    ⟨_, h, List.mem_singleton_self _⟩
  have hoverflow : GovernanceError.overflow ∉ [GovernanceError.proposerOnCooldown] := by decide
  rw [invoke_eq_openProposal hopens, discard, fails_bind_iff] at hfails
  simp only [fails_pure_iff, and_false, exists_false, or_false, openProposal, requireAuth,
    validateCosponsors_eq, requireAuths_eq, fails_requireConfig_bind_iff, fails_demand_bind_iff,
    fails_rejectIf_bind_iff, fails_read_bind_iff, fails_unwrap_bind_iff, fails_queryToken_bind_iff,
    Failure.isOneOf_trap, Failure.isOneOf_error, List.mem_singleton, reduceCtorEq, false_or,
    and_true] at hfails
  obtain ⟨config, hconfig, -, -, -, -, -, -, -, hwaiting | ⟨-, id, -, hlater⟩⟩ := hfails
  · exact ⟨config, hconfig, hwaiting⟩
  · rcases fails_bind_iff.mp hlater with hsum | ⟨sum, s₁, -, hlater⟩
    · exact absurd hsum (combinedBalance_not_fail hoverflow)
    · simp only [fails_rejectIf_bind_iff, fails_queryToken_bind_iff, fails_okOr_bind_iff,
        fails_storeProposal_bind_iff, fails_store_bind_iff, writes_not_fail,
        Failure.isOneOf_error, List.mem_singleton, reduceCtorEq, and_false, exists_false,
        or_self] at hlater

/-! ## The wait over a run -/

/-- Between two accepted constructors of one proposer lies the cooldown in force at the second, up to
the end of the ledger range. A constructor is refused for the cooldown only where it follows an
accepted one of the same proposer too closely, and a refused one leaves everything as it was. -/
theorem cooldown_over_runs {calls : List Invocation} (hcalls : machine.Scheduled start now calls)
    (proposer : Address) :
    (∀ first i middle env c later conviction config,
      calls = first ++ i :: (middle ++ .governor env c :: later) →
      let s := machine.run System.empty (first ++ i :: middle)
      OpensFor proposer i (machine.run System.empty first) →
      c.opens = some (proposer, conviction) → Accepted env c s →
      s.governor.config = some config →
        min (i.sequence + config.proposerCooldown) maxU32 ≤ env.sequence) ∧
      ∀ first env c later conviction, calls = first ++ .governor env c :: later →
        let s := machine.run System.empty first
        c.opens = some (proposer, conviction) →
          (((invoke env c).run s).1 = .error (.error .proposerOnCooldown) →
            ∃ config before i middle, s.governor.config = some config ∧
              first = before ++ i :: middle ∧ OpensFor proposer i (machine.run System.empty before) ∧
              env.sequence < min (i.sequence + config.proposerCooldown) maxU32) ∧
          (¬ Accepted env c s → machine.step (.governor env c) s = s) := by
  have hstamps := stamps_lastProposal proposer
  constructor
  · intro first i middle env c later conviction config heq s hi hopens haccepted hconfig
    rw [heq, ← List.cons_append, ← List.append_assoc] at hcalls
    obtain ⟨hsched, -⟩ := hcalls.of_append
    obtain ⟨last, hlast, hle⟩ := hstamps.le_stamp (.empty start) hsched hi
    have hscreened := ((accepted_iff (receptive_run hsched hconfig) hopens).mp haccepted).1
    have hrested := onCooldown_eq_false.mp hscreened.presented.rested last hlast
    exact le_trans (min_le_min_right _ (Nat.add_le_add_right hle _)) hrested
  · intro first env c later conviction heq s hopens
    refine ⟨fun hrefused => ?_, step_eq_of_not_accepted⟩
    rw [heq] at hcalls
    obtain ⟨hsched, -⟩ := hcalls.of_append
    obtain ⟨config, hconfig, hwaiting⟩ := onCooldown_of_refused hopens hrefused
    rw [← Bool.not_eq_false, onCooldown_eq_false] at hwaiting
    push Not at hwaiting
    obtain ⟨last, hlast, hlt⟩ := hwaiting
    obtain ⟨before, i, middle, hfirst, hi, rfl⟩ :=
      hstamps.exists_of_stamp (.empty start) rfl hsched hlast
    exact ⟨config, before, i, middle, hconfig, hfirst, hi, hlt⟩

/-- A second proposal of one holder ten ledgers after the first, with an attempt in between. -/
def cooldownCalls : List Invocation :=
  launchCalls 3 ++ [.governor (.authorized 2) (.setProposerCooldown 10),
    .governor (.authorized 5) (.createProposal (.account 1) [84] [] []),
    .governor (.authorized 6) (.createProposal (.account 1) [85] [] []),
    .governor (.authorized 15) (.createProposal (.account 1) [86] [] [])]

/-- An attempt within the cooldown is refused, and the next opening comes after it. -/
theorem cooldown_over_runs_attempt :
    let s := machine.run System.empty (cooldownCalls.take 4)
    let attempt := Call.createProposal (.account 1) [85] [] []
    min (5 + 10) maxU32 ≤ 15 ∧ machine.step (.governor (.authorized 6) attempt) s = s := by
  intro s attempt
  have hcalls : machine.Scheduled 0 15 cooldownCalls := by decide
  obtain ⟨hwait, hrefuse⟩ := cooldown_over_runs hcalls (.account 1)
  have hopened : OpensFor (.account 1)
      (.governor (.authorized 5) (.createProposal (.account 1) [84] [] []))
      (machine.run System.empty (cooldownCalls.take 3)) := ⟨_, _, _, rfl, rfl, by decide⟩
  constructor
  · exact hwait (cooldownCalls.take 3) _ [.governor (.authorized 6) attempt] (.authorized 15)
      (.createProposal (.account 1) [86] [] []) [] false _ rfl hopened rfl (by decide) rfl
  · exact (hrefuse (cooldownCalls.take 4) (.authorized 6) attempt (cooldownCalls.drop 5) false rfl
      rfl).2 (by decide)

end Quorum.Governor

import Quorum.Governor.Capacity

/-!
# Three views of the quorum

The quorum of a proposal is compared with its tallies when it is finalized, by a view that answers
yes or no, and by a view that reports the share that has voted. The last one multiplies before it
divides, so it needs more room than the comparisons do; where it has that room the three agree.
-/

namespace Quorum.Governor

open Foundation Contract

variable {s s' : System} {env : Env} {start now id : ℕ} {p : Proposal}

/-! ## The views -/

/-- Ceiling of `getQuorumProgress`, in basis points. -/
def maxQuorumProgressBps : ℕ := 10000

/-- `u32::try_from`. -/
def toU32 (x : ℤ) : Option ℕ := if 0 ≤ x ∧ x ≤ maxU32 then some x.toNat else none

/-- Whether a proposal has reached its quorum. -/
def hasReachedQuorum (proposalId : ℕ) : GovernorM Bool := do
  let proposal ← requireProposal proposalId
  let total ← okOr (totalVotes proposal) .overflow
  pure (decide (proposal.quorumRequired.val ≤ total.val))

/-- The share of the quorum that has voted so far, in basis points. -/
def getQuorumProgress (proposalId : ℕ) : GovernorM ℕ := do
  let proposal ← requireProposal proposalId
  if proposal.quorumRequired.val ≤ 0 then pure maxQuorumProgressBps
  else do
    let total ← okOr (totalVotes proposal) .overflow
    let scaled ← okOr (total.checkedMul bpsDenominator) .overflow
    let progress ← unwrap (scaled.checkedDiv proposal.quorumRequired) .arithmetic
    okOr (toU32 (min progress.val maxQuorumProgressBps)) .overflow

/-! ## The tallies of a proposal -/

/-- The sum of the three tallies. -/
def turnout (p : Proposal) : ℤ := p.forVotes.val + p.againstVotes.val + p.abstainVotes.val

/-- In every reachable state the tallies of a proposal are not negative. -/
theorem tally_nonneg_run {calls : List Invocation} (hcalls : machine.Scheduled start now calls)
    (hstored : (machine.run System.empty calls).governor.proposal id = some p) {support : ℕ}
    (hsupport : support ≤ 2) : 0 ≤ (p.tally support).val := by
  obtain ⟨σ, hσ⟩ := polled hcalls p hstored
  exact hσ.tally_nonneg hsupport

/-- Without negative tallies the turnout is not negative. -/
theorem turnout_nonneg (hnonneg : ∀ support ≤ 2, 0 ≤ (p.tally support).val) : 0 ≤ turnout p := by
  have hagainst : 0 ≤ p.againstVotes.val := hnonneg 0 (by decide)
  have hfor : 0 ≤ p.forVotes.val := hnonneg 1 (by decide)
  have habstain : 0 ≤ p.abstainVotes.val := hnonneg 2 (by decide)
  unfold turnout
  omega

/-- Tallies that are not negative add up to their exact sum, wherever it fits. -/
theorem totalVotes_eq_some_iff (hnonneg : ∀ support ≤ 2, 0 ≤ (p.tally support).val) {total : I128} :
    totalVotes p = some total ↔ total.val = turnout p := by
  constructor
  · exact totalVotes_eq_some
  · intro htotal
    obtain ⟨sum, hsum⟩ := exists_totalVotes hnonneg (htotal.symm.le.trans total.upper)
    rw [hsum, Option.some.injEq, I128.ext_iff, totalVotes_eq_some hsum, htotal, turnout]

/-- The comparison that decides about the quorum. -/
def QuorumChecked (p : Proposal) : Prop :=
  ∃ total, totalVotes p = some total ∧ p.quorumRequired.val ≤ total.val

/-- A proposal with a majority is queued exactly if this comparison holds. -/
theorem finalize_quorumChecked {status : ProposalStatus}
    (hstored : s.governor.proposal id = some p)
    (hmajority : majorityFor p (s.governor.conviction id) = true)
    (h : (finalize env id).Returns s status s') : status = .queued ↔ QuorumChecked p := by
  obtain ⟨houtcome, p', hp', rfl⟩ := finalize_returns h
  cases houtcome with
  | queued _ hstored' _ _ htotal hquorum =>
    obtain rfl := Option.some.inj (hstored.symm.trans hstored')
    dsimp only at hp'
    rw [Function.update_self] at hp'
    obtain rfl := Option.some.inj hp'
    exact iff_of_true rfl ⟨_, htotal, hquorum⟩
  | failed _ hstored' _ _ htotal hlost =>
    obtain rfl := Option.some.inj (hstored.symm.trans hstored')
    dsimp only at hp'
    rw [Function.update_self] at hp'
    obtain rfl := Option.some.inj hp'
    apply iff_of_false (by simp)
    rintro ⟨total, htotal', hquorum⟩
    obtain rfl := Option.some.inj (htotal.symm.trans htotal')
    exact hlost ⟨hquorum, hmajority⟩
  | opened hopens => contradiction
  | delegated hcall => simp at hcall
  | targetSet hcall => simp at hcall
  | nominated hcall => simp at hcall

/-! ## What the views return -/

/-- A number converts to 32 bits exactly when it fits them. -/
theorem toU32_eq_some {x : ℤ} {n : ℕ} : toU32 x = some n ↔ x = n ∧ n ≤ maxU32 := by
  unfold toU32
  split
  · rw [Option.some.injEq]
    omega
  · simp only [reduceCtorEq, false_iff]
    omega

/-- `has_reached_quorum` returns exactly where the turnout can be added up, and compares it. -/
theorem hasReachedQuorum_returns_iff {reached : Bool} (hstored : s.governor.proposal id = some p)
    (hnonneg : ∀ support ≤ 2, 0 ≤ (p.tally support).val) :
    (hasReachedQuorum id).Returns s reached s' ↔ turnout p ≤ maxI128 ∧
      reached = decide (p.quorumRequired.val ≤ turnout p) ∧ s' = s := by
  rw [hasReachedQuorum, returns_requireProposal_bind_iff]
  simp only [hstored, Option.some.injEq, exists_eq_left', returns_okOr_bind_iff, returns_pure_iff,
    totalVotes_eq_some_iff hnonneg]
  constructor
  · rintro ⟨total, htotal, rfl, rfl⟩
    exact ⟨htotal ▸ total.upper, by rw [htotal], rfl⟩
  · rintro ⟨hfits, rfl, rfl⟩
    obtain ⟨total, htotal⟩ := exists_totalVotes hnonneg hfits
    rw [totalVotes_eq_some_iff hnonneg] at htotal
    exact ⟨total, htotal, by rw [htotal], rfl⟩

/-- `get_quorum_progress` returns exactly where the scaled turnout can be computed, or no quorum is
required. -/
theorem getQuorumProgress_returns_iff {progress : ℕ} (hstored : s.governor.proposal id = some p)
    (hnonneg : ∀ support ≤ 2, 0 ≤ (p.tally support).val) :
    (getQuorumProgress id).Returns s progress s' ↔ s' = s ∧
      (p.quorumRequired.val ≤ 0 ∧ progress = maxQuorumProgressBps ∨ 0 < p.quorumRequired.val ∧
        10000 * turnout p ≤ maxI128 ∧
          (progress : ℤ) = min (10000 * turnout p / p.quorumRequired.val) 10000) := by
  have hturnout := turnout_nonneg hnonneg
  have hmin := I128.minI128_nonpos
  rw [getQuorumProgress, returns_requireProposal_bind_iff]
  simp only [hstored, Option.some.injEq, exists_eq_left']
  by_cases hquorum : p.quorumRequired.val ≤ 0
  · rw [if_pos hquorum, returns_pure_iff]
    constructor
    · rintro ⟨rfl, rfl⟩
      exact ⟨rfl, .inl ⟨hquorum, rfl⟩⟩
    · rintro ⟨rfl, ⟨-, rfl⟩ | ⟨hpos, -⟩⟩
      · exact ⟨rfl, rfl⟩
      · omega
  · rw [if_neg hquorum]
    have hdenominator : bpsDenominator.val = 10000 := rfl
    have hzero : ¬ p.quorumRequired.val = 0 := by omega
    have hscaled : 0 ≤ 10000 * turnout p := by omega
    simp only [returns_okOr_bind_iff, returns_unwrap_bind_iff, returns_okOr_iff,
      totalVotes_eq_some_iff hnonneg, I128.checkedMul, I128.checkedDiv, if_neg hzero,
      I128.ofInt?_eq_some, toU32_eq_some, hdenominator]
    constructor
    · rintro ⟨total, htotal, scaled, hmul, quotient, hdiv, ⟨hcapped, -⟩, rfl⟩
      rw [htotal, mul_comm] at hmul
      rw [← hmul, Int.tdiv_eq_ediv_of_nonneg hscaled] at hdiv
      refine ⟨rfl, .inr ⟨by omega, hmul ▸ scaled.upper, ?_⟩⟩
      rw [← hcapped, hdiv]
      rfl
    · rintro ⟨rfl, ⟨hnot, -⟩ | ⟨hpos, hfits, hprogress⟩⟩
      · omega
      · obtain ⟨total, htotal⟩ := exists_totalVotes hnonneg (show turnout p ≤ maxI128 by omega)
        rw [totalVotes_eq_some_iff hnonneg] at htotal
        obtain ⟨scaled, -, hmul⟩ := I128.exists_ofInt? (x := 10000 * turnout p) (by omega) hfits
        have hquotient : 0 ≤ 10000 * turnout p / p.quorumRequired.val :=
          Int.ediv_nonneg hscaled hpos.le
        obtain ⟨quotient, -, hdiv⟩ := I128.exists_ofInt?
          (x := 10000 * turnout p / p.quorumRequired.val) (by omega)
          ((Int.ediv_le_self _ hscaled).trans hfits)
        refine ⟨total, htotal, scaled, by rw [htotal, hmul, mul_comm], quotient, ?_,
          ⟨?_, ?_⟩, rfl⟩
        · rw [hmul, Int.tdiv_eq_ediv_of_nonneg hscaled, hdiv]
        · rw [hdiv, hprogress]
          rfl
        · have : (maxU32 : ℤ) = 4294967295 := rfl
          omega

/-! ## Where the views agree -/

/-- The two views and the check of `finalize` agree on a proposal. -/
structure ViewsAgree (id : ℕ) (p : Proposal) (s : System) : Prop where
  full : (∃ s', (hasReachedQuorum id).Returns s true s') ↔
    ∃ s', (getQuorumProgress id).Returns s maxQuorumProgressBps s'
  checked : (∃ s', (hasReachedQuorum id).Returns s true s') ↔ QuorumChecked p
  share : ∀ reached s', (hasReachedQuorum id).Returns s reached s' →
    ∃ progress, (getQuorumProgress id).Returns s progress s' ∧
      (p.quorumRequired.val ≤ 0 → progress = maxQuorumProgressBps) ∧ (0 < p.quorumRequired.val →
        (progress : ℤ) = min 10000 (10000 * turnout p / p.quorumRequired.val))

/-- The whole share is reported exactly where the quorum is reached. -/
theorem le_share_iff {total quorum : ℤ} (hquorum : 0 < quorum) :
    10000 ≤ 10000 * total / quorum ↔ quorum ≤ total := by
  rw [Int.le_ediv_iff_mul_le hquorum]
  omega

/-- The check of `finalize` is met exactly by a turnout that can be added up and reaches the
quorum. -/
theorem quorumChecked_iff (hnonneg : ∀ support ≤ 2, 0 ≤ (p.tally support).val) :
    QuorumChecked p ↔ turnout p ≤ maxI128 ∧ p.quorumRequired.val ≤ turnout p := by
  unfold QuorumChecked
  simp only [totalVotes_eq_some_iff hnonneg]
  constructor
  · rintro ⟨total, htotal, hquorum⟩
    exact ⟨htotal ▸ total.upper, htotal ▸ hquorum⟩
  · rintro ⟨hfits, hquorum⟩
    obtain ⟨total, htotal⟩ := exists_totalVotes hnonneg hfits
    rw [totalVotes_eq_some_iff hnonneg] at htotal
    exact ⟨total, htotal, htotal ▸ hquorum⟩

/-- `has_reached_quorum` says yes exactly on a turnout that can be added up and reaches the
quorum. -/
theorem reached_iff (hstored : s.governor.proposal id = some p)
    (hnonneg : ∀ support ≤ 2, 0 ≤ (p.tally support).val) :
    (∃ s', (hasReachedQuorum id).Returns s true s') ↔
      turnout p ≤ maxI128 ∧ p.quorumRequired.val ≤ turnout p := by
  simp only [hasReachedQuorum_returns_iff hstored hnonneg, eq_comm (a := true), decide_eq_true_eq]
  constructor
  · rintro ⟨s', hfits, hquorum, -⟩
    exact ⟨hfits, hquorum⟩
  · rintro ⟨hfits, hquorum⟩
    exact ⟨s, hfits, hquorum, rfl⟩

/-- The progress is full exactly where the quorum is reached and the scaled turnout can be
computed. -/
theorem full_iff (hstored : s.governor.proposal id = some p)
    (hnonneg : ∀ support ≤ 2, 0 ≤ (p.tally support).val) :
    (∃ s', (getQuorumProgress id).Returns s maxQuorumProgressBps s') ↔
      p.quorumRequired.val ≤ 0 ∨ 0 < p.quorumRequired.val ∧ 10000 * turnout p ≤ maxI128 ∧
        p.quorumRequired.val ≤ turnout p := by
  have hcast : (maxQuorumProgressBps : ℤ) = 10000 := rfl
  simp only [getQuorumProgress_returns_iff hstored hnonneg, hcast]
  constructor
  · rintro ⟨s', -, ⟨hquorum, -⟩ | ⟨hpos, hfits, hprogress⟩⟩
    · exact .inl hquorum
    · exact .inr ⟨hpos, hfits, (le_share_iff hpos).mp (by omega)⟩
  · rintro (hquorum | ⟨hpos, hfits, hquorum⟩)
    · exact ⟨s, rfl, .inl ⟨hquorum, trivial⟩⟩
    · exact ⟨s, rfl, .inr ⟨hpos, hfits, (min_eq_right ((le_share_iff hpos).mpr hquorum)).symm⟩⟩

/-- The views agree on a proposal exactly if its tallies can be scaled wherever they can be added
up, and can be added up where no quorum is required. -/
theorem quorum_views_iff {calls : List Invocation} (hcalls : machine.Scheduled start now calls)
    (hstored : (machine.run System.empty calls).governor.proposal id = some p) :
    ViewsAgree id p (machine.run System.empty calls) ↔
      (p.quorumRequired.val ≤ 0 → turnout p ≤ maxI128) ∧
        (0 < p.quorumRequired.val → turnout p ≤ maxI128 → 10000 * turnout p ≤ maxI128) := by
  have hnonneg : ∀ support ≤ 2, 0 ≤ (p.tally support).val :=
    fun support hsupport => tally_nonneg_run hcalls hstored hsupport
  have hturnout := turnout_nonneg hnonneg
  have hreached := reached_iff hstored hnonneg
  have hfull := full_iff hstored hnonneg
  generalize machine.run System.empty calls = s at *
  constructor
  · intro h
    constructor
    · intro hquorum
      exact (hreached.mp (h.full.mpr (hfull.mpr (.inl hquorum)))).1
    · intro hpos hfits
      have hreturns := (hasReachedQuorum_returns_iff hstored hnonneg).mpr ⟨hfits, rfl, rfl⟩
      obtain ⟨progress, hprogress, -⟩ := h.share _ _ hreturns
      rcases ((getQuorumProgress_returns_iff hstored hnonneg).mp hprogress).2 with
        ⟨hquorum, -⟩ | ⟨-, hscaled, -⟩
      · omega
      · exact hscaled
  · rintro ⟨hnone, hscaled⟩
    refine ⟨?_, hreached.trans (quorumChecked_iff hnonneg).symm, ?_⟩
    · rw [hreached, hfull]
      constructor
      · rintro ⟨hfits, hquorum⟩
        rcases Int.lt_or_le 0 p.quorumRequired.val with hpos | hzero
        · exact .inr ⟨hpos, hscaled hpos hfits, hquorum⟩
        · exact .inl hzero
      · rintro (hzero | ⟨hpos, hfits, hquorum⟩)
        · exact ⟨hnone hzero, hzero.trans hturnout⟩
        · exact ⟨by omega, hquorum⟩
    · intro reached s' hreturns
      obtain ⟨hfits, -, rfl⟩ := (hasReachedQuorum_returns_iff hstored hnonneg).mp hreturns
      rcases Int.lt_or_le 0 p.quorumRequired.val with hpos | hzero
      · have hshare : 0 ≤ min 10000 (10000 * turnout p / p.quorumRequired.val) :=
          le_min (by decide) (Int.ediv_nonneg (by omega) hpos.le)
        obtain ⟨progress, hprogress⟩ := Int.eq_ofNat_of_zero_le hshare
        refine ⟨progress, (getQuorumProgress_returns_iff hstored hnonneg).mpr
          ⟨rfl, .inr ⟨hpos, hscaled hpos hfits, ?_⟩⟩,
          fun hzero => absurd hpos (Int.not_lt.mpr hzero), fun _ => hprogress.symm⟩
        rw [← hprogress, min_comm]
      · exact ⟨_, (getQuorumProgress_returns_iff hstored hnonneg).mpr ⟨rfl, .inl ⟨hzero, rfl⟩⟩,
          fun _ => rfl, fun hpos => absurd hpos (Int.not_lt.mpr hzero)⟩

/-- All of a supply of `supply` votes For, on a quorum of one basis point. -/
def wholeSupplyCalls (supply : I128) : List Invocation :=
  [.token ⟨.authorized 1, .initializeToken (.account 1) [] [] 7 supply⟩,
    .governor (.authorized 1)
      (.initializeGovernor (.account 1) (.account 2) (.contract 1) 1 3 2 0 0),
    .governor (.authorized 5) (.createProposal (.account 1) [84] [] []),
    .governor (.authorized 6) (.vote (.account 1) 1 1)]

/-- The views agree on a supply of which every multiple involved fits. -/
theorem quorum_views_small : ∃ p,
    (machine.run System.empty (wholeSupplyCalls (.ofNat 20000))).governor.proposal 1 = some p ∧
      ViewsAgree 1 p (machine.run System.empty (wholeSupplyCalls (.ofNat 20000))) := by
  have hcalls : machine.Scheduled 0 6 (wholeSupplyCalls (.ofNat 20000)) := by decide
  obtain ⟨p, hp, hfits, hscaled⟩ : ∃ p, (machine.run System.empty
      (wholeSupplyCalls (.ofNat 20000))).governor.proposal 1 = some p ∧ turnout p ≤ maxI128 ∧
        10000 * turnout p ≤ maxI128 := ⟨_, rfl, by decide, by decide⟩
  exact ⟨p, hp, (quorum_views_iff hcalls hp).mpr ⟨fun _ => hfits, fun _ _ => hscaled⟩⟩

/-- With the largest supply the quorum is reached, and the progress cannot be computed. -/
theorem quorum_views_largest_supply :
    let s := machine.run System.empty (wholeSupplyCalls I128.top)
    machine.Scheduled 0 6 (wholeSupplyCalls I128.top) ∧ ∃ p, s.governor.proposal 1 = some p ∧
      ((hasReachedQuorum 1).run s).1 = .ok true ∧
      ((getQuorumProgress 1).run s).1 = .error (.error .overflow) ∧ ¬ ViewsAgree 1 p s := by
  intro s
  have hreached : ((hasReachedQuorum 1).run s).1 = .ok true := by decide
  have hprogress : ((getQuorumProgress 1).run s).1 = .error (.error .overflow) := by decide
  refine ⟨by decide, _, rfl, hreached, hprogress, fun h => ?_⟩
  obtain ⟨progress, hreturns, -⟩ := h.share true s (Prod.ext hreached rfl)
  rw [hreturns] at hprogress
  contradiction

end Quorum.Governor

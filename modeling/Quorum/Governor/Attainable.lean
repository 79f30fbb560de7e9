import Quorum.Governor.Admission
import Quorum.Governor.Progress

/-!
# Whether a quorum can be attained

The quorum of a proposal is a share of the supply at the moment of its opening, while the weights
of its voters are read at the close of the ledger of the opening. All weights there together are
at least the supply there, so what is minted, burned or moved before or in later ledgers plays no
role; only burning in the rest of that ledger can put the quorum out of reach.
-/

namespace Quorum.Governor

open Foundation Contract

variable {s s' : System} {env : Env} {start now id : ℕ} {p : Proposal}

/-! ## How a proposal was opened -/

/-- After a step a stored proposal was stored before, or the step has opened it. -/
theorem Step.stored {i : Invocation} (h : Step i s s')
    (hp : s'.governor.proposal id = some p) :
    (∃ q, s.governor.proposal id = some q ∧ Kept q p) ∨
      ∃ env c config proposer conviction, i = .governor env c ∧ p.id = id ∧
        Opens env config proposer conviction p s s' := by
  cases h with
  | token _ => exact .inl ⟨p, hp, .refl p⟩
  | refused => exact .inl ⟨p, hp, .refl p⟩
  | @governor env c _ _ hret he =>
    rcases he.change.revises with hquiet | ⟨config, proposer, conviction, q, hopens⟩ |
      ⟨other, q, q', hrevises⟩
    · rw [hquiet.proposal] at hp
      exact .inl ⟨p, hp, .refl p⟩
    · rw [hopens.proposal] at hp
      by_cases hid : id = q.id
      · rw [hid, Function.update_self] at hp
        obtain rfl := Option.some.inj hp
        exact .inr ⟨env, c, config, proposer, conviction, rfl, hid.symm, hopens⟩
      · rw [Function.update_of_ne hid] at hp
        exact .inl ⟨p, hp, .refl p⟩
    · rw [hrevises.proposal] at hp
      by_cases hid : id = other
      · rw [hid, Function.update_self] at hp
        obtain rfl := Option.some.inj hp
        exact .inl ⟨q, hid ▸ hrevises.stored, hrevises.kept⟩
      · rw [Function.update_of_ne hid] at hp
        exact .inl ⟨p, hp, .refl p⟩

/-- A call of a run opened a proposal, as the first version of what is stored in the end. -/
structure OpenedIn (calls : List Invocation) (id : ℕ) (p : Proposal) (first : List Invocation)
    (env : Env) (c : Call) (config : Config) : Prop where
  split : ∃ later, calls = first ++ .governor env c :: later
  opened : ∃ proposer conviction opening, opening.id = id ∧ Kept opening p ∧
    Opens env config proposer conviction opening (machine.run System.empty first)
      (machine.run System.empty (first ++ [.governor env c]))

/-- Every stored proposal has been opened in the run. -/
theorem exists_openedIn {calls : List Invocation} (hcalls : machine.Scheduled start now calls)
    (hstored : (machine.run System.empty calls).governor.proposal id = some p) :
    ∃ first env c config, OpenedIn calls id p first env c config := by
  induction calls using List.reverseRecOn generalizing now p with
  | nil => simp [System.empty, Storage.empty] at hstored
  | append_singleton calls i ih =>
    obtain ⟨hfirst, -⟩ := hcalls.of_append
    have hw := wellFormed_run hfirst
    have hrun : machine.run System.empty (calls ++ [i]) =
        machine.step i (machine.run System.empty calls) := by
      rw [Clocked.run_append, Clocked.run_cons, Clocked.run_nil]
    rcases (machine_step hw.blank i).stored (hrun ▸ hstored) with
      ⟨q, hq, hkept⟩ | ⟨env, c, config, proposer, conviction, rfl, hid, hopens⟩
    · obtain ⟨first, env, c, config, ⟨later, rfl⟩, proposer, conviction, opening, hid, hkept',
        hopens⟩ := ih hfirst hq
      refine ⟨first, env, c, config, ⟨later ++ [i], ?_⟩, proposer, conviction, opening, hid,
        hkept'.trans hkept, hopens⟩
      rw [List.append_assoc, List.cons_append]
    · exact ⟨calls, env, c, config, ⟨[], rfl⟩, proposer, conviction, p, hid, .refl p,
        hrun ▸ hopens⟩

/-- The quorum of a proposal is a share of the supply that its opening found, rounded down. -/
theorem OpenedIn.quorumRequired {calls first : List Invocation} {c : Call} {config : Config}
    (hcalls : machine.Scheduled start now calls) (h : OpenedIn calls id p first env c config) :
    let supply := (Token.totalSupply (machine.run System.empty first).token).val
    p.quorumRequired.val = supply * config.quorumBps / 10000 ∧ p.quorumRequired.val ≤ supply := by
  intro supply
  obtain ⟨⟨later, rfl⟩, proposer, conviction, opening, -, hkept, hopens⟩ := h
  have hreceptive := receptive_run hcalls.of_append.1 hopens.configured
  have hsupply : 0 ≤ supply := hreceptive.supply_nonneg
  have hquorum : p.quorumRequired.val = supply * config.quorumBps / 10000 := by
    rw [hkept.quorumRequired]
    exact ((quorumForSupply_eq_some hsupply hreceptive.quorumBps).mp hopens.quorumRequired).2
  have hbps : (config.quorumBps : ℤ) ≤ 10000 := Int.ofNat_le.mpr hreceptive.quorumBps
  refine ⟨hquorum, ?_⟩
  calc p.quorumRequired.val = supply * config.quorumBps / 10000 := hquorum
    _ ≤ supply * 10000 / 10000 :=
      Int.ediv_le_ediv (by decide) (mul_le_mul_of_nonneg_left hbps hsupply)
    _ = supply := Int.mul_ediv_cancel _ (by decide)

/-! ## What all accounts weigh together -/

/-- What the token reports for all accounts together at the snapshot of a proposal. -/
def fullTurnout (s : System) (id : ℕ) : ℤ := ∑ voter, (votingPower s voter id).val

section Retained

variable {calls : List Invocation} (hcalls : machine.Scheduled start now calls)
  (hstored : (machine.run System.empty calls).governor.proposal id = some p)
  (hretained : now ≤ p.snapshotLedger + Token.checkpointRetention)

include hcalls hstored hretained

/-- Nobody is reported with less than what is delegated to them, and all of the supply is
delegated to somebody. -/
theorem supply_le_fullTurnout :
    (Token.totalSupply (machine.stateBefore System.empty calls (p.snapshotLedger + 1)).token).val ≤
      fullTurnout (machine.run System.empty calls) id := by
  have hsolvent := solvent_stateBefore hcalls (p.snapshotLedger + 1)
  rw [← hsolvent.sum_liveVotes]
  apply Finset.sum_le_sum
  intro voter _
  have hboost := boostAtClose_nonneg calls voter p.snapshotLedger
  have hle : delegatedAtClose calls voter p.snapshotLedger ≤ maxI128 :=
    (hsolvent.liveVotes_le voter).trans (I128.upper _)
  rw [votingPower_eq_snapshotWeight hcalls hstored hretained, snapshotWeight, powerAtClose]
  exact le_min (Int.le_add_of_nonneg_right hboost) hle

/-- Once everyone with any weight has voted, the tallies hold all of it. -/
theorem turnout_eq_fullTurnout
    (hall : ∀ voter, 0 < (votingPower (machine.run System.empty calls) voter id).val →
      (machine.run System.empty calls).governor.hasVoted id voter ≠ none) :
    turnout p = fullTurnout (machine.run System.empty calls) id := by
  have hcounted := counted hcalls hstored ((min_le_left _ _).trans hretained)
  rw [turnout, hcounted.sum_tallies (wellFormed_run hcalls) hstored, fullTurnout]
  simp only [votingPower_eq_snapshotWeight hcalls hstored hretained] at hall ⊢
  apply Finset.sum_subset (Finset.subset_univ _)
  intro voter _ habsent
  by_contra hweight
  have hpositive := lt_of_le_of_ne (snapshotWeight_nonneg hcalls p.snapshotLedger voter)
    (Ne.symm hweight)
  apply habsent
  rw [voters, Finset.mem_filter_univ, Option.isSome_iff_ne_none]
  exact hall voter hpositive

end Retained

/-- In every reachable state within the retention window, the weights that the token reports at
the snapshot of a proposal add up to at least the supply at the close of the snapshot ledger. So
they attain the quorum, unless after the opening, in the same ledger, the supply has been burned
below it. Once everyone with any weight has voted the tallies are these weights, and the quorum is
checked against their sum, where it fits. -/
theorem quorum_attainable {calls : List Invocation} (hcalls : machine.Scheduled start now calls)
    {id : ℕ} {p : Proposal}
    (hstored : (machine.run System.empty calls).governor.proposal id = some p)
    (hretained : now ≤ p.snapshotLedger + Token.checkpointRetention) :
    let s := machine.run System.empty calls
    let close := (machine.stateBefore System.empty calls (p.snapshotLedger + 1)).token
    (∀ voter, (Token.getPastVotes voter p.snapshotLedger).Returns s.token
      (votingPower s voter id) s.token) ∧
    Token.getPastTotalSupply s.token p.snapshotLedger = Token.totalSupply close ∧
    (Token.totalSupply close).val ≤ fullTurnout s id ∧
    (p.quorumRequired.val ≤ (Token.totalSupply close).val →
      p.quorumRequired.val ≤ fullTurnout s id) ∧
    (∃ first env c config, OpenedIn calls id p first env c config ∧
      env.sequence = p.snapshotLedger ∧
      let opening := (machine.run System.empty first).token
      p.quorumRequired.val = (Token.totalSupply opening).val * config.quorumBps / 10000 ∧
        ((Token.totalSupply opening).val ≤ (Token.totalSupply close).val →
          p.quorumRequired.val ≤ fullTurnout s id)) ∧
    ((∀ voter, 0 < (votingPower s voter id).val → s.governor.hasVoted id voter ≠ none) →
      turnout p = fullTurnout s id ∧
        (p.quorumRequired.val ≤ fullTurnout s id → fullTurnout s id ≤ maxI128 →
          QuorumChecked p)) := by
  intro s close
  have hsupply : (Token.totalSupply close).val ≤ fullTurnout s id :=
    supply_le_fullTurnout hcalls hstored hretained
  refine ⟨fun voter => (votingPower_run hcalls hstored voter).1, ?_, hsupply,
    fun hquorum => hquorum.trans hsupply, ?_, ?_⟩
  · obtain ⟨tokenCalls, hsched, hrun, hbefore⟩ := token_run hcalls
    change Token.getPastTotalSupply (machine.run System.empty calls).token p.snapshotLedger =
      Token.totalSupply (machine.stateBefore System.empty calls (p.snapshotLedger + 1)).token
    rw [hrun, hbefore]
    exact Token.getPastTotalSupply_run hsched p.snapshotLedger
  · obtain ⟨first, env, c, config, hopened⟩ := exists_openedIn hcalls hstored
    obtain ⟨hquorum, hle⟩ := hopened.quorumRequired hcalls
    refine ⟨first, env, c, config, hopened, ?_, hquorum,
      fun hkept => (hle.trans hkept).trans hsupply⟩
    obtain ⟨-, proposer, conviction, opening, -, hkept, hopens⟩ := hopened
    rw [hkept.snapshotLedger, hopens.snapshotLedger]
  · intro hall
    have hturnout := turnout_eq_fullTurnout hcalls hstored hretained hall
    refine ⟨hturnout, fun hquorum hfits => ?_⟩
    rw [quorumChecked_iff fun support hsupport => tally_nonneg_run hcalls hstored hsupport,
      hturnout]
    exact ⟨hfits, hquorum⟩

/-- The whole supply changes hands after the opening, and the quorum stays within reach. -/
theorem quorum_attainable_moved : ∃ p,
    (machine.run System.empty countedCalls).governor.proposal 1 = some p ∧
      p.quorumRequired.val ≤ fullTurnout (machine.run System.empty countedCalls) 1 := by
  have hcalls : machine.Scheduled 0 8 countedCalls := by decide
  obtain ⟨p, hp⟩ : ∃ p, (machine.run System.empty countedCalls).governor.proposal 1 = some p :=
    ⟨_, rfl⟩
  have hterms : ((machine.run System.empty countedCalls).governor.proposal 1).map
      (fun p => (p.snapshotLedger, p.quorumRequired)) = some (5, .ofNat 10) := by decide
  rw [hp, Option.map_some, Option.some.injEq, Prod.mk.injEq] at hterms
  obtain ⟨hsnapshot, hquorum⟩ := hterms
  have hretained : 8 ≤ p.snapshotLedger + Token.checkpointRetention := by
    rw [hsnapshot]
    decide
  obtain ⟨-, -, -, hattained, -⟩ := quorum_attainable hcalls hp hretained
  refine ⟨p, hp, hattained ?_⟩
  rw [hsnapshot, hquorum]
  decide

/-- A proposal is opened on a supply of 100. In the same ledger all but 4 of it is burned. -/
def burnedCalls : List Invocation :=
  launchCalls 3 ++ [.governor (.authorized 5) (.createProposal (.account 1) [84] [] []),
    .token ⟨.authorized 5, .burn (.account 1) (.ofNat 96)⟩,
    .governor (.authorized 6) (.vote (.account 1) 1 1)]

/-- What is left cannot attain a tenth of what there was. -/
theorem quorum_unattainable_burned :
    let s := machine.run System.empty burnedCalls
    machine.Scheduled 0 6 burnedCalls ∧ ∃ p, s.governor.proposal 1 = some p ∧
      p.snapshotLedger = 5 ∧ p.quorumRequired.val = 10 ∧
      (∀ voter, (Token.getPastVotes voter 5).Returns s.token (votingPower s voter 1) s.token) ∧
      fullTurnout s 1 < p.quorumRequired.val ∧ ¬ QuorumChecked p := by
  intro s
  have hcalls : machine.Scheduled 0 6 burnedCalls := by decide
  obtain ⟨p, hp⟩ : ∃ p, (machine.run System.empty burnedCalls).governor.proposal 1 = some p :=
    ⟨_, rfl⟩
  have hterms : ((machine.run System.empty burnedCalls).governor.proposal 1).map
      (fun p => (p.snapshotLedger, p.quorumRequired.val, turnout p)) = some (5, 10, 4) := by decide
  rw [hp, Option.map_some, Option.some.injEq, Prod.mk.injEq, Prod.mk.injEq] at hterms
  obtain ⟨hsnapshot, hquorum, hturnout⟩ := hterms
  have hsupply : (Token.totalSupply
      (machine.stateBefore System.empty burnedCalls (5 + 1)).token).val = 4 := by decide
  have hfull : fullTurnout s 1 ≤ 2 * 4 := by
    rw [← hsupply]
    refine (Finset.sum_le_sum fun voter _ => ?_).trans
      (sum_snapshotWeight_le hcalls 5 Finset.univ)
    rw [← hsnapshot]
    exact votingPower_le_snapshotWeight hcalls hp voter
  refine ⟨hcalls, p, hp, hsnapshot, hquorum, fun voter => ?_, by omega, ?_⟩
  · rw [← hsnapshot]
    exact (votingPower_run hcalls hp voter).1
  · rw [quorumChecked_iff fun support hsupport => tally_nonneg_run hcalls hp hsupport]
    omega

end Quorum.Governor

import Quorum.Governor.Elections

/-!
# Every token votes once

A vote is counted with the weight of the voter, and that weight is a sum over other accounts: the
holders whom the voter represents when the snapshot ledger closes. Followed back to the holders,
a tally consists of the balances at that close of the holders whose representative there has
chosen it, and of the stake boosts of the voters themselves. So the tokens of a holder are
counted under one choice at most, once, and never for what the holder chooses while somebody else
represents it, wherever the tokens and the votes have gone since.
-/

namespace Quorum.Governor

open Foundation Contract

variable {start now : ℕ}

/-- The choice that the tokens of each holder go with: that of the representative at a close. -/
def representedChoice (close : Token.Storage) (choice : Address → Option ℕ) (holder : Address) :
    Option ℕ :=
  choice (Token.getDelegates close holder)

section Origins

variable {calls : List Invocation} {ledger : ℕ} {choice : Address → Option ℕ}

/-- The delegated part of the weights, by holders. -/
theorem tallied_delegatedAtClose (c : ℕ) :
    let close := (machine.stateBefore System.empty calls (ledger + 1)).token
    tallied choice (fun voter => delegatedAtClose calls voter ledger) c =
      tallied (representedChoice close choice) (Token.weight close) c := by
  intro close
  have hdelegated : (fun voter => delegatedAtClose calls voter ledger) =
      delegated (Token.getDelegates close) (Token.weight close) := rfl
  rw [hdelegated, tallied_delegated]
  rfl

/-- The balance a voter represents is not cut, with or without the boost. -/
theorem delegatedAtClose_le_snapshotWeight (hcalls : machine.Scheduled start now calls)
    (voter : Address) :
    delegatedAtClose calls voter ledger ≤ snapshotWeight calls ledger voter := by
  have hsolvent := solvent_stateBefore hcalls (ledger + 1)
  have hfits : delegatedAtClose calls voter ledger ≤ maxI128 :=
    (hsolvent.liveVotes_le voter).trans (I128.upper _)
  have hboost := boostAtClose_nonneg calls voter ledger
  exact le_min (by rw [powerAtClose]; omega) hfits

/-- No power at a close exceeds twice the supply there. -/
theorem powerAtClose_le (hcalls : machine.Scheduled start now calls) (voter : Address) :
    powerAtClose calls voter ledger ≤
      2 * (Token.totalSupply (machine.stateBefore System.empty calls (ledger + 1)).token).val := by
  have hsolvent := solvent_stateBefore hcalls (ledger + 1)
  obtain ⟨tokenCalls, hsched, -, hbefore⟩ := token_run hcalls
  have hboost := Token.boostOf_le_close hsched voter ledger
  rw [← hbefore, ← hbefore] at hboost
  have hheld : Token.weight (machine.stateBefore System.empty calls (ledger + 1)).token voter ≤
      (Token.totalSupply (machine.stateBefore System.empty calls (ledger + 1)).token).val := by
    rw [← hsolvent.total]
    exact le_sum hsolvent.nonneg voter
  have hdelegated := hsolvent.liveVotes_le voter
  rw [powerAtClose, delegatedAtClose, boostAtClose, two_mul]
  exact add_le_add hdelegated (hboost.trans hheld)

end Origins

/-- In every reachable state, for a proposal whose voting window lies within the retention
window: a tally is at least what the holders held, when the snapshot ledger closed, whose
representative there has made that choice, and exceeds it by the stake boosts of the voters at
most. It is exactly the two together if twice the supply there fits the machine type. The
balances behind the three tallies and behind the representatives who have not voted are the
supply, so that no balance stands behind two tallies. -/
theorem tokens_vote_once {calls : List Invocation} (hcalls : machine.Scheduled start now calls)
    {id : ℕ} {p : Proposal}
    (hstored : (machine.run System.empty calls).governor.proposal id = some p)
    (hwindow : p.endLedger ≤ p.snapshotLedger + Token.checkpointRetention) :
    let close := (machine.stateBefore System.empty calls (p.snapshotLedger + 1)).token
    let choice := (machine.run System.empty calls).governor.hasVoted id
    let held := tallied (representedChoice close choice) (Token.weight close)
    let boosts := tallied choice fun voter => boostAtClose calls voter p.snapshotLedger
    (∀ c ≤ 2, held c ≤ (p.tally c).val ∧ (p.tally c).val ≤ held c + boosts c) ∧
    (2 * (Token.totalSupply close).val ≤ maxI128 →
      ∀ c ≤ 2, (p.tally c).val = held c + boosts c) ∧
    held 0 + held 1 + held 2 +
        ∑ holder, (if representedChoice close choice holder = none then Token.weight close holder
          else 0) = (Token.totalSupply close).val := by
  intro close choice held boosts
  have hcounted : ∀ c ≤ 2, (p.tally c).val =
      tallied choice (snapshotWeight calls p.snapshotLedger) c :=
    fun c hc => counted hcalls hstored ((min_le_right _ _).trans hwindow) p hstored c hc
  have hheld : ∀ c, held c =
      tallied choice (fun voter => delegatedAtClose calls voter p.snapshotLedger) c :=
    fun c => (tallied_delegatedAtClose c).symm
  have hpower : ∀ c, tallied choice (fun voter => powerAtClose calls voter p.snapshotLedger) c =
      held c + boosts c := by
    intro c
    rw [hheld]
    exact tallied_add c
  refine ⟨fun c hc => ⟨?_, ?_⟩, fun hfits c hc => ?_, ?_⟩
  · rw [hcounted c hc, hheld c]
    exact tallied_mono (delegatedAtClose_le_snapshotWeight hcalls) c
  · rw [hcounted c hc, ← hpower c]
    exact tallied_mono (fun voter => min_le_left _ _) c
  · have huncut : snapshotWeight calls p.snapshotLedger =
        fun voter => powerAtClose calls voter p.snapshotLedger := by
      funext voter
      exact min_eq_left ((powerAtClose_le hcalls voter).trans hfits)
    rw [hcounted c hc, huncut]
    exact hpower c
  · have hsolvent : Token.Solvent close := solvent_stateBefore hcalls (p.snapshotLedger + 1)
    have hchoices : ∀ holder c, representedChoice close choice holder = some c → c ≤ 2 :=
      fun holder c => (wellFormed_run hcalls).choices id _ c
    rw [← hsolvent.total]
    simp only [held, tallied, ← Finset.sum_add_distrib]
    apply Finset.sum_congr rfl
    intro holder _
    cases hchoice : representedChoice close choice holder with
    | none => simp
    | some c =>
      have hle := hchoices holder c hchoice
      interval_cases c <;> simp

/-- The holder of the whole supply is represented by account 2, which votes. -/
def representedCalls : List Invocation :=
  launchCalls 3 ++ [.token ⟨.authorized 4, .delegate (.account 1) (.account 2)⟩,
    .governor (.authorized 5) (.createProposal (.account 1) [84] [] []),
    .governor (.authorized 6) (.vote (.account 2) 1 1)]

/-- The tokens of a represented holder vote once, by their representative. -/
theorem tokens_vote_once_represented :
    let close := (machine.stateBefore System.empty representedCalls 6).token
    let choice := (machine.run System.empty representedCalls).governor.hasVoted 1
    ∃ p, (machine.run System.empty representedCalls).governor.proposal 1 = some p ∧
      (p.tally 1).val = tallied (representedChoice close choice) (Token.weight close) 1 +
        tallied choice (fun voter => boostAtClose representedCalls voter 5) 1 := by
  have hcalls : machine.Scheduled 0 6 representedCalls := by decide
  obtain ⟨p, hp⟩ : ∃ p, (machine.run System.empty representedCalls).governor.proposal 1 = some p :=
    ⟨_, rfl⟩
  have hterms : ((machine.run System.empty representedCalls).governor.proposal 1).all (fun p =>
      decide (p.snapshotLedger = 5 ∧
        p.endLedger ≤ p.snapshotLedger + Token.checkpointRetention)) = true := by decide
  rw [hp, Option.all_some, decide_eq_true_eq] at hterms
  have hsupply : 2 * (Token.totalSupply
      (machine.stateBefore System.empty representedCalls 6).token).val ≤ maxI128 := by decide
  have honce := (tokens_vote_once hcalls hp hterms.2).2.1
  rw [hterms.1] at honce
  exact ⟨p, hp, honce hsupply 1 (by decide)⟩

end Quorum.Governor

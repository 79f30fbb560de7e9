import Quorum.Governor.Ballots

/-!
# Conviction and the raw tallies

A vote on a conviction proposal adds its weight to a side of the conviction tally as well as to
the raw tally. A change of the vote takes the weight out of the raw tally again, but not out of
the conviction tally. So a side of the conviction tally stays within the raw tally exactly as
long as every change finds room: what is left on the side that the voter had chosen must fit
into the votes of the others. And a change moves the voter's support exactly when nothing is left
of it to be moved.
-/

namespace Quorum.Governor

open Foundation Contract

variable {s s' : System} {env : Env} {start now id : ℕ} {voter : Address} {support : ℕ}

/-! ## Within the raw tallies -/

/-- The sides of the conviction tally of a proposal stay within its raw tallies. -/
def ConvictionBounded (id : ℕ) (s : System) : Prop :=
  ∀ p t, s.governor.proposal id = some p → s.governor.conviction id = some t →
    ∀ x ≤ 1, (t.side x).val ≤ (p.tally x).val

/-- If the voter has chosen a side before, what is left on that side fits into the raw votes of
the others there. -/
def FindsRoom (ledger : ℕ) (voter : Address) (id : ℕ) (s : System) : Prop :=
  ∀ p t x, s.governor.proposal id = some p → s.governor.conviction id = some t →
    s.governor.hasVoted id voter = some x → x ≤ 1 →
      ((decayTo t ledger).side x).val + (votingPower s voter id).val ≤ (p.tally x).val

/-- The bound depends on the tallies and the conviction tally alone. -/
theorem ConvictionBounded.of_eq {p p' : Proposal} (h : ConvictionBounded id s)
    (hstored : s.governor.proposal id = some p) (hstored' : s'.governor.proposal id = some p')
    (htally : ∀ x, p'.tally x = p.tally x)
    (hconviction : s'.governor.conviction id = s.governor.conviction id) :
    ConvictionBounded id s' := by
  intro q t hq ht x hx
  rw [hstored'] at hq
  rw [hconviction] at ht
  rw [← Option.some.inj hq, htally]
  exact h p t hstored ht x hx

/-- The bound stays where the proposal and its conviction tally do. -/
theorem ConvictionBounded.of_same (h : ConvictionBounded id s)
    (hproposal : s'.governor.proposal id = s.governor.proposal id)
    (hconviction : s'.governor.conviction id = s.governor.conviction id) :
    ConvictionBounded id s' := by
  intro p t hp ht
  rw [hproposal] at hp
  rw [hconviction] at ht
  exact h p t hp ht

/-- A restated proposal with the same tallies keeps the bound. -/
theorem Restates.convictionBounded {other : ℕ} {p p' : Proposal} (h : Restates other p p' s s')
    (hs : ConvictionBounded id s) (htallies : SameTallies p p') : ConvictionBounded id s' := by
  by_cases hid : id = other
  · subst hid
    exact hs.of_eq h.stored (by rw [h.proposal, Function.update_self]) htallies.tally
      (by rw [h.conviction])
  · exact hs.of_same (by rw [h.proposal, Function.update_of_ne hid]) (by rw [h.conviction])

/-- A side after a vote, against the raw tally after it: the weight of the vote itself cancels. -/
theorem Votes.side_le_iff {p counted : Proposal} {weight : I128} {t t' : ConvictionTally}
    (hw : WellFormed now s) (h : Votes env voter id support p counted weight s s')
    (hcount : countConviction (decayTo t env.sequence) support weight = some t') {x : ℕ}
    (hx : x ≤ 1) : (t'.side x).val ≤ (counted.tally x).val ↔
      ((decayTo t env.sequence).side x).val +
        (if s.governor.hasVoted id voter = some x then weight.val else 0) ≤ (p.tally x).val := by
  rw [countConviction_side hcount hx, h.tally hw (hx.trans (by decide))]
  constructor <;> intro hle <;> linarith

/-- A vote on a conviction proposal keeps the sides within the raw tallies exactly when it finds
room. -/
theorem Votes.convictionBounded_iff {p counted : Proposal} {weight : I128}
    (hw : WellFormed now s) (h : Votes env voter id support p counted weight s s')
    (hnonneg : ∀ t, s.governor.conviction id = some t → ∀ x ≤ 1, 0 ≤ (t.side x).val)
    (hs : ConvictionBounded id s) :
    ConvictionBounded id s' ↔ FindsRoom env.sequence voter id s := by
  have hproposal : s'.governor.proposal id = some counted := by
    rw [h.proposal, Function.update_self]
  rcases h.counted_conviction with ⟨hnone, hnone'⟩ | ⟨t, t', hstored, hstored', hcount⟩
  · constructor
    · intro _ q t x _ ht
      rw [hnone] at ht
      contradiction
    · intro _ q t _ ht
      rw [hnone'] at ht
      contradiction
  · constructor
    · intro hbounded q t₀ x hq ht₀ hchoice hx
      obtain rfl : p = q := Option.some.inj (h.stored.symm.trans hq)
      obtain rfl : t = t₀ := Option.some.inj (hstored.symm.trans ht₀)
      have hle := (h.side_le_iff hw hcount hx).mp (hbounded counted t' hproposal hstored' x hx)
      rwa [if_pos hchoice, ← h.votingPower_eq] at hle
    · intro hroom q t₀ hq ht₀ x hx
      obtain rfl : counted = q := Option.some.inj (hproposal.symm.trans hq)
      obtain rfl : t' = t₀ := Option.some.inj (hstored'.symm.trans ht₀)
      apply (h.side_le_iff hw hcount hx).mpr
      by_cases hchoice : s.governor.hasVoted id voter = some x
      · rw [if_pos hchoice, ← h.votingPower_eq]
        exact hroom p t x h.stored hstored hchoice hx
      · have hdecayed := halved_le (hnonneg t hstored x hx)
          ((env.sequence - t.updatedLedger) / convictionHalfLife)
        rw [if_neg hchoice, add_zero, side_decayTo]
        exact hdecayed.trans (hs p t h.stored hstored x hx)

/-- An invocation after which the sides stay within the raw tallies: every accepted vote on the
proposal finds room. -/
def GivesRoom (id : ℕ) (s : System) (i : Invocation) : Prop :=
  ∀ env voter support, i = .governor env (.vote voter id support) →
    Accepted env (.vote voter id support) s → FindsRoom env.sequence voter id s

/-- A step that gives room keeps the sides within the raw tallies. -/
theorem Step.convictionBounded {i : Invocation} (hw : WellFormed now s)
    (hnonneg : ∀ t, s.governor.conviction id = some t → ∀ x ≤ 1, 0 ≤ (t.side x).val)
    (h : Step i s s') (hs : ConvictionBounded id s) (hroom : GivesRoom id s i) :
    ConvictionBounded id s' := by
  cases h with
  | token _ => exact hs
  | refused => exact hs
  | governor hret he =>
    cases he.change.outline with
    | quiet _ h => exact hs.of_same (by rw [h.proposal]) (by rw [h.conviction])
    | @opened config _ conviction q _ h =>
      by_cases hid : id = q.id
      · subst hid
        intro p t hp ht x hx
        rw [h.proposal, Function.update_self] at hp
        rw [← Option.some.inj hp, h.tallies]
        rcases h.conviction_self with hfresh | hsame
        · rw [hfresh] at ht
          rw [← Option.some.inj ht]
          interval_cases x <;> exact le_rfl
        · rw [hsame, (hw.fresh h).2.2] at ht
          contradiction
      · apply hs.of_same
        · rw [h.proposal, Function.update_of_ne hid]
        · exact h.conviction_other hid
    | @voted voter other support p counted weight hcall h =>
      subst hcall
      by_cases hid : id = other
      · subst hid
        exact (h.convictionBounded_iff hw hnonneg hs).mpr (hroom _ voter support rfl ⟨(), _, hret⟩)
      · apply hs.of_same
        · rw [h.proposal, Function.update_of_ne hid]
        · exact h.conviction.other hid
    | restated _ _ htallies h => exact h.convictionBounded hs htallies

/-! ## The support of one voter -/

/-- What the votes of one voter still amount to on a side of the conviction tally. -/
def supportLeft (id : ℕ) (calls : List Invocation) (voter : Address) (ledger x : ℕ) : ℤ :=
  ((Standing.part convictionHalfLife 0 voter (ballots id System.empty calls)).fade
    convictionHalfLife ledger).amount x

/-- The weight that the latest vote of a voter was counted with. -/
def lastWeight (id : ℕ) (calls : List Invocation) (voter : Address) : ℤ :=
  match Standing.latest voter (ballots id System.empty calls) with
  | some b => b.weight
  | none => 0

/-- If the voter has chosen a side before, nothing is left there of the voter's support. -/
def NothingLeft (ledger : ℕ) (voter : Address) (id : ℕ) (past : List Invocation) : Prop :=
  ∀ t x, (machine.run System.empty past).governor.conviction id = some t →
    (machine.run System.empty past).governor.hasVoted id voter = some x → x ≤ 1 →
      supportLeft id past voter ledger x = 0

/-- A vote takes what is left of the voter's support out of the side chosen before. -/
def MovesSupport (env : Env) (voter : Address) (id support : ℕ) (past : List Invocation) : Prop :=
  ∀ t t' x, (machine.run System.empty past).governor.conviction id = some t →
    (machine.run System.empty (past ++ [.governor env (.vote voter id support)])).governor.conviction
      id = some t' →
    (machine.run System.empty past).governor.hasVoted id voter = some x → x ≤ 1 →
      (t'.side x).val = ((decayTo t env.sequence).side x).val -
        supportLeft id past voter env.sequence x +
          if support = x then (votingPower (machine.run System.empty past) voter id).val else 0

/-- A vote moves the voter's support exactly when nothing is left of it. -/
theorem movesSupport_iff {past : List Invocation}
    (haccepted : Accepted env (.vote voter id support) (machine.run System.empty past)) :
    MovesSupport env voter id support past ↔ NothingLeft env.sequence voter id past := by
  obtain ⟨p, counted, weight, h⟩ := vote_returns haccepted.returns
  obtain ⟨hnone, -⟩ | ⟨t, t', hstored, hstored', hcount⟩ := h.counted_conviction
  · constructor
    · intro _ t x ht
      rw [hnone] at ht
      contradiction
    · intro _ t t' x ht
      rw [hnone] at ht
      contradiction
  · have hside : ∀ x ≤ 1, (t'.side x).val = ((decayTo t env.sequence).side x).val +
        if support = x then (votingPower (machine.run System.empty past) voter id).val else 0 := by
      intro x hx
      rw [countConviction_side hcount hx, h.votingPower_eq]
    have hafter : (machine.run System.empty (past ++
        [.governor env (.vote voter id support)])).governor.conviction id = some t' := by
      rw [Clocked.run_append]
      exact hstored'
    constructor
    · intro hmoves q x hq hchoice hx
      have heq := hmoves t t' x hstored hafter hchoice hx
      rw [hside x hx] at heq
      omega
    · intro hnothing q q' x hq hq' hchoice hx
      obtain rfl : t = q := Option.some.inj (hstored.symm.trans hq)
      obtain rfl : t' = q' := Option.some.inj (hafter.symm.trans hq')
      rw [hside x hx, hnothing t x hstored hchoice hx, sub_zero]

/-! ## Settled changes -/

/-- Every accepted vote of a voter who has chosen a side before finds room, and nothing left of
the voter's earlier support. -/
def ChangeSettled (id : ℕ) (past : List Invocation) (i : Invocation) : Prop :=
  ∀ env voter support, i = .governor env (.vote voter id support) →
    Accepted env (.vote voter id support) (machine.run System.empty past) →
      FindsRoom env.sequence voter id (machine.run System.empty past) ∧
        NothingLeft env.sequence voter id past

/-- The sides stay within the raw tallies, and a vote moves the voter's support. -/
def CountedOnce (id : ℕ) (past : List Invocation) (i : Invocation) : Prop :=
  ConvictionBounded id (machine.run System.empty (past ++ [i])) ∧
    ∀ env voter support, i = .governor env (.vote voter id support) →
      Accepted env (.vote voter id support) (machine.run System.empty past) →
        MovesSupport env voter id support past

/-- What settledness asks of a call is what makes it count support once. -/
theorem changeSettled_iff {past : List Invocation} {i : Invocation}
    (hpast : machine.Scheduled start i.sequence past)
    (hbounded : ConvictionBounded id (machine.run System.empty past)) :
    ChangeSettled id past i ↔ CountedOnce id past i := by
  have hw := wellFormed_run hpast
  have hnonneg : ∀ t, (machine.run System.empty past).governor.conviction id = some t →
      ∀ x ≤ 1, 0 ≤ (t.side x).val := fun t ht => (conviction_run hpast ht).1.nonneg
  rw [CountedOnce, Clocked.run_append]
  constructor
  · intro hchange
    refine ⟨(machine_step hw.blank i).convictionBounded hw hnonneg hbounded ?_, ?_⟩
    · exact fun env voter support hcall haccepted => (hchange env voter support hcall haccepted).1
    · intro env voter support hcall haccepted
      exact (movesSupport_iff haccepted).mpr (hchange env voter support hcall haccepted).2
  · rintro ⟨hafter, hmoves⟩ env voter support rfl haccepted
    obtain ⟨p, counted, weight, h⟩ := vote_returns haccepted.returns
    refine ⟨(h.convictionBounded_iff hw hnonneg hbounded).mp hafter, ?_⟩
    exact (movesSupport_iff haccepted).mp (hmoves env voter support rfl haccepted)

/-- Each voter's support is within what is due to the voter's latest ballot. -/
def SupportDue (id : ℕ) (past : List Invocation) : Prop :=
  ∀ t, (machine.run System.empty past).governor.conviction id = some t → ∀ voter, ∀ x ≤ 1,
    (Standing.part convictionHalfLife 0 voter (ballots id System.empty past)).amount x ≤
      Standing.due voter (ballots id System.empty past) x

/-- A step whose changes are settled keeps every voter's support within what is due. -/
theorem ChangeSettled.supportDue {past : List Invocation} {i : Invocation}
    (hcalls : machine.Scheduled start i.sequence past) (h : ChangeSettled id past i)
    (hs : SupportDue id past) : SupportDue id (past ++ [i]) := by
  intro t ht voter x hx
  rw [Clocked.run_append, Clocked.run_cons, Clocked.run_nil] at ht
  rw [ballots_concat]
  cases voteStep (wellFormed_run hcalls) i id with
  | unvoted hballot _ hconviction =>
    rw [hballot, Option.toList_none, List.append_nil]
    rw [hconviction] at ht
    exact hs t ht voter x hx
  | opened hballot _ hnone _ _ =>
    rw [hballot, ballots_eq_nil hcalls hnone.1]
    exact le_rfl
  | @voted env other support p counted weight hcall haccepted hballot hvotes =>
    subst hcall
    rcases hvotes.counted_conviction with ⟨-, hnone⟩ | ⟨t₀, t', hstored, -, -⟩
    · rw [hnone] at ht
      contradiction
    · rw [hballot, Option.toList_some]
      apply Standing.part_concat_le_due (ballots_weight_nonneg hcalls) _ (hs t₀ hstored voter x hx)
      intro hchoice
      rw [latest_run hcalls] at hchoice
      exact (h env other support rfl haccepted).2 t₀ x hstored hchoice hx

/-- A run whose vote changes are settled keeps the conviction tally within the raw tallies, and
each voter's support within what is due. -/
theorem settled_run {calls : List Invocation} (hcalls : machine.Scheduled start now calls)
    (hsettled : Clocked.Throughout (ChangeSettled id) [] calls) :
    ConvictionBounded id (machine.run System.empty calls) ∧ SupportDue id calls := by
  have hstart : machine.Scheduled start start [] := le_refl start
  have hrun := machine.invariant_of_throughout (ChangeSettled id)
    (fun t past => machine.Scheduled start t past ∧
      ConvictionBounded id (machine.run System.empty past) ∧ SupportDue id past)
    ?_ ?_ ⟨hstart, ?_, ?_⟩ hcalls hsettled
  · exact hrun.2
  · exact fun t t' past h hle => ⟨h.1.extend hle, h.2⟩
  · rintro i past hchange ⟨hpast, hbounded, hdue⟩
    have hone : machine.Scheduled (machine.time i) (machine.time i) [i] := ⟨le_rfl, le_rfl⟩
    exact ⟨hpast.append hone, ((changeSettled_iff hpast hbounded).mp hchange).1,
      hchange.supportDue hpast hdue⟩
  · exact fun p t hp => by simp [System.empty, Storage.empty] at hp
  · exact fun t ht => by simp [System.empty, Storage.empty] at ht

/-- A voter is due the weight of the latest ballot on the side it is for, and nothing on the
others. -/
theorem due_eq {calls : List Invocation} (hcalls : machine.Scheduled start now calls)
    (voter : Address) (x : ℕ) : Standing.due voter (ballots id System.empty calls) x =
      if (machine.run System.empty calls).governor.hasVoted id voter = some x then
        lastWeight id calls voter else 0 := by
  rw [← latest_run hcalls, Standing.due, lastWeight]
  cases Standing.latest voter (ballots id System.empty calls) <;> simp

/-- A run counts support once in each of its steps exactly when its vote changes are settled. In
every state that such a run reaches, the sides of the conviction tally are within the raw tallies
and made of the support of the voters; the support of each voter is at most the weight of the
latest vote, and only on the side of that vote. -/
theorem conviction_counted_once {calls : List Invocation}
    (hcalls : machine.Scheduled start now calls) (id : ℕ) :
    (Clocked.Throughout (CountedOnce id) [] calls ↔
      Clocked.Throughout (ChangeSettled id) [] calls) ∧
    (Clocked.Throughout (ChangeSettled id) [] calls → ∀ p t,
      (machine.run System.empty calls).governor.proposal id = some p →
      (machine.run System.empty calls).governor.conviction id = some t → ∀ x ≤ 1,
        (t.side x).val ≤ (p.tally x).val ∧
        ∑ voter, supportLeft id calls voter now x ≤ ((decayTo t now).side x).val ∧
        ∀ voter, supportLeft id calls voter now x ≤
          if (machine.run System.empty calls).governor.hasVoted id voter = some x then
            lastWeight id calls voter else 0) := by
  constructor
  · have hstart : machine.Scheduled start start [] := le_refl start
    refine (machine.throughout_iff (fun t past => machine.Scheduled start t past ∧
      ConvictionBounded id (machine.run System.empty past)) ?_ ?_ ?_ ⟨hstart, ?_⟩ hcalls).symm
    · exact fun t t' past h hle => ⟨h.1.extend hle, h.2⟩
    · exact fun i past h => changeSettled_iff h.1 h.2
    · rintro i past hchange ⟨hpast, hbounded⟩
      have hone : machine.Scheduled (machine.time i) (machine.time i) [i] := ⟨le_rfl, le_rfl⟩
      exact ⟨hpast.append hone, ((changeSettled_iff hpast hbounded).mp hchange).1⟩
    · exact fun p t hp => by simp [System.empty, Storage.empty] at hp
  · intro hsettled p t hp ht x hx
    obtain ⟨hwell, hrepresents⟩ := conviction_run hcalls ht
    obtain ⟨hbounded, hdue⟩ := settled_run hcalls hsettled
    refine ⟨hbounded p t hp ht x hx, ?_, fun voter => ?_⟩
    · rw [hrepresents.reads now hwell.clock x hx]
      exact Standing.sum_part_fade_le (Standing.sum_part_le 0 _ x) now
    · have hleft : supportLeft id calls voter now x ≤ (Standing.part convictionHalfLife 0 voter
          (ballots id System.empty calls)).amount x :=
        Standing.fade_le (Standing.part_nonneg 0 voter (ballots_weight_nonneg hcalls) x) now
      rw [← due_eq hcalls]
      exact hleft.trans (hdue t ht voter x hx)

/-- A conviction proposal of the holder of the whole supply, with a window of 400000 ledgers. -/
def convictionCalls : List Invocation :=
  launchCalls 400000 ++ [.governor (.authorized 5) (.createConvictionProposal (.account 1) [84] [] [])]

/-- The holder votes For. -/
def votedCalls : List Invocation :=
  convictionCalls ++ [.governor (.authorized 6) (.vote (.account 1) 1 1)]

/-- The holder changes to Against seven half-lives later. -/
def fadedChangeCalls : List Invocation :=
  votedCalls ++ [.governor (.authorized 362886) (.vote (.account 1) 1 0)]

/-- A change seven half-lives later, when all earlier support has faded, counts once. -/
theorem conviction_counted_once_faded :
    Clocked.Throughout (CountedOnce 1) [] fadedChangeCalls := by
  have hcalls : machine.Scheduled 0 362886 fadedChangeCalls := by decide
  have hfirst : (machine.run System.empty convictionCalls).governor.hasVoted 1 (.account 1) =
      none := by decide
  have hroom : let s := machine.run System.empty votedCalls
      s.governor.hasVoted 1 (.account 1) = some 1 ∧
      (s.governor.conviction 1).map (fun t => ((decayTo t 362886).side 1).val) = some 0 ∧
      (s.governor.proposal 1).map (fun p => (p.tally 1).val) = some 100 ∧
      (votingPower s (.account 1) 1).val = 100 := by decide
  have hleft : supportLeft 1 votedCalls (.account 1) 362886 1 = 0 := by decide
  obtain ⟨hchoice, hdecayed, htally, hpower⟩ := hroom
  refine (conviction_counted_once hcalls 1).1.mpr ⟨?_, ?_, ?_, ?_, ?_, trivial⟩
  · rintro env voter support ⟨⟩
  · rintro env voter support ⟨⟩
  · rintro env voter support ⟨⟩
  · rintro env voter support ⟨⟩ _
    refine ⟨fun p t x _ _ hx => ?_, fun t x _ hx => ?_⟩
    · exact absurd (hfirst.symm.trans hx) (by simp)
    · exact absurd (hfirst.symm.trans hx) (by simp)
  · rintro env voter support ⟨⟩ _
    refine ⟨fun p t x hp ht hx _ => ?_, fun t x _ hx _ => ?_⟩
    · obtain rfl : 1 = x := Option.some.inj (hchoice.symm.trans hx)
      change (machine.run System.empty votedCalls).governor.proposal 1 = some p at hp
      change (machine.run System.empty votedCalls).governor.conviction 1 = some t at ht
      rw [ht, Option.map_some] at hdecayed
      rw [hp, Option.map_some] at htally
      rw [Option.some.inj htally]
      exact (congrArg₂ (· + ·) (Option.some.inj hdecayed) hpower).le
    · obtain rfl : 1 = x := Option.some.inj (hchoice.symm.trans hx)
      exact hleft

/-- The holder votes For again in the next ledger. -/
def repeatedCalls : List Invocation :=
  votedCalls ++ [.governor (.authorized 7) (.vote (.account 1) 1 1)]

/-- The repeated vote is counted once in the raw tally and twice in the conviction tally. -/
theorem conviction_exceeds_votes_repeated :
    machine.Scheduled 0 7 repeatedCalls ∧
      ((machine.run System.empty repeatedCalls).governor.proposal 1).map
        (fun p => (p.tally 1).val) = some 100 ∧
      ((machine.run System.empty repeatedCalls).governor.conviction 1).map
        (fun t => (t.side 1).val) = some 200 ∧
      ¬ ConvictionBounded 1 (machine.run System.empty repeatedCalls) := by
  have htally : ((machine.run System.empty repeatedCalls).governor.proposal 1).map
      (fun p => (p.tally 1).val) = some 100 := by decide
  have hside : ((machine.run System.empty repeatedCalls).governor.conviction 1).map
      (fun t => (t.side 1).val) = some 200 := by decide
  refine ⟨by decide, htally, hside, fun hbounded => ?_⟩
  obtain ⟨p, hp, hvotes⟩ := Option.map_eq_some_iff.mp htally
  obtain ⟨t, ht, hconviction⟩ := Option.map_eq_some_iff.mp hside
  have hle := hbounded p t hp ht 1 le_rfl
  omega

end Quorum.Governor

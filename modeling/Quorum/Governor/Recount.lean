import Quorum.Governor.Capacity

/-!
# Changing a vote

The weight of an earlier vote is not stored. A voter who votes again is counted with what the
token reports now, and this is also what is taken out of the earlier choice. Within the retention
window the token reports the same weight every time. Later the token may have pruned its history,
and since votes and locks are pruned apart from each other, one part of the weight can be gone
while the other still lets the voter vote.
-/

namespace Quorum.Governor

open Foundation Contract

variable {s s' : System} {env : Env} {start mid now id : ℕ} {voter : Address} {support : ℕ}
  {p : Proposal}

/-! ## Which votes are accepted -/

/-- There is room for a vote of this weight: in the tally of its choice, unless the weight has been
taken out there, and on its side of a conviction tally. -/
structure Fits (now id support : ℕ) (previous : Option ℕ) (p : Proposal) (weight : ℤ)
    (s : System) : Prop where
  tally : previous ≠ some support → (p.tally support).val + weight ≤ maxI128
  conviction : support ≤ 1 → ∀ t, s.governor.conviction id = some t →
    ((decayTo t now).side support).val + weight ≤ maxI128

/-- An accepted vote fits. -/
theorem Votes.fits {counted : Proposal} {weight : I128} (hw : WellFormed now s)
    (h : Votes env voter id support p counted weight s s') :
    Fits env.sequence id support (s.governor.hasVoted id voter) p weight.val s where
  tally hother := by
    have htally := h.tally hw h.choice
    rw [if_neg hother, if_pos rfl, sub_zero] at htally
    rw [← htally]
    exact (counted.tally support).upper
  conviction hside t ht := by
    rcases h.counted_conviction with ⟨hnone, -⟩ | ⟨t₁, t', ht₁, -, hcount⟩
    · rw [ht] at hnone
      contradiction
    · obtain rfl := Option.some.inj (ht.symm.trans ht₁)
      have hsum := countConviction_side hcount hside
      rw [if_pos rfl] at hsum
      rw [← hsum]
      exact (t'.side support).upper

/-- Where the weight has been taken out of its earlier choice, one that fits can be counted. -/
theorem Fits.counts {q : Proposal} {weight : I128}
    (h : Fits now id support (s.governor.hasVoted id voter) p weight.val s)
    (hw : WellFormed mid s) (hsupport : support ≤ 2) (hpositive : 0 < weight.val)
    (huncount : uncount p (s.governor.hasVoted id voter) weight = some q) :
    ∃ counted, count q support weight = some counted := by
  have htally := uncount_tally huncount (fun x hx => hw.choices id voter x hx) hsupport
  have hlower := (q.tally support).lower
  have hfits : (q.tally support).val + weight.val ≤ maxI128 := by
    by_cases hsame : s.governor.hasVoted id voter = some support
    · rw [if_pos hsame] at htally
      have hupper := (p.tally support).upper
      omega
    · rw [if_neg hsame, sub_zero] at htally
      rw [htally]
      exact h.tally hsame
  obtain ⟨sum, hsum, -⟩ := I128.exists_ofInt? (by omega) hfits
  have hadd : addWeight (q.tally support) weight = some sum := hsum
  exact ⟨q.setTally support sum, by rw [count, hadd, Option.map_some]⟩

/-- The conviction part of a vote succeeds while the side can be added up. -/
theorem voteConviction_succeeds_bind {A : Type} {weight : I128} {f : Unit → GovernorM A}
    (hcount : ∀ t, s.governor.conviction id = some t →
      ∃ t', countConviction (decayTo t env.sequence) support weight = some t')
    (hf : ∀ s', (f ()).Succeeds s') :
    (voteConviction env id support weight >>= f).Succeeds s := by
  apply Succeeds.bind _ fun _ => hf
  rw [voteConviction, succeeds_read_bind_iff]
  cases hstored : s.governor.conviction id with
  | none => exact succeeds_pure_iff.mpr trivial
  | some t =>
    obtain ⟨t', ht'⟩ := hcount t hstored
    exact succeeds_okOr_bind_iff.mpr ⟨t', ht', succeeds_write_iff.mpr trivial⟩

/-- A vote with a weight goes through if the tallies take it. -/
theorem MayVote.succeeds {config : Config} {q counted : Proposal} {weight : I128}
    (h : MayVote env voter id support p s) (hconfig : s.governor.config = some config)
    (hread : (Token.getPastVotes voter p.snapshotLedger).Returns s.token weight s.token)
    (hpositive : 0 < weight.val)
    (huncount : uncount p (s.governor.hasVoted id voter) weight = some q)
    (hcount : count q support weight = some counted)
    (hconviction : ∀ t, s.governor.conviction id = some t →
      ∃ t', countConviction (decayTo t env.sequence) support weight = some t') :
    (vote env voter id support).Succeeds s := by
  have hcall : (callToken (Token.getPastVotes voter p.snapshotLedger)).Returns s weight s :=
    returns_call_iff.mpr ⟨s.token, hread, rfl⟩
  have hnotEnded := Nat.not_lt.mpr h.notEnded
  rw [vote, (returns_requireConfig hconfig).succeeds_bind_iff, requireAuth,
    succeeds_demand_bind_iff, succeeds_rejectIf_bind_iff,
    (returns_requireProposal h.stored).succeeds_bind_iff, succeeds_read_bind_iff,
    succeeds_rejectIf_bind_iff, succeeds_rejectIf_bind_iff, succeeds_rejectIf_bind_iff,
    succeeds_rejectIf_bind_iff, hcall.succeeds_bind_iff, succeeds_rejectIf_bind_iff]
  refine ⟨h.auth, Nat.not_lt.mpr h.choice, fun hended => hnotEnded hended.1, hnotEnded,
    not_not.mpr h.active, Nat.not_lt.mpr h.started, Int.not_le.mpr hpositive, ?_⟩
  simp only [succeeds_okOr_bind_iff]
  exact ⟨q, huncount, counted, hcount,
    voteConviction_succeeds_bind hconviction fun _ => succeeds_write_iff.mpr trivial⟩

/-- In a reachable state a vote is accepted exactly if everything but the weight speaks for it,
there is a weight, and it fits. -/
theorem vote_accepted_iff {calls : List Invocation}
    (hcalls : machine.Scheduled start env.sequence calls)
    (hstored : (machine.run System.empty calls).governor.proposal id = some p) :
    Accepted env (.vote voter id support) (machine.run System.empty calls) ↔
      MayVote env voter id support p (machine.run System.empty calls) ∧
        0 < (votingPower (machine.run System.empty calls) voter id).val ∧
          Fits env.sequence id support ((machine.run System.empty calls).governor.hasVoted id voter)
            p (votingPower (machine.run System.empty calls) voter id).val
            (machine.run System.empty calls) := by
  have hw := wellFormed_run hcalls
  have hreading := (votingPower_run hcalls hstored voter).1
  have hpolled := polled hcalls p hstored
  generalize machine.run System.empty calls = s at *
  constructor
  · intro haccepted
    obtain ⟨q, counted, weight, hvotes⟩ := vote_returns haccepted.returns
    obtain rfl := Option.some.inj (hstored.symm.trans hvotes.stored)
    rw [hvotes.votingPower_eq]
    exact ⟨⟨hstored, hvotes.authorized, hvotes.choice, hvotes.active, hvotes.started,
      hvotes.notEnded⟩, hvotes.positive, hvotes.fits hw⟩
  · rintro ⟨hmay, hpositive, hfits⟩
    obtain ⟨config, hconfig, -⟩ := (hw.proposals id p hstored).endLedger
    obtain ⟨σ, hσ⟩ := hpolled
    obtain ⟨q, huncount⟩ := hσ.uncounts hpositive.le
    obtain ⟨counted, hcount⟩ := hfits.counts hw hmay.choice hpositive huncount
    refine hmay.succeeds hconfig hreading hpositive huncount hcount fun t ht => ?_
    have hlower := ((decayTo t env.sequence).side support).lower
    exact countConviction_succeeds (by omega) fun hside => hfits.conviction hside t ht

/-! ## What is left of a weight -/

/-- Neither part of a weight that could be told after the calls `first` has been pruned since,
unless it was nothing. -/
structure StillLegible (first calls : List Invocation) (voter : Address) (ledger : ℕ) : Prop where
  votes : votesLegible (machine.run System.empty first) voter ledger = true →
    delegatedAtClose calls voter ledger ≠ 0 →
      votesLegible (machine.run System.empty calls) voter ledger = true
  boost : boostLegible (machine.run System.empty first) voter ledger = true →
    boostAtClose calls voter ledger ≠ 0 →
      boostLegible (machine.run System.empty calls) voter ledger = true

/-- A part is told as before exactly if it has not been pruned or was nothing. -/
theorem legible_eq_iff {earlier later : Bool} (amount : ℤ)
    (hpruned : later = true → earlier = true) :
    ((if later = true then amount else 0) = if earlier = true then amount else 0) ↔
      (earlier = true → amount ≠ 0 → later = true) := by
  cases earlier with
  | false =>
    cases later with
    | false => simp
    | true => exact absurd (hpruned rfl) (by simp)
  | true =>
    cases later with
    | false => simp [eq_comm]
    | true => simp

/-- All of a weight is left exactly if neither part has been pruned. -/
theorem stillLegible_iff {first more : List Invocation} {ledger : ℕ}
    (hfirst : machine.Scheduled start mid first) (hmore : machine.Scheduled mid now more)
    (hledger : ledger < mid) :
    StillLegible first (first ++ more) voter ledger ↔
      legibleWeight (first ++ more) voter ledger = legibleWeight first voter ledger := by
  have hvotes := votesLegible_append hfirst hmore hledger voter
  have hboost := boostLegible_append hfirst hmore hledger voter
  have hvotesLe := legible_le hvotes (delegatedAtClose_nonneg first voter ledger hfirst)
  have hboostLe := legible_le hboost (boostAtClose_nonneg first voter ledger)
  have hvotesEq := legible_eq_iff (delegatedAtClose first voter ledger) hvotes
  have hboostEq := legible_eq_iff (boostAtClose first voter ledger) hboost
  rw [legibleWeight, legibleWeight, delegatedAtClose_append hmore hledger,
    boostAtClose_append hmore hledger]
  constructor
  · rintro ⟨hkept, hkept'⟩
    rw [delegatedAtClose_append hmore hledger] at hkept
    rw [boostAtClose_append hmore hledger] at hkept'
    rw [hvotesEq.mpr hkept, hboostEq.mpr hkept']
  · intro hsum
    constructor
    · rw [delegatedAtClose_append hmore hledger]
      exact hvotesEq.mp (by omega)
    · rw [boostAtClose_append hmore hledger]
      exact hboostEq.mp (by omega)

/-! ## The vote before -/

/-- After the calls `first` the voter cast a vote that was accepted, and none on the same proposal
since. -/
structure LastVote (calls first : List Invocation) (cast : Env) (voter : Address)
    (id support : ℕ) : Prop where
  accepted : Accepted cast (.vote voter id support) (machine.run System.empty first)
  since : ∃ later, calls = first ++ .governor cast (.vote voter id support) :: later ∧
    ∀ before env other after, later = before ++ .governor env (.vote voter id other) :: after →
      ¬ Accepted env (.vote voter id other) (machine.run System.empty
        (first ++ .governor cast (.vote voter id support) :: before))

/-- A call that is no accepted vote of the voter leaves the last vote the last one. -/
theorem LastVote.concat {calls first : List Invocation} {cast : Env} {i : Invocation}
    (h : LastVote calls first cast voter id support)
    (hi : ∀ env other, i = .governor env (.vote voter id other) →
      ¬ Accepted env (.vote voter id other) (machine.run System.empty calls)) :
    LastVote (calls ++ [i]) first cast voter id support := by
  obtain ⟨haccepted, later, rfl, hnone⟩ := h
  refine ⟨haccepted, later ++ [i], by rw [List.append_assoc, List.cons_append], ?_⟩
  intro before env other after hsplit
  rcases snoc_eq_append_cons hsplit with ⟨rfl, rfl⟩ | ⟨after', rfl⟩
  · exact hi env other rfl
  · exact hnone before env other after' rfl

/-- Every recorded choice is that of a last vote. -/
theorem exists_lastVote {calls : List Invocation} (hcalls : machine.Scheduled start now calls)
    {previous : ℕ}
    (hvoted : (machine.run System.empty calls).governor.hasVoted id voter = some previous) :
    ∃ first cast, LastVote calls first cast voter id previous := by
  induction calls using List.reverseRecOn generalizing now with
  | nil => simp [System.empty, Storage.empty] at hvoted
  | append_singleton calls i ih =>
    obtain ⟨hfirst, -⟩ := hcalls.of_append
    have hw := wellFormed_run hfirst
    rw [Clocked.run_append, Clocked.run_cons, Clocked.run_nil] at hvoted
    -- Where the step is no vote of this voter, the earlier vote stays the last one.
    have hkept : (machine.run System.empty calls).governor.hasVoted id voter = some previous →
        (∀ b ∈ ballotOf id (machine.run System.empty calls) i, b.voter ≠ voter) →
        ∃ first cast, LastVote (calls ++ [i]) first cast voter id previous := by
      intro hbefore hother
      obtain ⟨first, cast, hlast⟩ := ih hfirst hbefore
      refine ⟨first, cast, hlast.concat ?_⟩
      rintro env other rfl haccepted
      have hballot : ballotOf id (machine.run System.empty calls)
          (.governor env (.vote voter id other)) = some ⟨env.sequence, voter, other,
            (votingPower (machine.run System.empty calls) voter id).val⟩ := if_pos ⟨rfl, haccepted⟩
      exact hother _ hballot rfl
    cases voteStep hw i id with
    | unvoted hballot hvotes _ =>
      rw [hvotes] at hvoted
      exact hkept hvoted (by rw [hballot]; exact fun b hb => by contradiction)
    | opened hballot hvotes _ _ _ =>
      rw [hvotes] at hvoted
      exact hkept hvoted (by rw [hballot]; exact fun b hb => by contradiction)
    | @voted env other support p counted weight hcall haccepted hballot h =>
      rw [h.hasVoted, Function.update_self] at hvoted
      by_cases hvoter : other = voter
      · subst hvoter hcall
        rw [Function.update_self] at hvoted
        obtain rfl := Option.some.inj hvoted
        refine ⟨calls, env, haccepted, [], rfl, fun before _ _ after hsplit => ?_⟩
        simp at hsplit
      · rw [Function.update_of_ne (Ne.symm hvoter)] at hvoted
        refine hkept hvoted fun b hb => ?_
        rw [hballot, Option.mem_some_iff] at hb
        rw [← hb]
        exact hvoter

/-! ## What a changed vote moves -/

/-- A vote takes this weight out of the earlier choice and adds it to the new one. -/
structure MovesWeight (env : Env) (voter : Address) (id previous support : ℕ) (weight : I128)
    (s : System) : Prop where
  counts : CountsWeight env voter id support s weight
  tallies : ∀ p p', s.governor.proposal id = some p →
    (machine.step (.governor env (.vote voter id support)) s).governor.proposal id = some p' →
      ∀ c ≤ 2, (p'.tally c).val = (p.tally c).val - (if previous = c then weight.val else 0) +
        if support = c then weight.val else 0

/-- A vote fails and changes nothing, or it moves exactly this weight. -/
def ChangesExactly (env : Env) (voter : Address) (id previous support : ℕ) (weight : I128)
    (s : System) : Prop :=
  ¬ Accepted env (.vote voter id support) s ∧
      machine.step (.governor env (.vote voter id support)) s = s ∨
    MovesWeight env voter id previous support weight s

/-- A repeated vote moves what it reads. -/
theorem changesExactly_iff {previous : ℕ} {weight : I128} (hw : WellFormed now s)
    (hvoted : s.governor.hasVoted id voter = some previous) :
    ChangesExactly env voter id previous support weight s ↔
      (Accepted env (.vote voter id support) s → votingPower s voter id = weight) := by
  constructor
  · rintro (⟨hrefused, -⟩ | hmoves) haccepted
    · contradiction
    · obtain ⟨p, counted, hvotes⟩ := hmoves.counts
      exact hvotes.votingPower_eq
  · intro hreads
    by_cases haccepted : Accepted env (.vote voter id support) s
    · obtain ⟨read, hcounts⟩ := haccepted.countsWeight
      obtain ⟨p, counted, hvotes⟩ := hcounts
      obtain rfl : read = weight := hvotes.votingPower_eq.symm.trans (hreads haccepted)
      refine .inr ⟨⟨p, counted, hvotes⟩, fun q q' hq hq' c hc => ?_⟩
      obtain rfl := Option.some.inj (hvotes.stored.symm.trans hq)
      rw [hvotes.proposal, Function.update_self] at hq'
      obtain rfl := Option.some.inj hq'
      rw [hvotes.tally hw hc, hvoted]
      simp only [Option.some.injEq]
    · exact .inl ⟨haccepted, step_eq_of_not_accepted haccepted⟩

section Changed

variable {calls first : List Invocation} {cast : Env} {previous : ℕ}
  (hcalls : machine.Scheduled start env.sequence calls)
  (hstored : (machine.run System.empty calls).governor.proposal id = some p)
  (hlast : LastVote calls first cast voter id previous)

include hcalls hstored hlast

/-- When the last vote was cast the proposal was stored and its snapshot ledger over. -/
theorem LastVote.before :
    ∃ later, calls = first ++ later ∧ machine.Scheduled start cast.sequence first ∧
      machine.Scheduled cast.sequence env.sequence later ∧ p.snapshotLedger < cast.sequence ∧
      ∃ q, (machine.run System.empty first).governor.proposal id = some q ∧ Kept q p := by
  obtain ⟨haccepted, later, rfl, -⟩ := hlast
  obtain ⟨hfirst, hlater⟩ := hcalls.of_append
  obtain ⟨q, counted, weight, hvotes⟩ := vote_returns haccepted.returns
  have hw : WellFormed cast.sequence (machine.run System.empty first) := wellFormed_run hfirst
  have hrest : machine.Scheduled cast.sequence env.sequence
      (.governor cast (.vote voter id previous) :: later) := ⟨le_rfl, hlater⟩
  obtain ⟨p', hp', hkept⟩ := kept_run hw hrest hvotes.stored
  rw [← Clocked.run_append, hstored] at hp'
  obtain rfl := Option.some.inj hp'
  exact ⟨_, rfl, hfirst, hrest, hkept.snapshotLedger ▸ hvotes.closed hw, q, hvotes.stored, hkept⟩

/-- The reading of the last vote, and what has become of it. -/
theorem LastVote.readings :
    (votingPower (machine.run System.empty first) voter id).val =
        min (legibleWeight first voter p.snapshotLedger) maxI128 ∧
      (votingPower (machine.run System.empty calls) voter id).val ≤
        (votingPower (machine.run System.empty first) voter id).val ∧
      (StillLegible first calls voter p.snapshotLedger ↔
        legibleWeight calls voter p.snapshotLedger =
          legibleWeight first voter p.snapshotLedger) := by
  obtain ⟨later, rfl, hfirst, hlater, hclosed, q, hq, hkept⟩ := hlast.before hcalls hstored
  rw [hkept.snapshotLedger] at hclosed ⊢
  exact ⟨votingPower_eq_legibleWeight hfirst hq voter,
    votingPower_append_le hfirst hlater hq hclosed voter,
    stillLegible_iff hfirst hlater hclosed⟩

/-- Within the retention window the reading of the last vote is still the same. -/
theorem LastVote.votingPower_eq
    (hretained : env.sequence ≤ p.snapshotLedger + Token.checkpointRetention) :
    votingPower (machine.run System.empty calls) voter id =
      votingPower (machine.run System.empty first) voter id := by
  obtain ⟨later, rfl, hfirst, hlater, hclosed, q, hq, hkept⟩ := hlast.before hcalls hstored
  rw [I128.ext_iff, votingPower_eq_snapshotWeight hcalls hstored hretained,
    snapshotWeight_append hlater hclosed, hkept.snapshotLedger]
  rw [hkept.snapshotLedger] at hretained
  exact (votingPower_eq_snapshotWeight hfirst hq (hlater.le.trans hretained) voter).symm

end Changed

/-- In every reachable state, a vote of somebody who has voted on the proposal before fails or moves
exactly the weight of that voter's last vote, unless it is accepted with what is left of a weight
of which a part has been pruned since. Within the retention window that cannot happen. -/
theorem vote_change_exact_iff {calls : List Invocation} {previous : ℕ}
    (hcalls : machine.Scheduled start env.sequence calls)
    (hstored : (machine.run System.empty calls).governor.proposal id = some p)
    (hvoted : (machine.run System.empty calls).governor.hasVoted id voter = some previous) :
    let s := machine.run System.empty calls
    (∃ first cast, LastVote calls first cast voter id previous) ∧
    ∀ first cast, LastVote calls first cast voter id previous →
      ∃ weight, CountsWeight cast voter id previous (machine.run System.empty first) weight ∧
        ∀ support, (ChangesExactly env voter id previous support weight s ↔
          (MayVote env voter id support p s → 0 < legibleWeight calls voter p.snapshotLedger →
            legibleWeight calls voter p.snapshotLedger < maxI128 →
            Fits env.sequence id support (some previous) p
              (legibleWeight calls voter p.snapshotLedger) s →
            StillLegible first calls voter p.snapshotLedger)) ∧
        (env.sequence ≤ p.snapshotLedger + Token.checkpointRetention →
          ChangesExactly env voter id previous support weight s) := by
  intro s
  have hw : WellFormed env.sequence s := wellFormed_run hcalls
  refine ⟨exists_lastVote hcalls hvoted, fun first cast hlast => ?_⟩
  obtain ⟨weight, hcounts⟩ := hlast.accepted.countsWeight
  have hweight : votingPower (machine.run System.empty first) voter id = weight := by
    obtain ⟨q, counted, hvotes⟩ := hcounts
    exact hvotes.votingPower_eq
  obtain ⟨hthen, hle, hleft⟩ := hlast.readings hcalls hstored
  have hnow : (votingPower s voter id).val = _ := votingPower_eq_legibleWeight hcalls hstored voter
  rw [hweight] at hthen hle
  change (votingPower s voter id).val ≤ weight.val at hle
  refine ⟨weight, hcounts, fun support => ⟨?_, fun hretained =>
    (changesExactly_iff hw hvoted).mpr fun _ =>
      (hlast.votingPower_eq hcalls hstored hretained).trans hweight⟩⟩
  rw [changesExactly_iff hw hvoted, vote_accepted_iff hcalls hstored, hvoted, I128.ext_iff, hleft]
  generalize legibleWeight calls voter p.snapshotLedger = left at *
  constructor
  · intro hreads hmay hpositive hcut hfits
    rw [min_eq_left hcut.le] at hnow
    have hsame := hreads ⟨hmay, hnow ▸ hpositive, hnow ▸ hfits⟩
    omega
  · rintro hkept ⟨hmay, hpositive, hfits⟩
    rcases Int.lt_or_le left maxI128 with hcut | hcut
    · rw [min_eq_left hcut.le] at hnow
      have hsame := hkept hmay (hnow ▸ hpositive) hcut (hnow ▸ hfits)
      rw [hnow, hthen, ← hsame, min_eq_left hcut.le]
    · have hupper := weight.upper
      omega

/-- The holder of the whole supply has voted Against and changes to For. -/
theorem vote_change_exact_moved : ∃ first cast weight,
    LastVote (countedCalls.take 5) first cast (.account 1) 1 0 ∧
      CountsWeight cast (.account 1) 1 0 (machine.run System.empty first) weight ∧
      ChangesExactly (.authorized 7) (.account 1) 1 0 1 weight
        (machine.run System.empty (countedCalls.take 5)) := by
  have hcalls : machine.Scheduled 0 (Env.authorized 7).sequence (countedCalls.take 5) := by decide
  obtain ⟨p, hp⟩ : ∃ p, (machine.run System.empty (countedCalls.take 5)).governor.proposal 1 =
      some p := ⟨_, rfl⟩
  have hsnapshot : ((machine.run System.empty (countedCalls.take 5)).governor.proposal 1).map
      Proposal.snapshotLedger = some 5 := by decide
  rw [hp, Option.map_some, Option.some.injEq] at hsnapshot
  have hvoted : (machine.run System.empty (countedCalls.take 5)).governor.hasVoted 1 (.account 1) =
      some 0 := by decide
  have hretained : (Env.authorized 7).sequence ≤ p.snapshotLedger + Token.checkpointRetention := by
    rw [hsnapshot]
    decide
  obtain ⟨⟨first, cast, hlast⟩, hchange⟩ := vote_change_exact_iff hcalls hp hvoted
  obtain ⟨weight, hcounts, hexact⟩ := hchange first cast hlast
  exact ⟨first, cast, weight, hlast, hcounts, (hexact 1).2 hretained⟩

/-- Under a voting period that is longer than the retention window the holder of the supply stakes
half of it, votes For and makes two transfers. The second one comes so late that the votes at the
snapshot ledger are pruned, while the stake is not. -/
def prunedCalls : List Invocation :=
  launchCalls 2000000 ++
    [.token ⟨.authorized 1, .stake (.account 1) (.ofNat 50) Token.maxLockLedgers⟩,
      .governor (.authorized 5) (.createProposal (.account 1) [84] [] []),
      .governor (.authorized 6) (.vote (.account 1) 1 1),
      .token ⟨.authorized 10, .transfer (.account 1) (.account 2) (.ofNat 1)⟩,
      .token ⟨.authorized 1036900, .transfer (.account 1) (.account 2) (.ofNat 1)⟩]

/-- The holder changes to Against. The boost alone is taken out of For, and 100 stays there. -/
theorem vote_change_pruned :
    let s := machine.run System.empty prunedCalls
    machine.Scheduled 0 1036901 prunedCalls ∧
      LastVote prunedCalls (prunedCalls.take 4) (.authorized 6) (.account 1) 1 1 ∧
      ∃ weight, CountsWeight (.authorized 6) (.account 1) 1 1
          (machine.run System.empty (prunedCalls.take 4)) weight ∧ weight.val = 149 ∧
        Accepted (.authorized 1036901) (.vote (.account 1) 1 0) s ∧
        ((machine.step (.governor (.authorized 1036901) (.vote (.account 1) 1 0)) s).governor.proposal
          1).map (fun p => (p.forVotes.val, p.againstVotes.val)) = some (100, 49) ∧
        ¬ ChangesExactly (.authorized 1036901) (.account 1) 1 1 0 weight s := by
  intro s
  have hcalls : machine.Scheduled 0 1036901 prunedCalls := by decide
  have haccepted : Accepted (.authorized 6) (.vote (.account 1) 1 1)
      (machine.run System.empty (prunedCalls.take 4)) := by decide
  have hagain : Accepted (.authorized 1036901) (.vote (.account 1) 1 0) s := by decide
  have hthen : (votingPower (machine.run System.empty (prunedCalls.take 4)) (.account 1) 1).val =
      149 := by decide
  have hnow : (votingPower s (.account 1) 1).val = 49 := by decide
  have hvoted : s.governor.hasVoted 1 (.account 1) = some 1 := by decide
  obtain ⟨weight, p, counted, hvotes⟩ := haccepted.countsWeight
  rw [hvotes.votingPower_eq] at hthen
  refine ⟨hcalls, ⟨haccepted, _, rfl, fun before env other after hsplit => ?_⟩, weight,
    ⟨p, counted, hvotes⟩, hthen, hagain, by decide, ?_⟩
  · have hmem : Invocation.governor env (.vote (.account 1) 1 other) ∈ prunedCalls.drop 5 := by
      rw [show prunedCalls.drop 5 = _ from hsplit]
      simp
    simp [prunedCalls, launchCalls] at hmem
  · rw [changesExactly_iff (wellFormed_run hcalls) hvoted]
    intro hreads
    rw [← hreads hagain, hnow] at hthen
    contradiction

end Quorum.Governor

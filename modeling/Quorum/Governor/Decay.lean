import Quorum.Governor.Ballots

/-!
# Decay and abstentions

An abstention adds nothing to a conviction tally, but it brings the tally forward and restarts
its clock. The half-life that was running is lost, so the tally then decays later than it would
have. `decayTo_decayTo_iff` says exactly when bringing a tally forward on the way to a later
ledger changes nothing, and `losesNoHalving_iff` when no later reading is changed. A run all of
whose abstentions are of that kind reads as if there had been none. In a run all of whose votes are
of that kind, every vote counts with one halving for each whole half-life since it was cast.
-/

namespace Quorum.Governor

open Foundation Contract

variable {s s' : System} {env : Env} {start mid now id : ℕ} {t t' : ConvictionTally}

/-! ## Decay in two stages -/

/-- The two sides are the same; the clocks need not be. -/
def SameSides (t t' : ConvictionTally) : Prop := ∀ x ≤ 1, t.side x = t'.side x

/-- Bringing a tally forward and then further on leaves the same sides as bringing it forward at
once exactly when the halvings of the two stages make up those of the whole. -/
theorem decayTo_decayTo_iff {a b : ℕ} (hua : t.updatedLedger ≤ a) (hab : a ≤ b) :
    SameSides (decayTo (decayTo t a) b) (decayTo t b) ↔
      ∀ x ≤ 1, HalvesTogether (t.side x).val ((a - t.updatedLedger) / convictionHalfLife)
        ((b - a) / convictionHalfLife) ((b - t.updatedLedger) / convictionHalfLife) := by
  have hsplit := periods_split hua hab (show 0 < convictionHalfLife by decide)
  have hstages : ∀ x, (decayTo (decayTo t a) b).side x = (decayTo t b).side x ↔
      HalvesTogether (t.side x).val ((a - t.updatedLedger) / convictionHalfLife)
        ((b - a) / convictionHalfLife) ((b - t.updatedLedger) / convictionHalfLife) := by
    intro x
    rw [side_decayTo, side_decayTo, side_decayTo]
    exact halved_halved_iff (t.side x) hsplit
  exact forall_congr' fun x => imp_congr_right fun _ => hstages x

/-- Bringing a tally forward to a ledger loses nothing: the time since the last write is made of
whole half-lives, or no side has anything left to halve. -/
def LosesNoHalving (t : ConvictionTally) (ledger : ℕ) : Prop :=
  (ledger - t.updatedLedger) % convictionHalfLife = 0 ∨
    ∀ x ≤ 1, (t.side x).val < 2 ^ ((ledger - t.updatedLedger) / convictionHalfLife)

/-- No later reading of a tally is changed by bringing it forward exactly when that loses
nothing. -/
theorem losesNoHalving_iff (hnonneg : ∀ x ≤ 1, 0 ≤ (t.side x).val) {a : ℕ}
    (hua : t.updatedLedger ≤ a) :
    (∀ b, a ≤ b → SameSides (decayTo (decayTo t a) b) (decayTo t b)) ↔ LosesNoHalving t a := by
  have hside : ∀ x ≤ 1, (∀ b, a ≤ b →
      (decayTo (decayTo t a) b).side x = (decayTo t b).side x) ↔
      (a - t.updatedLedger) % convictionHalfLife = 0 ∨
        (t.side x).val < 2 ^ ((a - t.updatedLedger) / convictionHalfLife) := by
    intro x hx
    have hdecayed : 0 ≤ ((decayTo t a).side x).val := by
      rw [side_decayTo]
      exact halved_nonneg (hnonneg x hx) _
    have hhalf : 0 < convictionHalfLife := by decide
    let σ : Standing ℕ := ⟨t.updatedLedger, fun x => (t.side x).val⟩
    have hcut := Standing.fade_fade_iff hhalf (show 0 ≤ σ.amount x from hnonneg x hx)
      (show σ.clock ≤ a from hua)
    refine Iff.trans (forall_congr' ?_) hcut
    intro b
    rw [I128.ext_iff, side_decayTo_val hdecayed, side_decayTo_val (hnonneg x hx),
      side_decayTo_val (hnonneg x hx)]
    rfl
  constructor
  · intro hsame
    by_cases hmod : (a - t.updatedLedger) % convictionHalfLife = 0
    · exact .inl hmod
    · refine .inr fun x hx => ?_
      exact ((hside x hx).mp fun b hab => hsame b hab x hx).resolve_left hmod
  · intro hharmless b hab x hx
    exact (hside x hx).mpr (hharmless.imp_right fun hsmall => hsmall x hx) b hab

/-! ## Runs with abstentions -/

/-- The For and Against ballots on a proposal in a run. -/
def sideBallots (id : ℕ) (s : System) (calls : List Invocation) : List (Ballot Address ℕ) :=
  (ballots id s calls).filter fun b => b.choice ≤ 1

/-- Every accepted abstention finds a tally that loses nothing by being brought forward. -/
def AbstainsHarmlessly (id : ℕ) (s : System) (past : List Invocation) (i : Invocation) : Prop :=
  ∀ env voter t, i = .governor env (.vote voter id 2) →
    Accepted env (.vote voter id 2) (machine.run s past) →
      (machine.run s past).governor.conviction id = some t → LosesNoHalving t env.sequence

/-- An abstention that loses nothing leaves what a tally represents. -/
theorem Represents.abstained {σ : Standing ℕ} (h : Represents t σ) (hclock : t.updatedLedger ≤ now)
    (hharmless : LosesNoHalving t now) : Represents (decayTo t now) σ where
  nonneg x hx := by
    rw [side_decayTo]
    exact halved_nonneg (h.nonneg x hx) _
  reads ledger hledger x hx := by
    have hsame := (losesNoHalving_iff h.nonneg hclock).mpr hharmless ledger hledger x hx
    rw [hsame]
    exact h.reads ledger (hclock.trans hledger) x hx

/-- Where all abstentions are harmless, the conviction tally represents the replay of the For
and Against ballots alone. -/
theorem sideBallots_run {base calls : List Invocation} (hbase : machine.Scheduled start mid base)
    (hcalls : machine.Scheduled mid now calls)
    (ht : (machine.run System.empty base).governor.conviction id = some t)
    (hharmless : Clocked.Throughout (AbstainsHarmlessly id (machine.run System.empty base)) []
      calls) :
    ∃ t', (machine.run (machine.run System.empty base) calls).governor.conviction id = some t' ∧
      Represents t' (Standing.replay convictionHalfLife
        ⟨t.updatedLedger, fun x => (t.side x).val⟩
        (sideBallots id (machine.run System.empty base) calls)) := by
  have hstart : machine.Scheduled mid mid [] := le_refl mid
  refine (machine.invariant_of_throughout (AbstainsHarmlessly id (machine.run System.empty base))
    (fun u past => machine.Scheduled mid u past ∧
      ∃ t', (machine.run (machine.run System.empty base) past).governor.conviction id = some t' ∧
        Represents t' (Standing.replay convictionHalfLife
          ⟨t.updatedLedger, fun x => (t.side x).val⟩
          (sideBallots id (machine.run System.empty base) past)))
    ?_ ?_ ⟨hstart, t, ht, .self (conviction_run hbase ht).1.nonneg⟩ hcalls hharmless).2
  · exact fun u u' past h hle => ⟨h.1.extend hle, h.2⟩
  · rintro i past habstain ⟨hpast, t₁, ht₁, hrepresents⟩
    have hone : machine.Scheduled (machine.time i) (machine.time i) [i] := ⟨le_rfl, le_rfl⟩
    refine ⟨hpast.append hone, ?_⟩
    have hsofar := hbase.append hpast
    rw [← Clocked.run_append] at ht₁
    have hclock : t₁.updatedLedger ≤ machine.time i := (conviction_run hsofar ht₁).1.clock
    have hstep := voteStep (wellFormed_run hsofar) i id
    rw [Clocked.run_append] at ht₁ hstep
    rw [Clocked.run_append, sideBallots, ballots_concat, List.filter_append]
    cases hstep with
    | unvoted hballot _ h =>
      rw [hballot, Option.toList_none, List.filter_nil, List.append_nil]
      exact ⟨t₁, h.trans ht₁, hrepresents⟩
    | opened _ _ hnone _ _ =>
      rw [hnone.2] at ht₁
      contradiction
    | @voted env voter support p counted weight hcall haccepted hballot h =>
      subst hcall
      rcases h.counted_conviction with ⟨hnone, -⟩ | ⟨t₀, t', hstored, hstored', hcount⟩
      · rw [hnone] at ht₁
        contradiction
      · obtain rfl : t₀ = t₁ := Option.some.inj (hstored.symm.trans ht₁)
        refine ⟨t', hstored', ?_⟩
        rw [hballot, Option.toList_some]
        by_cases hside : support ≤ 1
        · rw [List.filter_cons_of_pos (by simpa using hside), List.filter_nil, Standing.replay_concat]
          exact hrepresents.counted hclock hcount h.positive.le voter
        · obtain rfl : support = 2 := by have := h.choice; omega
          obtain rfl : decayTo t₀ env.sequence = t' := Option.some.inj hcount
          rw [List.filter_cons_of_neg (by simp), List.filter_nil, List.append_nil]
          exact hrepresents.abstained hclock (habstain env voter t₀ rfl haccepted hstored)

/-- Tallies that represent the same standing read the same from their clocks on. -/
theorem Represents.sameSides {σ : Standing ℕ} (h : Represents t σ) (h' : Represents t' σ)
    {ledger : ℕ} (hclock : t.updatedLedger ≤ ledger) (hclock' : t'.updatedLedger ≤ ledger) :
    SameSides (decayTo t ledger) (decayTo t' ledger) := by
  intro x hx
  rw [I128.ext_iff, h.reads ledger hclock x hx, h'.reads ledger hclock' x hx]

/-- The majority looks at the sides at the close of voting only. -/
theorem majorityFor_eq {p p' : Proposal} (hend : p'.endLedger = p.endLedger)
    (h : SameSides (decayTo t p.endLedger) (decayTo t' p.endLedger)) :
    majorityFor p' (some t') = majorityFor p (some t) := by
  have hagainst : (decayTo t p.endLedger).againstConviction =
      (decayTo t' p.endLedger).againstConviction := h 0 (by decide)
  have hfor : (decayTo t p.endLedger).forConviction =
      (decayTo t' p.endLedger).forConviction := h 1 le_rfl
  simp only [majorityFor, hend, hagainst, hfor]

/-- A proposal with a conviction tally keeps its window, and the tally its clock within it. -/
theorem window_run {base calls : List Invocation} (hbase : machine.Scheduled start mid base)
    (hcalls : machine.Scheduled mid now calls) {p : Proposal}
    (hp : (machine.run System.empty base).governor.proposal id = some p)
    (ht : (machine.run (machine.run System.empty base) calls).governor.conviction id = some t) :
    t.updatedLedger ≤ now ∧ ∃ p',
      (machine.run (machine.run System.empty base) calls).governor.proposal id = some p' ∧
        p'.endLedger = p.endLedger ∧ t.updatedLedger ≤ p.endLedger := by
  obtain ⟨p', hp', hkept⟩ := kept_run (wellFormed_run hbase) hcalls hp
  rw [← Clocked.run_append] at ht hp' ⊢
  obtain ⟨hwell, -⟩ := conviction_run (hbase.append hcalls) ht
  obtain ⟨q, hq, hend⟩ := hwell.window
  obtain rfl : p' = q := Option.some.inj (hp'.symm.trans hq)
  exact ⟨hwell.clock, p', hp', hkept.endLedger, hkept.endLedger ▸ hend⟩

/-- Two continuations of a run with the same accepted For and Against votes and harmless
abstentions read the same conviction at every later ledger, and the same majority. -/
theorem sameReading_run {base calls₁ calls₂ : List Invocation} {now₁ now₂ : ℕ}
    (hbase : machine.Scheduled start mid base) (hcalls₁ : machine.Scheduled mid now₁ calls₁)
    (hcalls₂ : machine.Scheduled mid now₂ calls₂)
    (ht : (machine.run System.empty base).governor.conviction id = some t)
    (hsides : sideBallots id (machine.run System.empty base) calls₁ =
      sideBallots id (machine.run System.empty base) calls₂)
    (hharmless₁ : Clocked.Throughout (AbstainsHarmlessly id (machine.run System.empty base)) []
      calls₁)
    (hharmless₂ : Clocked.Throughout (AbstainsHarmlessly id (machine.run System.empty base)) []
      calls₂) :
    let s₁ := machine.run (machine.run System.empty base) calls₁
    let s₂ := machine.run (machine.run System.empty base) calls₂
    (∀ ledger, now₁ ≤ ledger → now₂ ≤ ledger → ∃ r₁ r₂,
      getConviction s₁.governor id ledger = some r₁ ∧
      getConviction s₂.governor id ledger = some r₂ ∧ SameSides r₁ r₂) ∧
    ∃ p₁ p₂, s₁.governor.proposal id = some p₁ ∧ s₂.governor.proposal id = some p₂ ∧
      majorityFor p₁ (s₁.governor.conviction id) = majorityFor p₂ (s₂.governor.conviction id) := by
  intro s₁ s₂
  obtain ⟨p, hp, -⟩ := (conviction_run hbase ht).1.window
  obtain ⟨t₁, ht₁, hrepresents₁⟩ := sideBallots_run hbase hcalls₁ ht hharmless₁
  obtain ⟨t₂, ht₂, hrepresents₂⟩ := sideBallots_run hbase hcalls₂ ht hharmless₂
  rw [← hsides] at hrepresents₂
  obtain ⟨hclock₁, p₁, hp₁, hend₁, hwindow₁⟩ := window_run hbase hcalls₁ hp ht₁
  obtain ⟨hclock₂, p₂, hp₂, hend₂, hwindow₂⟩ := window_run hbase hcalls₂ hp ht₂
  constructor
  · intro ledger hledger₁ hledger₂
    refine ⟨decayTo t₁ ledger, decayTo t₂ ledger, ?_, ?_, ?_⟩
    · rw [getConviction, show s₁.governor.conviction id = some t₁ from ht₁, Option.map_some]
    · rw [getConviction, show s₂.governor.conviction id = some t₂ from ht₂, Option.map_some]
    · exact hrepresents₁.sameSides hrepresents₂ (hclock₁.trans hledger₁) (hclock₂.trans hledger₂)
  · refine ⟨p₁, p₂, hp₁, hp₂, ?_⟩
    rw [show s₁.governor.conviction id = some t₁ from ht₁,
      show s₂.governor.conviction id = some t₂ from ht₂]
    apply majorityFor_eq (hend₁.trans hend₂.symm)
    rw [hend₂]
    exact hrepresents₂.sameSides hrepresents₁ hwindow₂ hwindow₁

/-! ## The halvings of each vote -/

/-- Every accepted vote, whatever its choice, finds a tally that loses nothing by being brought
forward. -/
def VotesHarmlessly (id : ℕ) (past : List Invocation) (i : Invocation) : Prop :=
  ∀ env voter support t, i = .governor env (.vote voter id support) →
    Accepted env (.vote voter id support) (machine.run System.empty past) →
      (machine.run System.empty past).governor.conviction id = some t →
        LosesNoHalving t env.sequence

/-- What a side of a conviction tally comes to at a ledger when each of the votes for it has been
halved once for every whole half-life since it was cast, rounded down at the end. -/
def votesHalved (id : ℕ) (calls : List Invocation) (x ledger : ℕ) : ℤ :=
  ⌊Standing.ideal convictionHalfLife (ballots id System.empty calls) x ledger⌋

/-- A vote that loses no halving keeps each side up with its votes. -/
theorem keepsUp_counted {voter : Address} {support : ℕ} {weight : I128}
    {past : List Invocation} (hpast : machine.Scheduled start env.sequence past)
    (hcount : countConviction (decayTo t env.sequence) support weight = some t')
    (hold : TallyWellFormed env.sequence s id t) (hwhole : LosesNoHalving t env.sequence)
    (hkeeps : ∀ x ≤ 1, Standing.KeepsUp convictionHalfLife t.updatedLedger (t.side x).val
      (ballots id System.empty past) x) :
    ∀ x ≤ 1, Standing.KeepsUp convictionHalfLife t'.updatedLedger (t'.side x).val
      (ballots id System.empty past ++ [⟨env.sequence, voter, support, weight.val⟩]) x := by
  intro x hx
  have hside := countConviction_side hcount hx
  have hclock : t'.updatedLedger = env.sequence := countConviction_updatedLedger hcount
  rw [side_decayTo_val (hold.nonneg x hx)] at hside
  rw [hside, hclock]
  have hlost : (env.sequence - t.updatedLedger) % convictionHalfLife = 0 ∨
      (t.side x).val < 2 ^ ((env.sequence - t.updatedLedger) / convictionHalfLife) :=
    hwhole.imp_right fun hsmall => hsmall x hx
  exact (hkeeps x hx).cast (b := ⟨env.sequence, voter, support, weight.val⟩) (by decide) hold.clock
    (hold.nonneg x hx) (ballots_weight_nonneg hpast) hlost

/-- In a run whose votes lose no halving each side keeps up with its votes. -/
theorem keepsUp_run {calls : List Invocation} (hcalls : machine.Scheduled start now calls)
    (hharmless : Clocked.Throughout (VotesHarmlessly id) [] calls)
    (ht : (machine.run System.empty calls).governor.conviction id = some t) :
    ∀ x ≤ 1, Standing.KeepsUp convictionHalfLife t.updatedLedger (t.side x).val
      (ballots id System.empty calls) x := by
  have hstart : machine.Scheduled start start [] := le_refl start
  refine (machine.invariant_of_throughout (VotesHarmlessly id)
    (fun u past => machine.Scheduled start u past ∧
      ∀ t, (machine.run System.empty past).governor.conviction id = some t → ∀ x ≤ 1,
        Standing.KeepsUp convictionHalfLife t.updatedLedger (t.side x).val
          (ballots id System.empty past) x)
    ?_ ?_ ⟨hstart, ?_⟩ hcalls hharmless).2 t ht
  · exact fun u u' past h hle => ⟨h.1.extend hle, h.2⟩
  · rintro i past hvotes ⟨hpast, hkeeps⟩
    have hone : machine.Scheduled (machine.time i) (machine.time i) [i] := ⟨le_rfl, le_rfl⟩
    refine ⟨hpast.append hone, fun t' ht' => ?_⟩
    rw [Clocked.run_append, Clocked.run_cons, Clocked.run_nil] at ht'
    rw [ballots_concat]
    cases voteStep (wellFormed_run hpast) i id with
    | unvoted hballot _ h =>
      rw [hballot, Option.toList_none, List.append_nil]
      exact hkeeps t' (h ▸ ht')
    | opened hballot _ hnone _ h =>
      rw [hballot, ballots_eq_nil hpast hnone.1]
      obtain rfl := Option.some.inj (h.symm.trans ht')
      intro x hx
      interval_cases x <;> exact .nil _
    | @voted env voter support p counted weight hcall haccepted hballot h =>
      subst hcall
      rcases h.counted_conviction with ⟨-, hnone⟩ | ⟨t₀, t₁, hstored, hstored', hcount⟩
      · rw [hnone] at ht'
        contradiction
      · obtain rfl := Option.some.inj (hstored'.symm.trans ht')
        rw [hballot, Option.toList_some]
        exact keepsUp_counted hpast hcount (conviction_run hpast hstored).1
          (hvotes env voter support t₀ rfl haccepted hstored) (hkeeps t₀ hstored)
  · exact fun t ht => by simp [System.empty, Storage.empty] at ht

/-- Bringing a tally forward on the way to a later ledger leaves its sides exactly when the
halvings of the two stages make up those of the whole, and for a tally that a run has reached it
leaves every later reading exactly when it loses no halving. In the runs whose abstentions lose
none, neither what is read later nor the majority depends on them; and in the runs whose votes lose
none, whatever their choice, every vote counts with one halving for each whole half-life between
it and the reading. -/
theorem decay_ignores_abstentions (id : ℕ) :
    (∀ t a b, t.updatedLedger ≤ a → a ≤ b →
      (SameSides (decayTo (decayTo t a) b) (decayTo t b) ↔ ∀ x ≤ 1, HalvesTogether (t.side x).val
        ((a - t.updatedLedger) / convictionHalfLife) ((b - a) / convictionHalfLife)
        ((b - t.updatedLedger) / convictionHalfLife))) ∧
    (∀ start now calls t a, machine.Scheduled start now calls →
      (machine.run System.empty calls).governor.conviction id = some t → now ≤ a →
        ((∀ b, a ≤ b → SameSides (decayTo (decayTo t a) b) (decayTo t b)) ↔
          LosesNoHalving t a)) ∧
    (∀ start mid now₁ now₂ base calls₁ calls₂ t, machine.Scheduled start mid base →
      machine.Scheduled mid now₁ calls₁ → machine.Scheduled mid now₂ calls₂ →
      (machine.run System.empty base).governor.conviction id = some t →
      sideBallots id (machine.run System.empty base) calls₁ =
        sideBallots id (machine.run System.empty base) calls₂ →
      Clocked.Throughout (AbstainsHarmlessly id (machine.run System.empty base)) [] calls₁ →
      Clocked.Throughout (AbstainsHarmlessly id (machine.run System.empty base)) [] calls₂ →
        let s₁ := machine.run (machine.run System.empty base) calls₁
        let s₂ := machine.run (machine.run System.empty base) calls₂
        (∀ ledger, now₁ ≤ ledger → now₂ ≤ ledger → ∃ r₁ r₂,
          getConviction s₁.governor id ledger = some r₁ ∧
          getConviction s₂.governor id ledger = some r₂ ∧ SameSides r₁ r₂) ∧
        ∃ p₁ p₂, s₁.governor.proposal id = some p₁ ∧ s₂.governor.proposal id = some p₂ ∧
          majorityFor p₁ (s₁.governor.conviction id) =
            majorityFor p₂ (s₂.governor.conviction id)) ∧
    ∀ start now calls t, machine.Scheduled start now calls →
      (machine.run System.empty calls).governor.conviction id = some t →
      Clocked.Throughout (VotesHarmlessly id) [] calls → ∀ ledger, t.updatedLedger ≤ ledger →
        ∀ x ≤ 1, ((decayTo t ledger).side x).val = votesHalved id calls x ledger := by
  refine ⟨fun t a b hua hab => decayTo_decayTo_iff hua hab, ?_, ?_, ?_⟩
  · intro start now calls t a hcalls ht hnow
    obtain ⟨hwell, -⟩ := conviction_run hcalls ht
    exact losesNoHalving_iff hwell.nonneg (hwell.clock.trans hnow)
  · intro start mid now₁ now₂ base calls₁ calls₂ t hbase hcalls₁ hcalls₂ ht hsides h₁ h₂
    exact sameReading_run hbase hcalls₁ hcalls₂ ht hsides h₁ h₂
  · intro start now calls t hcalls ht hharmless ledger hledger x hx
    rw [side_decayTo_val ((conviction_run hcalls ht).1.nonneg x hx)]
    exact (keepsUp_run hcalls hharmless ht x hx).reads hledger

/-- A conviction proposal with three voters and a window of 60000 ledgers. -/
def threeVoterCalls : List Invocation :=
  launchCalls 60000 ++
    [.token ⟨.authorized 2, .transfer (.account 1) (.account 2) (.ofNat 35)⟩,
    .token ⟨.authorized 2, .transfer (.account 1) (.account 3) (.ofNat 5)⟩,
    .governor (.authorized 5) (.createConvictionProposal (.account 1) [84] [] [])]

/-- One vote For, and one Against when it closes. -/
def sideCalls : List Invocation :=
  [.governor (.authorized 6) (.vote (.account 1) 1 1),
    .governor (.authorized 60006) (.vote (.account 2) 1 0)]

/-- The same, with an abstention in between. -/
def abstainingCalls (ledger : ℕ) : List Invocation :=
  [.governor (.authorized 6) (.vote (.account 1) 1 1),
    .governor (.authorized ledger) (.vote (.account 3) 1 2),
    .governor (.authorized 60006) (.vote (.account 2) 1 0)]

/-- An abstention a whole number of half-lives after a vote leaves the sides. -/
theorem decay_ignores_abstentions_wholeHalfLife :
    ∃ r₁ r₂, getConviction (machine.run (machine.run System.empty threeVoterCalls)
        sideCalls).governor 1 60006 = some r₁ ∧
      getConviction (machine.run (machine.run System.empty threeVoterCalls)
        (abstainingCalls 51846)).governor 1 60006 = some r₂ ∧ SameSides r₁ r₂ := by
  have hbase : machine.Scheduled 0 6 threeVoterCalls := by decide
  have hcalls₁ : machine.Scheduled 6 60006 sideCalls := by decide
  have hcalls₂ : machine.Scheduled 6 60006 (abstainingCalls 51846) := by decide
  have ht : (machine.run System.empty threeVoterCalls).governor.conviction 1 = some ⟨0, 0, 5⟩ := by
    decide
  have hsides : sideBallots 1 (machine.run System.empty threeVoterCalls) sideCalls =
      sideBallots 1 (machine.run System.empty threeVoterCalls) (abstainingCalls 51846) := by decide
  have hvoted : ((machine.run (machine.run System.empty threeVoterCalls)
      [.governor (.authorized 6) (.vote (.account 1) 1 1)]).governor.conviction 1).map
        ConvictionTally.updatedLedger = some 6 := by decide
  have hruns := (decay_ignores_abstentions 1).2.2.1 0 6 60006 60006 threeVoterCalls sideCalls
    (abstainingCalls 51846) _ hbase hcalls₁ hcalls₂ ht hsides ⟨?_, ?_, trivial⟩
    ⟨?_, ?_, ?_, trivial⟩
  · exact hruns.1 60006 le_rfl le_rfl
  · rintro env voter t ⟨⟩
  · rintro env voter t ⟨⟩
  · rintro env voter t ⟨⟩
  · rintro env voter t ⟨⟩ _ hstored
    change (machine.run (machine.run System.empty threeVoterCalls)
      [.governor (.authorized 6) (.vote (.account 1) 1 1)]).governor.conviction 1 = some t at hstored
    rw [hstored, Option.map_some] at hvoted
    left
    rw [Option.some.inj hvoted]
    decide
  · rintro env voter t ⟨⟩

/-- Votes Against take the place of the abstention. -/
def writtenCalls : List Invocation :=
  [.governor (.authorized 6) (.vote (.account 1) 1 1),
    .governor (.authorized 30006) (.vote (.account 2) 1 0),
    .governor (.authorized 60006) (.vote (.account 3) 1 0)]

/-- An abstention halfway through a half-life doubles the support that is left at the close, and
turns the majority. With a vote Against in its place the vote For is not halved either, although
it has been cast more than a half-life before. -/
theorem abstention_turns_majority :
    let s₁ := machine.run (machine.run System.empty threeVoterCalls) sideCalls
    let s₂ := machine.run (machine.run System.empty threeVoterCalls) (abstainingCalls 30006)
    sideBallots 1 (machine.run System.empty threeVoterCalls) sideCalls =
      sideBallots 1 (machine.run System.empty threeVoterCalls) (abstainingCalls 30006) ∧
    (getConviction s₁.governor 1 60006).map (fun t => (t.forConviction.val,
      t.againstConviction.val)) = some (30, 35) ∧
    (getConviction s₂.governor 1 60006).map (fun t => (t.forConviction.val,
      t.againstConviction.val)) = some (60, 35) ∧
    (s₁.governor.proposal 1).map (fun p => majorityFor p (s₁.governor.conviction 1)) =
      some false ∧
    (s₂.governor.proposal 1).map (fun p => majorityFor p (s₂.governor.conviction 1)) =
      some true ∧
    (getConviction (machine.run (machine.run System.empty threeVoterCalls) writtenCalls).governor 1
      60006).map (fun t => t.forConviction.val) = some 60 ∧
    (60 : ℤ) / 2 ^ ((60006 - 6) / convictionHalfLife) = 30 := by
  decide

end Quorum.Governor

import Quorum.Governor.Lifecycle

/-!
# Decisions stay justified

A proposal passes when its votes reach the quorum and For has a strict majority. `finalize`
decides by exactly that, and what it looked at never changes again: votes are accepted up to
`endLedger` only, and every later call leaves the tallies and the conviction tally alone. So a
stored decision is justified by the stored data in every reachable state, and a decision that is
still to come does not depend on when `finalize` is called.
-/

namespace Quorum.Governor

open Foundation Contract

variable {s s' : System} {env : Env} {start now id : ℕ}

/-- Strictly more votes For than Against; for a conviction proposal, strictly more conviction
at the close of voting. -/
def StrictMajority (p : Proposal) : Option ConvictionTally → Prop
  | some stored => (decayTo stored p.endLedger).againstConviction.val <
      (decayTo stored p.endLedger).forConviction.val
  | none => p.againstVotes.val < p.forVotes.val

/-- The quorum is reached and the majority is For. -/
structure Passes (p : Proposal) (conviction : Option ConvictionTally) : Prop where
  quorum : p.quorumRequired.val ≤ p.forVotes.val + p.againstVotes.val + p.abstainVotes.val
  majority : StrictMajority p conviction

/-- The majority check is met exactly by a strict majority. -/
theorem majorityFor_iff {p : Proposal} {conviction : Option ConvictionTally} :
    majorityFor p conviction = true ↔ StrictMajority p conviction := by
  cases conviction <;> simp [majorityFor, StrictMajority]

/-- A total that can be added up is the sum of the tallies. -/
theorem totalVotes_eq_some {p : Proposal} {total : I128} (h : totalVotes p = some total) :
    total.val = p.forVotes.val + p.againstVotes.val + p.abstainVotes.val := by
  obtain ⟨sum, hsum, htotal⟩ := Option.bind_eq_some_iff.mp h
  rw [I128.checkedAdd_eq_some] at hsum htotal
  omega

/-- Tallies that are not negative add up if their sum fits. -/
theorem exists_totalVotes {p : Proposal} (hnonneg : ∀ support ≤ 2, 0 ≤ (p.tally support).val)
    (hfits : p.forVotes.val + p.againstVotes.val + p.abstainVotes.val ≤ maxI128) :
    ∃ total, totalVotes p = some total := by
  have hmin := I128.minI128_nonpos
  have hagainst : 0 ≤ p.againstVotes.val := hnonneg 0 (by decide)
  have hfor : 0 ≤ p.forVotes.val := hnonneg 1 (by decide)
  have habstain : 0 ≤ p.abstainVotes.val := hnonneg 2 (by decide)
  obtain ⟨sum, hsome, hval⟩ := I128.exists_ofInt?
    (x := p.forVotes.val + p.againstVotes.val) (by omega) (by omega)
  obtain ⟨total, htotal, -⟩ := I128.exists_ofInt?
    (x := sum.val + p.abstainVotes.val) (by omega) (by omega)
  have hfirst : p.forVotes.checkedAdd p.againstVotes = some sum := hsome
  have hsecond : sum.checkedAdd p.abstainVotes = some total := htotal
  exact ⟨total, by rw [totalVotes, hfirst, Option.bind_some, hsecond]⟩

/-- The comparison that `finalize` makes. -/
theorem passes_iff {p : Proposal} {total : I128} {conviction : Option ConvictionTally}
    (h : totalVotes p = some total) :
    p.quorumRequired.val ≤ total.val ∧ majorityFor p conviction = true ↔ Passes p conviction := by
  rw [totalVotes_eq_some h, majorityFor_iff]
  exact ⟨fun h => ⟨h.1, h.2⟩, fun h => ⟨h.quorum, h.majority⟩⟩

/-! ## What voting leaves behind -/

/-- A proposal keeps its terms, its tallies and its conviction tally. -/
def Frozen (id : ℕ) (p : Proposal) (s s' : System) : Prop :=
  ∃ p', s'.governor.proposal id = some p' ∧ Kept p p' ∧ SameTallies p p' ∧
    s'.governor.conviction id = s.governor.conviction id

/-- What stays frozen in two runs in a row stays frozen in both. -/
theorem Frozen.trans {p : Proposal} {s₁ s₂ s₃ : System} (h : Frozen id p s₁ s₂)
    (h' : ∀ q, s₂.governor.proposal id = some q → Kept p q → Frozen id q s₂ s₃) :
    Frozen id p s₁ s₃ := by
  obtain ⟨q, hq, hkept, htallies, hconviction⟩ := h
  obtain ⟨r, hr, hkept', htallies', hconviction'⟩ := h' q hq hkept
  exact ⟨r, hr, hkept.trans hkept',
    ⟨htallies'.forVotes.trans htallies.forVotes, htallies'.againstVotes.trans htallies.againstVotes,
      htallies'.abstainVotes.trans htallies.abstainVotes⟩, hconviction'.trans hconviction⟩

/-- Whether a proposal passes depends on what is frozen only. -/
theorem passes_congr {p p' : Proposal} (hkept : Kept p p') (htallies : SameTallies p p')
    (conviction : Option ConvictionTally) : Passes p' conviction ↔ Passes p conviction := by
  have hmajority : StrictMajority p' conviction ↔ StrictMajority p conviction := by
    cases conviction with
    | none => rw [StrictMajority, StrictMajority, htallies.forVotes, htallies.againstVotes]
    | some stored => rw [StrictMajority, StrictMajority, hkept.endLedger]
  constructor
  · rintro ⟨hquorum, hmaj⟩
    rw [hkept.quorumRequired, htallies.forVotes, htallies.againstVotes,
      htallies.abstainVotes] at hquorum
    exact ⟨hquorum, hmajority.mp hmaj⟩
  · rintro ⟨hquorum, hmaj⟩
    rw [← hkept.quorumRequired, ← htallies.forVotes, ← htallies.againstVotes,
      ← htallies.abstainVotes] at hquorum
    exact ⟨hquorum, hmajority.mpr hmaj⟩

/-- Restating a proposal without touching its tallies freezes all proposals. -/
theorem Restates.frozen {other : ℕ} {q q' p : Proposal} (h : Restates other q q' s s')
    (hkept : Kept q q') (htallies : SameTallies q q') (hp : s.governor.proposal id = some p) :
    Frozen id p s s' := by
  by_cases hid : id = other
  · subst hid
    obtain rfl : q = p := Option.some.inj (h.stored.symm.trans hp)
    exact ⟨q', by rw [h.proposal, Function.update_self], hkept, htallies, by rw [h.conviction]⟩
  · exact ⟨p, by rw [h.proposal, Function.update_of_ne hid, hp], .refl p, .refl p,
      by rw [h.conviction]⟩

/-- A change made after a proposal's voting has closed leaves what was voted alone. -/
theorem Change.frozen {c : Call} {p : Proposal} (hw : WellFormed now s) (h : Change env c s s')
    (hp : s.governor.proposal id = some p) (hclosed : p.endLedger < env.sequence) :
    Frozen id p s s' := by
  cases h.outline with
  | quiet _ h => exact ⟨p, by rw [h.proposal, hp], .refl p, .refl p, by rw [h.conviction]⟩
  | @opened _ _ conviction q _ h =>
    have hne : id ≠ q.id := by
      rintro rfl
      rw [(hw.fresh h).1] at hp
      contradiction
    exact ⟨p, by rw [h.proposal, Function.update_of_ne hne, hp], .refl p, .refl p,
      h.conviction_other hne⟩
  | @voted _ other _ q _ _ _ h =>
    have hne : id ≠ other := by
      rintro rfl
      obtain rfl : q = p := Option.some.inj (h.stored.symm.trans hp)
      exact absurd h.notEnded (Nat.not_le.mpr hclosed)
    exact ⟨p, by rw [h.proposal, Function.update_of_ne hne, hp], .refl p, .refl p,
      h.conviction.other hne⟩
  | restated _ hkept htallies h => exact h.frozen hkept htallies hp

/-- A step after the end leaves a proposal's terms and tallies. -/
theorem Step.frozen {i : Invocation} {p : Proposal} (hw : WellFormed now s) (h : Step i s s')
    (hp : s.governor.proposal id = some p) (hclosed : p.endLedger < i.sequence) :
    Frozen id p s s' := by
  cases h with
  | token _ => exact ⟨p, hp, .refl p, .refl p, rfl⟩
  | refused => exact ⟨p, hp, .refl p, .refl p, rfl⟩
  | governor hret he => exact he.change.frozen hw hp hclosed

/-- A run after the end leaves a proposal's terms and tallies. -/
theorem frozen_run {calls : List Invocation} {p : Proposal} (hw : WellFormed start s)
    (hcalls : machine.Scheduled start now calls) (hclosed : ∀ i ∈ calls, p.endLedger < i.sequence)
    (hp : s.governor.proposal id = some p) : Frozen id p s (machine.run s calls) := by
  induction calls generalizing start s p with
  | nil => exact ⟨p, hp, .refl p, .refl p, rfl⟩
  | cons i rest ih =>
    have hi := hw.mono hcalls.1
    have hstep := machine_step hi.blank i
    apply (hstep.frozen hi hp (hclosed i List.mem_cons_self)).trans
    intro q hq hkept
    apply ih (hi.step hstep) hcalls.2 _ hq
    intro j hj
    rw [hkept.endLedger]
    exact hclosed j (List.mem_cons_of_mem i hj)

/-! ## Decisions -/

/-- The decision about a proposal is justified by what is stored with it. -/
structure Justified (p : Proposal) (conviction : Option ConvictionTally) : Prop where
  passed : p.status = .queued ∨ p.status = .executed ∨ p.status = .vetoed ∨ p.status = .expired →
    Passes p conviction
  failed : p.status = .failed → ¬ Passes p conviction

/-- All stored decisions are justified. -/
def Decided (s : System) : Prop :=
  ∀ id p, s.governor.proposal id = some p → Justified p (s.governor.conviction id)

/-- An active proposal has no decision to justify. -/
theorem Justified.of_active {p : Proposal} {conviction : Option ConvictionTally}
    (h : p.status = .active) : Justified p conviction :=
  ⟨by simp [h], by simp [h]⟩

/-- A restated proposal has to be justified itself; the others stay justified. -/
theorem Restates.decided {p p' : Proposal} (h : Restates id p p' s s') (hs : Decided s)
    (hself : Justified p' (s.governor.conviction id)) : Decided s' := by
  intro other q hq
  rw [h.proposal] at hq
  rw [h.conviction]
  by_cases hother : other = id
  · subst hother
    rw [Function.update_self] at hq
    exact Option.some.inj hq ▸ hself
  · rw [Function.update_of_ne hother] at hq
    exact hs other q hq

/-- A call leaves all stored decisions justified. -/
theorem Change.decided {c : Call} (h : Change env c s s') (hs : Decided s) : Decided s' := by
  cases h with
  | quiet _ h =>
    intro id p hp
    rw [h.proposal] at hp
    rw [h.conviction]
    exact hs id p hp
  | @opened _ _ _ _ _ conviction q _ h =>
    intro id p hp
    rw [h.proposal] at hp
    by_cases hid : id = q.id
    · subst hid
      rw [Function.update_self] at hp
      exact Option.some.inj hp ▸ .of_active h.status
    · rw [Function.update_of_ne hid] at hp
      rw [h.conviction_other hid]
      exact hs id p hp
  | @voted _ _ _ other _ q counted _ h =>
    intro id p hp
    rw [h.proposal] at hp
    by_cases hid : id = other
    · subst hid
      rw [Function.update_self] at hp
      exact Option.some.inj hp ▸ .of_active (h.status.1.trans h.active)
    · rw [Function.update_of_ne hid] at hp
      rw [h.conviction.other hid]
      exact hs id p hp
  | queued _ _ htotal hquorum hmajority h =>
    have hpasses := (passes_iff htotal).mp ⟨hquorum, hmajority⟩
    exact h.decided hs ⟨fun _ => ⟨hpasses.quorum, hpasses.majority⟩, by simp⟩
  | failed _ _ htotal hlost h =>
    refine h.decided hs ⟨by simp, fun _ hpasses => hlost ?_⟩
    exact (passes_iff htotal).mpr ⟨hpasses.quorum, hpasses.majority⟩
  | executed _ _ hqueued _ _ h =>
    have hpasses := (hs _ _ h.stored).passed (.inl hqueued)
    exact h.decided hs ⟨fun _ => ⟨hpasses.quorum, hpasses.majority⟩, by simp⟩
  | vetoed _ _ _ hqueued _ h =>
    have hpasses := (hs _ _ h.stored).passed (.inl hqueued)
    exact h.decided hs ⟨fun _ => ⟨hpasses.quorum, hpasses.majority⟩, by simp⟩
  | expired _ hqueued _ _ h =>
    have hpasses := (hs _ _ h.stored).passed (.inl hqueued)
    exact h.decided hs ⟨fun _ => ⟨hpasses.quorum, hpasses.majority⟩, by simp⟩
  | cancelled _ _ _ _ _ h => exact h.decided hs ⟨by simp, by simp⟩

/-- A step leaves all stored decisions justified. -/
theorem Step.decided {i : Invocation} (h : Step i s s') (hs : Decided s) : Decided s' := by
  cases h with
  | token _ => exact hs
  | refused => exact hs
  | governor hret he => exact he.change.decided hs

/-- In every reachable state the stored decisions are justified. -/
theorem decided_run {calls : List Invocation} (hcalls : machine.Scheduled start now calls) :
    Decided (machine.run System.empty calls) := by
  refine (machine.run_invariant (fun t s => WellFormed t s ∧ Decided s) ?_ ?_ ?_ hcalls).2
  · exact fun t t' s h hle => ⟨h.1.mono hle, h.2⟩
  · intro i s h
    have hstep := machine_step h.1.blank i
    exact ⟨h.1.step hstep, hstep.decided h.2⟩
  · exact ⟨.empty start, fun id p h => by simp [System.empty, Storage.empty] at h⟩

/-! ## `finalize` -/

/-- A call of `finalize` that returns decides by what is stored. -/
theorem finalize_decides {status : ProposalStatus}
    (h : (finalize env id).Returns s status s') :
    ∃ p, s.governor.proposal id = some p ∧ p.status = .active ∧ p.endLedger < env.sequence ∧
      ((status = .queued ∧ Passes p (s.governor.conviction id)) ∨
        (status = .failed ∧ ¬ Passes p (s.governor.conviction id))) := by
  obtain ⟨he, p', hp', hstatus⟩ := finalize_returns h
  cases he with
  | opened hopens => contradiction
  | delegated hcall => simp at hcall
  | targetSet hcall => simp at hcall
  | nominated hcall => simp at hcall
  | queued _ hstored hclosed hactive htotal hquorum hmajority =>
    simp only [Function.update_self, Option.some.injEq] at hp'
    subst hp'
    exact ⟨_, hstored, hactive, hclosed,
      .inl ⟨hstatus.symm, (passes_iff htotal).mp ⟨hquorum, hmajority⟩⟩⟩
  | failed _ hstored hclosed hactive htotal hlost =>
    simp only [Function.update_self, Option.some.injEq] at hp'
    subst hp'
    exact ⟨_, hstored, hactive, hclosed,
      .inr ⟨hstatus.symm, fun hpasses => hlost ((passes_iff htotal).mpr hpasses)⟩⟩

/-- Taking a deposit always returns it and leaves the token alone. -/
theorem takeDeposit_returns_held (s : System) (id : ℕ) :
    ∃ s₁, (takeDeposit id).Returns s (s.governor.deposit id) s₁ ∧ s₁.token = s.token := by
  simp only [takeDeposit, returns_read_bind_iff]
  split
  · exact ⟨_, returns_store_bind_iff.mpr (returns_pure_iff.mpr ⟨rfl, rfl⟩), rfl⟩
  · exact ⟨s, returns_pure_iff.mpr ⟨rfl, rfl⟩, rfl⟩

/-- A deposit is refunded if the token makes the payment. -/
theorem refundDeposit_succeeds {config : Config} {p : Proposal}
    (hpays : ∀ amount, s.governor.deposit p.id = some amount →
      (payBack env config p.proposer amount).Succeeds s.token) :
    (refundDeposit env config p).Succeeds s := by
  obtain ⟨s₁, htake, htoken⟩ := takeDeposit_returns_held s p.id
  cases hheld : s.governor.deposit p.id with
  | none =>
    rw [hheld] at htake
    exact ⟨(), s₁, htake.bind rfl⟩
  | some amount =>
    rw [hheld] at htake
    obtain ⟨_, t, hpaid⟩ := hpays amount hheld
    rw [← htoken] at hpaid
    have hcall : (callToken (payBack env config p.proposer amount)).Returns s₁ ()
        { s₁ with token := t } := returns_call_iff.mpr ⟨t, hpaid, rfl⟩
    exact ⟨(), _, htake.bind (hcall.bind rfl)⟩

/-- A deposit is forfeited if the token burns it. -/
theorem forfeitDeposit_succeeds {config : Config}
    (hpays : ∀ amount, s.governor.deposit id = some amount →
      (payOff env config amount).Succeeds s.token) :
    (forfeitDeposit env config id).Succeeds s := by
  obtain ⟨s₁, htake, htoken⟩ := takeDeposit_returns_held s id
  cases hheld : s.governor.deposit id with
  | none =>
    rw [hheld] at htake
    exact ⟨(), s₁, htake.bind rfl⟩
  | some amount =>
    rw [hheld] at htake
    obtain ⟨_, t, hpaid⟩ := hpays amount hheld
    rw [← htoken] at hpaid
    have hcall : (callToken (payOff env config amount)).Returns s₁ () { s₁ with token := t } :=
      returns_call_iff.mpr ⟨t, hpaid, rfl⟩
    exact ⟨(), _, htake.bind (hcall.bind rfl)⟩

/-- After the close of voting, `finalize` does decide an active proposal, unless the sum of the
tallies or the timelock overflows or a held deposit cannot be settled. -/
theorem finalize_succeeds {config : Config} {p : Proposal} {total : I128}
    (hconfig : s.governor.config = some config) (hp : s.governor.proposal id = some p)
    (hid : p.id = id) (hactive : p.status = .active) (hclosed : p.endLedger < env.sequence)
    (htotal : totalVotes p = some total) (htimelock : env.sequence + p.timelockPeriod ≤ maxU32)
    (hpays : ∀ amount, s.governor.deposit id = some amount →
      (payBack env config p.proposer amount).Succeeds s.token ∧
        (payOff env config amount).Succeeds s.token) : (finalize env id).Succeeds s := by
  have hrequire : requireConfig.Returns s config s := by
    rw [requireConfig, returns_read_bind_iff, hconfig]
    rfl
  have hproposal : (requireProposal id).Returns s p s := by
    rw [requireProposal, returns_read_bind_iff, hp]
    rfl
  apply hrequire.succeeds_bind
  apply hproposal.succeeds_bind
  apply succeeds_rejectIf_bind (Nat.not_le.mpr hclosed)
  apply succeeds_rejectIf_bind (not_not.mpr hactive)
  apply succeeds_okOr_bind htotal
  apply succeeds_read_bind
  simp only [storeProposal, recordStatusChange, updateStats, publish]
  split
  · apply succeeds_okOr_bind (checkedAddU32_eq_some.mpr ⟨rfl, htimelock⟩)
    rw [succeeds_store_bind_iff, succeeds_store_bind_iff]
    refine Succeeds.bind (refundDeposit_succeeds fun amount hheld => ?_) fun _ s₁ => ?_
    · subst hid
      exact (hpays amount hheld).1
    · rw [succeeds_store_bind_iff, succeeds_store_bind_iff]
      exact ⟨_, _, rfl⟩
  · rw [succeeds_store_bind_iff, succeeds_store_bind_iff]
    refine Succeeds.bind (forfeitDeposit_succeeds fun amount hheld => (hpays amount hheld).2)
      fun _ s₁ => ?_
    rw [succeeds_store_bind_iff]
    exact ⟨_, _, rfl⟩

end Quorum.Governor

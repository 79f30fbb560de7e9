import Quorum.Governor.Lifecycle

/-!
# What can touch a stored proposal

Every operation on a proposal writes the whole stored record back. `Insulated` says what one step
may do to the entries of a proposal all the same: its terms stay, its tallies and its conviction
move with a vote on it, its queue ledger with the decision that queues it, and the recorded
choice of a voter with that voter's own vote. A step whose call names another proposal or none
passes all entries by.
-/

namespace Quorum.Governor

open Foundation Contract

variable {s s' : System} {env : Env} {start now id : ℕ}

/-! ## One step -/

/-- The entries under the id of a proposal are as they were. -/
structure PassedBy (id : ℕ) (s s' : System) : Prop where
  proposal : s'.governor.proposal id = s.governor.proposal id
  hasVoted : s'.governor.hasVoted id = s.governor.hasVoted id
  conviction : s'.governor.conviction id = s.governor.conviction id
  cosponsors : s'.governor.cosponsors id = s.governor.cosponsors id

/-- The proposal that a call names in order to vote on it or to move its status. -/
def Invocation.subject : Invocation → Option ℕ
  | .governor _ (.vote _ id _) | .governor _ (.finalize id) | .governor _ (.beginExecution _ id)
  | .governor _ (.markExpired id) | .governor _ (.cancel _ id) | .governor _ (.veto _ id _) =>
    some id
  | _ => none

/-- What a step may do to the entries of a stored proposal. -/
structure Insulated (i : Invocation) (id : ℕ) (p p' : Proposal) (s s' : System) : Prop where
  kept : Kept p p'
  cosponsors : s'.governor.cosponsors id = s.governor.cosponsors id
  isConviction : (s'.governor.conviction id).isSome = (s.governor.conviction id).isSome
  tallies : SameTallies p p' ∧ s'.governor.conviction id = s.governor.conviction id ∨
    ∃ env voter support, i = .governor env (.vote voter id support) ∧
      Accepted env (.vote voter id support) s
  queueLedger : p'.queueLedger = p.queueLedger ∨
    ∃ env, i = .governor env (.finalize id) ∧ Accepted env (.finalize id) s ∧
      p'.status = .queued ∧ p'.queueLedger = env.sequence + p.timelockPeriod
  hasVoted : ∀ voter, s'.governor.hasVoted id voter = s.governor.hasVoted id voter ∨
    ∃ env support, i = .governor env (.vote voter id support) ∧ env.auth voter = true ∧
      Accepted env (.vote voter id support) s
  otherwise : i.subject ≠ some id → PassedBy id s s'

/-- A proposal whose entries are as they were is insulated. -/
theorem PassedBy.insulated {i : Invocation} {p : Proposal} (h : PassedBy id s s') :
    Insulated i id p p s s' where
  kept := .refl p
  cosponsors := h.cosponsors
  isConviction := by rw [h.conviction]
  tallies := .inl ⟨.refl p, h.conviction⟩
  queueLedger := .inl rfl
  hasVoted voter := .inl (by rw [h.hasVoted])
  otherwise _ := h

/-- No call changes the co-sponsors of a stored proposal. -/
theorem Outcome.cosponsors {c : Call} {p : Proposal} (hw : WellFormed now s)
    (h : Outcome env s c s') (hp : s.governor.proposal id = some p) :
    s'.governor.cosponsors id = s.governor.cosponsors id := by
  cases h with
  | @opened _ _ config proposer conviction q _ h _ _ _ hleft =>
    have hne : id ≠ q.id := by
      rintro rfl
      rw [(hw.fresh h).1] at hp
      contradiction
    simp only [hleft]
    split
    · exact Function.update_of_ne hne _ _
    · rfl
  | voted _ hleft => rw [hleft]
  | _ => rfl

/-- An opening passes by every other proposal. -/
theorem Opens.passedBy {config : Config} {proposer : Address} {conviction : Bool} {q : Proposal}
    (h : Opens env config proposer conviction q s s') (hne : id ≠ q.id)
    (hcosponsors : s'.governor.cosponsors id = s.governor.cosponsors id) : PassedBy id s s' :=
  ⟨by rw [h.proposal, Function.update_of_ne hne], by rw [h.hasVoted], h.conviction_other hne,
    hcosponsors⟩

/-- Restating a proposal passes by every other one. -/
theorem Restates.passedBy {other : ℕ} {q q' : Proposal} (h : Restates other q q' s s')
    (hne : id ≠ other) (hcosponsors : s'.governor.cosponsors id = s.governor.cosponsors id) :
    PassedBy id s s' :=
  ⟨by rw [h.proposal, Function.update_of_ne hne], by rw [h.hasVoted], by rw [h.conviction],
    hcosponsors⟩

/-- A vote passes by every other proposal. -/
theorem Votes.passedBy {voter : Address} {other support : ℕ} {q counted : Proposal}
    {votingPower : I128} (h : Votes env voter other support q counted votingPower s s')
    (hne : id ≠ other) (hcosponsors : s'.governor.cosponsors id = s.governor.cosponsors id) :
    PassedBy id s s' :=
  ⟨by rw [h.proposal, Function.update_of_ne hne], by rw [h.hasVoted, Function.update_of_ne hne],
    h.conviction.other hne, hcosponsors⟩

/-- A vote leaves a conviction proposal one and another proposal another. -/
theorem ConvictionVoted.isSome {support : ℕ} {votingPower : I128}
    {tallies tallies' : ℕ → Option ConvictionTally}
    (h : ConvictionVoted now id support votingPower tallies tallies') :
    (tallies' id).isSome = (tallies id).isSome := by
  unfold ConvictionVoted at h
  split at h <;> rename_i hstored
  · obtain ⟨conviction, -, rfl⟩ := h
    rw [Function.update_self, hstored]
    rfl
  · rw [h]

/-- A vote on the proposal is its own step. -/
theorem Votes.insulated {voter : Address} {support : ℕ} {p counted : Proposal}
    {votingPower : I128} (h : Votes env voter id support p counted votingPower s s')
    (haccepted : Accepted env (.vote voter id support) s)
    (hcosponsors : s'.governor.cosponsors id = s.governor.cosponsors id) :
    Insulated (.governor env (.vote voter id support)) id p counted s s' where
  kept := h.kept
  cosponsors := hcosponsors
  isConviction := h.conviction.isSome
  tallies := .inr ⟨env, voter, support, rfl, haccepted⟩
  queueLedger := .inl h.status.2
  hasVoted v := by
    by_cases hv : v = voter
    · subst hv
      exact .inr ⟨env, support, rfl, h.authorized, haccepted⟩
    · left
      rw [h.hasVoted, Function.update_self, Function.update_of_ne hv]
  otherwise hne := absurd rfl hne

/-- Moving the status of a proposal touches at most its queue ledger besides. -/
theorem Restates.insulated {i : Invocation} {p p' : Proposal} (h : Restates id p p' s s')
    (hkept : Kept p p') (htallies : SameTallies p p')
    (hcosponsors : s'.governor.cosponsors id = s.governor.cosponsors id)
    (hqueue : p'.queueLedger = p.queueLedger ∨
      ∃ env, i = .governor env (.finalize id) ∧ Accepted env (.finalize id) s ∧
        p'.status = .queued ∧ p'.queueLedger = env.sequence + p.timelockPeriod)
    (hsubject : i.subject = some id) : Insulated i id p p' s s' where
  kept := hkept
  cosponsors := hcosponsors
  isConviction := by rw [h.conviction]
  tallies := .inl ⟨htallies, by rw [h.conviction]⟩
  queueLedger := hqueue
  hasVoted voter := .inl (by rw [h.hasVoted])
  otherwise hne := absurd hsubject hne

/-- An accepted call leaves a stored proposal stored and insulated. -/
theorem Change.insulated {c : Call} {p : Proposal} (hw : WellFormed now s)
    (h : Change env c s s') (haccepted : Accepted env c s)
    (hcosponsors : s'.governor.cosponsors id = s.governor.cosponsors id)
    (hp : s.governor.proposal id = some p) :
    ∃ p', s'.governor.proposal id = some p' ∧ Insulated (.governor env c) id p p' s s' := by
  have hrestated : ∀ {other : ℕ} {q q' : Proposal}, Restates other q q' s s' →
      (other = id → q = p → Insulated (.governor env c) id p q' s s') →
        ∃ p', s'.governor.proposal id = some p' ∧ Insulated (.governor env c) id p p' s s' := by
    intro other q q' h hself
    by_cases hid : id = other
    · subst hid
      exact ⟨q', by rw [h.proposal, Function.update_self],
        hself rfl (Option.some.inj (h.stored.symm.trans hp))⟩
    · have hpassed := h.passedBy hid hcosponsors
      exact ⟨p, hpassed.proposal.trans hp, hpassed.insulated⟩
  cases h with
  | quiet _ h =>
    exact ⟨p, by rw [h.proposal, hp], PassedBy.insulated
      ⟨by rw [h.proposal], by rw [h.hasVoted], by rw [h.conviction], hcosponsors⟩⟩
  | @opened _ _ _ config proposer conviction q _ h =>
    have hne : id ≠ q.id := by
      rintro rfl
      rw [(hw.fresh h).1] at hp
      contradiction
    have hpassed := h.passedBy hne hcosponsors
    exact ⟨p, hpassed.proposal.trans hp, hpassed.insulated⟩
  | @voted _ _ voter other support q counted votingPower h =>
    by_cases hid : id = other
    · subst hid
      obtain rfl : q = p := Option.some.inj (h.stored.symm.trans hp)
      exact ⟨counted, by rw [h.proposal, Function.update_self], h.insulated haccepted hcosponsors⟩
    · have hpassed := h.passedBy hid hcosponsors
      exact ⟨p, hpassed.proposal.trans hp, hpassed.insulated⟩
  | queued _ _ _ _ _ h =>
    refine hrestated h ?_
    rintro rfl rfl
    exact h.insulated (.setStatus _ _ _) (.setStatus _ _ _) hcosponsors
      (.inr ⟨env, rfl, haccepted, rfl, rfl⟩) rfl
  | failed _ _ _ _ h =>
    refine hrestated h ?_
    rintro rfl rfl
    exact h.insulated (.setStatus _ _ _) (.setStatus _ _ _) hcosponsors (.inl rfl) rfl
  | executed _ _ _ _ _ h =>
    refine hrestated h ?_
    rintro rfl rfl
    exact h.insulated (.setStatus _ _ _) (.setStatus _ _ _) hcosponsors (.inl rfl) rfl
  | cancelled _ _ _ _ _ h =>
    refine hrestated h ?_
    rintro rfl rfl
    exact h.insulated (.setStatus _ _ _) (.setStatus _ _ _) hcosponsors (.inl rfl) rfl
  | vetoed _ _ _ _ _ h =>
    refine hrestated h ?_
    rintro rfl rfl
    exact h.insulated (.setStatus _ _ _) (.setStatus _ _ _) hcosponsors (.inl rfl) rfl
  | expired _ _ _ _ h =>
    refine hrestated h ?_
    rintro rfl rfl
    exact h.insulated (.setStatus _ _ _) (.setStatus _ _ _) hcosponsors (.inl rfl) rfl

/-- Every step leaves a stored proposal insulated. -/
theorem Step.insulated {i : Invocation} {p : Proposal} (hw : WellFormed now s) (h : Step i s s')
    (hp : s.governor.proposal id = some p) :
    ∃ p', s'.governor.proposal id = some p' ∧ Insulated i id p p' s s' := by
  cases h with
  | token h => exact ⟨p, hp, PassedBy.insulated ⟨rfl, rfl, rfl, rfl⟩⟩
  | refused => exact ⟨p, hp, PassedBy.insulated ⟨rfl, rfl, rfl, rfl⟩⟩
  | governor hret he =>
    exact he.change.insulated hw ⟨(), s', hret⟩ ((invoke_outcome hret).cosponsors hw hp) hp

/-! ## Runs -/

/-- Once a proposal is stored it keeps its terms, its co-sponsors and whether it is a conviction
proposal to the end of every run. -/
theorem terms_run {calls : List Invocation} {p : Proposal} (hw : WellFormed start s)
    (hcalls : machine.Scheduled start now calls) (hp : s.governor.proposal id = some p) :
    ∃ p', (machine.run s calls).governor.proposal id = some p' ∧ Kept p p' ∧
      (machine.run s calls).governor.cosponsors id = s.governor.cosponsors id ∧
      ((machine.run s calls).governor.conviction id).isSome = (s.governor.conviction id).isSome := by
  induction calls generalizing start s p with
  | nil => exact ⟨p, hp, .refl p, rfl, rfl⟩
  | cons i rest ih =>
    have hi := hw.mono hcalls.1
    have hstep := machine_step hi.blank i
    obtain ⟨q, hq, hone⟩ := hstep.insulated hi hp
    obtain ⟨p', hp', hkept, hcosponsors, hconviction⟩ := ih (hi.step hstep) hcalls.2 hq
    exact ⟨p', hp', hone.kept.trans hkept, hcosponsors.trans hone.cosponsors,
      hconviction.trans hone.isConviction⟩

/-- In every run each step leaves every stored proposal insulated, and what a proposal was opened
with lasts to the end. -/
theorem proposal_insulated {calls : List Invocation} (hcalls : machine.Scheduled start now calls)
    (id : ℕ) :
    (∀ first i later p, calls = first ++ i :: later →
      let s := machine.run System.empty first
      s.governor.proposal id = some p →
        ∃ p', (machine.step i s).governor.proposal id = some p' ∧
          Insulated i id p p' s (machine.step i s)) ∧
    (∀ first later p, calls = first ++ later →
      let s := machine.run System.empty first
      s.governor.proposal id = some p →
        ∃ p', (machine.run System.empty calls).governor.proposal id = some p' ∧ Kept p p' ∧
          (machine.run System.empty calls).governor.cosponsors id = s.governor.cosponsors id ∧
          ((machine.run System.empty calls).governor.conviction id).isSome =
            (s.governor.conviction id).isSome) := by
  constructor
  · rintro first i later p rfl s hp
    have hw := wellFormed_run hcalls.of_append.1
    exact (machine_step hw.blank i).insulated hw hp
  · rintro first later p rfl s hp
    cases later with
    | nil =>
      rw [List.append_nil]
      exact ⟨p, hp, .refl p, rfl, rfl⟩
    | cons i rest =>
      obtain ⟨hfirst, hrest⟩ := hcalls.of_append
      have hlater : machine.Scheduled (machine.time i) now (i :: rest) := ⟨le_rfl, hrest⟩
      rw [Clocked.run_append]
      exact terms_run (wellFormed_run hfirst) hlater hp

/-- The decision on a proposal that was voted for, seen as one of the steps. -/
theorem proposal_insulated_passing :
    let s := machine.run System.empty (passingCalls.take 4)
    let i : Invocation := .governor (.authorized 10) (.finalize 1)
    ∃ p p', s.governor.proposal 1 = some p ∧
      (machine.step i s).governor.proposal 1 = some p' ∧
      Insulated i 1 p p' s (machine.step i s) := by
  intro s i
  have hcalls : machine.Scheduled 0 14 passingCalls := by decide
  have hstored : (s.governor.proposal 1).isSome = true := by decide
  obtain ⟨p, hp⟩ := Option.isSome_iff_exists.mp hstored
  obtain ⟨p', hp', h⟩ :=
    (proposal_insulated hcalls 1).1 (passingCalls.take 4) i (passingCalls.drop 5) p rfl hp
  exact ⟨p, p', hp, hp', h⟩

end Quorum.Governor

import Quorum.Governor.Outcomes

/-!
# Every governor call is one of the listed changes

Deposits, counters, the index of proposals and events are incidental to the proposals themselves
and are followed only as far as they call the token. Seen in this way every accepted call is one
of the listed changes.
-/

namespace Quorum.Governor

open Foundation Contract

variable {s s' : System} {env : Env} {now : ℕ} {u : Unit}

/-- An unchanged configuration keeps its terms. -/
theorem Configures.of_eq (h : s'.governor.config = s.governor.config) : Configures s s' := by
  unfold Configures
  cases hconfig : s.governor.config with
  | some c => exact ⟨c, h.trans hconfig, .refl c⟩
  | none =>
    intro c' hc'
    rw [h, hconfig] at hc'
    contradiction

/-- A call of the token that returns advances it. -/
theorem advances_of_returns (env : Env) (c : Token.Call) {t t' : Token.Storage}
    (h : (Token.invoke env c).Returns t u t') : Token.machine.Advances env.sequence t t' :=
  h.commit_eq ▸ Clocked.Advances.single (m := Token.machine) ⟨env, c⟩ t

/-- A payment is a call of the token or none. -/
theorem Pays.advances {config : Config} (call : I128 → Token.Call) {amount : Option I128}
    {t t' : Token.Storage}
    (h : Pays (fun amount => Token.invoke (tokenEnv env config) (call amount)) amount t t') :
    Token.machine.Advances env.sequence t t' := by
  cases amount with
  | some amount => exact advances_of_returns (tokenEnv env config) (call amount) h
  | none =>
    obtain rfl : t' = t := h
    exact .refl _ t'

/-! ## Incidental parts -/

/-- Nothing happens to proposals, votes, conviction tallies and the configuration. -/
structure Incidental (now : ℕ) (s s' : System) : Prop where
  config : s'.governor.config = s.governor.config
  proposalCount : s'.governor.proposalCount = s.governor.proposalCount
  proposal : s'.governor.proposal = s.governor.proposal
  hasVoted : s'.governor.hasVoted = s.governor.hasVoted
  conviction : s'.governor.conviction = s.governor.conviction
  token : Token.machine.Advances now s.token s'.token

namespace Incidental

/-- What is incidental disturbs no proposal. -/
theorem undisturbed (h : Incidental now s s') : Undisturbed s s' :=
  ⟨by rw [h.proposalCount], h.proposal, h.hasVoted, h.conviction⟩

/-- A call that is incidental as a whole is quiet. -/
theorem effect {c : Call} (h : Incidental env.sequence s s') (hquiet : c.quiet = true) :
    Effect env c s s' := ⟨.quiet hquiet h.undisturbed, .of_eq h.config, h.token⟩

end Incidental

/-- The system with another version of a proposal stored. -/
def putProposal (id : ℕ) (p : Proposal) (s : System) : System :=
  s.mapGovernor fun g => { g with proposal := Function.update g.proposal id (some p) }

/-- A call that stores a version of a proposal and does only incidental work besides restates the
proposal. -/
theorem Incidental.restates_effect {c : Call} {id : ℕ} {p p' : Proposal}
    (hchange : Restates id p p' s s' → Change env c s s')
    (hstored : s.governor.proposal id = some p)
    (h : Incidental env.sequence (putProposal id p' s) s') : Effect env c s s' :=
  ⟨hchange ⟨hstored, h.proposalCount, h.proposal, h.hasVoted, h.conviction⟩, .of_eq h.config,
    h.token⟩

/-! ## Settings -/

/-- A governor without a configuration has no proposals. -/
def Blank (s : System) : Prop :=
  s.governor.config = none → s.governor.proposalCount.getD 0 = 0

/-- A call that at most changes settings of the configuration is quiet. -/
theorem effect_of_settings {c : Call} {config config' : Config} (hc : c.quiet = true)
    (hquiet : Undisturbed s s') (hconfig : s.governor.config = some config)
    (hconfig' : s'.governor.config = some config')
    (hterms : SameTerms config config') (htoken : s'.token = s.token) : Effect env c s s' := by
  refine ⟨.quiet hc hquiet, ?_, htoken ▸ .refl _ _⟩
  unfold Configures
  rw [hconfig]
  exact ⟨config', hconfig', hterms⟩

/-! ## Every call -/

/-- An accepted call is one of the listed changes. -/
theorem Outcome.effect {c : Call} (hblank : Blank s) (h : Outcome env s c s') :
    Effect env c s s' := by
  cases h with
  | initialized hnone hauth hmin hmax htimelock =>
    refine ⟨.quiet rfl ⟨(hblank hnone).symm, rfl, rfl, rfl⟩, ?_, .refl _ _⟩
    unfold Configures
    rw [hnone]
    intro config hconfig
    obtain rfl := Option.some.inj hconfig
    exact ⟨hmin, hmax, htimelock⟩
  | @opened _ _ config proposer _ _ hopens h _ _ hpaid hleft =>
    exact ⟨.opened hopens h, .of_eq (by rw [hleft]),
      Pays.advances (.transfer proposer env.contract) hpaid⟩
  | voted h hleft => exact ⟨.voted h, .of_eq h.config, h.token ▸ .refl _ _⟩
  | @delegated _ delegator delegatee config t hcall _ _ hdelegates =>
    have htoken := advances_of_returns (tokenEnv env config) (.delegate delegator delegatee) hdelegates
    rcases hcall with rfl | ⟨rfl, -⟩
    · exact Incidental.effect ⟨rfl, rfl, rfl, rfl, rfl, htoken⟩ rfl
    · exact Incidental.effect ⟨rfl, rfl, rfl, rfl, rfl, htoken⟩ rfl
  | @queued id config p total t _ hstored hclosed hactive htotal hquorum hmajority _ hpaid =>
    exact Incidental.restates_effect (.queued hclosed hactive htotal hquorum hmajority) hstored
      ⟨rfl, rfl, rfl, rfl, rfl, Pays.advances (.transfer env.contract p.proposer) hpaid⟩
  | failed _ hstored hclosed hactive htotal hlost hpaid =>
    exact Incidental.restates_effect (.failed hclosed hactive htotal hlost) hstored
      ⟨rfl, rfl, rfl, rfl, rfl, Pays.advances (.burn env.contract) hpaid⟩
  | begun _ hconfig hunpaused hstored hqueued hready hdeadline _ =>
    exact Incidental.restates_effect (.executed hconfig hunpaused hqueued hready hdeadline) hstored
      ⟨rfl, rfl, rfl, rfl, rfl, .refl _ _⟩
  | ended => exact Incidental.effect ⟨rfl, rfl, rfl, rfl, rfl, .refl _ _⟩ rfl
  | expired hconfig hstored hqueued hgrace hlate =>
    exact Incidental.restates_effect (.expired hconfig hqueued hgrace hlate) hstored
      ⟨rfl, rfl, rfl, rfl, rfl, .refl _ _⟩
  | cancelled hconfig hauth hstored hrole hactive hopen hpaid =>
    exact Incidental.restates_effect (.cancelled hconfig hauth hrole hactive hopen) hstored
      ⟨rfl, rfl, rfl, rfl, rfl, Pays.advances (.burn env.contract) hpaid⟩
  | vetoed hconfig hauth hrole hstored hqueued hearly =>
    exact Incidental.restates_effect (.vetoed hconfig hauth hrole hqueued hearly) hstored
      ⟨rfl, rfl, rfl, rfl, rfl, .refl _ _⟩
  | actionSet => exact Incidental.effect ⟨rfl, rfl, rfl, rfl, rfl, .refl _ _⟩ rfl
  | targetSet hcall =>
    rcases hcall with ⟨rfl, -⟩ | ⟨rfl, -⟩
    · exact Incidental.effect ⟨rfl, rfl, rfl, rfl, rfl, .refl _ _⟩ rfl
    · exact Incidental.effect ⟨rfl, rfl, rfl, rfl, rfl, .refl _ _⟩ rfl
  | nominated hcall =>
    rcases hcall with ⟨_, rfl, -⟩ | ⟨rfl, -⟩
    · exact Incidental.effect ⟨rfl, rfl, rfl, rfl, rfl, .refl _ _⟩ rfl
    · exact Incidental.effect ⟨rfl, rfl, rfl, rfl, rfl, .refl _ _⟩ rfl
  | accepted _ _ hconfig =>
    exact effect_of_settings rfl ⟨rfl, rfl, rfl, rfl⟩ hconfig rfl ⟨rfl, rfl, rfl, rfl, rfl, rfl⟩ rfl
  | depositSet hconfig =>
    exact effect_of_settings rfl ⟨rfl, rfl, rfl, rfl⟩ hconfig rfl ⟨rfl, rfl, rfl, rfl, rfl, rfl⟩ rfl
  | cooldownSet hconfig =>
    exact effect_of_settings rfl ⟨rfl, rfl, rfl, rfl⟩ hconfig rfl ⟨rfl, rfl, rfl, rfl, rfl, rfl⟩ rfl
  | guardianSet hconfig =>
    exact effect_of_settings rfl ⟨rfl, rfl, rfl, rfl⟩ hconfig rfl ⟨rfl, rfl, rfl, rfl, rfl, rfl⟩ rfl
  | paused _ hconfig =>
    exact effect_of_settings rfl ⟨rfl, rfl, rfl, rfl⟩ hconfig rfl ⟨rfl, rfl, rfl, rfl, rfl, rfl⟩ rfl
  | unpaused hconfig =>
    exact effect_of_settings rfl ⟨rfl, rfl, rfl, rfl⟩ hconfig rfl ⟨rfl, rfl, rfl, rfl, rfl, rfl⟩ rfl
  | extended => exact Incidental.effect ⟨rfl, rfl, rfl, rfl, rfl, .refl _ _⟩ rfl

/-- Every successful call of a governor is one of the listed changes. -/
theorem invoke_effect {c : Call} (hblank : Blank s) (h : (invoke env c).Returns s u s') :
    Effect env c s s' := (invoke_outcome h).effect hblank

end Quorum.Governor

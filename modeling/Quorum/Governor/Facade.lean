import Quorum.Governor.Capacity
import Quorum.Governor.Visibility

/-!
# The facade of delegation

The governor offers the token's delegation under its own name. A call of the facade goes through
whenever the holder has authorized it together with the call of the token that it makes. It then
does to the token exactly what the token's own function does, and is seen in both views at once,
while the voting power at every ledger that is over stays as it was.

The governor also keeps a copy of the delegations made through it. Holders may delegate directly
in the token, so the copy can be out of date; but nothing is ever decided by it.
-/

namespace Quorum.Governor

open Foundation Contract

variable {s s' : System} {env : Env} {start now : ℕ}

/-- `get_delegate`: the representative, as the token has it. -/
def getDelegate (account : Address) : GovernorM Address := do
  let _ ← requireConfig
  queryToken fun token => Token.getDelegates token account

/-- `get_past_votes`: the voting power at the close of a ledger, as the token reports it. -/
def getPastVotes (account : Address) (ledger : ℕ) : GovernorM I128 := do
  let _ ← requireConfig
  callToken (Token.getPastVotes account ledger)

/-- The system with other mirrored delegations. -/
def System.mirror (s : System) (delegations : Address → Option Address) : System :=
  s.mapGovernor fun g => { g with delegate := delegations }

/-- Everything is looked at but the mirrored delegations. -/
def wholeView : View := ⟨Set.univ, True, True, True, True, False⟩

/-- Whoever looks at everything can follow every call. -/
theorem wholeView_covers (i : Invocation) : wholeView.CoversInvocation i := by
  cases i with
  | token i => trivial
  | governor env c => cases c <;> simp [View.CoversInvocation, View.Covers, wholeView]

/-- States that look the same to everyone differ in the mirrored delegations alone. -/
theorem Alike.eq_mirror (h : Alike wholeView s s') : s' = s.mirror s'.governor.delegate := by
  have hconfig : s'.governor.config = s.governor.config := by
    have hrel := h.config
    generalize s.governor.config = config at hrel
    generalize s'.governor.config = config' at hrel
    cases hrel with
    | none => rfl
    | some hsame => rw [hsame.eq trivial]
  have hentries := fun id => h.entries id trivial
  have hlists := h.lists trivial
  have hnotes := h.notes
  obtain ⟨token, g⟩ := s
  obtain ⟨token', g'⟩ := s'
  obtain rfl : token' = token := h.token
  have hg : g' = { g with delegate := g'.delegate } := by
    cases g
    cases g'
    simp only [Storage.mk.injEq, true_and]
    exact ⟨hconfig, hlists.proposalCount, funext fun id => (hentries id).proposal,
      funext fun id => (hentries id).hasVoted, h.pendingAdmin, hlists.proposerIndex,
      hlists.proposerCount, funext fun id => (hentries id).deposit,
      funext fun id => (hentries id).cosponsors, funext fun id => (hentries id).conviction,
      funext fun id => (hentries id).proposalAction, h.allowedTarget, hlists.lastProposal,
      hnotes.stats trivial, hnotes.events trivial⟩
  exact congrArg (System.mk token') hg

/-! ## Delegating through the facade -/

/-- A delegation that the holder authorizes goes through in a sound token. -/
theorem token_delegate_succeeds {t : Token.Storage} {delegator : Address} (delegatee : Address)
    (hs : Token.Sound env.sequence t) (hauth : env.auth delegator = true) :
    (Token.delegate env delegator delegatee).Succeeds t := by
  rw [Token.delegate, requireAuth, succeeds_demand_bind_iff]
  refine ⟨hauth, ?_⟩
  apply succeeds_read_bind
  change (if Token.getDelegates t delegator = Token.resolveDelegatee delegator delegatee then
    pure () else _ : Token.TokenM Unit).Succeeds _
  by_cases hsame : Token.getDelegates t delegator = Token.resolveDelegatee delegator delegatee
  · rw [if_pos hsame]
    exact succeeds_pure_iff.mpr trivial
  · rw [if_neg hsame]
    have hmin := I128.minI128_nonpos
    have hbalance := hs.balance_nonneg delegator
    have hcovered := hs.balance_le_currentVotes delegator
    have hnonneg := hs.currentVotes_nonneg (Token.resolveDelegatee delegator delegatee)
    have hroom := hs.currentVotes_add_balance_le hsame
    have hfits := (Token.totalSupply t).upper
    obtain ⟨previousVotes, hprevious, hpreviousval⟩ :=
      Token.checkedSub_fits (hbalance.trans hcovered) hbalance
    obtain ⟨nextVotes, hnext, -⟩ := I128.exists_ofInt?
      (x := (Token.currentVotes t (Token.resolveDelegatee delegator delegatee) env.sequence).val +
        (Token.balance t delegator).val) (by omega) (by omega)
    apply succeeds_okOr_bind (I128.filter_checkedSub_eq_some.mpr ⟨hpreviousval, by omega⟩)
    apply succeeds_okOr_bind hnext
    apply (Token.setVotes_returns _ previousVotes t).succeeds_bind
    apply (Token.setVotes_returns _ nextVotes _).succeeds_bind
    exact ⟨(), _, rfl⟩

/-- What an authorized call of the facade leaves. -/
theorem delegate_facade_returns {config : Config} {delegator delegatee : Address}
    {t : Token.Storage} (hconfig : s.governor.config = some config)
    (hauth : env.auth delegator = true)
    (hret : (Token.delegate (tokenEnv env config) delegator delegatee).Returns s.token () t) :
    ∃ g, (delegate env delegator delegatee).Returns s () ⟨t, g⟩ ∧
      g.config = s.governor.config := by
  have htry : (tryToken (Token.delegate (tokenEnv env config) delegator delegatee)).Returns s
      (.ok ()) { s with token := t } := returns_tryCall_iff.mpr (.inl ⟨(), t, hret, rfl, rfl⟩)
  refine ⟨{ s.governor with
    delegate := Function.update s.governor.delegate delegator
      (if Token.getDelegates t delegator = delegator then none
        else some (Token.getDelegates t delegator))
    events := s.governor.events ++
      if Token.getDelegates s.token delegator ≠ Token.getDelegates t delegator then
        [.delegated delegator (Token.getDelegates t delegator)]
      else [] }, ?_, rfl⟩
  simp only [delegate, returns_requireConfig_bind_iff, requireAuth, returns_demand_bind_iff,
    returns_queryToken_bind_iff]
  refine ⟨config, hconfig, hauth, ?_⟩
  apply htry.bind
  simp only [returns_queryToken_bind_iff, returns_store_bind_iff]
  split
  · exact returns_publish_iff.mpr rfl
  · rw [List.append_nil]
    exact returns_pure_iff.mpr ⟨rfl, rfl⟩

/-- A delegation that goes through is authorized in the governor and in the token. -/
theorem delegate_signed {config : Config} {delegator delegatee : Address} {u : Unit}
    (hconfig : s.governor.config = some config)
    (h : (delegate env delegator delegatee).Returns s u s') :
    env.auth delegator = true ∧ (tokenEnv env config).auth delegator = true := by
  simp only [delegate, returns_requireConfig_bind_iff, requireAuth,
    returns_demand_bind_iff, returns_queryToken_bind_iff] at h
  obtain ⟨_, hconfig', hauth, h⟩ := h
  obtain rfl := Option.some.inj (hconfig.symm.trans hconfig')
  obtain ⟨result, s₁, htry, h⟩ := returns_bind_iff.mp h
  rcases returns_tryCall_iff.mp htry with ⟨_, t, hret, rfl, rfl⟩ | ⟨failure, _, -, rfl, rfl⟩
  · exact ⟨hauth, (Token.delegate_returns hret).1⟩
  · cases failure with
    | error e =>
      simp only at h
      split at h <;> exact absurd h (by simp [Returns])
    | trap t => exact absurd h (by simp [Returns])

/-- `get_delegate` returns the token's representative. -/
theorem getDelegate_returns {config : Config} (hconfig : s.governor.config = some config)
    (account : Address) : (getDelegate account).Returns s (Token.getDelegates s.token account) s :=
  (returns_requireConfig hconfig).bind rfl

/-- `get_past_votes` returns the token's past votes. -/
theorem getPastVotes_returns {config : Config} (hconfig : s.governor.config = some config)
    {account : Address} {ledger : ℕ} {votes : I128}
    (h : (Token.getPastVotes account ledger).Returns s.token votes s.token) :
    (getPastVotes account ledger).Returns s votes s :=
  (returns_requireConfig hconfig).bind (returns_call_iff.mpr ⟨s.token, h, rfl⟩)

/-- The call of the facade and that of the token are one function of the environment. -/
theorem invoke_delegation {c : Call} {delegator delegatee : Address}
    (hcall : c = .delegate delegator delegatee ∨ c = .undelegate delegator ∧ delegatee = delegator) :
    invoke env c = delegate env delegator delegatee := by
  rcases hcall with rfl | ⟨rfl, rfl⟩
  · rfl
  · rfl

/-- In every reachable state of a configured governor `delegate` and `undelegate` are accepted
exactly when the holder authorizes the call and the call of the token that it makes. The token is
then left as its own `delegate` leaves it, the views report the new representative of this holder
and the old one of everyone else, and the voting power of every account at every retained ledger
that is over is what it was. -/
theorem delegate_refines_token {calls : List Invocation}
    (hcalls : machine.Scheduled start now calls) {config : Config}
    (hconfig : (machine.run System.empty calls).governor.config = some config) {env : Env}
    (hnow : now ≤ env.sequence) {c : Call} {delegator delegatee : Address}
    (hcall : c = .delegate delegator delegatee ∨ c = .undelegate delegator ∧ delegatee = delegator) :
    let s := machine.run System.empty calls
    let i : Invocation := .governor env c
    let s' := machine.step i s
    (Accepted env c s ↔
      env.auth delegator = true ∧ (env.nested delegator = true ∨ delegator = env.contract)) ∧
    (Accepted env c s →
      s'.token = Token.machine.step ⟨tokenEnv env config, .delegate delegator delegatee⟩ s.token ∧
      (∀ account, (getDelegate account).Returns s'
        (if account = delegator then Token.resolveDelegatee delegator delegatee
          else Token.getDelegates s.token account) s') ∧
      ∀ account ledger, ledger < env.sequence →
        env.sequence ≤ ledger + Token.checkpointRetention →
          ∃ votes, (getPastVotes account ledger).Returns s votes s ∧
            (getPastVotes account ledger).Returns s' votes s') := by
  intro s i s'
  have hsound : Token.Sound (tokenEnv env config).sequence s.token :=
    (token_sound hcalls).mono hnow
  have hinvoke : invoke env c = delegate env delegator delegatee := invoke_delegation hcall
  have hforward : env.auth delegator = true ∧
      (env.nested delegator = true ∨ delegator = env.contract) → ∃ t g,
      (Token.delegate (tokenEnv env config) delegator delegatee).Returns s.token () t ∧
      (invoke env c).Returns s () ⟨t, g⟩ ∧ g.config = some config := by
    rintro ⟨hauth, hnested⟩
    have hallowed : (tokenEnv env config).auth delegator = true := by simpa [tokenEnv, hauth]
    obtain ⟨⟨⟩, t, hret⟩ := token_delegate_succeeds delegatee hsound hallowed
    obtain ⟨g, hg, hkept⟩ := delegate_facade_returns hconfig hauth hret
    exact ⟨t, g, hret, hinvoke ▸ hg, hkept.trans hconfig⟩
  have hsigned : Accepted env c s →
      env.auth delegator = true ∧ (env.nested delegator = true ∨ delegator = env.contract) := by
    rintro ⟨u, s₁, hret⟩
    rw [hinvoke] at hret
    have hsigned := delegate_signed hconfig hret
    simpa [tokenEnv, hsigned.1] using hsigned
  refine ⟨⟨hsigned, fun hauth => ?_⟩, fun haccepted => ?_⟩
  · obtain ⟨t, g, -, hg, -⟩ := hforward hauth
    exact ⟨(), _, hg⟩
  · obtain ⟨t, g, hret, hg, hstays⟩ := hforward (hsigned haccepted)
    obtain ⟨hdelegates, -⟩ := Token.delegate_effect hret
    have hs' : s' = ⟨t, g⟩ := hg.commit_eq
    have hstep : Token.machine.step ⟨tokenEnv env config, .delegate delegator delegatee⟩ s.token =
      t := hret.commit_eq
    have hconfig' : s'.governor.config = some config := by rw [hs']; exact hstays
    refine ⟨by rw [hs', hstep], fun account => ?_, fun account ledger hover hretained => ?_⟩
    · have hview := getDelegate_returns hconfig' account
      rw [hs'] at hview ⊢
      change (getDelegate account).Returns _ (Token.getDelegates t account) _ at hview
      rw [hdelegates, Function.update_apply] at hview
      exact hview
    · have hlast : machine.Scheduled env.sequence env.sequence [i] := ⟨le_rfl, le_rfl⟩
      have hextended := hcalls.extend hnow
      obtain ⟨votes, hvotes, hval⟩ := getPastVotes_run hextended account hretained
      obtain ⟨votes', hvotes', hval'⟩ :=
        getPastVotes_run (hextended.append hlast) account hretained
      rw [powerAtClose_append hlast hover, ← hval] at hval'
      obtain rfl := I128.ext hval'
      rw [Clocked.run_append, Clocked.run_cons, Clocked.run_nil] at hvotes'
      exact ⟨_, getPastVotes_returns hconfig hvotes, getPastVotes_returns hconfig' hvotes'⟩

/-- The holder of `launchCalls` gives its votes back to itself, but cannot with an authorization of
this call alone. -/
theorem delegate_refines_token_launched :
    Accepted (.authorized 5) (.undelegate (.account 1))
        (machine.run System.empty (launchCalls 3)) ∧
      ¬ Accepted { Env.authorized 5 with nested := fun _ => false } (.undelegate (.account 1))
        (machine.run System.empty (launchCalls 3)) := by
  have hcalls : machine.Scheduled 0 1 (launchCalls 3) := by decide
  obtain ⟨config, hconfig⟩ : ∃ config,
      (machine.run System.empty (launchCalls 3)).governor.config = some config := ⟨_, rfl⟩
  have hnow : 1 ≤ (Env.authorized 5).sequence := by decide
  have hcall : Call.undelegate (.account 1) = .delegate (.account 1) (.account 1) ∨
      Call.undelegate (.account 1) = .undelegate (.account 1) ∧
        (Address.account 1 = Address.account 1) := .inr ⟨rfl, rfl⟩
  refine ⟨(delegate_refines_token hcalls hconfig hnow hcall).1.mpr ⟨rfl, .inl rfl⟩, fun h => ?_⟩
  have hnow' : 1 ≤ ({ Env.authorized 5 with nested := fun _ => false } : Env).sequence := hnow
  rcases ((delegate_refines_token hcalls hconfig hnow' hcall).1.mp h).2 with hnested | hself
  · exact Bool.false_ne_true hnested
  · exact absurd hself (by decide)

/-! ## The mirrored delegations -/

/-- `get_delegate` looks at the configuration and at the token alone. -/
theorem getDelegate_agrees {v : View} (account : Address) :
    Agrees (Alike v) Eq (getDelegate account) (getDelegate account) :=
  requireConfig_agrees.bind fun _ _ _ => queryToken_agrees _

/-- `get_past_votes` looks at the configuration and at the token alone. -/
theorem getPastVotes_agrees {v : View} (account : Address) (ledger : ℕ) :
    Agrees (Alike v) Eq (getPastVotes account ledger) (getPastVotes account ledger) :=
  requireConfig_agrees.bind fun _ _ _ => callToken_agrees _

/-- In every reachable state, putting anything at all in place of the mirrored delegations
changes nothing: whatever is called afterwards is accepted or refused alike, every state reached
differs in the mirrored delegations alone, and the two views of delegation report the same. -/
theorem mirror_decides_nothing {calls : List Invocation}
    (hcalls : machine.Scheduled start now calls) (delegations : Address → Option Address)
    (more : List Invocation) :
    let s := machine.run System.empty calls
    let s' := s.mirror delegations
    (∃ delegations', machine.run s' more = (machine.run s more).mirror delegations') ∧
    (∀ first env c later, more = first ++ .governor env c :: later →
      (Accepted env c (machine.run s first) ↔ Accepted env c (machine.run s' first))) ∧
    (∀ account, ((getDelegate account).run (machine.run s' more)).1 =
      ((getDelegate account).run (machine.run s more)).1) ∧
    ∀ account ledger, ((getPastVotes account ledger).run (machine.run s' more)).1 =
      ((getPastVotes account ledger).run (machine.run s more)).1 := by
  intro s s'
  have hnamed := (wellFormed_run hcalls).ids
  have halike : Alike wholeView s s' := by
    have hself := Alike.refl wholeView s hnamed
    exact ⟨rfl, hself.config, rfl, rfl, fun id hid => { hself.entries id hid with },
      fun hlists => { hself.lists hlists with }, ⟨fun _ => rfl, fun _ => rfl, False.elim⟩⟩
  have hrun : Alike wholeView (machine.run s more) (machine.run s' more) :=
    halike.run fun i _ => wholeView_covers i
  refine ⟨⟨_, hrun.eq_mirror⟩, ?_, fun account => ?_, fun account ledger => ?_⟩
  · intro first env c later hmore
    exact halike.accepted_run (fun i _ => wholeView_covers i) hmore
  · exact (getDelegate_agrees account _ _ hrun).1.eq.symm
  · exact (getPastVotes_agrees account ledger _ _ hrun).1.eq.symm

/-- After `launchCalls`, with mirrored delegations that were never made: a proposal is opened, the
holder delegates through the facade and votes, with the same outcome. -/
theorem mirror_decides_nothing_launched :
    let s := machine.run System.empty (launchCalls 3)
    let s' := s.mirror fun _ => some (.account 9)
    let more : List Invocation :=
      [.governor (.authorized 5) (.createProposal (.account 1) [84] [] []),
        .governor (.authorized 6) (.delegate (.account 1) (.account 2)),
        .governor (.authorized 6) (.vote (.account 1) 1 1)]
    (Accepted (.authorized 6) (.vote (.account 1) 1 1) (machine.run s (more.take 2)) ↔
      Accepted (.authorized 6) (.vote (.account 1) 1 1) (machine.run s' (more.take 2))) ∧
    ((getDelegate (.account 1)).run (machine.run s' more)).1 =
      ((getDelegate (.account 1)).run (machine.run s more)).1 := by
  intro s s' more
  have hcalls : machine.Scheduled 0 1 (launchCalls 3) := by decide
  obtain ⟨-, haccepted, hviewed, -⟩ :=
    mirror_decides_nothing hcalls (fun _ => some (.account 9)) more
  exact ⟨haccepted (more.take 2) _ _ [] rfl, hviewed (.account 1)⟩

end Quorum.Governor

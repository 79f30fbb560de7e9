import Quorum.Foundation.Handover
import Quorum.Governor.Runs
import Quorum.Token.Roles

/-!
# Who may change what

The terms of a governor are fixed when it is initialized. The other settings change only by the
call that sets them, with the authorization of the admin in force, or of the guardian for a pause;
and the admin changes only when the nominee of the admin in force accepts.
-/

namespace Quorum.Governor

open Foundation Contract

variable {s s' : System} {env : Env} {start now : ℕ}

/-! ## Settings -/

/-- What a call may change of the configuration. -/
structure Sanctioned (env : Env) (c : Call) (config config' : Config) : Prop where
  terms : SameTerms config config'
  admin : config'.admin ≠ config.admin → c = .acceptAdmin
  guardian : config'.guardian ≠ config.guardian →
    c = .setGuardian config'.guardian ∧ env.auth config.admin = true
  proposalDeposit : config'.proposalDeposit ≠ config.proposalDeposit →
    c = .setProposalDeposit config'.proposalDeposit ∧ env.auth config.admin = true
  proposerCooldown : config'.proposerCooldown ≠ config.proposerCooldown →
    c = .setProposerCooldown config'.proposerCooldown ∧ env.auth config.admin = true
  paused : config.paused = false → config'.paused = true →
    ∃ caller, c = .pause caller ∧ env.auth caller = true ∧
      (caller = config.admin ∨ caller = config.guardian)
  unpaused : config.paused = true → config'.paused = false →
    c = .unpause ∧ env.auth config.admin = true

/-- An unchanged configuration is sanctioned. -/
theorem Sanctioned.refl (env : Env) (c : Call) (config : Config) : Sanctioned env c config config where
  terms := .refl config
  admin h := absurd rfl h
  guardian h := absurd rfl h
  proposalDeposit h := absurd rfl h
  proposerCooldown h := absurd rfl h
  paused h h' := by
    rw [h] at h'
    contradiction
  unpaused h h' := by
    rw [h] at h'
    contradiction

/-- An accepted call changes of the configuration what it may change. -/
theorem Outcome.sanctioned {c : Call} {config : Config} (h : Outcome env s c s')
    (hconfig : s.governor.config = some config) :
    ∃ config', s'.governor.config = some config' ∧ Sanctioned env c config config' := by
  cases h with
  | initialized hnone =>
    rw [hnone] at hconfig
    contradiction
  | opened _ _ _ _ _ hleft => exact ⟨config, by rw [hleft]; exact hconfig, .refl _ _ _⟩
  | voted h => exact ⟨config, by rw [h.config]; exact hconfig, .refl _ _ _⟩
  | accepted _ _ hconfig' =>
    obtain rfl := Option.some.inj (hconfig'.symm.trans hconfig)
    exact ⟨_, rfl, { Sanctioned.refl _ _ _ with
      terms := ⟨rfl, rfl, rfl, rfl, rfl, rfl⟩, admin := fun _ => rfl }⟩
  | depositSet hconfig' hauth =>
    obtain rfl := Option.some.inj (hconfig'.symm.trans hconfig)
    exact ⟨_, rfl, { Sanctioned.refl _ _ _ with
      terms := ⟨rfl, rfl, rfl, rfl, rfl, rfl⟩, proposalDeposit := fun _ => ⟨rfl, hauth⟩ }⟩
  | cooldownSet hconfig' hauth =>
    obtain rfl := Option.some.inj (hconfig'.symm.trans hconfig)
    exact ⟨_, rfl, { Sanctioned.refl _ _ _ with
      terms := ⟨rfl, rfl, rfl, rfl, rfl, rfl⟩, proposerCooldown := fun _ => ⟨rfl, hauth⟩ }⟩
  | guardianSet hconfig' hauth =>
    obtain rfl := Option.some.inj (hconfig'.symm.trans hconfig)
    exact ⟨_, rfl, { Sanctioned.refl _ _ _ with
      terms := ⟨rfl, rfl, rfl, rfl, rfl, rfl⟩, guardian := fun _ => ⟨rfl, hauth⟩
      paused := (Sanctioned.refl env (.setGuardian _) _).paused }⟩
  | paused hauth hconfig' hrole =>
    obtain rfl := Option.some.inj (hconfig'.symm.trans hconfig)
    exact ⟨_, rfl, { Sanctioned.refl _ _ _ with
      terms := ⟨rfl, rfl, rfl, rfl, rfl, rfl⟩
      paused := fun _ _ => ⟨_, rfl, hauth, hrole⟩
      unpaused := fun _ h => by contradiction }⟩
  | unpaused hconfig' hauth =>
    obtain rfl := Option.some.inj (hconfig'.symm.trans hconfig)
    exact ⟨_, rfl, { Sanctioned.refl _ _ _ with
      terms := ⟨rfl, rfl, rfl, rfl, rfl, rfl⟩
      paused := fun _ h => by contradiction
      unpaused := fun _ _ => ⟨rfl, hauth⟩ }⟩
  | _ => exact ⟨config, hconfig, .refl _ _ _⟩

/-- The configuration changes by accepted calls of the governor only. -/
theorem step_sanctioned {config : Config} (hconfig : s.governor.config = some config)
    (i : Invocation) :
    ∃ config', (machine.step i s).governor.config = some config' ∧ (config' = config ∨
      ∃ env c, i = .governor env c ∧ Accepted env c s ∧ Sanctioned env c config config') := by
  cases i with
  | token i => exact ⟨config, hconfig, .inl rfl⟩
  | governor env c =>
    by_cases haccepted : Accepted env c s
    · obtain ⟨config', hconfig', h⟩ := (invoke_outcome haccepted.returns).sanctioned hconfig
      exact ⟨config', hconfig', .inr ⟨env, c, rfl, haccepted, h⟩⟩
    · rw [step_eq_of_not_accepted haccepted]
      exact ⟨config, hconfig, .inl rfl⟩

/-- Having the same terms passes from one configuration to the next. -/
theorem SameTerms.trans {c₁ c₂ c₃ : Config} (h : SameTerms c₁ c₂) (h' : SameTerms c₂ c₃) :
    SameTerms c₁ c₃ :=
  ⟨h'.token.trans h.token, h'.quorumBps.trans h.quorumBps, h'.votingPeriod.trans h.votingPeriod,
    h'.timelockPeriod.trans h.timelockPeriod,
    h'.executionGracePeriod.trans h.executionGracePeriod,
    h'.proposalThreshold.trans h.proposalThreshold⟩

/-- The terms are the same after any run. -/
theorem run_terms {config : Config} (hconfig : s.governor.config = some config)
    (calls : List Invocation) :
    ∃ config', (machine.run s calls).governor.config = some config' ∧ SameTerms config config' := by
  induction calls generalizing s config with
  | nil => exact ⟨config, hconfig, .refl config⟩
  | cons i rest ih =>
    obtain ⟨next, hnext, rfl | ⟨_, _, _, _, hsanctioned⟩⟩ := step_sanctioned hconfig i
    · exact ih hnext
    · obtain ⟨last, hlast, hterms⟩ := ih hnext
      exact ⟨last, hlast, hsanctioned.terms.trans hterms⟩

/-! ## The admin -/

/-- The admin in force. -/
def adminOf (s : System) : Option Address := s.governor.config.map Config.admin

/-- The move of an accepted call in the hand-over of the admin's role. -/
def Call.adminMove : Call → Move Address
  | .transferAdmin newAdmin => .offered newAdmin
  | .cancelAdminTransfer => .withdrawn
  | .acceptAdmin => .taken
  | _ => .idle

/-- The move of an invocation; refused calls and calls of the token make none. -/
def adminMove (i : Invocation) (s : System) : Move Address :=
  match i with
  | .token _ => .idle
  | .governor env c => if Accepted env c s then c.adminMove else .idle

/-- The address has authorized the invocation. -/
def Invocation.authorizedBy : Invocation → Address → Prop
  | .token i, a => i.env.auth a = true
  | .governor env _, a => env.auth a = true

/-- An accepted call makes the move of the admin that belongs to it. -/
theorem Outcome.makes {c : Call} (h : Outcome env s c s') :
    Move.Makes (fun a => env.auth a = true) (adminOf s) s.governor.pendingAdmin c.adminMove
      (adminOf s') s'.governor.pendingAdmin := by
  have hkept : s'.governor.config = s.governor.config →
      ∀ a, adminOf s = some a → adminOf s' = some a := by
    intro hconfig a ha
    rw [adminOf, hconfig]
    exact ha
  cases h with
  | initialized hnone =>
    refine Move.makes_idle rfl fun a ha => ?_
    rw [adminOf, hnone] at ha
    contradiction
  | @opened c _ _ _ _ _ hopens _ _ _ _ hleft =>
    have hmove : c.adminMove = .idle := by
      cases c with
      | transferAdmin | cancelAdminTransfer | acceptAdmin => contradiction
      | _ => rfl
    rw [hmove]
    exact Move.makes_idle (by rw [hleft]) (hkept (by rw [hleft]))
  | voted h hleft => exact Move.makes_idle (by rw [hleft]) (hkept h.config)
  | delegated hcall =>
    rcases hcall with rfl | ⟨rfl, -⟩
    · exact Move.makes_idle rfl (hkept rfl)
    · exact Move.makes_idle rfl (hkept rfl)
  | targetSet hcall =>
    rcases hcall with ⟨rfl, -⟩ | ⟨rfl, -⟩
    · exact Move.makes_idle rfl (hkept rfl)
    · exact Move.makes_idle rfl (hkept rfl)
  | nominated hcall hconfig hauth =>
    have hadmin : adminOf s = some _ := congrArg (Option.map Config.admin) hconfig
    rcases hcall with ⟨newAdmin, rfl, rfl⟩ | ⟨rfl, rfl⟩
    · exact .offered hadmin hauth
    · exact .withdrawn hadmin hauth
  | accepted hpending hauth => exact .taken hpending hauth
  | depositSet hconfig | cooldownSet hconfig | guardianSet hconfig | unpaused hconfig =>
    refine Move.makes_idle rfl fun a ha => ?_
    rw [adminOf, hconfig] at ha
    exact ha
  | paused _ hconfig =>
    refine Move.makes_idle rfl fun a ha => ?_
    rw [adminOf, hconfig] at ha
    exact ha
  | _ => exact Move.makes_idle rfl (hkept rfl)

/-- The admin's role is handed over in two moves. -/
theorem handover : Handover machine adminMove Invocation.authorizedBy adminOf
    fun s => s.governor.pendingAdmin := by
  intro i s
  cases i with
  | token i => exact .idle fun _ ha => ha
  | governor env c =>
    unfold adminMove
    by_cases haccepted : Accepted env c s
    · simp only [if_pos haccepted]
      exact (invoke_outcome haccepted.returns).makes
    · simp only [if_neg haccepted]
      rw [step_eq_of_not_accepted haccepted]
      exact .idle fun _ ha => ha

/-! ## The pause -/

/-- Proposals are opened and executions begun only while the governor is not paused. -/
theorem Outcome.running {c : Call} {config : Config} (h : Outcome env s c s')
    (hconfig : s.governor.config = some config)
    (hc : c.opens ≠ none ∨ ∃ executor id, c = .beginExecution executor id) :
    config.paused = false := by
  cases h with
  | opened _ h =>
    obtain rfl := Option.some.inj (h.configured.symm.trans hconfig)
    exact h.unpaused
  | begun _ hconfig' hunpaused =>
    obtain rfl := Option.some.inj (hconfig'.symm.trans hconfig)
    exact hunpaused
  | delegated hcall => rcases hcall with rfl | ⟨rfl, -⟩ <;> simp [Call.opens] at hc
  | targetSet hcall => rcases hcall with ⟨rfl, -⟩ | ⟨rfl, -⟩ <;> simp [Call.opens] at hc
  | nominated hcall => rcases hcall with ⟨_, rfl, -⟩ | ⟨rfl, -⟩ <;> simp [Call.opens] at hc
  | _ => simp [Call.opens] at hc

/-- A paused governor accepts no constructor and no execution. -/
theorem not_accepted_of_paused {c : Call} {config : Config}
    (hconfig : s.governor.config = some config) (hpaused : config.paused = true)
    (hc : c.opens ≠ none ∨ ∃ executor id, c = .beginExecution executor id) :
    ¬ Accepted env c s := by
  intro haccepted
  rw [(invoke_outcome haccepted.returns).running hconfig hc] at hpaused
  contradiction

/-- Nothing is executed while the governor is paused, whatever would be called. -/
theorem not_executes {callee : Callee} {config : Config} {executor : Address} {id : ℕ}
    (hconfig : s.governor.config = some config) (hpaused : config.paused = true) :
    ¬ (execute callee env executor id).Succeeds s := by
  rintro ⟨u, s', h⟩
  obtain ⟨actions, s₁, hbegin, -⟩ := returns_bind_iff.mp h
  exact not_accepted_of_paused hconfig hpaused (.inr ⟨executor, id, rfl⟩) ⟨(), s₁, hbegin.bind rfl⟩

/-! ## Every run -/

/-- The terms never change. The other settings change one at a time, by the call that sets them
and with the authorization of the admin in force, or of the guardian for a pause. The admin changes
only by an `accept_admin` that the new admin authorizes, who was nominated last by the admin in
force, with neither a withdrawal nor another acceptance since; so it is in the token. While the
governor is paused nothing is opened and nothing is executed. -/
theorem roles_change_as_designed {calls : List Invocation} {config : Config}
    (hconfig : (machine.run System.empty calls).governor.config = some config) :
    let s := machine.run System.empty calls
    (∀ more, ∃ config', (machine.run s more).governor.config = some config' ∧
      SameTerms config config') ∧
    (∀ i, ∃ config', (machine.step i s).governor.config = some config' ∧ (config' = config ∨
      ∃ env c, i = .governor env c ∧ Accepted env c s ∧ Sanctioned env c config config')) ∧
    (∀ env, Accepted env .acceptAdmin s → ∃ newAdmin,
      adminOf (machine.step (.governor env .acceptAdmin) s) = some newAdmin ∧
      env.auth newAdmin = true ∧ ∃ first d later, calls = first ++ d :: later ∧
        Offers machine adminMove Invocation.authorizedBy adminOf System.empty first d later
          newAdmin) ∧
    (config.paused = true → (∀ env c, c.opens ≠ none → ¬ Accepted env c s) ∧
      (∀ env executor id, ¬ Accepted env (.beginExecution executor id) s) ∧
      ∀ callee env executor id, ¬ (execute callee env executor id).Succeeds s) ∧
    ∀ tokenCalls : List Token.Invocation,
      let t := Token.machine.run Token.Storage.empty tokenCalls
      ∀ i admin, t.admin = some admin →
        ((Token.machine.step i t).admin ≠ some admin →
          Token.accepted i t = true ∧ i.call = .acceptAdmin) ∧
        (Token.accepted i t = true → i.call = .acceptAdmin → ∃ newAdmin,
          (Token.machine.step i t).admin = some newAdmin ∧ i.env.auth newAdmin = true ∧
          ∃ first d later, tokenCalls = first ++ d :: later ∧
            Offers Token.machine Token.adminMove (fun i a => i.env.auth a = true)
              Token.Storage.admin Token.Storage.empty first d later newAdmin) := by
  intro s
  refine ⟨run_terms hconfig, step_sanctioned hconfig, ?_, fun hpaused => ⟨?_, ?_, ?_⟩, ?_⟩
  · intro env haccepted
    have htaken : adminMove (.governor env .acceptAdmin) s = .taken := if_pos haccepted
    exact handover.taken_run rfl htaken
  · exact fun env c hopens => not_accepted_of_paused hconfig hpaused (.inl hopens)
  · exact fun env executor id =>
      not_accepted_of_paused hconfig hpaused (.inr ⟨executor, id, rfl⟩)
  · exact fun callee env executor id => not_executes hconfig hpaused
  · intro tokenCalls t i admin hadmin
    refine ⟨fun hne => ?_, fun haccepted hcall => ?_⟩
    · exact Token.adminMove_eq_taken.mp (Token.handover.taken_of_ne hadmin hne)
    · exact Token.handover.taken_run rfl (Token.adminMove_eq_taken.mpr ⟨haccepted, hcall⟩)

/-- The admin nominates account 4, withdraws that and nominates account 5. -/
def handoverCalls : List Invocation :=
  [.governor (.authorized 1)
      (.initializeGovernor (.account 1) (.account 2) (.contract 1) 1000 3 2 5 0),
    .governor (.authorized 2) (.transferAdmin (.account 4)),
    .governor (.authorized 3) .cancelAdminTransfer,
    .governor (.authorized 4) (.transferAdmin (.account 5))]

/-- After a withdrawn nomination the later nominee takes over, by the last offer. -/
theorem roles_change_as_designed_handover :
    ∃ newAdmin, adminOf (machine.step (.governor (.authorized 5) .acceptAdmin)
        (machine.run System.empty handoverCalls)) = some newAdmin ∧
      ∃ first d later, handoverCalls = first ++ d :: later ∧
        Offers machine adminMove Invocation.authorizedBy adminOf System.empty first d later
          newAdmin := by
  have hconfig : (machine.run System.empty handoverCalls).governor.config =
      some ⟨.contract 1, 1000, 3, 2, 0, .account 1, .account 2, 5, false, 0, 0⟩ := by decide
  obtain ⟨-, -, haccept, -⟩ := roles_change_as_designed hconfig
  obtain ⟨newAdmin, hadmin, -, hoffer⟩ := haccept (.authorized 5) (by decide)
  exact ⟨newAdmin, hadmin, hoffer⟩

end Quorum.Governor

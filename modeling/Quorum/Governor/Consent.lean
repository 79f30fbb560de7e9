import Quorum.Governor.Admission
import Quorum.Token.Consent

/-!
# Nothing is done in the name of an account without its consent

Over a whole run in which an account authorizes none of the calls, of the governor or of the
token: its votes and its delegation stay as they are, no proposal is opened or sponsored and no
action attached in its name, and its tokens are touched only within the allowances that it granted
before. The governor's own address is the one exception, since the governor authorizes its calls
of the token itself.
-/

namespace Quorum.Governor

open Foundation Contract

variable {s s' : System} {env : Env} {start mid now : ℕ} {c : Call} {a : Address}

/-- What an account keeps that authorizes nothing. -/
structure Respects (a : Address) (s s' : System) : Prop where
  token : Token.Respects a s.token s'.token
  votes : ∀ id, s'.governor.hasVoted id a = s.governor.hasVoted id a
  delegate : s'.governor.delegate a = s.governor.delegate a
  proposerCount : s'.governor.proposerCount a = s.governor.proposerCount a
  proposerIndex : s'.governor.proposerIndex a = s.governor.proposerIndex a
  lastProposal : s'.governor.lastProposal a = s.governor.lastProposal a
  sponsored : ∀ id, a ∈ (s'.governor.cosponsors id).getD [] →
    s'.governor.cosponsors id = s.governor.cosponsors id
  opened : ∀ id p', s'.governor.proposal id = some p' → p'.proposer = a →
    ∃ p, s.governor.proposal id = some p ∧ p.proposer = a ∧
      s'.governor.proposalAction id = s.governor.proposalAction id

/-- A state respects everybody's consent to itself. -/
theorem Respects.refl (a : Address) (s : System) : Respects a s s :=
  ⟨.refl a s.token, fun _ => rfl, rfl, rfl, rfl, rfl, fun _ _ => rfl,
    fun _ p hp hproposer => ⟨p, hp, hproposer, rfl⟩⟩

/-- Respect passes from one state to the next. -/
theorem Respects.trans {s₁ s₂ s₃ : System} (h : Respects a s₁ s₂) (h' : Respects a s₂ s₃) :
    Respects a s₁ s₃ where
  token := h.token.trans h'.token
  votes id := (h'.votes id).trans (h.votes id)
  delegate := h'.delegate.trans h.delegate
  proposerCount := h'.proposerCount.trans h.proposerCount
  proposerIndex := h'.proposerIndex.trans h.proposerIndex
  lastProposal := h'.lastProposal.trans h.lastProposal
  sponsored id hmem := by
    have hlater := h'.sponsored id hmem
    rw [hlater] at hmem
    exact hlater.trans (h.sponsored id hmem)
  opened id p₃ hp₃ hproposer₃ := by
    obtain ⟨p₂, hp₂, hproposer₂, hactions⟩ := h'.opened id p₃ hp₃ hproposer₃
    obtain ⟨p₁, hp₁, hproposer₁, hactions'⟩ := h.opened id p₂ hp₂ hproposer₂
    exact ⟨p₁, hp₁, hproposer₁, hactions.trans hactions'⟩

/-- The account has not authorized the call, and is not the governor that makes it. -/
def Invocation.Silent (a : Address) : Invocation → Prop
  | .token i => i.env.auth a = false
  | .governor env _ => env.auth a = false ∧ a ≠ env.contract

instance Invocation.Silent.decidable (a : Address) : ∀ i, Decidable (Invocation.Silent a i)
  | .token _ => inferInstanceAs (Decidable (_ = false))
  | .governor _ _ => inferInstanceAs (Decidable (_ ∧ _))

/-! ## One call -/

/-- What the governor calls of its token has the consent of the caller or is about its own
tokens. -/
theorem tokenEnv_auth {config : Config} (hauth : env.auth a = false) (hother : a ≠ env.contract) :
    (tokenEnv env config).auth a = false := by
  simp [tokenEnv, hauth, hother]

/-- An accepted call leaves what the token keeps of an account that does not authorize it. -/
theorem Outcome.respects_token (h : Outcome env s c s') (hs : Token.Solvent s.token)
    (hauth : env.auth a = false) (hother : a ≠ env.contract) :
    Token.Respects a s.token s'.token := by
  have hpays : ∀ {config t} (pay : I128 → Token.Call) (held : Option I128),
      Pays (fun amount => Token.invoke (tokenEnv env config) (pay amount)) held s.token t →
      Token.Respects a s.token t := by
    intro config t pay held hpaid
    cases held with
    | none =>
      obtain rfl : t = s.token := hpaid
      exact .refl a _
    | some amount => exact Token.invoke_respects hs hpaid (tokenEnv_auth hauth hother)
  cases h with
  | @opened _ _ config proposer _ _ _ _ _ _ hpaid =>
    exact hpays (fun amount => .transfer proposer env.contract amount) _ hpaid
  | @queued _ config p _ _ _ _ _ _ _ _ _ _ hpaid =>
    exact hpays (fun amount => .transfer env.contract p.proposer amount) _ hpaid
  | failed _ _ _ _ _ _ hpaid | cancelled _ _ _ _ _ _ hpaid =>
    exact hpays (fun amount => .burn env.contract amount) _ hpaid
  | @delegated c delegator delegatee config t _ _ _ hdelegates =>
    exact Token.invoke_respects (c := .delegate delegator delegatee) hs hdelegates
      (tokenEnv_auth hauth hother)
  | voted h =>
    rw [h.token]
    exact .refl a _
  | _ => exact .refl a _

/-- Who has authorized a call is not an account that has not. -/
theorem ne_of_auth {owner : Address} (hauth : env.auth a = false) (howner : env.auth owner = true) :
    a ≠ owner := by
  rintro rfl
  rw [howner] at hauth
  contradiction

/-- An accepted call leaves the ballots of an account that does not authorize it. -/
theorem Outcome.respects_votes (h : Outcome env s c s') (hauth : env.auth a = false) (id : ℕ) :
    s'.governor.hasVoted id a = s.governor.hasVoted id a := by
  cases h with
  | @voted voter other _ _ _ _ _ h =>
    rw [h.hasVoted]
    by_cases hid : id = other
    · rw [hid, Function.update_self, Function.update_of_ne (ne_of_auth hauth h.authorized)]
    · rw [Function.update_of_ne hid]
  | opened _ _ _ _ _ hleft => rw [hleft]
  | _ => rfl

/-- The entries that only an opening or a delegation of the account itself writes. -/
theorem Outcome.respects_entries (h : Outcome env s c s') (hauth : env.auth a = false) :
    s'.governor.delegate a = s.governor.delegate a ∧
      s'.governor.proposerCount a = s.governor.proposerCount a ∧
      s'.governor.proposerIndex a = s.governor.proposerIndex a ∧
      s'.governor.lastProposal a = s.governor.lastProposal a := by
  cases h with
  | opened _ h _ _ _ hleft =>
    have hne := ne_of_auth hauth h.authorized
    rw [hleft]
    exact ⟨rfl, Function.update_of_ne hne _ _, Function.update_of_ne hne _ _,
      Function.update_of_ne hne _ _⟩
  | delegated _ _ hdelegator =>
    exact ⟨Function.update_of_ne (ne_of_auth hauth hdelegator) _ _, rfl, rfl, rfl⟩
  | voted _ hleft =>
    rw [hleft]
    exact ⟨rfl, rfl, rfl, rfl⟩
  | _ => exact ⟨rfl, rfl, rfl, rfl⟩

/-- A proposal is sponsored by those who have authorized the call that opened it. -/
theorem Outcome.respects_sponsored (h : Outcome env s c s') (haccepted : Accepted env c s)
    (hreceptive : ∀ config, s.governor.config = some config → Receptive config s)
    (hauth : env.auth a = false) (id : ℕ) (hmem : a ∈ (s'.governor.cosponsors id).getD []) :
    s'.governor.cosponsors id = s.governor.cosponsors id := by
  cases h with
  | @opened _ _ config _ _ q hopens h _ _ _ hleft =>
    rw [hleft] at hmem ⊢
    by_cases hsponsors : c.cosponsors ≠ []
    · simp only [if_pos hsponsors] at hmem ⊢
      by_cases hid : id = q.id
      · rw [hid, Function.update_self, Option.getD_some] at hmem
        obtain ⟨hscreened, -⟩ := (accepted_iff (hreceptive config h.configured) hopens).mp haccepted
        exact absurd rfl (ne_of_auth hauth (hscreened.sponsored a hmem))
      · exact Function.update_of_ne hid _ _
    · simp only [if_neg hsponsors]
  | voted _ hleft => rw [hleft]
  | _ => rfl

/-- The actions of a proposal are attached by its proposer. -/
theorem Outcome.respects_actions (h : Outcome env s c s') (hauth : env.auth a = false) {id : ℕ}
    {p : Proposal} (hp : s.governor.proposal id = some p) (hproposer : p.proposer = a) :
    s'.governor.proposalAction id = s.governor.proposalAction id := by
  cases h with
  | @actionSet proposer _ other _ _ q hattached hstored hown =>
    apply Function.update_of_ne
    rintro rfl
    obtain rfl := Option.some.inj (hstored.symm.trans hp)
    exact ne_of_auth hauth hattached (hproposer.symm.trans hown.symm)
  | opened _ _ _ _ _ hleft => rw [hleft]
  | voted _ hleft => rw [hleft]
  | _ => rfl

/-- A proposal of the account was there before. -/
theorem Change.respects_proposals (h : Change env c s s')
    (hauth : env.auth a = false) {id : ℕ} {p' : Proposal}
    (hp' : s'.governor.proposal id = some p') (hproposer : p'.proposer = a) :
    ∃ p, s.governor.proposal id = some p ∧ p.proposer = a := by
  rcases h.revises with hquiet | ⟨config, proposer, _, q, hopens⟩ | ⟨other, q, q', hrevises⟩
  · rw [hquiet.proposal] at hp'
    exact ⟨p', hp', hproposer⟩
  · rw [hopens.proposal] at hp'
    by_cases hid : id = q.id
    · rw [hid, Function.update_self] at hp'
      obtain rfl := Option.some.inj hp'
      exact absurd (hproposer.symm.trans hopens.proposer) (ne_of_auth hauth hopens.authorized)
    · rw [Function.update_of_ne hid] at hp'
      exact ⟨p', hp', hproposer⟩
  · rw [hrevises.proposal] at hp'
    by_cases hid : id = other
    · rw [hid, Function.update_self] at hp'
      obtain rfl := Option.some.inj hp'
      exact ⟨q, hid ▸ hrevises.stored, hrevises.kept.proposer.symm.trans hproposer⟩
    · rw [Function.update_of_ne hid] at hp'
      exact ⟨p', hp', hproposer⟩

/-- A call respects every account that is silent in it. -/
theorem step_respects {i : Invocation} (hw : WellFormed now s) (hs : Token.Solvent s.token)
    (hreceptive : ∀ config, s.governor.config = some config → Receptive config s)
    (hsilent : i.Silent a) : Respects a s (machine.step i s) := by
  cases i with
  | token i =>
    exact { Respects.refl a s with token := Token.step_respects hs hsilent }
  | governor env c =>
    obtain ⟨hauth, hother⟩ := hsilent
    by_cases haccepted : Accepted env c s
    · have houtcome := invoke_outcome haccepted.returns
      have heffect := haccepted.effect hw.blank
      obtain ⟨hdelegate, hcount, hindex, hlast⟩ := houtcome.respects_entries hauth
      refine ⟨houtcome.respects_token hs hauth hother, houtcome.respects_votes hauth, hdelegate,
        hcount, hindex, hlast, houtcome.respects_sponsored haccepted hreceptive hauth,
        fun id p' hp' hproposer => ?_⟩
      obtain ⟨p, hp, hown⟩ := heffect.change.respects_proposals hauth hp' hproposer
      exact ⟨p, hp, hown, houtcome.respects_actions hauth hp hown⟩
    · rw [step_eq_of_not_accepted haccepted]
      exact .refl a s

/-! ## Every run -/

/-- Whatever is called in a run without the consent of an account, it keeps its votes, its
representative and its locks; nothing is opened, sponsored or attached in its name; and the balance
that is not already on call to others never falls. -/
theorem consent {calls more : List Invocation} (hcalls : machine.Scheduled start mid calls)
    (hmore : machine.Scheduled mid now more) (hsilent : ∀ i ∈ more, i.Silent a) :
    Respects a (machine.run System.empty calls) (machine.run System.empty (calls ++ more)) := by
  induction more generalizing calls mid with
  | nil =>
    rw [List.append_nil]
    exact .refl a _
  | cons i rest ih =>
    have hi : machine.Scheduled mid (machine.time i) [i] := ⟨hmore.1, le_rfl⟩
    have hone : Respects a (machine.run System.empty calls)
        (machine.run System.empty (calls ++ [i])) := by
      rw [Clocked.run_append]
      exact step_respects (wellFormed_run hcalls) (token_sound hcalls).solvent
        (fun _ hconfig => receptive_run hcalls hconfig) (hsilent i List.mem_cons_self)
    have hrest := ih (hcalls.append hi) hmore.2 fun j hj => hsilent j (List.mem_cons_of_mem i hj)
    rw [List.append_assoc, List.singleton_append] at hrest
    exact hone.trans hrest

/-- The holder has approved a draw of 30 by the guardian, who draws 10 and tries to vote in the
holder's name. -/
theorem consent_drawn :
    let calls := launchCalls 3 ++
      [.token ⟨.authorized 2, .approve (.account 1) (.account 2) (.ofNat 30) 100⟩,
        .governor (.authorized 5) (.createProposal (.account 1) [84] [] [])]
    let guardian : Env := { Env.authorized 6 with auth := fun x => decide (x = .account 2) }
    let more : List Invocation :=
      [.token ⟨guardian, .transferFrom (.account 2) (.account 1) (.account 2) (.ofNat 10)⟩,
        .governor guardian (.vote (.account 1) 1 1)]
    Respects (.account 1) (machine.run System.empty calls)
      (machine.run System.empty (calls ++ more)) := by
  intro calls guardian more
  have hcalls : machine.Scheduled 0 5 calls := by decide
  have hmore : machine.Scheduled 5 6 more := by decide
  have hsilent : ∀ i ∈ more, i.Silent (.account 1) := by decide
  exact consent hcalls hmore hsilent

end Quorum.Governor

import Quorum.Governor.Listing
import Quorum.Token.Refusals

/-!
# Which proposals are admitted

A constructor goes through its checks in order and writes only after the last of them. `Screened`
collects the checks up to the deposit, `openProposal_succeeds_iff` says that a call which passes
them goes through exactly if the quorum and the window can be computed and the deposit is paid, and
`openProposal_fails_iff` says which calls the checks turn away.
-/

namespace Quorum.Governor

open Foundation Contract

variable {s s' : System} {env : Env} {start now : ℕ}

/-! ## The three constructors -/

/-- The title of a proposal that a call opens. -/
def Call.title : Call → Text
  | .createProposal _ title _ _ => title
  | .createCosponsoredProposal _ _ title _ _ => title
  | .createConvictionProposal _ title _ _ => title
  | _ => []

/-- The description of a proposal that a call opens. -/
def Call.description : Call → Text
  | .createProposal _ _ description _ => description
  | .createCosponsoredProposal _ _ _ description _ => description
  | .createConvictionProposal _ _ description _ => description
  | _ => []

/-- The metadata link of a proposal that a call opens. -/
def Call.metadataUri : Call → Text
  | .createProposal _ _ _ metadataUri => metadataUri
  | .createCosponsoredProposal _ _ _ _ metadataUri => metadataUri
  | .createConvictionProposal _ _ _ metadataUri => metadataUri
  | _ => []

/-- The constructors open a proposal with what their calls carry. -/
theorem invoke_eq_openProposal {c : Call} {proposer : Address} {conviction : Bool}
    (hopens : c.opens = some (proposer, conviction)) :
    invoke env c = discard (openProposal env proposer c.cosponsors c.title c.description
      c.metadataUri conviction) := by
  cases c with
  | createProposal | createCosponsoredProposal | createConvictionProposal =>
    obtain ⟨rfl, rfl⟩ := Prod.mk.inj (Option.some.inj hopens)
    rfl
  | _ => contradiction

/-! ## Co-sponsors -/

/-- Co-sponsors as the constructors accept them. -/
structure Sponsors (proposer : Address) (cosponsors : List Address) : Prop where
  few : cosponsors.length ≤ maxCosponsors
  distinct : cosponsors.Nodup
  others : proposer ∉ cosponsors

instance Sponsors.decidable (proposer : Address) (cosponsors : List Address) :
    Decidable (Sponsors proposer cosponsors) :=
  decidable_of_iff (cosponsors.length ≤ maxCosponsors ∧ cosponsors.Nodup ∧ proposer ∉ cosponsors)
    ⟨fun h => ⟨h.1, h.2.1, h.2.2⟩, fun h => ⟨h.few, h.distinct, h.others⟩⟩

/-- The nested loops accept a list without repetitions that avoids the proposer and what came
before. -/
theorem distinctSponsors_iff {proposer : Address} {seen cosponsors : List Address} :
    distinctSponsors proposer seen cosponsors = true ↔
      cosponsors.Nodup ∧ proposer ∉ cosponsors ∧ ∀ sponsor ∈ cosponsors, sponsor ∉ seen := by
  induction cosponsors generalizing seen with
  | nil => simp [distinctSponsors]
  | cons sponsor rest ih =>
    rw [distinctSponsors]
    by_cases hproposer : sponsor = proposer
    · rw [if_pos hproposer]
      simp [hproposer]
    · rw [if_neg hproposer]
      by_cases hseen : sponsor ∈ seen
      · rw [if_pos hseen]
        simp [hseen]
      · rw [if_neg hseen, ih, List.nodup_cons, List.mem_cons, List.forall_mem_cons]
        have hne : proposer ≠ sponsor := Ne.symm hproposer
        constructor
        · rintro ⟨hdistinct, hothers, hunseen⟩
          have hmem : sponsor ∉ rest := fun hin => by
            have := hunseen sponsor hin
            simp at this
          refine ⟨⟨hmem, hdistinct⟩, by tauto, hseen, fun other hother hin => ?_⟩
          exact hunseen other hother (List.mem_append_left _ hin)
        · rintro ⟨⟨hmem, hdistinct⟩, hothers, -, hunseen⟩
          refine ⟨hdistinct, by tauto, fun other hother hin => ?_⟩
          rcases List.mem_append.mp hin with hin | hin
          · exact hunseen other hother hin
          · exact hmem (List.mem_singleton.mp hin ▸ hother)

/-- The checks on the cosponsors are one check that they may sponsor. -/
theorem validateCosponsors_eq (cosponsors : List Address) (proposer : Address) :
    validateCosponsors cosponsors proposer =
      rejectIf (¬ Sponsors proposer cosponsors) .invalidCosponsors := by
  have hdistinct : distinctSponsors proposer [] cosponsors = true ↔
      cosponsors.Nodup ∧ proposer ∉ cosponsors := by
    rw [distinctSponsors_iff]
    simp
  unfold validateCosponsors rejectIf
  by_cases hvalid : Sponsors proposer cosponsors
  · rw [if_neg (not_not.mpr hvalid), if_neg (Nat.not_lt.mpr hvalid.few), if_neg]
    · rfl
    · rw [hdistinct.mpr ⟨hvalid.distinct, hvalid.others⟩]
      exact Bool.noConfusion
  · rw [if_pos hvalid]
    by_cases hfew : maxCosponsors < cosponsors.length
    · rw [if_pos hfew]
      rfl
    · rw [if_neg hfew, if_pos]
      · rfl
      · rw [← Bool.not_eq_true, hdistinct]
        exact fun h => hvalid ⟨Nat.not_lt.mp hfew, h.1, h.2⟩

/-- The cosponsors' authorizations are one demand that all of them authorize. -/
theorem requireAuths_eq (cosponsors : List Address) :
    requireAuths env cosponsors =
      demand (∀ sponsor ∈ cosponsors, env.auth sponsor = true) .auth := by
  induction cosponsors with
  | nil => simp [requireAuths, demand]
  | cons sponsor rest ih =>
    rw [requireAuths, ih]
    by_cases hauth : env.auth sponsor = true
    · have hfirst : (requireAuth env sponsor : GovernorM Unit) = pure () := if_pos hauth
      have hiff : (∀ other ∈ sponsor :: rest, env.auth other = true) ↔
          ∀ other ∈ rest, env.auth other = true := by
        rw [List.forall_mem_cons]
        exact and_iff_right hauth
      rw [hfirst, pure_bind_eq, demand_congr hiff]
    · have hfirst : (requireAuth env sponsor : GovernorM Unit) = stop (.trap .auth) := if_neg hauth
      have hall : (demand (∀ other ∈ sponsor :: rest, env.auth other = true) .auth : GovernorM Unit) =
          stop (.trap .auth) := if_neg fun h => hauth (h sponsor List.mem_cons_self)
      rw [hfirst, hall, stop_bind_eq]

/-! ## The stake behind a proposal -/

/-- The live balances of the proposer and the co-sponsors together. -/
def backing (t : Token.Storage) (proposer : Address) (cosponsors : List Address) : ℤ :=
  ((proposer :: cosponsors).map (Token.weight t)).sum

/-- Balances of different holders are part of the supply. -/
theorem backing_le {t : Token.Storage} {proposer : Address} {cosponsors : List Address}
    (ht : Token.Solvent t) (h : Sponsors proposer cosponsors) :
    backing t proposer cosponsors ≤ maxI128 := by
  have hnodup : (proposer :: cosponsors).Nodup := List.nodup_cons.mpr ⟨h.others, h.distinct⟩
  unfold backing
  calc ((proposer :: cosponsors).map (Token.weight t)).sum
      = ∑ a ∈ (proposer :: cosponsors).toFinset, Token.weight t a :=
        (List.sum_toFinset _ hnodup).symm
    _ ≤ ∑ a, Token.weight t a :=
        Finset.sum_le_sum_of_subset_of_nonneg (Finset.subset_univ _) fun a _ _ => ht.nonneg a
    _ = (Token.totalSupply t).val := ht.total
    _ ≤ maxI128 := (Token.totalSupply t).upper

/-- The loop over the co-sponsors adds up their balances. -/
theorem combinedBalance_eq {cosponsors : List Address} {combined : I128}
    (hnonneg : ∀ a, 0 ≤ Token.weight s.token a) (hcombined : 0 ≤ combined.val)
    (hfits : combined.val + (cosponsors.map (Token.weight s.token)).sum ≤ maxI128) :
    ∃ sum, (combinedBalance cosponsors combined).Returns s sum s ∧
      sum.val = combined.val + (cosponsors.map (Token.weight s.token)).sum := by
  induction cosponsors generalizing combined with
  | nil => exact ⟨combined, rfl, (add_zero _).symm⟩
  | cons sponsor rest ih =>
    have hrest : 0 ≤ (rest.map (Token.weight s.token)).sum := by
      apply List.sum_nonneg
      intro x hx
      obtain ⟨a, -, rfl⟩ := List.mem_map.mp hx
      exact hnonneg a
    have hsponsor := hnonneg sponsor
    rw [List.map_cons, List.sum_cons] at hfits ⊢
    obtain ⟨next, hnext, hval⟩ : ∃ next,
      addWeight combined (Token.balance s.token sponsor) = some next ∧
        next.val = combined.val + Token.weight s.token sponsor := by
      obtain ⟨next, hnext, hval⟩ := I128.exists_ofInt?
        (x := combined.val + (Token.balance s.token sponsor).val)
        (by unfold Token.weight at hsponsor; have := I128.minI128_nonpos; omega)
        (by unfold Token.weight at *; omega)
      exact ⟨next, hnext, hval⟩
    have hnonnegative : 0 ≤ next.val := by omega
    obtain ⟨sum, hsum, hsumval⟩ := ih hnonnegative (by omega)
    refine ⟨sum, ?_, by omega⟩
    rw [combinedBalance, returns_queryToken_bind_iff, returns_okOr_bind_iff]
    exact ⟨next, hnext, hsum⟩

/-- Where the token is solvent the combined balance is the backing. -/
theorem combinedBalance_backing {proposer : Address} {cosponsors : List Address}
    (hsolvent : Token.Solvent s.token) (h : Sponsors proposer cosponsors) :
    ∃ sum, (combinedBalance cosponsors (Token.balance s.token proposer)).Returns s sum s ∧
      sum.val = backing s.token proposer cosponsors :=
  combinedBalance_eq hsolvent.nonneg (hsolvent.nonneg proposer) (backing_le hsolvent h)

/-! ## The checks -/

/-- The checks on the text, the pause and the wait since the last proposal. -/
structure Presented (env : Env) (proposer : Address) (c : Call) (config : Config) (s : System) :
    Prop where
  unpaused : config.paused = false
  titled : c.title ≠ []
  titleLength : c.title.length ≤ maxTitleLength
  descriptionLength : c.description.length ≤ maxDescriptionLength
  rested : onCooldown env config (s.governor.lastProposal proposer) = false

/-- The checks of a constructor up to and including the one of the deposit. -/
structure Screened (env : Env) (proposer : Address) (c : Call) (config : Config) (s : System) :
    Prop where
  authorized : env.auth proposer = true
  sponsors : Sponsors proposer c.cosponsors
  sponsored : ∀ sponsor ∈ c.cosponsors, env.auth sponsor = true
  presented : Presented env proposer c config s
  numbered : getProposalCount s.governor < maxU64
  staked : config.proposalThreshold.val ≤ backing s.token proposer c.cosponsors
  funded : config.proposalDeposit.val ≤ (Token.balance s.token proposer).val

/-- The quorum and the end of the window can be computed. -/
structure Measured (env : Env) (config : Config) (s : System) : Prop where
  quorum : (Token.totalSupply s.token).val * config.quorumBps ≤ maxI128
  window : env.sequence + 1 + config.votingPeriod ≤ maxU32

/-- The token takes the deposit, if one is set. -/
def Payable (env : Env) (proposer : Address) (config : Config) (s : System) : Prop :=
  0 < config.proposalDeposit.val →
    (payIn env config proposer config.proposalDeposit).Succeeds s.token

/-- The lock of a deposit succeeds exactly when the deposit is payable. -/
theorem lockDeposit_succeeds_bind_iff {A : Type} {config : Config} {proposer : Address} {id : ℕ}
    {f : Unit → GovernorM A} (hf : ∀ s', s'.governor.proposerCount = s.governor.proposerCount →
      (f ()).Succeeds s') :
    (lockDeposit env config proposer id >>= f).Succeeds s ↔ Payable env proposer config s := by
  unfold lockDeposit Payable
  by_cases hdeposit : 0 < config.proposalDeposit.val
  · rw [if_pos hdeposit, succeeds_bind_iff]
    constructor
    · rintro ⟨u, s', hlock, -⟩ -
      obtain ⟨u', t, hpaid, -⟩ := returns_callToken_bind_iff.mp hlock
      exact ⟨u', t, hpaid⟩
    · intro hpaid
      obtain ⟨u, t, hpaid⟩ := hpaid hdeposit
      exact ⟨(), _, returns_callToken_bind_iff.mpr ⟨u, t, hpaid, rfl⟩, hf _ rfl⟩
  · rw [if_neg hdeposit, pure_bind_eq]
    exact iff_of_true (hf s rfl) fun h => absurd h hdeposit

/-- The index writes succeed while the proposer's count has room. -/
theorem indexProposal_succeeds_bind {A : Type} {proposer : Address} {cosponsors : List Address}
    {conviction : Bool} {id : ℕ} {f : Unit → GovernorM A}
    (hcount : (s.governor.proposerCount proposer).getD 0 < maxU64) (hf : ∀ s', (f ()).Succeeds s') :
    (indexProposal env proposer cosponsors conviction id >>= f).Succeeds s := by
  apply Succeeds.bind _ fun _ => hf
  unfold indexProposal
  cases conviction <;> cases cosponsors <;>
    exact succeeds_unwrap_bind_iff.mpr
      ⟨_, checkedAddU64_eq_some.mpr ⟨rfl, hcount⟩, succeeds_write_iff.mpr trivial⟩

/-- The quorum is the share `quorumBps` of the supply, rounded down. It fails only by its product. -/
theorem quorumForSupply_eq_some {supply quorum : I128} {quorumBps : ℕ} (hsupply : 0 ≤ supply.val)
    (hbps : quorumBps ≤ maxQuorumBps) :
    quorumForSupply supply quorumBps = some quorum ↔
      supply.val * quorumBps ≤ maxI128 ∧ quorum.val = supply.val * quorumBps / 10000 := by
  have hmin := I128.minI128_nonpos
  have hscaled : 0 ≤ supply.val * quorumBps := mul_nonneg hsupply (Int.natCast_nonneg _)
  obtain ⟨bps, hsome, hval⟩ := I128.exists_ofInt? (x := (quorumBps : ℤ))
    (hmin.trans (Int.natCast_nonneg _))
    ((Int.ofNat_le.mpr hbps).trans (by decide))
  have hdenominator : bpsDenominator.val = 10000 := rfl
  simp only [quorumForSupply, hsome, I128.checkedMul, I128.checkedDiv, hdenominator, hval,
    Option.bind_eq_bind, Option.bind_some, Option.bind_eq_some_iff, I128.ofInt?_eq_some,
    if_neg (show ¬ (10000 : ℤ) = 0 by decide)]
  constructor
  · rintro ⟨scaled, heq, hquorum⟩
    rw [← heq, Int.tdiv_eq_ediv_of_nonneg hscaled] at hquorum
    exact ⟨heq ▸ scaled.upper, hquorum.symm⟩
  · rintro ⟨hfits, hquorum⟩
    obtain ⟨scaled, hsome, hscaledval⟩ := I128.exists_ofInt? (hmin.trans hscaled) hfits
    refine ⟨scaled, hscaledval.symm, ?_⟩
    rw [hscaledval, Int.tdiv_eq_ediv_of_nonneg hscaled]
    exact hquorum.symm

/-- The quorum of a supply exists where their product fits. -/
theorem exists_quorumForSupply {supply : I128} {quorumBps : ℕ} (hsupply : 0 ≤ supply.val)
    (hbps : quorumBps ≤ maxQuorumBps) (hfits : supply.val * quorumBps ≤ maxI128) :
    ∃ quorum, quorumForSupply supply quorumBps = some quorum := by
  have hscaled : 0 ≤ supply.val * quorumBps := mul_nonneg hsupply (Int.natCast_nonneg _)
  obtain ⟨quorum, -, hval⟩ := I128.exists_ofInt? (x := supply.val * quorumBps / 10000)
    (I128.minI128_nonpos.trans (Int.ediv_nonneg hscaled (by decide)))
    ((Int.ediv_le_self _ hscaled).trans hfits)
  exact ⟨quorum, (quorumForSupply_eq_some hsupply hbps).mpr ⟨hfits, hval⟩⟩

/-- The writes of a constructor fail only where the deposit is refused. -/
theorem writes_succeed_iff {config : Config} {proposer : Address} {cosponsors : List Address}
    {conviction : Bool} {id : ℕ} {e : Event}
    (hcount : (s.governor.proposerCount proposer).getD 0 < maxU64) :
    (do
      lockDeposit env config proposer id
      indexProposal env proposer cosponsors conviction id
      publish e
      pure id : GovernorM ℕ).Succeeds s ↔ Payable env proposer config s := by
  rw [lockDeposit_succeeds_bind_iff]
  intro s₁ hsame
  rw [← hsame] at hcount
  exact indexProposal_succeeds_bind hcount fun _ =>
    succeeds_publish_bind_iff.mpr (succeeds_pure_iff.mpr trivial)

/-! ## Which calls go through -/

/-- What the constructors rely on in every reachable state. -/
structure Receptive (config : Config) (s : System) : Prop where
  configured : s.governor.config = some config
  quorumBps : config.quorumBps ≤ maxQuorumBps
  solvent : Token.Solvent s.token
  indexed : Indexed s.governor

/-- A proposer has opened no more proposals than there are. -/
theorem Indexed.proposerCount_le {g : Storage} (h : Indexed g) (proposer : Address) :
    (g.proposerCount proposer).getD 0 ≤ getProposalCount g := by
  have hlength := congrArg List.length (h.slots proposer)
  rw [List.length_map, List.length_range', List.length_map] at hlength
  exact hlength.trans_le length_filed_le

/-- The supply of a receptive state is not negative. -/
theorem Receptive.supply_nonneg {config : Config} (h : Receptive config s) :
    0 ≤ (Token.totalSupply s.token).val :=
  h.solvent.total ▸ Finset.sum_nonneg fun a _ => h.solvent.nonneg a

section Constructors

variable {c : Call} {proposer : Address} {conviction : Bool} {config : Config}

/-- A constructor goes through exactly if it passes the checks, quorum and window can be computed
and the token takes the deposit. -/
theorem accepted_iff (h : Receptive config s) (hopens : c.opens = some (proposer, conviction)) :
    Accepted env c s ↔
      Screened env proposer c config s ∧ Measured env config s ∧ Payable env proposer config s := by
  have hdiscard : Accepted env c s ↔ (openProposal env proposer c.cosponsors c.title c.description
      c.metadataUri conviction).Succeeds s := by
    rw [Accepted, invoke_eq_openProposal hopens, discard, succeeds_bind_iff]
    constructor
    · rintro ⟨id, s', hret, -⟩
      exact ⟨id, s', hret⟩
    · rintro ⟨id, s', hret⟩
      exact ⟨id, s', hret, (), s', rfl⟩
  have hsupply := h.supply_nonneg
  have hcount := h.indexed.proposerCount_le proposer
  rw [hdiscard, openProposal, succeeds_requireConfig_bind_iff]
  simp only [h.configured, Option.some.injEq, exists_eq_left', requireAuth, validateCosponsors_eq,
    requireAuths_eq, succeeds_demand_bind_iff, succeeds_rejectIf_bind_iff, succeeds_read_bind_iff,
    succeeds_unwrap_bind_iff, succeeds_queryToken_bind_iff, checkedAddU64_eq_some, not_not]
  constructor
  · rintro ⟨hauth, hsponsors, hsponsored, hpaused, htitle, hlength, hdescription, hrested, _,
      ⟨rfl, hid⟩, hrest⟩
    obtain ⟨sum, hsum, hval⟩ := combinedBalance_backing h.solvent hsponsors
    rw [hsum.succeeds_bind_iff] at hrest
    simp only [succeeds_rejectIf_bind_iff, succeeds_queryToken_bind_iff, succeeds_okOr_bind_iff,
      checkedAddU32_eq_some, quorumForSupply_eq_some hsupply h.quorumBps,
      succeeds_storeProposal_bind_iff, succeeds_store_bind_iff] at hrest
    obtain ⟨hstaked, hfunded, quorum, ⟨hfits, -⟩, _, ⟨rfl, -⟩, _, ⟨rfl, hwindow⟩, hrest⟩ := hrest
    rw [writes_succeed_iff] at hrest
    · exact ⟨⟨hauth, hsponsors, hsponsored,
        ⟨by simpa using hpaused, htitle, by omega, by omega, by simpa using hrested⟩, hid, by omega,
        by omega⟩, ⟨hfits, hwindow⟩, hrest⟩
    · exact hcount.trans_lt hid
  · rintro ⟨hscreened, hmeasured, hpayable⟩
    obtain ⟨sum, hsum, hval⟩ := combinedBalance_backing h.solvent hscreened.sponsors
    obtain ⟨quorum, hquorum⟩ := exists_quorumForSupply hsupply h.quorumBps hmeasured.quorum
    have hnumbered := hscreened.numbered
    refine ⟨hscreened.authorized, hscreened.sponsors, hscreened.sponsored,
      by simp [hscreened.presented.unpaused], hscreened.presented.titled,
      Nat.not_lt.mpr hscreened.presented.titleLength,
      Nat.not_lt.mpr hscreened.presented.descriptionLength, by simp [hscreened.presented.rested],
      _, ⟨rfl, hscreened.numbered⟩, ?_⟩
    rw [hsum.succeeds_bind_iff]
    simp only [succeeds_rejectIf_bind_iff, succeeds_queryToken_bind_iff, succeeds_okOr_bind_iff,
      checkedAddU32_eq_some, quorumForSupply_eq_some hsupply h.quorumBps,
      succeeds_storeProposal_bind_iff, succeeds_store_bind_iff]
    have hstaked := hscreened.staked
    have hfunded := hscreened.funded
    have hwindow := hmeasured.window
    refine ⟨by omega, by omega, quorum,
      (quorumForSupply_eq_some hsupply h.quorumBps).mp hquorum, _, ⟨rfl, by omega⟩, _,
      ⟨rfl, hwindow⟩, ?_⟩
    rw [writes_succeed_iff]
    · exact hpayable
    · exact hcount.trans_lt hnumbered

end Constructors

/-- Every step keeps the quorum at most the whole. -/
theorem Step.quorumBps {i : Invocation} (h : Step i s s')
    (hs : ∀ config, s.governor.config = some config → config.quorumBps ≤ maxQuorumBps)
    (config' : Config) (hconfig' : s'.governor.config = some config') :
    config'.quorumBps ≤ maxQuorumBps := by
  cases h with
  | token _ => exact hs config' hconfig'
  | refused => exact hs config' hconfig'
  | governor _ he =>
    cases hold : s.governor.config with
    | none =>
      have hset := he.config
      unfold Configures at hset
      rw [hold] at hset
      exact (hset config' hconfig').2.1
    | some config =>
      obtain ⟨config'', hsome, hterms⟩ := he.config.some hold
      obtain rfl : config'' = config' := Option.some.inj (hsome.symm.trans hconfig')
      rw [hterms.quorumBps]
      exact hs config hold

/-- Every configuration in a run has a quorum share that initialization accepts. -/
theorem quorumBps_run {calls : List Invocation} {config : Config}
    (hcalls : machine.Scheduled start now calls)
    (hconfig : (machine.run System.empty calls).governor.config = some config) :
    config.quorumBps ≤ maxQuorumBps := by
  have h := machine.run_invariant (fun now s => WellFormed now s ∧
      ∀ config, s.governor.config = some config → config.quorumBps ≤ maxQuorumBps)
    (fun _ _ _ h hle => ⟨h.1.mono hle, h.2⟩)
    (fun i _ h => ⟨h.1.step (machine_step h.1.blank i), (machine_step h.1.blank i).quorumBps h.2⟩)
    ⟨WellFormed.empty start, fun _ hnone => by contradiction⟩ hcalls
  exact h.2 config hconfig

/-- Every reachable state is one the constructors can rely on. -/
theorem receptive_run {calls : List Invocation} {config : Config}
    (hcalls : machine.Scheduled start now calls)
    (hconfig : (machine.run System.empty calls).governor.config = some config) :
    Receptive config (machine.run System.empty calls) :=
  ⟨hconfig, quorumBps_run hcalls hconfig, (token_sound hcalls).solvent, Indexed.run hcalls⟩

/-! ## Admission without a deposit -/

/-- The UTF-8 encodings of the whitespace characters. -/
def whitespace : List Text :=
  [[0x09], [0x0A], [0x0B], [0x0C], [0x0D], [0x20], [0xC2, 0x85], [0xC2, 0xA0], [0xE1, 0x9A, 0x80],
    [0xE2, 0x80, 0x80], [0xE2, 0x80, 0x81], [0xE2, 0x80, 0x82], [0xE2, 0x80, 0x83],
    [0xE2, 0x80, 0x84], [0xE2, 0x80, 0x85], [0xE2, 0x80, 0x86], [0xE2, 0x80, 0x87],
    [0xE2, 0x80, 0x88], [0xE2, 0x80, 0x89], [0xE2, 0x80, 0x8A], [0xE2, 0x80, 0xA8],
    [0xE2, 0x80, 0xA9], [0xE2, 0x80, 0xAF], [0xE2, 0x81, 0x9F], [0xE3, 0x80, 0x80]]

/-- The text contains something besides whitespace. -/
def Visible (text : Text) : Prop :=
  ¬ ∃ characters : List Text, (∀ character ∈ characters, character ∈ whitespace) ∧
    characters.flatten = text

/-- A visible text is not empty. -/
theorem Visible.ne_nil {text : Text} (h : Visible text) : text ≠ [] := by
  rintro rfl
  exact h ⟨[], by simp, rfl⟩

/-- A byte that no whitespace character contains makes a text visible. -/
theorem visible_of_mem {text : Text} {byte : UInt8} (hmem : byte ∈ text)
    (hbyte : byte ∉ whitespace.flatten) : Visible text := by
  rintro ⟨characters, hwhitespace, rfl⟩
  obtain ⟨character, hcharacter, hin⟩ := List.mem_flatten.mp hmem
  exact hbyte (List.mem_flatten.mpr ⟨character, hwhitespace character hcharacter, hin⟩)

/-- The grounds for opening a proposal, a visible title apart. -/
structure Grounds (env : Env) (proposer : Address) (c : Call) (config : Config) (s : System) :
    Prop where
  unpaused : config.paused = false
  titleLength : c.title.length ≤ maxTitleLength
  descriptionLength : c.description.length ≤ maxDescriptionLength
  sponsors : Sponsors proposer c.cosponsors
  rested : ∀ last, s.governor.lastProposal proposer = some last →
    min (last + config.proposerCooldown) maxU32 ≤ env.sequence
  staked : config.proposalThreshold.val ≤ backing s.token proposer c.cosponsors
  measured : Measured env config s

/-- A constructor admits exactly the proposals with good grounds and a visible title, and stores
them, and nothing else, as new. -/
structure AdmitsExactly (env : Env) (proposer : Address) (c : Call) (config : Config) (s : System) :
    Prop where
  iff : Accepted env c s ↔ Visible c.title ∧ Grounds env proposer c config s
  stored : Accepted env c s → ∃ p,
    (machine.step (.governor env c) s).governor.proposal (getProposalCount s.governor + 1) = some p ∧
      getProposalCount (machine.step (.governor env c) s).governor = getProposalCount s.governor + 1 ∧
      p.id = getProposalCount s.governor + 1 ∧ (∀ support, p.tally support = 0) ∧
      p.quorumRequired.val = (Token.totalSupply s.token).val * config.quorumBps / 10000
  refused : ¬ Accepted env c s → machine.step (.governor env c) s = s

/-- A proposer is off cooldown exactly when it has run out since the last opening. -/
theorem onCooldown_eq_false {config : Config} {last : Option ℕ} :
    onCooldown env config last = false ↔
      ∀ ledger, last = some ledger → min (ledger + config.proposerCooldown) maxU32 ≤ env.sequence := by
  cases last with
  | none => simp [onCooldown]
  | some ledger =>
    rw [onCooldown, decide_eq_false_iff_not, Nat.not_lt]
    simp only [Option.some.injEq, forall_eq']
    rfl

section Admission

variable {c : Call} {proposer : Address} {conviction : Bool} {config : Config}

/-- Without a deposit the checks are the grounds, a title, and room for one more proposal. -/
theorem accepted_iff_grounds (h : Receptive config s)
    (hopens : c.opens = some (proposer, conviction)) (hdeposit : config.proposalDeposit = 0)
    (hauth : env.auth proposer = true)
    (hauths : ∀ sponsor ∈ c.cosponsors, env.auth sponsor = true) :
    Accepted env c s ↔ Grounds env proposer c config s ∧ c.title ≠ [] ∧
      getProposalCount s.governor < maxU64 := by
  rw [accepted_iff h hopens]
  constructor
  · rintro ⟨hscreened, hmeasured, -⟩
    have hpresented := hscreened.presented
    exact ⟨⟨hpresented.unpaused, hpresented.titleLength, hpresented.descriptionLength,
      hscreened.sponsors, onCooldown_eq_false.mp hpresented.rested, hscreened.staked, hmeasured⟩,
      hpresented.titled, hscreened.numbered⟩
  · rintro ⟨hgrounds, htitled, hnumbered⟩
    have hpresented : Presented env proposer c config s :=
      ⟨hgrounds.unpaused, htitled, hgrounds.titleLength, hgrounds.descriptionLength,
        onCooldown_eq_false.mpr hgrounds.rested⟩
    refine ⟨⟨hauth, hgrounds.sponsors, hauths, hpresented, hnumbered, hgrounds.staked, ?_⟩,
      hgrounds.measured, ?_⟩
    · rw [hdeposit]
      exact h.solvent.nonneg proposer
    · intro hpos
      rw [hdeposit] at hpos
      exact absurd hpos (lt_irrefl _)

/-- An accepted constructor stores a proposal under the next id, with nothing counted yet. -/
theorem Accepted.stores (h : Receptive config s) (hopens : c.opens = some (proposer, conviction))
    (haccepted : Accepted env c s) : ∃ p,
    (machine.step (.governor env c) s).governor.proposal (getProposalCount s.governor + 1) = some p ∧
      getProposalCount (machine.step (.governor env c) s).governor = getProposalCount s.governor + 1 ∧
      p.id = getProposalCount s.governor + 1 ∧ (∀ support, p.tally support = 0) ∧
      p.quorumRequired.val = (Token.totalSupply s.token).val * config.quorumBps / 10000 := by
  obtain ⟨config', p, hopened, hfiles⟩ := (invoke_outcome haccepted.returns).opens hopens
  obtain rfl : config = config' := Option.some.inj (h.configured.symm.trans hopened.configured)
  have hid : p.id = getProposalCount s.governor + 1 := hfiles.id
  refine ⟨p, ?_, ?_, hid, hopened.tallies, ?_⟩
  · rw [hfiles.proposal, ← hid, Function.update_self]
  · rw [getProposalCount, hfiles.proposalCount, Option.getD_some, hid]
  · exact ((quorumForSupply_eq_some h.supply_nonneg h.quorumBps).mp hopened.quorumRequired).2

/-- Admission is exact but for titles that consist of whitespace and for a full counter. -/
theorem admission_exact_iff {calls : List Invocation}
    (hcalls : machine.Scheduled start env.sequence calls)
    (hopens : c.opens = some (proposer, conviction)) (hauth : env.auth proposer = true)
    (hauths : ∀ sponsor ∈ c.cosponsors, env.auth sponsor = true) :
    let s := machine.run System.empty calls
    ∀ config, s.governor.config = some config → config.proposalDeposit = 0 →
      (AdmitsExactly env proposer c config s ↔
        (Grounds env proposer c config s →
          Visible c.title ∧ getProposalCount s.governor < maxU64 ∨
            ¬ Visible c.title ∧ (c.title = [] ∨ maxU64 ≤ getProposalCount s.governor))) := by
  intro s config hconfig hdeposit
  have hreceptive : Receptive config s := receptive_run hcalls hconfig
  have haccepted := accepted_iff_grounds hreceptive hopens hdeposit hauth hauths
  constructor
  · intro hexact hgrounds
    have hiff := haccepted.symm.trans hexact.iff
    by_cases hvisible : Visible c.title
    · exact .inl ⟨hvisible, (hiff.mpr ⟨hvisible, hgrounds⟩).2.2⟩
    · refine .inr ⟨hvisible, ?_⟩
      by_contra hnot
      rw [not_or, Nat.not_le] at hnot
      exact hvisible (hiff.mp ⟨hgrounds, hnot⟩).1
  · intro hcondition
    refine ⟨haccepted.trans ⟨?_, ?_⟩, fun h => h.stores hreceptive hopens, step_eq_of_not_accepted⟩
    · rintro ⟨hgrounds, htitled, hnumbered⟩
      refine ⟨?_, hgrounds⟩
      rcases hcondition hgrounds with ⟨hvisible, -⟩ | ⟨-, hempty | hfull⟩
      · exact hvisible
      · exact absurd hempty htitled
      · exact absurd hnumbered (Nat.not_lt.mpr hfull)
    · rintro ⟨hvisible, hgrounds⟩
      refine ⟨hgrounds, hvisible.ne_nil, ?_⟩
      rcases hcondition hgrounds with ⟨-, hnumbered⟩ | ⟨hinvisible, -⟩
      · exact hnumbered
      · exact absurd hvisible hinvisible

end Admission

/-- The governor just launched admits a proposal with the title `T`, as it should. -/
theorem admission_exact_launch :
    let s := machine.run System.empty (launchCalls 3)
    ∃ config, s.governor.config = some config ∧
      AdmitsExactly (.authorized 5) (.account 1) (.createProposal (.account 1) [84] [] []) config s := by
  intro s
  have hcalls : machine.Scheduled 0 (Env.authorized 5).sequence (launchCalls 3) := by decide
  refine ⟨_, rfl, ?_⟩
  apply (admission_exact_iff hcalls rfl rfl (fun _ _ => rfl) _ rfl rfl).mpr
  intro _
  exact .inl ⟨visible_of_mem List.mem_cons_self (by decide), by decide⟩

/-- A title of three spaces is admitted. -/
theorem blank_title_admitted :
    let s := machine.run System.empty (launchCalls 3)
    machine.Scheduled 0 5 (launchCalls 3) ∧ ∃ config, s.governor.config = some config ∧
      config.proposalDeposit = 0 ∧
      ¬ AdmitsExactly (.authorized 5) (.account 1) (.createProposal (.account 1) [32, 32, 32] [] [])
        config s := by
  intro s
  refine ⟨by decide, _, rfl, rfl, fun hexact => ?_⟩
  have haccepted : Accepted (.authorized 5) (.createProposal (.account 1) [32, 32, 32] [] []) s := by
    decide
  exact (hexact.iff.mp haccepted).1 ⟨[[32], [32], [32]], by decide, rfl⟩

/-! ## The deposit check -/

/-- The errors of a constructor up to the deposit check. -/
def upToDeposit : List GovernanceError :=
  [.notInitialized, .invalidCosponsors, .contractPaused, .emptyTitle, .titleTooLong,
    .descriptionTooLong, .proposerOnCooldown, .belowProposalThreshold, .insufficientDeposit]

/-- The host stops a constructor before its deposit check: an authorization is missing where it is
asked for, or the counter of proposals is full. -/
def Halts (env : Env) (proposer : Address) (c : Call) (config : Config) (s : System) : Prop :=
  env.auth proposer = false ∨
    Sponsors proposer c.cosponsors ∧ ((∃ sponsor ∈ c.cosponsors, env.auth sponsor = false) ∨
      Presented env proposer c config s ∧ maxU64 ≤ getProposalCount s.governor)

section Deposit

variable {c : Call} {proposer : Address} {conviction : Bool} {config : Config}

/-- The first checks of a constructor fail exactly when the call is not presented. -/
theorem not_presented_or {later : Prop} :
    (config.paused = true ∨ c.title = [] ∨ maxTitleLength < c.title.length ∨
      maxDescriptionLength < c.description.length ∨
      onCooldown env config (s.governor.lastProposal proposer) = true ∨ later) ↔
      ¬ Presented env proposer c config s ∨ later := by
  have hpresented : Presented env proposer c config s ↔
      config.paused = false ∧ c.title ≠ [] ∧ c.title.length ≤ maxTitleLength ∧
        c.description.length ≤ maxDescriptionLength ∧
        onCooldown env config (s.governor.lastProposal proposer) = false :=
    ⟨fun h => ⟨h.unpaused, h.titled, h.titleLength, h.descriptionLength, h.rested⟩,
      fun h => ⟨h.1, h.2.1, h.2.2.1, h.2.2.2.1, h.2.2.2.2⟩⟩
  rw [hpresented]
  simp only [not_and_or, not_not, ne_eq, Bool.not_eq_false, Nat.not_le, or_assoc]

/-- The writes of a constructor fail with no error of its own: a refused deposit is a trap. -/
theorem writes_not_fail {codes : List GovernanceError} {cosponsors : List Address} {id : ℕ}
    {e : Event} :
    ¬ (do
      lockDeposit env config proposer id
      indexProposal env proposer cosponsors conviction id
      publish e
      pure id : GovernorM ℕ).Fails (Failure.IsOneOf codes) s := by
  rw [fails_bind_iff, not_or]
  constructor
  · intro hlock
    unfold lockDeposit at hlock
    split at hlock
    · rcases fails_bind_iff.mp hlock with hcall | ⟨_, _, -, hstore⟩
      · exact hcall.of_call
      · exact fails_store_iff.mp hstore
    · exact fails_pure_iff.mp hlock
  · rintro ⟨_, s', -, h⟩
    rcases fails_bind_iff.mp h with hindex | ⟨_, s', -, h⟩
    · unfold indexProposal at hindex
      cases conviction <;> cases cosponsors
      all_goals
        rcases fails_unwrap_bind_iff.mp hindex with ⟨-, htrap⟩ | ⟨_, -, hstore⟩
        · exact htrap
        · exact fails_store_iff.mp hstore
    · rw [fails_publish_bind_iff] at h
      exact fails_pure_iff.mp h

/-- A sequence of two stops and two checks, the stops taken out. -/
theorem turned_away_iff {auths presented numbered low : Prop} :
    auths ∧ (¬ presented ∨ numbered ∧ low) ↔
      ¬ (¬ auths ∨ presented ∧ ¬ numbered) ∧ ¬ (auths ∧ presented ∧ numbered ∧ ¬ low) := by
  tauto

/-- The checks turn a constructor away exactly if it does not pass them all and the host does not
stop it before. -/
theorem constructor_fails_iff (h : Receptive config s)
    (hopens : c.opens = some (proposer, conviction)) :
    (invoke env c).Fails (Failure.IsOneOf upToDeposit) s ↔
      ¬ Halts env proposer c config s ∧ ¬ Screened env proposer c config s := by
  have hdiscard {A : Type} {m : GovernorM A} {P : Failure GovernanceError → Prop} :
      (discard m).Fails P s ↔ m.Fails P s := by
    rw [discard, fails_bind_iff]
    simp
  have hoverflow : .overflow ∉ upToDeposit := by decide
  rw [invoke_eq_openProposal hopens, hdiscard, openProposal, fails_requireConfig_bind_iff]
  simp (disch := decide) only [h.configured, reduceCtorEq, false_and, false_or, Option.some.injEq,
    exists_eq_left', requireAuth, validateCosponsors_eq, requireAuths_eq, fails_demand_bind_iff,
    fails_listed_bind_iff, fails_read_bind_iff, fails_unwrap_bind_iff, fails_queryToken_bind_iff,
    checkedAddU64_eq_some, Failure.isOneOf_trap, and_false]
  by_cases hauth : env.auth proposer = true
  swap
  · exact iff_of_false (fun hfails => hauth hfails.1)
      fun hnot => hnot.1 (.inl (Bool.not_eq_true _ ▸ hauth))
  by_cases hsponsors : Sponsors proposer c.cosponsors
  swap
  · refine iff_of_true ⟨hauth, .inl hsponsors⟩ ⟨?_, fun hscreened => hsponsors hscreened.sponsors⟩
    rintro (hnot | ⟨hvalid, -⟩)
    · rw [hauth] at hnot
      contradiction
    · exact hsponsors hvalid
  obtain ⟨sum, hsum, hval⟩ := combinedBalance_backing h.solvent hsponsors
  simp (disch := decide) only [hsum.fails_bind_iff, fails_listed_bind_iff, fails_queryToken_bind_iff,
    fails_okOr_bind_iff, Failure.isOneOf_error, hoverflow, and_false, fails_storeProposal_bind_iff,
    fails_store_bind_iff, writes_not_fail, exists_false, or_false]
  have hhalts : Halts env proposer c config s ↔
      ¬ (∀ sponsor ∈ c.cosponsors, env.auth sponsor = true) ∨
        Presented env proposer c config s ∧ ¬ getProposalCount s.governor < maxU64 := by
    simp [Halts, hauth, hsponsors]
  have hscreened : Screened env proposer c config s ↔
      (∀ sponsor ∈ c.cosponsors, env.auth sponsor = true) ∧ Presented env proposer c config s ∧
        getProposalCount s.governor < maxU64 ∧ ¬ (sum.val < config.proposalThreshold.val ∨
          (Token.balance s.token proposer).val < config.proposalDeposit.val) := by
    rw [not_or, Int.not_lt, Int.not_lt, hval]
    constructor
    · exact fun h => ⟨h.sponsored, h.presented, h.numbered, h.staked, h.funded⟩
    · rintro ⟨hauths, hpresented, hnumbered, hstaked, hfunded⟩
      exact ⟨hauth, hsponsors, hauths, hpresented, hnumbered, hstaked, hfunded⟩
  have hnumbered : (∃ id, (s.governor.proposalCount.getD 0 + 1 = id ∧
      s.governor.proposalCount.getD 0 + 1 ≤ maxU64) ∧ (sum.val < config.proposalThreshold.val ∨
        (Token.balance s.token proposer).val < config.proposalDeposit.val)) ↔
      getProposalCount s.governor < maxU64 ∧ (sum.val < config.proposalThreshold.val ∨
        (Token.balance s.token proposer).val < config.proposalDeposit.val) := by
    constructor
    · rintro ⟨_, ⟨-, hid⟩, hlow⟩
      exact ⟨hid, hlow⟩
    · rintro ⟨hid, hlow⟩
      exact ⟨_, ⟨rfl, hid⟩, hlow⟩
  rw [hhalts, hscreened, hnumbered, not_presented_or]
  simp only [hauth, hsponsors, not_true_eq_false, false_or, true_and]
  exact turned_away_iff

/-- A constructor is turned away wherever its deposit cannot be paid, and goes on to a payment that
succeeds wherever its checks pass. -/
structure DepositSecured (env : Env) (proposer : Address) (c : Call) (config : Config) (s : System) :
    Prop where
  sufficient : Screened env proposer c config s → Payable env proposer config s
  refused : ¬ Payable env proposer config s →
    (invoke env c).Fails (Failure.IsOneOf upToDeposit) s ∧ machine.step (.governor env c) s = s

/-- The part of a balance that no lock holds back. -/
def unlocked (t : Token.Storage) (owner : Address) : ℤ :=
  (Token.balance t owner).val - (Token.lockedAmount t owner).val

/-- A deposit is paid exactly if the proposer authorizes the transfer along with the call and has it
unlocked. -/
theorem payable_iff (hsound : Token.Sound env.sequence s.token) :
    Payable env proposer config s ↔ (0 < config.proposalDeposit.val →
      (env.auth proposer = true ∧ env.nested proposer = true ∨ proposer = env.contract) ∧
        config.proposalDeposit.val ≤ unlocked s.token proposer) := by
  have hauth : (tokenEnv env config).auth proposer = true ↔
      env.auth proposer = true ∧ env.nested proposer = true ∨ proposer = env.contract := by
    simp [tokenEnv]
  rw [← hauth]
  apply imp_congr_right
  intro hpos
  constructor
  · rintro ⟨_, t, hpaid⟩
    cases Token.transfer_outcome hpaid with
    | transferred hauth _ hshifts => exact ⟨hauth, hshifts.spendable⟩
  · rintro ⟨hauth, hcovered⟩
    exact Token.transfer_succeeds hsound hauth hpos hcovered

/-- The deposit check is sufficient exactly where the deposit is unlocked and its transfer
authorized, or the call is turned away whatever the deposit. -/
theorem deposit_check_iff {calls : List Invocation}
    (hcalls : machine.Scheduled start env.sequence calls)
    (hopens : c.opens = some (proposer, conviction)) :
    let s := machine.run System.empty calls
    ∀ config, s.governor.config = some config →
      (DepositSecured env proposer c config s ↔ (0 < config.proposalDeposit.val →
        (env.auth proposer = true ∧ env.nested proposer = true ∨ proposer = env.contract) ∧
            config.proposalDeposit.val ≤ unlocked s.token proposer ∨
          ¬ Halts env proposer c config s ∧ ¬ Screened env proposer c config s)) := by
  intro s config hconfig
  have hreceptive : Receptive config s := receptive_run hcalls hconfig
  have hfails : (invoke env c).Fails (Failure.IsOneOf upToDeposit) s ↔
      ¬ Halts env proposer c config s ∧ ¬ Screened env proposer c config s :=
    constructor_fails_iff hreceptive hopens
  have hpayable : Payable env proposer config s ↔ (0 < config.proposalDeposit.val →
      (env.auth proposer = true ∧ env.nested proposer = true ∨ proposer = env.contract) ∧
        config.proposalDeposit.val ≤ unlocked s.token proposer) := payable_iff (token_sound hcalls)
  constructor
  · intro hsecured hpos
    by_cases hpay : Payable env proposer config s
    · exact .inl (hpayable.mp hpay hpos)
    · exact .inr (hfails.mp (hsecured.refused hpay).1)
  · intro hcondition
    by_cases hturned : ¬ Halts env proposer c config s ∧ ¬ Screened env proposer c config s
    · have hfailed := hfails.mpr hturned
      exact ⟨fun hscreened => absurd hscreened hturned.2, fun _ =>
        ⟨hfailed, step_eq_of_not_accepted fun haccepted => haccepted.not_fails hfailed⟩⟩
    · have hpay : Payable env proposer config s :=
        hpayable.mpr fun hpos => (hcondition hpos).resolve_right hturned
      exact ⟨fun _ => hpay, fun hnot => absurd hpay hnot⟩

end Deposit

/-- A deposit of 10 is set while a holder of 100 has 95 of them locked. -/
def lockedDepositCalls : List Invocation :=
  launchCalls 3 ++ [.governor (.authorized 2) (.setProposalDeposit (.ofNat 10)),
    .token ⟨.authorized 3, .stake (.account 1) (.ofNat 95) Token.minLockLedgers⟩]

/-- Without the lock the check and the payment agree. -/
theorem deposit_check_unlocked :
    let s := machine.run System.empty (lockedDepositCalls.take 3)
    ∃ config, s.governor.config = some config ∧
      DepositSecured (.authorized 5) (.account 1) (.createProposal (.account 1) [84] [] []) config s := by
  intro s
  have hcalls : machine.Scheduled 0 (Env.authorized 5).sequence (lockedDepositCalls.take 3) := by
    decide
  refine ⟨_, rfl, ?_⟩
  apply (deposit_check_iff hcalls rfl _ rfl).mpr
  intro _
  exact .inl ⟨.inl ⟨rfl, rfl⟩, by decide⟩

/-- With the lock the check passes, and the payment traps. -/
theorem locked_deposit_traps :
    let s := machine.run System.empty lockedDepositCalls
    machine.Scheduled 0 5 lockedDepositCalls ∧ ∃ config, s.governor.config = some config ∧
      ((invoke (.authorized 5) (.createProposal (.account 1) [84] [] [])).run s).1 =
        .error (.trap .call) ∧
      ¬ DepositSecured (.authorized 5) (.account 1) (.createProposal (.account 1) [84] [] []) config
        s := by
  intro s
  have htrap : ((invoke (.authorized 5) (.createProposal (.account 1) [84] [] [])).run s).1 =
      .error (.trap .call) := by decide
  refine ⟨by decide, _, rfl, htrap, fun hsecured => ?_⟩
  obtain ⟨⟨f, hrun, hf⟩, -⟩ := hsecured.refused fun hpay => absurd (hpay (by decide)) (by decide)
  obtain rfl := Except.error.inj (htrap.symm.trans hrun)
  exact hf

/-- So it does without the lock, for a proposer that authorizes the constructor alone. -/
example :
    ((invoke { Env.authorized 5 with nested := fun _ => false }
      (.createProposal (.account 1) [84] [] [])).run
        (machine.run System.empty (lockedDepositCalls.take 3))).1 = .error (.trap .call) := by
  decide

end Quorum.Governor

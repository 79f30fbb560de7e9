import Quorum.Foundation.Registry
import Quorum.Governor.Lifecycle

/-!
# Where proposals are found

A proposal is stored under its id and found again in two ways: by the ids from 1 up to the
counter, and by the slots of its proposer, each of which holds an id. The constructors write all
of these entries one by one. `Indexed` says that they agree: the ids up to the counter are the ones
in use, and the slots of a proposer hold, in order, the ids of the proposals that the proposer
opened. The listings of the contract read these entries back.
-/

namespace Quorum.Governor

open Foundation Contract

variable {s s' : System} {env : Env} {start now : ℕ}

/-! ## The listings -/

/-- Most proposals on one page. -/
def maxPageSize : ℕ := 100

/-- The number of proposals opened so far. -/
def getProposalCount (s : Storage) : ℕ := s.proposalCount.getD 0

/-- One page of proposals, from the id `start` on. A start out of range gives an empty page. -/
def getProposals (start limit : ℕ) : GovernorM (List Proposal) := do
  let boundedLimit := if maxPageSize < limit then maxPageSize else limit
  let s ← read
  let count := getProposalCount s.governor
  if start < 1 ∨ count < start then pure []
  else do
    let afterLast ← unwrap (checkedAddU64 count 1) .arithmetic
    let stop := min (saturatingAddU64 start boundedLimit) afterLast
    pure ((List.range' start (stop - start)).filterMap s.governor.proposal)

/-- All proposals that an address opened. -/
def getProposalsByProposer (s : Storage) (proposer : Address) : List Proposal :=
  (List.range' 1 ((s.proposerCount proposer).getD 0)).filterMap fun i =>
    (s.proposerIndex proposer i).bind s.proposal

/-! ## What a call does to the listings -/

/-- A new proposal is filed under the next id and in the next slot of its proposer. -/
structure Files (now : ℕ) (p : Proposal) (g g' : Storage) : Prop where
  id : p.id = g.proposalCount.getD 0 + 1
  fits : p.id ≤ maxU64
  snapshotLedger : p.snapshotLedger = now
  proposalCount : g'.proposalCount = some p.id
  proposal : g'.proposal = Function.update g.proposal p.id (some p)
  proposerIndex : g'.proposerIndex = Function.update g.proposerIndex p.proposer
    (Function.update (g.proposerIndex p.proposer) ((g.proposerCount p.proposer).getD 0 + 1)
      (some p.id))
  proposerCount : g'.proposerCount =
    Function.update g.proposerCount p.proposer (some ((g.proposerCount p.proposer).getD 0 + 1))
  lastProposal : g'.lastProposal = Function.update g.lastProposal p.proposer (some now)

/-- No proposal is added or taken away, and none changes its proposer. -/
structure Refiles (g g' : Storage) : Prop where
  proposalCount : g'.proposalCount.getD 0 = g.proposalCount.getD 0
  proposal : g'.proposal = g.proposal ∨ ∃ id p p', g.proposal id = some p ∧
    g'.proposal = Function.update g.proposal id (some p') ∧ p'.proposer = p.proposer
  proposerIndex : g'.proposerIndex = g.proposerIndex
  proposerCount : g'.proposerCount = g.proposerCount
  lastProposal : g'.lastProposal = g.lastProposal

/-- In an unchanged storage no proposal is added or taken away. -/
theorem Refiles.refl (g : Storage) : Refiles g g := ⟨rfl, .inl rfl, rfl, rfl, rfl⟩

/-- An accepted constructor opens a proposal and files it. -/
theorem Outcome.opens {c : Call} {proposer : Address} {conviction : Bool}
    (h : Outcome env s c s') (hopens : c.opens = some (proposer, conviction)) :
    ∃ config p, Opens env config proposer conviction p s s' ∧
      Files env.sequence p s.governor s'.governor := by
  cases h with
  | opened hopens' h _ hid _ hleft =>
    obtain ⟨rfl, rfl⟩ := Prod.mk.inj (Option.some.inj (hopens'.symm.trans hopens))
    obtain rfl := h.proposer
    exact ⟨_, _, h, h.id, hid, h.snapshotLedger, h.proposalCount, h.proposal, by rw [hleft],
      by rw [hleft], by rw [hleft]⟩
  | delegated hcall => rcases hcall with rfl | ⟨rfl, -⟩ <;> contradiction
  | targetSet hcall => rcases hcall with ⟨rfl, -⟩ | ⟨rfl, -⟩ <;> contradiction
  | nominated hcall => rcases hcall with ⟨_, rfl, -⟩ | ⟨rfl, -⟩ <;> contradiction
  | _ => contradiction

/-- Every other accepted call files nothing. -/
theorem Outcome.refiles {c : Call} (hblank : Blank s) (h : Outcome env s c s')
    (hopens : c.opens = none) : Refiles s.governor s'.governor := by
  cases h with
  | initialized hnone => exact ⟨(hblank hnone).symm, .inl rfl, rfl, rfl, rfl⟩
  | opened hopens' =>
    rw [hopens'] at hopens
    contradiction
  | voted h hleft =>
    refine ⟨by rw [h.proposalCount], .inr ⟨_, _, _, h.stored, h.proposal, h.kept.proposer⟩, ?_, ?_, ?_⟩
    all_goals rw [hleft]
  | queued _ hstored => exact ⟨rfl, .inr ⟨_, _, _, hstored, rfl, rfl⟩, rfl, rfl, rfl⟩
  | failed _ hstored => exact ⟨rfl, .inr ⟨_, _, _, hstored, rfl, rfl⟩, rfl, rfl, rfl⟩
  | begun _ _ _ hstored => exact ⟨rfl, .inr ⟨_, _, _, hstored, rfl, rfl⟩, rfl, rfl, rfl⟩
  | expired _ hstored => exact ⟨rfl, .inr ⟨_, _, _, hstored, rfl, rfl⟩, rfl, rfl, rfl⟩
  | cancelled _ _ hstored => exact ⟨rfl, .inr ⟨_, _, _, hstored, rfl, rfl⟩, rfl, rfl, rfl⟩
  | vetoed _ _ _ hstored => exact ⟨rfl, .inr ⟨_, _, _, hstored, rfl, rfl⟩, rfl, rfl, rfl⟩
  | _ => exact ⟨rfl, .inl rfl, rfl, rfl, rfl⟩

/-- A step files nothing, or it is an accepted constructor. -/
theorem step_files (hblank : Blank s) (i : Invocation) :
    Refiles s.governor (machine.step i s).governor ∨
      ∃ env c conviction p, i = .governor env c ∧ c.opens = some (p.proposer, conviction) ∧
        Accepted env c s ∧ Files env.sequence p s.governor (machine.step i s).governor := by
  cases i with
  | token i => exact .inl (.refl _)
  | governor env c =>
    by_cases haccepted : Accepted env c s
    · have houtcome := invoke_outcome haccepted.returns
      rcases hopens : c.opens with _ | ⟨proposer, conviction⟩
      · exact .inl (houtcome.refiles hblank hopens)
      · obtain ⟨_, p, h, hfiles⟩ := houtcome.opens hopens
        obtain rfl := h.proposer
        exact .inr ⟨env, c, conviction, p, rfl, hopens, haccepted, hfiles⟩
    · rw [step_eq_of_not_accepted haccepted]
      exact .inl (.refl _)

/-! ## The invariant -/

/-- Whether a proposal was opened by `proposer`. -/
def openedBy (proposer : Address) (p : Proposal) : Bool := decide (p.proposer = proposer)

/-- A proposal is opened by its proposer. -/
@[simp] theorem openedBy_eq_true {proposer : Address} {p : Proposal} :
    openedBy proposer p = true ↔ p.proposer = proposer := decide_eq_true_iff

/-- The ids in use are those up to the counter, and the slots of each proposer hold the ids of the
proposals that the proposer opened. -/
structure Indexed (g : Storage) : Prop where
  stored : ∀ id, (g.proposal id).isSome = true ↔ 1 ≤ id ∧ id ≤ getProposalCount g
  slots : ∀ proposer, (List.range' 1 ((g.proposerCount proposer).getD 0)).map
      (g.proposerIndex proposer) =
    (filed (getProposalCount g) g.proposal (openedBy proposer)).map some

namespace Indexed

variable {g g' : Storage}

/-- The empty storage is indexed. -/
theorem empty : Indexed Storage.empty where
  stored id := by
    simp only [Storage.empty, Option.isSome_none, Bool.false_eq_true, false_iff, getProposalCount,
      Option.getD_none]
    omega
  slots proposer := rfl

/-- A filed proposal takes the next id and the next slot of its proposer. -/
theorem files {p : Proposal} (h : Indexed g) (hfiles : Files now p g g') : Indexed g' where
  stored id := by
    rw [hfiles.proposal, getProposalCount, hfiles.proposalCount, Option.getD_some]
    by_cases hid : id = p.id
    · rw [hid, Function.update_self, hfiles.id]
      simp
    · rw [Function.update_of_ne hid, h.stored id, getProposalCount]
      have hnext := hfiles.id
      omega
  slots proposer := by
    rw [getProposalCount, hfiles.proposalCount, Option.getD_some, hfiles.proposal, hfiles.id,
      filed_succ, List.map_append, hfiles.proposerCount, hfiles.proposerIndex]
    have hslots := h.slots proposer
    by_cases hproposer : proposer = p.proposer
    · subst hproposer
      rw [Function.update_self, Function.update_self, Option.getD_some, map_update_range', hslots,
        if_pos (openedBy_eq_true.mpr rfl), hfiles.id]
      rfl
    · rw [Function.update_of_ne hproposer, Function.update_of_ne hproposer, hslots, if_neg]
      · exact (List.append_nil _).symm
      · rw [openedBy_eq_true]
        exact Ne.symm hproposer

/-- Changing proposals without filing one leaves them where they were. -/
theorem refiles (h : Indexed g) (hrefiles : Refiles g g') : Indexed g' where
  stored id := by
    rw [getProposalCount, hrefiles.proposalCount]
    rcases hrefiles.proposal with hsame | ⟨other, p, p', hstored, hupdate, -⟩
    · rw [hsame]
      exact h.stored id
    · rw [hupdate]
      by_cases hid : id = other
      · rw [hid, Function.update_self, Option.isSome_some, ← getProposalCount, ← h.stored other,
          hstored, Option.isSome_some]
      · rw [Function.update_of_ne hid]
        exact h.stored id
  slots proposer := by
    have hfiled : filed (getProposalCount g') g'.proposal (openedBy proposer) =
        filed (getProposalCount g) g.proposal (openedBy proposer) := by
      rw [getProposalCount, hrefiles.proposalCount]
      rcases hrefiles.proposal with hsame | ⟨other, p, p', hstored, hupdate, hproposer⟩
      · rw [hsame]
        rfl
      · rw [hupdate, filed_update hstored (by rw [openedBy, openedBy, hproposer])]
        rfl
    rw [hfiled, hrefiles.proposerIndex, hrefiles.proposerCount]
    exact h.slots proposer

/-- Every step keeps the storage indexed. -/
theorem step (h : Indexed s.governor) (hblank : Blank s) (i : Invocation) :
    Indexed (machine.step i s).governor := by
  rcases step_files hblank i with hrefiles | ⟨_, _, _, _, -, -, -, hfiles⟩
  · exact h.refiles hrefiles
  · exact h.files hfiles

/-- In every reachable state the listings agree with what is stored. -/
theorem run {calls : List Invocation} (hcalls : machine.Scheduled start now calls) :
    Indexed (machine.run System.empty calls).governor := by
  have h := machine.run_invariant (fun now s => WellFormed now s ∧ Indexed s.governor)
    (fun _ _ _ h hle => ⟨h.1.mono hle, h.2⟩)
    (fun i _ h => ⟨h.1.step (machine_step h.1.blank i), h.2.step h.1.blank i⟩)
    ⟨WellFormed.empty start, Indexed.empty⟩ hcalls
  exact h.2

end Indexed

/-! ## The listings are complete -/

/-- Nothing is stored under ids past the counter. -/
theorem Indexed.none_of_lt {g : Storage} (h : Indexed g) (id : ℕ) (hid : getProposalCount g < id) :
    g.proposal id = none := by
  rw [← Option.not_isSome_iff_eq_none, h.stored id]
  omega

/-- The listing of a proposer holds the proposer's proposals. -/
theorem Indexed.lists_by_proposer {g : Storage} (h : Indexed g)
    (hids : ∀ id p, g.proposal id = some p → p.id = id) (proposer : Address) :
    Lists Proposal.id g.proposal (fun p => p.proposer = proposer)
      (getProposalsByProposer g proposer) := by
  have hread : getProposalsByProposer g proposer =
      (filed (getProposalCount g) g.proposal (openedBy proposer)).filterMap g.proposal := by
    have hslots := congrArg (List.filterMap fun slot => slot.bind g.proposal) (h.slots proposer)
    rw [List.filterMap_map, List.filterMap_map] at hslots
    exact hslots
  rw [hread]
  have hsorted : (filed (getProposalCount g) g.proposal (openedBy proposer)).Pairwise (· < ·) :=
    List.Pairwise.filter _ List.pairwise_lt_range'
  apply (lists_filterMap hids hsorted).of_iff
  intro p hstored
  have hrange := (h.stored p.id).mp (by rw [hstored, Option.isSome_some])
  rw [mem_filed, hstored, Option.any_some, openedBy_eq_true]
  exact and_iff_right hrange

/-- A page is the one asked for, with at most `maxPageSize` proposals. -/
theorem Indexed.getProposals_returns (h : Indexed s.governor)
    (hcount : getProposalCount s.governor < maxU64) (start limit : ℕ) :
    (getProposals start limit).Returns s
      (if start < 1 then [] else page s.governor.proposal start (min limit maxPageSize)) s := by
  have hlimit : (if maxPageSize < limit then maxPageSize else limit) = min limit maxPageSize := by
    split <;> omega
  rw [getProposals, hlimit, returns_read_bind_iff]
  by_cases hrange : start < 1 ∨ getProposalCount s.governor < start
  · rw [if_pos hrange, returns_pure_iff]
    refine ⟨?_, rfl⟩
    split
    · rfl
    · exact (page_eq_nil h.none_of_lt (hrange.resolve_left ‹_›)).symm
  · rw [if_neg hrange, returns_unwrap_bind_iff]
    refine ⟨_, checkedAddU64_eq_some.mpr ⟨rfl, hcount⟩, ?_⟩
    rw [returns_pure_iff, if_neg (fun hzero => hrange (.inl hzero)),
      ← page_cut h.none_of_lt (by omega)]
    refine ⟨?_, rfl⟩
    rw [page]
    congr 2
    unfold saturatingAddU64
    omega

/-- Every stored proposal is listed, once and in order: by its id, by its proposer, and on the
pages of any size, whichever id the first page starts from. The id 0 starts no page. -/
theorem listings_complete {calls : List Invocation} (hcalls : machine.Scheduled start now calls) :
    let s := machine.run System.empty calls
    let count := getProposalCount s.governor
    (∀ id, (s.governor.proposal id).isSome = true ↔ 1 ≤ id ∧ id ≤ count) ∧
      (∀ id p, s.governor.proposal id = some p → p.id = id) ∧
      (∀ proposer, Lists Proposal.id s.governor.proposal (fun p => p.proposer = proposer)
        (getProposalsByProposer s.governor proposer)) ∧
      (count < maxU64 →
        (∀ first limit, ∃ entries, (getProposals first limit).Returns s entries s ∧
          Lists Proposal.id s.governor.proposal (fun p => 1 ≤ first ∧ first ≤ p.id ∧
            p.id < min (first + min limit maxPageSize) (count + 1)) entries) ∧
        ∀ size first pages, size ≤ maxPageSize → 1 ≤ first →
          count < first + pages * size → ∃ entries : ℕ → List Proposal,
            (∀ k, (getProposals (first + k * size) size).Returns s (entries k) s) ∧
            Lists Proposal.id s.governor.proposal (fun p => first ≤ p.id)
              ((List.range pages).flatMap entries)) := by
  intro s count
  have hindexed : Indexed s.governor := Indexed.run hcalls
  have hids : ∀ id p, s.governor.proposal id = some p → p.id = id := (wellFormed_run hcalls).ids
  have hrange : ∀ p : Proposal, s.governor.proposal p.id = some p → 1 ≤ p.id ∧ p.id ≤ count :=
    fun p hstored => (hindexed.stored p.id).mp (by rw [hstored, Option.isSome_some])
  refine ⟨hindexed.stored, hids, hindexed.lists_by_proposer hids, fun hcount => ⟨?_, ?_⟩⟩
  · intro first limit
    refine ⟨_, hindexed.getProposals_returns hcount first limit, ?_⟩
    by_cases hfirst : first < 1
    · rw [if_pos hfirst]
      refine ⟨fun p => ⟨fun hmem => absurd hmem List.not_mem_nil, ?_⟩, .nil⟩
      rintro ⟨-, hone, -⟩
      omega
    · rw [if_neg hfirst]
      apply (lists_page hids).of_iff
      intro p hstored
      have hle := (hrange p hstored).2
      omega
  · intro size first pages hmax hfirst hpages
    refine ⟨_, fun k => hindexed.getProposals_returns hcount (first + k * size) size, ?_⟩
    have hentries : (fun k => if first + k * size < 1 then [] else
        page s.governor.proposal (first + k * size) (min size maxPageSize)) =
        fun k => page s.governor.proposal (first + k * size) size := by
      funext k
      rw [if_neg (by omega), min_eq_left hmax]
    rw [hentries, flatMap_page]
    apply (lists_page hids).of_iff
    intro p hstored
    have hle := (hrange p hstored).2
    omega

/-- Two proposals, on pages of one. -/
theorem listings_complete_two :
    let s := machine.run System.empty
      (launchCalls 3 ++ [.governor (.authorized 5) (.createProposal (.account 1) [84] [] []),
        .governor (.authorized 6) (.createProposal (.account 2) [85] [] [])])
    ∃ entries : ℕ → List Proposal,
      (∀ k, (getProposals (1 + k * 1) 1).Returns s (entries k) s) ∧
      Lists Proposal.id s.governor.proposal (fun p => 1 ≤ p.id) ((List.range 2).flatMap entries) := by
  intro s
  have hcalls : machine.Scheduled 0 6
      (launchCalls 3 ++ [.governor (.authorized 5) (.createProposal (.account 1) [84] [] []),
        .governor (.authorized 6) (.createProposal (.account 2) [85] [] [])]) := by decide
  have hcount : getProposalCount s.governor = 2 := by decide
  have hpages := ((listings_complete hcalls).2.2.2 (by rw [hcount]; decide)).2
  exact hpages 1 1 2 (by decide) le_rfl (by rw [hcount]; decide)

/-- A page asked for from the id 0 on is empty, although the first proposal has the id 1. -/
theorem page_from_zero_empty :
    let s := machine.run System.empty
      (launchCalls 3 ++ [.governor (.authorized 5) (.createProposal (.account 1) [84] [] [])])
    machine.Scheduled 0 5
      (launchCalls 3 ++ [.governor (.authorized 5) (.createProposal (.account 1) [84] [] [])]) ∧
      getProposalCount s.governor < maxU64 ∧
      ¬ ∃ entries, (getProposals 0 2).Returns s entries s ∧
        Lists Proposal.id s.governor.proposal (fun p => 0 ≤ p.id ∧
          p.id < min (0 + min 2 maxPageSize) (getProposalCount s.governor + 1)) entries := by
  intro s
  refine ⟨by decide, by decide, ?_⟩
  rintro ⟨entries, hreturns, hlists⟩
  have hempty : ((getProposals 0 2).run s).1 = .ok [] := by decide
  rw [hreturns] at hempty
  obtain rfl := Except.ok.inj hempty
  obtain ⟨p, hp, hid⟩ : ∃ p, s.governor.proposal 1 = some p ∧ p.id = 1 := ⟨_, rfl, rfl⟩
  have hmem := (hlists.mem p).mpr ⟨by rw [hid]; exact hp, Nat.zero_le _, by rw [hid]; decide⟩
  exact List.not_mem_nil hmem

end Quorum.Governor

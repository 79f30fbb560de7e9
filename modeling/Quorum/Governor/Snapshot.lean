import Quorum.Governor.Counting

/-!
# What the snapshot of a proposal fixes

The snapshot of a proposal is a ledger, not a moment: calls made after the constructor, but in
the same ledger, still enter it. So the weight counted for a voter is the power at the close of
that ledger, as far as the token can still tell it, and it is the power at the moment the
constructor returned exactly when the rest of the ledger and the pruning of old history leave that
power as it was.
-/

namespace Quorum.Governor

open Foundation Contract

variable {s s' : System} {env : Env} {start now id : ℕ}

/-- An accepted vote counts this weight. -/
def CountsWeight (env : Env) (voter : Address) (id support : ℕ) (s : System) (weight : I128) :
    Prop :=
  ∃ p counted, Votes env voter id support p counted weight s
    (machine.step (.governor env (.vote voter id support)) s)

/-- An accepted vote counts some weight. -/
theorem Accepted.countsWeight {voter : Address} {support : ℕ}
    (h : Accepted env (.vote voter id support) s) :
    ∃ weight, CountsWeight env voter id support s weight := by
  obtain ⟨p, counted, weight, hvotes⟩ := vote_returns h.returns
  exact ⟨weight, p, counted, hvotes⟩

/-- The stored history tells what was delegated to `voter` when a ledger closed. -/
def votesLegible (s : System) (voter : Address) (ledger : ℕ) : Bool :=
  reachesBack Token.Checkpoint.ledger (ledger + 1) (Token.voteCheckpoints s.token voter)

/-- The stored history tells which stake of `voter` gave a boost there. -/
def boostLegible (s : System) (voter : Address) (ledger : ℕ) : Bool :=
  reachesBack Token.Lock.ledger ledger (Token.locks s.token voter)

/-- What the stored histories still tell of the weight of `voter` there. Votes and locks are pruned
apart from each other, so either part can be gone. -/
def legibleWeight (calls : List Invocation) (voter : Address) (ledger : ℕ) : ℤ :=
  (if votesLegible (machine.run System.empty calls) voter ledger = true
    then delegatedAtClose calls voter ledger else 0) +
  if boostLegible (machine.run System.empty calls) voter ledger = true
    then boostAtClose calls voter ledger else 0

/-- The id that the next proposal gets. -/
def nextId (s : System) : ℕ := s.governor.proposalCount.getD 0 + 1

/-- An accepted constructor opens the next proposal with the current ledger as its snapshot. -/
theorem Accepted.opens {c : Call} {proposer : Address} {conviction : Bool} (hblank : Blank s)
    (hopens : c.opens = some (proposer, conviction)) (h : Accepted env c s) :
    ∃ p, (machine.step (.governor env c) s).governor.proposal (nextId s) = some p ∧
      p.snapshotLedger = env.sequence := by
  have hchange := (h.effect hblank).change
  generalize machine.step (.governor env c) s = s' at hchange ⊢
  cases hchange with
  | quiet hquiet _ =>
    cases c <;> contradiction
  | opened _ h =>
    refine ⟨_, ?_, h.snapshotLedger⟩
    rw [nextId, ← h.id, h.proposal, Function.update_self]
  | voted => contradiction
  | queued => contradiction
  | failed => contradiction
  | executed => contradiction
  | cancelled => contradiction
  | vetoed => contradiction
  | expired => contradiction

section Creation

variable {first later : List Invocation} {cenv : Env} {c : Call} {proposer voter : Address}
  {conviction : Bool}

/-- A proposal opened in a run keeps the ledger of its constructor as its snapshot. -/
theorem snapshotLedger_run
    (hcalls : machine.Scheduled start now (first ++ .governor cenv c :: later))
    (hopens : c.opens = some (proposer, conviction))
    (hcreated : Accepted cenv c (machine.run System.empty first)) {p : Proposal}
    (hp : (machine.run System.empty (first ++ .governor cenv c :: later)).governor.proposal
      (nextId (machine.run System.empty first)) = some p) : p.snapshotLedger = cenv.sequence := by
  obtain ⟨hfirst, hlater⟩ := hcalls.of_append
  have hw : WellFormed cenv.sequence (machine.run System.empty first) := wellFormed_run hfirst
  obtain ⟨q, hq, hsnapshot⟩ := hcreated.opens hw.blank hopens
  have hw' := hw.step (i := .governor cenv c) (machine_step hw.blank _)
  obtain ⟨p', hp', hkept⟩ := kept_run hw' hlater hq
  rw [Clocked.run_append, Clocked.run_cons, hp'] at hp
  rw [← Option.some.inj hp, hkept.snapshotLedger, hsnapshot]

/-- A vote counts what is left of the weight at the close of the ledger in which the proposal was
opened, cut at the top of the machine type. -/
theorem CountsWeight.eq_legibleWeight {support : ℕ} {weight : I128}
    (hcalls : machine.Scheduled start env.sequence (first ++ .governor cenv c :: later))
    (hopens : c.opens = some (proposer, conviction))
    (hcreated : Accepted cenv c (machine.run System.empty first))
    (h : CountsWeight env voter (nextId (machine.run System.empty first)) support
      (machine.run System.empty (first ++ .governor cenv c :: later)) weight) :
    weight.val =
      min (legibleWeight (first ++ .governor cenv c :: later) voter cenv.sequence) maxI128 := by
  obtain ⟨p, counted, hvotes⟩ := h
  have hsnapshot := snapshotLedger_run hcalls hopens hcreated hvotes.stored
  obtain ⟨read, hread, hval⟩ := getPastVotes_run_eq_ite hcalls voter cenv.sequence
  have hweight := hvotes.weight
  rw [hsnapshot] at hweight
  rw [Returns.value_eq hweight hread, hval]
  rfl

/-- The stake boost at the snapshot ledger is settled when the constructor returns. -/
theorem boostAtClose_creation
    (hcalls : machine.Scheduled start now (first ++ .governor cenv c :: later)) :
    boostAtClose (first ++ .governor cenv c :: later) voter cenv.sequence =
      boostAtClose (first ++ [.governor cenv c]) voter cenv.sequence := by
  have hlater : machine.Scheduled cenv.sequence now (.governor cenv c :: later) :=
    ⟨le_rfl, hcalls.of_append.2⟩
  have hone : machine.Scheduled cenv.sequence cenv.sequence [.governor cenv c] :=
    ⟨le_rfl, le_rfl⟩
  rw [boostAtClose, hlater.stateBefore_append le_rfl, boostAtClose,
    hone.stateBefore_append le_rfl]

/-- The power at the close of a ledger that the run has not left is the live one. -/
theorem delegatedAtClose_creation
    (hcalls : machine.Scheduled start now (first ++ .governor cenv c :: later)) :
    delegatedAtClose (first ++ [.governor cenv c]) voter cenv.sequence =
      (Token.currentVotes (machine.run System.empty (first ++ [.governor cenv c])).token voter
        cenv.sequence).val := by
  have hone : machine.Scheduled cenv.sequence cenv.sequence [.governor cenv c] :=
    ⟨le_rfl, le_rfl⟩
  have hall := hcalls.of_append.1.append hone
  have hbefore : machine.before (cenv.sequence + 1) (first ++ [.governor cenv c]) =
      first ++ [.governor cenv c] :=
    Clocked.before_eq_self fun i hi => Nat.lt_succ_of_le (hall.mem hi).2
  have hstart : start ≤ cenv.sequence := hcalls.of_append.1.le
  rw [delegatedAtClose_eq hall voter hstart, Clocked.stateBefore, hbefore]

/-- The weight of a vote is the power at the moment the constructor returned exactly when what is
left of the power at the close of its ledger is that power, up to the cut at the top of the machine
type. Two continuations of a run give a voter the same weight exactly when they leave the same.
Within the retention window all of it is left, so that the calls made after the constructor in the
same ledger decide. -/
theorem weight_at_creation_iff {support : ℕ}
    (hcalls : machine.Scheduled start env.sequence (first ++ .governor cenv c :: later))
    (hopens : c.opens = some (proposer, conviction))
    (hcreated : Accepted cenv c (machine.run System.empty first))
    (hvote : Accepted env (.vote voter (nextId (machine.run System.empty first)) support)
      (machine.run System.empty (first ++ .governor cenv c :: later))) :
    let id := nextId (machine.run System.empty first)
    let calls := first ++ .governor cenv c :: later
    let created := (machine.run System.empty (first ++ [.governor cenv c])).token
    let closing := (machine.stateBefore System.empty calls (cenv.sequence + 1)).token
    let boost := boostAtClose calls voter cenv.sequence
    ∃ weight power : I128,
      CountsWeight env voter id support (machine.run System.empty calls) weight ∧
      (Token.getPastVotes voter cenv.sequence).Returns created power created ∧
      power.val =
        min ((Token.currentVotes created voter cenv.sequence).val + boost) maxI128 ∧
      (weight = power ↔
        min (legibleWeight calls voter cenv.sequence) maxI128 =
          min ((Token.currentVotes created voter cenv.sequence).val + boost) maxI128) ∧
      (∀ later' env' support' weight',
        machine.Scheduled start env'.sequence (first ++ .governor cenv c :: later') →
        CountsWeight env' voter id support'
          (machine.run System.empty (first ++ .governor cenv c :: later')) weight' →
        (weight' = weight ↔
          min (legibleWeight (first ++ .governor cenv c :: later') voter cenv.sequence) maxI128 =
            min (legibleWeight calls voter cenv.sequence) maxI128)) ∧
      (env.sequence ≤ cenv.sequence + Token.checkpointRetention →
        min (legibleWeight calls voter cenv.sequence) maxI128 =
          min ((Token.currentVotes closing voter cenv.sequence).val + boost) maxI128) := by
  intro id calls created closing boost
  have hone : machine.Scheduled cenv.sequence cenv.sequence [.governor cenv c] :=
    ⟨le_rfl, le_rfl⟩
  have hstart : start ≤ cenv.sequence := hcalls.of_append.1.le
  obtain ⟨weight, hweight⟩ := hvote.countsWeight
  obtain ⟨power, hpower, hval⟩ := getPastVotes_run (hcalls.of_append.1.append hone) voter
    (Nat.le_add_right cenv.sequence Token.checkpointRetention)
  have hpowerval : power.val =
      min ((Token.currentVotes created voter cenv.sequence).val + boost) maxI128 := by
    rw [hval, powerAtClose, delegatedAtClose_creation hcalls, ← boostAtClose_creation hcalls]
  have hweightval := hweight.eq_legibleWeight hcalls hopens hcreated
  refine ⟨weight, power, hweight, hpower, hpowerval, ?_, ?_, fun hretained => ?_⟩
  · rw [I128.ext_iff, hweightval, hpowerval]
  · intro later' env' support' weight' hsched hcounts
    rw [I128.ext_iff, hweightval, hcounts.eq_legibleWeight hsched hopens hcreated]
  · -- The reading is exact there, and it is both sides.
    obtain ⟨read, hread, hexact⟩ := getPastVotes_run hcalls voter hretained
    obtain ⟨read', hread', hleft⟩ := getPastVotes_run_eq_ite hcalls voter cenv.sequence
    rw [powerAtClose, delegatedAtClose_eq hcalls voter hstart] at hexact
    rw [← hexact, Returns.value_eq hread hread', hleft]
    rfl

end Creation

/-- The constructor, in ledger 5. -/
def openingCall : Call := .createProposal (.account 1) [84] [] []

/-- Later in the ledger of the constructor part of the balance moves. -/
def sameLedgerTransfer : List Invocation :=
  [.token ⟨.authorized 5, .transfer (.account 1) (.account 2) (.ofNat 40)⟩]

/-- The part moves one ledger later. -/
def nextLedgerTransfer : List Invocation :=
  [.token ⟨.authorized 6, .transfer (.account 1) (.account 2) (.ofNat 40)⟩]

/-- Tokens that move one ledger after the opening still count for their holder. -/
theorem weight_at_creation_nextLedger :
    ∃ weight power : I128,
      CountsWeight (.authorized 6) (.account 1) 1 1 (machine.run System.empty
        (launchCalls 3 ++ .governor (.authorized 5) openingCall :: nextLedgerTransfer)) weight ∧
      weight = power ∧ power.val = 100 := by
  have hcalls : machine.Scheduled 0 6
      (launchCalls 3 ++ .governor (.authorized 5) openingCall :: nextLedgerTransfer) := by decide
  have hid : nextId (machine.run System.empty (launchCalls 3)) = 1 := by decide
  have hcreated : Accepted (.authorized 5) openingCall (machine.run System.empty (launchCalls 3)) := by
    decide
  have hvote : Accepted (.authorized 6)
      (.vote (.account 1) (nextId (machine.run System.empty (launchCalls 3))) 1)
      (machine.run System.empty
        (launchCalls 3 ++ .governor (.authorized 5) openingCall :: nextLedgerTransfer)) := by decide
  obtain ⟨weight, power, hweight, -, hpower, hiff, -, hretained⟩ :=
    weight_at_creation_iff hcalls rfl hcreated hvote
  rw [hid] at hweight
  have hleft := hretained (by decide)
  refine ⟨weight, power, hweight, hiff.mpr (hleft.trans (by decide)), hpower.trans (by decide)⟩

/-- Account 2 had no voting power when the constructor returned, and votes with 40. -/
theorem weight_differs_sameLedger :
    ∃ weight power : I128,
      CountsWeight (.authorized 6) (.account 2) 1 1 (machine.run System.empty
        (launchCalls 3 ++ .governor (.authorized 5) openingCall :: sameLedgerTransfer)) weight ∧
      (Token.getPastVotes (.account 2) 5).Returns
        (machine.run System.empty (launchCalls 3 ++ [.governor (.authorized 5) openingCall])).token
        power
        (machine.run System.empty (launchCalls 3 ++ [.governor (.authorized 5) openingCall])).token ∧
      weight.val = 40 ∧ power.val = 0 := by
  have hvote : Accepted (.authorized 6) (.vote (.account 2) 1 1) (machine.run System.empty
      (launchCalls 3 ++ .governor (.authorized 5) openingCall :: sameLedgerTransfer)) := by decide
  have hread : ((Token.getPastVotes (.account 2) 5).run (machine.run System.empty
      (launchCalls 3 ++ .governor (.authorized 5) openingCall :: sameLedgerTransfer)).token).1 =
        .ok (.ofNat 40) := by decide
  have hsnapshot : ((machine.run System.empty (launchCalls 3 ++
      .governor (.authorized 5) openingCall :: sameLedgerTransfer)).governor.proposal 1).map
        Proposal.snapshotLedger = some 5 := by decide
  obtain ⟨weight, p, counted, hvotes⟩ := hvote.countsWeight
  have hweight := hvotes.weight
  rw [hvotes.stored] at hsnapshot
  rw [Option.some.inj hsnapshot] at hweight
  have hval : weight = .ofNat 40 := by
    have heq := (congrArg Prod.fst hweight).symm.trans hread
    exact Except.ok.inj heq
  exact ⟨weight, 0, ⟨p, counted, hvotes⟩, by rfl, congrArg I128.val hval, rfl⟩

end Quorum.Governor

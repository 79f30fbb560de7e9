import Mathlib.Algebra.Group.Nat.Defs
import Mathlib.Data.List.TakeWhile
import Quorum.Foundation.CodeUnits

/-!
# Two decoders of contract failures

A contract reports a failure as `Error(Contract, #N)` in the text of a host error.
`contractErrorCode` takes the code from the first such place in the text.
`mapGovernanceSimulationError` looks for the codes it knows one after the other, each anywhere in
the text and in a loose form, and for their names as well. The diagnostics of a simulation carry
further codes, so the two agree exactly when nothing in the text mentions a code that is looked
for earlier.
-/

namespace Quorum.Sdk

open Foundation

/-! ## Whole numbers -/

/-- A whole number rounded to the nearest one with 53 significant bits, to an even one in a tie:
`Number(n)`, and the value of a sum of two numbers. -/
def toNumber (n : ℕ) : ℕ :=
  let unit := 2 ^ (n.log2 + 1 - 53)
  let low := n / unit * unit
  if 2 * (n % unit) < unit ∨ (2 * (n % unit) = unit ∧ n / unit % 2 = 0) then low else low + unit

/-- Whole numbers of at most 53 bits are kept. -/
theorem toNumber_of_le {n : ℕ} (h : n < 2 ^ 53) : toNumber n = n := by
  have hlog : n.log2 < 53 := by
    rcases Nat.eq_zero_or_pos n with rfl | hpos
    · decide
    · exact (Nat.log2_lt hpos.ne').mpr h
  have hunit : n.log2 + 1 - 53 = 0 := by omega
  simp [toNumber, hunit, Nat.mod_one]

/-- Larger ones stay large. -/
theorem le_toNumber {n : ℕ} (h : 2 ^ 53 ≤ n) : 2 ^ 52 ≤ toNumber n := by
  have hne : n ≠ 0 := by omega
  have hlog : 53 ≤ n.log2 := (Nat.le_log2 hne).mpr h
  have hself : 2 ^ n.log2 ≤ n := Nat.log2_self_le hne
  have hpow : 2 ^ n.log2 = 2 ^ 52 * 2 ^ (n.log2 + 1 - 53) := by
    rw [← Nat.pow_add]
    congr 1
    omega
  have hunit : 0 < 2 ^ (n.log2 + 1 - 53) := Nat.two_pow_pos _
  have hquotient : 2 ^ 52 ≤ n / 2 ^ (n.log2 + 1 - 53) := by
    rw [Nat.le_div_iff_mul_le hunit, ← hpow]
    exact hself
  have hlow : 2 ^ 52 ≤ n / 2 ^ (n.log2 + 1 - 53) * 2 ^ (n.log2 + 1 - 53) :=
    hquotient.trans (Nat.le_mul_of_pos_right _ hunit)
  simp only [toNumber]
  split
  · exact hlow
  · exact hlow.trans (Nat.le_add_right _ _)

/-- The whole number that stands for `Infinity`: all doubles are below it. -/
def infinity : ℕ := 2 ^ 1024

/-! ## The first host error -/

/-- A match of `Error\(Contract, #(\d+)\)` at the beginning of the text: its digits. -/
def hostErrorAt (text : JsString) : Option JsString :=
  if (units "Error(Contract, #").isPrefixOf text then
    let rest := text.drop (units "Error(Contract, #").length
    let digits := rest.takeWhile isDigitUnit
    if digits ≠ [] ∧ (rest.drop digits.length).head? = some 41 then some digits else none
  else none

/-- The digits of the first host error in the text. -/
def firstHostError (text : JsString) : Option JsString := leftmost hostErrorAt text

/-- Extracts `N` from an `Error(Contract, #N)` host error, as the number that is nearest to it. -/
def contractErrorCode (text : JsString) : Option ℕ :=
  (firstHostError text).map fun digits => min (toNumber (unitsValue digits)) infinity

/-! ## The loose patterns -/

/-- A match of `#\s*CODE\b` at the beginning of the text. -/
def looseCodeAt (code : ℕ) : JsString → Option Unit
  | [] => none
  | c :: text =>
    let rest := text.dropWhile isSpaceUnit
    if c = 35 ∧ (decimalUnits code).isPrefixOf rest = true ∧
        endsWord (rest.drop (decimalUnits code).length) = true then some ()
    else none

/-- The text has the code in its loose form, or the name, anywhere. -/
def mentions (code : ℕ) (name : JsString) (text : JsString) : Bool :=
  (leftmost (looseCodeAt code) text).isSome || decide (name <:+: text)

/-- The classes of errors that the SDK throws for a failed simulation. -/
inductive ErrorClass where
  | proposalNotFoundError
  | votingNotActiveError
  | proposalNotPassedError
  | timelockNotExpiredError
  | unauthorizedError
  | error
deriving DecidableEq

/-- An error object. -/
structure SdkError where
  errorClass : ErrorClass
  message : JsString
deriving DecidableEq

/-- The typed error for the failed simulation of a method. -/
def mapGovernanceSimulationError (method message : JsString) : SdkError :=
  let failed := units "Simulation of " ++ method ++ units " failed: "
  if mentions 3 (units "ProposalNotFound") message then
    ⟨.proposalNotFoundError, units "Proposal not found"⟩
  else if mentions 4 (units "VotingNotActive") message then
    ⟨.votingNotActiveError, failed ++ units "voting is not active (" ++ message ++ units ")"⟩
  else if mentions 7 (units "ProposalNotPassed") message then
    ⟨.proposalNotPassedError, failed ++ units "proposal has not passed (" ++ message ++ units ")"⟩
  else if mentions 12 (units "TimelockNotExpired") message then
    ⟨.timelockNotExpiredError, failed ++ units "timelock not expired (" ++ message ++ units ")"⟩
  else if mentions 2 (units "Unauthorized") message then
    ⟨.unauthorizedError, failed ++ units "unauthorized (" ++ message ++ units ")"⟩
  else ⟨.error, failed ++ message⟩

/-- A code that `mapGovernanceSimulationError` looks for. -/
structure KnownCode where
  code : ℕ
  name : JsString
  errorClass : ErrorClass
deriving DecidableEq

/-- The codes in the order in which they are looked for. -/
def knownCodes : List KnownCode :=
  [⟨3, units "ProposalNotFound", .proposalNotFoundError⟩,
    ⟨4, units "VotingNotActive", .votingNotActiveError⟩,
    ⟨7, units "ProposalNotPassed", .proposalNotPassedError⟩,
    ⟨12, units "TimelockNotExpired", .timelockNotExpiredError⟩,
    ⟨2, units "Unauthorized", .unauthorizedError⟩]

/-- The class of the errors that stand for a code. -/
def classOf (code : ℕ) : ErrorClass :=
  ((knownCodes.find? fun known => known.code = code).map KnownCode.errorClass).getD .error

/-- The text has `#` and the code after it, set off by white space only and ending there, or it
has the name. -/
def Mentions (known : KnownCode) (text : JsString) : Prop :=
  (∃ before space after, text = before ++ 35 :: (space ++ (decimalUnits known.code ++ after)) ∧
    (∀ c ∈ space, isSpaceUnit c = true) ∧ endsWord after = true) ∨ known.name <:+: text

/-! ## What the patterns match -/

/-- A code that does not begin with white space is found in its loose form. -/
theorem looseCodeAt_isSome_iff {code : ℕ} {d : UInt16} {ds : JsString}
    (hcode : decimalUnits code = d :: ds) (hd : isSpaceUnit d = false) (text : JsString) :
    (looseCodeAt code text).isSome ↔
      ∃ space after, text = 35 :: (space ++ (decimalUnits code ++ after)) ∧
        (∀ c ∈ space, isSpaceUnit c = true) ∧ endsWord after = true := by
  cases text with
  | nil => simp [looseCodeAt]
  | cons c text =>
    simp only [looseCodeAt]
    constructor
    · intro h
      split at h <;> rename_i hmatch
      · obtain ⟨rfl, hprefix, hend⟩ := hmatch
        obtain ⟨after, hafter⟩ := List.isPrefixOf_iff_prefix.mp hprefix
        rw [← hafter, List.drop_left] at hend
        refine ⟨text.takeWhile isSpaceUnit, after, ?_, fun c hc => List.mem_takeWhile_imp hc, hend⟩
        rw [hafter, List.takeWhile_append_dropWhile]
      · contradiction
    · rintro ⟨space, after, htext, hspace, hend⟩
      obtain ⟨rfl, rfl⟩ := List.cons.inj htext
      have hdrop : (space ++ (decimalUnits code ++ after)).dropWhile isSpaceUnit =
          decimalUnits code ++ after := by
        rw [List.dropWhile_append_of_pos hspace, hcode, List.cons_append,
          List.dropWhile_cons_of_neg (by simp [hd])]
      simp [hdrop, hend]

/-- The five codes and their names are found exactly where they are mentioned. -/
theorem mentions_iff {known : KnownCode} (h : known ∈ knownCodes) (text : JsString) :
    mentions known.code known.name text = true ↔ Mentions known text := by
  have hdigits : ∀ known ∈ knownCodes, ((decimalUnits known.code).head?.map isSpaceUnit) =
      some false := by decide
  obtain ⟨d, hhead, hd⟩ := Option.map_eq_some_iff.mp (hdigits known h)
  obtain ⟨ds, hcode⟩ := List.head?_eq_some_iff.mp hhead
  rw [mentions, Bool.or_eq_true, decide_eq_true_eq, leftmost_isSome_iff, Mentions]
  refine or_congr ?_ Iff.rfl
  simp only [looseCodeAt_isSome_iff hcode hd]
  constructor
  · rintro ⟨before, _, rfl, space, after, rfl, hspace, hend⟩
    exact ⟨before, space, after, rfl, hspace, hend⟩
  · rintro ⟨before, space, after, rfl, hspace, hend⟩
    exact ⟨before, _, rfl, space, after, rfl, hspace, hend⟩

/-- The digits of a host error stand behind `#` and end there. -/
theorem exists_of_hostErrorAt {text digits : JsString} (h : hostErrorAt text = some digits) :
    ∃ after, text = units "Error(Contract, " ++ 35 :: (digits ++ 41 :: after) := by
  unfold hostErrorAt at h
  split at h <;> rename_i hprefix
  · obtain ⟨rest, rfl⟩ := List.isPrefixOf_iff_prefix.mp hprefix
    simp only [List.drop_left] at h
    split at h <;> rename_i hdigits
    · obtain rfl := Option.some.inj h
      have hsplit := List.takeWhile_append_dropWhile (p := isDigitUnit) (l := rest)
      have hdrop := congrArg (List.drop (rest.takeWhile isDigitUnit).length) hsplit
      obtain ⟨after, hafter⟩ := List.head?_eq_some_iff.mp hdigits.2
      rw [List.drop_left, hafter] at hdrop
      rw [hdrop] at hsplit
      exact ⟨after, by rw [hsplit]; rfl⟩
    · contradiction
  · contradiction

/-- A host error in canonical form mentions its own code. -/
theorem mentions_of_firstHostError {known : KnownCode} {text : JsString}
    (h : firstHostError text = some (decimalUnits known.code)) : Mentions known text := by
  obtain ⟨before, _, rfl, hmatch⟩ := exists_of_leftmost h
  obtain ⟨after, rfl⟩ := exists_of_hostErrorAt hmatch
  refine .inl ⟨before ++ units "Error(Contract, ", [], 41 :: after, ?_, by simp, rfl⟩
  rw [List.append_assoc]
  rfl

/-! ## Where the decoders agree -/

/-- The class of the first entry that fits, or the generic one. -/
def firstClass (fits : KnownCode → Bool) (known : List KnownCode) : ErrorClass :=
  ((known.find? fits).map KnownCode.errorClass).getD .error

/-- The first known code that fits gives the class. -/
theorem firstClass_cons (fits : KnownCode → Bool) (e : KnownCode) (known : List KnownCode) :
    firstClass fits (e :: known) = if fits e = true then e.errorClass else firstClass fits known := by
  unfold firstClass
  by_cases h : fits e = true <;> simp [h]

/-- The class of another entry is not found. -/
theorem firstClass_ne {fits : KnownCode → Bool} {known : List KnownCode} {class' : ErrorClass}
    (hmem : class' ∉ known.map KnownCode.errorClass) (herror : class' ≠ .error) :
    firstClass fits known ≠ class' := by
  unfold firstClass
  cases hfind : known.find? fits with
  | none => exact herror.symm
  | some e =>
    rintro rfl
    exact hmem (List.mem_map_of_mem (List.mem_of_find?_eq_some hfind))

/-- Among entries with different codes and classes, the first one that applies is the one with a
given code exactly when it applies and none before it does. -/
theorem firstClass_eq_iff {known : List KnownCode} {applies : KnownCode → Bool} {code : ℕ}
    (hcodes : (known.map KnownCode.code).Nodup) (hclasses : (known.map KnownCode.errorClass).Nodup)
    (herror : ∀ e ∈ known, e.errorClass ≠ .error) :
    firstClass applies known = firstClass (fun e => e.code = code) known ↔
      (∀ e ∈ known.takeWhile fun e => e.code ≠ code, ¬ applies e = true) ∧
        ∀ e ∈ known, e.code = code → applies e = true := by
  induction known with
  | nil => simp [firstClass]
  | cons e known ih =>
    rw [List.map_cons, List.nodup_cons] at hcodes hclasses
    have hother : ∀ fits, firstClass fits known ≠ e.errorClass := fun fits =>
      firstClass_ne hclasses.1 (herror e List.mem_cons_self)
    rw [List.forall_mem_cons]
    by_cases hcode : e.code = code
    · -- The entry itself has the code, and no later one does.
      have hlater : ∀ e' ∈ known, ¬ e'.code = code := fun e' he' heq =>
        hcodes.1 (List.mem_map.mpr ⟨e', he', heq.trans hcode.symm⟩)
      have hlookup : firstClass (fun e => e.code = code) (e :: known) = e.errorClass := by
        rw [firstClass_cons, if_pos (by simpa using hcode)]
      rw [hlookup, List.takeWhile_cons_of_neg (by simp [hcode]), firstClass_cons]
      by_cases happlies : applies e = true
      · have hrest : ∀ e' ∈ known, e'.code = code → applies e' = true :=
          fun e' he' heq => absurd heq (hlater e' he')
        simpa [happlies] using hrest
      · simp [happlies, hcode, hother]
    · have hlookup : firstClass (fun e => e.code = code) (e :: known) =
          firstClass (fun e => e.code = code) known := by
        rw [firstClass_cons, if_neg (by simpa using hcode)]
      rw [hlookup, List.takeWhile_cons_of_pos (by simp [hcode]), List.forall_mem_cons,
        firstClass_cons]
      by_cases happlies : applies e = true
      · simp [happlies, (hother _).symm]
      · have hrest := ih hcodes.2 hclasses.2 fun e' he' => herror e' (List.mem_cons_of_mem e he')
        simp only [happlies, hcode, hrest, if_false, Bool.false_eq_true, not_false_eq_true,
          true_and, false_implies]

/-- The class of a failure is that of the first known code it mentions. -/
theorem mapGovernanceSimulationError_class (method message : JsString) :
    (mapGovernanceSimulationError method message).errorClass =
      firstClass (fun known => mentions known.code known.name message) knownCodes := by
  simp only [mapGovernanceSimulationError, knownCodes, firstClass_cons]
  split
  · rfl
  · split
    · rfl
    · split
      · rfl
      · split
        · rfl
        · split <;> rfl

/-- For a text with a host error, the class of the typed error is that of the error's code exactly
when no code or name that is looked for earlier is mentioned anywhere, and the code itself, if it
is one that is looked for, is. A host error without leading zeros mentions its own code. -/
theorem mapGovernanceSimulationError_agrees_iff (method : JsString) {message : JsString} {code : ℕ}
    (h : contractErrorCode message = some code) :
    ((mapGovernanceSimulationError method message).errorClass = classOf code ↔
      (∀ known ∈ knownCodes.takeWhile fun known => known.code ≠ code, ¬ Mentions known message) ∧
        ∀ known ∈ knownCodes, known.code = code → Mentions known message) ∧
    (firstHostError message = some (decimalUnits code) →
      ∀ known ∈ knownCodes, known.code = code → Mentions known message) := by
  refine ⟨?_, ?_⟩
  · rw [mapGovernanceSimulationError_class, classOf]
    refine (firstClass_eq_iff (by decide) (by decide) (by decide)).trans (and_congr ?_ ?_)
    · refine forall₂_congr fun known hknown => not_congr (mentions_iff ?_ message)
      exact (List.takeWhile_sublist _).subset hknown
    · exact forall₂_congr fun known hknown => imp_congr_right fun _ => mentions_iff hknown message
  · rintro hcanonical known - rfl
    exact mentions_of_firstHostError hcanonical

/-- The text of a failure with nothing else in it. -/
def plainFailure : JsString := units "HostError: Error(Contract, #12)"

/-- A plain host error with code 12 is classed by its code. -/
theorem mapGovernanceSimulationError_agrees_plain :
    (mapGovernanceSimulationError (units "execute") plainFailure).errorClass =
      .timelockNotExpiredError := by
  have hcode : contractErrorCode plainFailure = some 12 := by decide +kernel
  have hagrees := mapGovernanceSimulationError_agrees_iff (units "execute") hcode
  refine hagrees.1.mpr ⟨fun known hknown => ?_, hagrees.2 (by decide)⟩
  rw [← mentions_iff ((List.takeWhile_sublist _).subset hknown)]
  revert known
  decide

/-- The same failure, followed by an event of a contract that was called. -/
def nestedFailure : JsString :=
  plainFailure ++ units "\nEvent log (newest first):\n   0: Error(Contract, #3)"

/-- The first host error has the code 12, and the text is taken for one with the code 3. -/
theorem mapGovernanceSimulationError_nested :
    contractErrorCode nestedFailure = some 12 ∧ classOf 12 = .timelockNotExpiredError ∧
      (mapGovernanceSimulationError (units "execute") nestedFailure).errorClass =
        .proposalNotFoundError := by
  decide +kernel

end Quorum.Sdk

import Quorum.Foundation.Json

/-!
# Keys of cached reads

A read is kept under the name of its method and the JSON text of its arguments. The arguments are
strings, big integers and finite numbers. JSON has no big integers, so they are written as objects
that hold their digits. The key gives the method and the arguments back.
-/

namespace Quorum.Sdk

open Foundation

/-- The methods whose results are kept. -/
inductive ReadMethod where
  | getProposal
  | getProposalCount
  | getConfig
  | getVote
  | getLatestLedger
  | getVotingPower
  | getBalance
  | getTokenDecimals
  | balance
  | getPastBalance
  | allowance
  | totalSupply
deriving DecidableEq

/-- The name of a method. -/
def ReadMethod.name : ReadMethod → JsString
  | .getProposal => units "getProposal"
  | .getProposalCount => units "getProposalCount"
  | .getConfig => units "getConfig"
  | .getVote => units "getVote"
  | .getLatestLedger => units "getLatestLedger"
  | .getVotingPower => units "getVotingPower"
  | .getBalance => units "getBalance"
  | .getTokenDecimals => units "getTokenDecimals"
  | .balance => units "balance"
  | .getPastBalance => units "getPastBalance"
  | .allowance => units "allowance"
  | .totalSupply => units "totalSupply"

/-- A unit in the text of a finite number: a digit, a sign, a point or an exponent mark. -/
def isNumberUnit (c : UInt16) : Bool := isDigitUnit c || c == 43 || c == 45 || c == 46 || c == 101

/-- A finite number, by its text. -/
structure NumberText where
  text : JsString
  nonempty : text ≠ []
  numeric : ∀ c ∈ text, isNumberUnit c = true

/-- An argument of a read. -/
inductive Argument where
  | string (text : JsString)
  | bigint (value : ℤ)
  | number (value : NumberText)

/-- `String` of a big integer. -/
def bigintText (n : ℤ) : JsString :=
  if n < 0 then 45 :: decimalUnits n.natAbs else decimalUnits n.natAbs

/-- The JSON text of one argument, with `{ bigint: String(value) }` for a big integer. -/
def argumentText : Argument → JsString
  | .string text => quote text
  | .bigint value => (units "\x7b\"bigint\":" ++ quote (bigintText value)) ++ units "\x7d"
  | .number value => value.text

/-- The rest of the JSON text of a list, after its bracket. -/
def argumentsText : List Argument → JsString
  | [] => [93]
  | [arg] => argumentText arg ++ [93]
  | arg :: args => argumentText arg ++ 44 :: argumentsText args

/-- The key of a read. -/
def key (method : ReadMethod) (args : List Argument) : JsString :=
  method.name ++ 58 :: 91 :: argumentsText args

/-- `key.startsWith(method + ':')`. -/
def keyOf (method : ReadMethod) (key : JsString) : Bool := (method.name ++ [58]).isPrefixOf key

/-! ## What a key tells -/

/-- Different whole numbers are written differently. -/
theorem bigintText_inj {m n : ℤ} (h : bigintText m = bigintText n) : m = n := by
  have hdigits : ∀ (k : ℕ) (rest : JsString), decimalUnits k ≠ 45 :: rest := by
    intro k rest hk
    have hdigit : isDigitUnit 45 = true := isDigitUnit_decimalUnits (hk ▸ List.mem_cons_self)
    exact absurd hdigit (by decide)
  unfold bigintText at h
  split at h <;> split at h
  · have habs := decimalUnits_inj (List.cons.inj h).2
    omega
  · exact absurd h.symm (hdigits _ _)
  · exact absurd h (hdigits _ _)
  · have habs := decimalUnits_inj h
    omega

/-- Where the text of a number ends. -/
theorem NumberText.append_inj {m n : NumberText} {x y : JsString}
    (hx : x.head?.any isNumberUnit = false) (hy : y.head?.any isNumberUnit = false)
    (h : m.text ++ x = n.text ++ y) : m = n ∧ x = y := by
  have hend : ∀ z : JsString, z.head?.any isNumberUnit = false → z.takeWhile isNumberUnit = [] := by
    intro z hz
    cases z with
    | nil => rfl
    | cons c z => exact List.takeWhile_cons_of_neg (by simpa using hz)
  have htake := congrArg (List.takeWhile isNumberUnit) h
  rw [List.takeWhile_append_of_pos m.numeric, List.takeWhile_append_of_pos n.numeric, hend x hx,
    hend y hy, List.append_nil, List.append_nil] at htake
  rw [htake] at h
  refine ⟨?_, List.append_cancel_left h⟩
  cases m
  cases n
  simp_all

/-- The text of an argument begins in a way that tells its kind. -/
theorem argumentText_ne_number {arg : Argument} {n : NumberText} {x y : JsString}
    (harg : ∀ m, arg ≠ .number m) : argumentText arg ++ x ≠ n.text ++ y := by
  obtain ⟨c, rest, htext⟩ := List.exists_cons_of_ne_nil n.nonempty
  have hnumeric : isNumberUnit c = true := n.numeric c (htext ▸ List.mem_cons_self)
  intro h
  rw [htext] at h
  cases arg with
  | number m => exact harg m rfl
  | string text =>
    obtain rfl : 34 = c := (List.cons.inj h).1
    exact absurd hnumeric (by decide)
  | bigint value =>
    obtain rfl : 123 = c := (List.cons.inj h).1
    exact absurd hnumeric (by decide)

/-- The text of an argument gives the argument and what follows it back. -/
theorem argumentText_append_inj {a b : Argument} {x y : JsString}
    (hx : x.head?.any isNumberUnit = false) (hy : y.head?.any isNumberUnit = false)
    (h : argumentText a ++ x = argumentText b ++ y) : a = b ∧ x = y := by
  cases a with
  | string s =>
    cases b with
    | string t =>
      obtain ⟨rfl, hxy⟩ := quote_append_inj h
      exact ⟨rfl, hxy⟩
    | bigint n => exact absurd (List.cons.inj h).1 (by decide)
    | number n => exact absurd h (argumentText_ne_number (by simp))
  | bigint m =>
    cases b with
    | string t => exact absurd (List.cons.inj h).1 (by decide)
    | bigint n =>
      simp only [argumentText, List.append_assoc] at h
      obtain ⟨htext, hclose⟩ := quote_append_inj (List.append_cancel_left h)
      rw [bigintText_inj htext, List.append_cancel_left hclose]
      exact ⟨rfl, rfl⟩
    | number n => exact absurd h (argumentText_ne_number (by simp))
  | number m =>
    cases b with
    | string t => exact absurd h.symm (argumentText_ne_number (by simp))
    | bigint n => exact absurd h.symm (argumentText_ne_number (by simp))
    | number n =>
      obtain ⟨rfl, hxy⟩ := NumberText.append_inj hx hy h
      exact ⟨rfl, hxy⟩

/-- What follows an argument: the end of the list, or a comma and the others. -/
theorem argumentsText_cons (arg : Argument) (args : List Argument) :
    ∃ rest, argumentsText (arg :: args) = argumentText arg ++ rest ∧
      rest.head?.any isNumberUnit = false ∧
      (args = [] ∧ rest = [93] ∨ args ≠ [] ∧ rest = 44 :: argumentsText args) := by
  cases args with
  | nil => exact ⟨[93], rfl, by decide, .inl ⟨rfl, rfl⟩⟩
  | cons next args => exact ⟨_, rfl, rfl, .inr ⟨List.cons_ne_nil _ _, rfl⟩⟩

/-- No argument begins like the end of the list. -/
theorem argumentText_append_ne (arg : Argument) (x : JsString) : argumentText arg ++ x ≠ [93] := by
  intro h
  cases arg with
  | string text => exact absurd (List.cons.inj h).1 (by decide)
  | bigint value => exact absurd (List.cons.inj h).1 (by decide)
  | number n =>
    obtain ⟨c, rest, htext⟩ := List.exists_cons_of_ne_nil n.nonempty
    have hnumeric : isNumberUnit c = true := n.numeric c (htext ▸ List.mem_cons_self)
    rw [argumentText, htext] at h
    obtain rfl : c = 93 := (List.cons.inj h).1
    exact absurd hnumeric (by decide)

/-- Different arguments are written differently. -/
theorem argumentsText_inj {args args' : List Argument}
    (h : argumentsText args = argumentsText args') : args = args' := by
  induction args generalizing args' with
  | nil =>
    cases args' with
    | nil => rfl
    | cons arg' args' =>
      obtain ⟨rest, htext, -, -⟩ := argumentsText_cons arg' args'
      rw [htext] at h
      exact absurd h.symm (argumentText_append_ne _ _)
  | cons arg args ih =>
    obtain ⟨rest, htext, hrest, hargs⟩ := argumentsText_cons arg args
    cases args' with
    | nil =>
      rw [htext] at h
      exact absurd h (argumentText_append_ne _ _)
    | cons arg' args' =>
      obtain ⟨rest', htext', hrest', hargs'⟩ := argumentsText_cons arg' args'
      rw [htext, htext'] at h
      obtain ⟨rfl, rfl⟩ := argumentText_append_inj hrest hrest' h
      rcases hargs with ⟨rfl, rfl⟩ | ⟨-, rfl⟩ <;> rcases hargs' with ⟨rfl, hclose⟩ | ⟨-, hclose⟩
      · rfl
      · exact absurd (List.cons.inj hclose).1 (by decide)
      · exact absurd (List.cons.inj hclose).1 (by decide)
      · rw [ih (List.cons.inj hclose).2]

/-- Different methods have different names. -/
theorem ReadMethod.name_inj {m n : ReadMethod} (h : m.name = n.name) : m = n := by
  cases m <;> cases n <;> first | rfl | exact absurd h (by decide)

/-- The names of methods hold no colon. -/
theorem ReadMethod.colon_notMem (m : ReadMethod) : 58 ∉ m.name := by
  cases m <;> decide

/-- What stands before the first colon, and what stands after it. -/
theorem colon_append_inj {a b x y : JsString} (ha : 58 ∉ a) (hb : 58 ∉ b)
    (h : a ++ 58 :: x = b ++ 58 :: y) : a = b ∧ x = y := by
  induction a generalizing b with
  | nil =>
    cases b with
    | nil => exact ⟨rfl, (List.cons.inj h).2⟩
    | cons d b => exact absurd (List.mem_cons.mpr (.inl (List.cons.inj h).1)) hb
  | cons c a ih =>
    cases b with
    | nil => exact absurd (List.mem_cons.mpr (.inl (List.cons.inj h).1.symm)) ha
    | cons d b =>
      obtain ⟨rfl, hrest⟩ := List.cons.inj h
      obtain ⟨rfl, hxy⟩ := ih (fun hmem => ha (List.mem_cons_of_mem _ hmem))
        (fun hmem => hb (List.mem_cons_of_mem _ hmem)) hrest
      exact ⟨rfl, hxy⟩

/-- Reads share a key only if they are the same. -/
theorem key_inj {m n : ReadMethod} {args args' : List Argument} (h : key m args = key n args') :
    m = n ∧ args = args' := by
  obtain ⟨hname, hrest⟩ := colon_append_inj m.colon_notMem n.colon_notMem h
  exact ⟨ReadMethod.name_inj hname, argumentsText_inj (List.cons.inj hrest).2⟩

/-- The prefix of a key tells the method. -/
theorem keyOf_key (m n : ReadMethod) (args : List Argument) :
    keyOf m (key n args) = true ↔ m = n := by
  rw [keyOf, List.isPrefixOf_iff_prefix]
  constructor
  · rintro ⟨rest, hrest⟩
    rw [key, List.append_assoc] at hrest
    exact ReadMethod.name_inj (colon_append_inj m.colon_notMem n.colon_notMem hrest).1
  · rintro rfl
    exact ⟨91 :: argumentsText args, by rw [key, List.append_assoc]; rfl⟩

end Quorum.Sdk

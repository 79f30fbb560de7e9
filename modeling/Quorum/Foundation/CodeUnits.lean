import Mathlib.Data.List.Basic
import Mathlib.Data.List.Infix
import Mathlib.Tactic.Common

/-!
# Strings of code units

A script string is a row of 16-bit code units, and the character classes of its regular
expressions are sets of them. A search for a pattern tries it at every place from the left and
stops at the first one where it matches.
-/

namespace Foundation

/-- A string, by its UTF-16 code units. -/
abbrev JsString := List UInt16

/-- Strings are the same when all their units are. -/
instance JsString.lawfulBEq : LawfulBEq JsString := inferInstance

/-- What holds of all units of a string is decided unit by unit, not over all units there are. -/
instance (priority := high) JsString.decidableForallMem (p : UInt16 → Prop) [DecidablePred p]
    (text : JsString) : Decidable (∀ c ∈ text, p c) := List.decidableBAll p text

/-- The code units of a plain text. -/
def units (text : String) : JsString := text.toList.map fun c => UInt16.ofNat c.toNat

/-- The class `\d`. -/
def isDigitUnit (c : UInt16) : Bool := 48 ≤ c && c ≤ 57

/-- The class `\w`. -/
def isWordUnit (c : UInt16) : Bool :=
  isDigitUnit c || (65 ≤ c && c ≤ 90) || (97 ≤ c && c ≤ 122) || c == 95

/-- The class `\s`: the white space and the line terminators. -/
def isSpaceUnit (c : UInt16) : Bool :=
  (9 ≤ c && c ≤ 13) || c == 32 || c == 0xa0 || c == 0x1680 || (0x2000 ≤ c && c ≤ 0x200a) ||
    c == 0x2028 || c == 0x2029 || c == 0x202f || c == 0x205f || c == 0x3000 || c == 0xfeff

/-- The string does not go on with a character of a word. -/
def endsWord : JsString → Bool
  | [] => true
  | c :: _ => !isWordUnit c

/-- The number that a string of digits denotes. -/
def unitsValue (digits : JsString) : ℕ := digits.foldl (fun n c => 10 * n + (c.toNat - 48)) 0

/-- A number in decimal digits. -/
def decimalUnits (n : ℕ) : JsString := (Nat.toDigits 10 n).map fun c => UInt16.ofNat c.toNat

/-! ## The leftmost match -/

section Leftmost

variable {α β : Type} {matchAt : List α → Option β}

/-- The match at the first place where there is one. -/
def leftmost (matchAt : List α → Option β) : List α → Option β
  | [] => matchAt []
  | c :: rest => (matchAt (c :: rest)).or (leftmost matchAt rest)

/-- A match that is found is a match at some place. -/
theorem exists_of_leftmost {text : List α} {b : β} (h : leftmost matchAt text = some b) :
    ∃ before after, text = before ++ after ∧ matchAt after = some b := by
  induction text with
  | nil => exact ⟨[], [], rfl, h⟩
  | cons c rest ih =>
    rw [leftmost, Option.or_eq_some_iff] at h
    rcases h with hfirst | ⟨-, hrest⟩
    · exact ⟨[], c :: rest, rfl, hfirst⟩
    · obtain ⟨before, after, rfl, hmatch⟩ := ih hrest
      exact ⟨c :: before, after, rfl, hmatch⟩

/-- A search succeeds exactly when there is a match at some place. -/
theorem leftmost_isSome_iff {text : List α} :
    (leftmost matchAt text).isSome ↔
      ∃ before after, text = before ++ after ∧ (matchAt after).isSome := by
  constructor
  · intro h
    obtain ⟨b, hb⟩ := Option.isSome_iff_exists.mp h
    obtain ⟨before, after, htext, hmatch⟩ := exists_of_leftmost hb
    exact ⟨before, after, htext, by rw [hmatch]; rfl⟩
  · rintro ⟨before, after, rfl, hmatch⟩
    induction before with
    | nil =>
      cases after with
      | nil => exact hmatch
      | cons c rest =>
        obtain ⟨b, hb⟩ := Option.isSome_iff_exists.mp hmatch
        rw [List.nil_append, leftmost, hb]
        rfl
    | cons c before ih =>
      rw [List.cons_append, leftmost, Option.isSome_or, ih, Bool.or_true]

end Leftmost

end Foundation

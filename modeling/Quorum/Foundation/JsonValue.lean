import Mathlib.Data.List.Nodup
import Mathlib.Data.Rat.Defs
import Quorum.Foundation.CodeUnits

/-!
# Parsed JSON

What a script sees of a parsed JSON value: its properties, whether it counts as true, the integer
it is, and when two values are the same to a set.
-/

namespace Foundation

/-- A number with its text; it may have been too large to be finite. -/
structure JsonNumber where
  value : Option ℚ
  text : JsString

/-- A parsed JSON value. -/
inductive Json where
  | null
  | bool (value : Bool)
  | number (value : JsonNumber)
  | string (value : JsString)
  | array (items : List Json)
  | object (members : List (JsString × Json))

/-- A property of a value, unless it is undefined; what is not there has none. -/
def property (name : String) : Option Json → Option Json
  | some (.object members) => members.lookup (units name)
  | _ => none

/-- The element at index 0, unless it is undefined. -/
def firstElement : Option Json → Option Json
  | some (.array items) => items.head?
  | some (.object members) => members.lookup (units "0")
  | some (.string value) => value.head?.map fun c => .string [c]
  | _ => none

/-- The value counts as true. -/
def truthy : Option Json → Bool
  | none => false
  | some .null => false
  | some (.bool value) => value
  | some (.number number) => number.value ≠ some 0
  | some (.string value) => value ≠ []
  | some (.array _) => true
  | some (.object _) => true

/-- The value as an integer, if it is one. -/
def integer : Option Json → Option ℤ
  | some (.number number) => number.value.bind fun q => if q.den = 1 then some q.num else none
  | _ => none

/-- The value is this string. -/
def isString (text : String) : Option Json → Bool
  | some (.string value) => value = units text
  | _ => false

mutual

/-- The text of a value in a template, unless the conversion throws: an object is converted by its
own `toString` if it has one, and that is not a function. -/
def templateText : Json → Option JsString
  | .null => some (units "null")
  | .bool value => some (units (if value = true then "true" else "false"))
  | .number value => some value.text
  | .string value => some value
  | .array items => (itemTexts items).map (List.intercalate [44])
  | .object members =>
    if (members.lookup (units "toString")).isSome = true then none
    else some (units "[object Object]")

/-- The texts of the elements of an array, with nothing for `null`. -/
def itemTexts : List Json → Option (List JsString)
  | [] => some []
  | .null :: items => (itemTexts items).map (List.cons [])
  | item :: items => (templateText item).bind fun text => (itemTexts items).map (List.cons text)

end

/-! ## Sets of values -/

/-- The values are the same to a set. Each array and each object of a parsed value is one of its
own. -/
def sameValue : Option Json → Option Json → Bool
  | none, none => true
  | some .null, some .null => true
  | some (.bool a), some (.bool b) => a = b
  | some (.number a), some (.number b) => a.value = b.value
  | some (.string a), some (.string b) => a = b
  | _, _ => false

/-- The size of the set of these values. -/
def setSize : List (Option Json) → ℕ
  | [] => 0
  | value :: values => setSize values + if values.any (sameValue value) = true then 0 else 1

/-- A set has no more members than values were put into it. -/
theorem setSize_le (values : List (Option Json)) : setSize values ≤ values.length := by
  induction values with
  | nil => exact le_rfl
  | cons value values ih =>
    rw [setSize, List.length_cons]
    split <;> omega

/-- A set has the size of a list of values exactly when no two of them are the same. -/
theorem setSize_eq_length_iff (values : List (Option Json)) :
    setSize values = values.length ↔ values.Pairwise fun a b => sameValue a b = false := by
  induction values with
  | nil => exact ⟨fun _ => .nil, fun _ => rfl⟩
  | cons value values ih =>
    have hle := setSize_le values
    rw [setSize, List.length_cons, List.pairwise_cons, ← ih]
    cases hany : values.any (sameValue value) with
    | true =>
      obtain ⟨other, hmem, hsame⟩ := List.any_eq_true.mp hany
      refine ⟨fun h => ?_, fun h => ?_⟩
      · simp at h
        omega
      · rw [h.1 other hmem] at hsame
        contradiction
    | false =>
      have hother : ∀ other ∈ values, sameValue value other = false := fun other hmem =>
        Bool.eq_false_iff.mpr fun h => Bool.eq_false_iff.mp hany (List.any_eq_true.mpr ⟨other, hmem, h⟩)
      simp only [Bool.false_eq_true, if_false, Nat.add_right_cancel_iff]
      exact ⟨fun h => ⟨hother, h⟩, fun h => h.2⟩

/-- What is an integer is a number with its value. -/
theorem number_of_integer {value : Option Json} {k : ℤ} (h : integer value = some k) :
    ∃ number : JsonNumber, value = some (.number number) ∧ number.value = some (k : ℚ) := by
  unfold integer at h
  split at h
  · rename_i number
    obtain ⟨q, hq, hinteger⟩ := Option.bind_eq_some_iff.mp h
    split at hinteger
    · rename_i hden
      obtain rfl := Option.some.inj hinteger
      exact ⟨number, rfl, hq.trans (congrArg some (Rat.coe_int_num_of_den_eq_one hden).symm)⟩
    · contradiction
  · contradiction

/-- One integer is the same to a set wherever it comes from. -/
theorem sameValue_of_integer {a b : Option Json} {k : ℤ} (ha : integer a = some k)
    (hb : integer b = some k) : sameValue a b = true := by
  obtain ⟨m, rfl, hm⟩ := number_of_integer ha
  obtain ⟨n, rfl, hn⟩ := number_of_integer hb
  exact decide_eq_true (hm.trans hn.symm)

/-- Values that are the same to a set are one integer, or none. -/
theorem integer_eq_of_sameValue {a b : Option Json} (h : sameValue a b = true) :
    integer a = integer b := by
  unfold sameValue at h
  split at h
  · rfl
  · rfl
  · rfl
  · simp only [integer, of_decide_eq_true h]
  · rfl
  · contradiction

end Foundation

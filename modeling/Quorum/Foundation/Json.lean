import Quorum.Foundation.CodeUnits
import Quorum.Foundation.Decimals

/-!
# Quoted strings

A string in a JSON text stands between quotation marks. Quotation marks, backslashes, control
characters and surrogates without their other half are escaped, so where a quoted string ends does
not depend on what follows, and the text gives the string back.
-/

namespace Foundation

/-- A digit of a hexadecimal number, in lower case. -/
def hexDigit (n : ℕ) : UInt16 := UInt16.ofNat (if n < 10 then 48 + n else 87 + n)

/-- A unit by its number, `\uXXXX`. -/
def unicodeEscape (c : UInt16) : JsString :=
  [92, 117, hexDigit (c.toNat / 4096), hexDigit (c.toNat / 256 % 16),
    hexDigit (c.toNat / 16 % 16), hexDigit (c.toNat % 16)]

/-- The units that are escaped by a letter, with the letter. -/
def shortEscapes : List (UInt16 × UInt16) :=
  [(34, 34), (92, 92), (8, 98), (12, 102), (10, 110), (13, 114), (9, 116)]

/-- The first half of a surrogate pair. -/
def isHighSurrogate (c : UInt16) : Bool := 0xd800 ≤ c && c ≤ 0xdbff

/-- The second half of a surrogate pair. -/
def isLowSurrogate (c : UInt16) : Bool := 0xdc00 ≤ c && c ≤ 0xdfff

/-- One unit of a quoted string; `paired` is true of the halves of a surrogate pair. -/
def quoteUnit (paired : Bool) (c : UInt16) : JsString :=
  match shortEscapes.lookup c with
  | some letter => [92, letter]
  | none =>
    if c < 32 ∨ ((isHighSurrogate c || isLowSurrogate c) && !paired) = true then unicodeEscape c
    else [c]

/-- The units of a quoted string, after the first half of a pair or not. -/
def quoteUnits : Bool → JsString → JsString
  | _, [] => []
  | afterHigh, c :: rest =>
    let opensPair := isHighSurrogate c && rest.head?.any isLowSurrogate
    quoteUnit ((isLowSurrogate c && afterHigh) || opensPair) c ++ quoteUnits opensPair rest

/-- `JSON.stringify` of a string. -/
def quote (text : JsString) : JsString := 34 :: (quoteUnits false text ++ [34])

/-! ## Reading it back -/

/-- Different digits are written differently. -/
theorem hexDigit_inj {m n : ℕ} (hm : m < 16) (hn : n < 16) (h : hexDigit m = hexDigit n) :
    m = n := by
  have hall : ∀ m < 16, ∀ n < 16, hexDigit m = hexDigit n → m = n := by decide
  exact hall m hm n hn h

/-- How a unit is written: as it is, by a letter, or by its number. -/
theorem quoteUnit_cases (paired : Bool) (c : UInt16) :
    (quoteUnit paired c = [c] ∧ c ≠ 34 ∧ c ≠ 92) ∨
      (∃ letter, quoteUnit paired c = [92, letter] ∧ (c, letter) ∈ shortEscapes) ∨
      quoteUnit paired c = unicodeEscape c := by
  unfold quoteUnit
  split
  · rename_i letter hletter
    obtain ⟨before, after, htable, -⟩ := List.lookup_eq_some_iff.mp hletter
    exact .inr (.inl ⟨letter, rfl, by simp [htable]⟩)
  · rename_i hnone
    split
    · exact .inr (.inr rfl)
    · refine .inl ⟨rfl, ?_, ?_⟩
      · rintro rfl
        exact absurd hnone (by decide)
      · rintro rfl
        exact absurd hnone (by decide)

/-- An escape determines its unit and what follows it. -/
theorem unicodeEscape_append_inj {c d : UInt16} {x y : JsString}
    (h : unicodeEscape c ++ x = unicodeEscape d ++ y) : c = d ∧ x = y := by
  simp only [unicodeEscape, List.cons_append, List.nil_append, List.cons.injEq, true_and] at h
  obtain ⟨h₁, h₂, h₃, h₄, hrest⟩ := h
  have hc := c.toNat_lt
  have hd := d.toNat_lt
  have h₁ := hexDigit_inj (by omega) (by omega) h₁
  have h₂ := hexDigit_inj (by omega) (by omega) h₂
  have h₃ := hexDigit_inj (by omega) (by omega) h₃
  have h₄ := hexDigit_inj (by omega) (by omega) h₄
  exact ⟨UInt16.toNat_inj.mp (by omega), hrest⟩

/-- A written unit gives the unit and what follows it back. -/
theorem quoteUnit_append_inj {paired paired' : Bool} {c d : UInt16} {x y : JsString}
    (h : quoteUnit paired c ++ x = quoteUnit paired' d ++ y) : c = d ∧ x = y := by
  have hletters : ∀ p ∈ shortEscapes, ∀ q ∈ shortEscapes, p.2 = q.2 → p.1 = q.1 := by
    simp [shortEscapes]
  have hnumber : ∀ p ∈ shortEscapes, p.2 ≠ 117 := by simp [shortEscapes]
  rcases quoteUnit_cases paired c with ⟨hc, -, hc92⟩ | ⟨letter, hc, hmem⟩ | hc <;>
    rcases quoteUnit_cases paired' d with ⟨hd, -, hd92⟩ | ⟨letter', hd, hmem'⟩ | hd <;>
    rw [hc, hd] at h
  · exact List.cons.inj h
  · exact absurd (List.cons.inj h).1 hc92
  · exact absurd (List.cons.inj h).1 hc92
  · exact absurd (List.cons.inj h).1.symm hd92
  · obtain ⟨hletter, hrest⟩ := List.cons.inj (List.cons.inj h).2
    exact ⟨hletters _ hmem _ hmem' hletter, hrest⟩
  · exact absurd (List.cons.inj (List.cons.inj h).2).1 (hnumber _ hmem)
  · exact absurd (List.cons.inj h).1.symm hd92
  · exact absurd (List.cons.inj (List.cons.inj h).2).1.symm (hnumber _ hmem')
  · exact unicodeEscape_append_inj h

/-- No written unit begins with a quotation mark. -/
theorem quoteUnit_append_ne (paired : Bool) (c : UInt16) (x y : JsString) :
    quoteUnit paired c ++ x ≠ 34 :: y := by
  intro h
  rcases quoteUnit_cases paired c with ⟨hc, hc34, -⟩ | ⟨letter, hc, -⟩ | hc <;> rw [hc] at h
  · exact hc34 (List.cons.inj h).1
  · exact absurd (List.cons.inj h).1 (by decide)
  · exact absurd (List.cons.inj h).1 (by decide)

/-- A quoted text determines itself and what follows its quote. -/
theorem quoteUnits_append_inj {afterHigh afterHigh' : Bool} {s t x y : JsString}
    (h : quoteUnits afterHigh s ++ 34 :: x = quoteUnits afterHigh' t ++ 34 :: y) :
    s = t ∧ x = y := by
  induction s generalizing t afterHigh afterHigh' with
  | nil =>
    cases t with
    | nil => exact ⟨rfl, (List.cons.inj h).2⟩
    | cons d t =>
      rw [quoteUnits, quoteUnits, List.append_assoc] at h
      exact (quoteUnit_append_ne _ _ _ _ h.symm).elim
  | cons c s ih =>
    cases t with
    | nil =>
      rw [quoteUnits, quoteUnits, List.append_assoc] at h
      exact (quoteUnit_append_ne _ _ _ _ h).elim
    | cons d t =>
      rw [quoteUnits, quoteUnits, List.append_assoc, List.append_assoc] at h
      obtain ⟨rfl, hrest⟩ := quoteUnit_append_inj h
      obtain ⟨rfl, hxy⟩ := ih hrest
      exact ⟨rfl, hxy⟩

/-- A quoted string gives the string and what follows it back. -/
theorem quote_append_inj {s t x y : JsString} (h : quote s ++ x = quote t ++ y) :
    s = t ∧ x = y := by
  simp only [quote, List.cons_append, List.append_assoc, List.nil_append, List.cons.injEq,
    true_and] at h
  exact quoteUnits_append_inj h

/-- Decimal numbers are written in digits. -/
theorem isDigitUnit_decimalUnits {n : ℕ} {c : UInt16} (h : c ∈ decimalUnits n) :
    isDigitUnit c = true := by
  obtain ⟨d, hd, rfl⟩ := List.mem_map.mp h
  have hdigit := toNat_digit (numeral_toDigits n d hd)
  have hlt := numeralValue_singleton_lt (numeral_toDigits n d hd)
  have htoNat : (UInt16.ofNat d.toNat).toNat = d.toNat := UInt16.toNat_ofNat_of_lt (by
    rw [UInt16.size]
    omega)
  rw [isDigitUnit, Bool.and_eq_true, decide_eq_true_eq, decide_eq_true_eq, UInt16.le_iff_toNat_le,
    UInt16.le_iff_toNat_le, htoNat]
  change 48 ≤ d.toNat ∧ d.toNat ≤ 57
  omega

/-- A number gives its decimal digits, and these the number back. -/
theorem decimalUnits_inj {m n : ℕ} (h : decimalUnits m = decimalUnits n) : m = n := by
  have hread : ∀ k, (decimalUnits k).map (fun c => Char.ofNat c.toNat) = Nat.toDigits 10 k := by
    intro k
    rw [decimalUnits, List.map_map]
    conv_rhs => rw [← List.map_id (Nat.toDigits 10 k)]
    apply List.map_congr_left
    intro c hc
    have hdigit := toNat_digit (numeral_toDigits k c hc)
    have hlt := numeralValue_singleton_lt (numeral_toDigits k c hc)
    have hfits : c.toNat < 65536 := by omega
    simp [Nat.mod_eq_of_lt hfits]
  rw [← numeralValue_toDigits m, ← numeralValue_toDigits n, ← hread, ← hread, h]

end Foundation

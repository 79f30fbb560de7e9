import Quorum.Foundation.Escaping
import Quorum.Foundation.Json

/-!
# Reading XML

What a reader of XML 1.0 makes of a string that is sent to it. The string is encoded first, and a
surrogate without its other half does not survive that. A document with a character that XML
excludes is not read at all. Line ends come out as line feeds. Then tags and texts are told apart,
references in texts are resolved, and the elements must be nested.

The reader here knows no comments, no sections and no document types, and takes a string with any
of these for none of its documents.
-/

namespace Foundation

/-! ## On the way to the reader -/

/-- The units of an encoded string, after the first half of a pair or not. -/
def toWellFormedFrom : Bool → JsString → JsString
  | _, [] => []
  | afterHigh, c :: rest =>
    let opensPair := isHighSurrogate c && rest.head?.any isLowSurrogate
    (if (isHighSurrogate c || isLowSurrogate c) && !(opensPair || (isLowSurrogate c && afterHigh))
      then 0xfffd else c) :: toWellFormedFrom opensPair rest

/-- A surrogate without its other half is replaced when a string is encoded. -/
def toWellFormed (text : JsString) : JsString := toWellFormedFrom false text

/-- The production `Char` of XML, where surrogates stand in pairs. -/
def isXmlUnit (c : UInt16) : Bool := c == 9 || c == 10 || c == 13 || (32 ≤ c && c ≤ 0xfffd)

/-- XML admits all characters of the text. -/
def Legible (text : JsString) : Prop := ∀ c ∈ toWellFormed text, isXmlUnit c = true

instance (text : JsString) : Decidable (Legible text) :=
  inferInstanceAs (Decidable (∀ c ∈ toWellFormed text, isXmlUnit c = true))

/-- The line ends of a text, after a carriage return or not. -/
def lineFeedsFrom : Bool → JsString → JsString
  | _, [] => []
  | afterReturn, c :: rest =>
    if c = 13 then 10 :: lineFeedsFrom true rest
    else if c = 10 ∧ afterReturn = true then lineFeedsFrom false rest
    else c :: lineFeedsFrom false rest

/-- A carriage return, with the line feed after it if there is one, counts as a line feed. -/
def lineFeeds (text : JsString) : JsString := lineFeedsFrom false text

/-- A text as it arrives at a reader. -/
def received (text : JsString) : JsString := lineFeeds (toWellFormed text)

example : received [84, 13, 10, 85, 13, 86, 0xd800] = [84, 10, 85, 10, 86, 0xfffd] := by decide

example : ¬ Legible [84, 27] := by decide

/-! ## The reader -/

/-- The predefined entities, by their names. -/
def predefinedEntities : List (JsString × UInt16) :=
  [(units "amp", 38), (units "lt", 60), (units "gt", 62), (units "quot", 34), (units "apos", 39)]

/-- The value of a digit of a character reference. -/
def digitOf (c : UInt16) : ℕ :=
  if isDigitUnit c then c.toNat - 48
  else if 65 ≤ c ∧ c ≤ 70 then c.toNat - 55
  else if 97 ≤ c ∧ c ≤ 102 then c.toNat - 87
  else 16

/-- The units of a character by its number, if XML admits it. -/
def characterUnits (n : ℕ) : Option JsString :=
  if n = 9 ∨ n = 10 ∨ n = 13 ∨ (0x20 ≤ n ∧ n ≤ 0xd7ff) ∨ (0xe000 ≤ n ∧ n ≤ 0xfffd) then
    some [UInt16.ofNat n]
  else if 0x10000 ≤ n ∧ n ≤ 0x10ffff then
    some [UInt16.ofNat (0xd800 + (n - 0x10000) / 0x400), UInt16.ofNat (0xdc00 + n % 0x400)]
  else none

/-- A character reference in the given base. -/
def characterReference (base : ℕ) (digits : JsString) : Option JsString :=
  if digits ≠ [] ∧ ∀ c ∈ digits, digitOf c < base then
    characterUnits (digits.foldl (fun n c => base * n + digitOf c) 0)
  else none

/-- What a reference stands for, by what is between `&` and `;`. -/
def referenceText (name : JsString) : Option JsString :=
  match predefinedEntities.lookup name with
  | some c => some [c]
  | none =>
    if (units "#x").isPrefixOf name then characterReference 16 (name.drop 2)
    else if (units "#").isPrefixOf name then characterReference 10 (name.drop 1)
    else none

/-- Resolves the references of a text. The first argument is what has been read of the name of a
reference. -/
def resolveReferences : Option JsString → JsString → Option JsString
  | none, [] => some []
  | some _, [] => none
  | none, c :: rest =>
    if c = 38 then resolveReferences (some []) rest
    else (resolveReferences none rest).map (c :: ·)
  | some name, c :: rest =>
    if c = 59 then
      (referenceText name).bind fun text => (resolveReferences none rest).map (text ++ ·)
    else resolveReferences (some (name ++ [c])) rest

/-- Character data, as it stands between two tags. -/
def characterData (raw : JsString) : Option JsString :=
  if units "]]>" <:+: raw then none else resolveReferences none raw

/-- A tag that the reader knows: not that of a comment, a section or a document type, and ended
outside of the values of its attributes. -/
def isTag (tag : JsString) : Bool :=
  decide (tag ≠ [] ∧ tag.head? ≠ some 33 ∧ 60 ∉ tag ∧ tag.count 34 % 2 = 0 ∧ tag.count 39 % 2 = 0)

/-- The elements that the tags open and close are nested. The first argument holds the names of
those that are open. -/
def nested : List JsString → List JsString → Bool
  | names, [] => decide (names = [])
  | names, tag :: tags =>
    if tag.head? = some 63 ∨ tag.getLast? = some 47 then nested names tags
    else if tag.head? = some 47 then
      match names with
      | [] => false
      | name :: names => decide (tag.tail = name) && nested names tags
    else nested (tag.takeWhile (· ≠ 32) :: names) tags

/-- The tags of a document, each with the text after it, if the string is a document. -/
def readXml (text : JsString) : Option (List (JsString × JsString)) :=
  if Legible text then
    (readMarkup 60 62 characterData (received text)).filter fun pieces =>
      pieces.all (fun piece => isTag piece.1) && nested [] (pieces.map Prod.fst)
  else none

/-! ## The filters -/

/-- A unit that is no surrogate separates what is before and after it. -/
theorem toWellFormedFrom_append {x : UInt16} (hx : isHighSurrogate x = false ∧ isLowSurrogate x = false)
    (afterHigh : Bool) (before after : JsString) :
    toWellFormedFrom afterHigh (before ++ x :: after) =
      toWellFormedFrom afterHigh before ++ x :: toWellFormedFrom false after := by
  induction before generalizing afterHigh with
  | nil => simp [toWellFormedFrom, hx.1, hx.2]
  | cons c before ih =>
    have hnext : (before ++ x :: after).head?.any isLowSurrogate = before.head?.any isLowSurrogate := by
      cases before with
      | nil => exact hx.2
      | cons d before => rfl
    rw [List.cons_append, toWellFormedFrom, toWellFormedFrom, hnext, ih]
    rfl

/-- The encoding of strings as a filter. -/
def wellFormedFilter : Filter UInt16 where
  apply := toWellFormed
  Firm x := isHighSurrogate x = false ∧ isLowSurrogate x = false
  apply_nil := rfl
  splits _ hx := toWellFormedFrom_append hx false

/-- A unit that is no line end separates what is before and after it. -/
theorem lineFeedsFrom_append {x : UInt16} (hx : x ≠ 13 ∧ x ≠ 10) (afterReturn : Bool)
    (before after : JsString) :
    lineFeedsFrom afterReturn (before ++ x :: after) =
      lineFeedsFrom afterReturn before ++ x :: lineFeedsFrom false after := by
  induction before generalizing afterReturn with
  | nil => simp [lineFeedsFrom, hx.1, hx.2]
  | cons c before ih =>
    simp only [List.cons_append, lineFeedsFrom, ih]
    split
    · rfl
    · split <;> rfl

/-- The translation of line ends as a filter. -/
def lineFilter : Filter UInt16 where
  apply := lineFeeds
  Firm x := x ≠ 13 ∧ x ≠ 10
  apply_nil := rfl
  splits _ hx := lineFeedsFrom_append hx false

/-- The way of a text to a reader as a filter. -/
def receivedFilter : Filter UInt16 := lineFilter.comp wellFormedFilter

/-- Encoding makes no unit but the replacement character. -/
theorem mem_toWellFormedFrom {x : UInt16} {afterHigh : Bool} {text : JsString}
    (h : x ∈ toWellFormedFrom afterHigh text) : x ∈ text ∨ x = 0xfffd := by
  induction text generalizing afterHigh with
  | nil => exact .inl h
  | cons c rest ih =>
    rw [toWellFormedFrom] at h
    rcases List.mem_cons.mp h with hfirst | hrest
    · split at hfirst
      · exact .inr hfirst
      · exact .inl (hfirst ▸ List.mem_cons_self)
    · exact (ih hrest).imp_left (List.mem_cons_of_mem c)

/-- The translation of line ends makes no unit but the line feed. -/
theorem mem_lineFeedsFrom {x : UInt16} {afterReturn : Bool} {text : JsString}
    (h : x ∈ lineFeedsFrom afterReturn text) : x ∈ text ∨ x = 10 := by
  induction text generalizing afterReturn with
  | nil => exact .inl h
  | cons c rest ih =>
    rw [lineFeedsFrom] at h
    split at h
    · rcases List.mem_cons.mp h with hfirst | hrest
      · exact .inr hfirst
      · exact (ih hrest).imp_left (List.mem_cons_of_mem c)
    · split at h
      · exact (ih h).imp_left (List.mem_cons_of_mem c)
      · rcases List.mem_cons.mp h with hfirst | hrest
        · exact .inl (hfirst ▸ List.mem_cons_self)
        · exact (ih hrest).imp_left (List.mem_cons_of_mem c)

/-- The unit is a character of XML by itself, and no line end. -/
def isOrdinaryUnit (c : UInt16) : Bool := 32 ≤ c && c ≤ 0xd7ff

/-- Ordinary units stand firm on the way to a reader. -/
theorem firm_of_ordinary {c : UInt16} (h : isOrdinaryUnit c = true) : receivedFilter.Firm c := by
  simp only [isOrdinaryUnit, Bool.and_eq_true, decide_eq_true_eq, UInt16.le_iff_toNat_le] at h
  obtain ⟨hlow, hhigh⟩ := h
  change 32 ≤ c.toNat at hlow
  change c.toNat ≤ 0xd7ff at hhigh
  have hne : ∀ d : UInt16, d.toNat < 32 → c ≠ d := by
    rintro d hd rfl
    omega
  refine ⟨⟨?_, ?_⟩, hne 13 (by decide), hne 10 (by decide)⟩
  · simp only [isHighSurrogate, Bool.and_eq_false_iff, decide_eq_false_iff_not,
      UInt16.le_iff_toNat_le]
    left
    change ¬ 0xd800 ≤ c.toNat
    omega
  · simp only [isLowSurrogate, Bool.and_eq_false_iff, decide_eq_false_iff_not,
      UInt16.le_iff_toNat_le]
    left
    change ¬ 0xdc00 ≤ c.toNat
    omega

/-- A text of ordinary units arrives as it is. -/
theorem received_ordinary {text : JsString} (h : ∀ c ∈ text, isOrdinaryUnit c = true) :
    received text = text :=
  receivedFilter.apply_firm fun c hc => firm_of_ordinary (h c hc)

/-- A text of ordinary units can be read. -/
theorem legible_ordinary {text : JsString} (h : ∀ c ∈ text, isOrdinaryUnit c = true) :
    Legible text := by
  have hself : toWellFormed text = text :=
    wellFormedFilter.apply_firm fun c hc => (firm_of_ordinary (h c hc)).1
  intro c hc
  have hunit := h c (hself ▸ hc)
  simp only [isOrdinaryUnit, Bool.and_eq_true, decide_eq_true_eq, UInt16.le_iff_toNat_le] at hunit
  simp only [isXmlUnit, Bool.or_eq_true, Bool.and_eq_true, decide_eq_true_eq,
    UInt16.le_iff_toNat_le]
  exact .inr ⟨hunit.1, hunit.2.trans (by decide)⟩

/-! ## Reading what was escaped -/

/-- The name of a reference is read up to its end. -/
theorem resolveReferences_name {name : JsString} (h : 59 ∉ name) (begun rest : JsString) :
    resolveReferences (some begun) (name ++ 59 :: rest) =
      (referenceText (begun ++ name)).bind fun text =>
        (resolveReferences none rest).map (text ++ ·) := by
  induction name generalizing begun with
  | nil => rw [List.nil_append, resolveReferences, if_pos rfl, List.append_nil]
  | cons c name ih =>
    have hc : c ≠ 59 := by
      rintro rfl
      exact h List.mem_cons_self
    rw [List.cons_append, resolveReferences, if_neg hc,
      ih (fun hmem => h (List.mem_cons_of_mem c hmem)), List.append_assoc, List.singleton_append]

/-- A scheme that escapes by references to the predefined entities what must not stand in
character data. -/
structure XmlScheme extends MarkupScheme UInt16 where
  left_eq : left = 60
  right_eq : right = 62
  ampersand : Special rules 38
  closes : Special rules 62
  entities : ∀ rule ∈ rules, ∃ entity ∈ predefinedEntities,
    rule = ⟨entity.2, 38 :: (entity.1 ++ [59])⟩

namespace XmlScheme

variable {scheme : XmlScheme}

/-- What a scheme may escape, and what it writes for it: the five predefined entities. -/
theorem rule_cases {P : EscapeRule UInt16 → Prop}
    (h : ∀ entity ∈ predefinedEntities, P ⟨entity.2, 38 :: (entity.1 ++ [59])⟩)
    (rule : EscapeRule UInt16) (hrule : rule ∈ scheme.rules) : P rule := by
  obtain ⟨entity, hentity, rfl⟩ := scheme.entities rule hrule
  exact h entity hentity

/-- What is written for a unit is read as this unit. -/
theorem resolveReferences_written (x : UInt16) (rest : JsString) :
    resolveReferences none (written scheme.rules x ++ rest) =
      (resolveReferences none rest).map (x :: ·) := by
  by_cases hx : Special scheme.rules x
  · obtain ⟨rule, hrule, rfl, hwritten⟩ := exists_written hx
    rw [hwritten]
    refine scheme.rule_cases (P := fun rule => resolveReferences none (rule.text ++ rest) =
      (resolveReferences none rest).map (rule.symbol :: ·)) ?_ rule hrule
    intro entity hentity
    have hname : ∀ entity ∈ predefinedEntities,
        59 ∉ entity.1 ∧ referenceText entity.1 = some [entity.2] := by decide +kernel
    obtain ⟨hends, hreference⟩ := hname entity hentity
    rw [List.cons_append, resolveReferences, if_pos rfl, List.append_assoc, List.singleton_append,
      resolveReferences_name hends, List.nil_append, hreference]
    rfl
  · have hne : x ≠ 38 := by
      rintro rfl
      exact hx scheme.ampersand
    rw [written_of_not_special hx, List.singleton_append, resolveReferences, if_neg hne]

/-- An escaped text is read as the text. -/
theorem characterData_escape (text : JsString) :
    characterData (scheme.escape text) = some text := by
  have hcloses : ∀ rule ∈ scheme.rules, (62 : UInt16) ∉ rule.text :=
    scheme.rule_cases (P := fun rule => (62 : UInt16) ∉ rule.text) (by decide +kernel)
  have habsent := notMem_replaceEach scheme.layered scheme.closes hcloses text
  have hsection : ¬ units "]]>" <:+: scheme.escape text := fun hwithin =>
    habsent (hwithin.subset (by decide))
  rw [characterData, if_neg hsection]
  exact decode_replaceEach scheme.layered (show resolveReferences none [] = some [] from rfl)
    resolveReferences_written text

/-- The encoding of strings passes what is escaped. -/
theorem passes_wellFormed (scheme : XmlScheme) : scheme.Passes wellFormedFilter where
  right := by
    rw [scheme.right_eq]
    exact ⟨rfl, rfl⟩
  symbol := scheme.rule_cases (P := fun rule => wellFormedFilter.Firm rule.symbol)
    (by simp only [wellFormedFilter]; decide +kernel)
  text := scheme.rule_cases (P := fun rule => rule.text ≠ [] ∧
    ∀ x ∈ rule.text, wellFormedFilter.Firm x) (by simp only [wellFormedFilter]; decide +kernel)
  makes text x hx := by
    refine (mem_toWellFormedFrom hx).imp_right ?_
    rintro rfl ⟨rule, hrule, heq⟩
    exact scheme.rule_cases (P := fun rule => (0xfffd : UInt16) ≠ rule.symbol) (by decide +kernel)
      rule hrule heq

/-- The way to a reader passes what is escaped. -/
theorem passes_received (scheme : XmlScheme) : scheme.Passes receivedFilter where
  right := by
    rw [scheme.right_eq]
    exact ⟨⟨rfl, rfl⟩, by decide, by decide⟩
  symbol := scheme.rule_cases (P := fun rule => receivedFilter.Firm rule.symbol)
    (by simp only [receivedFilter, Filter.comp, wellFormedFilter, lineFilter]; decide +kernel)
  text := scheme.rule_cases (P := fun rule => rule.text ≠ [] ∧
    ∀ x ∈ rule.text, receivedFilter.Firm x)
    (by simp only [receivedFilter, Filter.comp, wellFormedFilter, lineFilter]; decide +kernel)
  makes text x hx := by
    have hmakes : x ∈ text ∨ x = 0xfffd ∨ x = 10 := by
      rcases mem_lineFeedsFrom hx with hx | rfl
      · exact (mem_toWellFormedFrom hx).imp_right .inl
      · exact .inr (.inr rfl)
    refine hmakes.imp_right ?_
    rintro hx ⟨rule, hrule, rfl⟩
    exact scheme.rule_cases (P := fun rule => ¬ (rule.symbol = 0xfffd ∨ rule.symbol = 10))
      (by decide +kernel) rule hrule hx

/-- A document has only characters of XML exactly if its tags and texts have. -/
theorem legible_renderPieces (scheme : XmlScheme) (pieces : List (JsString × JsString)) :
    Legible (scheme.renderPieces pieces) ↔
      ∀ piece ∈ pieces, Legible piece.1 ∧ Legible piece.2 := by
  have hencoded : toWellFormed (scheme.renderPieces pieces) =
      scheme.renderPieces (pieces.map (Prod.map toWellFormed toWellFormed)) :=
    scheme.passes_wellFormed.apply_renderPieces pieces
  have hleft : isXmlUnit scheme.left = true := by
    rw [scheme.left_eq]
    rfl
  have hright : isXmlUnit scheme.right = true := by
    rw [scheme.right_eq]
    rfl
  rw [Legible, hencoded, MarkupScheme.forall_mem_renderPieces hleft hright
    (scheme.rule_cases (P := fun rule => isXmlUnit rule.symbol = true ∧
      ∀ x ∈ rule.text, isXmlUnit x = true) (by decide +kernel)), List.forall_mem_map]
  rfl

/-- What a reader makes of a document whose tags are plain and nested: nothing if one of its texts
has a character that XML excludes, and else the document with its texts as they arrive. -/
theorem readXml_renderPieces (scheme : XmlScheme) {pieces : List (JsString × JsString)}
    (htags : ∀ tag ∈ pieces.map Prod.fst,
      Legible tag ∧ received tag = tag ∧ isTag tag = true ∧ 62 ∉ tag)
    (hnested : nested [] (pieces.map Prod.fst) = true) :
    readXml (scheme.renderPieces pieces) =
      if ∀ piece ∈ pieces, Legible piece.2 then some (pieces.map (Prod.map id received))
      else none := by
  have htag : ∀ piece ∈ pieces, Legible piece.1 ∧ received piece.1 = piece.1 ∧
      isTag piece.1 = true ∧ 62 ∉ piece.1 := fun piece hpiece =>
    htags piece.1 (List.mem_map_of_mem hpiece)
  have hlegible : Legible (scheme.renderPieces pieces) ↔ ∀ piece ∈ pieces, Legible piece.2 := by
    rw [scheme.legible_renderPieces]
    exact forall₂_congr fun piece hpiece => and_iff_right (htag piece hpiece).1
  have harrives : received (scheme.renderPieces pieces) =
      scheme.renderPieces (pieces.map (Prod.map id received)) := by
    refine (scheme.passes_received.apply_renderPieces pieces).trans ?_
    congr 1
    refine List.map_congr_left fun piece hpiece => Prod.ext (htag piece hpiece).2.1 rfl
  have hnames : (pieces.map (Prod.map id received)).map Prod.fst = pieces.map Prod.fst := by
    rw [List.map_map]
    rfl
  have hread : readMarkup 60 62 characterData (scheme.renderPieces (pieces.map (Prod.map id received))) =
      some (pieces.map (Prod.map id received)) := by
    have hclosed : ∀ piece ∈ pieces.map (Prod.map id received), scheme.right ∉ piece.1 := by
      rw [scheme.right_eq, List.forall_mem_map]
      exact fun piece hpiece => (htag piece hpiece).2.2.2
    have hwhole := MarkupScheme.readMarkup_renderPieces scheme.characterData_escape hclosed
    rwa [scheme.left_eq, scheme.right_eq] at hwhole
  have hknown : (pieces.map (Prod.map id received)).all (fun piece => isTag piece.1) = true := by
    rw [List.all_eq_true, List.forall_mem_map]
    exact fun piece hpiece => (htag piece hpiece).2.2.1
  by_cases hall : ∀ piece ∈ pieces, Legible piece.2
  · rw [readXml, if_pos (hlegible.mpr hall), if_pos hall, harrives, hread, Option.filter_some,
      hknown, hnames, hnested]
    rfl
  · rw [readXml, if_neg fun h => hall (hlegible.mp h), if_neg hall]

end XmlScheme

end Foundation

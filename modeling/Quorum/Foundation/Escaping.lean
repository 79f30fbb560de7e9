import Mathlib.Data.List.Infix
import Mathlib.Data.List.Pairwise
import Mathlib.Data.List.TakeWhile
import Mathlib.Tactic.Common

/-!
# Escaping and markup

A text is put into a document by replacing some symbols by texts that stand for them, one symbol
after the other. If no replacement touches what an earlier one has written, this is the same as
replacing all of them at once. A reader that takes each of these texts for its symbol then finds
the text again, and a document of tags and texts is read back as it was written, whatever its texts
are, if the symbol that opens a tag is one of those that are replaced.

On its way to the reader a document may pass a filter. A filter that leaves some symbols where they
are, and treats what comes before and after each of them apart, passes the tags and the texts of a
document each by itself.
-/

namespace Foundation

/-! ## Replacing -/

/-- A symbol and the text that stands for it. -/
structure EscapeRule (α : Type) where
  symbol : α
  text : List α
  deriving DecidableEq

variable {α : Type} [DecidableEq α]

/-- Replaces every occurrence of the symbol. -/
def EscapeRule.replace (rule : EscapeRule α) (text : List α) : List α :=
  text.flatMap fun x => if x = rule.symbol then rule.text else [x]

/-- Applies one rule after the other. -/
def replaceEach (rules : List (EscapeRule α)) (text : List α) : List α :=
  rules.foldl (fun text rule => rule.replace text) text

/-- What is written for a symbol. -/
def written (rules : List (EscapeRule α)) (x : α) : List α :=
  match rules.find? fun rule => x = rule.symbol with
  | some rule => rule.text
  | none => [x]

/-- A symbol is special if there is a rule for it. -/
def Special (rules : List (EscapeRule α)) (x : α) : Prop := ∃ rule ∈ rules, x = rule.symbol

instance (rules : List (EscapeRule α)) (x : α) : Decidable (Special rules x) :=
  inferInstanceAs (Decidable (∃ rule ∈ rules, x = rule.symbol))

/-- What is not special is written as it is. -/
theorem written_of_not_special {rules : List (EscapeRule α)} {x : α} (h : ¬ Special rules x) :
    written rules x = [x] := by
  rw [written, List.find?_eq_none.mpr fun rule hrule heq =>
    h ⟨rule, hrule, of_decide_eq_true heq⟩]

/-- A special symbol is replaced by the text of one of the rules. -/
theorem exists_written {rules : List (EscapeRule α)} {x : α} (h : Special rules x) :
    ∃ rule ∈ rules, x = rule.symbol ∧ written rules x = rule.text := by
  obtain ⟨rule, hfind⟩ : ∃ rule, rules.find? (fun rule => decide (x = rule.symbol)) = some rule :=
    Option.isSome_iff_exists.mp (List.find?_isSome.mpr
      (h.imp fun rule h => ⟨h.1, decide_eq_true h.2⟩))
  exact ⟨rule, List.mem_of_find?_eq_some hfind, by simpa using List.find?_some hfind,
    by rw [written, hfind]⟩

/-- A rule for another symbol does not change how a symbol is written. -/
theorem written_cons_of_ne {rules : List (EscapeRule α)} {rule : EscapeRule α} {x : α}
    (h : x ≠ rule.symbol) : written (rule :: rules) x = written rules x := by
  rw [written, List.find?_cons_of_neg (by simpa using h), written]

/-- A symbol is written by the first rule for it. -/
theorem written_cons_self (rules : List (EscapeRule α)) (rule : EscapeRule α) :
    written (rule :: rules) rule.symbol = rule.text := by
  rw [written, List.find?_cons_of_pos (by simp)]

/-- A text without special symbols is left as it is. -/
theorem flatMap_written_of_not_special {rules : List (EscapeRule α)} {text : List α}
    (h : ∀ x ∈ text, ¬ Special rules x) : text.flatMap (written rules) = text := by
  induction text with
  | nil => rfl
  | cons x text ih =>
    rw [List.flatMap_cons, written_of_not_special (h x List.mem_cons_self),
      ih fun y hy => h y (List.mem_cons_of_mem x hy)]
    rfl

/-- Rules that leave alone what the earlier ones have written replace all symbols at once. -/
theorem replaceEach_eq {rules : List (EscapeRule α)}
    (h : rules.Pairwise fun first later => later.symbol ∉ first.text) (text : List α) :
    replaceEach rules text = text.flatMap (written rules) := by
  induction rules generalizing text with
  | nil => exact (flatMap_written_of_not_special fun _ _ ⟨_, hrule, _⟩ => by contradiction).symm
  | cons rule rules ih =>
    obtain ⟨hrule, hrules⟩ := List.pairwise_cons.mp h
    have hkept : rule.text.flatMap (written rules) = rule.text :=
      flatMap_written_of_not_special fun x hx ⟨later, hlater, heq⟩ =>
        hrule later hlater (heq ▸ hx)
    have hstep : ∀ x, (if x = rule.symbol then rule.text else [x]).flatMap (written rules) =
        written (rule :: rules) x := by
      intro x
      by_cases hx : x = rule.symbol
      · rw [if_pos hx, hkept, hx, written_cons_self]
      · rw [if_neg hx, List.flatMap_singleton, written_cons_of_ne hx]
    calc replaceEach (rule :: rules) text = replaceEach rules (rule.replace text) := rfl
      _ = (rule.replace text).flatMap (written rules) := ih hrules _
      _ = text.flatMap fun x =>
          (if x = rule.symbol then rule.text else [x]).flatMap (written rules) :=
          List.flatMap_assoc
      _ = text.flatMap (written (rule :: rules)) := by rw [funext hstep]

/-- A decoder that takes what is written for a symbol for this symbol finds the text again. -/
theorem decode_replaceEach {rules : List (EscapeRule α)}
    (h : rules.Pairwise fun first later => later.symbol ∉ first.text)
    {decode : List α → Option (List α)} (hnil : decode [] = some [])
    (hwritten : ∀ x rest, decode (written rules x ++ rest) = (decode rest).map (x :: ·))
    (text : List α) : decode (replaceEach rules text) = some text := by
  rw [replaceEach_eq h]
  induction text with
  | nil => exact hnil
  | cons x text ih => rw [List.flatMap_cons, hwritten, ih, Option.map_some]

/-- A symbol that is replaced, and that nothing is replaced by, does not occur any more. -/
theorem notMem_replaceEach {rules : List (EscapeRule α)}
    (h : rules.Pairwise fun first later => later.symbol ∉ first.text) {x : α}
    (hx : Special rules x) (htexts : ∀ rule ∈ rules, x ∉ rule.text) (text : List α) :
    x ∉ replaceEach rules text := by
  rw [replaceEach_eq h, List.mem_flatMap]
  rintro ⟨y, -, hy⟩
  by_cases hspecial : Special rules y
  · obtain ⟨rule, hrule, -, hwritten⟩ := exists_written hspecial
    exact htexts rule hrule (hwritten ▸ hy)
  · rw [written_of_not_special hspecial, List.mem_singleton] at hy
    exact hspecial (hy ▸ hx)

/-! ## Markup -/

/-- Rules for the texts of a document, and the symbols that enclose its tags. -/
structure MarkupScheme (α : Type) [DecidableEq α] where
  rules : List (EscapeRule α)
  layered : rules.Pairwise fun first later => later.symbol ∉ first.text
  left : α
  right : α
  opens : Special rules left ∧ ∀ rule ∈ rules, left ∉ rule.text

namespace MarkupScheme

variable {scheme : MarkupScheme α} {text : List α}

/-- Escapes all special symbols of a text. -/
def escape (scheme : MarkupScheme α) (text : List α) : List α := replaceEach scheme.rules text

/-- A text is escaped symbol by symbol. -/
theorem escape_eq (scheme : MarkupScheme α) (text : List α) :
    scheme.escape text = text.flatMap (written scheme.rules) := replaceEach_eq scheme.layered text

/-- An empty text has nothing to escape. -/
theorem escape_nil (scheme : MarkupScheme α) : scheme.escape [] = [] := scheme.escape_eq []

/-- Two texts in a row are escaped one after the other. -/
theorem escape_append (scheme : MarkupScheme α) (xs ys : List α) :
    scheme.escape (xs ++ ys) = scheme.escape xs ++ scheme.escape ys := by
  rw [escape_eq, escape_eq, escape_eq, List.flatMap_append]

/-- The first symbol is written, and the rest is escaped. -/
theorem escape_cons (scheme : MarkupScheme α) (x : α) (text : List α) :
    scheme.escape (x :: text) = written scheme.rules x ++ scheme.escape text := by
  rw [escape_eq, List.flatMap_cons, escape_eq]

/-- A text without special symbols is its own escape. -/
theorem escape_of_not_special (h : ∀ x ∈ text, ¬ Special scheme.rules x) :
    scheme.escape text = text := by
  rw [escape_eq, flatMap_written_of_not_special h]

/-- Writes tags and the texts after them. -/
def renderPieces (scheme : MarkupScheme α) : List (List α × List α) → List α
  | [] => []
  | (tag, text) :: pieces =>
    scheme.left :: (tag ++ scheme.right :: (scheme.escape text ++ scheme.renderPieces pieces))

end MarkupScheme

/-- Reads at most so many tags and the texts after them, by a decoder for the texts. -/
def readPieces (left right : α) (decode : List α → Option (List α)) :
    ℕ → List α → Option (List (List α × List α))
  | _, [] => some []
  | 0, _ :: _ => none
  | fuel + 1, x :: input =>
    if x = left then
      match input.dropWhile (· ≠ right) with
      | [] => none
      | _ :: following => do
        let text ← decode (following.takeWhile (· ≠ left))
        let pieces ← readPieces left right decode fuel (following.dropWhile (· ≠ left))
        some ((input.takeWhile (· ≠ right), text) :: pieces)
    else none

/-- Reads a document, if the input is one. -/
def readMarkup (left right : α) (decode : List α → Option (List α)) (input : List α) :
    Option (List (List α × List α)) :=
  readPieces left right decode input.length input

/-- Up to the first occurrence of a symbol, and from there on. -/
theorem span_append {x : α} {before : List α} (h : x ∉ before) (after : List α) :
    (before ++ x :: after).takeWhile (· ≠ x) = before ∧
      (before ++ x :: after).dropWhile (· ≠ x) = x :: after := by
  have hbefore : ∀ y ∈ before, decide (y ≠ x) = true := fun y hy =>
    decide_eq_true (ne_of_mem_of_not_mem hy h)
  constructor
  · rw [List.takeWhile_append_of_pos hbefore]
    simp
  · rw [List.dropWhile_append_of_pos hbefore]
    simp

namespace MarkupScheme

variable {scheme : MarkupScheme α} {text : List α} {pieces : List (List α × List α)}

/-- An escaped text ends where the next tag begins. -/
theorem span_renderPieces (scheme : MarkupScheme α) (text : List α)
    (pieces : List (List α × List α)) :
    (scheme.escape text ++ scheme.renderPieces pieces).takeWhile (· ≠ scheme.left) =
        scheme.escape text ∧
      (scheme.escape text ++ scheme.renderPieces pieces).dropWhile (· ≠ scheme.left) =
        scheme.renderPieces pieces := by
  have hleft := notMem_replaceEach scheme.layered scheme.opens.1 scheme.opens.2 text
  cases pieces with
  | nil =>
    have hkeeps : ∀ y ∈ scheme.escape text, decide (y ≠ scheme.left) = true := fun y hy =>
      decide_eq_true (ne_of_mem_of_not_mem hy hleft)
    rw [renderPieces, List.append_nil, List.takeWhile_eq_self_iff.mpr hkeeps]
    exact ⟨rfl, List.dropWhile_eq_nil_iff.mpr hkeeps⟩
  | cons piece pieces => exact span_append hleft _

/-- A document is no shorter than its number of pieces. -/
theorem length_le_renderPieces (scheme : MarkupScheme α) (pieces : List (List α × List α)) :
    pieces.length ≤ (scheme.renderPieces pieces).length := by
  induction pieces with
  | nil => exact le_rfl
  | cons piece pieces ih =>
    simp only [renderPieces, List.length_cons, List.length_append]
    omega

/-- The pieces are read one after the other: the induction is on the pieces. -/
theorem readPieces_renderPieces {decode : List α → Option (List α)}
    (hdecode : ∀ text, decode (scheme.escape text) = some text) (fuel : ℕ)
    (htags : ∀ piece ∈ pieces, scheme.right ∉ piece.1) (hfuel : pieces.length ≤ fuel) :
    readPieces scheme.left scheme.right decode fuel (scheme.renderPieces pieces) = some pieces := by
  induction pieces generalizing fuel with
  | nil => cases fuel <;> rfl
  | cons piece pieces ih =>
    obtain ⟨fuel, rfl⟩ := Nat.exists_eq_succ_of_ne_zero (show fuel ≠ 0 by rintro rfl; contradiction)
    rw [List.length_cons, Nat.succ_le_succ_iff] at hfuel
    have hrest := ih fuel (fun piece' hpiece' => htags piece' (List.mem_cons_of_mem _ hpiece')) hfuel
    obtain ⟨htag, hafter⟩ := span_append (htags piece List.mem_cons_self)
      (scheme.escape piece.2 ++ scheme.renderPieces pieces)
    obtain ⟨htext, hnext⟩ := scheme.span_renderPieces piece.2 pieces
    rw [renderPieces, readPieces, if_pos rfl, hafter]
    simp only [htag, htext, hnext, hdecode, hrest]
    rfl

/-- A document is read back as it was written, by every decoder that finds the escaped texts
again, if no tag holds the symbol that closes it. -/
theorem readMarkup_renderPieces {decode : List α → Option (List α)}
    (hdecode : ∀ text, decode (scheme.escape text) = some text)
    (htags : ∀ piece ∈ pieces, scheme.right ∉ piece.1) :
    readMarkup scheme.left scheme.right decode (scheme.renderPieces pieces) = some pieces :=
  readPieces_renderPieces hdecode _ htags (scheme.length_le_renderPieces pieces)

/-! ## What a document consists of -/

/-- What holds of all symbols of the escaped text holds of all symbols of the text. -/
theorem forall_mem_escape {P : α → Prop}
    (hrules : ∀ rule ∈ scheme.rules, P rule.symbol ∧ ∀ x ∈ rule.text, P x) (text : List α) :
    (∀ x ∈ scheme.escape text, P x) ↔ ∀ x ∈ text, P x := by
  induction text with
  | nil => rw [escape_nil]
  | cons x text ih =>
    rw [escape_cons, List.forall_mem_append, List.forall_mem_cons, ih]
    refine and_congr_left fun _ => ?_
    by_cases hx : Special scheme.rules x
    · obtain ⟨rule, hrule, rfl, hwritten⟩ := exists_written hx
      rw [hwritten]
      exact iff_of_true (hrules rule hrule).2 (hrules rule hrule).1
    · rw [written_of_not_special hx, List.forall_mem_singleton]

/-- What holds of all symbols of a document holds of all symbols of its tags and texts. -/
theorem forall_mem_renderPieces {P : α → Prop} (hleft : P scheme.left) (hright : P scheme.right)
    (hrules : ∀ rule ∈ scheme.rules, P rule.symbol ∧ ∀ x ∈ rule.text, P x)
    (pieces : List (List α × List α)) :
    (∀ x ∈ scheme.renderPieces pieces, P x) ↔
      ∀ piece ∈ pieces, (∀ x ∈ piece.1, P x) ∧ ∀ x ∈ piece.2, P x := by
  induction pieces with
  | nil => exact iff_of_true (fun _ h => by contradiction) fun _ h => by contradiction
  | cons piece pieces ih =>
    rw [renderPieces, List.forall_mem_cons, List.forall_mem_append, List.forall_mem_cons,
      List.forall_mem_append, forall_mem_escape hrules, ih, List.forall_mem_cons, and_assoc]
    exact and_iff_right hleft |>.trans (and_congr_right fun _ => and_iff_right hright)

end MarkupScheme

/-! ## Filters -/

omit [DecidableEq α] in
/-- A function on texts that leaves the firm symbols where they are, and treats apart what comes
before and after each of them. -/
structure Filter (α : Type) where
  apply : List α → List α
  Firm : α → Prop
  apply_nil : apply [] = []
  splits : ∀ x, Firm x → ∀ before after, apply (before ++ x :: after) = apply before ++ x :: apply after

namespace Filter

variable {f g : Filter α}

/-- One filter after the other. -/
def comp (g f : Filter α) : Filter α where
  apply text := g.apply (f.apply text)
  Firm x := f.Firm x ∧ g.Firm x
  apply_nil := by rw [f.apply_nil, g.apply_nil]
  splits x hx before after := by rw [f.splits x hx.1, g.splits x hx.2]

omit [DecidableEq α] in
/-- A word of firm symbols stays where it is. -/
theorem apply_word {word : List α} (hword : ∀ x ∈ word, f.Firm x) (hne : word ≠ [])
    (before after : List α) :
    f.apply (before ++ (word ++ after)) = f.apply before ++ (word ++ f.apply after) := by
  induction word generalizing before with
  | nil => contradiction
  | cons x word ih =>
    rw [List.cons_append, f.splits x (hword x List.mem_cons_self)]
    rcases eq_or_ne word [] with rfl | hrest
    · rfl
    · have hnext := ih (fun y hy => hword y (List.mem_cons_of_mem x hy)) hrest []
      rw [List.nil_append, f.apply_nil, List.nil_append] at hnext
      rw [hnext, List.cons_append]

omit [DecidableEq α] in
/-- A text of firm symbols is left as it is. -/
theorem apply_firm {text : List α} (h : ∀ x ∈ text, f.Firm x) : f.apply text = text := by
  rcases eq_or_ne text [] with rfl | hne
  · exact f.apply_nil
  · have hself := f.apply_word h hne [] []
    rwa [List.nil_append, List.append_nil, f.apply_nil, List.nil_append, List.append_nil] at hself

end Filter

namespace MarkupScheme

variable {scheme : MarkupScheme α} {f : Filter α}

/-- The filter leaves what the rules are about, and makes no special symbols. -/
structure Passes (scheme : MarkupScheme α) (f : Filter α) : Prop where
  right : f.Firm scheme.right
  symbol : ∀ rule ∈ scheme.rules, f.Firm rule.symbol
  text : ∀ rule ∈ scheme.rules, rule.text ≠ [] ∧ ∀ x ∈ rule.text, f.Firm x
  makes : ∀ text, ∀ x ∈ f.apply text, x ∈ text ∨ ¬ Special scheme.rules x

/-- The left bracket stands firm in a filter that passes. -/
theorem Passes.left (h : scheme.Passes f) : f.Firm scheme.left := by
  obtain ⟨rule, hrule, heq⟩ := scheme.opens.1
  rw [heq]
  exact h.symbol rule hrule

/-- An escaped text is filtered as the text: the induction is on what follows a beginning without
special symbols. -/
theorem Passes.apply_append_escape (h : scheme.Passes f) {plain : List α}
    (hplain : ∀ x ∈ plain, ¬ Special scheme.rules x) (text : List α) :
    f.apply (plain ++ scheme.escape text) = scheme.escape (f.apply (plain ++ text)) := by
  have hkept : ∀ {begun : List α}, (∀ x ∈ begun, ¬ Special scheme.rules x) →
      scheme.escape (f.apply begun) = f.apply begun := fun hbegun =>
    escape_of_not_special fun x hx => (h.makes _ x hx).elim (hbegun x) fun hx => hx
  induction text generalizing plain with
  | nil => rw [escape_nil, List.append_nil, hkept hplain]
  | cons x text ih =>
    by_cases hx : Special scheme.rules x
    · obtain ⟨rule, hrule, rfl, hwritten⟩ := exists_written hx
      have hrest : f.apply ([] ++ scheme.escape text) = scheme.escape (f.apply ([] ++ text)) :=
        ih fun _ hy => by contradiction
      rw [List.nil_append, List.nil_append] at hrest
      rw [escape_cons, hwritten, f.apply_word (h.text rule hrule).2 (h.text rule hrule).1,
        f.splits _ (h.symbol rule hrule), escape_append, hkept hplain, hrest, escape_cons, hwritten]
    · have hlonger : ∀ y ∈ plain ++ [x], ¬ Special scheme.rules y := by
        intro y hy
        rcases List.mem_append.mp hy with hy | hy
        · exact hplain y hy
        · exact List.mem_singleton.mp hy ▸ hx
      have hrest := ih hlonger
      rw [List.append_assoc, List.append_assoc] at hrest
      rw [escape_cons, written_of_not_special hx]
      exact hrest

/-- An escaped text is filtered as the text. -/
theorem Passes.apply_escape (h : scheme.Passes f) (text : List α) :
    f.apply (scheme.escape text) = scheme.escape (f.apply text) := by
  have hnone : ∀ x ∈ ([] : List α), ¬ Special scheme.rules x := fun _ hx => by contradiction
  exact h.apply_append_escape hnone text

/-- The tags and the texts of a document are filtered each by itself. -/
theorem Passes.apply_renderPieces (h : scheme.Passes f) (pieces : List (List α × List α)) :
    f.apply (scheme.renderPieces pieces) =
      scheme.renderPieces (pieces.map (Prod.map f.apply f.apply)) := by
  have hopens : ∀ before after : List α, f.apply (before ++ scheme.left :: after) =
      f.apply before ++ scheme.left :: f.apply after := f.splits _ h.left
  have hfirst : ∀ text pieces, f.apply (text ++ scheme.renderPieces pieces) =
      f.apply text ++ f.apply (scheme.renderPieces pieces) := by
    intro text pieces
    cases pieces with
    | nil => rw [renderPieces, List.append_nil, f.apply_nil, List.append_nil]
    | cons piece pieces =>
      have hself := hopens [] (piece.1 ++ scheme.right ::
        (scheme.escape piece.2 ++ scheme.renderPieces pieces))
      rw [List.nil_append, f.apply_nil, List.nil_append] at hself
      rw [renderPieces, hopens, hself]
  induction pieces with
  | nil => exact f.apply_nil
  | cons piece pieces ih =>
    have hself := hopens [] (piece.1 ++ scheme.right ::
      (scheme.escape piece.2 ++ scheme.renderPieces pieces))
    rw [List.nil_append, f.apply_nil, List.nil_append] at hself
    rw [renderPieces, hself, f.splits _ h.right, hfirst, h.apply_escape, ih]
    rfl

end MarkupScheme

end Foundation

import Quorum.Frontend.Strkey

/-!
# Typing errors in contract IDs

The bits in which two accepted texts differ satisfy the parity relation of the checksum. A
mistyped character changes five bits in a row, and two exchanged characters change ten. Within the
hash that is an error the checksum notices, and within the checksum it changes the checksum only.
The character that holds the end of the hash and the beginning of the checksum is the remaining
case: the checksum is stored with its bytes exchanged, so there the changed bits are no error in a
row.
-/

namespace Quorum.Frontend

open Foundation Polynomial

/-- The two bytes of a checksum in the other order. -/
def swapped (bits : List Bool) : List Bool := bits.drop 8 ++ bits.take 8

/-- The parity relation between the bits of the payload and those behind them. -/
def Parity (bits : List Bool) : Prop :=
  wordBits (crc xmodem (bits.take 264)) = swapped (bits.drop 264)

instance (bits : List Bool) : Decidable (Parity bits) := inferInstanceAs (Decidable (_ = _))

/-- A checksum is written low byte first. -/
theorem wordBits_littleEndian (c : BitVec 16) : wordBits c = swapped (byteBits (littleEndian c)) := by
  have hlow : wordBits (c.setWidth 8) = lowBits 8 c :=
    lowBits_eq_iff.mpr fun i hi => by simp [hi]
  have hhigh : wordBits ((c >>> 8).setWidth 8) = lowBits 8 (c >>> 8) :=
    lowBits_eq_iff.mpr fun i hi => by simp [hi]
  have hbytes : byteBits (littleEndian c) = lowBits 8 c ++ lowBits 8 (c >>> 8) := by
    simp [byteBits, littleEndian, hlow, hhigh]
  rw [hbytes, swapped, List.drop_left' (length_lowBits 8 c), List.take_left' (length_lowBits 8 c),
    ← lowBits_add]
  rfl

/-- The bits of an accepted text satisfy the relation. -/
theorem parity_of_valid {value : JsString} (h : isValidContractId value = true) :
    Parity (textBits value) := by
  obtain ⟨-, -, hash, hhash, hbits⟩ := (isValidContractId_iff value).mp h
  have hlength : (byteBits (contractPayload hash)).length = 264 := by
    rw [length_byteBits, contractPayload, List.length_cons, hhash]
  have hsplit : textBits value =
      byteBits (contractPayload hash) ++ byteBits (littleEndian (checksum (contractPayload hash))) := by
    rw [hbits, strkeyBytes, byteBits, List.flatMap_append]
    rfl
  rw [Parity, hsplit, List.take_left' hlength, List.drop_left' hlength, ← wordBits_littleEndian]
  rfl

/-- The beginning of a combination is that of both, combined. -/
theorem take_xorBits (n : ℕ) (xs ys : List Bool) :
    (xorBits xs ys).take n = xorBits (xs.take n) (ys.take n) := List.take_zipWith

/-- The rest of a combination is that of both, combined. -/
theorem drop_xorBits (n : ℕ) (xs ys : List Bool) :
    (xorBits xs ys).drop n = xorBits (xs.drop n) (ys.drop n) := List.drop_zipWith

/-- The relation is linear. -/
theorem Parity.xor {xs ys : List Bool} (hx : Parity xs) (hy : Parity ys)
    (h : xs.length = ys.length) : Parity (xorBits xs ys) := by
  unfold Parity at hx hy ⊢
  rw [take_xorBits, drop_xorBits, crc_xor (by simp [h]), wordBits, lowBits_xor]
  change xorBits (wordBits _) (wordBits _) = _
  rw [hx, hy, swapped, swapped, swapped, take_xorBits, drop_xorBits, xorBits_append (by simp [h])]

/-! ## Errors that the relation excludes -/

/-- Clear bits stay clear when the bytes are swapped. -/
theorem swapped_clear : swapped (clearBits 16) = clearBits 16 := by decide

/-- The zero word has clear bits. -/
theorem wordBits_zero : wordBits (0#16) = clearBits 16 := lowBits_zero 16

/-- The relation, for the bits of a payload and those behind it. -/
theorem parity_append_iff {payload rest : List Bool} (h : payload.length = 264) :
    Parity (payload ++ rest) ↔ wordBits (crc xmodem payload) = swapped rest := by
  rw [Parity, List.take_left' h, List.drop_left' h]

/-- An error in the payload alone. -/
theorem not_parity_payload {before after : ℕ} {burst : List Bool} (hshort : burst.length ≤ 16)
    (hne : burst ≠ clearBits burst.length) (hlength : before + burst.length + after = 280)
    (hpayload : before + burst.length ≤ 264) :
    ¬ Parity (clearBits before ++ (burst ++ clearBits after)) := by
  have hsplit : clearBits before ++ (burst ++ clearBits after) =
      clearBits before ++ (burst ++ clearBits (after - 16)) ++ clearBits 16 := by
    rw [List.append_assoc, List.append_assoc, List.replicate_append_replicate,
      Nat.sub_add_cancel (by omega)]
  have hodd : (generator xmodem).coeff 0 = 1 := by
    rw [generator_xmodem]
    simp
  rw [hsplit, parity_append_iff (by simp; omega), swapped_clear, ← wordBits_zero, wordBits_inj]
  exact crc_burst_ne_zero hodd before _ hshort hne

/-- An error in the checksum alone. -/
theorem not_parity_checksum {before after : ℕ} {burst : List Bool}
    (hne : burst ≠ clearBits burst.length) (hchecksum : 264 ≤ before) :
    ¬ Parity (clearBits before ++ (burst ++ clearBits after)) := by
  have hsplit : clearBits before ++ (burst ++ clearBits after) =
      clearBits 264 ++ (clearBits (before - 264) ++ (burst ++ clearBits after)) := by
    rw [← List.append_assoc (clearBits 264), List.replicate_append_replicate,
      Nat.add_sub_cancel' hchecksum]
  have hcrc : crc xmodem (clearBits 264) = 0#16 := by
    have happend := @crc_clear_append _ xmodem 264 []
    rwa [List.append_nil] at happend
  rw [hsplit, parity_append_iff (List.length_replicate), hcrc, wordBits_zero]
  intro hclear
  -- What is swapped is clear, so every bit of it is.
  have hbits : ∀ bit ∈ burst, bit = false := by
    intro bit hbit
    have hmem : bit ∈ swapped (clearBits (before - 264) ++ (burst ++ clearBits after)) := by
      rw [swapped, List.mem_append, Or.comm, ← List.mem_append, List.take_append_drop]
      simp [hbit]
    rw [← hclear] at hmem
    exact List.eq_of_mem_replicate hmem
  exact hne (List.eq_replicate_of_mem hbits)

/-- An error in the character that holds the end of the payload and one bit of the checksum. -/
theorem not_parity_boundary {a b c d e : Bool} (hne : [a, b, c, d, e] ≠ clearBits 5) :
    ¬ Parity (clearBits 260 ++ ([a, b, c, d, e] ++ clearBits 15)) := by
  have hsplit : clearBits 260 ++ ([a, b, c, d, e] ++ clearBits 15) =
      clearBits 260 ++ [a, b, c, d] ++ (e :: clearBits 15) := by
    simp only [List.append_assoc, List.cons_append, List.nil_append]
  rw [hsplit, parity_append_iff (by simp), crc_clear_append]
  revert a b c d e
  decide +kernel

/-- The last two characters that hold bits of the payload are exchanged. -/
theorem not_parity_boundary_last {a b c d e : Bool} (hne : [a, b, c, d, e] ≠ clearBits 5) :
    ¬ Parity (clearBits 255 ++ ([a, b, c, d, e] ++ [a, b, c, d, e] ++ clearBits 15)) := by
  have hsplit : clearBits 255 ++ ([a, b, c, d, e] ++ [a, b, c, d, e] ++ clearBits 15) =
      clearBits 255 ++ [a, b, c, d, e, a, b, c, d] ++ (e :: clearBits 15) := by
    simp only [List.append_assoc, List.cons_append, List.nil_append]
  rw [hsplit, parity_append_iff (by simp), crc_clear_append]
  revert a b c d e
  decide +kernel

/-- The character at the boundary is exchanged with the one behind it. -/
theorem not_parity_boundary_first {a b c d e : Bool} (hne : [a, b, c, d, e] ≠ clearBits 5) :
    ¬ Parity (clearBits 260 ++ ([a, b, c, d, e] ++ [a, b, c, d, e] ++ clearBits 10)) := by
  have hsplit : clearBits 260 ++ ([a, b, c, d, e] ++ [a, b, c, d, e] ++ clearBits 10) =
      clearBits 260 ++ [a, b, c, d] ++ ([e, a, b, c, d, e] ++ clearBits 10) := by
    simp only [List.append_assoc, List.cons_append, List.nil_append]
  rw [hsplit, parity_append_iff (by simp), crc_clear_append]
  revert a b c d e
  decide +kernel

/-! ## Mistyped characters -/

/-- Two rows of one length differ exactly when their combination is not clear. -/
theorem xorBits_clear_iff {xs ys : List Bool} (h : xs.length = ys.length) :
    xorBits xs ys ≠ clearBits (xorBits xs ys).length ↔ xs ≠ ys := by
  rw [length_xorBits h, Ne, xorBits_eq_clear_iff h]

/-- Two texts that differ in one character differ in its bits. -/
theorem xorBits_replaced (before after : JsString) (c c' : UInt16) :
    xorBits (textBits (before ++ c :: after)) (textBits (before ++ c' :: after)) =
      clearBits (5 * before.length) ++
        (xorBits (charBits c) (charBits c') ++ clearBits (5 * after.length)) := by
  have hcons : ∀ x : UInt16, textBits (before ++ x :: after) =
      textBits before ++ (charBits x ++ textBits after) := fun x => by
    rw [textBits_append]
    rfl
  rw [hcons, hcons, xorBits_append rfl, xorBits_append (by rw [length_charBits, length_charBits]),
    xorBits_self, xorBits_self, length_textBits, length_textBits]

/-- Rows combine in either order. -/
theorem xorBits_comm (xs ys : List Bool) : xorBits xs ys = xorBits ys xs :=
  List.zipWith_comm_of_comm Bool.xor_comm

/-- Two texts with two characters exchanged differ twice in the same five bits. -/
theorem xorBits_exchanged (before after : JsString) (a b : UInt16) :
    xorBits (textBits (before ++ a :: b :: after)) (textBits (before ++ b :: a :: after)) =
      clearBits (5 * before.length) ++
        (xorBits (charBits a) (charBits b) ++ xorBits (charBits a) (charBits b) ++
          clearBits (5 * after.length)) := by
  have hcons : ∀ x y : UInt16, textBits (before ++ x :: y :: after) =
      textBits before ++ (charBits x ++ (charBits y ++ textBits after)) := fun x y => by
    rw [textBits_append]
    rfl
  have hlength : (charBits a).length = (charBits b).length := by
    rw [length_charBits, length_charBits]
  rw [hcons, hcons, xorBits_append rfl, xorBits_append hlength, xorBits_append hlength.symm,
    xorBits_self, xorBits_self, xorBits_comm (charBits b), length_textBits, length_textBits,
    List.append_assoc (xorBits _ _)]

/-- The bits in which two accepted texts differ satisfy the relation. -/
theorem parity_difference {value value' : JsString} (h : isValidContractId value = true)
    (h' : isValidContractId value' = true) :
    Parity (xorBits (textBits value) (textBits value')) := by
  refine (parity_of_valid h).xor (parity_of_valid h') ?_
  rw [length_textBits, length_textBits, ((isValidContractId_iff value).mp h).1,
    ((isValidContractId_iff value').mp h').1]

/-- Two accepted texts do not differ in one character. -/
theorem eq_of_replaced {before after : JsString} {c c' : UInt16}
    (h : isValidContractId (before ++ c :: after) = true)
    (h' : isValidContractId (before ++ c' :: after) = true) : c = c' := by
  have hparity := parity_difference h h'
  rw [xorBits_replaced] at hparity
  obtain ⟨hlength, hvalue, -⟩ := (isValidContractId_iff _).mp h
  have hvalue' := ((isValidContractId_iff _).mp h').2.1
  have hbits : (charBits c).length = (charBits c').length := by
    rw [length_charBits, length_charBits]
  have hburst : (xorBits (charBits c) (charBits c')).length = 5 := by
    rw [length_xorBits hbits, length_charBits]
  rw [List.length_append, List.length_cons] at hlength
  by_contra hne
  have hchars : charBits c ≠ charBits c' := fun heq =>
    hne ((charBits_inj (hvalue c (by simp)) (hvalue' c' (by simp))).mp heq)
  have hclear := (xorBits_clear_iff hbits).mpr hchars
  rcases Nat.lt_trichotomy before.length 52 with hpayload | hboundary | hchecksum
  · exact not_parity_payload (by omega) hclear (by omega) (by omega) hparity
  · obtain ⟨x₁, x₂, x₃, x₄, x₅, hfive⟩ : ∃ x₁ x₂ x₃ x₄ x₅,
        xorBits (charBits c) (charBits c') = [x₁, x₂, x₃, x₄, x₅] := ⟨_, _, _, _, _, rfl⟩
    have hafter : after.length = 3 := by omega
    rw [hfive] at hclear
    rw [hfive, hboundary, hafter] at hparity
    exact not_parity_boundary hclear hparity
  · exact not_parity_checksum hclear (by omega) hparity

/-- Two accepted texts do not differ in the order of two characters. -/
theorem eq_of_exchanged {before after : JsString} {a b : UInt16}
    (h : isValidContractId (before ++ a :: b :: after) = true)
    (h' : isValidContractId (before ++ b :: a :: after) = true) : a = b := by
  have hparity := parity_difference h h'
  rw [xorBits_exchanged] at hparity
  obtain ⟨hlength, hvalue, -⟩ := (isValidContractId_iff _).mp h
  have hbits : (charBits a).length = (charBits b).length := by
    rw [length_charBits, length_charBits]
  have hburst : (xorBits (charBits a) (charBits b)).length = 5 := by
    rw [length_xorBits hbits, length_charBits]
  rw [List.length_append, List.length_cons, List.length_cons] at hlength
  by_contra hne
  have hchars : charBits a ≠ charBits b := fun heq =>
    hne ((charBits_inj (hvalue a (by simp)) (hvalue b (by simp))).mp heq)
  have hclear := (xorBits_clear_iff hbits).mpr hchars
  obtain ⟨x₁, x₂, x₃, x₄, x₅, hfive⟩ : ∃ x₁ x₂ x₃ x₄ x₅,
      xorBits (charBits a) (charBits b) = [x₁, x₂, x₃, x₄, x₅] := ⟨_, _, _, _, _, rfl⟩
  rw [hfive] at hclear hparity
  have htwice : [x₁, x₂, x₃, x₄, x₅] ++ [x₁, x₂, x₃, x₄, x₅] ≠ clearBits 10 := by
    intro hall
    have hfirst := congrArg (List.take 5) hall
    exact hclear hfirst
  obtain hpayload | hlast | hfirst | hchecksum : before.length ≤ 50 ∨ before.length = 51 ∨
      before.length = 52 ∨ 53 ≤ before.length := by omega
  · exact not_parity_payload (by simp) htwice (by simp; omega) (by simp; omega) hparity
  · have hafter : after.length = 3 := by omega
    rw [hlast, hafter] at hparity
    exact not_parity_boundary_last hclear hparity
  · have hafter : after.length = 2 := by omega
    rw [hfirst, hafter] at hparity
    exact not_parity_boundary_first hclear hparity
  · exact not_parity_checksum htwice (by omega) hparity

/-- Of an accepted text, every text with another character, or any other piece of text, in the
place of one character is rejected, and so is every text with two different characters next to
each other exchanged. -/
theorem typing_errors_rejected (before after : JsString) :
    (∀ (c : UInt16) (typed : JsString), isValidContractId (before ++ c :: after) = true →
      typed ≠ [c] → isValidContractId (before ++ (typed ++ after)) = false) ∧
    ∀ a b : UInt16, isValidContractId (before ++ a :: b :: after) = true → a ≠ b →
      isValidContractId (before ++ b :: a :: after) = false := by
  refine ⟨fun c typed h hne => ?_, fun a b h hne => ?_⟩
  · by_contra haccepted
    rw [Bool.not_eq_false] at haccepted
    have hlength := ((isValidContractId_iff _).mp h).1
    have hlength' := ((isValidContractId_iff _).mp haccepted).1
    simp only [List.length_append, List.length_cons] at hlength hlength'
    obtain ⟨c', rfl⟩ := List.length_eq_one_iff.mp (show typed.length = 1 by omega)
    exact hne (congrArg (fun x => [x]) (eq_of_replaced h haccepted).symm)
  · by_contra haccepted
    rw [Bool.not_eq_false] at haccepted
    exact hne (eq_of_exchanged h haccepted)

/-- A contract ID with its third and fourth character exchanged, and with its last one mistyped. -/
theorem typing_errors_rejected_governance :
    isValidContractId (units "CB5X5KH5A2ONRB6QDJOQ6M7FSIXVTK5ZVCGP4DRSBLBKUZMTIXQBQNRR") = false ∧
      isValidContractId (units "CBX55KH5A2ONRB6QDJOQ6M7FSIXVTK5ZVCGP4DRSBLBKUZMTIXQBQNR0") = false :=
  ⟨(typing_errors_rejected (units "CB")
      (units "5KH5A2ONRB6QDJOQ6M7FSIXVTK5ZVCGP4DRSBLBKUZMTIXQBQNRR")).2 88 53
      (by decide +kernel) (by decide),
    (typing_errors_rejected (units "CBX55KH5A2ONRB6QDJOQ6M7FSIXVTK5ZVCGP4DRSBLBKUZMTIXQBQNR")
      []).1 82 [48] (by decide +kernel) (by decide)⟩

end Quorum.Frontend

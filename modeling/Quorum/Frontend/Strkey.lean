import Quorum.Foundation.CodeUnits
import Quorum.Foundation.Crc

/-!
# Contract strkeys

A contract ID is the base32 text of a version byte, a 32-byte hash and two checksum bytes. The
frontend decodes the text through a 32-bit buffer that is shifted and never masked, computes the
checksum bit by bit, and compares it with the last two bytes in little-endian order.

The decoder regroups the bits of the text into bytes: of the buffer it only ever reads bits that
it has just shifted in. So the texts that are accepted are those of the encoding, one for each
hash.
-/

namespace Quorum.Frontend

open Foundation Polynomial

def base32Alphabet : JsString := units "ABCDEFGHIJKLMNOPQRSTUVWXYZ234567"

/-- Version byte of a contract strkey. -/
def contractVersionByte : BitVec 32 := 2#32 <<< 3

/-! ## The code -/

/-- The state of the loop of `base32Decode`. -/
structure Decoder where
  bytes : List (BitVec 32)
  buffer : BitVec 32
  bits : ℕ

/-- One round of the loop of `base32Decode`. -/
def decodeChar (d : Decoder) (char : UInt16) : Option Decoder :=
  match base32Alphabet.idxOf? char with
  | none => none
  | some index =>
    let buffer := (d.buffer <<< 5) ||| BitVec.ofNat 32 index
    let bits := d.bits + 5
    if 8 ≤ bits then
      let bits := bits - 8
      some ⟨d.bytes ++ [buffer.sshiftRight bits &&& 0xff#32], buffer, bits⟩
    else some ⟨d.bytes, buffer, bits⟩

/-- The bytes of a base32 text, unless a character has no index or data is left over. -/
def base32Decode (value : JsString) : Option (List (BitVec 32)) :=
  (value.foldlM decodeChar ⟨[], 0#32, 0⟩).bind fun d =>
    if 5 ≤ d.bits then none else some d.bytes

/-- The inner loop body of `crc16XModem`. -/
def crcBit (crc : BitVec 32) : BitVec 32 :=
  if crc &&& 0x8000#32 ≠ 0#32 then ((crc <<< 1) ^^^ 0x1021#32) &&& 0xffff#32
  else (crc <<< 1) &&& 0xffff#32

/-- The outer loop body of `crc16XModem`. -/
def crcByte (crc byte : BitVec 32) : BitVec 32 := crcBit^[8] (crc ^^^ (byte <<< 8))

def crc16XModem (data : List (BitVec 32)) : BitVec 32 := data.foldl crcByte 0x0000#32

/-- The characters `[A-Z2-7]`. -/
def inBase32Class (char : UInt16) : Bool := (65 ≤ char && char ≤ 90) || (50 ≤ char && char ≤ 55)

def isValidStrkey (value : JsString) (versionByte : BitVec 32) : Bool :=
  if ¬ (value ≠ [] ∧ value.all inBase32Class = true) then false
  else
    match base32Decode value with
    | none => false
    | some decoded =>
      if decoded.length < 3 then false
      else
        let payload := decoded.take (decoded.length - 2)
        let checksum := decoded.getD (decoded.length - 2) 0#32 |||
          (decoded.getD (decoded.length - 1) 0#32 <<< 8)
        payload[0]? == some versionByte && crc16XModem payload == checksum

def isValidContractId (value : JsString) : Bool :=
  value.length == 56 && isValidStrkey value contractVersionByte

/-! ## The encoding -/

/-- A byte. -/
abbrev Byte := BitVec 8

/-- The bits of a row of bytes, the highest bit of each first. -/
def byteBits (bytes : List Byte) : List Bool := bytes.flatMap wordBits

/-- The number that a row of bits denotes. -/
def bitsValue (bits : List Bool) : ℕ := bits.foldl (fun n bit => 2 * n + bit.toNat) 0

/-- Base32 takes the bits in groups of five, the last one filled up with clear bits. -/
def base32Encode : List Bool → JsString
  | a :: b :: c :: d :: e :: rest =>
    base32Alphabet.getD (bitsValue [a, b, c, d, e]) 0 :: base32Encode rest
  | [] => []
  | short => [base32Alphabet.getD (bitsValue (short ++ clearBits (5 - short.length))) 0]

/-- The generator of CRC-16/XModem without its leading term: `x^12 + x^5 + 1`. -/
def xmodem : BitVec 16 := 0x1021#16

/-- The CRC-16/XModem of a row of bytes: no initial value, no reflection, no final exclusive or. -/
def checksum (bytes : List Byte) : BitVec 16 := crc xmodem (byteBits bytes)

/-- The two bytes of a checksum, the lower one first. -/
def littleEndian (c : BitVec 16) : List Byte := [c.setWidth 8, (c >>> 8).setWidth 8]

/-- The version byte and the hash. -/
def contractPayload (hash : List Byte) : List Byte := 0x10#8 :: hash

/-- The bytes of the strkey of a contract hash. -/
def strkeyBytes (hash : List Byte) : List Byte :=
  contractPayload hash ++ littleEndian (checksum (contractPayload hash))

/-- The strkey of a contract hash. -/
def contractId (hash : List Byte) : JsString := base32Encode (byteBits (strkeyBytes hash))

/-! ## Characters -/

/-- The five bits of a character of the alphabet. -/
def charBits (char : UInt16) : List Bool :=
  lowBits 5 (BitVec.ofNat 32 (base32Alphabet.idxOf char))

/-- A symbol stands for five bits. -/
theorem length_charBits (char : UInt16) : (charBits char).length = 5 := length_lowBits 5 _

/-- The class of the pattern is the alphabet. -/
theorem inBase32Class_iff (char : UInt16) : inBase32Class char = true ↔ char ∈ base32Alphabet := by
  have hmem : char ∈ base32Alphabet ↔ char.toNat ∈ base32Alphabet.map UInt16.toNat := by
    rw [List.mem_map_of_injective fun _ _ h => UInt16.toNat_inj.mp h]
  have hcodes : base32Alphabet.map UInt16.toNat = List.range' 65 26 ++ List.range' 50 6 := by decide
  rw [hmem, hcodes]
  simp only [inBase32Class, Bool.or_eq_true, Bool.and_eq_true, decide_eq_true_eq,
    UInt16.le_iff_toNat_le, List.mem_append, List.mem_range'_1]
  change (65 ≤ char.toNat ∧ char.toNat ≤ 90) ∨ (50 ≤ char.toNat ∧ char.toNat ≤ 55) ↔ _
  omega

/-- The bits of a character give it back. -/
theorem getD_bitsValue_charBits {char : UInt16} (h : char ∈ base32Alphabet) :
    base32Alphabet.getD (bitsValue (charBits char)) 0 = char := by
  have hall : base32Alphabet.all (fun c => base32Alphabet.getD (bitsValue (charBits c)) 0 = c) := by
    decide
  exact of_decide_eq_true (List.all_eq_true.mp hall char h)

/-- Each group of five bits is that of a character. -/
theorem charBits_getD_bitsValue (a b c d e : Bool) :
    base32Alphabet.getD (bitsValue [a, b, c, d, e]) 0 ∈ base32Alphabet ∧
      charBits (base32Alphabet.getD (bitsValue [a, b, c, d, e]) 0) = [a, b, c, d, e] := by
  revert a b c d e
  decide

/-- Two symbols of the alphabet with the same bits are the same. -/
theorem charBits_inj {char char' : UInt16} (h : char ∈ base32Alphabet) (h' : char' ∈ base32Alphabet) :
    charBits char = charBits char' ↔ char = char' := by
  constructor
  · intro hbits
    rw [← getD_bitsValue_charBits h, hbits, getD_bitsValue_charBits h']
  · rintro rfl
    rfl

/-- The bits of a text. -/
def textBits (value : JsString) : List Bool := value.flatMap charBits

/-- A text stands for five bits a symbol. -/
theorem length_textBits (value : JsString) : (textBits value).length = 5 * value.length := by
  induction value with
  | nil => rfl
  | cons c value ih =>
    rw [textBits, List.flatMap_cons, List.length_append, length_charBits]
    change 5 + (textBits value).length = _
    rw [ih, List.length_cons]
    omega

/-- The bits of two texts in a row are those of both. -/
theorem textBits_append (xs ys : JsString) : textBits (xs ++ ys) = textBits xs ++ textBits ys :=
  List.flatMap_append

/-- A text of the alphabet is the encoding of its bits. -/
theorem base32Encode_textBits {value : JsString} (h : ∀ c ∈ value, c ∈ base32Alphabet) :
    base32Encode (textBits value) = value := by
  induction value with
  | nil => rfl
  | cons char value ih =>
    have hrest := ih fun c hc => h c (List.mem_cons_of_mem char hc)
    have hchar := getD_bitsValue_charBits (h char List.mem_cons_self)
    obtain ⟨a, b, c, d, e, hbits⟩ : ∃ a b c d e, charBits char = [a, b, c, d, e] :=
      ⟨_, _, _, _, _, rfl⟩
    change base32Encode (charBits char ++ textBits value) = _
    rw [hbits] at hchar ⊢
    change base32Alphabet.getD _ 0 :: base32Encode (textBits value) = _
    rw [hchar, hrest]

/-- Whole groups of five bits come back from their encoding. -/
theorem textBits_base32Encode {bits : List Bool} (h : 5 ∣ bits.length) :
    (∀ c ∈ base32Encode bits, c ∈ base32Alphabet) ∧ textBits (base32Encode bits) = bits := by
  fun_induction base32Encode bits with
  | case1 a b c d e rest ih =>
    obtain ⟨hmem, hbits⟩ := charBits_getD_bitsValue a b c d e
    obtain ⟨hrest, hrestbits⟩ := ih (by simpa using h)
    refine ⟨?_, ?_⟩
    · rintro x hx
      rcases List.mem_cons.mp hx with rfl | hx
      · exact hmem
      · exact hrest x hx
    · change charBits _ ++ textBits _ = _
      rw [hbits, hrestbits]
      rfl
  | case2 => exact ⟨by simp, rfl⟩
  | case3 short hfive hnil =>
    exfalso
    rcases short with _ | ⟨a, _ | ⟨b, _ | ⟨c, _ | ⟨d, _ | ⟨e, rest⟩⟩⟩⟩⟩
    · exact hnil rfl
    · simp at h
    · simp at h
    · simp at h
    · simp at h
    · exact hfive a b c d e rest rfl

/-! ## Decoding -/

/-- The bytes made so far and the bits still in the buffer are the bits that came in. -/
def Decoder.Holds (d : Decoder) (bits : List Bool) : Prop :=
  d.bits < 8 ∧ ∃ bytes : List Byte, d.bytes = bytes.map (BitVec.setWidth 32) ∧
    byteBits bytes ++ lowBits d.bits d.buffer = bits

/-- Shifting five bits in puts them behind the ones that are there. -/
theorem lowBits_shiftIn {n : ℕ} (hn : n + 5 ≤ 32) (buffer index : BitVec 32) (h : index.toNat < 32) :
    lowBits (n + 5) ((buffer <<< 5) ||| index) = lowBits n buffer ++ lowBits 5 index := by
  have hclear : ∀ i, 5 ≤ i → index.getLsbD i = false := by
    intro i hi
    apply Nat.testBit_lt_two_pow
    exact h.trans_le (Nat.pow_le_pow_right (Nat.succ_pos 1) hi)
  rw [lowBits_add]
  congr 1
  · refine lowBits_eq_iff.mpr fun i hi => ?_
    simp [hclear]
    omega
  · refine lowBits_eq_iff.mpr fun i hi => ?_
    simp
    omega

/-- The byte above the lowest `n` bits. -/
def byteAbove (n : ℕ) (buffer : BitVec 32) : Byte := (buffer >>> n).setWidth 8

/-- What is pushed is the byte above the rest, for no bit of it is a copied sign. -/
theorem pushed_eq {n : ℕ} (hn : n + 8 ≤ 32) (buffer : BitVec 32) :
    buffer.sshiftRight n &&& 0xff#32 = (byteAbove n buffer).setWidth 32 := by
  have hmask : ∀ i < 32, (0xff#32).getLsbD i = decide (i < 8) := by decide
  apply BitVec.eq_of_getLsbD_eq
  intro i hi
  rw [BitVec.getLsbD_and, hmask i hi, byteAbove, BitVec.getLsbD_setWidth, BitVec.getLsbD_setWidth,
    BitVec.getLsbD_ushiftRight, BitVec.getLsbD_sshiftRight]
  by_cases hlow : i < 8
  · simp [hlow, hi, show n + i < 32 by omega]
  · simp [hlow]

/-- The lowest bits of the buffer are those of the byte above and the rest. -/
theorem lowBits_byteAbove (n : ℕ) (buffer : BitVec 32) :
    lowBits (8 + n) buffer = wordBits (byteAbove n buffer) ++ lowBits n buffer := by
  rw [lowBits_add]
  congr 1
  refine lowBits_eq_iff.mpr fun i hi => ?_
  simp [byteAbove, hi]

/-- A symbol of the alphabet is found, at a place below 32. -/
theorem idxOf?_base32Alphabet {char : UInt16} (h : char ∈ base32Alphabet) :
    base32Alphabet.idxOf? char = some (base32Alphabet.idxOf char) ∧
      (BitVec.ofNat 32 (base32Alphabet.idxOf char)).toNat < 32 := by
  have hall : base32Alphabet.all (fun c => base32Alphabet.idxOf? c = some (base32Alphabet.idxOf c) ∧
      (BitVec.ofNat 32 (base32Alphabet.idxOf c)).toNat < 32) := by decide
  exact of_decide_eq_true (List.all_eq_true.mp hall char h)

/-- The bits of one more byte come after the others. -/
theorem byteBits_concat (bytes : List Byte) (byte : Byte) :
    byteBits (bytes ++ [byte]) = byteBits bytes ++ wordBits byte := by
  simp [byteBits]

/-- One character more: its bits go into the buffer, and a full byte moves out of it. -/
theorem Decoder.Holds.decodeChar {d : Decoder} {bits : List Bool} (h : d.Holds bits) {char : UInt16}
    (hchar : char ∈ base32Alphabet) :
    ∃ d', Frontend.decodeChar d char = some d' ∧ d'.Holds (bits ++ charBits char) := by
  obtain ⟨hbits, bytes, hbytes, rfl⟩ := h
  obtain ⟨hindex, hlt⟩ := idxOf?_base32Alphabet hchar
  have hshift := lowBits_shiftIn (n := d.bits) (by omega) d.buffer _ hlt
  unfold Frontend.decodeChar
  rw [hindex]
  by_cases hfull : 8 ≤ d.bits + 5
  · refine ⟨_, if_pos hfull, by change d.bits + 5 - 8 < 8; omega,
      bytes ++ [byteAbove (d.bits + 5 - 8)
        ((d.buffer <<< 5) ||| BitVec.ofNat 32 (base32Alphabet.idxOf char))], ?_, ?_⟩
    · rw [List.map_append, List.map_singleton, hbytes, ← pushed_eq (by omega)]
    · have hsplit := lowBits_byteAbove (d.bits + 5 - 8)
        ((d.buffer <<< 5) ||| BitVec.ofNat 32 (base32Alphabet.idxOf char))
      rw [Nat.add_sub_cancel' hfull, hshift] at hsplit
      rw [byteBits_concat, List.append_assoc, List.append_assoc, ← hsplit]
      rfl
  · refine ⟨_, if_neg hfull, by change d.bits + 5 < 8; omega, bytes, hbytes, ?_⟩
    change byteBits bytes ++ lowBits (d.bits + 5) _ = _
    rw [hshift, List.append_assoc]
    rfl

/-- After a whole text of the alphabet. -/
theorem Decoder.Holds.foldlM {value : JsString} (hvalue : ∀ c ∈ value, c ∈ base32Alphabet)
    {d : Decoder} {bits : List Bool} (h : d.Holds bits) :
    ∃ d', value.foldlM Frontend.decodeChar d = some d' ∧ d'.Holds (bits ++ textBits value) := by
  induction value generalizing d bits with
  | nil => exact ⟨d, rfl, by simpa [textBits] using h⟩
  | cons char value ih =>
    obtain ⟨d₁, hstep, hd₁⟩ := h.decodeChar (hvalue char List.mem_cons_self)
    obtain ⟨d', hrun, hd'⟩ := ih (fun c hc => hvalue c (List.mem_cons_of_mem char hc)) hd₁
    refine ⟨d', ?_, ?_⟩
    · rw [List.foldlM_cons, hstep]
      exact hrun
    · rw [List.append_assoc] at hd'
      exact hd'

/-- Bytes have eight bits each. -/
theorem length_byteBits (bytes : List Byte) : (byteBits bytes).length = 8 * bytes.length := by
  induction bytes with
  | nil => rfl
  | cons byte bytes ih =>
    rw [byteBits, List.flatMap_cons, List.length_append, length_wordBits]
    change 8 + (byteBits bytes).length = _
    rw [ih, List.length_cons]
    omega

/-- A text whose bits fill whole bytes is decoded to the bytes with these bits. -/
theorem base32Decode_eq {value : JsString} (hvalue : ∀ c ∈ value, c ∈ base32Alphabet)
    (hwhole : 8 ∣ 5 * value.length) :
    ∃ bytes : List Byte, base32Decode value = some (bytes.map (BitVec.setWidth 32)) ∧
      byteBits bytes = textBits value := by
  have hempty : Decoder.Holds ⟨[], 0#32, 0⟩ [] := ⟨by decide, [], rfl, rfl⟩
  obtain ⟨d, hrun, hbits, bytes, hbytes, hheld⟩ := hempty.foldlM hvalue
  have hlength := congrArg List.length hheld
  rw [List.nil_append, List.length_append, length_byteBits, length_lowBits, length_textBits]
    at hlength
  have hnone : d.bits = 0 := by omega
  refine ⟨bytes, ?_, ?_⟩
  · rw [base32Decode, hrun, Option.bind_some, if_neg (by omega), hbytes]
  · rw [hnone] at hheld
    simpa [lowBits] using hheld

/-- Rows of bytes with the same bits are the same. -/
theorem byteBits_inj {bytes bytes' : List Byte} : byteBits bytes = byteBits bytes' ↔ bytes = bytes' := by
  constructor
  · intro h
    have hlength := congrArg List.length h
    rw [length_byteBits, length_byteBits] at hlength
    induction bytes generalizing bytes' with
    | nil => exact (List.length_eq_zero_iff.mp (by simpa using hlength)).symm
    | cons byte bytes ih =>
      obtain ⟨byte', bytes', rfl⟩ := List.exists_cons_of_length_eq_add_one
        (show bytes'.length = bytes.length + 1 by simp at hlength; omega)
      obtain ⟨hfirst, hrest⟩ := List.append_inj h (by simp)
      rw [wordBits_inj.mp hfirst, ih hrest (by simp at hlength; omega)]
  · rintro rfl
    rfl

/-! ## The checksum -/

/-- Masking a number with `0xffff` keeps its low 16 bits. -/
theorem masked_eq (x : BitVec 32) : x &&& 0xffff#32 = (x.setWidth 16).setWidth 32 := by
  have hmask : ∀ i < 32, (0xffff#32).getLsbD i = decide (i < 16) := by decide
  apply BitVec.eq_of_getLsbD_eq
  intro i hi
  rw [BitVec.getLsbD_and, hmask i hi, BitVec.getLsbD_setWidth, BitVec.getLsbD_setWidth]
  by_cases hlow : i < 16 <;> simp [hlow, hi]

/-- In the low half a shift of 32 bits is one of 16. -/
theorem setWidth_shiftLeft_one (v : BitVec 16) : (v.setWidth 32 <<< 1).setWidth 16 = v <<< 1 := by
  apply BitVec.eq_of_getLsbD_eq
  intro i hi
  simp [hi]

/-- A round of the inner loop shifts a clear bit into the 16-bit register. -/
theorem crcBit_setWidth (v : BitVec 16) :
    crcBit (v.setWidth 32) = (feed xmodem v false).setWidth 32 := by
  have htop : (v.setWidth 32 &&& 0x8000#32) = if v.msb then 0x8000#32 else 0#32 := by
    have hpow : (0x8000#32) = BitVec.twoPow 32 15 := by decide
    rw [hpow, BitVec.and_twoPow, BitVec.getLsbD_setWidth, BitVec.msb_eq_getLsbD_last]
    rfl
  rw [crcBit, feed, htop, masked_eq, masked_eq, BitVec.setWidth_xor, setWidth_shiftLeft_one,
    Bool.xor_false]
  cases v.msb
  · rw [if_neg (by decide), if_neg (by decide), BitVec.xor_zero]
  · rw [if_pos (by decide), if_pos rfl]
    rfl

/-- The byte at the top of a 16-bit register. -/
def atTop (byte : Byte) : BitVec 16 := byte.setWidth 16 <<< 8

/-- Shifting a register that a byte was put on top of takes in the highest bit of the byte. -/
theorem feed_atTop (v : BitVec 16) (byte : Byte) :
    feed xmodem (v ^^^ atTop byte) false = feed xmodem v byte.msb ^^^ atTop (byte <<< 1) := by
  have hmsb : (v ^^^ atTop byte).msb = xor v.msb byte.msb := by
    rw [BitVec.msb_xor, atTop, BitVec.msb_eq_getLsbD_last (x := byte.setWidth 16 <<< 8),
      BitVec.msb_eq_getLsbD_last (x := byte)]
    simp
  have hshift : (v ^^^ atTop byte) <<< 1 = (v <<< 1) ^^^ atTop (byte <<< 1) := by
    rw [BitVec.shiftLeft_xor_distrib]
    congr 1
    apply BitVec.eq_of_getLsbD_eq
    intro i hi
    simp only [atTop, BitVec.getLsbD_shiftLeft, BitVec.getLsbD_setWidth,
      show i - 1 - 8 = i - 8 - 1 by omega]
    grind
  rw [feed, feed, hmsb, hshift, Bool.xor_false, BitVec.xor_assoc, BitVec.xor_assoc,
    BitVec.xor_comm (atTop _)]

/-- The highest `n` bits of a byte. -/
def highBits : ℕ → Byte → List Bool
  | 0, _ => []
  | n + 1, byte => byte.msb :: highBits n (byte <<< 1)

/-- Rounds of the inner loop take in the bits of the byte from the highest on. -/
theorem crcBit_iterate (n : ℕ) (v : BitVec 16) (byte : Byte) :
    crcBit^[n] ((v ^^^ atTop byte).setWidth 32) =
      ((highBits n byte).foldl (feed xmodem) v ^^^ atTop (byte <<< n)).setWidth 32 := by
  induction n generalizing v byte with
  | zero => simp [highBits]
  | succ n ih =>
    rw [Function.iterate_succ_apply, crcBit_setWidth, feed_atTop, ih, ← BitVec.shiftLeft_add,
      Nat.add_comm 1 n]
    rfl

/-- The inner loop takes in all bits of the byte. -/
theorem crcByte_setWidth (v : BitVec 16) (byte : Byte) :
    crcByte (v.setWidth 32) (byte.setWidth 32) =
      ((wordBits byte).foldl (feed xmodem) v).setWidth 32 := by
  have htop : v.setWidth 32 ^^^ (byte.setWidth 32 <<< 8) = (v ^^^ atTop byte).setWidth 32 := by
    rw [BitVec.setWidth_xor]
    congr 1
    apply BitVec.eq_of_getLsbD_eq
    intro i hi
    simp only [atTop, BitVec.getLsbD_shiftLeft, BitVec.getLsbD_setWidth]
    grind
  have hbits : highBits 8 byte = wordBits byte := by
    simp [highBits, wordBits, lowBits, BitVec.msb_eq_getLsbD_last]
  have hempty : atTop (byte <<< 8) = 0#16 := by
    simp [atTop]
  rw [crcByte, htop, crcBit_iterate, hbits, hempty, BitVec.xor_zero]

/-- The accumulator's low half is the checksum and its high half is clear. -/
theorem crc16XModem_eq (bytes : List Byte) :
    crc16XModem (bytes.map (BitVec.setWidth 32)) = (checksum bytes).setWidth 32 := by
  have hfold : ∀ v : BitVec 16, (bytes.map (BitVec.setWidth 32)).foldl crcByte (v.setWidth 32) =
      ((byteBits bytes).foldl (feed xmodem) v).setWidth 32 := by
    induction bytes with
    | nil => exact fun v => rfl
    | cons byte bytes ih =>
      intro v
      rw [List.map_cons, List.foldl_cons, crcByte_setWidth, ih, byteBits, byteBits,
        List.flatMap_cons, List.foldl_append]
  exact hfold 0#16

/-- Two bytes in little-endian order are the checksum exactly when they are its two bytes. -/
theorem littleEndian_iff (c : BitVec 16) (low high : Byte) :
    c.setWidth 32 = (low.setWidth 32 ||| (high.setWidth 32 <<< 8)) ↔
      [low, high] = littleEndian c := by
  simp only [littleEndian, List.cons.injEq, and_true]
  constructor
  · intro h
    have hbit : ∀ i < 32, (c.setWidth 32).getLsbD i =
        (low.setWidth 32 ||| (high.setWidth 32 <<< 8)).getLsbD i := fun i _ => by rw [h]
    simp only [BitVec.getLsbD_or, BitVec.getLsbD_shiftLeft, BitVec.getLsbD_setWidth] at hbit
    constructor
    · apply BitVec.eq_of_getLsbD_eq
      intro i hi
      have := hbit i (by omega)
      simp only [BitVec.getLsbD_setWidth]
      grind
    · apply BitVec.eq_of_getLsbD_eq
      intro i hi
      have := hbit (8 + i) (by omega)
      simp only [BitVec.getLsbD_setWidth, BitVec.getLsbD_ushiftRight]
      grind
  · rintro ⟨rfl, rfl⟩
    apply BitVec.eq_of_getLsbD_eq
    intro i hi
    simp only [BitVec.getLsbD_or, BitVec.getLsbD_shiftLeft, BitVec.getLsbD_setWidth,
      BitVec.getLsbD_ushiftRight]
    grind

/-! ## What is accepted -/

/-- The parts of a decoded strkey. -/
theorem exists_parts {bytes : List Byte} (h : bytes.length = 35) :
    ∃ (version : Byte) (hash : List Byte) (low high : Byte),
      hash.length = 32 ∧ bytes = version :: hash ++ [low, high] := by
  obtain ⟨version, rest, rfl⟩ := List.exists_cons_of_length_eq_add_one h
  have hrest : rest.length = 34 := by simpa using h
  have htail : (rest.drop 32).length = 2 := by rw [List.length_drop, hrest]
  obtain ⟨low, high, htwo⟩ := List.length_eq_two.mp htail
  refine ⟨version, rest.take 32, low, high, by simp [hrest], ?_⟩
  rw [← htwo, List.cons_append, List.take_append_drop]

/-- The comparisons of `isValidStrkey` on decoded bytes. -/
theorem isValidStrkey_eq {value : JsString} (hvalue : ∀ c ∈ value, c ∈ base32Alphabet)
    (hne : value ≠ []) {version low high : Byte} {hash : List Byte} (hlength : hash.length = 32)
    (hdecode : base32Decode value =
      some ((version :: hash ++ [low, high]).map (BitVec.setWidth 32))) :
    isValidStrkey value contractVersionByte = true ↔
      version :: hash ++ [low, high] = strkeyBytes hash := by
  have hclass : value.all inBase32Class = true :=
    List.all_eq_true.mpr fun c hc => (inBase32Class_iff c).mpr (hvalue c hc)
  have hversion : version.setWidth 32 = contractVersionByte ↔ version = 0x10#8 := by
    constructor
    · intro h
      have hbyte := congrArg (BitVec.setWidth 8) h
      have hconstant : contractVersionByte.setWidth 8 = 0x10#8 := by decide
      rwa [hconstant, BitVec.setWidth_setWidth_of_le _ (by decide), BitVec.setWidth_eq] at hbyte
    · rintro rfl
      decide
  have hpayload : ((version :: hash ++ [low, high]).map (BitVec.setWidth 32)).take 33 =
      (version :: hash).map (BitVec.setWidth 32) := by
    rw [List.map_append, List.take_left' (by simp [hlength])]
  have hcount : ((version :: hash ++ [low, high]).map (BitVec.setWidth 32)).length = 35 := by
    simp [hlength]
  have hlow : ((version :: hash ++ [low, high]).map (BitVec.setWidth 32)).getD 33 0#32 =
      low.setWidth 32 := by
    simp [hlength]
  have hhigh : ((version :: hash ++ [low, high]).map (BitVec.setWidth 32)).getD 34 0#32 =
      high.setWidth 32 := by
    simp [hlength]
  unfold isValidStrkey
  rw [if_neg (by simp [hne, hclass]), hdecode]
  simp only [hcount, show ¬ 35 < 3 by decide, if_false, Nat.reduceSub, hpayload, hlow, hhigh,
    crc16XModem_eq, Bool.and_eq_true, beq_iff_eq, littleEndian_iff]
  change some (version.setWidth 32) = some contractVersionByte ∧ _ ↔ _
  rw [Option.some.injEq, hversion, strkeyBytes, contractPayload]
  constructor
  · rintro ⟨rfl, hchecksum⟩
    rw [hchecksum]
  · intro hbytes
    obtain ⟨hpayload, hchecksum⟩ := List.append_inj hbytes (by simp)
    obtain ⟨rfl, -⟩ := List.cons.inj hpayload
    exact ⟨rfl, hchecksum⟩

/-- A text is accepted exactly when it has 56 characters of the alphabet whose bits are those of
the strkey of a hash. -/
theorem isValidContractId_iff (value : JsString) :
    isValidContractId value = true ↔ value.length = 56 ∧ (∀ c ∈ value, c ∈ base32Alphabet) ∧
      ∃ hash : List Byte, hash.length = 32 ∧ textBits value = byteBits (strkeyBytes hash) := by
  unfold isValidContractId
  rw [Bool.and_eq_true, beq_iff_eq]
  refine and_congr_right fun hlength => ?_
  have hne : value ≠ [] := by
    rintro rfl
    contradiction
  by_cases hvalue : ∀ c ∈ value, c ∈ base32Alphabet
  · obtain ⟨bytes, hdecode, hbits⟩ := base32Decode_eq hvalue (by omega)
    have hcount := congrArg List.length hbits
    rw [length_byteBits, length_textBits, hlength] at hcount
    obtain ⟨version, hash, low, high, hhash, rfl⟩ := exists_parts (show bytes.length = 35 by omega)
    rw [isValidStrkey_eq hvalue hne hhash hdecode, ← hbits]
    simp only [byteBits_inj]
    constructor
    · intro hbytes
      exact ⟨hvalue, hash, hhash, hbytes⟩
    · rintro ⟨-, hash', hhash', hbytes⟩
      have hparts := List.append_inj hbytes (by simp [contractPayload, hhash, hhash'])
      obtain ⟨-, rfl⟩ := List.cons.inj hparts.1
      exact hbytes
  · have hclass : ¬ (value ≠ [] ∧ value.all inBase32Class = true) := by
      rintro ⟨-, hall⟩
      refine hvalue fun c hc => (inBase32Class_iff c).mp ?_
      exact List.all_eq_true.mp hall c hc
    rw [isValidStrkey, if_pos hclass]
    simp [hvalue]

/-- A key has three bytes more than its hash. -/
theorem length_strkeyBytes (hash : List Byte) : (strkeyBytes hash).length = hash.length + 3 := by
  simp [strkeyBytes, contractPayload, littleEndian]

/-- The encoding of a hash, as a text of the alphabet with the bits of the strkey. -/
theorem contractId_spec {hash : List Byte} (h : hash.length = 32) :
    (contractId hash).length = 56 ∧ (∀ c ∈ contractId hash, c ∈ base32Alphabet) ∧
      textBits (contractId hash) = byteBits (strkeyBytes hash) := by
  have hlength : (byteBits (strkeyBytes hash)).length = 280 := by
    rw [length_byteBits, length_strkeyBytes, h]
  obtain ⟨hmem, hbits⟩ := textBits_base32Encode (hlength ▸ (by decide : 5 ∣ 280))
  have hcount := congrArg List.length hbits
  rw [length_textBits, hlength] at hcount
  exact ⟨by rw [contractId]; omega, hmem, hbits⟩

/-- Two keys are the same exactly when their hashes are. -/
theorem strkeyBytes_inj {hash hash' : List Byte} (h : hash.length = hash'.length) :
    strkeyBytes hash = strkeyBytes hash' ↔ hash = hash' := by
  constructor
  · intro hbytes
    have hparts := List.append_inj hbytes (by simp [contractPayload, h])
    exact (List.cons.inj hparts.1).2
  · rintro rfl
    rfl

/-- The generator of CRC-16/XModem. -/
theorem generator_xmodem : generator xmodem = X ^ 16 + X ^ 12 + X ^ 5 + 1 := by
  have hbits : wordBits xmodem = [false, false, false, true, false, false, false, false,
      false, false, true, false, false, false, false, true] := by decide
  rw [generator, hbits]
  simp only [bitPoly, List.foldl_cons, List.foldl_nil, bitScalar, if_true, Bool.false_eq_true,
    if_false, C_0, C_1]
  ring

/-- The texts that are accepted are the strkeys of the 32-byte hashes: the base32 text of the
version byte, the hash and the checksum, which is the remainder of the payload modulo
`x^16 + x^12 + x^5 + 1`. Each hash has one of them, and each of them is that of one hash, whose
bytes it is decoded to. -/
theorem isValidContractId_iff_contractId :
    (∀ value : JsString, isValidContractId value = true ↔
      ∃ hash : List Byte, hash.length = 32 ∧ value = contractId hash) ∧
    (∀ hash hash' : List Byte, hash.length = 32 → hash'.length = 32 →
      contractId hash = contractId hash' → hash = hash') ∧
    (∀ hash : List Byte, hash.length = 32 → (contractId hash).length = 56 ∧
      base32Decode (contractId hash) = some ((strkeyBytes hash).map (BitVec.setWidth 32))) ∧
    ∀ bytes : List Byte, bitPoly (wordBits (checksum bytes)) =
      (bitPoly (byteBits bytes) * X ^ 16) %ₘ (X ^ 16 + X ^ 12 + X ^ 5 + 1) := by
  refine ⟨fun value => ?_, fun hash hash' hhash hhash' htext => ?_, fun hash hhash => ?_,
    fun bytes => ?_⟩
  · rw [isValidContractId_iff]
    constructor
    · rintro ⟨-, hvalue, hash, hhash, hbits⟩
      exact ⟨hash, hhash, by rw [contractId, ← hbits, base32Encode_textBits hvalue]⟩
    · rintro ⟨hash, hhash, rfl⟩
      obtain ⟨hlength, hvalue, hbits⟩ := contractId_spec hhash
      exact ⟨hlength, hvalue, hash, hhash, hbits⟩
  · have hbits := congrArg textBits htext
    rw [(contractId_spec hhash).2.2, (contractId_spec hhash').2.2, byteBits_inj,
      strkeyBytes_inj (hhash.trans hhash'.symm)] at hbits
    exact hbits
  · obtain ⟨hlength, hvalue, hbits⟩ := contractId_spec hhash
    obtain ⟨bytes, hdecode, hbytes⟩ := base32Decode_eq hvalue (by rw [hlength]; decide)
    rw [hbits, byteBits_inj] at hbytes
    exact ⟨hlength, hbytes ▸ hdecode⟩
  · rw [checksum, bitPoly_crc, generator_xmodem]

end Quorum.Frontend

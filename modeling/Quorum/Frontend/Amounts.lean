import Mathlib.Data.Rat.Defs
import Mathlib.Tactic.FieldSimp
import Quorum.Foundation.Decimals

/-!
# Displayed token amounts

The frontend shows an amount of raw token units as a whole number and at most four decimals.
The text always denotes the amount cut off after four places. The digits of the fraction are
trimmed of their trailing zeros first and cut to four after that, so that zeros which the cut
brings to the end stay: `formatTokenAmount` is in its shortest form exactly when nothing was cut
off or the fourth place is not a zero.
-/

namespace Quorum.Frontend

open Foundation

/-- What the active locale's number format does. -/
structure Locale where
  /-- `formatNumber` for an integer. -/
  formatNumber : ℤ → List Char
  /-- The decimal separator. -/
  separator : List Char

namespace Locale

/-- The number format prints different integers differently, and no character of an integer is
the one that begins the decimal separator. -/
structure Exact (locale : Locale) : Prop where
  injective : Function.Injective fun n : ℕ => locale.formatNumber n
  separated : ∃ c rest, locale.separator = c :: rest ∧ ∀ n : ℕ, c ∉ locale.formatNumber n

/-- The text of a whole number and the digits of a fraction. -/
def write (locale : Locale) (whole : ℕ) (digits : List Char) : List Char :=
  locale.formatNumber whole ++ if digits = [] then [] else locale.separator ++ digits

/-- The text is that of a number with decimals, and denotes `q`. -/
def Denotes (locale : Locale) (text : List Char) (q : ℚ) : Prop :=
  ∃ whole digits, Numeral digits ∧ text = locale.write whole digits ∧
    q = whole + numeralValue digits / 10 ^ digits.length

/-- Behind a separator there are digits, and the last one is not a zero. -/
def Tidy (locale : Locale) (text : List Char) : Prop :=
  ∀ (whole : ℕ) (digits : List Char),
    text = locale.formatNumber whole ++ (locale.separator ++ digits) →
      digits ≠ [] ∧ digits.getLast? ≠ some '0'

end Locale

/-- The digits shown of a fraction. -/
def shownDigits (fraction decimals : ℕ) : List Char :=
  (dropTrailingZeros (padStart decimals (Nat.toDigits 10 fraction))).take 4

/-- Renders raw token units as an amount. -/
def formatTokenAmount (locale : Locale) (units : ℤ) (decimals : ℕ) : List Char :=
  let scale : ℤ := 10 ^ decimals
  let whole := locale.formatNumber (units.tdiv scale)
  let fraction := units.tmod scale
  if fraction ≤ 0 then whole
  else
    let trimmed := shownDigits fraction.toNat decimals
    whole ++ (locale.separator ++ trimmed)

/-- The amount in ten-thousandths of a token, cut off. -/
def fourPlaces (units decimals : ℕ) : ℕ := units * 10 ^ 4 / 10 ^ decimals

/-- Nothing is cut off after four places, or the fourth place is not a zero. -/
def EndsCleanly (units decimals : ℕ) : Prop :=
  units * 10 ^ 4 % 10 ^ decimals = 0 ∨ fourPlaces units decimals % 10 ≠ 0

instance (units decimals : ℕ) : Decidable (EndsCleanly units decimals) :=
  inferInstanceAs (Decidable (_ ∨ _))

variable {locale : Locale} {fraction units decimals : ℕ}

/-! ## The digits of the fraction -/

/-- The digits of a fraction are those of its significant part, at most four of them. -/
theorem exists_significant (hpos : 0 < fraction) (hlt : fraction < 10 ^ decimals) :
    ∃ significant zeros, Numeral significant ∧ significant.getLast? ≠ some '0' ∧
      significant ≠ [] ∧ significant.length + zeros = decimals ∧
      fraction = 10 ^ zeros * numeralValue significant ∧
      shownDigits fraction decimals = significant.take 4 := by
  have hdecimals : 0 < decimals := by
    rcases Nat.eq_zero_or_pos decimals with rfl | h
    · rw [pow_zero] at hlt
      omega
    · exact h
  have hlength := length_padStart ((Nat.length_toDigits_le_iff (by decide) hdecimals).mpr hlt)
  have hvalue : numeralValue (padStart decimals (Nat.toDigits 10 fraction)) = fraction := by
    rw [numeralValue_padStart, numeralValue_toDigits]
  have hnumeral := (numeral_toDigits fraction).padStart decimals
  obtain ⟨zeros, hsplit⟩ := dropTrailingZeros_append (padStart decimals (Nat.toDigits 10 fraction))
  have hlast := getLast?_dropTrailingZeros (padStart decimals (Nat.toDigits 10 fraction))
  rw [hsplit, List.length_append, List.length_replicate] at hlength
  rw [hsplit, numeralValue_append, List.length_replicate, numeralValue_replicate_zero,
    Nat.add_zero] at hvalue
  rw [hsplit] at hnumeral
  refine ⟨dropTrailingZeros (padStart decimals (Nat.toDigits 10 fraction)), zeros,
    (Numeral.append_iff.mp hnumeral).1, hlast, ?_, hlength, hvalue.symm, rfl⟩
  rintro hnil
  rw [hnil, show numeralValue [] = 0 from rfl, Nat.mul_zero] at hvalue
  omega

/-- The first four places of a fraction are those of its significant part. -/
theorem fourPlaces_significant {significant : List Char} {zeros : ℕ}
    (hlength : significant.length + zeros = decimals)
    (hvalue : fraction = 10 ^ zeros * numeralValue significant) :
    fourPlaces fraction decimals = numeralValue significant * 10 ^ 4 / 10 ^ significant.length ∧
      (fraction * 10 ^ 4 % 10 ^ decimals = 0 ↔
        numeralValue significant * 10 ^ 4 % 10 ^ significant.length = 0) := by
  have hpow : 0 < 10 ^ zeros := Nat.pow_pos (Nat.succ_pos 9)
  rw [fourPlaces, hvalue, ← hlength, Nat.mul_assoc, Nat.add_comm, pow_add,
    Nat.mul_div_mul_left _ _ hpow, Nat.mul_mod_mul_left]
  simp

/-- Four places of a significant part of at most four digits, and of a longer one. -/
theorem value_take_four {significant : List Char} (h : Numeral significant) :
    numeralValue (significant.take 4) * 10 ^ (4 - (significant.take 4).length) =
      numeralValue significant * 10 ^ 4 / 10 ^ significant.length := by
  rcases Nat.le_total significant.length 4 with hshort | hlong
  · have hpow : (10 : ℕ) ^ 4 = 10 ^ (4 - significant.length) * 10 ^ significant.length := by
      rw [← pow_add, Nat.sub_add_cancel hshort]
    rw [List.take_of_length_le hshort]
    rw [hpow, ← Nat.mul_assoc, Nat.mul_div_cancel _ (Nat.pow_pos (Nat.succ_pos 9))]
  · have hpow : (10 : ℕ) ^ significant.length = 10 ^ (significant.length - 4) * 10 ^ 4 := by
      rw [← pow_add, Nat.sub_add_cancel hlong]
    rw [List.length_take_of_le hlong, numeralValue_take h, Nat.sub_self, pow_zero, Nat.mul_one,
      hpow, Nat.mul_div_mul_right _ _ (by decide)]

/-- A short significant part leaves nothing behind the fourth place. -/
theorem significant_mod_eq_zero {significant : List Char} (hshort : significant.length ≤ 4) :
    numeralValue significant * 10 ^ 4 % 10 ^ significant.length = 0 := by
  have hpow : 10 ^ significant.length ∣ 10 ^ 4 := pow_dvd_pow 10 hshort
  exact Nat.mod_eq_zero_of_dvd (hpow.mul_left _)

/-- A long significant part leaves something behind the fourth place. -/
theorem significant_mod_ne_zero {significant : List Char} (h : Numeral significant)
    (hlast : significant.getLast? ≠ some '0') (hne : significant ≠ [])
    (hlong : 4 < significant.length) :
    numeralValue significant * 10 ^ 4 % 10 ^ significant.length ≠ 0 := by
  intro hzero
  have hpow : (10 : ℕ) ^ significant.length = 10 ^ (significant.length - 4) * 10 ^ 4 := by
    rw [← pow_add, Nat.sub_add_cancel hlong.le]
  have hdvd := Nat.dvd_of_mod_eq_zero hzero
  rw [hpow] at hdvd
  have hrest : 10 ^ (significant.length - 4) ∣ numeralValue significant :=
    Nat.dvd_of_mul_dvd_mul_right (Nat.pow_pos (Nat.succ_pos 9)) hdvd
  have hten : 10 ∣ numeralValue significant := (dvd_pow_self 10 (by omega)).trans hrest
  exact hlast ((getLast?_eq_zero_iff h hne).mpr (Nat.mod_eq_zero_of_dvd hten))

/-- What is to be known of the digits that are shown. -/
structure Shown (fraction decimals : ℕ) (digits : List Char) : Prop where
  numeral : Numeral digits
  length_le : digits.length ≤ 4
  value : numeralValue digits * 10 ^ (4 - digits.length) = fourPlaces fraction decimals
  last_ne_iff : digits.getLast? ≠ some '0' ↔ EndsCleanly fraction decimals
  length_eq : ¬ EndsCleanly fraction decimals → digits.length = 4

/-- The digits shown of a fraction are as they should be, and there are some. -/
theorem shown_shownDigits (hpos : 0 < fraction) (hlt : fraction < 10 ^ decimals) :
    shownDigits fraction decimals ≠ [] ∧
      Shown fraction decimals (shownDigits fraction decimals) := by
  obtain ⟨significant, zeros, hnumeral, hlast, hne, hlength, hvalue, hshown⟩ :=
    exists_significant hpos hlt
  obtain ⟨hplaces, hexact⟩ := fourPlaces_significant hlength hvalue
  have htake := value_take_four hnumeral
  rw [← hplaces] at htake
  have hnonempty : significant.take 4 ≠ [] := by simpa using hne
  have hdigits : Numeral (significant.take 4) := fun c hc => hnumeral c (List.mem_of_mem_take hc)
  rw [hshown]
  refine ⟨hnonempty, hdigits, List.length_take_le 4 significant, htake, ?_, ?_⟩
  · rw [EndsCleanly, hexact]
    rcases Nat.lt_or_ge 4 significant.length with hlong | hshort
    · -- Digits were cut off, and the fourth place is the last that is shown.
      rw [List.length_take_of_le hlong.le, Nat.sub_self, pow_zero, Nat.mul_one] at htake
      rw [Ne, getLast?_eq_zero_iff hdigits hnonempty, htake]
      have hcut := significant_mod_ne_zero hnumeral hlast hne hlong
      exact ⟨Or.inr, fun hclean => hclean.resolve_left hcut⟩
    · -- All significant digits are shown.
      have hmod := significant_mod_eq_zero hshort
      rw [List.take_of_length_le hshort]
      exact ⟨fun _ => .inl hmod, fun _ => hlast⟩
  · intro hunclean
    rw [EndsCleanly, hexact, not_or] at hunclean
    rcases Nat.lt_or_ge 4 significant.length with hlong | hshort
    · exact List.length_take_of_le hlong.le
    · exact absurd (significant_mod_eq_zero hshort) hunclean.1

/-- The digits that are shown depend on the four places and on whether they end cleanly. -/
theorem Shown.unique {fraction' decimals' : ℕ} {digits digits' : List Char}
    (h : Shown fraction decimals digits) (h' : Shown fraction' decimals' digits') :
    digits = digits' ↔ fourPlaces fraction decimals = fourPlaces fraction' decimals' ∧
      (EndsCleanly fraction decimals ↔ EndsCleanly fraction' decimals') := by
  constructor
  · rintro rfl
    exact ⟨h.value.symm.trans h'.value, h.last_ne_iff.symm.trans h'.last_ne_iff⟩
  · rintro ⟨hplaces, hclean⟩
    -- Filled up with zeros both are the four places.
    have hfilled : digits ++ List.replicate (4 - digits.length) '0' =
        digits' ++ List.replicate (4 - digits'.length) '0' := by
      apply numeralValue_inj
      · exact Numeral.append_iff.mpr ⟨h.numeral, fun c hc => by rw [List.eq_of_mem_replicate hc]; rfl⟩
      · exact Numeral.append_iff.mpr ⟨h'.numeral, fun c hc => by rw [List.eq_of_mem_replicate hc]; rfl⟩
      · have := h.length_le
        have := h'.length_le
        simp only [List.length_append, List.length_replicate]
        omega
      · have hvalue := h.value.trans (hplaces.trans h'.value.symm)
        simpa [numeralValue_append, numeralValue_replicate_zero, Nat.mul_comm] using hvalue
    by_cases hends : EndsCleanly fraction decimals
    · have hdrop := congrArg dropTrailingZeros hfilled
      rwa [dropTrailingZeros_append_zeros (h.last_ne_iff.mpr hends),
        dropTrailingZeros_append_zeros (h'.last_ne_iff.mpr (hclean.mp hends))] at hdrop
    · rw [h.length_eq hends, h'.length_eq fun hends' => hends (hclean.mpr hends')] at hfilled
      simpa using hfilled

/-! ## The text -/

/-- The digits behind the separator: none for a whole amount. -/
def fractionDigits (units decimals : ℕ) : List Char :=
  if units % 10 ^ decimals = 0 then [] else shownDigits (units % 10 ^ decimals) decimals

/-- The text of an amount writes its whole part and the digits of its fraction. -/
theorem formatTokenAmount_eq (locale : Locale) (units decimals : ℕ) :
    formatTokenAmount locale units decimals =
      locale.write (units / 10 ^ decimals) (fractionDigits units decimals) := by
  have hscale : ((10 : ℤ) ^ decimals) = ((10 ^ decimals : ℕ) : ℤ) := by push_cast; rfl
  have hdiv : (units : ℤ).tdiv (10 ^ decimals) = (units / 10 ^ decimals : ℕ) := by
    rw [hscale, Int.tdiv_eq_ediv_of_nonneg (by omega)]
    rfl
  have hmod : (units : ℤ).tmod (10 ^ decimals) = (units % 10 ^ decimals : ℕ) := by
    rw [hscale, Int.tmod_eq_emod_of_nonneg (by omega)]
    rfl
  simp only [formatTokenAmount, hdiv, hmod, Int.toNat_natCast]
  by_cases hzero : units % 10 ^ decimals = 0
  · have hdigits : fractionDigits units decimals = [] := if_pos hzero
    rw [hdigits, Locale.write, if_pos rfl, if_pos (by omega), List.append_nil]
  · have hdigits : fractionDigits units decimals = shownDigits (units % 10 ^ decimals) decimals :=
      if_neg hzero
    have hne := (shown_shownDigits (Nat.pos_of_ne_zero hzero)
      (Nat.mod_lt units (Nat.pow_pos (Nat.succ_pos 9)))).1
    rw [hdigits, Locale.write, if_neg hne, if_neg (by omega)]

/-- The whole tokens take no part in what is shown behind them. -/
theorem fourPlaces_eq (units decimals : ℕ) :
    fourPlaces units decimals =
      units / 10 ^ decimals * 10 ^ 4 + fourPlaces (units % 10 ^ decimals) decimals := by
  have hpow : 0 < 10 ^ decimals := Nat.pow_pos (Nat.succ_pos 9)
  have hsplit := Nat.div_add_mod units (10 ^ decimals)
  unfold fourPlaces
  conv_lhs => rw [← hsplit]
  rw [Nat.add_mul, Nat.mul_assoc, Nat.mul_add_div hpow]

/-- Four places make a number below ten thousand. -/
theorem fourPlaces_lt (units decimals : ℕ) :
    fourPlaces (units % 10 ^ decimals) decimals < 10 ^ 4 := by
  have hpow : 0 < 10 ^ decimals := Nat.pow_pos (Nat.succ_pos 9)
  apply Nat.div_lt_of_lt_mul
  exact Nat.mul_lt_mul_of_pos_right (Nat.mod_lt units hpow) (Nat.pow_pos (Nat.succ_pos 9))

/-- Whether an amount ends cleanly is a matter of its fraction. -/
theorem endsCleanly_mod (units decimals : ℕ) :
    EndsCleanly (units % 10 ^ decimals) decimals ↔ EndsCleanly units decimals := by
  have hmod : units % 10 ^ decimals * 10 ^ 4 % 10 ^ decimals = units * 10 ^ 4 % 10 ^ decimals :=
    Nat.mod_mul_mod units _ _
  unfold EndsCleanly
  rw [hmod, fourPlaces_eq units decimals]
  omega

/-- The digits shown of any amount are as they should be. -/
theorem shown_fractionDigits (units decimals : ℕ) :
    Shown (units % 10 ^ decimals) decimals (fractionDigits units decimals) := by
  unfold fractionDigits
  split <;> rename_i hzero
  · have hclean : EndsCleanly (units % 10 ^ decimals) decimals := .inl (by simp [hzero])
    rw [hzero] at hclean ⊢
    refine ⟨by simp [Numeral], by simp, ?_, by simpa using hclean, fun h => absurd hclean h⟩
    simp [fourPlaces, numeralValue]
  · exact (shown_shownDigits (Nat.pos_of_ne_zero hzero)
      (Nat.mod_lt units (Nat.pow_pos (Nat.succ_pos 9)))).2

/-- The whole number is what stands before the first separator. -/
theorem Locale.Exact.append_inj (h : locale.Exact) {whole whole' : ℕ} {xs ys : List Char} :
    locale.formatNumber whole ++ (locale.separator ++ xs) =
        locale.formatNumber whole' ++ (locale.separator ++ ys) ↔ whole = whole' ∧ xs = ys := by
  obtain ⟨c, rest, hsep, hplain⟩ := h.separated
  have htake : ∀ (n : ℕ) (zs : List Char),
      (locale.formatNumber n ++ (locale.separator ++ zs)).takeWhile (fun x => x != c) =
        locale.formatNumber n := by
    intro n zs
    have hall : ∀ x ∈ locale.formatNumber n, (x != c) = true := by
      intro x hx
      rw [bne_iff_ne]
      rintro rfl
      exact hplain n hx
    rw [List.takeWhile_append_of_pos hall, hsep]
    simp
  constructor
  · intro htext
    have hwhole : whole = whole' := by
      apply h.injective
      change locale.formatNumber whole = locale.formatNumber whole'
      rw [← htake whole xs, htext, htake]
    subst hwhole
    exact ⟨rfl, List.append_cancel_left (List.append_cancel_left htext)⟩
  · rintro ⟨rfl, rfl⟩
    rfl

/-- A whole number has no separator in it. -/
theorem Locale.Exact.formatNumber_ne (h : locale.Exact) (whole whole' : ℕ) (xs : List Char) :
    locale.formatNumber whole ≠ locale.formatNumber whole' ++ (locale.separator ++ xs) := by
  obtain ⟨c, rest, hsep, hplain⟩ := h.separated
  intro htext
  apply hplain whole
  rw [htext, hsep]
  simp

/-- A text is the whole number and the digits of one amount only. -/
theorem Locale.Exact.write_inj (h : locale.Exact) {whole whole' : ℕ} {digits digits' : List Char} :
    locale.write whole digits = locale.write whole' digits' ↔ whole = whole' ∧ digits = digits' := by
  unfold Locale.write
  by_cases hnil : digits = [] <;> by_cases hnil' : digits' = []
  · rw [if_pos hnil, if_pos hnil', List.append_nil, List.append_nil, h.injective.eq_iff]
    simp [hnil, hnil']
  · rw [if_pos hnil, if_neg hnil', List.append_nil]
    simp [h.formatNumber_ne, hnil, Ne.symm hnil']
  · rw [if_neg hnil, if_pos hnil', List.append_nil]
    simp [(h.formatNumber_ne _ _ _).symm, hnil, hnil']
  · rw [if_neg hnil, if_neg hnil', h.append_inj]

/-- A text is tidy exactly when its digits do not end in zero. -/
theorem Locale.Exact.tidy_write_iff (h : locale.Exact) {whole : ℕ} {digits : List Char} :
    locale.Tidy (locale.write whole digits) ↔ digits.getLast? ≠ some '0' := by
  unfold Locale.Tidy Locale.write
  by_cases hnil : digits = []
  · simp [hnil, h.formatNumber_ne]
  · simp only [if_neg hnil, h.append_inj]
    constructor
    · intro htidy
      exact (htidy whole digits ⟨rfl, rfl⟩).2
    · rintro hlast n ds ⟨rfl, rfl⟩
      exact ⟨hnil, hlast⟩

/-- A text of the form that is written denotes one number. -/
theorem Locale.Exact.denotes_write_iff (h : locale.Exact) {whole : ℕ} {digits : List Char}
    (hdigits : Numeral digits) {q : ℚ} :
    locale.Denotes (locale.write whole digits) q ↔
      q = whole + numeralValue digits / 10 ^ digits.length := by
  constructor
  · rintro ⟨whole', digits', -, htext, rfl⟩
    obtain ⟨rfl, rfl⟩ := h.write_inj.mp htext
    rfl
  · rintro rfl
    exact ⟨whole, digits, hdigits, rfl, rfl⟩

/-- The digits shown have the value of the four places. -/
theorem Shown.value_div {digits : List Char} (h : Shown fraction decimals digits) :
    (numeralValue digits / 10 ^ digits.length : ℚ) = fourPlaces fraction decimals / 10 ^ 4 := by
  have hpow : (10 : ℚ) ^ 4 = 10 ^ (4 - digits.length) * 10 ^ digits.length := by
    rw [← pow_add, Nat.sub_add_cancel h.length_le]
  rw [← h.value, Nat.cast_mul, hpow, Nat.cast_pow]
  field_simp
  push_cast
  rfl

/-- The text denotes the amount cut off after four places, and nothing else. It ends in a zero
behind its separator exactly when something was cut off and the fourth place is a zero. And two
amounts are shown alike exactly when they agree to four places and both or none of them end
cleanly. -/
theorem formatTokenAmount_truncates (h : locale.Exact) (units decimals : ℕ) :
    (∀ q : ℚ, locale.Denotes (formatTokenAmount locale units decimals) q ↔
      q = (units * 10 ^ 4 / 10 ^ decimals : ℕ) / 10 ^ 4) ∧
    (locale.Tidy (formatTokenAmount locale units decimals) ↔ EndsCleanly units decimals) ∧
    ∀ units' decimals' : ℕ,
      (formatTokenAmount locale units decimals = formatTokenAmount locale units' decimals' ↔
        units * 10 ^ 4 / 10 ^ decimals = units' * 10 ^ 4 / 10 ^ decimals' ∧
          (EndsCleanly units decimals ↔ EndsCleanly units' decimals')) := by
  have hshown := shown_fractionDigits units decimals
  refine ⟨fun q => ?_, ?_, fun units' decimals' => ?_⟩
  · change _ ↔ q = (fourPlaces units decimals : ℕ) / 10 ^ 4
    rw [formatTokenAmount_eq, h.denotes_write_iff hshown.numeral, hshown.value_div,
      fourPlaces_eq units decimals, Nat.cast_add, Nat.cast_mul, Nat.cast_pow, Nat.cast_ofNat,
      add_div, mul_div_cancel_right₀ _ (by norm_num)]
  · rw [formatTokenAmount_eq, h.tidy_write_iff, hshown.last_ne_iff, endsCleanly_mod]
  · have hshown' := shown_fractionDigits units' decimals'
    change _ ↔ fourPlaces units decimals = fourPlaces units' decimals' ∧ _
    rw [formatTokenAmount_eq, formatTokenAmount_eq, h.write_inj, hshown.unique hshown',
      endsCleanly_mod, endsCleanly_mod, fourPlaces_eq units, fourPlaces_eq units', ← and_assoc]
    have hlt := fourPlaces_lt units decimals
    have hlt' := fourPlaces_lt units' decimals'
    refine and_congr_left fun _ => ?_
    omega

/-! ## The English locale -/

/-- A comma after every three digits, from the least significant one. -/
def groupThousands : List Char → List Char
  | a :: b :: c :: d :: rest => a :: b :: c :: ',' :: groupThousands (d :: rest)
  | digits => digits

/-- An integer in the English number format. -/
def englishNumber : ℤ → List Char
  | .ofNat n => (groupThousands (Nat.toDigits 10 n).reverse).reverse
  | .negSucc n => '-' :: (groupThousands (Nat.toDigits 10 (n + 1)).reverse).reverse

/-- The number format of the one locale that the frontend supports. -/
def english : Locale := ⟨englishNumber, ['.']⟩

/-- Without its commas a grouped number is the number. -/
theorem filter_groupThousands {digits : List Char} (h : ∀ c ∈ digits, c ≠ ',') :
    (groupThousands digits).filter (fun c => c != ',') = digits := by
  fun_induction groupThousands digits with
  | case1 a b c d rest ih =>
    have hrest := ih fun x hx => h x (by simp at hx ⊢; tauto)
    have ha := h a (by simp)
    have hb := h b (by simp)
    have hc := h c (by simp)
    simp [ha, hb, hc, hrest]
  | case2 digits =>
    rw [List.filter_eq_self]
    intro c hc
    simpa using h c hc

/-- A grouped number is made of its digits and commas. -/
theorem mem_groupThousands {digits : List Char} {x : Char} (h : x ∈ groupThousands digits) :
    x ∈ digits ∨ x = ',' := by
  fun_induction groupThousands digits with
  | case1 a b c d rest ih =>
    simp only [List.mem_cons] at h ih ⊢
    tauto
  | case2 digits => exact .inl h

/-- English numbers are grouped in thousands. -/
theorem english_formatNumber (n : ℕ) :
    english.formatNumber n = (groupThousands (Nat.toDigits 10 n).reverse).reverse := rfl

/-- English numbers are written exactly. -/
theorem english_exact : english.Exact where
  injective := by
    intro m n hmn
    have hplain : ∀ k : ℕ, ∀ c ∈ (Nat.toDigits 10 k).reverse, c ≠ ',' := by
      rintro k c hc rfl
      exact absurd (numeral_toDigits k ',' (List.mem_reverse.mp hc)) (by decide)
    simp only [english_formatNumber] at hmn
    have hdigits := congrArg (List.filter fun c => c != ',') (List.reverse_injective hmn)
    rw [filter_groupThousands (hplain m), filter_groupThousands (hplain n)] at hdigits
    rw [← numeralValue_toDigits m, ← numeralValue_toDigits n, List.reverse_injective hdigits]
  separated := by
    refine ⟨'.', [], rfl, fun n hmem => ?_⟩
    rw [english_formatNumber, List.mem_reverse] at hmem
    rcases mem_groupThousands hmem with hdigit | hcomma
    · exact absurd (numeral_toDigits n '.' (List.mem_reverse.mp hdigit)) (by decide)
    · exact absurd hcomma (by decide)

/-- An English amount of seven decimals is cut to four, tidily. -/
theorem formatTokenAmount_truncates_english :
    formatTokenAmount english 12345671234567 7 = "1,234,567.1234".toList ∧
      english.Denotes (formatTokenAmount english 12345671234567 7) (12345671234 / 10000) ∧
      english.Tidy (formatTokenAmount english 12345671234567 7) := by
  obtain ⟨hdenotes, htidy, -⟩ := formatTokenAmount_truncates english_exact 12345671234567 7
  exact ⟨by decide, (hdenotes _).mpr (by norm_num), htidy.mpr (by decide)⟩

/-- One unit at seven decimals is shown as `0.0000`, and two amounts that agree to four places are
shown as `0.1` and `0.1000`. -/
theorem formatTokenAmount_trailing_zeros :
    formatTokenAmount english 1 7 = "0.0000".toList ∧
      ¬ english.Tidy (formatTokenAmount english 1 7) ∧
      formatTokenAmount english 1000000 7 = "0.1".toList ∧
      formatTokenAmount english 1000001 7 = "0.1000".toList ∧
      1000000 * 10 ^ 4 / 10 ^ 7 = 1000001 * 10 ^ 4 / 10 ^ 7 := by
  refine ⟨by decide, fun htidy => ?_, by decide, by decide, by decide⟩
  exact (htidy 0 "0000".toList (by decide)).2 (by decide)

end Quorum.Frontend

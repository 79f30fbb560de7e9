import Quorum.Foundation.Calendar
import Quorum.Foundation.Json

/-!
# The texts of dates

Dates are written as numerals of fixed lengths after fixed separators. Such a row of numerals is
read back as it was written, which gives the number of milliseconds back from an ISO text, and the
number of seconds from the form that is used in mails and feeds.
-/

namespace Foundation

/-! ## Numerals of a fixed length -/

/-- A decimal numeral, filled up with leading zeros to the given length. -/
def paddedUnits (width n : ℕ) : JsString :=
  (padStart width (Nat.toDigits 10 n)).map fun c => UInt16.ofNat c.toNat

/-- The code unit of a digit is its code. -/
theorem toNat_digitUnit {c : Char} (h : c.isDigit = true) :
    (UInt16.ofNat c.toNat).toNat = c.toNat := by
  have hdigit := toNat_digit h
  have hlt := numeralValue_singleton_lt h
  exact UInt16.toNat_ofNat_of_lt (by
    rw [UInt16.size]
    omega)

/-- Digits are units of the class `\d`. -/
theorem isDigitUnit_digit {c : Char} (h : c.isDigit = true) :
    isDigitUnit (UInt16.ofNat c.toNat) = true := by
  have hdigit := toNat_digit h
  have hlt := numeralValue_singleton_lt h
  rw [isDigitUnit, Bool.and_eq_true, decide_eq_true_eq, decide_eq_true_eq, UInt16.le_iff_toNat_le,
    UInt16.le_iff_toNat_le, toNat_digitUnit h]
  change 48 ≤ c.toNat ∧ c.toNat ≤ 57
  omega

/-- The code units of a numeral denote the same number. -/
theorem unitsValue_map {text : List Char} (h : Numeral text) :
    unitsValue (text.map fun c => UInt16.ofNat c.toNat) = numeralValue text := by
  have hfold : ∀ start, (text.map fun c => UInt16.ofNat c.toNat).foldl
      (fun n c => 10 * n + (c.toNat - 48)) start = Nat.ofDigitChars 10 text start := by
    induction text with
    | nil => exact fun _ => Nat.ofDigitChars_nil.symm
    | cons c text ih =>
      intro start
      rw [List.map_cons, List.foldl_cons, Nat.ofDigitChars_cons,
        ih fun d hd => h d (List.mem_cons_of_mem c hd), toNat_digitUnit (h c List.mem_cons_self)]
      rfl
  exact hfold 0

/-- A padded decimal number is a numeral. -/
theorem numeral_padStart_toDigits (width n : ℕ) : Numeral (padStart width (Nat.toDigits 10 n)) :=
  (numeral_toDigits n).padStart width

/-- A padded number has the value of the number. -/
theorem unitsValue_paddedUnits (width n : ℕ) : unitsValue (paddedUnits width n) = n := by
  rw [paddedUnits, unitsValue_map (numeral_padStart_toDigits width n), numeralValue_padStart,
    numeralValue_toDigits]

/-- A padded number is written in digits. -/
theorem isDigitUnit_paddedUnits {width n : ℕ} {c : UInt16} (h : c ∈ paddedUnits width n) :
    isDigitUnit c = true := by
  obtain ⟨d, hd, rfl⟩ := List.mem_map.mp h
  exact isDigitUnit_digit (numeral_padStart_toDigits width n d hd)

/-- A padded number that fits its width fills it. -/
theorem length_paddedUnits {width n : ℕ} (hwidth : 0 < width) (h : n < 10 ^ width) :
    (paddedUnits width n).length = width := by
  rw [paddedUnits, List.length_map,
    length_padStart ((Nat.length_toDigits_le_iff (by decide) hwidth).mpr h)]

/-- The number in the first so many code units, and what follows them. -/
def readNumeral (width : ℕ) (text : JsString) : Option (ℕ × JsString) :=
  let digits := text.take width
  if digits.length = width ∧ digits.all isDigitUnit then
    some (unitsValue digits, text.drop width)
  else none

/-- A padded number that fits its width is read back. -/
theorem readNumeral_paddedUnits {width n : ℕ} (hwidth : 0 < width) (h : n < 10 ^ width)
    (rest : JsString) : readNumeral width (paddedUnits width n ++ rest) = some (n, rest) := by
  have hlength := length_paddedUnits hwidth h
  have hall : (paddedUnits width n).all isDigitUnit = true :=
    List.all_eq_true.mpr fun _ => isDigitUnit_paddedUnits
  rw [readNumeral, List.take_left' hlength, List.drop_left' hlength]
  simp only [hlength, hall, and_self, if_true, unitsValue_paddedUnits]

/-- Numerals of the lengths of a layout, each after its separator. -/
def writeFields : List (UInt16 × ℕ) → List ℕ → JsString
  | (separator, width) :: layout, n :: values =>
    separator :: (paddedUnits width n ++ writeFields layout values)
  | _, _ => []

/-- The numbers in a row of numerals of a layout, and what follows them. -/
def readFields : List (UInt16 × ℕ) → JsString → Option (List ℕ × JsString)
  | [], text => some ([], text)
  | (separator, width) :: layout, c :: text =>
    if c = separator then
      (readNumeral width text).bind fun read =>
        (readFields layout read.2).map fun rest => (read.1 :: rest.1, rest.2)
    else none
  | _ :: _, [] => none

/-- The numbers are read back if they fit their lengths. -/
theorem readFields_writeFields {layout : List (UInt16 × ℕ)} {values : List ℕ}
    (h : List.Forall₂ (fun field n => 0 < field.2 ∧ n < 10 ^ field.2) layout values)
    (rest : JsString) :
    readFields layout (writeFields layout values ++ rest) = some (values, rest) := by
  induction h with
  | nil => rfl
  | cons hfield _ ih =>
    rw [writeFields, List.cons_append, readFields, if_pos rfl, List.append_assoc,
      readNumeral_paddedUnits hfield.1 hfield.2, Option.bind_some, ih]
    rfl

/-! ## ISO texts -/

/-- The largest distance of a date from 1 January 1970, in milliseconds. -/
def maxTime : ℤ := 8640000000000000

/-- What follows the year: month, day, hours, minutes, seconds and milliseconds. -/
def isoLayout : List (UInt16 × ℕ) := [(45, 2), (45, 2), (84, 2), (58, 2), (58, 2), (46, 3)]

/-- A year of four digits, or of six with a sign. -/
def isoYear (y : ℤ) : JsString :=
  if 0 ≤ y ∧ y ≤ 9999 then paddedUnits 4 y.toNat
  else (if y < 0 then 45 else 43) :: paddedUnits 6 y.natAbs

/-- The ISO text of a date, if there is such a date. -/
def toISOString (t : ℤ) : Option JsString :=
  if |t| ≤ maxTime then
    let fields := fieldsOf t
    some (isoYear fields.year ++ writeFields isoLayout [fields.month + 1, fields.day, fields.hours,
      fields.minutes, fields.seconds, fields.milliseconds] ++ [90])
  else none

/-- The year at the beginning of an ISO text, and what follows it. -/
def readYear : JsString → Option (ℤ × JsString)
  | [] => none
  | c :: text =>
    if c = 43 then (readNumeral 6 text).map fun read => ((read.1 : ℤ), read.2)
    else if c = 45 then
      (readNumeral 6 text).bind fun read => if read.1 = 0 then none else some (-read.1, read.2)
    else (readNumeral 4 (c :: text)).map fun read => ((read.1 : ℤ), read.2)

instance (date : CalendarDate) : Decidable date.Valid :=
  decidable_of_iff (date.month < 12 ∧ 1 ≤ date.day ∧
    date.day ≤ (monthLengths date.year).getD date.month 0)
    ⟨fun h => ⟨h.1, h.2.1, h.2.2⟩, fun h => ⟨h.month, h.first, h.last⟩⟩

instance (fields : DateFields) : Decidable fields.Valid :=
  decidable_of_iff (fields.toCalendarDate.Valid ∧ fields.hours < 24 ∧ fields.minutes < 60 ∧
    fields.seconds < 60 ∧ fields.milliseconds < 1000)
    ⟨fun h => ⟨h.1, h.2.1, h.2.2.1, h.2.2.2.1, h.2.2.2.2⟩,
      fun h => ⟨h.toValid, h.hours, h.minutes, h.seconds, h.milliseconds⟩⟩

/-- The date of a text in the form that `toISOString` writes. -/
def parseISO (text : JsString) : Option ℤ :=
  (readYear text).bind fun read =>
    match readFields isoLayout read.2 with
    | some ([month + 1, day, hours, minutes, seconds, milliseconds], [90]) =>
      let fields : DateFields := ⟨⟨read.1, month, day⟩, hours, minutes, seconds, milliseconds⟩
      if fields.Valid ∧ |makeTime fields| ≤ maxTime then some (makeTime fields) else none
    | _ => none

/-- A year of up to six digits is read back, with its sign. -/
theorem readYear_isoYear {y : ℤ} (h : |y| < 10 ^ 6) (rest : JsString) :
    readYear (isoYear y ++ rest) = some (y, rest) := by
  have hbounds := abs_lt.mp h
  unfold isoYear
  split
  case isTrue hshort =>
    have hfits : y.toNat < 10 ^ 4 := by omega
    have hread := readNumeral_paddedUnits (by decide) hfits rest
    cases htext : paddedUnits 4 y.toNat with
    | nil =>
      have hlength := length_paddedUnits (by decide) hfits
      rw [htext] at hlength
      contradiction
    | cons c text =>
      have hdigit : isDigitUnit c = true :=
        isDigitUnit_paddedUnits (htext ▸ List.mem_cons_self)
      have hplus : c ≠ 43 := by
        rintro rfl
        contradiction
      have hminus : c ≠ 45 := by
        rintro rfl
        contradiction
      rw [htext] at hread
      rw [List.cons_append] at hread ⊢
      rw [readYear, if_neg hplus, if_neg hminus, hread, Option.map_some, Int.toNat_of_nonneg hshort.1]
  case isFalse hlong =>
    have hfits : y.natAbs < 10 ^ 6 := by omega
    have hread := readNumeral_paddedUnits (by decide) hfits rest
    by_cases hneg : y < 0
    · rw [if_pos hneg, List.cons_append, readYear, if_neg (by decide), if_pos rfl, hread,
        Option.bind_some]
      simp only [if_neg (show ¬ y.natAbs = 0 by omega), Option.some.injEq, Prod.mk.injEq, and_true]
      omega
    · rw [if_neg hneg, List.cons_append, readYear, if_pos rfl, hread, Option.map_some]
      simp only [Option.some.injEq, Prod.mk.injEq, and_true]
      omega

/-- Dates have years of at most six digits. -/
theorem year_lt {t : ℤ} (h : |t| ≤ maxTime) : |(fieldsOf t).year| < 10 ^ 6 := by
  have hbounds := abs_le.mp h
  unfold maxTime at hbounds
  change |yearFromDay (t / 86400000)| < 10 ^ 6
  rw [abs_lt]
  grind [yearFromDay]

/-- The fields of a valid date fit the widths of their places. -/
theorem fits_isoLayout {fields : DateFields} (h : fields.Valid) :
    List.Forall₂ (fun field n => 0 < field.2 ∧ n < 10 ^ field.2) isoLayout
      [fields.month + 1, fields.day, fields.hours, fields.minutes, fields.seconds,
        fields.milliseconds] := by
  have hmonth := h.month
  have hday := h.day_le
  have hhours := h.hours
  have hminutes := h.minutes
  have hseconds := h.seconds
  have hmilliseconds := h.milliseconds
  exact .cons ⟨by decide, show fields.month + 1 < 10 ^ 2 by omega⟩
    (.cons ⟨by decide, show fields.day < 10 ^ 2 by omega⟩
    (.cons ⟨by decide, show fields.hours < 10 ^ 2 by omega⟩
    (.cons ⟨by decide, show fields.minutes < 10 ^ 2 by omega⟩
    (.cons ⟨by decide, show fields.seconds < 10 ^ 2 by omega⟩
    (.cons ⟨by decide, show fields.milliseconds < 10 ^ 3 by omega⟩ .nil)))))

/-- The text of a date gives the date back. -/
theorem parseISO_toISOString {t : ℤ} {text : JsString} (h : toISOString t = some text) :
    parseISO text = some t := by
  unfold toISOString at h
  split at h
  case isTrue hrange =>
    rw [← Option.some.inj h, List.append_assoc, parseISO, readYear_isoYear (year_lt hrange),
      Option.bind_some]
    simp only [readFields_writeFields (fits_isoLayout (fieldsOf_valid t))]
    have htime : makeTime (fieldsOf t) = t := makeTime_fieldsOf t
    exact (if_pos ⟨fieldsOf_valid t, by rwa [htime]⟩).trans (congrArg some htime)
  case isFalse => contradiction

/-! ## Texts in mails and feeds -/

def dayNames : List JsString :=
  [units "Sun", units "Mon", units "Tue", units "Wed", units "Thu", units "Fri", units "Sat"]

def monthNames : List JsString :=
  [units "Jan", units "Feb", units "Mar", units "Apr", units "May", units "Jun", units "Jul",
    units "Aug", units "Sep", units "Oct", units "Nov", units "Dec"]

/-- The weekday of a day, from Sunday on. 1 January 1970 was a Thursday. -/
def weekday (d : ℤ) : ℕ := ((d + 4) % 7).toNat

/-- Hours, minutes and seconds. -/
def clockLayout : List (UInt16 × ℕ) := [(32, 2), (58, 2), (58, 2)]

/-- The text of a date with weekday and month by name. -/
def toUTCString (t : ℤ) : JsString :=
  if |t| ≤ maxTime then
    let fields := fieldsOf t
    dayNames.getD (weekday (t / 86400000)) [] ++ (units ", " ++ (paddedUnits 2 fields.day ++
      (units " " ++ (monthNames.getD fields.month [] ++ (units " " ++
        ((if fields.year < 0 then [45] else []) ++ (paddedUnits 4 fields.year.natAbs ++
          (writeFields clockLayout [fields.hours, fields.minutes, fields.seconds] ++
            units " GMT"))))))))
  else units "Invalid Date"

/-- The integer at the beginning of a text, and what follows it. -/
def readInteger (text : JsString) : ℤ × JsString :=
  let sign : ℤ := if text.head? = some 45 then -1 else 1
  let digits := if text.head? = some 45 then text.drop 1 else text
  (sign * unitsValue (digits.takeWhile isDigitUnit), digits.dropWhile isDigitUnit)

/-- The date of a text with the month by name. The weekday is not looked at. -/
def parseUTC (text : JsString) : Option ℤ :=
  (readNumeral 2 (text.drop 5)).bind fun day =>
    let month := monthNames.idxOf ((day.2.drop 1).take 3)
    let year := readInteger (day.2.drop 5)
    match readFields clockLayout year.2 with
    | some ([hours, minutes, seconds], ending) =>
      let fields : DateFields := ⟨⟨year.1, month, day.1⟩, hours, minutes, seconds, 0⟩
      if ending = units " GMT" ∧ fields.Valid then some (makeTime fields) else none
    | _ => none

/-- The names of days have three letters. -/
theorem length_dayNames {n : ℕ} (h : n < 7) : (dayNames.getD n []).length = 3 := by
  revert n
  decide

/-- The names of months have three letters. -/
theorem length_monthNames {n : ℕ} (h : n < 12) : (monthNames.getD n []).length = 3 := by
  revert n
  decide

/-- A month is found by its name. -/
theorem idxOf_monthNames {n : ℕ} (h : n < 12) : monthNames.idxOf (monthNames.getD n []) = n := by
  revert n
  decide

/-- An integer before something that is no digit is read back. -/
theorem readInteger_written (y : ℤ) {rest : JsString}
    (hrest : ∀ c ∈ rest.head?, isDigitUnit c = false) :
    readInteger ((if y < 0 then [45] else []) ++ (paddedUnits 4 y.natAbs ++ rest)) =
      (y, rest) := by
  have hdigits : ∀ c ∈ paddedUnits 4 y.natAbs, isDigitUnit c = true :=
    fun c => isDigitUnit_paddedUnits
  have hends : rest.takeWhile isDigitUnit = [] ∧ rest.dropWhile isDigitUnit = rest := by
    cases rest with
    | nil => exact ⟨rfl, rfl⟩
    | cons c rest =>
      have hc : ¬ isDigitUnit c = true := by simp [hrest c rfl]
      exact ⟨List.takeWhile_cons_of_neg hc, List.dropWhile_cons_of_neg hc⟩
  have hread : unitsValue ((paddedUnits 4 y.natAbs ++ rest).takeWhile isDigitUnit) = y.natAbs ∧
      (paddedUnits 4 y.natAbs ++ rest).dropWhile isDigitUnit = rest := by
    rw [List.takeWhile_append_of_pos hdigits, List.dropWhile_append_of_pos hdigits, hends.1,
      hends.2, List.append_nil, unitsValue_paddedUnits]
    exact ⟨rfl, rfl⟩
  by_cases hneg : y < 0
  · simp only [readInteger, if_pos hneg, List.singleton_append, List.head?_cons, if_true,
      List.drop_succ_cons, List.drop_zero, hread]
    rw [Prod.mk.injEq]
    exact ⟨by omega, rfl⟩
  · have hhead : (paddedUnits 4 y.natAbs ++ rest).head? ≠ some 45 := by
      intro hhead
      cases htext : paddedUnits 4 y.natAbs with
      | nil =>
        have hvalue := unitsValue_paddedUnits 4 y.natAbs
        have hlength : 0 < (paddedUnits 4 y.natAbs).length := by
          simp [paddedUnits, padStart]
          omega
        rw [htext] at hlength
        contradiction
      | cons c text =>
        rw [htext] at hhead
        have hc := hdigits c (htext ▸ List.mem_cons_self)
        rw [Option.some.inj hhead] at hc
        contradiction
    simp only [readInteger, if_neg hneg, List.nil_append, if_neg hhead, hread]
    rw [Prod.mk.injEq]
    exact ⟨by omega, rfl⟩

/-- Written fields are made of digits and of the marks before them. -/
theorem mem_writeFields {layout : List (UInt16 × ℕ)} {values : List ℕ} {c : UInt16}
    (h : c ∈ writeFields layout values) : isDigitUnit c = true ∨ ∃ field ∈ layout, c = field.1 := by
  induction layout generalizing values with
  | nil =>
    cases values <;> contradiction
  | cons field layout ih =>
    cases values with
    | nil => contradiction
    | cons n values =>
      rw [writeFields, List.mem_cons, List.mem_append] at h
      rcases h with rfl | hdigit | hrest
      · exact .inr ⟨field, List.mem_cons_self, rfl⟩
      · exact .inl (isDigitUnit_paddedUnits hdigit)
      · exact (ih hrest).imp_right fun ⟨f, hf, hc⟩ => ⟨f, List.mem_cons_of_mem _ hf, hc⟩

/-- A letter, a digit, a space, or one of the signs between the parts of a date. -/
def isPlainUnit (c : UInt16) : Bool := isWordUnit c || c == 32 || c == 44 || c == 45 || c == 58

/-- Digits are plain. -/
theorem isPlainUnit_of_digit {c : UInt16} (h : isDigitUnit c = true) : isPlainUnit c = true := by
  rw [isPlainUnit, isWordUnit, h]
  rfl

/-- What a looked up name holds is in one of the names. -/
theorem mem_getD_nil {names : List JsString} {n : ℕ} {c : UInt16} (h : c ∈ names.getD n []) :
    ∃ name ∈ names, c ∈ name := by
  rw [List.getD_eq_getElem?_getD] at h
  cases hname : names[n]? with
  | none =>
    rw [hname] at h
    contradiction
  | some name =>
    rw [hname] at h
    exact ⟨name, List.mem_of_getElem? hname, h⟩

/-- Such texts are plain. -/
theorem plain_toUTCString {t : ℤ} {c : UInt16} (h : c ∈ toUTCString t) : isPlainUnit c = true := by
  have hnames : (dayNames ++ monthNames).all (fun name => name.all isPlainUnit) = true := by decide
  have hname : ∀ {names : List JsString} {n : ℕ}, names ⊆ dayNames ++ monthNames →
      c ∈ names.getD n [] → isPlainUnit c = true := by
    intro names n hsub hc
    obtain ⟨name, hmem, hc⟩ := mem_getD_nil hc
    exact List.all_eq_true.mp (List.all_eq_true.mp hnames name (hsub hmem)) c hc
  have hfixed : ∀ {text : JsString}, text.all isPlainUnit = true → c ∈ text →
      isPlainUnit c = true := fun htext hc => List.all_eq_true.mp htext c hc
  unfold toUTCString at h
  split at h
  case isTrue =>
    simp only [List.mem_append] at h
    rcases h with hday | hc | hdigit | hc | hmonth | hc | hsign | hdigit | hfields | hc
    · exact hname (List.subset_append_left _ _) hday
    · exact hfixed (by decide) hc
    · exact isPlainUnit_of_digit (isDigitUnit_paddedUnits hdigit)
    · exact hfixed (by decide) hc
    · exact hname (List.subset_append_right _ _) hmonth
    · exact hfixed (by decide) hc
    · split at hsign
      · exact hfixed (by decide) hsign
      · exact absurd hsign List.not_mem_nil
    · exact isPlainUnit_of_digit (isDigitUnit_paddedUnits hdigit)
    · rcases mem_writeFields hfields with hdigit | ⟨field, hfield, rfl⟩
      · exact isPlainUnit_of_digit hdigit
      · have hclock : clockLayout.all (fun field => isPlainUnit field.1) = true := by decide
        exact List.all_eq_true.mp hclock field hfield
    · exact hfixed (by decide) hc
  case isFalse => exact hfixed (by decide) h

/-- Without the milliseconds the time value is the one of the whole second. -/
theorem makeTime_second (fields : DateFields) :
    makeTime { fields with milliseconds := 0 } = makeTime fields - fields.milliseconds := by
  simp only [makeTime]
  omega

/-- The text of a date gives the date back, up to the second. -/
theorem parseUTC_toUTCString {t : ℤ} (h : |t| ≤ maxTime) :
    parseUTC (toUTCString t) = some (t - t % 1000) := by
  have hvalid := fieldsOf_valid t
  have hday : (fieldsOf t).day < 10 ^ 2 := by
    have := hvalid.day_le
    omega
  have hname : (dayNames.getD (weekday (t / 86400000)) []).length = 3 := length_dayNames (by
    unfold weekday
    omega)
  have hmonth : (monthNames.getD (fieldsOf t).month []).length = 3 :=
    length_monthNames hvalid.month
  have hskip : ∀ rest, (dayNames.getD (weekday (t / 86400000)) [] ++
      (units ", " ++ rest)).drop 5 = rest := by
    intro rest
    rw [← List.append_assoc]
    exact List.drop_left' (by
      rw [List.length_append, hname]
      rfl)
  have htake : ∀ rest, ((units " " ++ (monthNames.getD (fieldsOf t).month [] ++ rest)).drop
      1).take 3 = monthNames.getD (fieldsOf t).month [] := by
    intro rest
    exact List.take_left' hmonth
  have hyear : ∀ rest, (units " " ++ (monthNames.getD (fieldsOf t).month [] ++
      (units " " ++ rest))).drop 5 = rest := by
    intro rest
    rw [← List.append_assoc, ← List.append_assoc]
    exact List.drop_left' (by
      rw [List.length_append, List.length_append, hmonth]
      rfl)
  have hclock : List.Forall₂ (fun field n => 0 < field.2 ∧ n < 10 ^ field.2) clockLayout
      [(fieldsOf t).hours, (fieldsOf t).minutes, (fieldsOf t).seconds] := by
    have hhours := hvalid.hours
    have hminutes := hvalid.minutes
    have hseconds := hvalid.seconds
    exact .cons ⟨by decide, show (fieldsOf t).hours < 10 ^ 2 by omega⟩
      (.cons ⟨by decide, show (fieldsOf t).minutes < 10 ^ 2 by omega⟩
      (.cons ⟨by decide, show (fieldsOf t).seconds < 10 ^ 2 by omega⟩ .nil))
  have htime : makeTime { fieldsOf t with milliseconds := 0 } = t - t % 1000 := by
    have hrest : ((fieldsOf t).milliseconds : ℤ) = t % 1000 := by
      simp only [fieldsOf]
      omega
    rw [makeTime_second, makeTime_fieldsOf, hrest]
  have hwhole : DateFields.Valid { fieldsOf t with milliseconds := 0 } :=
    ⟨hvalid.toValid, hvalid.hours, hvalid.minutes, hvalid.seconds, Nat.zero_lt_succ 999⟩
  rw [toUTCString, if_pos h, parseUTC, hskip, readNumeral_paddedUnits (by decide) hday,
    Option.bind_some]
  simp only [htake, hyear, idxOf_monthNames hvalid.month]
  rw [readInteger_written _ (fun c hc => by
    obtain rfl : (32 : UInt16) = c := Option.some.inj hc
    decide)]
  simp only [readFields_writeFields hclock]
  exact (if_pos ⟨trivial, hwhole⟩).trans (congrArg some htime)

end Foundation

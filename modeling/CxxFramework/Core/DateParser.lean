import CxxFramework.Core.DateTranslator
import CxxFramework.Core.StringParser
import CxxFramework.Library.Calendar

/-!
# Reading a date back

`DateTranslator::ParseDate` reads what `UpdateDateBuffer` writes. The text is in GMT;
`mktime` takes a local time, so the parser first moves the hour by the distance of the time
zone from GMT, in whole hours.

A time zone is its fixed distance from GMT in seconds, `tm_gmtoff`, without daylight saving.
-/

namespace CxxFramework.Core.DateTranslator

/-! ## The C library -/

/-- `gmtime`. `none` stands for a year that `Tm` does not hold. -/
def s_gmtime (calendarTime : Int) : Option Tm :=
  let date := Calendar.ofDayNumber (calendarTime / 86400)
  let time := calendarTime % 86400
  if h : 1900 ≤ date.year ∧ date.year < 10000 then
    some
      { tm_sec := ⟨(time % 60).toNat, by omega⟩
        tm_min := ⟨(time / 60 % 60).toNat, by omega⟩
        tm_hour := ⟨(time / 3600).toNat, by omega⟩
        tm_mday := ⟨date.day.toNat, by
          have hday : date.day ≤ 31 := (Calendar.ofDayNumber_day (calendarTime / 86400)).2
          omega⟩
        tm_mon := date.month
        tm_year := ⟨(date.year - 1900).toNat, by omega⟩
        -- 1 January 1970 was a Thursday
        tm_wday := ⟨((calendarTime / 86400 + 4) % 7).toNat, by omega⟩ }
  else none

/-- `struct tm`, as `ParseDate` fills it: only the month is checked. -/
structure DateStruct where
  tm_sec : Int
  tm_min : Int
  tm_hour : Int
  tm_mday : Int
  tm_mon : Fin 12
  /-- The years since 1900. -/
  tm_year : Int
deriving DecidableEq, Repr

/-- `mktime`, which counts days, hours, minutes and seconds outside their ranges on. -/
def mktime (tm_gmtoff : Int) (t : DateStruct) : Int :=
  Calendar.dayNumber ⟨t.tm_year + 1900, t.tm_mon, t.tm_mday⟩ * 86400 + t.tm_hour * 3600 +
    t.tm_min * 60 + t.tm_sec - tm_gmtoff

/-! ## Writing -/

/-- `UpdateDateBuffer`; `now` is what `time` returns. `none` stands for a failed assertion. -/
def updateDateBuffer (now inDate gmtoffset : Int) : Option Bytes :=
  let calendarTime := (if inDate = 0 then now else inDate.tdiv 1000) + gmtoffset
  (s_gmtime calendarTime).bind fun gmt => if gmtoffset = 0 then some (strftime gmt) else none

/-! ## Reading -/

/-- `Time::GetGMTOffset` -/
def getGMTOffset (tm_gmtoff : Int) : Int := tm_gmtoff.tdiv 3600

def kMonthHashTable : List Nat :=
  [12, 12, 12, 12, 12, 12, 12, 12, 12, 11,
    1, 12, 12, 12, 12, 12, 12, 12, 12, 12,
    12, 12, 0, 12, 12, 12, 7, 12, 12, 2,
    12, 12, 3, 12, 12, 9, 4, 8, 12, 12,
    6, 12, 5, 12, 12, 12, 12, 12, 10, 12]

def kMonthHashTableSize : Nat := 49

/-- The conversion of a `UInt32` to `int`. -/
def toInt (n : Nat) : Int := Int.bmod n (2 ^ 32)

/-- `toupper`, of a `char` with a sign -/
def toupper (c : UInt8) : Int :=
  if 97 ≤ c ∧ c ≤ 122 then c.toNat - 32 else Int.bmod c.toNat (2 ^ 8)

def convertCharToMonthTableIndex (inChar : UInt8) : Nat :=
  ((toupper inChar - 65) % uint32Size).toNat

/-- The sum of the letters of a month. -/
def monthIndex (name : Bytes) : Nat :=
  (convertCharToMonthTableIndex (name.getD 0 0) + convertCharToMonthTableIndex (name.getD 1 0) +
    convertCharToMonthTableIndex (name.getD 2 0)) % uint32Size

/-- `kDateBufferLen` -/
def kDateBufferLen : Nat := 29

/-- `ParseDate` in a time zone; `beyond` is what stands behind the string in memory. -/
def parseDate (tm_gmtoff : Int) (beyond inDateString : Bytes) : Int :=
  if inDateString.length ≠ kDateBufferLen then 0
  else
    let p := (StringParser.ofString (some inDateString) beyond).consumeLength 5 |>.2
    let (tm_mday, p) := p.consumeInteger
    let p := p.consumeWhitespace
    if p.getDataRemaining < 4 then 0
    else
      let theIndex := monthIndex p.rest
      if kMonthHashTableSize < theIndex then 0
      else if h : kMonthHashTable.getD theIndex 12 < 12 then
        let p := (p.consumeLength 4).2
        let (year, p) := p.consumeInteger
        let p := p.consumeWhitespace
        let (tm_hour, p) := p.consumeInteger
        let p := (p.consumeLength 1).2
        let (tm_min, p) := p.consumeInteger
        let p := (p.consumeLength 1).2
        let (tm_sec, _) := p.consumeInteger
        mktime tm_gmtoff
          { tm_sec := toInt tm_sec
            tm_min := toInt tm_min
            tm_hour := toInt tm_hour + getGMTOffset tm_gmtoff
            tm_mday := toInt tm_mday
            tm_mon := ⟨kMonthHashTable.getD theIndex 12, h⟩
            tm_year := Int.bmod (year - 1900) (2 ^ 32) } * 1000
      else 0

/-! ## Numbers and months -/

theorem sDigitMask_digit (n : Nat) : sDigitMask (digit n) = true := by
  have hlt : n % 10 < 10 := Nat.mod_lt n (by decide)
  unfold digit
  interval_cases n % 10 <;> rfl

theorem toNat_digit (n : Nat) : (digit n).toNat - 48 = n % 10 := by
  have hlt : n % 10 < 10 := Nat.mod_lt n (by decide)
  rw [digit, UInt8.toNat_ofNat']
  omega

/-- The value of digits, as `ConsumeInteger` computes it. -/
def value (digits : Bytes) : Nat :=
  digits.foldl (fun theValue d => (theValue * 10 + (d.toNat - 48)) % uint32Size) 0

theorem value_twoDigits {n : Nat} (h : n < 100) : value (twoDigits n) = n := by
  simp only [value, twoDigits, List.foldl_cons, List.foldl_nil, toNat_digit, uint32Size]
  simp (disch := omega) only [Nat.mod_eq_of_lt]
  omega

theorem value_fourDigits {n : Nat} (h : n < 10000) : value (fourDigits n) = n := by
  simp only [value, fourDigits, twoDigits, List.cons_append, List.nil_append, List.foldl_cons,
    List.foldl_nil, toNat_digit, uint32Size]
  simp (disch := omega) only [Nat.mod_eq_of_lt]
  omega

theorem digits_twoDigits (n : Nat) : ∀ d ∈ twoDigits n, sDigitMask d = true := by
  simp [twoDigits, sDigitMask_digit]

theorem digits_fourDigits (n : Nat) : ∀ d ∈ fourDigits n, sDigitMask d = true := by
  simp [fourDigits, twoDigits, sDigitMask_digit]

theorem toInt_of_lt {n : Nat} (h : n < 10000) : toInt n = n := by
  unfold toInt
  rw [Int.bmod_eq_of_le] <;> omega

/-- The table tells the months apart by the sums of their letters. -/
theorem kMonthHashTable_monthName (tm_mon : Fin 12) (rest : Bytes) :
    monthIndex (monthName tm_mon ++ rest) ≤ kMonthHashTableSize ∧
      kMonthHashTable.getD (monthIndex (monthName tm_mon ++ rest)) 12 = tm_mon := by
  have hindex : monthIndex (monthName tm_mon ++ rest) = monthIndex (monthName tm_mon) := by
    simp [monthIndex, List.getElem?_append_left]
  have htable : ∀ tm_mon : Fin 12, monthIndex (monthName tm_mon) ≤ kMonthHashTableSize ∧
      kMonthHashTable.getD (monthIndex (monthName tm_mon)) 12 = tm_mon := by
    decide
  rw [hindex]
  exact htable tm_mon

/-! ## Reading what was written -/

section

variable {p : StringParser} {parsed rest : Bytes}

theorem consumeLength_text {text : Bytes} {n : Nat} (h : StringParser.At p parsed (text ++ rest))
    (hlen : text.length = n) :
    ∃ q, (p.consumeLength n).2 = q ∧ StringParser.At q (text.reverse ++ parsed) rest := by
  obtain ⟨q, hq, hat⟩ := h.consumeLength n
  rw [List.take_left' hlen, List.drop_left' hlen] at hat
  exact ⟨q, congrArg Prod.snd hq, hat⟩

theorem consumeLength_byte {c : UInt8} (h : StringParser.At p parsed (c :: rest)) :
    ∃ q, (p.consumeLength 1).2 = q ∧ StringParser.At q (c :: parsed) rest := by
  rw [← List.singleton_append] at h
  exact consumeLength_text h rfl

theorem consumeInteger_value {digits : Bytes} {c : UInt8}
    (h : StringParser.At p parsed (digits ++ c :: rest))
    (hdigits : ∀ d ∈ digits, sDigitMask d = true) (hc : sDigitMask c = false) :
    ∃ q, p.consumeInteger = (value digits, q) ∧
      StringParser.At q (digits.reverse ++ parsed) (c :: rest) :=
  h.consumeInteger hdigits hc

/-- A blank is skipped in front of a word. -/
theorem consumeWhitespace_word {word : Bytes}
    (hword : ∃ c tail, word = c :: tail ∧ sNonWhitespaceMask c = true)
    (h : StringParser.At p parsed (32 :: (word ++ rest))) :
    ∃ q, p.consumeWhitespace = q ∧ StringParser.At q (32 :: parsed) (word ++ rest) := by
  obtain ⟨c, tail, rfl, hc⟩ := hword
  obtain ⟨q, hq, hat⟩ := h.consumeByte sNonWhitespaceMask (by decide) hc
  exact ⟨q, congrArg Prod.snd hq, hat⟩

end

theorem twoDigits_word (n : Nat) :
    ∃ c tail, twoDigits n = c :: tail ∧ sNonWhitespaceMask c = true := by
  refine ⟨_, _, rfl, ?_⟩
  have hlt : n / 10 % 10 < 10 := Nat.mod_lt _ (by decide)
  unfold digit
  interval_cases n / 10 % 10 <;> rfl

theorem monthName_word (tm_mon : Fin 12) :
    ∃ c tail, monthName tm_mon = c :: tail ∧ sNonWhitespaceMask c = true := by
  refine ⟨(monthName tm_mon).headD 0, (monthName tm_mon).tail, ?_⟩
  revert tm_mon
  decide

/-- The parser reads the fields of the date that was written. -/
theorem parseDate_strftime (tm_gmtoff : Int) (beyond : Bytes) (gmt : Tm) :
    parseDate tm_gmtoff beyond (strftime gmt) =
      mktime tm_gmtoff
        { tm_sec := gmt.tm_sec.val
          tm_min := gmt.tm_min.val
          tm_hour := gmt.tm_hour.val + getGMTOffset tm_gmtoff
          tm_mday := gmt.tm_mday.val
          tm_mon := gmt.tm_mon
          tm_year := gmt.tm_year.val } * 1000 := by
  have htext : strftime gmt = (dayName gmt.tm_wday ++ ascii ", ") ++ (twoDigits gmt.tm_mday ++
      32 :: (monthName gmt.tm_mon ++ 32 :: (fourDigits (gmt.tm_year + 1900) ++
        32 :: (twoDigits gmt.tm_hour ++ 58 :: (twoDigits gmt.tm_min ++ 58 ::
          (twoDigits gmt.tm_sec ++ 32 :: ascii "GMT")))))) := by
    simp [strftime, ascii]
  have h₀ := StringParser.at_ofString (strftime gmt) beyond
  generalize hp₀ : StringParser.ofString (some (strftime gmt)) beyond = p₀ at h₀
  rw [htext] at h₀
  obtain ⟨p₁, hp₁, h₁⟩ := consumeLength_text h₀ (n := 5) (by simp [ascii])
  obtain ⟨p₂, hp₂, h₂⟩ := consumeInteger_value h₁ (digits_twoDigits _) (by decide)
  obtain ⟨p₃, hp₃, h₃⟩ := consumeWhitespace_word (monthName_word gmt.tm_mon) h₂
  have hrest := h₃.rest_eq
  rw [List.append_cons] at h₃
  obtain ⟨p₄, hp₄, h₄⟩ := consumeLength_text h₃ (n := 4) (by simp)
  obtain ⟨p₅, hp₅, h₅⟩ := consumeInteger_value h₄ (digits_fourDigits _) (by decide)
  obtain ⟨p₆, hp₆, h₆⟩ := consumeWhitespace_word (twoDigits_word gmt.tm_hour) h₅
  obtain ⟨p₇, hp₇, h₇⟩ := consumeInteger_value h₆ (digits_twoDigits _) (by decide)
  obtain ⟨p₈, hp₈, h₈⟩ := consumeLength_byte h₇
  obtain ⟨p₉, hp₉, h₉⟩ := consumeInteger_value h₈ (digits_twoDigits _) (by decide)
  obtain ⟨p₁₀, hp₁₀, h₁₀⟩ := consumeLength_byte h₉
  obtain ⟨p₁₁, hp₁₁, h₁₁⟩ := consumeInteger_value h₁₀ (digits_twoDigits _) (by decide)
  obtain ⟨hindex, hmonth⟩ := kMonthHashTable_monthName gmt.tm_mon
    (32 :: (fourDigits (gmt.tm_year + 1900) ++ 32 :: (twoDigits gmt.tm_hour ++
      58 :: (twoDigits gmt.tm_min ++ 58 :: (twoDigits gmt.tm_sec ++ 32 :: ascii "GMT")))))
  rw [← hrest] at hindex hmonth
  have hlen : ¬ p₃.getDataRemaining < 4 := by
    simp [StringParser.getDataRemaining, hrest]
    omega
  have hmday : gmt.tm_mday.val < 100 := by omega
  have hhour : gmt.tm_hour.val < 100 := by omega
  have hmin : gmt.tm_min.val < 100 := by omega
  have hsec : gmt.tm_sec.val < 100 := by omega
  have hyear : gmt.tm_year.val + 1900 < 10000 := by omega
  have hwrap : Int.bmod ((gmt.tm_year.val + 1900 : Nat) - 1900) (2 ^ 32) = gmt.tm_year.val := by
    rw [Int.bmod_eq_of_le] <;> omega
  unfold parseDate
  simp only [hp₀, hp₁, hp₂, hp₃, hp₄, hp₅, hp₆, hp₇, hp₈, hp₉, hp₁₀, hp₁₁, length_strftime,
    kDateBufferLen, ne_eq, not_true_eq_false, if_false, if_neg hlen, if_neg hindex.not_gt, hmonth,
    value_twoDigits hmday, value_twoDigits hhour, value_twoDigits hmin, value_twoDigits hsec,
    value_fourDigits hyear, hwrap]
  simp (disch := omega) only [toInt_of_lt]
  exact dif_pos gmt.tm_mon.isLt

/-! ## The round trip -/

/-- The first millisecond of the year 10000. -/
def year10000 : Int := Calendar.dayNumber ⟨10000, 0, 1⟩ * 86400 * 1000

/-- What `gmtime` fills stands for the time it was given. -/
theorem s_gmtime_eq (calendarTime : Int) (hpos : 0 ≤ calendarTime)
    (hlt : calendarTime * 1000 < year10000) : ∃ gmt, s_gmtime calendarTime = some gmt ∧
      Calendar.dayNumber ⟨(gmt.tm_year.val : Int) + 1900, gmt.tm_mon, gmt.tm_mday.val⟩ * 86400 +
        gmt.tm_hour.val * 3600 + gmt.tm_min.val * 60 + gmt.tm_sec.val = calendarTime := by
  have hfirst : (1970 : Int) ≤ (Calendar.ofDayNumber (calendarTime / 86400)).year := by
    refine Calendar.le_year ?_
    rw [show Calendar.dayNumber ⟨1970, 0, 1⟩ = 0 by decide]
    omega
  have hlast : (Calendar.ofDayNumber (calendarTime / 86400)).year < 10000 := by
    refine Calendar.year_lt ?_
    unfold year10000 at hlt
    omega
  have hday := Calendar.ofDayNumber_day (calendarTime / 86400)
  have hnumber := Calendar.dayNumber_ofDayNumber (calendarTime / 86400)
  refine ⟨_, dif_pos ⟨by omega, hlast⟩, ?_⟩
  have hdate : (⟨((Calendar.ofDayNumber (calendarTime / 86400)).year - 1900).toNat + 1900,
      (Calendar.ofDayNumber (calendarTime / 86400)).month,
      (Calendar.ofDayNumber (calendarTime / 86400)).day.toNat⟩ : Calendar.Date) =
      Calendar.ofDayNumber (calendarTime / 86400) := by
    rw [Int.toNat_of_nonneg (by omega), Int.toNat_of_nonneg (by omega), sub_add_cancel]
  simp only [hdate, hnumber]
  omega

/-- What is read back is off by what the whole hours miss of the distance from GMT. -/
theorem parseDate_updateDateBuffer {now inDate : Int} (tm_gmtoff : Int) (beyond : Bytes)
    (hpos : 0 < inDate) (hlt : inDate < year10000) :
    ∃ text, updateDateBuffer now inDate 0 = some text ∧
      parseDate tm_gmtoff beyond text =
        (inDate / 1000 + (tm_gmtoff.tdiv 3600 * 3600 - tm_gmtoff)) * 1000 := by
  have hdiv : inDate.tdiv 1000 = inDate / 1000 := Int.tdiv_eq_ediv_of_nonneg hpos.le
  obtain ⟨gmt, hgmt, htime⟩ := s_gmtime_eq (inDate / 1000) (by omega) (by omega)
  refine ⟨strftime gmt, ?_, ?_⟩
  · simp [updateDateBuffer, hpos.ne', hdiv, hgmt]
  · simp only [parseDate_strftime, mktime, getGMTOffset, ← htime]
    omega

/-- A date that is written is read back, to the second, in every time zone. -/
def RoundTrips (now inDate tm_gmtoff : Int) (beyond : Bytes) : Prop :=
  ∃ text, updateDateBuffer now inDate 0 = some text ∧
    parseDate tm_gmtoff beyond text = inDate / 1000 * 1000

/-- The date is read back exactly in the time zones that are whole hours from GMT. -/
theorem dateRoundTrips_iff {now inDate : Int} (tm_gmtoff : Int) (beyond : Bytes)
    (hpos : 0 < inDate) (hlt : inDate < year10000) :
    RoundTrips now inDate tm_gmtoff beyond ↔ 3600 ∣ tm_gmtoff := by
  obtain ⟨text, hwritten, hread⟩ := parseDate_updateDateBuffer tm_gmtoff beyond hpos hlt
  have hoff : tm_gmtoff.tdiv 3600 * 3600 = tm_gmtoff ↔ 3600 ∣ tm_gmtoff :=
    ⟨fun h => ⟨_, by rw [mul_comm]; exact h.symm⟩, Int.tdiv_mul_cancel⟩
  rw [← hoff]
  constructor
  · rintro ⟨text', hwritten', hread'⟩
    obtain rfl : text = text' := Option.some.inj (hwritten.symm.trans hwritten')
    omega
  · intro h
    exact ⟨text, hwritten, by rw [hread, h, sub_self, add_zero]⟩

theorem dateRoundTrips_iff_oneHour :
    RoundTrips 0 784111777000 3600 [0, 0] ↔ (3600 : Int) ∣ 3600 :=
  dateRoundTrips_iff 3600 [0, 0] (by decide) (by decide)

/-- Half an hour is lost where the time is five and a half hours ahead of GMT. -/
theorem halfHour_not_dateRoundTrips : ¬ RoundTrips 0 784111777000 19800 [0, 0] := by
  rintro ⟨text, hwritten, hread⟩
  obtain ⟨text', hwritten', hread'⟩ :=
    parseDate_updateDateBuffer 19800 [0, 0] (show (0 : Int) < 784111777000 by decide) (by decide)
  obtain rfl : text' = text := Option.some.inj (hwritten'.symm.trans hwritten)
  rw [hread] at hread'
  exact absurd hread' (by decide)

end CxxFramework.Core.DateTranslator

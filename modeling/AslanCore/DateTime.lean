import AslanCore.Digits

/-!
# Dates and times

A date and time of the proleptic Gregorian calendar, with the offset from UTC in which it is written.

* `DateTime.toordinal`, `DateTime.instant`: the days before a date, and the microseconds;
* `DateTime.eq_of_instant_eq`: an instant is written in one way, in each offset;
* `DateTime.isoformat`, `DateTime.isoformat_injective`: the text of a date and time is that of no
  other.
-/

namespace AslanCore

/-- `_is_leap`. -/
def isLeap (year : ℕ) : Bool := year % 4 = 0 ∧ (year % 100 ≠ 0 ∨ year % 400 = 0)

/-- `_days_in_month`. -/
def daysInMonth (year : ℕ) : ℕ → ℕ
  | 0 => 0
  | 2 => if isLeap year then 29 else 28
  | 4 | 6 | 9 | 11 => 30
  | _ => 31

/-- `_days_before_year`. -/
def daysBeforeYear (year : ℕ) : ℕ :=
  (year - 1) * 365 + (year - 1) / 4 - (year - 1) / 100 + (year - 1) / 400

/-- `_days_before_month`. -/
def daysBeforeMonth (year : ℕ) : ℕ → ℕ
  | 0 => 0
  | month + 1 => daysBeforeMonth year month + daysInMonth year month

/-- A date and time with an offset from UTC, in microseconds. -/
@[ext]
structure DateTime where
  year : ℕ
  month : ℕ
  day : ℕ
  hour : ℕ
  minute : ℕ
  second : ℕ
  microsecond : ℕ
  utcoffset : ℤ
  year_mem : 1 ≤ year ∧ year ≤ 9999
  month_mem : 1 ≤ month ∧ month ≤ 12
  day_mem : 1 ≤ day ∧ day ≤ daysInMonth year month
  hour_lt : hour < 24
  minute_lt : minute < 60
  second_lt : second < 60
  microsecond_lt : microsecond < 1000000
  utcoffset_lt : utcoffset.natAbs < 86400000000

namespace DateTime

variable {d d' : DateTime}

/-- `toordinal()`. -/
def toordinal (d : DateTime) : ℕ :=
  daysBeforeYear d.year + daysBeforeMonth d.year d.month + d.day

/-- The microseconds of the day. -/
def timeOfDay (d : DateTime) : ℕ :=
  ((d.hour * 60 + d.minute) * 60 + d.second) * 1000000 + d.microsecond

/-- The microseconds, in UTC. Two of them are compared by these. -/
def instant (d : DateTime) : ℤ := d.toordinal * 86400000000 + d.timeOfDay - d.utcoffset

/-- `_format_offset`. -/
def formatOffset (utcoffset : ℤ) : List Char :=
  let seconds := utcoffset.natAbs / 1000000
  let microseconds := utcoffset.natAbs % 1000000
  (if utcoffset < 0 then '-' else '+') :: (zeroPad 2 (seconds / 3600) ++
    ':' :: (zeroPad 2 (seconds / 60 % 60) ++
      if seconds % 60 = 0 ∧ microseconds = 0 then []
      else ':' :: (zeroPad 2 (seconds % 60) ++
        if microseconds = 0 then [] else '.' :: zeroPad 6 microseconds)))

/-- `isoformat()`. -/
def isoformat (d : DateTime) : String := String.ofList
  (zeroPad 4 d.year ++ '-' :: (zeroPad 2 d.month ++ '-' :: (zeroPad 2 d.day ++ 'T' ::
    (zeroPad 2 d.hour ++ ':' :: (zeroPad 2 d.minute ++ ':' :: (zeroPad 2 d.second ++
      ((if d.microsecond = 0 then [] else '.' :: zeroPad 6 d.microsecond) ++
        formatOffset d.utcoffset)))))))

/-! ### The calendar -/

theorem daysBeforeMonth_mono (year : ℕ) {m m' : ℕ} (h : m ≤ m') :
    daysBeforeMonth year m ≤ daysBeforeMonth year m' := by
  induction m', h using Nat.le_induction with
  | base => exact le_rfl
  | succ m' _ ih => exact ih.trans (Nat.le_add_right _ _)

/-- A month is over before the next one. -/
theorem add_daysInMonth_le (year : ℕ) {m m' : ℕ} (h : m < m') :
    daysBeforeMonth year m + daysInMonth year m ≤ daysBeforeMonth year m' :=
  daysBeforeMonth_mono year h

theorem daysBeforeMonth_thirteen (year : ℕ) :
    daysBeforeMonth year 13 = if isLeap year then 366 else 365 := by
  simp only [daysBeforeMonth, daysInMonth]
  split_ifs <;> rfl

/-- A year is one of 366 days exactly if it counts for the leap days of the next ones. -/
theorem daysBeforeYear_succ (n : ℕ) :
    daysBeforeYear (n + 2) = daysBeforeYear (n + 1) + daysBeforeMonth (n + 1) 13 := by
  have hle : n / 100 ≤ n / 4 := Nat.div_le_div_left (by decide) (by decide)
  have h4 : 100 ∣ n + 1 → 4 ∣ n + 1 := Nat.dvd_trans (by decide)
  have h100 : 400 ∣ n + 1 → 100 ∣ n + 1 := Nat.dvd_trans (by decide)
  simp only [daysBeforeMonth_thirteen, daysBeforeYear, isLeap, Nat.add_sub_cancel,
    show n + 2 - 1 = n + 1 from rfl, Nat.succ_div, ne_eq, ← Nat.dvd_iff_mod_eq_zero,
    decide_eq_true_iff]
  generalize n / 4 = q at hle
  generalize n / 100 = c at hle
  by_cases hc : 100 ∣ n + 1
  · by_cases hq : 400 ∣ n + 1
    · simp only [h4 hc, hc, hq, or_true, and_self, if_true]
      omega
    · simp only [h4 hc, hc, hq, not_true_eq_false, or_self, and_false, if_true, if_false]
      omega
  · have hq : ¬400 ∣ n + 1 := fun hq => hc (h100 hq)
    by_cases hf : 4 ∣ n + 1
    · simp only [hf, hc, hq, not_false_eq_true, true_or, and_self, if_true, if_false]
      omega
    · simp only [hf, hc, hq, false_and, if_false]
      omega

/-- A year is over before the next one. -/
theorem daysBeforeYear_add_le {y y' : ℕ} (hy : 1 ≤ y) (h : y < y') :
    daysBeforeYear y + daysBeforeMonth y 13 ≤ daysBeforeYear y' := by
  obtain ⟨n, rfl⟩ := Nat.exists_eq_add_of_le' hy
  rw [← daysBeforeYear_succ]
  induction y', h using Nat.le_induction with
  | base => exact le_rfl
  | succ y' hlt ih =>
    obtain ⟨m, rfl⟩ := Nat.exists_eq_add_of_le' (show 1 ≤ y' by omega)
    have hstep : daysBeforeYear (m + 1) ≤ daysBeforeYear (m + 2) := by
      rw [daysBeforeYear_succ]
      exact Nat.le_add_right _ _
    exact ih.trans hstep

theorem dayOfYear_le (d : DateTime) :
    daysBeforeMonth d.year d.month + d.day ≤ daysBeforeMonth d.year 13 := by
  have hmonth := d.month_mem
  have hday := d.day_mem
  have hle := add_daysInMonth_le d.year (show d.month < 13 by omega)
  omega

/-- A day has one date. -/
theorem eq_of_toordinal_eq (h : d.toordinal = d'.toordinal) :
    d.year = d'.year ∧ d.month = d'.month ∧ d.day = d'.day := by
  have hday := d.day_mem
  have hday' := d'.day_mem
  have hle := dayOfYear_le d
  have hle' := dayOfYear_le d'
  rw [toordinal, toordinal] at h
  have hyear : d.year = d'.year := by
    rcases lt_trichotomy d.year d'.year with hlt | heq | hlt
    · have := daysBeforeYear_add_le d.year_mem.1 hlt
      omega
    · exact heq
    · have := daysBeforeYear_add_le d'.year_mem.1 hlt
      omega
  rw [← hyear] at h hle' hday'
  have hmonth : d.month = d'.month := by
    rcases lt_trichotomy d.month d'.month with hlt | heq | hlt
    · have := add_daysInMonth_le d.year hlt
      omega
    · exact heq
    · have := add_daysInMonth_le d.year hlt
      omega
  rw [← hmonth] at h
  exact ⟨hyear, hmonth, by omega⟩

/-- An instant is written in one way, in each offset. -/
theorem eq_of_instant_eq (h : d.instant = d'.instant) (hoffset : d.utcoffset = d'.utcoffset) :
    d = d' := by
  have hhour := d.hour_lt
  have hminute := d.minute_lt
  have hsecond := d.second_lt
  have hmicro := d.microsecond_lt
  have hhour' := d'.hour_lt
  have hminute' := d'.minute_lt
  have hsecond' := d'.second_lt
  have hmicro' := d'.microsecond_lt
  rw [instant, instant, hoffset, timeOfDay, timeOfDay] at h
  have hord : d.toordinal = d'.toordinal := by omega
  obtain ⟨hyear, hmonth, hday⟩ := eq_of_toordinal_eq hord
  exact DateTime.ext hyear hmonth hday (by omega) (by omega) (by omega) (by omega) hoffset

/-! ### The text -/

/-- The fraction of a second, if there is one, in front of a text. -/
theorem fraction_append_inj {n n' : ℕ} {z z' : List Char}
    (hz : ∀ c ∈ z.head?, ¬c.isDigit ∧ c ≠ '.') (hz' : ∀ c ∈ z'.head?, ¬c.isDigit ∧ c ≠ '.')
    (h : (if n = 0 then [] else '.' :: zeroPad 6 n) ++ z =
      (if n' = 0 then [] else '.' :: zeroPad 6 n') ++ z') : n = n' ∧ z = z' := by
  split_ifs at h with hn hn' hn'
  · exact ⟨hn.trans hn'.symm, h⟩
  · rw [List.nil_append, List.cons_append] at h
    obtain ⟨-, hdot⟩ := hz '.' (by rw [h]; rfl)
    exact absurd rfl hdot
  · rw [List.nil_append, List.cons_append] at h
    obtain ⟨-, hdot⟩ := hz' '.' (by rw [← h]; rfl)
    exact absurd rfl hdot
  · exact zeroPad_append_inj (fun c hc => (hz c hc).1) (fun c hc => (hz' c hc).1)
      (List.cons.inj h).2

/-- Digits in front of a separator. -/
theorem zeroPad_cons_inj {width n n' : ℕ} {c : Char} {z z' : List Char} (hc : ¬c.isDigit)
    (h : zeroPad width n ++ c :: z = zeroPad width n' ++ c :: z') : n = n' ∧ z = z' := by
  have hhead : ∀ z : List Char, ∀ c' ∈ (c :: z).head?, ¬c'.isDigit := by
    intro z c' hc'
    rwa [← Option.some.inj hc']
  obtain ⟨hn, hz⟩ := zeroPad_append_inj (hhead z) (hhead z') h
  exact ⟨hn, (List.cons.inj hz).2⟩

/-- Two texts that are left out or begin with the same character. -/
theorem ite_cons_inj {p p' : Prop} [Decidable p] [Decidable p'] {c : Char} {x x' : List Char}
    (h : (if p then [] else c :: x) = if p' then [] else c :: x') : p ∧ p' ∨ x = x' := by
  by_cases hp : p
  · by_cases hp' : p'
    · exact .inl ⟨hp, hp'⟩
    · rw [if_pos hp, if_neg hp'] at h
      cases h
  · by_cases hp' : p'
    · rw [if_neg hp, if_pos hp'] at h
      cases h
    · rw [if_neg hp, if_neg hp'] at h
      exact .inr (List.cons.inj h).2

theorem formatOffset_injective {o o' : ℤ} (h : formatOffset o = formatOffset o') : o = o' := by
  rw [formatOffset, formatOffset] at h
  obtain ⟨hsign, h⟩ := List.cons.inj h
  obtain ⟨hhours, h⟩ := zeroPad_cons_inj (by decide) h
  have hcolon : ∀ p : Prop, [Decidable p] → ∀ z : List Char,
      ∀ c ∈ (if p then [] else ':' :: z).head?, ¬c.isDigit := by
    intro p _ z c hc
    split_ifs at hc
    · cases hc
    · rw [← Option.some.inj hc]
      decide
  obtain ⟨hminutes, h⟩ := zeroPad_append_inj (hcolon _ _) (hcolon _ _) h
  have hrest : o.natAbs / 1000000 % 60 = o'.natAbs / 1000000 % 60 ∧
      o.natAbs % 1000000 = o'.natAbs % 1000000 := by
    rcases ite_cons_inj h with ⟨hzero, hzero'⟩ | h
    · exact ⟨hzero.1.trans hzero'.1.symm, hzero.2.trans hzero'.2.symm⟩
    · have hpoint : ∀ n : ℕ, ∀ c ∈ (if n = 0 then [] else '.' :: zeroPad 6 n).head?,
          ¬c.isDigit := by
        intro n c hc
        split_ifs at hc
        · cases hc
        · rw [← Option.some.inj hc]
          decide
      obtain ⟨hseconds, h⟩ := zeroPad_append_inj (hpoint _) (hpoint _) h
      have hnil : ∀ c ∈ ([] : List Char).head?, ¬c.isDigit ∧ c ≠ '.' := by simp
      exact ⟨hseconds, (fraction_append_inj hnil hnil (congrArg (· ++ []) h)).1⟩
  have habs : o.natAbs = o'.natAbs := by omega
  split_ifs at hsign with hneg hneg' hneg'
  · omega
  · exact absurd hsign (by decide)
  · exact absurd hsign (by decide)
  · omega

/-- The text of a date and time is that of no other. -/
theorem isoformat_injective : Function.Injective isoformat := by
  intro d d' h
  have h := String.ofList_inj.1 h
  obtain ⟨hyear, h⟩ := zeroPad_cons_inj (by decide) h
  obtain ⟨hmonth, h⟩ := zeroPad_cons_inj (by decide) h
  obtain ⟨hday, h⟩ := zeroPad_cons_inj (by decide) h
  obtain ⟨hhour, h⟩ := zeroPad_cons_inj (by decide) h
  obtain ⟨hminute, h⟩ := zeroPad_cons_inj (by decide) h
  have hsign : ∀ o, ∀ c ∈ (formatOffset o).head?, ¬c.isDigit ∧ c ≠ '.' := by
    intro o c hc
    rw [formatOffset, List.head?_cons, Option.mem_def, Option.some.injEq] at hc
    subst hc
    split_ifs <;> decide
  have hfraction : ∀ n o, ∀ c ∈ ((if n = 0 then [] else '.' :: zeroPad 6 n) ++
      formatOffset o).head?, ¬c.isDigit := by
    intro n o c hc
    split_ifs at hc
    · exact (hsign o c hc).1
    · rw [← Option.some.inj hc]
      decide
  obtain ⟨hsecond, h⟩ := zeroPad_append_inj (hfraction _ _) (hfraction _ _) h
  obtain ⟨hmicro, h⟩ := fraction_append_inj (hsign _) (hsign _) h
  exact DateTime.ext hyear hmonth hday hhour hminute hsecond hmicro (formatOffset_injective h)

end DateTime

end AslanCore

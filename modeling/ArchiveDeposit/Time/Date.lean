/-!
# Calendar dates

Dates of the Gregorian calendar, extended to all years, and their numbering by days.  Day 0 is the
first of January 1970.

A date carries the proof that it exists, so every function that makes one shows that its day lies
in its month.  For `Date.ofDayNumber` this is a count of centuries, of four-year spans and of years
within the 400 years after which the calendar repeats.
-/

namespace ArchiveDeposit

section Date

/-- Whether a year has 366 days. -/
def isLeapYear (year : Int) : Bool :=
  year % 4 == 0 && (year % 100 != 0 || year % 400 == 0)

/-- The number of days of a month. -/
def daysInMonth (year : Int) : Nat → Nat
  | 2 => if isLeapYear year then 29 else 28
  | 4 | 6 | 9 | 11 => 30
  | _ => 31

/-- Whether the calendar has this day. -/
abbrev IsDate (year : Int) (month day : Nat) : Prop :=
  1 ≤ month ∧ month ≤ 12 ∧ 1 ≤ day ∧ day ≤ daysInMonth year month

/-- A day of the calendar. -/
structure Date where
  year : Int
  month : Nat
  day : Nat
  exists_in_calendar : IsDate year month day
deriving DecidableEq

namespace Date

/-- The date with the given year, month and day, if there is one. -/
def ofFields? (year : Int) (month day : Nat) : Option Date :=
  if h : IsDate year month day then some ⟨year, month, day, h⟩ else none

theorem ofFields?_self (d : Date) : ofFields? d.year d.month d.day = some d := by
  simp only [ofFields?]
  rw [dif_pos d.exists_in_calendar]

theorem ofFields?_eq_some {year : Int} {month day : Nat} {d : Date}
    (h : ofFields? year month day = some d) : d.year = year ∧ d.month = month ∧ d.day = day := by
  unfold ofFields? at h
  split at h
  · obtain rfl := Option.some.inj h
    exact ⟨rfl, rfl, rfl⟩
  · cases h

theorem one_le_daysInMonth (year : Int) (month : Nat) : 1 ≤ daysInMonth year month := by
  unfold daysInMonth
  split
  · split <;> decide
  all_goals decide

theorem daysInMonth_le (year : Int) (month : Nat) : daysInMonth year month ≤ 31 := by
  unfold daysInMonth
  split
  · split <;> decide
  all_goals decide

/-- The day after. -/
def next (d : Date) : Date :=
  if h : d.day + 1 ≤ daysInMonth d.year d.month then
    ⟨d.year, d.month, d.day + 1,
      d.exists_in_calendar.1, d.exists_in_calendar.2.1, by omega, h⟩
  else if h : d.month + 1 ≤ 12 then
    ⟨d.year, d.month + 1, 1, by omega, h, by omega, one_le_daysInMonth _ _⟩
  else
    ⟨d.year + 1, 1, 1, by decide, by decide, by decide, one_le_daysInMonth _ _⟩

/-- The day before. -/
def previous (d : Date) : Date :=
  if h : 1 ≤ d.day - 1 then
    ⟨d.year, d.month, d.day - 1, d.exists_in_calendar.1, d.exists_in_calendar.2.1, h,
      Nat.le_trans (Nat.sub_le _ _) d.exists_in_calendar.2.2.2⟩
  else if h : 1 ≤ d.month - 1 then
    ⟨d.year, d.month - 1, daysInMonth d.year (d.month - 1), h,
      Nat.le_trans (Nat.sub_le _ _) d.exists_in_calendar.2.1,
      one_le_daysInMonth _ _, Nat.le_refl _⟩
  else
    ⟨d.year - 1, 12, 31, by decide, by decide, by decide, Nat.le_refl _⟩

/-- The number of days from the first of March of year 0 to a date. -/
def dayOfEpochMarch (d : Date) : Int :=
  let year := if d.month ≤ 2 then d.year - 1 else d.year
  let month : Int := if d.month ≤ 2 then d.month + 9 else d.month - 3
  let dayOfYear := (153 * month + 2) / 5 + d.day - 1
  year * 365 + year / 4 - year / 100 + year / 400 + dayOfYear

/-- The number of the first of January 1970, counted from the first of March of year 0. -/
def unixEpochDay : Int := 719468

/-- The number of a date; day 0 is the first of January 1970. -/
def dayNumber (d : Date) : Int := d.dayOfEpochMarch - unixEpochDay

/-- The month and the day of a day counted from the first of March. -/
def monthDayOfMarchDay (n : Nat) : Nat × Nat :=
  let m := (5 * n + 2) / 153
  (if m < 10 then m + 3 else m - 9, n - (153 * m + 2) / 5 + 1)

/-- Days counted from March lie in their month, the last of them only in a leap year. -/
theorem monthDayOfMarchDay_valid :
    ∀ n < 366, 1 ≤ (monthDayOfMarchDay n).1 ∧ (monthDayOfMarchDay n).1 ≤ 12 ∧
      1 ≤ (monthDayOfMarchDay n).2 ∧
      (monthDayOfMarchDay n).2 ≤
        (if (monthDayOfMarchDay n).1 = 2 then (if n = 365 then 29 else 28)
          else daysInMonth 1 (monthDayOfMarchDay n).1) := by
  decide +kernel

/-- Outside February the length of a month does not depend on the year. -/
theorem daysInMonth_of_ne_two {year other : Int} {month : Nat} (h : month ≠ 2) :
    daysInMonth year month = daysInMonth other month := by
  unfold daysInMonth
  split
  · exact absurd rfl h
  all_goals rfl

/-- The century, the four-year span in it, the year in that, and the day of that year, of a day of
a 400-year span that begins with the first of March. -/
def splitEra (n : Nat) : Nat × Nat × Nat × Nat :=
  let century := min (n / 36524) 3
  let inCentury := n - century * 36524
  let span := inCentury / 1461
  let inSpan := inCentury - span * 1461
  let year := min (inSpan / 365) 3
  (century, span, year, inSpan - year * 365)

/-- A day of a 400-year span is at most the 366th of its year, and that only where the February at
the end of the year has a leap day. -/
theorem splitEra_valid {n : Nat} (h : n < 146097) :
    (splitEra n).2.2.2 < 366 ∧
      ((splitEra n).2.2.2 = 365 →
        (splitEra n).2.2.1 = 3 ∧ ((splitEra n).2.1 = 24 → (splitEra n).1 = 3) ∧
          (splitEra n).2.1 ≤ 24 ∧ (splitEra n).1 ≤ 3) := by
  simp only [splitEra]
  omega

/-- The years of a 400-year span whose last February has a leap day. -/
theorem isLeapYear_of_splitEra {era : Int} {century span : Nat}
    (hs : span ≤ 24) (h : span = 24 → century = 3) :
    isLeapYear (era * 400 + (century * 100 + span * 4 + 3 : Nat) + 1) = true := by
  simp only [isLeapYear, Bool.and_eq_true, Bool.or_eq_true, beq_iff_eq, bne_iff_ne]
  omega

/-- The date with a number; day 0 is the first of January 1970. -/
def ofDayNumber (n : Int) : Date :=
  let shifted := n + unixEpochDay
  let era := shifted / 146097
  let inEra := (shifted % 146097).toNat
  let parts := splitEra inEra
  let monthDay := monthDayOfMarchDay parts.2.2.2
  let marchYear := era * 400 + (parts.1 * 100 + parts.2.1 * 4 + parts.2.2.1 : Nat)
  let year := if monthDay.1 ≤ 2 then marchYear + 1 else marchYear
  ⟨year, monthDay.1, monthDay.2, by
    have hera : inEra < 146097 := by omega
    obtain ⟨hday, hlast⟩ := splitEra_valid hera
    obtain ⟨hm, hm', hd, hd'⟩ := monthDayOfMarchDay_valid _ hday
    refine ⟨hm, hm', hd, Nat.le_trans hd' ?_⟩
    by_cases h2 : (monthDayOfMarchDay parts.2.2.2).1 = 2
    · rw [if_pos h2]
      by_cases hl : parts.2.2.2 = 365
      · obtain ⟨hy, hs, hs', _⟩ := hlast hl
        have hleap :
            isLeapYear (era * 400 + (parts.1 * 100 + parts.2.1 * 4 + 3 : Nat) + 1) = true :=
          isLeapYear_of_splitEra hs' hs
        have hyear : year = era * 400 + (parts.1 * 100 + parts.2.1 * 4 + 3 : Nat) + 1 := by
          have hle : monthDay.1 ≤ 2 := Nat.le_of_eq h2
          simp only [year, marchYear, if_pos hle]
          rw [show parts.2.2.1 = 3 from hy]
        rw [if_pos hl, hyear, show monthDay.1 = 2 from h2]
        simp only [daysInMonth]
        exact Nat.le_of_eq (if_pos hleap).symm
      · rw [if_neg hl, show monthDay.1 = 2 from h2]
        simp only [daysInMonth]
        split <;> decide
    · rw [if_neg h2]
      exact Nat.le_of_eq (daysInMonth_of_ne_two h2)⟩

end Date

end Date

end ArchiveDeposit

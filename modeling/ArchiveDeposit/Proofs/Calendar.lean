import ArchiveDeposit.Time.Timestamp
import Mathlib.Order.Compare
import Mathlib.Order.Monotone.Basic

/-!
# The order of instants

Dates are numbered by days, and instants by seconds, in the order in which they come.  The numbering
counts years from March, so that a leap day is the last day of its year: a year begins after all
days of the year before, and in it a month after all days of the month before.

**Results.**
* `Date.dayNumber_lt_of_before`: an earlier date has a smaller number.
* `Date.dayNumber_bijective`: every number is that of one date.
* `Timestamp.compare_unixSeconds`: instants are ordered as their seconds are, and in the same second
  as their nanoseconds.
-/

namespace ArchiveDeposit

section Calendar

namespace Date

variable {d e : Date}

/-- The year of a date where years begin with March. -/
def marchYear (d : Date) : Int := if d.month ≤ 2 then d.year - 1 else d.year

/-- The place of a month where March has place 0. -/
def marchPlace (month : Nat) : Nat := if month ≤ 2 then month + 9 else month - 3

/-- The number of days from March to the month at a place. -/
def daysBeforePlace (place : Nat) : Nat := (153 * place + 2) / 5

/-- The number of days from the first of March of year 0 to that of another year. -/
def daysBeforeYear (year : Int) : Int := year * 365 + year / 4 - year / 100 + year / 400

theorem dayNumber_eq (d : Date) :
    d.dayNumber = daysBeforeYear d.marchYear + daysBeforePlace (marchPlace d.month) + d.day - 1 -
      unixEpochDay := by
  simp only [dayNumber, dayOfEpochMarch, daysBeforeYear, daysBeforePlace, marchYear, marchPlace]
  split <;> omega

/-- The days of a year, the last of them those of the February at its end. -/
theorem daysBeforeYear_succ (year : Int) :
    daysBeforeYear (year + 1) = daysBeforeYear year + 337 + daysInMonth (year + 1) 2 := by
  have hfebruary : daysInMonth (year + 1) 2 = if isLeapYear (year + 1) then 29 else 28 := rfl
  rw [hfebruary]
  unfold daysBeforeYear
  split
  all_goals
    next h =>
      simp only [isLeapYear, Bool.and_eq_true, Bool.or_eq_true, beq_iff_eq, bne_iff_ne] at h
      omega

/-- A later year begins later. -/
theorem daysBeforeYear_le {year later : Int} (h : year ≤ later) :
    daysBeforeYear year ≤ daysBeforeYear later := by
  have hmonotone : Monotone daysBeforeYear := by
    refine monotone_int_of_le_succ fun year => ?_
    rw [daysBeforeYear_succ]
    omega
  exact hmonotone h

/-- The last place is that of February. -/
theorem marchPlace_month_le (d : Date) : marchPlace d.month ≤ 11 := by
  have hlast := d.exists_in_calendar.2.1
  unfold marchPlace
  split <;> omega

/-- A month ends before the next one begins; only of the last month the length depends on the
year. -/
theorem daysBeforePlace_add_day_le (h : d.month ≠ 2) :
    daysBeforePlace (marchPlace d.month) + d.day ≤ daysBeforePlace (marchPlace d.month + 1) := by
  have hlengths : ∀ month < 13, month ≠ 2 →
      daysBeforePlace (marchPlace month) + daysInMonth 1 month ≤
        daysBeforePlace (marchPlace month + 1) := by
    decide
  obtain ⟨_, hmonth, _, hday⟩ := d.exists_in_calendar
  rw [daysInMonth_of_ne_two h] at hday
  exact Nat.le_trans (Nat.add_le_add_left hday _) (hlengths d.month (by omega) h)

/-- All days of a year lie before the next one. -/
theorem daysBeforePlace_add_day_le_year (d : Date) :
    daysBeforePlace (marchPlace d.month) + d.day ≤ 337 + daysInMonth (d.marchYear + 1) 2 := by
  obtain ⟨hfirst, hlast, _, hday⟩ := d.exists_in_calendar
  by_cases hmonth : d.month = 2
  · rw [marchYear, hmonth, if_pos (Nat.le_refl 2), Int.sub_add_cancel]
    rw [hmonth] at hday
    exact Nat.add_le_add_left hday 337
  · have hle := daysBeforePlace_add_day_le hmonth
    have hplace : daysBeforePlace (marchPlace d.month + 1) ≤ 337 := by
      simp only [daysBeforePlace, marchPlace]
      split <;> omega
    omega

/-- Whether a date comes before another. -/
def Before (d e : Date) : Prop :=
  d.year < e.year ∨ d.year = e.year ∧ (d.month < e.month ∨ d.month = e.month ∧ d.day < e.day)

/-- The order of dates is the same where years begin with March. -/
theorem Before.march (h : d.Before e) :
    d.marchYear < e.marchYear ∨ d.marchYear = e.marchYear ∧
      (marchPlace d.month < marchPlace e.month ∨ d.month = e.month ∧ d.day < e.day) := by
  obtain ⟨_, hd, _⟩ := d.exists_in_calendar
  obtain ⟨_, he, _⟩ := e.exists_in_calendar
  unfold Before at h
  unfold marchYear marchPlace
  split <;> split <;> omega

/-- An earlier date has a smaller number. -/
theorem dayNumber_lt_of_before (h : d.Before e) : d.dayNumber < e.dayNumber := by
  have hfirst := e.exists_in_calendar.2.2.1
  rw [dayNumber_eq, dayNumber_eq]
  rcases h.march with hyear | ⟨hyear, hplace | ⟨hmonth, hday⟩⟩
  · have hend := d.daysBeforePlace_add_day_le_year
    have hyears := daysBeforeYear_le (Int.add_one_le_of_lt hyear)
    rw [daysBeforeYear_succ] at hyears
    omega
  · -- February is the last month, so its length, which the year decides, is not asked for here.
    have hmonth : d.month ≠ 2 := by
      intro hlast
      have hbound := e.marchPlace_month_le
      rw [hlast, show marchPlace 2 = 11 from rfl] at hplace
      omega
    have hend := daysBeforePlace_add_day_le hmonth
    have hmonths :
        daysBeforePlace (marchPlace d.month + 1) ≤ daysBeforePlace (marchPlace e.month) := by
      unfold daysBeforePlace
      omega
    rw [hyear]
    omega
  · rw [hyear, hmonth]
    omega

/-- Dates are ordered as their numbers are. -/
theorem compare_dayNumber (d e : Date) :
    compare d.dayNumber e.dayNumber =
      (compare d.year e.year).then ((compare (d.month : Int) e.month).then
        (compare (d.day : Int) e.day)) := by
  cases hfields : (compare d.year e.year).then ((compare (d.month : Int) e.month).then
      (compare (d.day : Int) e.day)) with
  | lt =>
      simp only [Ordering.then_eq_lt, compare_lt_iff_lt, compare_eq_iff_eq, Int.ofNat_lt,
        Int.ofNat_inj] at hfields
      exact compare_lt_iff_lt.mpr (dayNumber_lt_of_before hfields)
  | eq =>
      simp only [Ordering.then_eq_eq, compare_eq_iff_eq, Int.ofNat_inj] at hfields
      obtain ⟨hyear, hmonth, hday⟩ := hfields
      rw [compare_eq_iff_eq, dayNumber_eq, dayNumber_eq, marchYear, marchYear, hyear, hmonth, hday]
  | gt =>
      simp only [Ordering.then_eq_gt, compare_gt_iff_gt, compare_eq_iff_eq, Int.ofNat_lt,
        Int.ofNat_inj, eq_comm (a := d.year), eq_comm (a := d.month)] at hfields
      exact compare_gt_iff_gt.mpr (dayNumber_lt_of_before hfields)

/-- The place in the year of a day that is counted from March, and the day of its month. -/
theorem marchPlace_monthDayOfMarchDay {n : Nat} (h : n < 366) :
    marchPlace (monthDayOfMarchDay n).1 = (5 * n + 2) / 153 ∧
      daysBeforePlace ((5 * n + 2) / 153) + (monthDayOfMarchDay n).2 = n + 1 := by
  simp only [monthDayOfMarchDay, marchPlace, daysBeforePlace]
  split <;> split <;> omega

/-- The days before a year, by the century, the four-year span and the year of its 400-year span. -/
theorem daysBeforeYear_era (era : Int) {century span year : Nat} (hcentury : century ≤ 3)
    (hspan : span ≤ 24) (hyear : year ≤ 3) :
    daysBeforeYear (era * 400 + (century * 100 + span * 4 + year : Nat)) =
      era * 146097 + century * 36524 + span * 1461 + year * 365 := by
  have hfour : (era * 400 + (century * 100 + span * 4 + year : Nat)) / 4 =
      era * 100 + century * 25 + span := by
    omega
  have hhundred : (era * 400 + (century * 100 + span * 4 + year : Nat)) / 100 =
      era * 4 + century := by
    omega
  have hera : (era * 400 + (century * 100 + span * 4 + year : Nat)) / 400 = era := by
    omega
  rw [daysBeforeYear, hfour, hhundred, hera]
  omega

/-- The parts of a day of a 400-year span give it back. -/
theorem splitEra_sum {n : Nat} (h : n < 146097) :
    (splitEra n).1 ≤ 3 ∧ (splitEra n).2.1 ≤ 24 ∧ (splitEra n).2.2.1 ≤ 3 ∧
      (splitEra n).1 * 36524 + (splitEra n).2.1 * 1461 + (splitEra n).2.2.1 * 365 +
        (splitEra n).2.2.2 = n := by
  simp only [splitEra]
  omega

/-- The year, counted from March, of the date with a number. -/
theorem marchYear_ofDayNumber (n : Int) :
    (ofDayNumber n).marchYear = (n + unixEpochDay) / 146097 * 400 +
      ((splitEra ((n + unixEpochDay) % 146097).toNat).1 * 100 +
        (splitEra ((n + unixEpochDay) % 146097).toNat).2.1 * 4 +
        (splitEra ((n + unixEpochDay) % 146097).toNat).2.2.1 : Nat) := by
  simp only [marchYear, ofDayNumber]
  split <;> omega

/-- Every number is that of a date. -/
theorem dayNumber_ofDayNumber (n : Int) : (ofDayNumber n).dayNumber = n := by
  have hera : ((n + unixEpochDay) % 146097).toNat < 146097 := by omega
  obtain ⟨hcentury, hspan, hyear, hsum⟩ := splitEra_sum hera
  have hdays := daysBeforeYear_era ((n + unixEpochDay) / 146097) hcentury hspan hyear
  obtain ⟨hplace, hday⟩ := marchPlace_monthDayOfMarchDay (splitEra_valid hera).1
  rw [dayNumber_eq, marchYear_ofDayNumber]
  simp only [ofDayNumber]
  rw [hplace]
  omega

/-- A date has no other number, and a number no other date. -/
theorem dayNumber_bijective : Function.Bijective dayNumber := by
  refine ⟨fun d e h => ?_, fun n => ⟨ofDayNumber n, dayNumber_ofDayNumber n⟩⟩
  have hfields := compare_dayNumber d e
  rw [compare_eq_iff_eq.mpr h] at hfields
  simp only [eq_comm (a := Ordering.eq), Ordering.then_eq_eq, compare_eq_iff_eq, Int.ofNat_inj]
    at hfields
  obtain ⟨year, month, day, _⟩ := d
  obtain ⟨year', month', day', _⟩ := e
  obtain ⟨rfl, rfl, rfl⟩ := hfields
  rfl

end Date

/-- Two pairs of numbers that lie in the same order compare alike. -/
theorem compare_congr {a b c d : Int} (hless : a < b ↔ c < d) (hgreater : b < a ↔ d < c) :
    compare a b = compare c d := by
  rcases Int.lt_trichotomy a b with hab | hab | hba
  · rw [compare_lt_iff_lt.mpr hab, compare_lt_iff_lt.mpr (hless.mp hab)]
  · rw [compare_eq_iff_eq.mpr hab, compare_eq_iff_eq.mpr (by omega)]
  · rw [compare_gt_iff_gt.mpr hba, compare_gt_iff_gt.mpr (hgreater.mp hba)]

/-- Numbers in two places are ordered by the higher place first. -/
theorem compare_mul_add (base : Int) {a b x y : Int} (hx : 0 ≤ x ∧ x < base)
    (hy : 0 ≤ y ∧ y < base) :
    compare (a * base + x) (b * base + y) = (compare a b).then (compare x y) := by
  have hhigher {a b x y : Int} (hx : x < base) (hy : 0 ≤ y) (hab : a < b) :
      a * base + x < b * base + y :=
    calc a * base + x < (a + 1) * base := by rw [Int.add_mul, Int.one_mul]; omega
      _ ≤ b * base := Int.mul_le_mul_of_nonneg_right (by omega) (by omega)
      _ ≤ b * base + y := by omega
  rcases Int.lt_trichotomy a b with hab | rfl | hba
  · rw [compare_lt_iff_lt.mpr (hhigher hx.2 hy.1 hab), compare_lt_iff_lt.mpr hab]
    rfl
  · rw [compare_eq_iff_eq.mpr rfl, Ordering.eq_then]
    exact compare_congr (by omega) (by omega)
  · rw [compare_gt_iff_gt.mpr (hhigher hy.2 hx.1 hba), compare_gt_iff_gt.mpr hba]
    rfl

namespace Timestamp

theorem compare_eq (t u : Timestamp) :
    compare t u = (compare t.date.year u.date.year).then
      ((compare (t.date.month : Int) u.date.month).then
        ((compare (t.date.day : Int) u.date.day).then
          ((compare (t.second : Int) u.second).then (compare (t.nanos : Int) u.nanos)))) := by
  have hlist : compare t u = List.compareLex compare t.fields u.fields := rfl
  rw [hlist]
  simp only [fields, List.compareLex_cons_cons, List.compareLex_nil_nil, Ordering.then_eq]

/-- The seconds of instants are ordered as their fields are, the largest unit first. -/
theorem compare_unixSeconds_fields (t u : Timestamp) :
    compare t.unixSeconds u.unixSeconds = (compare t.date.year u.date.year).then
      ((compare (t.date.month : Int) u.date.month).then
        ((compare (t.date.day : Int) u.date.day).then (compare (t.second : Int) u.second))) := by
  have ht := t.second_lt
  have hu := u.second_lt
  unfold unixSeconds
  rw [compare_mul_add _ (by omega) (by omega), Date.compare_dayNumber]
  simp only [Ordering.then_assoc]

/-- Instants are ordered by their seconds first, and by their nanoseconds in the same second. -/
theorem compare_unixSeconds (t u : Timestamp) :
    compare t u =
      (compare t.unixSeconds u.unixSeconds).then (compare (t.nanos : Int) u.nanos) := by
  rw [compare_eq, compare_unixSeconds_fields]
  simp only [Ordering.then_assoc]

/-- The seconds of an instant that was made from them. -/
theorem unixSeconds_ofUnixSeconds (n : Int) : (ofUnixSeconds n).unixSeconds = n := by
  simp only [unixSeconds, ofUnixSeconds, Date.dayNumber_ofDayNumber, secondsPerDay]
  omega

/-- An instant at the beginning of its second is given by its seconds. -/
theorem ofUnixSeconds_unixSeconds {t : Timestamp} (h : t.nanos = 0) :
    ofUnixSeconds t.unixSeconds = t := by
  apply Std.LawfulEqOrd.eq_of_compare
  rw [compare_unixSeconds, unixSeconds_ofUnixSeconds, compare_eq_iff_eq.mpr rfl, h]
  rfl

end Timestamp

end Calendar

end ArchiveDeposit

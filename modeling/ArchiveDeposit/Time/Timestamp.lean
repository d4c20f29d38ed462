import ArchiveDeposit.Time.Date

/-!
# Timestamps

An instant in UTC: a date, a second of that day, and nanoseconds.  A leap second is the second
before it, the last of a minute, with a thousand million nanoseconds or more.  Instants are ordered
by date, then second, then nanoseconds.

Two texts of an instant are given.  The shown one ends at the second; the stored one adds as many
groups of three decimals as the instant needs.
-/

namespace ArchiveDeposit

section Timestamp

/-- The number of seconds of a day. -/
def secondsPerDay : Nat := 86400

/-- The number of nanoseconds of a second. -/
def nanosPerSecond : Nat := 1000000000

/-- Whether these nanoseconds belong to a second of a day: only the last of a minute has a leap second
after it. -/
abbrev IsNanos (second nanos : Nat) : Prop :=
  nanos < 2 * nanosPerSecond ∧ (nanosPerSecond ≤ nanos → second % 60 = 59)

/-- An instant in UTC. -/
structure Timestamp where
  date : Date
  second : Nat
  nanos : Nat
  second_lt : second < secondsPerDay
  nanos_in_second : IsNanos second nanos
deriving DecidableEq

namespace Timestamp

/-- The fields of an instant, the largest unit first. -/
def fields (t : Timestamp) : List Int :=
  [t.date.year, t.date.month, t.date.day, t.second, t.nanos]

instance : Ord Timestamp := ⟨fun t u => compare t.fields u.fields⟩

instance : Std.TransOrd Timestamp where
  eq_swap {t u} := @Std.OrientedCmp.eq_swap _ compare _ t.fields u.fields
  isLE_trans {t u v} h k := @Std.TransCmp.isLE_trans _ compare _ t.fields u.fields v.fields h k

/-- Instants that compare equal have the same fields. -/
instance : Std.LawfulEqOrd Timestamp where
  eq_of_compare {t u} h := by
    have hfields : t.fields = u.fields := Std.LawfulEqOrd.eq_of_compare (α := List Int) h
    obtain ⟨⟨year, month, day, _⟩, second, nanos, _, _⟩ := t
    obtain ⟨⟨year', month', day', _⟩, second', nanos', _, _⟩ := u
    simp only [fields, List.cons.injEq, Int.ofNat_inj, and_true] at hfields
    obtain ⟨rfl, rfl, rfl, rfl, rfl⟩ := hfields
    rfl

/-- Whether an instant is not later than another. -/
def notAfter (t u : Timestamp) : Bool := (compare t u).isLE

/-- Whether an instant lies in a range, both ends included. -/
def isWithin (t first last : Timestamp) : Bool := first.notAfter t && t.notAfter last

/-- The instant at the beginning of its second. -/
def truncate (t : Timestamp) : Timestamp :=
  ⟨t.date, t.second, 0, t.second_lt, by decide, by simp [nanosPerSecond]⟩

/-- The instant at the beginning of a second, counted from the first of January 1970. -/
def ofUnixSeconds (n : Int) : Timestamp :=
  ⟨Date.ofDayNumber (n / (secondsPerDay : Int)), (n % (secondsPerDay : Int)).toNat, 0,
    by simp only [secondsPerDay]; omega, by decide, by simp [nanosPerSecond]⟩

/-- The number of seconds since the first of January 1970. -/
def unixSeconds (t : Timestamp) : Int := t.date.dayNumber * (secondsPerDay : Int) + t.second

/-- A number below ten as a digit. -/
def digitChar (n : Nat) : Char := Char.ofNat ('0'.toNat + n % 10)

/-- The last `width` digits of a number. -/
def paddedDigits : Nat → Nat → List Char
  | 0, _ => []
  | width + 1, n => paddedDigits width (n / 10) ++ [digitChar n]

/-- A year has four digits; outside the years 0 to 9999 it has a sign and at least four. -/
def yearText (year : Int) : List Char :=
  if 0 ≤ year ∧ year ≤ 9999 then paddedDigits 4 year.toNat
  else
    let digits := Nat.toDigits 10 year.natAbs
    (if year < 0 then '-' else '+') :: (List.replicate (4 - digits.length) '0' ++ digits)

/-- Year, month and day, joined by hyphens. -/
def dateText (d : Date) : List Char :=
  yearText d.year ++ '-' :: paddedDigits 2 d.month ++ '-' :: paddedDigits 2 d.day

/-- Hour, minute and second, joined by colons; a leap second is the sixtieth of its minute. -/
def clockText (t : Timestamp) : List Char :=
  let second := t.second % 60 + t.nanos / nanosPerSecond
  paddedDigits 2 (t.second / 3600) ++ ':' :: paddedDigits 2 (t.second / 60 % 60) ++
    ':' :: paddedDigits 2 second

/-- The decimals of a fraction of a second, in as few groups of three as show it exactly. -/
def fractionText (nanos : Nat) : List Char :=
  if nanos = 0 then []
  else if nanos % 1000000 = 0 then '.' :: paddedDigits 3 (nanos / 1000000)
  else if nanos % 1000 = 0 then '.' :: paddedDigits 6 (nanos / 1000)
  else '.' :: paddedDigits 9 nanos

/-- The shown text of an instant, to the second. -/
def shownChars (t : Timestamp) : List Char :=
  dateText t.date ++ 'T' :: t.clockText ++ ['Z']

/-- The stored text of an instant, with its fraction of a second. -/
def storedChars (t : Timestamp) : List Char :=
  dateText t.date ++ 'T' :: t.clockText ++ fractionText (t.nanos % nanosPerSecond) ++ ['Z']

/-- The text of an instant in messages and reports. -/
def text (t : Timestamp) : String := String.ofList t.shownChars

/-- The text of an instant in stored data. -/
def storedText (t : Timestamp) : String := String.ofList t.storedChars

/-- An instant at the beginning of its second is stored as it is shown. -/
theorem storedChars_truncate (t : Timestamp) :
    t.truncate.storedChars = t.truncate.shownChars := by
  simp [storedChars, shownChars, truncate, fractionText]

end Timestamp

end Timestamp

end ArchiveDeposit

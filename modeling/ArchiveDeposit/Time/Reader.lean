import ArchiveDeposit.Text.Blank
import ArchiveDeposit.Text.Decimal
import ArchiveDeposit.Text.Quoted
import ArchiveDeposit.Time.Timestamp

/-!
# Reading timestamps

Instants are read in two ways.  `Timestamp.ofText` is for what people write: the exact form
`YYYY-MM-DDThh:mm:ss`, an optional fraction, and `Z`; the fraction is dropped.
`Timestamp.ofStored?` is for stored data: blanks between the parts and numbers with fewer digits
pass, any offset is taken and converted to UTC, and the fraction stays.

A second of 60 is a leap second in both.
-/

namespace ArchiveDeposit

section TimeReader

/-- Why a text is not an instant. -/
inductive TimeFault where
  | tooShort
  | invalid
  | outOfRange
  | tooLong
deriving DecidableEq, Repr

/-- The wording of a fault. -/
def TimeFault.message : TimeFault → String
  | .tooShort => "premature end of input"
  | .invalid => "input contains invalid characters"
  | .outOfRange => "input is out of range"
  | .tooLong => "trailing input"

/-- Why a text that a person wrote is refused. -/
inductive TimestampError where
  | notUtc (text : String)
  | malformed (text : String) (fault : TimeFault)
deriving DecidableEq, Repr

/-- The wording of a refusal. -/
def TimestampError.message : TimestampError → String
  | .notUtc text =>
      "invalid timestamp: timestamp must be UTC with Z suffix, got " ++ Text.quote text
  | .malformed text fault =>
      "invalid timestamp: " ++ Text.quote text ++ ": " ++ fault.message

namespace Timestamp

/-- An instant from local fields and an offset in minutes, which is subtracted. -/
def ofLocal (date : Date) (second nanos : Nat) (offset : Int) (hnanos : IsNanos second nanos) :
    Timestamp :=
  let utc := (second : Int) - offset * 60
  let day := if utc < 0 then date.previous else if utc < secondsPerDay then date else date.next
  ⟨day, (utc % (secondsPerDay : Int)).toNat, nanos,
    by simp only [secondsPerDay]; omega,
    hnanos.1, fun hleap => by
      -- Whole minutes leave the second of the minute as it is.
      have hlast := hnanos.2 hleap
      simp only [secondsPerDay]
      omega⟩

/-- The second of the day and the nanoseconds of a clock reading, if the clock has it. -/
def clock? (hour minute second nanos : Nat) : Option (Nat × Nat) :=
  if hour < 24 ∧ minute < 60 ∧ second ≤ 60 then
    if second = 60 then some (hour * 3600 + minute * 60 + 59, nanosPerSecond + nanos)
    else some (hour * 3600 + minute * 60 + second, nanos)
  else none

/-- Reads exactly `n` digits. -/
def readExactly : Nat → Nat → List Char → Except TimeFault (Nat × List Char)
  | 0, value, cs => .ok (value, cs)
  | _ + 1, _, [] => .error .invalid
  | n + 1, value, c :: cs =>
      match Text.digitValue? c with
      | none => .error .invalid
      | some d => readExactly n (value * 10 + d) cs

/-- Reads one character of a kind. -/
def readMark (accept : Char → Bool) : List Char → Except TimeFault (List Char)
  | [] => .error .invalid
  | c :: cs => if accept c then .ok cs else .error .invalid

/-- The nanoseconds that decimals stand for; the ninth is the last that counts. -/
def fractionNanos (digits : List Char) : Nat :=
  let kept := digits.take 9
  Text.decimalValue 0 kept * Nat.pow 10 (9 - kept.length)

/-- Reads an optional fraction of a second. -/
def readFraction : List Char → Except TimeFault (Nat × List Char)
  | '.' :: cs =>
      let digits := cs.takeWhile Text.isDigit
      if digits.isEmpty then .error (if cs.isEmpty then .tooShort else .invalid)
      else .ok (fractionNanos digits, cs.dropWhile Text.isDigit)
  | cs => .ok (0, cs)

/-- Reads two digits of an offset, the first of them not above `highest`. -/
def readOffsetPair (highest : Char) : List Char → Except TimeFault (Nat × List Char)
  | [] => .error .tooShort
  | [c] => .error (if c.utf8Size < 2 then .tooShort else .invalid)
  | a :: b :: cs =>
      match Text.digitValue? a, Text.digitValue? b with
      | some x, some y =>
          if a ≤ highest then .ok (x * 10 + y, cs) else .error .outOfRange
      | _, _ => .error .invalid

/-- Reads the sign of an offset: whether it is negative. -/
def readOffsetSign : List Char → Except TimeFault (Bool × List Char)
  | [] => .error .tooShort
  | c :: cs =>
      if c = '+' then .ok (false, cs)
      else if c = '-' ∨ c = '−' then .ok (true, cs)
      else .error .invalid

/-- Reads the zone as an offset in minutes: `Z`, or hours and minutes with `separate` reading what
stands between. -/
def readZone (separate : List Char → Except TimeFault (List Char)) :
    List Char → Except TimeFault (Int × List Char)
  | 'Z' :: cs => .ok (0, cs)
  | 'z' :: cs => .ok (0, cs)
  | cs => do
      let (negative, cs) ← readOffsetSign cs
      let (hours, cs) ← readOffsetPair '9' cs
      let cs ← separate cs
      let (minutes, cs) ← readOffsetPair '5' cs
      let offset : Int := hours * 60 + minutes
      return (if negative then -offset else offset, cs)

/-- Reads the colon of an offset. -/
def readColon : List Char → Except TimeFault (List Char)
  | [] => .error .tooShort
  | c :: cs => if c = ':' then .ok cs else .error .invalid

/-- The number of bytes of a text. -/
def byteLength (cs : List Char) : Nat := cs.foldl (fun n c => n + c.utf8Size) 0

/-- Reads a date, a clock reading, an optional fraction and a zone, and nothing else.  The date is
checked before the clock is read, and the clock and its fraction before the zone. -/
def readExact (cs : List Char) : Except TimeFault Timestamp := do
  if byteLength cs < 19 then throw .tooShort
  let (year, cs) ← readExactly 4 0 cs
  let cs ← readMark (· == '-') cs
  let (month, cs) ← readExactly 2 0 cs
  let cs ← readMark (· == '-') cs
  let (day, cs) ← readExactly 2 0 cs
  let some date := Date.ofFields? year month day | throw .outOfRange
  let cs ← readMark (fun c => c == 'T' || c == 't' || c == ' ') cs
  let (hour, cs) ← readExactly 2 0 cs
  let cs ← readMark (· == ':') cs
  let (minute, cs) ← readExactly 2 0 cs
  let cs ← readMark (· == ':') cs
  let (second, cs) ← readExactly 2 0 cs
  let (nanos, cs) ← readFraction cs
  let some (second, leap) := clock? hour minute second 0 | throw .outOfRange
  let (offset, cs) ← readZone readColon cs
  unless cs.isEmpty do throw .tooLong
  if h : IsNanos second (leap + nanos) then
    return ofLocal date second (leap + nanos) offset h
  else throw .outOfRange

/-- Reads the instant that a person wrote, dropping the fraction of its second. -/
def ofText (text : String) : Except TimestampError Timestamp :=
  if text.toList.getLast? = some 'Z' then
    match readExact text.toList with
    | .error fault => .error (.malformed text fault)
    | .ok t => .ok t.truncate
  else .error (.notUtc text)

/-- The first and the last year of the calendar of stored data. -/
def storedYears : Int × Int := (-262143, 262142)

/-- Reads one to `most` digits. -/
def readNumber? (most : Nat) (cs : List Char) : Option (Nat × List Char) :=
  let digits := (cs.take most).takeWhile Text.isDigit
  if digits.isEmpty then none
  else some (Text.decimalValue 0 digits, cs.drop digits.length)

/-- Reads a year: four digits at most, or any number of them after a sign. -/
def readYear? (cs : List Char) : Option (Int × List Char) :=
  match cs with
  | '-' :: rest => (readNumber? rest.length rest).map fun (n, cs) => (-(n : Int), cs)
  | '+' :: rest => (readNumber? rest.length rest).map fun (n, cs) => ((n : Int), cs)
  | _ => (readNumber? 4 cs).map fun (n, cs) => ((n : Int), cs)

/-- Reads a mark that blanks may precede and a number after it, which blanks may precede too. -/
def readMarkedNumber? (mark : Char) (cs : List Char) : Option (Nat × List Char) :=
  match Text.trimFront cs with
  | c :: cs => if c = mark then readNumber? 2 (Text.trimFront cs) else none
  | [] => none

/-- Reads the separator of date and clock. -/
def readDateEnd? : List Char → Option (List Char)
  | c :: cs => if c = 'T' ∨ c = 't' ∨ c = ' ' then some cs else none
  | [] => none

/-- Reads the zone of stored data: `UTC` is a name for it, and any colons and blanks may stand
between the hours and the minutes of an offset. -/
def readStoredZone? (cs : List Char) : Option (Int × List Char) :=
  if (cs.take 3).map Char.toUpper = ['U', 'T', 'C'] then some (0, cs.drop 3)
  else
    let separate := fun cs : List Char =>
      (.ok (cs.dropWhile fun c => c == ':' || Text.isBlank c) : Except TimeFault (List Char))
    (readZone separate cs).toOption

/-- Reads the instant that stored data holds. -/
def ofStored? (text : String) : Option Timestamp := do
  let (year, cs) ← readYear? (Text.trimFront text.toList)
  let (month, cs) ← readMarkedNumber? '-' cs
  let (day, cs) ← readMarkedNumber? '-' cs
  let cs ← readDateEnd? cs
  let (hour, cs) ← readNumber? 2 (Text.trimFront cs)
  let (minute, cs) ← readMarkedNumber? ':' cs
  let (second, cs) ← readMarkedNumber? ':' cs
  let (nanos, cs) ← (readFraction cs).toOption
  let (offset, cs) ← readStoredZone? (Text.trimFront cs)
  let date ← Date.ofFields? year month day
  let (second, leap) ← clock? hour minute second 0
  if h : IsNanos second (leap + nanos) then
    let t := ofLocal date second (leap + nanos) offset h
    if (Text.trimFront cs).isEmpty && decide (offset.natAbs * 60 < secondsPerDay)
        && decide (storedYears.1 ≤ t.date.year ∧ t.date.year ≤ storedYears.2)
        && decide (storedYears.1 ≤ date.year ∧ date.year ≤ storedYears.2) then
      some t
    else none
  else none

end Timestamp

end TimeReader

end ArchiveDeposit

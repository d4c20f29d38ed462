import ArchiveDeposit.Json.Source
import ArchiveDeposit.Text.Decimal

/-!
# Reading JSON

A text is read as far as it is JSON, and what was read is a tree that ends there.  Every reader takes
the characters that remain and gives what it read with the characters that remain after it; after a
fault nothing remains.
-/

namespace ArchiveDeposit

section JsonReader

namespace Json

/-- The blanks of JSON. -/
def isJsonBlank (c : Char) : Bool := c == ' ' || c == '\t' || c == '\n' || c == '\r'

/-- Skips blanks. -/
def skipBlanks (cs : List Char) : List Char := cs.dropWhile isJsonBlank

/-- The value of a digit in base sixteen. -/
def hexValue? (c : Char) : Option Nat :=
  match Text.digitValue? c with
  | some d => some d
  | none =>
      if 'a' ≤ c ∧ c ≤ 'f' then some (c.toNat - 'a'.toNat + 10)
      else if 'A' ≤ c ∧ c ≤ 'F' then some (c.toNat - 'A'.toNat + 10)
      else none

/-- The value of four digits in base sixteen. -/
def hexQuad? (a b c d : Char) : Option Nat := do
  let a ← hexValue? a
  let b ← hexValue? b
  let c ← hexValue? c
  let d ← hexValue? d
  return ((a * 16 + b) * 16 + c) * 16 + d

/-- The character that a letter after a backslash stands for. -/
def shortEscape? : Char → Option Char
  | '"' => some '"'
  | '\\' => some '\\'
  | '/' => some '/'
  | 'b' => some '\x08'
  | 'f' => some '\x0c'
  | 'n' => some '\n'
  | 'r' => some '\r'
  | 't' => some '\t'
  | _ => none

/-- Reads the inside of a string up to its closing quote, as numbers: a character that stands for
itself by its code point, and an escape by the sixteen bits that it gives. -/
def readUnits : List Char → Option (List (Char ⊕ Nat) × List Char)
  | '"' :: rest => some ([], rest)
  | '\\' :: 'u' :: a :: b :: c :: d :: rest => do
      let unit ← hexQuad? a b c d
      let (units, rest) ← readUnits rest
      return (.inr unit :: units, rest)
  | '\\' :: e :: rest => do
      let char ← shortEscape? e
      let (units, rest) ← readUnits rest
      return (.inl char :: units, rest)
  | c :: rest => do
      if c.toNat < 0x20 then none
      else
        let (units, rest) ← readUnits rest
        return (.inl c :: units, rest)
  | [] => none

/-- The characters that a list of units stands for.  Two escapes may give one character above
U+FFFF between them; half of such a pair alone gives none. -/
def joinUnits : List (Char ⊕ Nat) → Option (List Char)
  | [] => some []
  | .inl c :: rest => (joinUnits rest).map (c :: ·)
  | .inr high :: .inr low :: rest =>
      if 0xd800 ≤ high ∧ high < 0xdc00 then
        if 0xdc00 ≤ low ∧ low < 0xe000 then
          (joinUnits rest).map
            (Char.ofNat (0x10000 + (high - 0xd800) * 0x400 + (low - 0xdc00)) :: ·)
        else none
      else if 0xdc00 ≤ high ∧ high < 0xe000 then none
      else (joinUnits (.inr low :: rest)).map (Char.ofNat high :: ·)
  | .inr unit :: rest =>
      if 0xd800 ≤ unit ∧ unit < 0xe000 then none
      else (joinUnits rest).map (Char.ofNat unit :: ·)

/-- The string that a list of units stands for. -/
def stringOf (units : List (Char ⊕ Nat)) : Option String := (joinUnits units).map String.ofList

/-- Reads one or more digits. -/
def readDigitRun (cs : List Char) : Option (List Char × List Char) :=
  let digits := cs.takeWhile Text.isDigit
  if digits.isEmpty then none else some (digits, cs.dropWhile Text.isDigit)

/-- Reads the fraction of a number, if there is one. -/
def readNumberFraction : List Char → Option (List Char × List Char)
  | '.' :: cs => (readDigitRun cs).map fun (digits, rest) => ('.' :: digits, rest)
  | cs => some ([], cs)

/-- Reads the exponent of a number with its sign, if there is one. -/
def readExponent : List Char → Option (List Char × List Char)
  | e :: cs =>
      if e = 'e' ∨ e = 'E' then
        match cs with
        | sign :: digits =>
            if sign = '+' ∨ sign = '-' then
              (readDigitRun digits).map fun (run, rest) => (e :: sign :: run, rest)
            else (readDigitRun cs).map fun (run, rest) => (e :: run, rest)
        | [] => none
      else some ([], e :: cs)
  | [] => some ([], [])

/-- The value of an exponent as it was read. -/
def exponentValue : List Char → Int
  | _ :: '-' :: digits => -(Text.decimalValue 0 digits : Int)
  | _ :: '+' :: digits => Text.decimalValue 0 digits
  | _ :: digits => Text.decimalValue 0 digits
  | [] => 0

/-- The largest and the smallest number that are kept as integers. -/
def integerRange : Int × Int := (-Int.pow 2 63, Int.pow 2 64 - 1)

/-- The least number that is too large for a finite one: half a step above the largest of those,
which have 53 binary digits and an exponent below 1024. -/
def leastInfinite : Nat := Nat.pow 2 1024 - Nat.pow 2 970

/-- Whether a number that is `mantissa` times a power of ten is finite.  The place of its first
digit decides, except for numbers with as many places as `leastInfinite`. -/
def isFinite (mantissa : Nat) (exponent : Int) : Bool :=
  let places := (Nat.toDigits 10 mantissa).length + exponent
  if mantissa = 0 ∨ places < 309 then true
  else if 309 < places then false
  else if 0 ≤ exponent then mantissa * Nat.pow 10 exponent.toNat < leastInfinite
  else mantissa < leastInfinite * Nat.pow 10 (-exponent).toNat

/-- A number without fraction and exponent.  One that is not kept as an integer is given a fraction,
so that it is written as a number of the other kind. -/
def ofDigits (negative : Bool) (digits : List Char) : Source :=
  let size := Text.decimalValue 0 digits
  let value : Int := if negative then -size else size
  let text := String.ofList ((if negative then ['-'] else []) ++ digits ++ ['.', '0'])
  if negative ∧ value = 0 then .real true text
  else if integerRange.1 ≤ value ∧ value ≤ integerRange.2 then .integer value
  else .real (isFinite size 0) text

/-- Reads a number after its sign. -/
def readUnsigned (negative : Bool) (cs : List Char) : Option (Source × List Char) := do
  let (digits, rest) ← readDigitRun cs
  if digits.head? = some '0' ∧ digits.length ≠ 1 then none
  else
    let (fraction, rest) ← readNumberFraction rest
    let (exponent, rest) ← readExponent rest
    if fraction.isEmpty && exponent.isEmpty then return (ofDigits negative digits, rest)
    else
      let sign := if negative then ['-'] else []
      let places := fraction.drop 1
      let finite :=
        isFinite (Text.decimalValue 0 (digits ++ places)) (exponentValue exponent - places.length)
      return (.real finite (String.ofList (sign ++ digits ++ fraction ++ exponent)), rest)

/-- Reads a number. -/
def readNumber : List Char → Option (Source × List Char)
  | '-' :: cs => readUnsigned true cs
  | cs => readUnsigned false cs

/-- What was read of a text, and what remains of it unless there was a fault. -/
abbrev Reading (α : Type) := α × Option (List Char)

/-- What was read, or a fault. -/
def orFault : Option (Source × List Char) → Reading Source
  | some (value, rest) => (value, some rest)
  | none => (.fault, none)

/-- Reads a word and gives a value for it. -/
def readWord (word : List Char) (value : Source) (cs : List Char) : Reading Source :=
  orFault (if word.isPrefixOf cs then some (value, cs.drop word.length) else none)

mutual

/-- Reads a value; `fuel` bounds the number of readers that are still called. -/
def readValue : (fuel : Nat) → List Char → Reading Source
  | 0, _ => (.fault, none)
  | fuel + 1, cs =>
      match skipBlanks cs with
      | '"' :: rest =>
          orFault ((readUnits rest).map fun (units, rest) => (.string (stringOf units), rest))
      | '[' :: rest =>
          match skipBlanks rest with
          | ']' :: rest => (.array [], some rest)
          | rest =>
              let (items, rest) := readItems fuel rest
              (.array items, rest)
      | '{' :: rest =>
          match skipBlanks rest with
          | '}' :: rest => (.object [], some rest)
          | rest =>
              let (fields, rest) := readFields fuel rest
              (.object fields, rest)
      | 'n' :: rest => readWord ['n', 'u', 'l', 'l'] .null ('n' :: rest)
      | 't' :: rest => readWord ['t', 'r', 'u', 'e'] (.bool true) ('t' :: rest)
      | 'f' :: rest => readWord ['f', 'a', 'l', 's', 'e'] (.bool false) ('f' :: rest)
      | rest => orFault (readNumber rest)

/-- Reads the items of an array, one or more, and its closing bracket. -/
def readItems : (fuel : Nat) → List Char → Reading (List Source)
  | 0, _ => ([.fault], none)
  | fuel + 1, cs =>
      match readValue fuel cs with
      | (item, none) => ([item], none)
      | (item, some rest) =>
          match skipBlanks rest with
          | ',' :: rest =>
              let (items, rest) := readItems fuel rest
              (item :: items, rest)
          | ']' :: rest => ([item], some rest)
          | _ => ([item, .fault], none)

/-- Reads the fields of an object, one or more, and its closing brace. -/
def readFields : (fuel : Nat) → List Char → Reading SourceFields
  | 0, _ => ([(none, .fault)], none)
  | fuel + 1, cs =>
      match readField fuel (skipBlanks cs) with
      | (field, none) => ([field], none)
      | (field, some rest) =>
          match skipBlanks rest with
          | ',' :: rest =>
              let (fields, rest) := readFields fuel rest
              (field :: fields, rest)
          | '}' :: rest => ([field], some rest)
          | _ => ([field, (none, .fault)], none)

/-- Reads a field: its name between quotes, a colon and its value. -/
def readField : (fuel : Nat) → List Char → Reading (Option String × Source)
  | 0, _ => ((none, .fault), none)
  | fuel + 1, '"' :: cs =>
      match (readUnits cs).map fun (units, rest) => (units, skipBlanks rest) with
      | some (units, ':' :: rest) =>
          let (value, rest) := readValue fuel rest
          ((stringOf units, value), rest)
      | _ => ((none, .fault), none)
  | _ + 1, _ => ((none, .fault), none)

end

/-- Reads a text, and says whether nothing but blanks comes behind what was read. -/
def readText (text : String) : Source × Bool :=
  let cs := text.toList
  let (value, rest) := readValue (3 * cs.length + 3) cs
  (value, rest.any fun rest => (skipBlanks rest).isEmpty)

/-- The value of a text; its fields are in the order of their names. -/
def ofText? (text : String) : Option Json :=
  let (value, complete) := readText text
  if complete then value.toJson?.map sorted else none

end Json

end JsonReader

end ArchiveDeposit

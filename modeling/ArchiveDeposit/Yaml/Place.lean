/-!
# Characters of YAML and their places

A text is read as the list of its characters, each with the line and the column at which it stands:
columns hold blocks together, and a key has to stand on one line.

A line ends with a line feed, a carriage return, both of them, a next line, a line separator or a
paragraph separator.  The two separators stay what they are; the other ends of lines are all
changed into line feeds beforehand.
-/

namespace ArchiveDeposit

section YamlPlace

namespace Yaml

/-- A character and its place. -/
structure Placed where
  char : Char
  line : Nat
  column : Nat

/-- A blank within a line. -/
def isBlank (c : Char) : Bool := c == ' ' || c == '\t'

/-- The end of a line. -/
def isBreak (c : Char) : Bool := c == '\n' || c == '\u2028' || c == '\u2029'

/-- Whether a character may stand in a text. -/
def isAllowed (c : Char) : Bool :=
  let n := c.toNat
  n == 0x09 || n == 0x0a || n == 0x0d || (0x20 ≤ n && n ≤ 0x7e) || n == 0x85 ||
    (0xa0 ≤ n && n ≤ 0xfffd) || 0x10000 ≤ n

/-- The ends of lines other than separators, as line feeds. -/
def normalizeBreaks : List Char → List Char
  | '\r' :: '\n' :: cs => '\n' :: normalizeBreaks cs
  | c :: cs => (if c = '\r' ∨ c = '\u0085' then '\n' else c) :: normalizeBreaks cs
  | [] => []

/-- Characters with their places, the first one at the given place. -/
def place : (line column : Nat) → List Char → List Placed
  | _, _, [] => []
  | line, column, c :: cs =>
      ⟨c, line, column⟩ :: if isBreak c then place (line + 1) 0 cs else place line (column + 1) cs

/-- The characters of a text with their places, if all of them may stand in one. -/
def placed? (text : String) : Option (List Placed) :=
  let cs := text.toList
  if cs.all isAllowed then some (place 0 0 (normalizeBreaks cs)) else none

/-- Whether a blank, the end of a line or the end of the text comes next. -/
def gapFollows : List Placed → Bool
  | [] => true
  | c :: _ => isBlank c.char || isBreak c.char

/-- Whether the marker of the beginning of a document comes next. -/
def startFollows : List Placed → Bool
  | ⟨'-', _, 0⟩ :: ⟨'-', _, _⟩ :: ⟨'-', _, _⟩ :: cs => gapFollows cs
  | _ => false

/-- Whether the marker of the end of a document comes next. -/
def endFollows : List Placed → Bool
  | ⟨'.', _, 0⟩ :: ⟨'.', _, _⟩ :: ⟨'.', _, _⟩ :: cs => gapFollows cs
  | _ => false

/-- Whether the marker of the beginning or the end of a document comes next. -/
def markerFollows (cs : List Placed) : Bool := startFollows cs || endFollows cs

/-- Placing characters changes none of them. -/
@[simp]
theorem map_char_place (line column : Nat) (cs : List Char) :
    (place line column cs).map Placed.char = cs := by
  induction cs generalizing line column with
  | nil => rfl
  | cons c cs ih => by_cases h : isBreak c = true <;> simp [place, h, ih]

end Yaml

end YamlPlace

end ArchiveDeposit

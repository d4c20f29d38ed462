import ArchiveDeposit.Json.Reader
import ArchiveDeposit.Yaml.Place

/-!
# Scalars of YAML

How the text of a scalar is read: plain, between single quotes or between double quotes.

A scalar may run over several lines.  The blanks around a line break do not count.  A line feed
alone is a space; of several line breaks in a row that begin with a line feed all but that one are
kept, and those that begin with a separator are all kept.  A backslash at the end of a line between
double quotes removes the break altogether.
-/

namespace ArchiveDeposit

section YamlScalar

namespace Yaml

/-- What folding has passed since the last character that counts. -/
inductive Pending where
  /-- Blanks, the last one first. -/
  | blanks (reversed : List Char)
  /-- A line break, unless it was escaped, and the further ones, the last one first. -/
  | breaks (first : Option Char) (reversed : List Char)

namespace Pending

/-- What is written for what was passed. -/
def flush : Pending → List Char
  | .blanks reversed => reversed.reverse
  | .breaks none reversed => reversed.reverse
  | .breaks (some c) reversed =>
      if c ≠ '\n' then c :: reversed.reverse
      else if reversed.isEmpty then [' ']
      else reversed.reverse

/-- Passes a blank. -/
def blank (c : Char) : Pending → Pending
  | .blanks reversed => .blanks (c :: reversed)
  | p => p

/-- Passes a line break. -/
def lineBreak (c : Char) : Pending → Pending
  | .blanks _ => .breaks (some c) []
  | .breaks first reversed => .breaks first (c :: reversed)

/-- Whether a line break was passed. -/
def isBroken : Pending → Bool
  | .blanks _ => false
  | .breaks _ _ => true

/-- Whether nothing was passed. -/
def isNothing : Pending → Bool
  | .blanks [] => true
  | _ => false

end Pending

/-- A piece of a quoted scalar. -/
inductive Piece where
  /-- A character as it stands; blanks and line breaks are subject to folding. -/
  | char (c : Char)
  /-- A character that was escaped. -/
  | escaped (c : Char)
  /-- A line break that was escaped. -/
  | continuation

/-- The text of a quoted scalar. -/
def fold : Pending → List Piece → List Char
  | p, [] => p.flush
  | p, .char c :: rest =>
      if isBreak c then fold (p.lineBreak c) rest
      else if isBlank c then fold (p.blank c) rest
      else p.flush ++ c :: fold (.blanks []) rest
  | p, .escaped c :: rest => p.flush ++ c :: fold (.blanks []) rest
  | p, .continuation :: rest => p.flush ++ fold (.breaks none []) rest

/-- Reads the rest of a scalar between single quotes, in which two of them stand for one. -/
def readSingleQuoted : List Placed → Option (List Piece × List Placed)
  | ⟨'\'', _, _⟩ :: ⟨'\'', _, _⟩ :: cs => do
      let (pieces, rest) ← readSingleQuoted cs
      return (.char '\'' :: pieces, rest)
  | ⟨'\'', _, _⟩ :: cs => some ([], cs)
  | c :: cs =>
      if isBreak c.char && markerFollows cs then none
      else do
        let (pieces, rest) ← readSingleQuoted cs
        return (.char c.char :: pieces, rest)
  | [] => none

/-- The character that a letter after a backslash stands for. -/
def letterEscape? : Char → Option Char
  | '0' => some '\x00'
  | 'a' => some '\x07'
  | 'b' => some '\x08'
  | 't' => some '\t'
  | '\t' => some '\t'
  | 'n' => some '\n'
  | 'v' => some '\x0b'
  | 'f' => some '\x0c'
  | 'r' => some '\r'
  | 'e' => some '\x1b'
  | ' ' => some ' '
  | '"' => some '"'
  | '/' => some '/'
  | '\\' => some '\\'
  | 'N' => some '\u0085'
  | '_' => some '\u00a0'
  | 'L' => some '\u2028'
  | 'P' => some '\u2029'
  | _ => none

/-- The number of digits that a letter after a backslash announces. -/
def escapeWidth? : Char → Option Nat
  | 'x' => some 2
  | 'u' => some 4
  | 'U' => some 8
  | _ => none

/-- The value of digits in base sixteen, read after `value`. -/
def hexValue? : Nat → List Char → Option Nat
  | value, [] => some value
  | value, c :: cs => do
      let d ← Json.hexValue? c
      hexValue? (value * 16 + d) cs

/-- The character with a number, if there is one. -/
def charOf? (n : Nat) : Option Char :=
  if h : n.isValidChar then some (Char.ofNatAux n h) else none

/-- The character that an escape by number stands for, from its digits. -/
def numberEscape? (width : Nat) (digits : List Char) : Option Char := do
  if digits.length = width then charOf? (← hexValue? 0 digits) else none

/-- Reads the rest of a scalar between double quotes. -/
def readDoubleQuoted : (fuel : Nat) → List Placed → Option (List Piece × List Placed)
  | 0, _ => none
  | _ + 1, [] => none
  | _ + 1, ⟨'"', _, _⟩ :: cs => some ([], cs)
  | _ + 1, [⟨'\\', _, _⟩] => none
  | fuel + 1, ⟨'\\', _, _⟩ :: e :: cs =>
      if isBreak e.char then
        if markerFollows cs then none
        else do
          let (pieces, rest) ← readDoubleQuoted fuel cs
          return (.continuation :: pieces, rest)
      else
        match escapeWidth? e.char with
        | some width => do
            let c ← numberEscape? width ((cs.take width).map Placed.char)
            let (pieces, rest) ← readDoubleQuoted fuel (cs.drop width)
            return (.escaped c :: pieces, rest)
        | none => do
            let c ← letterEscape? e.char
            let (pieces, rest) ← readDoubleQuoted fuel cs
            return (.escaped c :: pieces, rest)
  | fuel + 1, c :: cs =>
      if isBreak c.char && markerFollows cs then none
      else do
        let (pieces, rest) ← readDoubleQuoted fuel cs
        return (.char c.char :: pieces, rest)

/-- Reads a scalar between quotes after the first of them, of which `double` tells the kind. -/
def readQuoted (double : Bool) (cs : List Placed) : Option (String × List Placed) :=
  let read := if double then readDoubleQuoted (cs.length + 1) cs else readSingleQuoted cs
  read.map fun (pieces, rest) => (String.ofList (fold (.blanks []) pieces), rest)

/-- The characters that have a meaning of their own inside brackets and braces. -/
def isFlowIndicator (c : Char) : Bool := [',', '[', ']', '{', '}'].contains c

/-- The characters that no plain scalar begins with, whatever follows. -/
def isIndicator (c : Char) : Bool :=
  isFlowIndicator c || ['#', '&', '*', '!', '|', '>', '\'', '"', '%', '@', '\x60'].contains c

/-- Whether a plain scalar begins with a character, given what follows it. -/
def plainBegins (inFlow : Bool) (c : Char) (rest : List Placed) : Bool :=
  if isBlank c then false
  else if c = '-' then !gapFollows rest
  else if c = '?' ∨ c = ':' then !inFlow && !gapFollows rest
  else !isIndicator c

/-- Whether a plain scalar ends before a character that stands behind a gap: before a comment, a
document marker, and before a line that begins left of the least column. -/
def plainEndsAfterGap (inFlow : Bool) (least : Nat) (broken : Bool) (cs : List Placed) : Bool :=
  match cs with
  | [] => true
  | c :: _ =>
      c.char == '#' || markerFollows cs || (!inFlow && broken && decide (c.column < least))

/-- Whether a plain scalar ends before a character wherever it stands: before a colon with a gap
behind it and, inside brackets and braces, before their indicators. -/
def plainEnds (inFlow : Bool) (c : Char) (rest : List Placed) : Bool :=
  (c == ':' && gapFollows rest) || (inFlow && isFlowIndicator c)

/-- Reads the rest of a plain scalar: its text, whether a line break was passed behind it, and what
remains.  A tab in front of a line, left of the least column, is an error, and so is a colon inside
brackets and braces that one of their indicators follows. -/
def readPlain (inFlow : Bool) (least : Nat) :
    Pending → List Placed → Option (List Char × Bool × List Placed)
  | p, [] => some ([], p.isBroken, [])
  | p, c :: cs =>
      if isBlank c.char then
        if p.isBroken && c.char == '\t' && decide (c.column < least) then none
        else readPlain inFlow least (p.blank c.char) cs
      else if isBreak c.char then readPlain inFlow least (p.lineBreak c.char) cs
      else if !p.isNothing && plainEndsAfterGap inFlow least p.isBroken (c :: cs) then
        some ([], p.isBroken, c :: cs)
      else if inFlow && c.char == ':' &&
          cs.head?.any (fun d => isFlowIndicator d.char || d.char == '?') then none
      else if plainEnds inFlow c.char cs then some ([], p.isBroken, c :: cs)
      else do
        let (text, broken, rest) ← readPlain inFlow least (.blanks []) cs
        return (p.flush ++ c.char :: text, broken, rest)

end Yaml

end YamlScalar

end ArchiveDeposit

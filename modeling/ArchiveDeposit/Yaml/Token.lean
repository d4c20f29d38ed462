import ArchiveDeposit.Yaml.Scalar

/-!
# Tokens of YAML

A text as a list of tokens: scalars, the marks of items, keys and values, the marks of documents,
brackets and braces, and where blocks begin and end.  The last are not written: a block begins at
the first mark or key in a column to the right of all open blocks, and ends before whatever stands
to the left of that column.

A key is told by the colon behind its value, so the token that announces it is put in front of what
was read already.  The colon has to stand on the line on which the key began, and not too far
behind.  Where a value has to be a key, because it stands in the column of the open block, it is an
error if no colon follows.

Anchors, aliases, tags, directives and block scalars are not taken.
-/

namespace ArchiveDeposit

section YamlToken

namespace Yaml

/-- A token. -/
inductive Token where
  | scalar (quoted : Bool) (text : String)
  /-- The beginning of a block sequence. -/
  | blockSequence
  /-- The beginning of a block mapping. -/
  | blockMapping
  /-- The end of a block. -/
  | blockEnd
  /-- The mark of an item of a block sequence. -/
  | item
  | key
  | value
  | leftBracket
  | rightBracket
  | leftBrace
  | rightBrace
  | comma
  | documentStart
  | documentEnd
deriving DecidableEq, Repr

/-- The beginning of a value that is a key if a colon follows it. -/
structure KeyCandidate where
  /-- The number of tokens in front of it. -/
  position : Nat
  line : Nat
  column : Nat
  /-- Whether nothing but a key may stand there. -/
  required : Bool

/-- The farthest that a colon may stand behind the beginning of its key. -/
def KeyCandidate.reach : Nat := 1024

/-- Whether a character comes too late to be the colon behind a key. -/
def KeyCandidate.isStale (k : KeyCandidate) (c : Placed) : Bool :=
  decide (k.line < c.line) || decide (k.column + reach < c.column)

/-- The tokens of the text so far, and what the further ones depend on. -/
structure Scan where
  tokens : Array Token
  /-- The columns of the open blocks, the innermost first. -/
  blocks : List Nat
  /-- What may turn out to be a key between the innermost brackets or braces, or outside them. -/
  candidate : Option KeyCandidate
  /-- The same for all that is around, the innermost first. -/
  outer : List (Option KeyCandidate)
  /-- Whether a key may begin here. -/
  keyAllowed : Bool

namespace Scan

/-- Nothing was read yet. -/
def start : Scan := ⟨#[], [], none, [], true⟩

/-- Whether brackets or braces are open. -/
def inFlow (s : Scan) : Bool := !s.outer.isEmpty

/-- The first column to the right of all open blocks. -/
def least (s : Scan) : Nat :=
  match s.blocks with
  | [] => 0
  | column :: _ => column + 1

/-- Adds a token, and says whether a key may begin after it. -/
def push (s : Scan) (t : Token) (keyAllowed : Bool) : Scan :=
  ⟨s.tokens.push t, s.blocks, s.candidate, s.outer, keyAllowed⟩

/-- With another candidate for a key. -/
def withCandidate (s : Scan) (k : Option KeyCandidate) : Scan :=
  ⟨s.tokens, s.blocks, k, s.outer, s.keyAllowed⟩

/-- With the permission for a key, or without. -/
def allowKey (s : Scan) (keyAllowed : Bool) : Scan :=
  ⟨s.tokens, s.blocks, s.candidate, s.outer, keyAllowed⟩

/-- Ends the blocks from a column on. -/
def closeBlocks (column : Nat) (s : Scan) : Scan :=
  if s.inFlow then s
  else
    let kept := s.blocks.dropWhile fun c => column ≤ c
    let ends := List.replicate (s.blocks.length - kept.length) Token.blockEnd
    ⟨s.tokens ++ ends.toArray, kept, s.candidate, s.outer, s.keyAllowed⟩

/-- Begins a block in a column, in front of the tokens from a position on, unless the column lies
within the open blocks. -/
def openBlock (t : Token) (position column : Nat) (s : Scan) : Scan :=
  if s.inFlow || decide (column < s.least) then s
  else
    ⟨s.tokens.insertIdxIfInBounds position t, column :: s.blocks, s.candidate, s.outer,
      s.keyAllowed⟩

/-- Gives up a candidate for a key, which is an error if a key is required. -/
def dropCandidate (s : Scan) : Option Scan :=
  if s.candidate.any fun k => k.required then none else some (s.withCandidate none)

/-- Notes that what begins with a character may be a key, if one may begin there. -/
def noteCandidate (c : Placed) (s : Scan) : Option Scan :=
  if s.keyAllowed then do
    let s ← s.dropCandidate
    let required := !s.inFlow && s.blocks.head? == some c.column
    return s.withCandidate (some ⟨s.tokens.size, c.line, c.column, required⟩)
  else some s

/-- Gives up the candidates for which a character comes too late to be the colon. -/
def dropStale (c : Placed) (s : Scan) : Option Scan :=
  let isStale (k : Option KeyCandidate) : Bool := k.any fun k => k.isStale c
  if (s.candidate :: s.outer).any fun k => isStale k && k.any fun k => k.required then none
  else
    let renew (k : Option KeyCandidate) : Option KeyCandidate := if isStale k then none else k
    some ⟨s.tokens, s.blocks, renew s.candidate, s.outer.map renew, s.keyAllowed⟩

/-- A bracket or brace that opens. -/
def openFlow (t : Token) (s : Scan) : Scan :=
  let s := s.push t true
  ⟨s.tokens, s.blocks, none, s.candidate :: s.outer, s.keyAllowed⟩

/-- A bracket or brace that closes. -/
def closeFlow (t : Token) (s : Scan) : Option Scan := do
  let s := (← s.dropCandidate).push t false
  match s.outer with
  | [] => return s
  | k :: outer => return ⟨s.tokens, s.blocks, k, outer, s.keyAllowed⟩

/-- The marker of the beginning or the end of a document. -/
def marker (t : Token) (s : Scan) : Option Scan := do
  return (← (s.closeBlocks 0).dropCandidate).push t false

/-- The mark of an item in a column. -/
def item (column : Nat) (s : Scan) : Option Scan := do
  if !s.inFlow && !s.keyAllowed then none
  else
    let s ← (s.openBlock .blockSequence s.tokens.size column).dropCandidate
    return s.push .item true

/-- The mark of a key in a column. -/
def explicitKey (column : Nat) (s : Scan) : Option Scan := do
  if !s.inFlow && !s.keyAllowed then none
  else
    let s ← (s.openBlock .blockMapping s.tokens.size column).dropCandidate
    return s.push .key (!s.inFlow)

/-- A colon in a column. -/
def colon (column : Nat) (s : Scan) : Option Scan :=
  match s.candidate with
  | some k =>
      let tokens := s.tokens.insertIdxIfInBounds k.position .key
      let s : Scan := ⟨tokens, s.blocks, none, s.outer, s.keyAllowed⟩
      some ((s.openBlock .blockMapping k.position k.column).push .value false)
  | none =>
      if !s.inFlow && !s.keyAllowed then none
      else some ((s.openBlock .blockMapping s.tokens.size column).push .value (!s.inFlow))

end Scan

/-- Skips blanks, comments and line breaks up to the next token, and says whether a key may begin
there.  A byte order mark may begin a line.  Outside brackets and braces tabs are skipped only where
no key may begin, and a line break lets one begin. -/
def skipGap (inFlow : Bool) : (comment keyAllowed : Bool) → List Placed → Bool × List Placed
  | _, keyAllowed, [] => (keyAllowed, [])
  | comment, keyAllowed, c :: cs =>
      if isBreak c.char then skipGap inFlow false (!inFlow || keyAllowed) cs
      else if comment then skipGap inFlow true keyAllowed cs
      else if c.char == '\uFEFF' && c.column == 0 then skipGap inFlow false keyAllowed cs
      else if c.char == ' ' || (c.char == '\t' && (inFlow || !keyAllowed)) then
        skipGap inFlow false keyAllowed cs
      else if c.char == '#' then skipGap inFlow true keyAllowed cs
      else (keyAllowed, c :: cs)

/-- Reads the token that begins with a character, given what follows it. -/
def readToken (s : Scan) (c : Placed) (rest : List Placed) : Option (Scan × List Placed) := do
  if startFollows (c :: rest) then return (← s.marker .documentStart, rest.drop 2)
  else if endFollows (c :: rest) then return (← s.marker .documentEnd, rest.drop 2)
  else if c.char = '[' then return ((← s.noteCandidate c).openFlow .leftBracket, rest)
  else if c.char = '{' then return ((← s.noteCandidate c).openFlow .leftBrace, rest)
  else if c.char = ']' then return (← s.closeFlow .rightBracket, rest)
  else if c.char = '}' then return (← s.closeFlow .rightBrace, rest)
  else if c.char = ',' then return ((← s.dropCandidate).push .comma true, rest)
  else if c.char = '-' ∧ gapFollows rest then return (← s.item c.column, rest)
  else if c.char = '?' ∧ (s.inFlow || gapFollows rest) then
    return (← s.explicitKey c.column, rest)
  else if c.char = ':' ∧ (s.inFlow || gapFollows rest) then return (← s.colon c.column, rest)
  else if c.char = '\'' ∨ c.char = '"' then
    let (text, rest) ← readQuoted (c.char == '"') rest
    return ((← s.noteCandidate c).push (.scalar true text) false, rest)
  else if plainBegins s.inFlow c.char rest then
    let (text, broken, rest) ← readPlain s.inFlow s.least (.blanks []) (c :: rest)
    return ((← s.noteCandidate c).push (.scalar false (String.ofList text)) broken, rest)
  else none

/-- Reads the tokens of a text. -/
def readTokens : (fuel : Nat) → Scan → List Placed → Option (Array Token)
  | 0, _, _ => none
  | fuel + 1, s, cs =>
      let (keyAllowed, cs) := skipGap s.inFlow false s.keyAllowed cs
      let s := s.allowKey keyAllowed
      match cs with
      | [] => do return (← (s.closeBlocks 0).dropCandidate).tokens
      | c :: rest => do
          let s ← s.dropStale c
          let (s, rest) ← readToken (s.closeBlocks (c.column + 1)) c rest
          readTokens fuel s rest

/-- The tokens of a text, from its characters. -/
def tokens? (cs : List Placed) : Option (List Token) :=
  (readTokens (cs.length + 1) .start cs).map Array.toList

end Yaml

end YamlToken

end ArchiveDeposit

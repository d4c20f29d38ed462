import ArchiveDeposit.Yaml.Basic
import ArchiveDeposit.Yaml.Token

/-!
# Reading YAML

A text is read as one document, from its tokens.  Blocks, brackets and braces hold values, and
where nothing is written in a block, or for the value of a key, there is nothing.  The keys of a
mapping are scalars.  A document may have a marker in front of it and any number of markers of its
end behind it; a text without a value is a document with nothing in it.
-/

namespace ArchiveDeposit

section YamlReader

namespace Yaml

/-- Whether one of the given tokens comes next, or none at all. -/
def anyFollows (ends : List Token) (ts : List Token) : Bool :=
  match ts with
  | [] => true
  | t :: _ => ends.contains t

/-- An entry of a mapping; its key is a scalar. -/
def entryOf (key value : Yaml) : Option (String × Yaml) :=
  match key with
  | .scalar _ text => some (text, value)
  | _ => none

mutual

/-- Reads a value.  `inBlock` says whether a block may begin here, and `bare` whether the items of a
sequence may stand here without a block of their own. -/
def readValue : (fuel : Nat) → (inBlock bare : Bool) → List Token → Option (Yaml × List Token)
  | 0, _, _, _ => none
  | _ + 1, _, _, .scalar quoted text :: ts => some (.scalar quoted text, ts)
  | fuel + 1, _, _, .leftBracket :: ts => do
      let (items, ts) ← readListed fuel ts
      return (.sequence items, ts)
  | fuel + 1, _, _, .leftBrace :: ts => do
      let (entries, ts) ← readListedEntries fuel ts
      return (.mapping entries, ts)
  | fuel + 1, true, _, .blockSequence :: ts => do
      let (items, ts) ← readItems fuel false ts
      return (.sequence items, ts)
  | fuel + 1, true, _, .blockMapping :: ts => do
      let (entries, ts) ← readEntries fuel ts
      return (.mapping entries, ts)
  | fuel + 1, _, true, .item :: ts => do
      let (items, ts) ← readItems fuel true (.item :: ts)
      return (.sequence items, ts)
  | _ + 1, _, _, _ => none

/-- Reads a value that may be missing, which it is where one of the given tokens comes next. -/
def readOptional : (fuel : Nat) → (inBlock bare : Bool) → (ends : List Token) → List Token →
    Option (Yaml × List Token)
  | 0, _, _, _, _ => none
  | fuel + 1, inBlock, bare, ends, ts =>
      if anyFollows ends ts then some (nothing, ts) else readValue fuel inBlock bare ts

/-- Reads the items of a block sequence and the end of its block, which a bare one has not. -/
def readItems : (fuel : Nat) → (bare : Bool) → List Token → Option (List Yaml × List Token)
  | 0, _, _ => none
  | fuel + 1, bare, .item :: ts => do
      let ends := if bare then [.item, .key, .value, .blockEnd] else [.item, .blockEnd]
      let (item, ts) ← readOptional fuel true false ends ts
      let (items, ts) ← readItems fuel bare ts
      return (item :: items, ts)
  | _ + 1, false, .blockEnd :: ts => some ([], ts)
  | _ + 1, false, _ => none
  | _ + 1, true, ts => some ([], ts)

/-- Reads the entries of a block mapping and the end of its block. -/
def readEntries : (fuel : Nat) → List Token → Option (List (String × Yaml) × List Token)
  | 0, _ => none
  | fuel + 1, .key :: ts => do
      let ends := [.key, .value, .blockEnd]
      let (key, ts) ← readOptional fuel true true ends ts
      let (value, ts) ← readMarked fuel true ends ts
      let (entries, ts) ← readEntries fuel ts
      return ((← entryOf key value) :: entries, ts)
  | _ + 1, .blockEnd :: ts => some ([], ts)
  | _ + 1, _ => none

/-- Reads what comes behind a key: a mark and a value, either of which may be missing. -/
def readMarked : (fuel : Nat) → (inBlock : Bool) → (ends : List Token) → List Token →
    Option (Yaml × List Token)
  | 0, _, _, _ => none
  | fuel + 1, inBlock, ends, .value :: ts => readOptional fuel inBlock inBlock ends ts
  | _ + 1, _, _, ts => some (nothing, ts)

/-- Reads the items between brackets and the closing one; a comma may stand behind the last. -/
def readListed : (fuel : Nat) → List Token → Option (List Yaml × List Token)
  | 0, _ => none
  | _ + 1, .rightBracket :: ts => some ([], ts)
  | fuel + 1, ts => do
      let (item, ts) ← readValue fuel false false ts
      match ts with
      | .comma :: ts =>
          let (items, ts) ← readListed fuel ts
          return (item :: items, ts)
      | .rightBracket :: ts => return ([item], ts)
      | _ => none

/-- Reads an entry between braces.  Without the mark of a key it is a key that has nothing. -/
def readEntry : (fuel : Nat) → List Token → Option ((String × Yaml) × List Token)
  | 0, _ => none
  | fuel + 1, .key :: ts => do
      let ends := [.comma, .rightBrace]
      let (key, ts) ← readOptional fuel false false (.value :: ends) ts
      let (value, ts) ← readMarked fuel false ends ts
      return (← entryOf key value, ts)
  | fuel + 1, ts => do
      let (key, ts) ← readValue fuel false false ts
      return (← entryOf key nothing, ts)

/-- Reads the entries between braces and the closing one; a comma may stand behind the last. -/
def readListedEntries : (fuel : Nat) → List Token → Option (List (String × Yaml) × List Token)
  | 0, _ => none
  | _ + 1, .rightBrace :: ts => some ([], ts)
  | fuel + 1, ts => do
      let (entry, ts) ← readEntry fuel ts
      match ts with
      | .comma :: ts =>
          let (entries, ts) ← readListedEntries fuel ts
          return (entry :: entries, ts)
      | .rightBrace :: ts => return ([entry], ts)
      | _ => none

end

/-- The value of a document, which is nothing if there is none. -/
def ofTokens? (ts : List Token) : Option Yaml := do
  let fuel := 3 * ts.length + 3
  let (value, ts) ←
    match ts with
    | [] => some (nothing, [])
    | .documentStart :: ts => readOptional fuel true false [.documentStart, .documentEnd] ts
    | ts => readValue fuel true false ts
  if ts.all fun t => t == .documentEnd then return value else none

/-- Reads a text as one document. -/
def ofText? (text : String) : Option Yaml := do ofTokens? (← tokens? (← placed? text))

end Yaml

end YamlReader

end ArchiveDeposit

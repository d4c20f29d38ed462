import ArchiveDeposit.Text.Decimal
import ArchiveDeposit.Yaml.Basic
import ArchiveDeposit.Json.Reader

/-!
# Decoding YAML values

The kinds of values that manifests and settings are made of.  A text may be written in any style,
also as what looks like a number or like nothing; numbers and truth values must not stand between
quotes.  The keys of a mapping are fixed: none may repeat, and others are not taken.
-/

namespace ArchiveDeposit

section YamlDecoder

namespace Yaml

/-- The text of a scalar. -/
def decodeText : Yaml → Option String
  | .scalar _ text => some text
  | _ => none

/-- A name that stands for something. -/
def decodeName {α : Type} (ofName? : String → Option α) (y : Yaml) : Option α :=
  y.decodeText.bind ofName?

/-- Whether a scalar stands for nothing. -/
def isNothing : Yaml → Bool
  | .scalar false text => ["", "~", "null", "Null", "NULL"].contains text
  | _ => false

/-- Nothing or a text. -/
def decodeOptionalText (y : Yaml) : Option (Option String) :=
  if y.isNothing then some none else y.decodeText.map some

/-- A truth value. -/
def decodeBool : Yaml → Option Bool
  | .scalar false text =>
      if ["true", "True", "TRUE"].contains text then some true
      else if ["false", "False", "FALSE"].contains text then some false
      else none
  | _ => none

/-- The value of one or more digits in a base, read after `value`. -/
def decodeDigits? (base : Nat) : Nat → List Char → Option Nat
  | value, [] => some value
  | value, c :: cs =>
      match Json.hexValue? c with
      | none => none
      | some d => if d < base then decodeDigits? base (value * base + d) cs else none

/-- A number without a sign, in base ten, or in base sixteen, eight or two after a mark for it.  In
base ten a number has no zeros in front. -/
def decodeUnsigned? : List Char → Option Nat
  | '0' :: 'x' :: c :: cs => decodeDigits? 16 0 (c :: cs)
  | '0' :: 'o' :: c :: cs => decodeDigits? 8 0 (c :: cs)
  | '0' :: 'b' :: c :: cs => decodeDigits? 2 0 (c :: cs)
  | '0' :: _ :: _ => none
  | c :: cs => decodeDigits? 10 0 (c :: cs)
  | [] => none

/-- A number below a bound; a plus sign may stand in front. -/
def decodeBelow (bound : Nat) : Yaml → Option Nat
  | .scalar false text =>
      let value :=
        match text.toList with
        | '+' :: cs => decodeUnsigned? cs
        | cs => decodeUnsigned? cs
      value.filter fun n => n < bound
  | _ => none

/-- The items of a sequence; nothing is a sequence without items. -/
def decodeList {α : Type} (decode : Yaml → Option α) : Yaml → Option (List α)
  | .sequence items => items.mapM decode
  | .scalar false "" => some []
  | _ => none

/-- The entries of a mapping with keys among the known ones, none of which repeats; nothing is a
mapping without entries. -/
def decodeEntries (known : List String) : Yaml → Option (List (String × Yaml))
  | .mapping entries =>
      let keys := entries.map Prod.fst
      if keys.all known.contains && decide keys.Nodup then some entries else none
  | .scalar false "" => some []
  | _ => none

/-- The value of a key that may be missing. -/
def entry? {α : Type} (entries : List (String × Yaml)) (key : String)
    (decode : Yaml → Option α) : Option (Option α) :=
  match entries.find? fun e => e.1 == key with
  | none => some none
  | some e => (decode e.2).map some

end Yaml

end YamlDecoder

end ArchiveDeposit

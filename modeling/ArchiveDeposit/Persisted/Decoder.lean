import ArchiveDeposit.DepositState
import ArchiveDeposit.Json.Reader

/-!
# Decoding stored values

What can be wrong with a stored value, and the decoders that all stored types share: bounded
integers, names, lists, and the fields of objects.

A text is decoded in its order, and the fault that comes first in it is the one that counts.  The
fields of an object may stand in any order; a known field that stands twice is a fault where it
stands again, and fields that are not known are skipped.  Where a part of an object has to be there,
it is asked for it at the end of the object.  An object may also be given as the array of the values
of its fields, and a name as the object whose one field has this name and is null.
-/

namespace ArchiveDeposit

section Decoder

/-- Why a value is not the stored form of something. -/
inductive DecodeError where
  | malformed
  /-- The parts are well formed, but they make no state. -/
  | refused (cause : DepositError)
deriving DecidableEq, Repr

/-- The reason that is given with a failure to decode, where there is one. -/
def DecodeError.reason? : DecodeError → Option String
  | .malformed => none
  | .refused cause => some cause.message

/-- What is decoded, or why not. -/
abbrev Decoded (α : Type) := Except DecodeError α

/-- How stored values of a type are decoded. -/
abbrev Decoder (α : Type) := Json.Source → Decoded α

namespace Json

/-- A value that has to be there. -/
def present {α : Type} : Option α → Decoded α
  | some x => .ok x
  | none => .error .malformed

/-- A natural number below a bound. -/
def decodeBelow (bound : Nat) : Decoder Nat
  | .integer n => if 0 ≤ n ∧ n < bound then .ok n.toNat else .error .malformed
  | _ => .error .malformed

/-- A number of 32 bits. -/
def decodeWord : Decoder Nat := decodeBelow UInt32.size

/-- A string. -/
def decodeString : Decoder String
  | .string value => present value
  | _ => .error .malformed

/-- A name that stands for something. -/
def decodeName {α : Type} (ofName? : String → Option α) : Decoder α
  | .string value => present (value.bind ofName?)
  | _ => .error .malformed

/-- A name that stands for something, given as a string or as the only name in an object. -/
def decodeVariant {α : Type} (ofName? : String → Option α) : Decoder α
  | .string value => present (value.bind ofName?)
  | .object [(name, .null)] => present (name.bind ofName?)
  | _ => .error .malformed

/-- Null or a value. -/
def decodeOptional {α : Type} (decode : Decoder α) : Decoder (Option α)
  | .null => .ok none
  | j => (decode j).map some

/-- The items of an array, each decoded, up to the first that fails. -/
def decodeItems {α : Type} (decode : Decoder α) : List Source → Decoded (List α)
  | [] => .ok []
  | j :: rest =>
      match decode j with
      | .error e => .error e
      | .ok x => (decodeItems decode rest).map (x :: ·)

/-- An array. -/
def decodeList {α : Type} (decode : Decoder α) : Decoder (List α)
  | .array items => decodeItems decode items
  | _ => .error .malformed

theorem decodeItems_map {α : Type} {decode : Decoder α} {encode : α → Json}
    (l : List α) (h : ∀ x ∈ l, decode (encode x) = .ok x) :
    decodeItems decode ((l.map encode).map source) = .ok l := by
  induction l with
  | nil => rfl
  | cons x xs ih =>
      have hx := h x (by simp)
      have hxs := ih fun y hy => h y (by simp [hy])
      simp only [List.map_cons, decodeItems, hx, hxs, Except.map]

/-- What is decoded from some fields of an object, or the first fault in them and the number of the
field in which it lies. -/
abbrev Fields (α : Type) := Except (Nat × DecodeError) α

/-- What is decoded from some fields and from others; of two faults the first counts. -/
def Fields.and {α β : Type} : Fields α → Fields β → Fields (α × β)
  | .ok a, .ok b => .ok (a, b)
  | .error e, .ok _ => .error e
  | .ok _, .error f => .error f
  | .error e, .error f => .error (if f.1 < e.1 then f else e)

/-- The fields of an object with a name, each with its number. -/
def named (fields : SourceFields) (name : String) : List (Source × Nat) :=
  (fields.zipIdx.filter fun f => f.1.1 == some name).map fun f => (f.1.2, f.2)

/-- A field that may be missing. -/
def field? {α : Type} (name : String) (decode : Decoder α) (fields : SourceFields) :
    Fields (Option α) :=
  match named fields name with
  | [] => .ok none
  | (value, i) :: more =>
      match decode value, more with
      | .error e, _ => .error (i, e)
      | .ok x, [] => .ok (some x)
      | .ok _, (_, j) :: _ => .error (j, .malformed)

/-- The fields with other names than the known ones, none of which counts if `skip` allows it. -/
def others (known : List String) (skip : Bool) (fields : SourceFields) : Fields Unit :=
  let isFault (f : (Option String × Source) × Nat) : Bool :=
    match f.1.1 with
    | none => true
    | some name => !known.contains name && !(skip && f.1.2.isWhole)
  match fields.zipIdx.find? isFault with
  | some (_, i) => .error (i, .malformed)
  | none => .ok ()

/-- The known fields, in their order, with the items of an array; what comes behind them in the array
has no name. -/
def positional : List String → List Source → SourceFields
  | _, [] => []
  | [], item :: items => (none, item) :: positional [] items
  | name :: names, item :: items => (some name, item) :: positional names items

/-- The fields of an object, which may be given as an array. -/
def fields? (known : List String) : Source → Option SourceFields
  | .object fields => some fields
  | .array items => some (positional known items)
  | _ => none

/-- An object: `parts` of it are decoded in the order in which they stand, and then made into one
value.  Fields that are not known are skipped if `skip` allows it. -/
def decodeObject {α β : Type} (known : List String) (skip : Bool) (parts : SourceFields → Fields α)
    (make : α → Decoded β) : Decoder β := fun j =>
  match fields? known j with
  | none => .error .malformed
  | some fields =>
      match (parts fields).and (others known skip fields) with
      | .error e => .error e.2
      | .ok (x, _) => make x

/-- What a text says; what comes behind it is looked at last. -/
def decodeText {α : Type} (decode : Decoder α) (text : String) : Decoded α :=
  let (value, complete) := readText text
  match decode value with
  | .error e => .error e
  | .ok x => if complete then .ok x else .error .malformed

end Json

end Decoder

end ArchiveDeposit

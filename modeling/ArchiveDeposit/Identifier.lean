import ArchiveDeposit.Text.Blank
import ArchiveDeposit.Text.Decimal
import ArchiveDeposit.Text.Quoted

/-!
# Identifiers of observations and collections

An observation is named by the number of its scheduling block, a level 7 collection by a number of
its own.  Both are positive; zero is refused where an identifier is made or read from text, but
stored data is taken as it is.

Reading trims blanks at both ends and then takes a decimal number that fits the type.
-/

namespace ArchiveDeposit

section Identifier

/-- The scheduling block of an observation. -/
structure Sbid where
  value : UInt32
deriving DecidableEq, Repr

/-- The number of a level 7 collection. -/
structure CollectionId where
  value : UInt64
deriving DecidableEq, Repr

/-- The two families of identifiers, as messages name them. -/
inductive IdentifierName where
  | sbid
  | collectionId
deriving DecidableEq, Repr

/-- What messages call an identifier. -/
def IdentifierName.text : IdentifierName → String
  | .sbid => "sbid"
  | .collectionId => "collection id"

/-- Why a number or a text is no identifier. -/
inductive IdentifierError where
  | notPositive (name : IdentifierName)
  | malformed (name : IdentifierName) (text : String) (fault : Text.DecimalFault)
deriving DecidableEq, Repr

/-- The wording of an identifier error. -/
def IdentifierError.message : IdentifierError → String
  | .notPositive name => "invalid identifier: " ++ name.text ++ " must be a positive integer"
  | .malformed name text fault =>
      "invalid identifier: " ++ name.text ++ " " ++ Text.quote text ++ ": " ++ fault.message

namespace Sbid

/-- An identifier from a number, which must not be zero. -/
def ofValue (value : UInt32) : Except IdentifierError Sbid :=
  if value = 0 then .error (.notPositive .sbid) else .ok ⟨value⟩

/-- Reads an identifier. -/
def ofText (text : String) : Except IdentifierError Sbid :=
  match Text.readDecimal UInt32.size (Text.trim text.toList) with
  | .error fault => .error (.malformed .sbid text fault)
  | .ok n => ofValue (UInt32.ofNat n)

/-- The decimal digits of an identifier. -/
def digits (id : Sbid) : String := toString id.value.toNat

/-- An identifier as messages and reports show it. -/
def text (id : Sbid) : String := "sbid:" ++ id.digits

instance : Ord Sbid := ⟨fun a b => compare a.value b.value⟩

instance : Std.TransOrd Sbid where
  eq_swap {a b} := @Std.OrientedCmp.eq_swap _ compare _ a.value b.value
  isLE_trans {a b c} h k := @Std.TransCmp.isLE_trans _ compare _ a.value b.value c.value h k

instance : Std.LawfulEqOrd Sbid where
  eq_of_compare {a b} h := congrArg Sbid.mk
    (Std.LawfulEqOrd.eq_of_compare (show compare a.value b.value = .eq from h))

end Sbid

namespace CollectionId

/-- An identifier from a number, which must not be zero. -/
def ofValue (value : UInt64) : Except IdentifierError CollectionId :=
  if value = 0 then .error (.notPositive .collectionId) else .ok ⟨value⟩

/-- Reads an identifier. -/
def ofText (text : String) : Except IdentifierError CollectionId :=
  match Text.readDecimal UInt64.size (Text.trim text.toList) with
  | .error fault => .error (.malformed .collectionId text fault)
  | .ok n => ofValue (UInt64.ofNat n)

/-- The decimal digits of an identifier. -/
def digits (id : CollectionId) : String := toString id.value.toNat

/-- An identifier as messages and reports show it. -/
def text (id : CollectionId) : String := "collection:" ++ id.digits

end CollectionId

end Identifier

end ArchiveDeposit

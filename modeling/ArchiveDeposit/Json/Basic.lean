/-!
# JSON values

Values of the format in which observations are stored and reports are given.  The fields of an
object keep their order and may repeat a name; what a repeated name means is for the reader of the
object to say.

A number is an integer, or it is kept as it was written.
-/

namespace ArchiveDeposit

section Json

/-- A JSON value. -/
inductive Json where
  | null
  | bool (value : Bool)
  | integer (value : Int)
  /-- A number that is not an integer, as it is written. -/
  | real (text : String)
  | string (value : String)
  | array (items : List Json)
  | object (fields : List (String × Json))
deriving Repr, Inhabited

namespace Json

/-- A natural number as a value. -/
def ofNat (n : Nat) : Json := .integer n

/-- A value that may be absent, which is null then. -/
def ofOption {α : Type} (encode : α → Json) : Option α → Json
  | some x => encode x
  | none => .null

/-- A list of values. -/
def ofList {α : Type} (encode : α → Json) (l : List α) : Json := .array (l.map encode)

/-- A field that is left out where its value is absent. -/
def optionalField {α : Type} (name : String) (encode : α → Json) (value : Option α) :
    List (String × Json) :=
  (value.map fun x => (name, encode x)).toList

/-- Puts a field among fields in the order of their names, in the place of one with its name. -/
def insertField (name : String) (value : Json) : List (String × Json) → List (String × Json)
  | [] => [(name, value)]
  | f :: rest =>
      if name < f.1 then (name, value) :: f :: rest
      else if name = f.1 then (name, value) :: rest
      else f :: insertField name value rest

mutual

/-- The same value with the fields of all objects in the order of their names, of which none
repeats: of fields with one name the last counts. -/
def sorted : Json → Json
  | .array items => .array (sortedItems items)
  | .object fields => .object (sortedFields [] fields)
  | j => j

/-- The same for the items of an array. -/
def sortedItems : List Json → List Json
  | [] => []
  | item :: rest => sorted item :: sortedItems rest

/-- The same for fields, put among those in front of them. -/
def sortedFields (front : List (String × Json)) : List (String × Json) → List (String × Json)
  | [] => front
  | (name, value) :: rest => sortedFields (insertField name (sorted value) front) rest

end

end Json

end Json

end ArchiveDeposit

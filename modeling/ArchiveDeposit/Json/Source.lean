import ArchiveDeposit.Json.Basic

/-!
# JSON texts as trees

What a JSON text says is a tree of its own, because more can be said about a text than a value holds:
the text may stop being JSON somewhere, a string may have half of a character in it, a number may
be too large, and arrays and objects may nest too deep.  Whoever reads a stored text takes what it
needs from the tree in the order of the text, and skips the rest, in which only the first of these
does any harm.

Every value is such a tree (`Json.source`), and a tree in which none of this occurs is a value
(`Source.toJson?`).
-/

namespace ArchiveDeposit

section JsonSource

namespace Json

/-- What a JSON text says, up to where it stops being one. -/
inductive Source where
  | null
  | bool (value : Bool)
  | integer (value : Int)
  /-- A number that is not an integer, as it is written, and whether it is a finite one. -/
  | real (finite : Bool) (text : String)
  /-- A string, which has no value if half of a character stands in it. -/
  | string (value : Option String)
  | array (items : List Source)
  /-- The fields of an object; the same goes for their names. -/
  | object (fields : List (Option String × Source))
  /-- Where the text stops being JSON. -/
  | fault
deriving Repr, Inhabited

/-- The fields of an object in a text. -/
abbrev SourceFields := List (Option String × Source)

mutual

/-- The tree of a value. -/
def source : Json → Source
  | .null => .null
  | .bool b => .bool b
  | .integer n => .integer n
  | .real text => .real true text
  | .string s => .string (some s)
  | .array items => .array (sourceItems items)
  | .object fields => .object (sourceFields fields)

/-- The trees of the items of an array. -/
def sourceItems : List Json → List Source
  | [] => []
  | item :: rest => source item :: sourceItems rest

/-- The trees of the fields of an object. -/
def sourceFields : List (String × Json) → SourceFields
  | [] => []
  | (name, value) :: rest => (some name, source value) :: sourceFields rest

end

instance : Coe Json Source := ⟨source⟩

theorem sourceItems_eq_map (items : List Json) : sourceItems items = items.map source := by
  induction items with
  | nil => rfl
  | cons item rest ih => simp [sourceItems, ih]

theorem sourceFields_eq_map (fields : List (String × Json)) :
    sourceFields fields = fields.map fun f => (some f.1, source f.2) := by
  induction fields with
  | nil => rfl
  | cons f rest ih => simp [sourceFields, ih]

/-- How deep arrays and objects of a value may nest. -/
def maxDepth : Nat := 127

namespace Source

mutual

/-- Whether the text never stops being JSON. -/
def isWhole : Source → Bool
  | .fault => false
  | .array items => itemsWhole items
  | .object fields => fieldsWhole fields
  | _ => true

/-- Whether all items of an array are whole. -/
def itemsWhole : List Source → Bool
  | [] => true
  | item :: rest => isWhole item && itemsWhole rest

/-- Whether all fields of an object are whole. -/
def fieldsWhole : SourceFields → Bool
  | [] => true
  | (_, value) :: rest => isWhole value && fieldsWhole rest

end

mutual

/-- The value of a tree in which arrays and objects nest at most `depth` deep. -/
def toJsonWithin? : (depth : Nat) → Source → Option Json
  | _, .null => some .null
  | _, .bool b => some (.bool b)
  | _, .integer n => some (.integer n)
  | _, .real finite text => if finite then some (.real text) else none
  | _, .string value => value.map Json.string
  | depth + 1, .array items => (itemsToJson? depth items).map Json.array
  | depth + 1, .object fields => (fieldsToJson? depth fields).map Json.object
  | _, _ => none

/-- The values of the items of an array. -/
def itemsToJson? : (depth : Nat) → List Source → Option (List Json)
  | _, [] => some []
  | depth, item :: rest => do
      let value ← toJsonWithin? depth item
      return value :: (← itemsToJson? depth rest)

/-- The values of the fields of an object. -/
def fieldsToJson? : (depth : Nat) → SourceFields → Option (List (String × Json))
  | _, [] => some []
  | depth, (name, value) :: rest => do
      let entry := (← name, ← toJsonWithin? depth value)
      return entry :: (← fieldsToJson? depth rest)

end

/-- The value of a tree, if it has one. -/
def toJson? (s : Source) : Option Json := s.toJsonWithin? maxDepth

end Source

end Json

end JsonSource

end ArchiveDeposit

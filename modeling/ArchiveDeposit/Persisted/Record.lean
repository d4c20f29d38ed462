import ArchiveDeposit.Artefact
import ArchiveDeposit.Persisted.Decoder
import ArchiveDeposit.Time.Reader

/-!
# The stored forms of records

How owners, states, records, transitions, files and signal boards are stored, and how they are read
back.  Encoding writes the fields in a fixed order and leaves out what is absent; decoding is the
converse, and refuses a stage that does not belong to its lifecycle.
-/

namespace ArchiveDeposit

section PersistedRecord

namespace Stage

/-- A stage by its name. -/
def toJson (s : Stage) : Json := .string s.name

/-- The stage with a stored name. -/
def ofJson : Decoder Stage := Json.decodeVariant ofName?

end Stage

namespace Lifecycle

/-- A lifecycle by its name. -/
def toJson (l : Lifecycle) : Json := .string l.name

/-- The lifecycle with a stored name. -/
def ofJson : Decoder Lifecycle := Json.decodeVariant ofName?

end Lifecycle

namespace Kind

/-- A kind by its name. -/
def toJson (k : Kind) : Json := .string k.name

/-- The kind with a stored name. -/
def ofJson : Decoder Kind := Json.decodeVariant ofName?

end Kind

namespace Timestamp

/-- An instant by its stored text. -/
def toJson (t : Timestamp) : Json := .string t.storedText

/-- The instant that a stored text gives. -/
def ofJson : Decoder Timestamp := Json.decodeName ofStored?

end Timestamp

namespace Sbid

/-- An identifier by its number. -/
def toJson (id : Sbid) : Json := .integer id.value.toNat

/-- The identifier with a stored number, which may be zero. -/
def ofJson : Decoder Sbid := fun j => (Json.decodeWord j).map fun n => ⟨UInt32.ofNat n⟩

end Sbid

namespace CollectionId

/-- An identifier by its number. -/
def toJson (id : CollectionId) : Json := .integer id.value.toNat

/-- The identifier with a stored number, which may be zero. -/
def ofJson : Decoder CollectionId := fun j =>
  (Json.decodeBelow UInt64.size j).map fun n => ⟨UInt64.ofNat n⟩

end CollectionId

namespace ArtefactId

/-- The number of a file. -/
def toJson (id : ArtefactId) : Json := .integer id.index

/-- A stored number of a file. -/
def ofJson : Decoder ArtefactId := fun j => (Json.decodeWord j).map ArtefactId.mk

end ArtefactId

namespace Parent

/-- A parent as an object whose one field says which it is. -/
def toJson : Parent → Json
  | .observation sbid => .object [("observation", sbid.toJson)]
  | .level7Collection id => .object [("level7_collection", id.toJson)]

/-- A stored parent. -/
def ofJson : Decoder Parent
  | .object [(some "observation", j)] => (Sbid.ofJson j).map Parent.observation
  | .object [(some "level7_collection", j)] => (CollectionId.ofJson j).map Parent.level7Collection
  | _ => .error .malformed

end Parent

namespace Owner

/-- An owner as an object whose one field says which it is. -/
def toJson : Owner → Json
  | .observation sbid => .object [("observation", sbid.toJson)]
  | .level7Collection id => .object [("level7_collection", id.toJson)]
  | .artefact parent filename =>
      .object [("artefact",
        .object [("parent", Json.ofOption Parent.toJson parent), ("filename", .string filename)])]

/-- A stored owner that is a file.  One without a parent may leave the field out. -/
def fileOfJson : Decoder Owner :=
  Json.decodeObject ["parent", "filename"] true
    (fun fields =>
      (Json.field? "parent" (Json.decodeOptional Parent.ofJson) fields).and <|
      Json.field? "filename" Json.decodeString fields)
    fun (parent, filename) => do return .artefact parent.join (← Json.present filename)

/-- A stored owner. -/
def ofJson : Decoder Owner
  | .object [(some "observation", j)] => (Sbid.ofJson j).map Owner.observation
  | .object [(some "level7_collection", j)] =>
      (CollectionId.ofJson j).map Owner.level7Collection
  | .object [(some "artefact", j)] => fileOfJson j
  | _ => .error .malformed

end Owner

namespace DepositState

/-- A state by its stage, its lifecycle and its owner. -/
def toJson (s : DepositState) : Json :=
  .object [("type", s.stage.toJson), ("lifecycle", s.lifecycle.toJson), ("owner", s.owner.toJson)]

/-- The state with stored parts, if the stage belongs to the lifecycle. -/
def ofParts (stage : Stage) (lifecycle : Lifecycle) (owner : Owner) : Decoded DepositState :=
  (ofStage stage lifecycle owner).mapError DecodeError.refused

/-- A stored state. -/
def ofJson : Decoder DepositState :=
  Json.decodeObject ["type", "lifecycle", "owner"] true
    (fun fields =>
      (Json.field? "type" Stage.ofJson fields).and <|
      (Json.field? "lifecycle" Lifecycle.ofJson fields).and <|
      Json.field? "owner" Owner.ofJson fields)
    fun (stage, lifecycle, owner) => do
      ofParts (← Json.present stage) (← Json.present lifecycle) (← Json.present owner)

end DepositState

namespace DepositRecord

/-- A record by its state, its count of failures and, if it has one, its checkpoint. -/
def toJson (r : DepositRecord) : Json :=
  .object ([("state", r.state.toJson), ("failure_count", .ofNat r.failureCount.toNat)] ++
    Json.optionalField "checkpoint" Stage.toJson r.checkpoint)

/-- A stored record.  Without a count it has not failed. -/
def ofJson : Decoder DepositRecord :=
  Json.decodeObject ["state", "failure_count", "checkpoint"] true
    (fun fields =>
      (Json.field? "state" DepositState.ofJson fields).and <|
      (Json.field? "failure_count" Json.decodeWord fields).and <|
      Json.field? "checkpoint" (Json.decodeOptional Stage.ofJson) fields)
    fun (state, failureCount, checkpoint) => do
      return ⟨← Json.present state, UInt32.ofNat (failureCount.getD 0), checkpoint.join⟩

end DepositRecord

namespace Artefact

/-- A file by its number, kind, name, parent, encapsulation if it has one, and record. -/
def toJson (a : Artefact) : Json :=
  .object ([("id", a.id.toJson), ("kind", a.kind.toJson), ("filename", .string a.filename),
      ("parent", Json.ofOption Parent.toJson a.parent)] ++
    Json.optionalField "encapsulation" ArtefactId.toJson a.encapsulation ++
    [("record", a.record.toJson)])

/-- A stored file. -/
def ofJson : Decoder Artefact :=
  Json.decodeObject ["id", "kind", "filename", "parent", "encapsulation", "record"] true
    (fun fields =>
      (Json.field? "id" ArtefactId.ofJson fields).and <|
      (Json.field? "kind" Kind.ofJson fields).and <|
      (Json.field? "filename" Json.decodeString fields).and <|
      (Json.field? "parent" (Json.decodeOptional Parent.ofJson) fields).and <|
      (Json.field? "encapsulation" (Json.decodeOptional ArtefactId.ofJson) fields).and <|
      Json.field? "record" DepositRecord.ofJson fields)
    fun (id, kind, filename, parent, encapsulation, record) => do
      return ⟨← Json.present id, ← Json.present kind, ← Json.present filename, parent.join,
        encapsulation.join, ← Json.present record⟩

end Artefact

namespace ChildKey

/-- The place of a file among children from its kind, its name and, if it has one, its parent. -/
def ofJson : Decoder ChildKey :=
  Json.decodeObject ["kind", "filename", "parent"] true
    (fun fields =>
      (Json.field? "kind" Kind.ofJson fields).and <|
      (Json.field? "filename" Json.decodeString fields).and <|
      Json.field? "parent" (Json.decodeOptional Parent.ofJson) fields)
    fun (kind, filename, parent) => do
      return ⟨parent.join, ← Json.present kind, ← Json.present filename⟩

end ChildKey

/-- A transition by its owner, its stages and its time. -/
def Transition.toJson (t : Transition) : Json :=
  .object [("owner", t.owner.toJson), ("from", t.source.toJson), ("to", t.target.toJson),
    ("timestamp", t.time.toJson)]

namespace Signal

/-- A report as a pair of its owner and its stage. -/
def toJson (s : Signal) : Json := .array [s.owner.toJson, s.stage.toJson]

/-- A stored report. -/
def ofJson : Decoder Signal
  | .array [owner, stage] => do
      let owner ← Owner.ofJson owner
      let stage ← Stage.ofJson stage
      return ⟨owner, stage⟩
  | _ => .error .malformed

end Signal

namespace SignalBoard

/-- A board by the list of its reports. -/
def toJson (board : SignalBoard) : Json :=
  .object [("completed", Json.ofList Signal.toJson board.toList)]

/-- A stored board.  Its reports may stand in any order and repeat. -/
def ofJson : Decoder SignalBoard :=
  Json.decodeObject ["completed"] true
    (Json.field? "completed" (Json.decodeList Signal.ofJson))
    fun completed => do return Ascending.ofList (← Json.present completed)

end SignalBoard

end PersistedRecord

end ArchiveDeposit

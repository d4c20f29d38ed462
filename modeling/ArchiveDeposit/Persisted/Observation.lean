import ArchiveDeposit.Collection
import ArchiveDeposit.Observation.Status
import ArchiveDeposit.Persisted.Record

/-!
# The stored forms of observations and collections

How an observation and a level 7 collection are stored with their files, how they are read back,
and how the status of an observation is given as data.
-/

namespace ArchiveDeposit

section PersistedObservation

namespace Observation

/-- An observation with its files. -/
def toJson (o : Observation) : Json :=
  .object ([("sbid", o.sbid.toJson), ("record", o.record.toJson)] ++
    Json.optionalField "deposit_started" Timestamp.toJson o.started ++
    Json.optionalField "deposit_completed" Timestamp.toJson o.completed ++
    [("artefacts", Json.ofList Artefact.toJson o.artefacts)])

/-- A stored observation.  Without a list of files it has none. -/
def ofJson : Decoder Observation :=
  Json.decodeObject ["sbid", "record", "deposit_started", "deposit_completed", "artefacts"] true
    (fun fields =>
      (Json.field? "sbid" Sbid.ofJson fields).and <|
      (Json.field? "record" DepositRecord.ofJson fields).and <|
      (Json.field? "deposit_started" (Json.decodeOptional Timestamp.ofJson) fields).and <|
      (Json.field? "deposit_completed" (Json.decodeOptional Timestamp.ofJson) fields).and <|
      Json.field? "artefacts" (Json.decodeList Artefact.ofJson) fields)
    fun (sbid, record, started, completed, artefacts) => do
      return ⟨← Json.present sbid, ← Json.present record, started.join, completed.join,
        artefacts.getD []⟩

end Observation

namespace Collection

/-- A collection with its catalogues. -/
def toJson (c : Collection) : Json :=
  .object ([("id", c.id.toJson), ("record", c.record.toJson)] ++
    Json.optionalField "deposit_completed" Timestamp.toJson c.completed ++
    [("catalogues", Json.ofList Artefact.toJson c.catalogues)])

/-- A stored collection.  Without a list of catalogues it has none. -/
def ofJson : Decoder Collection :=
  Json.decodeObject ["id", "record", "deposit_completed", "catalogues"] true
    (fun fields =>
      (Json.field? "id" CollectionId.ofJson fields).and <|
      (Json.field? "record" DepositRecord.ofJson fields).and <|
      (Json.field? "deposit_completed" (Json.decodeOptional Timestamp.ofJson) fields).and <|
      Json.field? "catalogues" (Json.decodeList Artefact.ofJson) fields)
    fun (id, record, completed, catalogues) => do
      return ⟨← Json.present id, ← Json.present record, completed.join, catalogues.getD []⟩

end Collection

/-- The status of a file as data. -/
def ArtefactStatus.toJson (a : ArtefactStatus) : Json :=
  .object ([("filename", .string a.filename), ("kind", a.kind.toJson),
      ("state", a.stage.toJson), ("deposited", .bool a.deposited), ("failed", .bool a.failed),
      ("failure_count", .ofNat a.failureCount.toNat)] ++
    Json.optionalField "checkpoint" Stage.toJson a.checkpoint ++
    Json.optionalField "encapsulation" Json.string a.encapsulation)

/-- The status of an observation as data. -/
def ObservationStatus.toJson (s : ObservationStatus) : Json :=
  .object ([("sbid", s.sbid.toJson), ("state", s.stage.toJson), ("deposited", .bool s.deposited),
      ("failed", .bool s.failed), ("failure_count", .ofNat s.failureCount.toNat)] ++
    Json.optionalField "checkpoint" Stage.toJson s.checkpoint ++
    Json.optionalField "deposit_started" Timestamp.toJson s.started ++
    Json.optionalField "deposit_completed" Timestamp.toJson s.completed ++
    [("artefacts", Json.ofList ArtefactStatus.toJson s.artefacts)])

end PersistedObservation

end ArchiveDeposit

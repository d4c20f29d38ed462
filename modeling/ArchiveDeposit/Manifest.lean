import ArchiveDeposit.Observation.Basic
import ArchiveDeposit.Persisted.Record
import ArchiveDeposit.Yaml.Decoder
import ArchiveDeposit.Yaml.Reader

/-!
# Manifests

A manifest names an observation and lists its files, some of them packed into encapsulations that
it lists too, anywhere.  Building the observation adds the encapsulations first, so that the files
packed into them find them, and then all other files in their order.
-/

namespace ArchiveDeposit

section Manifest

/-- A file of a manifest. -/
structure ManifestEntry where
  kind : Kind
  filename : String
  /-- The filename of the encapsulation that the file is packed into. -/
  encapsulation : Option String
deriving DecidableEq, Repr

/-- An observation and its files. -/
structure Manifest where
  sbid : UInt32
  entries : List ManifestEntry
deriving DecidableEq, Repr

/-- Why no observation is built from a manifest. -/
inductive ManifestError where
  | invalidSbid (cause : IdentifierError)
  | refused (cause : DepositError)
  | nestedEncapsulation (filename : String)
  | entryRefused (filename : String) (cause : DepositError)
  | unknownEncapsulation (filename encapsulation : String)
deriving DecidableEq, Repr

/-- The wording of an error. -/
def ManifestError.message : ManifestError → String
  | .invalidSbid cause => "invalid sbid in manifest: " ++ cause.message
  | .refused cause => cause.message
  | .nestedEncapsulation filename =>
      "encapsulation file " ++ Text.quote filename ++ " cannot itself be encapsulated"
  | .entryRefused filename cause => "artefact " ++ Text.quote filename ++ ": " ++ cause.message
  | .unknownEncapsulation filename encapsulation =>
      "artefact " ++ Text.quote filename ++ " references unknown encapsulation " ++
        Text.quote encapsulation

namespace ManifestEntry

/-- A file of a manifest by its kind, its name and, if it has one, its encapsulation. -/
def toJson (e : ManifestEntry) : Json :=
  .object ([("kind", e.kind.toJson), ("filename", .string e.filename)] ++
    Json.optionalField "encapsulation" Json.string e.encapsulation)

/-- The names of the fields of a file. -/
def fieldNames : List String := ["kind", "filename", "encapsulation"]

/-- Reads a file from JSON; fields that are not known are not taken. -/
def ofJson : Decoder ManifestEntry :=
  Json.decodeObject fieldNames false
    (fun fields =>
      (Json.field? "kind" Kind.ofJson fields).and <|
      (Json.field? "filename" Json.decodeString fields).and <|
      Json.field? "encapsulation" (Json.decodeOptional Json.decodeString) fields)
    fun (kind, filename, encapsulation) => do
      return ⟨← Json.present kind, ← Json.present filename, encapsulation.join⟩

/-- Reads a file from YAML. -/
def ofYaml (y : Yaml) : Option ManifestEntry := do
  let entries ← y.decodeEntries fieldNames
  let kind ← Yaml.entry? entries "kind" (Yaml.decodeName Kind.ofName?)
  let filename ← Yaml.entry? entries "filename" Yaml.decodeText
  let encapsulation ← Yaml.entry? entries "encapsulation" Yaml.decodeOptionalText
  return ⟨← kind, ← filename, encapsulation.join⟩

end ManifestEntry

namespace Manifest

/-- A manifest by its observation and its files. -/
def toJson (m : Manifest) : Json :=
  .object [("sbid", .ofNat m.sbid.toNat),
    ("artefacts", Json.ofList ManifestEntry.toJson m.entries)]

/-- The names of the fields of a manifest. -/
def fieldNames : List String := ["sbid", "artefacts"]

/-- Reads a manifest from JSON; fields that are not known are not taken. -/
def ofJson : Decoder Manifest :=
  Json.decodeObject fieldNames false
    (fun fields =>
      (Json.field? "sbid" Json.decodeWord fields).and <|
      Json.field? "artefacts" (Json.decodeList ManifestEntry.ofJson) fields)
    fun (sbid, entries) => do return ⟨UInt32.ofNat (← Json.present sbid), entries.getD []⟩

/-- Reads a manifest from YAML. -/
def ofYaml (y : Yaml) : Option Manifest := do
  let entries ← y.decodeEntries fieldNames
  let sbid ← Yaml.entry? entries "sbid" (Yaml.decodeBelow UInt32.size)
  let files ← Yaml.entry? entries "artefacts" (Yaml.decodeList ManifestEntry.ofYaml)
  return ⟨UInt32.ofNat (← sbid), files.getD []⟩

/-- Reads a manifest from the text of a YAML document. -/
def ofText? (text : String) : Option Manifest := (Yaml.ofText? text).bind ofYaml

/-- An operation's refusal as that of a file of a manifest. -/
def refuse (e : ManifestEntry) (result : Except DepositError (Observation × ArtefactId)) :
    Except ManifestError Observation :=
  match result with
  | .error cause => .error (.entryRefused e.filename cause)
  | .ok (o, _) => .ok o

/-- Adds an encapsulation. -/
def addEncapsulation (factory : Factory) (o : Observation) (e : ManifestEntry) :
    Except ManifestError Observation :=
  if e.encapsulation.isSome then .error (.nestedEncapsulation e.filename)
  else refuse e (o.add factory e.kind e.filename)

/-- Adds a file that is no encapsulation. -/
def addFile (factory : Factory) (o : Observation) (e : ManifestEntry) :
    Except ManifestError Observation :=
  match e.encapsulation with
  | none => refuse e (o.add factory e.kind e.filename)
  | some encapsulation =>
      match o.named? encapsulation with
      | none => .error (.unknownEncapsulation e.filename encapsulation)
      | some file => refuse e (o.addEncapsulated factory e.kind e.filename file.id)

/-- Adds files one after the other, up to the first that is refused. -/
def addEach (add : Observation → ManifestEntry → Except ManifestError Observation) :
    Observation → List ManifestEntry → Except ManifestError Observation
  | o, [] => .ok o
  | o, e :: rest =>
      match add o e with
      | .error cause => .error cause
      | .ok o => addEach add o rest

/-- The encapsulations of a manifest. -/
def encapsulations (m : Manifest) : List ManifestEntry :=
  m.entries.filter fun e => e.kind.isEncapsulation

/-- The files of a manifest that are no encapsulations. -/
def files (m : Manifest) : List ManifestEntry :=
  m.entries.filter fun e => !e.kind.isEncapsulation

/-- The observation of a manifest, with nothing deposited. -/
def build (m : Manifest) (factory : Factory) : Except ManifestError Observation :=
  match Sbid.ofValue m.sbid with
  | .error cause => .error (.invalidSbid cause)
  | .ok sbid =>
      match Observation.new sbid factory with
      | .error cause => .error (.refused cause)
      | .ok o =>
          match addEach (addEncapsulation factory) o m.encapsulations with
          | .error cause => .error cause
          | .ok o => addEach (addFile factory) o m.files

end Manifest

end Manifest

end ArchiveDeposit

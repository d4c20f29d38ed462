/-!
# Kinds of depositable things

What can be deposited: the two parents, an observation and a level 7 collection, and the kinds of
files that belong to them.
-/

namespace ArchiveDeposit

section Kind

/-- A kind, in the order in which kinds are listed. -/
inductive Kind where
  | observation
  | level7Collection
  /-- The description of an observation; deposited before its siblings. -/
  | observationMetadataFile
  | catalogue
  | imageCube
  | measurementSet
  | spectrum
  | momentMap
  | cubelet
  | thumbnail
  | evaluationFile
  /-- An archive of many small files. -/
  | encapsulationFile
deriving DecidableEq, Repr

namespace Kind

/-- Every kind, in order. -/
def all : List Kind :=
  [.observation, .level7Collection, .observationMetadataFile, .catalogue, .imageCube,
    .measurementSet, .spectrum, .momentMap, .cubelet, .thumbnail, .evaluationFile,
    .encapsulationFile]

/-- The name of a kind in stored data and manifests. -/
def name : Kind → String
  | .observation => "observation"
  | .level7Collection => "level7_collection"
  | .observationMetadataFile => "observation_metadata_file"
  | .catalogue => "catalogue"
  | .imageCube => "image_cube"
  | .measurementSet => "measurement_set"
  | .spectrum => "spectrum"
  | .momentMap => "moment_map"
  | .cubelet => "cubelet"
  | .thumbnail => "thumbnail"
  | .evaluationFile => "evaluation_file"
  | .encapsulationFile => "encapsulation_file"

/-- The name of a kind in reports and messages, by which siblings are sorted. -/
def typeName : Kind → String
  | .observation => "Observation"
  | .level7Collection => "Level7Collection"
  | .observationMetadataFile => "ObservationMetadataFile"
  | .catalogue => "Catalogue"
  | .imageCube => "ImageCube"
  | .measurementSet => "MeasurementSet"
  | .spectrum => "Spectrum"
  | .momentMap => "MomentMap"
  | .cubelet => "Cubelet"
  | .thumbnail => "Thumbnail"
  | .evaluationFile => "EvaluationFile"
  | .encapsulationFile => "EncapsulationFile"

/-- The kind with exactly this name. -/
def ofName? (name : String) : Option Kind := all.find? fun k => k.name == name

/-- Whether files of this kind may be packed into an encapsulation. -/
def isEncapsulatable : Kind → Bool
  | .spectrum | .momentMap | .cubelet | .thumbnail | .evaluationFile => true
  | _ => false

/-- Whether this kind is a child of a parent, and no parent itself. -/
def isChild : Kind → Bool
  | .observation | .level7Collection => false
  | _ => true

/-- Whether files of this kind are deposited before their siblings. -/
def isPriority (k : Kind) : Bool := k == .observationMetadataFile

/-- Whether this kind is that of an encapsulation. -/
def isEncapsulation (k : Kind) : Bool := k == .encapsulationFile

@[simp] theorem mem_all (k : Kind) : k ∈ all := by cases k <;> decide

@[simp] theorem ofName?_name (k : Kind) : ofName? k.name = some k := by cases k <;> decide

/-- Different kinds have different names in reports. -/
theorem typeName_injective {j k : Kind} (h : j.typeName = k.typeName) : j = k := by
  have hfind : ∀ k : Kind, all.find? (fun i => i.typeName == k.typeName) = some k := by
    intro k
    cases k <;> decide
  have hj := hfind j
  rw [h, hfind k] at hj
  exact (Option.some.inj hj).symm

end Kind

end Kind

end ArchiveDeposit

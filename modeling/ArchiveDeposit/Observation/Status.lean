import ArchiveDeposit.Observation.Basic

/-!
# The status of an observation

What reports show of an observation and its files, in child order, and the report itself as text.
-/

namespace ArchiveDeposit

section Status

/-- What reports show of a file. -/
structure ArtefactStatus where
  filename : String
  kind : Kind
  stage : Stage
  deposited : Bool
  failed : Bool
  failureCount : UInt32
  checkpoint : Option Stage
  /-- The filename of the encapsulation that the file is packed into. -/
  encapsulation : Option String
deriving DecidableEq, Repr

/-- What reports show of an observation. -/
structure ObservationStatus where
  sbid : Sbid
  stage : Stage
  deposited : Bool
  failed : Bool
  failureCount : UInt32
  checkpoint : Option Stage
  started : Option Timestamp
  completed : Option Timestamp
  artefacts : List ArtefactStatus
deriving DecidableEq

namespace ArtefactStatus

/-- The status of a file of an observation. -/
def ofArtefact (o : Observation) (a : Artefact) : ArtefactStatus where
  filename := a.filename
  kind := a.kind
  stage := a.stage
  deposited := a.isDeposited
  failed := a.isFailed
  failureCount := a.record.failureCount
  checkpoint := a.record.checkpoint
  encapsulation := (a.encapsulation.bind o.artefact?).map Artefact.filename

/-- The line of a file in a report. -/
def line (a : ArtefactStatus) : String :=
  "    " ++ a.filename ++ " [" ++ a.kind.typeName ++ "] " ++ a.stage.name ++
    (match a.encapsulation with
      | some encapsulation => " in " ++ encapsulation
      | none => "") ++
    (if 0 < a.failureCount then " (failures: " ++ toString a.failureCount.toNat ++ ")" else "")

end ArtefactStatus

namespace ObservationStatus

/-- The status of an observation. -/
def ofObservation (o : Observation) : ObservationStatus where
  sbid := o.sbid
  stage := o.stage
  deposited := o.isDeposited
  failed := o.isFailed
  failureCount := o.record.failureCount
  checkpoint := o.record.checkpoint
  started := o.started
  completed := o.completed
  artefacts := o.children.map (ArtefactStatus.ofArtefact o)

/-- The stages that files are in, in the order of stages, each with the number of files in it. -/
def stageCounts (s : ObservationStatus) : List (Stage × Nat) :=
  (Stage.all.map fun stage => (stage, s.artefacts.countP fun a => a.stage == stage)).filter
    fun count => count.2 != 0

/-- A line of a report for a value that may be absent. -/
def optionalLine (label : String) (value : Option String) : List String :=
  value.toList.map fun v => "  " ++ label ++ ": " ++ v

/-- The lines of the report. -/
def lines (s : ObservationStatus) : List String :=
  ["Observation: " ++ s.sbid.text, "  State: " ++ s.stage.name,
    "  Failures: " ++ toString s.failureCount.toNat] ++
  optionalLine "Checkpoint" (s.checkpoint.map Stage.name) ++
  optionalLine "Started" (s.started.map Timestamp.text) ++
  optionalLine "Completed" (s.completed.map Timestamp.text) ++
  ["  Artefacts: " ++ toString s.artefacts.length] ++
  s.artefacts.map ArtefactStatus.line

/-- The report, every line ended. -/
def report (s : ObservationStatus) : String := String.join (s.lines.map (· ++ "\n"))

end ObservationStatus

end Status

end ArchiveDeposit

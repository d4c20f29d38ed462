import ArchiveDeposit.Factory
import ArchiveDeposit.Observation.Encapsulation

/-!
# Observations

An observation is a record of its own and a list of files, among them encapsulations and the files
packed into them.  Files are added at the end; a file's number is its place.

A change of the observation's own record also notes when the deposit started, which is when the
observation left its initial stage, and when it was completed.
-/

namespace ArchiveDeposit

section Observation

/-- An observation and its files. -/
structure Observation where
  sbid : Sbid
  record : DepositRecord
  /-- When the observation left the initial stage. -/
  started : Option Timestamp
  /-- When the observation was deposited. -/
  completed : Option Timestamp
  artefacts : List Artefact
deriving DecidableEq

instance : HoldsRecords Observation where
  records o := o.record :: o.artefacts.map Artefact.record

namespace Observation

/-- A new observation without files. -/
def new (sbid : Sbid) (factory : Factory) : Except DepositError Observation :=
  (factory.initialState .observation false (.observation sbid)).map fun state =>
    ⟨sbid, DepositRecord.new state, none, none, []⟩

/-- The observation as the parent of its files. -/
def parent (o : Observation) : Parent := .observation o.sbid

/-- The present state. -/
def state (o : Observation) : DepositState := o.record.state

/-- The present stage. -/
def stage (o : Observation) : Stage := o.record.state.stage

/-- Whether the observation is failed. -/
def isFailed (o : Observation) : Bool := o.state.isFailed

/-- Whether the observation is deposited. -/
def isDeposited (o : Observation) : Bool := o.state.isDeposited

/-- The same observation with other files. -/
def withArtefacts (o : Observation) (artefacts : List Artefact) : Observation :=
  ⟨o.sbid, o.record, o.started, o.completed, artefacts⟩

/-- The file with a number. -/
def artefact? (o : Observation) (id : ArtefactId) : Option Artefact :=
  o.artefacts[id.index]?.filter fun a => a.id == id

/-- The file with a name. -/
def named? (o : Observation) (filename : String) : Option Artefact :=
  o.artefacts.find? fun a => a.filename == filename

/-- The files, in child order. -/
def children (o : Observation) : List Artefact := Artefact.inChildOrder o.artefacts

/-- The failed files, in child order. -/
def failedChildren (o : Observation) : List Artefact := o.children.filter (·.isFailed)

/-- Whether every file is deposited. -/
def allChildrenDeposited (o : Observation) : Bool := o.children.all (·.isDeposited)

/-- The encapsulations, in child order. -/
def encapsulations (o : Observation) : List Artefact :=
  Artefact.inChildOrder (o.artefacts.filter (·.isEncapsulation))

/-- The files packed into an encapsulation, in child order. -/
def encapsulationMembers (o : Observation) (id : ArtefactId) : List Artefact :=
  Artefact.inChildOrder (o.artefacts.filter fun a => a.encapsulation == some id)

/-- Adds a file, packed into an encapsulation or not. -/
def push (o : Observation) (factory : Factory) (kind : Kind) (filename : String)
    (encapsulation : Option ArtefactId) : Except DepositError (Observation × ArtefactId) :=
  if !kind.isChild then .error (.notAChildKind kind)
  else if (o.named? filename).isSome then .error (.duplicateFilename o.parent filename)
  else
    let owner := Owner.artefact (some o.parent) filename
    (factory.initialState kind encapsulation.isSome owner).map fun state =>
      let id : ArtefactId := ⟨o.artefacts.length⟩
      let file : Artefact :=
        ⟨id, kind, filename, some o.parent, encapsulation, DepositRecord.new state⟩
      (o.withArtefacts (o.artefacts ++ [file]), id)

/-- Adds a file on the lifecycle of its kind. -/
def add (o : Observation) (factory : Factory) (kind : Kind) (filename : String) :
    Except DepositError (Observation × ArtefactId) :=
  o.push factory kind filename none

/-- Adds a file that is packed into an encapsulation. -/
def addEncapsulated (o : Observation) (factory : Factory) (kind : Kind) (filename : String)
    (encapsulation : ArtefactId) : Except DepositError (Observation × ArtefactId) :=
  if (o.artefact? encapsulation).any (·.isEncapsulation) then
    o.push factory kind filename (some encapsulation)
  else .error (.unknownEncapsulation o.parent encapsulation)

/-- Puts a state in place of the observation's own and notes the times of start and completion. -/
def apply (o : Observation) (next : DepositState) (now : Timestamp) :
    Observation × Option Transition :=
  let (record, transition) := o.record.replace next now
  match transition with
  | none => (o, none)
  | some t =>
      let started := if t.source = .undeposited then some t.time else o.started
      let completed := if t.target = .deposited then some t.time else o.completed
      (⟨o.sbid, record, started, completed, o.artefacts⟩, some t)

/-- The change of the observation itself that a job reports. -/
def advance (o : Observation) (stage : Stage) (now : Timestamp) :
    Except DepositError (Observation × Option Transition) :=
  (o.state.advanceTo stage).map fun next => o.apply next now

/-- The change of a file that a job reports.  An encapsulation that is deposited takes its packed
members with it. -/
def setArtefactStage (o : Observation) (id : ArtefactId) (stage : Stage) (now : Timestamp) :
    Except DepositError (Observation × List Transition) :=
  match o.artefact? id with
  | none => .error (.unknownArtefact o.parent id)
  | some file =>
      if file.isEncapsulation then
        (Encapsulation.setStage o.artefacts id stage now).map fun (artefacts, transitions) =>
          (o.withArtefacts artefacts, transitions)
      else
        (file.advance stage now).map fun (file, transition) =>
          (o.withArtefacts (o.artefacts.set id.index file), transition.toList)

end Observation

end Observation

end ArchiveDeposit

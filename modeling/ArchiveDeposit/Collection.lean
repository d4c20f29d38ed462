import ArchiveDeposit.Factory
import ArchiveDeposit.Artefact

/-!
# Level 7 collections

A level 7 collection is a record of its own and a list of catalogues.  It is validated first; its
catalogues step only while the collection deposits, and the collection is deposited when all of
them are.  That a collection is invalid is reported by a job and never reached by a step.
-/

namespace ArchiveDeposit

section Collection

/-- A level 7 collection and its catalogues. -/
structure Collection where
  id : CollectionId
  record : DepositRecord
  /-- When the collection was deposited. -/
  completed : Option Timestamp
  catalogues : List Artefact
deriving DecidableEq

instance : HoldsRecords Collection where
  records c := c.record :: c.catalogues.map Artefact.record

namespace Collection

/-- A new collection without catalogues. -/
def new (id : CollectionId) (factory : Factory) : Except DepositError Collection :=
  (factory.initialState .level7Collection false (.level7Collection id)).map fun state =>
    ⟨id, DepositRecord.new state, none, []⟩

/-- The collection as the parent of its catalogues. -/
def parent (c : Collection) : Parent := .level7Collection c.id

/-- The present state. -/
def state (c : Collection) : DepositState := c.record.state

/-- The present stage. -/
def stage (c : Collection) : Stage := c.record.state.stage

/-- Whether the collection is failed. -/
def isFailed (c : Collection) : Bool := c.state.isFailed

/-- Whether the collection is deposited. -/
def isDeposited (c : Collection) : Bool := c.state.isDeposited

/-- The same collection with other catalogues. -/
def withCatalogues (c : Collection) (catalogues : List Artefact) : Collection :=
  ⟨c.id, c.record, c.completed, catalogues⟩

/-- The catalogues, in child order. -/
def children (c : Collection) : List Artefact := Artefact.inChildOrder c.catalogues

/-- The failed catalogues, in child order. -/
def failedChildren (c : Collection) : List Artefact := c.children.filter (·.isFailed)

/-- Whether every catalogue is deposited. -/
def allChildrenDeposited (c : Collection) : Bool := c.children.all (·.isDeposited)

/-- Adds a catalogue. -/
def add (c : Collection) (factory : Factory) (filename : String) :
    Except DepositError (Collection × ArtefactId) :=
  if c.catalogues.any fun a => a.filename == filename then
    .error (.duplicateFilename c.parent filename)
  else
    let owner := Owner.artefact (some c.parent) filename
    (factory.initialState .catalogue false owner).map fun state =>
      let id : ArtefactId := ⟨c.catalogues.length⟩
      let file : Artefact :=
        ⟨id, .catalogue, filename, some c.parent, none, DepositRecord.new state⟩
      (c.withCatalogues (c.catalogues ++ [file]), id)

/-- Puts a state in place of the collection's own and notes the time of completion. -/
def apply (c : Collection) (next : DepositState) (now : Timestamp) :
    Collection × Option Transition :=
  let (record, transition) := c.record.replace next now
  match transition with
  | none => (c, none)
  | some t =>
      let completed := if t.target = .deposited then some t.time else c.completed
      (⟨c.id, record, completed, c.catalogues⟩, some t)

/-- The change of the collection itself that a job reports. -/
def advance (c : Collection) (stage : Stage) (now : Timestamp) :
    Except DepositError (Collection × Option Transition) :=
  (c.state.advanceTo stage).map fun next => c.apply next now

/-- The change of a catalogue that a job reports. -/
def setCatalogueStage (c : Collection) (id : ArtefactId) (stage : Stage) (now : Timestamp) :
    Except DepositError (Collection × Option Transition) :=
  match c.catalogues[id.index]?.filter fun a => a.id == id with
  | none => .error (.unknownArtefact c.parent id)
  | some file =>
      (file.advance stage now).map fun (file, transition) =>
        (c.withCatalogues (c.catalogues.set id.index file), transition)

/-- Takes the collection's own record back to its checkpoint. -/
def recoverOwn (c : Collection) (now : Timestamp) :
    Except DepositError (Collection × Option Transition) :=
  (c.record.recover now).map fun (record, transition) =>
    (⟨c.id, record, c.completed, c.catalogues⟩, transition)

/-- A step of each catalogue. -/
def progressCatalogues (catalogues : List Artefact) (signals : Signals) (now : Timestamp) :
    List Artefact × List Transition :=
  let step := fun a : Artefact => a.progress { signals := signals } now
  (catalogues.map fun a => (step a).1,
    (Artefact.inChildOrder catalogues).filterMap fun a => (step a).2)

/-- One step of every entity that is ready for one.  While the collection deposits, its catalogues
step first, and a failed one among them fails the collection. -/
def progress (c : Collection) (signals : Signals) (now : Timestamp) :
    Collection × List Transition :=
  if c.isFailed || c.state.isTerminal then (c, [])
  else
    let (catalogues, transitions) :=
      if c.stage = .depositing then progressCatalogues c.catalogues signals now
      else (c.catalogues, [])
    let c := c.withCatalogues catalogues
    let around : Surroundings :=
      { signals := signals, children := catalogues.map Artefact.state }
    let next :=
      if c.stage == .depositing && catalogues.any (·.isFailed) then c.state.failed
      else c.state.progress around
    let (c, own) := c.apply next now
    (c, transitions ++ own.toList)

end Collection

end Collection

end ArchiveDeposit

import ArchiveDeposit.Observation.Progress
import ArchiveDeposit.Repository

/-!
# Driving an observation

An observation is driven by ticks.  A tick is one call of progress, then, where jobs are simulated,
the jobs that pack files; what moved is saved.  Every tick has its own time, which a clock gives by
its number.  Driving ends when the observation is deposited or failed, when a tick moved nothing, or
after a given number of ticks.
-/

namespace ArchiveDeposit

section Drive

namespace Observation

/-- Moves the files with the numbers of a list to the stage in which they wait to be packed, up to
the first that refuses. -/
def packEach (now : Timestamp) :
    List ArtefactId → Observation → Observation × Except DepositError (List Transition)
  | [], o => (o, .ok [])
  | id :: ids, o =>
      match o.setArtefactStage id .encapsulating now with
      | .error e => (o, .error e)
      | .ok (o, first) =>
          let (o, result) := packEach now ids o
          (o, result.map (first ++ ·))

/-- The files that a simulated job moves: those to be packed that are in processing. -/
def packable (o : Observation) : List ArtefactId :=
  (o.artefacts.filter fun a =>
    a.state.lifecycle == .encapsulated && a.stage == .processing).map Artefact.id

/-- The simulated jobs: every file to be packed that is in processing moves on. -/
def runJobs (o : Observation) (now : Timestamp) :
    Observation × Except DepositError (List Transition) :=
  packEach now o.packable o

/-- One tick: progress, then the simulated jobs unless the observation is failed. -/
def tick (o : Observation) (signals : Signals) (jobs : Bool) (now : Timestamp) :
    Observation × Except DepositError (List Transition) :=
  let (o, moved) := o.progress signals now
  if jobs && !o.isFailed then
    let (o, result) := o.runJobs now
    (o, result.map (moved ++ ·))
  else (o, .ok moved)

end Observation

/-- Why driving ended. -/
inductive DriveOutcome where
  | deposited
  | failed
  /-- A tick moved nothing. -/
  | stalled
  /-- The given number of ticks ran. -/
  | tickLimit
deriving DecidableEq, Repr

/-- What driving did. -/
structure DriveReport where
  outcome : DriveOutcome
  ticks : Nat
  transitions : Nat
  stage : Stage
deriving DecidableEq, Repr

/-- What stops driving before its end. -/
inductive DriveError (Fault : Type) where
  | job (cause : DepositError)
  | save (sbid : Sbid) (cause : Fault)
deriving DecidableEq, Repr

/-- What is said of a simulated job that was refused. -/
def refusedJobText (cause : DepositError) : String :=
  "simulated encapsulation job: " ++ cause.message

/-- What is said of an observation that could not be saved. -/
def unsavedText (sbid : Sbid) (cause : String) : String :=
  "failed to save " ++ sbid.text ++ ": " ++ cause

/-- The wording of an error, given that of a store's faults. -/
def DriveError.message {Fault : Type} (describe : Fault → String) : DriveError Fault → String
  | .job cause => refusedJobText cause
  | .save sbid cause => unsavedText sbid (describe cause)

variable {Store Fault : Type} [ObservationStore Store Fault]

/-- Saves an observation if something moved. -/
def saveMoved (store : Store) (o : Observation) (moved : List Transition) :
    Store × Except Fault Unit :=
  if moved.isEmpty then (store, .ok ()) else ObservationStore.save store o

/-- Whether driving ends after a tick, and why. -/
def settled? (o : Observation) (moved : List Transition) : Option DriveOutcome :=
  if o.isDeposited then some .deposited
  else if o.isFailed then some .failed
  else if moved.isEmpty then some .stalled
  else none

/-- Drives an observation for at most `limit` more ticks, after `ticks` ticks that made
`transitions` transitions. -/
def driveFrom (signals : Signals) (jobs : Bool) (clock : Nat → Timestamp)
    (ticks transitions : Nat) :
    Nat → Store → Observation → Store × Observation × Except (DriveError Fault) DriveReport
  | 0, store, o => (store, o, .ok ⟨.tickLimit, ticks, transitions, o.stage⟩)
  | limit + 1, store, o =>
      match o.tick signals jobs (clock ticks) with
      | (o, .error e) => (store, o, .error (.job e))
      | (o, .ok moved) =>
          let transitions := transitions + moved.length
          match saveMoved store o moved with
          | (store, .error e) => (store, o, .error (.save o.sbid e))
          | (store, .ok _) =>
              match settled? o moved with
              | some outcome => (store, o, .ok ⟨outcome, ticks + 1, transitions, o.stage⟩)
              | none => driveFrom signals jobs clock (ticks + 1) transitions limit store o

/-- Drives an observation for at most `limit` ticks. -/
def drive (store : Store) (o : Observation) (signals : Signals) (jobs : Bool) (limit : Nat)
    (clock : Nat → Timestamp) : Store × Observation × Except (DriveError Fault) DriveReport :=
  driveFrom signals jobs clock 0 0 limit store o

end Drive

end ArchiveDeposit

import ArchiveDeposit.Observation.Basic

/-!
# The progress of an observation

One call takes each entity a step further that is ready for one.

While the observation deposits its priority files, those may step; while it deposits, all files
may: first those that are no encapsulations, each seeing the encapsulations as they were before the
call, then the encapsulations one after the other, in child order.  An encapsulation that is
deposited takes its packed files along, also those that their own step has packed in the same call.
If a file that may step is failed after that, the observation fails and the call ends.  Otherwise
the observation itself may step, seeing its files as they are now.
-/

namespace ArchiveDeposit

section ObservationProgress

namespace Observation

/-- The state of the encapsulation with a number; of several the last. -/
def encapsulationState? (artefacts : List Artefact) (id : ArtefactId) : Option DepositState :=
  (artefacts.reverse.find? fun a => a.isEncapsulation && a.id == id).map Artefact.state

/-- What a file that is no encapsulation sees around it. -/
def childSurroundings (artefacts : List Artefact) (signals : Signals) (a : Artefact) :
    Surroundings :=
  { signals := signals, encapsulation := a.encapsulation.bind (encapsulationState? artefacts) }

/-- Which files may step in a stage of the observation; in other stages none is asked. -/
def inScope? (stage : Stage) : Option (Artefact → Bool) :=
  match stage with
  | .priorityDepositing => some fun a => a.kind.isPriority
  | .depositing => some fun _ => true
  | _ => none

/-- A step of each file in scope that is no encapsulation.  Every file sees the encapsulations as
they are before any steps. -/
def progressChildren (artefacts : List Artefact) (inScope : Artefact → Bool)
    (signals : Signals) (now : Timestamp) : List Artefact × List Transition :=
  let step := fun a : Artefact => a.progress (childSurroundings artefacts signals a) now
  let moves := fun a : Artefact => inScope a && !a.isEncapsulation
  (artefacts.map fun a => if moves a then (step a).1 else a,
    (Artefact.inChildOrder (artefacts.filter moves)).filterMap fun a => (step a).2)

/-- A step of each encapsulation of a list, one after the other. -/
def progressEach (signals : Signals) (now : Timestamp) :
    List ArtefactId → List Artefact → List Artefact × List Transition
  | [], artefacts => (artefacts, [])
  | id :: ids, artefacts =>
      let (artefacts, first) := Encapsulation.progress artefacts id signals now
      let (artefacts, rest) := progressEach signals now ids artefacts
      (artefacts, first ++ rest)

/-- A step of each encapsulation, in child order. -/
def progressEncapsulations (artefacts : List Artefact) (signals : Signals) (now : Timestamp) :
    List Artefact × List Transition :=
  let files := Artefact.inChildOrder (artefacts.filter (·.isEncapsulation))
  progressEach signals now (files.map Artefact.id) artefacts

/-- A step of the files that may step in a stage of the observation. -/
def progressFiles (stage : Stage) (artefacts : List Artefact) (signals : Signals)
    (now : Timestamp) : List Artefact × List Transition :=
  match inScope? stage with
  | none => (artefacts, [])
  | some inScope =>
      let (artefacts, first) := progressChildren artefacts inScope signals now
      if stage = .depositing then
        let (artefacts, rest) := progressEncapsulations artefacts signals now
        (artefacts, first ++ rest)
      else (artefacts, first)

/-- Whether a file that may step in a stage of the observation is failed. -/
def hasFailedInScope (stage : Stage) (artefacts : List Artefact) : Bool :=
  match inScope? stage with
  | none => false
  | some inScope => artefacts.any fun a => inScope a && a.isFailed

/-- What the observation itself sees around it. -/
def ownSurroundings (artefacts : List Artefact) (signals : Signals) : Surroundings :=
  { signals := signals
    children := artefacts.map Artefact.state
    priorityChildren := (artefacts.filter fun a => a.kind.isPriority).map Artefact.state }

/-- One step of every entity that is ready for one.  A failed and a deposited observation stay as
they are. -/
def progress (o : Observation) (signals : Signals) (now : Timestamp) :
    Observation × List Transition :=
  if o.isFailed || o.state.isTerminal then (o, [])
  else
    let (artefacts, transitions) := progressFiles o.stage o.artefacts signals now
    let o := o.withArtefacts artefacts
    let next :=
      if hasFailedInScope o.stage artefacts then o.state.failed
      else o.state.progress (ownSurroundings artefacts signals)
    let (o, own) := o.apply next now
    (o, transitions ++ own.toList)

end Observation

end ObservationProgress

end ArchiveDeposit

import ArchiveDeposit.Stage

/-!
# Lifecycles

A lifecycle is a line of stages.  Between one stage and the next stands a step: a gate that its
owner's surroundings open, and perhaps a report that the work of the stage is complete.  The two
failure stages belong to every lifecycle without having a place on its line.

The lemmas tie the line to its steps: a step leads from one place to the next, and to a stage that
is accepted.
-/

namespace ArchiveDeposit

section Lifecycle

/-- What has to hold around an owner before it may take a step. -/
inductive Gate where
  /-- Nothing. -/
  | immediate
  /-- Never open: a job or the parent puts the owner into the next stage. -/
  | external
  /-- All children have reached a stage. -/
  | childrenReached (stage : Stage)
  /-- The encapsulation of the owner has reached a stage. -/
  | encapsulationReached (stage : Stage)
  /-- The children that go first are deposited. -/
  | priorityChildrenDeposited
  /-- All children are deposited. -/
  | childrenDeposited
deriving DecidableEq, Repr

/-- A step from a stage to the next. -/
structure Step where
  source : Stage
  target : Stage
  gate : Gate
  /-- Whether the step also needs the report that the work of `source` is complete. -/
  awaitsSignal : Bool
deriving DecidableEq, Repr

/-- The lifecycles. -/
inductive Lifecycle where
  /-- Processed, then deposited. -/
  | standard
  /-- Staged, registered and archived on its own. -/
  | archived
  /-- Packed into an encapsulation. -/
  | encapsulated
  /-- The encapsulation itself. -/
  | encapsulation
  /-- An observation. -/
  | observation
  /-- A level 7 collection. -/
  | level7Collection
deriving DecidableEq, Repr

namespace Lifecycle

/-- Every lifecycle. -/
def all : List Lifecycle :=
  [.standard, .archived, .encapsulated, .encapsulation, .observation, .level7Collection]

/-- The name of a lifecycle. -/
def name : Lifecycle → String
  | .standard => "standard"
  | .archived => "archived"
  | .encapsulated => "encapsulated"
  | .encapsulation => "encapsulation"
  | .observation => "observation"
  | .level7Collection => "level7_collection"

/-- The lifecycle with exactly this name. -/
def ofName? (name : String) : Option Lifecycle := all.find? fun l => l.name == name

@[simp] theorem ofName?_name (l : Lifecycle) : ofName? l.name = some l := by cases l <;> decide

/-- The steps of a file that is staged, registered and archived, with the gates at the end of its
processing and before its deposit. -/
def archivalSteps (processing : Gate) (deposit : Gate) : List Step :=
  [⟨.undeposited, .processing, .immediate, false⟩,
    ⟨.processing, .processed, processing, true⟩,
    ⟨.processed, .staging, .immediate, false⟩,
    ⟨.staging, .staged, .immediate, true⟩,
    ⟨.staged, .registering, .immediate, false⟩,
    ⟨.registering, .registered, .immediate, true⟩,
    ⟨.registered, .archiving, .immediate, false⟩,
    ⟨.archiving, .archived, .immediate, true⟩,
    ⟨.archived, .deposited, deposit, false⟩]

/-- The steps of a lifecycle, in the order of the line. -/
def steps : Lifecycle → List Step
  | .standard =>
      [⟨.undeposited, .processing, .immediate, false⟩,
        ⟨.processing, .processed, .immediate, true⟩,
        ⟨.processed, .depositing, .immediate, false⟩,
        ⟨.depositing, .deposited, .immediate, true⟩]
  | .archived => archivalSteps .immediate .immediate
  | .encapsulated =>
      [⟨.undeposited, .processing, .immediate, false⟩,
        ⟨.processing, .encapsulating, .external, false⟩,
        ⟨.encapsulating, .encapsulated, .encapsulationReached .processed, false⟩,
        ⟨.encapsulated, .deposited, .external, false⟩]
  | .encapsulation =>
      archivalSteps (.childrenReached .encapsulating) (.childrenReached .encapsulated)
  | .observation =>
      [⟨.undeposited, .priorityDepositing, .immediate, false⟩,
        ⟨.priorityDepositing, .depositing, .priorityChildrenDeposited, false⟩,
        ⟨.depositing, .archiving, .childrenDeposited, false⟩,
        ⟨.archiving, .notifying, .immediate, true⟩,
        ⟨.notifying, .deposited, .immediate, true⟩]
  | .level7Collection =>
      [⟨.unvalidated, .validating, .immediate, false⟩,
        ⟨.validating, .valid, .immediate, true⟩,
        ⟨.valid, .preparing, .immediate, false⟩,
        ⟨.preparing, .depositing, .immediate, true⟩,
        ⟨.depositing, .deposited, .childrenDeposited, false⟩]

/-- The stage that a new owner is in. -/
def initial : Lifecycle → Stage
  | .level7Collection => .unvalidated
  | _ => .undeposited

/-- The line of stages, the initial one first. -/
def sequence (l : Lifecycle) : List Stage := l.initial :: l.steps.map Step.target

/-- The place of a stage on the line. -/
def position? (l : Lifecycle) (s : Stage) : Option Nat := l.sequence.findIdx? (· == s)

/-- The step that leaves a stage. -/
def stepFrom? (l : Lifecycle) (s : Stage) : Option Step :=
  l.steps.find? fun step => step.source == s

/-- Whether an owner may be in a stage: a stage of the line or a failure. -/
def accepts (l : Lifecycle) (s : Stage) : Bool := s.isFailure || (l.position? s).isSome

theorem accepts_initial (l : Lifecycle) : l.accepts l.initial = true := by cases l <;> decide

theorem accepts_failed (l : Lifecycle) : l.accepts .failed = true := by cases l <;> decide

/-- The stages that steps lead to are accepted. -/
theorem accepts_target_of_mem (l : Lifecycle) : ∀ step ∈ l.steps, l.accepts step.target = true := by
  cases l <;> decide

/-- Every step leads from one place to the next. -/
theorem position?_target_of_mem (l : Lifecycle) :
    ∀ step ∈ l.steps, (l.position? step.source).isSome = true ∧
      l.position? step.target = (l.position? step.source).map (· + 1) := by
  cases l <;> decide

theorem source_of_stepFrom? {l : Lifecycle} {s : Stage} {step : Step}
    (h : l.stepFrom? s = some step) : step.source = s := by
  simpa using List.find?_some h

/-- The step that leaves a stage leads to an accepted stage. -/
theorem accepts_target {l : Lifecycle} {s : Stage} {step : Step}
    (h : l.stepFrom? s = some step) : l.accepts step.target = true :=
  l.accepts_target_of_mem step (List.mem_of_find?_eq_some h)

/-- The step that leaves a stage leads one place further. -/
theorem position?_target {l : Lifecycle} {s : Stage} {step : Step}
    (h : l.stepFrom? s = some step) :
    ∃ n, l.position? s = some n ∧ l.position? step.target = some (n + 1) := by
  obtain ⟨hsome, hnext⟩ := l.position?_target_of_mem step (List.mem_of_find?_eq_some h)
  rw [source_of_stepFrom? h] at hsome hnext
  obtain ⟨n, hn⟩ := Option.isSome_iff_exists.mp hsome
  exact ⟨n, hn, by simp [hnext, hn]⟩

end Lifecycle

end Lifecycle

end ArchiveDeposit

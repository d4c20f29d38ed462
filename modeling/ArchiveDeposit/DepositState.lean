import ArchiveDeposit.DepositError
import ArchiveDeposit.Signals

/-!
# Deposit states

A deposit state is a stage of a lifecycle, held by an owner.  It carries the proof that the stage
belongs to the lifecycle; every way to make a state checks this or keeps it.

States change in three ways: a step of the lifecycle, taken when its gate is open and the report it
awaits is in; a change that a job reports, which goes forward or to a failure; and a failure.
-/

namespace ArchiveDeposit

section DepositState

/-- A stage of a lifecycle, held by an owner. -/
structure DepositState where
  stage : Stage
  lifecycle : Lifecycle
  owner : Owner
  accepted : lifecycle.accepts stage = true
deriving DecidableEq

/-- What an owner sees around it when it is asked to take a step. -/
structure Surroundings where
  signals : Signals
  children : List DepositState := []
  priorityChildren : List DepositState := []
  encapsulation : Option DepositState := none

namespace DepositState

/-- The state in a stage of a lifecycle, if the stage belongs to it. -/
def ofStage (stage : Stage) (lifecycle : Lifecycle) (owner : Owner) :
    Except DepositError DepositState :=
  if h : lifecycle.accepts stage = true then .ok ⟨stage, lifecycle, owner, h⟩
  else .error (.foreignStage lifecycle stage)

/-- The state that a new owner is in. -/
def initial (lifecycle : Lifecycle) (owner : Owner) : DepositState :=
  ⟨lifecycle.initial, lifecycle, owner, lifecycle.accepts_initial⟩

/-- A state as messages show it. -/
def text (s : DepositState) : String := s.stage.name ++ " (" ++ s.owner.text ++ ")"

/-- Whether nothing follows. -/
def isTerminal (s : DepositState) : Bool := s.stage.isIn .terminal

/-- Whether the deposit of the owner failed. -/
def isFailed (s : DepositState) : Bool := s.stage.isFailure

/-- Whether the owner is deposited. -/
def isDeposited (s : DepositState) : Bool := s.stage == .deposited

/-- The place of the state on the line of its lifecycle; a failure has none. -/
def position? (s : DepositState) : Option Nat := s.lifecycle.position? s.stage

/-- Whether a stage has been reached: it is at or before the place of the state.  A failure has
reached nothing, and a stage of another lifecycle is never reached. -/
def hasReached (s : DepositState) (stage : Stage) : Bool :=
  match s.position?, s.lifecycle.position? stage with
  | some current, some wanted => wanted ≤ current
  | _, _ => false

/-- The same owner in another stage of its lifecycle. -/
def rebind (s : DepositState) (stage : Stage) : Except DepositError DepositState :=
  ofStage stage s.lifecycle s.owner

/-- The same owner, failed. -/
def failed (s : DepositState) : DepositState :=
  ⟨.failed, s.lifecycle, s.owner, s.lifecycle.accepts_failed⟩

/-- The state that a job may report in place of this one: the same stage, a failure, or a later
stage of an owner that has not failed. -/
def advanceTo (s : DepositState) (stage : Stage) : Except DepositError DepositState :=
  match s.rebind stage with
  | .error e => .error e
  | .ok next =>
      if stage = s.stage ∨ stage.isFailure = true then .ok next
      else if s.isFailed || s.hasReached stage then .error (.regression s.owner s.stage stage)
      else .ok next

end DepositState

namespace Surroundings

/-- Whether a gate is open. -/
def opens (around : Surroundings) : Gate → Bool
  | .immediate => true
  | .external => false
  | .childrenReached stage => around.children.all (·.hasReached stage)
  | .encapsulationReached stage => around.encapsulation.any (·.hasReached stage)
  | .priorityChildrenDeposited => around.priorityChildren.all (·.isDeposited)
  | .childrenDeposited => around.children.all (·.isDeposited)

/-- Whether an owner may take a step: its gate is open, and the report it awaits is in. -/
def permits (around : Surroundings) (step : Step) (owner : Owner) : Bool :=
  around.opens step.gate && (!step.awaitsSignal || around.signals owner step.source)

end Surroundings

namespace DepositState

/-- One step further if the surroundings permit it, otherwise the same state. -/
def progress (s : DepositState) (around : Surroundings) : DepositState :=
  match h : s.lifecycle.stepFrom? s.stage with
  | some step =>
      if around.permits step s.owner then
        ⟨step.target, s.lifecycle, s.owner, Lifecycle.accepts_target h⟩
      else s
  | none => s

@[simp] theorem progress_lifecycle (s : DepositState) (around : Surroundings) :
    (s.progress around).lifecycle = s.lifecycle := by
  unfold progress
  split
  · split <;> rfl
  · rfl

@[simp] theorem progress_owner (s : DepositState) (around : Surroundings) :
    (s.progress around).owner = s.owner := by
  unfold progress
  split
  · split <;> rfl
  · rfl

/-- A stage is the whole difference between two states of one owner on one lifecycle. -/
theorem eq_of_stage {s t : DepositState} (hs : s.stage = t.stage)
    (hl : s.lifecycle = t.lifecycle) (ho : s.owner = t.owner) : s = t := by
  cases s
  cases t
  simp_all

end DepositState

end DepositState

end ArchiveDeposit

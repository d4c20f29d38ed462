import ArchiveDeposit.DepositState

/-!
# Factories of deposit states

A factory says which lifecycle the files of a kind are on.  A file that is packed into an
encapsulation is on the lifecycle for such files whatever its kind, provided that its kind may be
packed.  Kinds without a lifecycle are refused; there is no default.
-/

namespace ArchiveDeposit

section Factory

/-- The lifecycle of each kind that has one. -/
structure Factory where
  lifecycle? : Kind → Option Lifecycle

namespace Factory

/-- No kind has a lifecycle. -/
def empty : Factory := ⟨fun _ => none⟩

/-- Gives a kind a lifecycle, in place of the one it has. -/
def register (f : Factory) (kind : Kind) (lifecycle : Lifecycle) : Factory :=
  ⟨fun k => if k = kind then some lifecycle else f.lifecycle? k⟩

/-- The lifecycle of each kind in an archive. -/
def standard : Factory where
  lifecycle?
    | .observation => some .observation
    | .level7Collection => some .level7Collection
    | .observationMetadataFile | .catalogue | .thumbnail | .evaluationFile => some .standard
    | .imageCube | .measurementSet | .spectrum | .momentMap | .cubelet => some .archived
    | .encapsulationFile => some .encapsulation

/-- The lifecycle of a file, which may be packed into an encapsulation. -/
def lifecycleFor (f : Factory) (kind : Kind) (encapsulated : Bool) :
    Except DepositError Lifecycle :=
  if encapsulated then
    if kind.isEncapsulatable then .ok .encapsulated else .error (.notEncapsulatable kind)
  else
    match f.lifecycle? kind with
    | some lifecycle => .ok lifecycle
    | none => .error (.unregisteredKind kind)

/-- The state of an owner in a stage. -/
def createState (f : Factory) (kind : Kind) (encapsulated : Bool) (stage : Stage)
    (owner : Owner) : Except DepositError DepositState :=
  match f.lifecycleFor kind encapsulated with
  | .error e => .error e
  | .ok lifecycle => DepositState.ofStage stage lifecycle owner

/-- The state of a new owner. -/
def initialState (f : Factory) (kind : Kind) (encapsulated : Bool) (owner : Owner) :
    Except DepositError DepositState :=
  (f.lifecycleFor kind encapsulated).map fun lifecycle => DepositState.initial lifecycle owner

/-- The state of an owner in a stage given by name. -/
def createStateByName (f : Factory) (kind : Kind) (encapsulated : Bool) (name : String)
    (owner : Owner) : Except DepositError DepositState :=
  match Stage.ofText name with
  | .error e => .error e
  | .ok stage => f.createState kind encapsulated stage owner

end Factory

end Factory

end ArchiveDeposit

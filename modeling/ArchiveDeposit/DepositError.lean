import ArchiveDeposit.Kind
import ArchiveDeposit.Lifecycle
import ArchiveDeposit.Owner

/-!
# Refused deposit operations

The causes for which an operation on states, files and their parents is refused.  A failed deposit
is a stage and no error: it never appears here.
-/

namespace ArchiveDeposit

section DepositError

/-- Why an operation is refused. -/
inductive DepositError where
  /-- The factory knows no lifecycle for a kind. -/
  | unregisteredKind (kind : Kind)
  /-- A stage does not belong to the lifecycle of its owner. -/
  | foreignStage (lifecycle : Lifecycle) (stage : Stage)
  /-- A change would go back, or leave a failure, without a recovery. -/
  | regression (owner : Owner) (source target : Stage)
  /-- An encapsulation is deposited before all its members are encapsulated. -/
  | encapsulationNotReady (encapsulation member : String) (stage : Stage)
  /-- A text names no stage. -/
  | unknownStageName (text : String)
  /-- Files of a kind cannot be packed into an encapsulation. -/
  | notEncapsulatable (kind : Kind)
  /-- A parent has a file of this name already. -/
  | duplicateFilename (parent : Parent) (filename : String)
  /-- A parent has no encapsulation with this number. -/
  | unknownEncapsulation (parent : Parent) (id : ArtefactId)
  /-- A kind of parents cannot be a file. -/
  | notAChildKind (kind : Kind)
  /-- A parent has no file with this number. -/
  | unknownArtefact (parent : Parent) (id : ArtefactId)
deriving DecidableEq, Repr

/-- The wording of a refusal. -/
def DepositError.message : DepositError → String
  | .unregisteredKind kind => "no lifecycle registered for artefact kind " ++ kind.typeName
  | .foreignStage lifecycle stage =>
      "state type " ++ stage.name ++ " is not part of the " ++ lifecycle.name ++ " lifecycle"
  | .regression owner source target =>
      owner.text ++ " cannot move from " ++ source.name ++ " to " ++ target.name ++
        " without recovery"
  | .encapsulationNotReady encapsulation member stage =>
      "encapsulation " ++ encapsulation ++ " cannot be deposited: member " ++ member ++ " is " ++
        stage.name
  | .unknownStageName text => "unknown deposit state type name: " ++ Text.quote text
  | .notEncapsulatable kind => "artefact kind " ++ kind.typeName ++ " cannot be encapsulated"
  | .duplicateFilename parent filename =>
      parent.text ++ " already has an artefact named " ++ Text.quote filename
  | .unknownEncapsulation parent id =>
      parent.text ++ " has no encapsulation file with id " ++ id.text
  | .notAChildKind kind => "artefact kind " ++ kind.typeName ++ " cannot be a child artefact"
  | .unknownArtefact parent id => parent.text ++ " has no artefact with id " ++ id.text

/-- Reads the name of a stage, in upper or lower case, with blanks around it. -/
def Stage.ofText (text : String) : Except DepositError Stage :=
  match Stage.ofName? (String.ofList ((Text.trim text.toList).map Char.toUpper)) with
  | some stage => .ok stage
  | none => .error (.unknownStageName text)

end DepositError

end ArchiveDeposit

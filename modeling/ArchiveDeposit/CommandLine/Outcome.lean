import ArchiveDeposit.CommandLine.Log
import ArchiveDeposit.Drive
import ArchiveDeposit.Manifest
import ArchiveDeposit.StateDirectory

/-!
# What running a command comes to

Why a command is refused, and what it leaves behind: the tree of files, the lines that it printed
among the entries that it logged, and the code to exit with.
-/

namespace ArchiveDeposit

section Outcome

/-- Why a command is refused. -/
inductive CommandError where
  | unreadableManifest (path : Path) (fault : FileFault)
  | invalidManifest (path : Path)
  | manifest (cause : ManifestError)
  | alreadyImported (sbid : Sbid)
  | signalsNotReset (cause : StateError)
  | notSaved (sbid : Sbid) (cause : StateError)
  | load (cause : ObservationStore.LoadError StateError)
  | state (cause : StateError)
  | drive (cause : DriveError StateError)
  | artefactNotFound (filename : String) (sbid : Sbid)
  | notSet (target : String) (stage : Stage) (cause : DepositError)
  | recovery (cause : ObservationStore.StoredRecoveryError StateError)
  | invalidInstant (option : String) (cause : TimestampError)
  | emptyRange
deriving DecidableEq, Repr

/-- What is said of a manifest that cannot be read. -/
def invalidManifestText : String := "invalid observation manifest"

/-- The wording of a refusal. -/
def CommandError.message : CommandError → String
  | .unreadableManifest path fault =>
      "failed to read manifest: " ++ path.text ++ ": " ++ fault.message
  | .invalidManifest path => "in " ++ path.text ++ ": " ++ invalidManifestText
  | .manifest cause => cause.message
  | .alreadyImported sbid =>
      "observation already imported: " ++ sbid.text ++ " (use --force to replace it)"
  | .signalsNotReset cause => "failed to reset signals: " ++ cause.message
  | .notSaved sbid cause => unsavedText sbid cause.message
  | .load cause => cause.message StateError.message
  | .state cause => cause.message
  | .drive cause => cause.message StateError.message
  | .artefactNotFound filename sbid => "artefact not found: " ++ filename ++ " in " ++ sbid.text
  | .notSet target stage cause =>
      "cannot set " ++ target ++ " to " ++ stage.name ++ ": " ++ cause.message
  | .recovery cause => cause.message StateError.message
  | .invalidInstant option cause => "invalid --" ++ option ++ ": " ++ cause.message
  | .emptyRange => "--completed-to is before --completed-from"

/-- What running a command comes to. -/
structure Outcome where
  tree : FileTree
  /-- What was sent out, in order. -/
  emissions : List Emission
  /-- The code to exit with, unless the command was refused. -/
  result : Except CommandError Nat

namespace Outcome

/-- The lines that were printed. -/
def lines (o : Outcome) : List String := o.emissions.filterMap Emission.line?

/-- All that was printed. -/
def output (o : Outcome) : String := String.join (o.lines.map (· ++ "\n"))

/-- The code to exit with, which is 1 if the command was refused. -/
def code (o : Outcome) : Nat :=
  match o.result with
  | .ok code => code
  | .error _ => 1

/-- A command that did what was asked. -/
def done (directory : StateDirectory) (lines : List String) : Outcome :=
  ⟨directory.tree, lines.map Emission.printed, .ok 0⟩

/-- A command that was refused before it printed anything. -/
def refused (directory : StateDirectory) (cause : CommandError) : Outcome :=
  ⟨directory.tree, [], .error cause⟩

/-- The same outcome, with entries that were logged before anything was sent out. -/
def behind (o : Outcome) (entries : List LogEntry) : Outcome :=
  ⟨o.tree, entries.map Emission.logged ++ o.emissions, o.result⟩

@[simp] theorem lines_done (d : StateDirectory) (lines : List String) :
    (done d lines).lines = lines := by
  simp only [Outcome.lines, done, List.filterMap_map]
  exact List.filterMap_some

@[simp] theorem lines_refused (d : StateDirectory) (cause : CommandError) :
    (refused d cause).lines = [] := rfl

@[simp] theorem tree_behind (o : Outcome) (entries : List LogEntry) :
    (o.behind entries).tree = o.tree := rfl

@[simp] theorem result_behind (o : Outcome) (entries : List LogEntry) :
    (o.behind entries).result = o.result := rfl

/-- What is logged is not printed. -/
@[simp] theorem lines_behind (o : Outcome) (entries : List LogEntry) :
    (o.behind entries).lines = o.lines := by
  simp only [Outcome.lines, behind, List.filterMap_append, List.filterMap_map]
  have : (entries.filterMap (Emission.line? ∘ Emission.logged)) = [] :=
    List.filterMap_eq_nil_iff.2 fun _ _ => rfl
  rw [this, List.nil_append]

end Outcome

end Outcome

end ArchiveDeposit

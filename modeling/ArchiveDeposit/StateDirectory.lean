import ArchiveDeposit.FileTree.Basic
import ArchiveDeposit.Json.Printer
import ArchiveDeposit.Json.Reader
import ArchiveDeposit.Persisted.Observation
import ArchiveDeposit.Repository

/-!
# State directories

A store of observations in a directory.  The observation 7 is in the file `7.json`, and the reports
that are in for it are in `7.signals.json`.  A file is written under another name first and then
takes the place of the old one, so that a file is never there in part.

A file that does not hold what its name says is an error where it is loaded; a file whose name is
that of no observation is skipped where the directory is listed.
-/

namespace ArchiveDeposit

section StateDirectory

/-- What can go wrong with a state directory. -/
inductive StateError where
  /-- A file operation failed. -/
  | storage (path : Path) (fault : FileFault)
  /-- A file does not decode; the reason is given where there is one. -/
  | undecodable (path : Path) (reason : Option String)
  /-- A file holds an observation other than the one that its name says. -/
  | misplaced (path : Path) (held wanted : Sbid)
deriving DecidableEq, Repr

/-- The wording of an error. -/
def StateError.message : StateError → String
  | .storage path fault => "storage error: " ++ path.text ++ ": " ++ fault.message
  | .undecodable path reason =>
      "serialization error: " ++ path.text ++
        (match reason with
          | some reason => ": " ++ reason
          | none => "")
  | .misplaced path held wanted =>
      "serialization error: " ++ path.text ++ ": holds " ++ held.text ++ " instead of " ++
        wanted.text

/-- A directory of observations, and the tree of files that it is in. -/
structure StateDirectory where
  tree : FileTree
  root : Path
deriving DecidableEq

namespace StateDirectory

/-- The end of the name of an observation's file. -/
def observationSuffix : String := ".json"

/-- The end of the name of a file of reports. -/
def signalsSuffix : String := ".signals.json"

/-- The file of an observation. -/
def observationFile (d : StateDirectory) (sbid : Sbid) : Path :=
  d.root.join (sbid.digits ++ observationSuffix)

/-- The file under whose name an observation is written first. -/
def observationDraft (d : StateDirectory) (sbid : Sbid) : Path :=
  d.root.join (sbid.digits ++ ".tmp")

/-- The file of the reports for an observation. -/
def signalsFile (d : StateDirectory) (sbid : Sbid) : Path :=
  d.root.join (sbid.digits ++ signalsSuffix)

/-- The file under whose name reports are written first. -/
def signalsDraft (d : StateDirectory) (sbid : Sbid) : Path :=
  d.root.join (sbid.digits ++ ".signals.tmp")

/-- The same directory in another tree. -/
def withTree (d : StateDirectory) (tree : FileTree) : StateDirectory := ⟨tree, d.root⟩

/-- Whether the observation has a file. -/
def contains (d : StateDirectory) (sbid : Sbid) : Bool := d.tree.isFile (d.observationFile sbid)

/-- What a file holds, or nothing if it is not there. -/
def readValue {α : Type} (d : StateDirectory) (path : Path) (decode : Decoder α) :
    Except StateError (Option α) :=
  if !d.tree.exists? path then .ok none
  else
    match d.tree.read path with
    | .error fault => .error (.storage path fault)
    | .ok text =>
        match Json.decodeText decode text with
        | .error e => .error (.undecodable path e.reason?)
        | .ok x => .ok (some x)

/-- Writes a draft and puts it in the place of a file, in a directory that is made if it is not
there. -/
def replaceFile (d : StateDirectory) (draft path : Path) (text : String) :
    StateDirectory × Except StateError Unit :=
  match d.tree.makeDirectories d.root with
  | (tree, .error fault) => (d.withTree tree, .error (.storage d.root fault))
  | (tree, .ok _) =>
      match tree.write draft text with
      | .error fault => (d.withTree tree, .error (.storage draft fault))
      | .ok tree =>
          match tree.rename draft path with
          | .error fault => (d.withTree tree, .error (.storage path fault))
          | .ok tree => (d.withTree tree, .ok ())

/-- The observation with an identifier. -/
def load (d : StateDirectory) (sbid : Sbid) : Except StateError (Option Observation) :=
  match d.readValue (d.observationFile sbid) Observation.ofJson with
  | .error e => .error e
  | .ok none => .ok none
  | .ok (some o) =>
      if o.sbid = sbid then .ok (some o)
      else .error (.misplaced (d.observationFile sbid) o.sbid sbid)

/-- Stores an observation. -/
def save (d : StateDirectory) (o : Observation) : StateDirectory × Except StateError Unit :=
  d.replaceFile (d.observationDraft o.sbid) (d.observationFile o.sbid) o.toJson.pretty

/-- The reports that are in for an observation; without a file there are none. -/
def loadSignals (d : StateDirectory) (sbid : Sbid) : Except StateError SignalBoard :=
  (d.readValue (d.signalsFile sbid) SignalBoard.ofJson).map fun board =>
    board.getD Ascending.empty

/-- Stores the reports for an observation. -/
def saveSignals (d : StateDirectory) (sbid : Sbid) (board : SignalBoard) :
    StateDirectory × Except StateError Unit :=
  d.replaceFile (d.signalsDraft sbid) (d.signalsFile sbid) board.toJson.pretty

/-- A text without an ending, if it has it. -/
def dropEnding? (ending : List Char) (cs : List Char) : Option (List Char) :=
  if ending.isSuffixOf cs then some (cs.take (cs.length - ending.length)) else none

/-- The observation that a file with this name is of. -/
def sbidOfName? (name : String) : Option Sbid :=
  if signalsSuffix.toList.isSuffixOf name.toList then none
  else do
    let stem ← dropEnding? observationSuffix.toList name.toList
    (Sbid.ofText (String.ofList stem)).toOption

/-- The observations that files are named for, ascending. -/
def list (d : StateDirectory) : Except StateError (List Sbid) :=
  if !d.tree.isDirectory d.root then .ok []
  else
    match d.tree.names d.root with
    | .error fault => .error (.storage d.root fault)
    | .ok names => .ok (stableSort compare (names.filterMap sbidOfName?))

instance : ObservationStore StateDirectory StateError where
  load := load
  save := save
  list := list

end StateDirectory

end StateDirectory

end ArchiveDeposit

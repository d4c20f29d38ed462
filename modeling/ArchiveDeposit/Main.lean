import ArchiveDeposit.CommandLine.Program
import ArchiveDeposit.Time.Reader
import Std.Time.DateTime.Timestamp

/-!
# The program

The outer layer: it reads the part of the file system that a command line names into a tree, runs
the call on the tree, and writes back what it changed.
-/

namespace ArchiveDeposit

section Main

/-- The path of a place. -/
def placePath (place : Place) : String :=
  match place with
  | [] => "."
  | name :: rest =>
      if name = FileTree.rootName then "/" ++ String.intercalate "/" rest
      else String.intercalate "/" place

/-- What the file system has at a path. -/
def entryAt (path : String) : IO.FS.DirEntry := { root := ".", fileName := path }

/-- What stands at a place of the file system. -/
def nodeAt (place : Place) : IO (Option FileNode) := do
  let path := (entryAt (placePath place)).path
  if ← path.isDir then return some .directory
  else if ← path.pathExists then
    let bytes ← IO.FS.readBinFile path
    return some (match String.fromUTF8? bytes with
      | some text => .file text
      | none => .binary)
  else return none

/-- Takes what stands at a place into a tree. -/
def take (tree : FileTree) (place : Place) : IO FileTree := do
  if place.isEmpty then return tree
  match ← nodeAt place with
  | some node => return tree.put place node
  | none => return tree

/-- Takes all that a path passes through into a tree, and gives the place that it leads to. -/
def takeAlong (tree : FileTree) : Place → List String → IO (FileTree × Place)
  | place, [] => return (tree, place)
  | place, part :: rest => do
      let place := FileTree.enter place part
      takeAlong (← take tree place) place rest

/-- Takes all that a path names into a tree, and gives the place that it leads to. -/
def takePath (tree : FileTree) (path : Path) : IO (FileTree × Place) := do
  let (place, parts) := FileTree.start path
  takeAlong (← take tree place) place parts

/-- Takes a directory and the files in it into a tree. -/
def takeDirectory (tree : FileTree) (path : Path) : IO FileTree := do
  let (tree, place) ← takePath tree path
  if tree.isDirectory path then
    let entries ← (entryAt (placePath place)).path.readDir
    entries.foldlM (fun tree entry => take tree (place ++ [entry.fileName])) tree
  else return tree

/-- Writes a file under the name with another ending and puts it in its place. -/
def replaceText (path text : String) : IO Unit := do
  let file := (entryAt path).path
  let draft := file.withExtension "tmp"
  IO.FS.writeFile draft text
  IO.FS.rename draft file

/-- Makes the file system what a tree has become. -/
def writeBack (before after : FileTree) : IO Unit := do
  for entry in after.toList do
    unless before.node? entry.place = some entry.node do
      match entry.node with
      | .directory => IO.FS.createDirAll (placePath entry.place)
      | .file text => replaceText (placePath entry.place) text
      | .binary => pure ()
  for entry in before.toList do
    unless (after.node? entry.place).isSome do
      IO.FS.removeFile (placePath entry.place)

/-- The environment of the process. -/
def processEnvironment : IO Environment := do
  return ⟨← IO.getEnv Environment.directoryVariable, ← IO.getEnv Environment.ticksVariable⟩

/-- The current time, in seconds. -/
def currentTime : IO Timestamp := do
  return Timestamp.ofUnixSeconds (← Std.Time.Timestamp.now).toSecondsSinceUnixEpoch.val

/-- The part of the file system that an invocation names: the settings file, and with settings the
manifest and the state directory. -/
def treeFor (i : Invocation) (env : Environment) : IO FileTree := do
  let tree ← match i.options.file with
    | some path => pure (← takePath Ascending.empty path).1
    | none => pure Ascending.empty
  match Settings.resolve tree i.options env with
  | .error _ => return tree
  | .ok settings => do
      let tree ← match i.command with
        | .importManifest path _ => pure (← takePath tree path).1
        | _ => pure tree
      takeDirectory tree settings.stateDirectory

/-- Runs the program. -/
def runProgram (words : List String) : IO UInt32 := do
  let env ← processEnvironment
  let tree ← match Command.ofCommandLine words with
    | .ok invocation => treeFor invocation env
    | .error _ => pure Ascending.empty
  let execution := Execution.ofWords words env tree (← currentTime)
  writeBack tree execution.tree
  IO.print execution.text
  if execution.code = 2 ∧ execution.text.isEmpty then
    for line in helpLines do IO.eprintln line
  return UInt32.ofNat execution.code

end Main

end ArchiveDeposit

/-- The entry point of the program. -/
def main (words : List String) : IO UInt32 := ArchiveDeposit.runProgram words

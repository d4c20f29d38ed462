import ArchiveDeposit.FileTree.Path
import ArchiveDeposit.Order.Ascending

/-!
# Trees of files

What a command sees of a file system: directories and files with their texts, each at a place that
is given by the names on the way to it.  Commands read a tree and give the tree that they leave
behind.

A path is followed part by part, and what it passes through must be directories.  The faults are
those of the operating system, in its words and with its numbers; a name has at most 255 bytes, and
a path fewer than 4096.
-/

namespace ArchiveDeposit

section FileTree

/-- What an operation on files fails with. -/
inductive FileFault where
  | notFound
  /-- A directory is named by dots where it would be moved. -/
  | busy
  | alreadyExists
  | notADirectory
  | isADirectory
  | invalidArgument
  /-- A name or a whole path is too long. -/
  | tooLong
  | notEmpty
  /-- A path with the character that ends paths in it. -/
  | nulInPath
  /-- The bytes of a file are no text. -/
  | notText
deriving DecidableEq, Repr

/-- The wording of a fault. -/
def FileFault.message : FileFault → String
  | .notFound => "No such file or directory (os error 2)"
  | .busy => "Device or resource busy (os error 16)"
  | .alreadyExists => "File exists (os error 17)"
  | .notADirectory => "Not a directory (os error 20)"
  | .isADirectory => "Is a directory (os error 21)"
  | .invalidArgument => "Invalid argument (os error 22)"
  | .tooLong => "File name too long (os error 36)"
  | .notEmpty => "Directory not empty (os error 39)"
  | .nulInPath => "file name contained an unexpected NUL byte"
  | .notText => "stream did not contain valid UTF-8"

/-- What stands at a place. -/
inductive FileNode where
  | file (text : String)
  /-- A file whose bytes are no text. -/
  | binary
  | directory
deriving DecidableEq, Repr

/-- The names on the way to a place. -/
abbrev Place := List String

/-- A place and its depth, by which places are ordered before their names are. -/
structure PlaceKey where
  depth : Nat
  place : Place
deriving DecidableEq, Repr

/-- The key of a place. -/
def PlaceKey.ofPlace (place : Place) : PlaceKey := ⟨place.length, place⟩

instance : Ord PlaceKey :=
  ⟨compareLex (compareOn PlaceKey.depth) (compareOn PlaceKey.place)⟩

instance : Std.TransOrd PlaceKey :=
  inferInstanceAs (Std.TransCmp (compareLex (compareOn PlaceKey.depth) (compareOn PlaceKey.place)))

/-- A place and what stands there. -/
structure FileEntry where
  key : PlaceKey
  node : FileNode
deriving DecidableEq, Repr

/-- The place of an entry. -/
def FileEntry.place (e : FileEntry) : Place := e.key.place

/-- The files and directories, by ascending places.  The place without names is the directory that
relative paths begin at; it is always there. -/
abbrev FileTree := Ascending FileEntry.key

namespace FileTree

/-- The name of the root, at which absolute paths begin. -/
def rootName : String := "/"

/-- What stands at a place. -/
def node? (t : FileTree) (place : Place) : Option FileNode :=
  if place.isEmpty then some .directory else (t.find? (.ofPlace place)).map FileEntry.node

/-- The tree with something put at a place. -/
def put (t : FileTree) (place : Place) (node : FileNode) : FileTree :=
  t.insert ⟨.ofPlace place, node⟩

/-- The place of the directory that holds a directory.  The place that relative paths begin at, and
what lies above it, has two dots there. -/
def parentOf (place : Place) : Place :=
  match place.getLast? with
  | none => [".."]
  | some ".." => place ++ [".."]
  | some name => if name = rootName then place else place.dropLast

/-- One part further from a directory. -/
def enter (place : Place) (part : String) : Place :=
  if part = "" ∨ part = "." then place
  else if part = ".." then parentOf place
  else place ++ [part]

/-- The most bytes that a name may have. -/
def maxNameBytes : Nat := 255

/-- The number of bytes from which on a path is too long. -/
def pathBytesLimit : Nat := 4096

/-- Follows parts from a place.  The place that is reached need not be there, what is passed on the
way must. -/
def follow (t : FileTree) : Place → List String → Except FileFault Place
  | place, [] => .ok place
  | place, part :: rest =>
      match t.node? place with
      | none => .error .notFound
      | some .directory =>
          if maxNameBytes < part.utf8ByteSize then .error .tooLong
          else t.follow (enter place part) rest
      | some _ => .error .notADirectory

/-- Where the parts of a path begin, and the parts after that. -/
def start (path : Path) : Place × List String :=
  match path.parts with
  | "" :: rest => ([rootName], rest)
  | parts => ([], parts)

/-- What is wrong with a path wherever it is followed. -/
def pathFault? (path : Path) : Option FileFault :=
  if path.text.toList.contains '\x00' then some .nulInPath
  else if pathBytesLimit ≤ path.text.utf8ByteSize then some .tooLong
  else none

/-- The place that a path leads to. -/
def resolve (t : FileTree) (path : Path) : Except FileFault Place :=
  if path.text.isEmpty then .error .notFound
  else
    match pathFault? path with
    | some fault => .error fault
    | none =>
        let (place, parts) := start path
        t.follow place parts

/-- What a path leads to. -/
def look (t : FileTree) (path : Path) : Except FileFault FileNode := do
  let place ← t.resolve path
  match t.node? place with
  | some node => .ok node
  | none => .error .notFound

/-- Whether a path leads to something. -/
def exists? (t : FileTree) (path : Path) : Bool := (t.look path).toOption.isSome

/-- Whether a path leads to a file. -/
def isFile (t : FileTree) (path : Path) : Bool :=
  match t.look path with
  | .ok .directory => false
  | .ok _ => true
  | .error _ => false

/-- Whether a path leads to a directory. -/
def isDirectory (t : FileTree) (path : Path) : Bool :=
  match t.look path with
  | .ok .directory => true
  | _ => false

/-- The text of a file. -/
def read (t : FileTree) (path : Path) : Except FileFault String :=
  match t.look path with
  | .error e => .error e
  | .ok .directory => .error .isADirectory
  | .ok .binary => .error .notText
  | .ok (.file text) => .ok text

/-- The names in the directory at a place, ascending. -/
def namesAt (t : FileTree) (place : Place) : List String :=
  t.toList.filterMap fun e =>
    match e.place.getLast? with
    | some name => if e.place.dropLast = place then some name else none
    | none => none

/-- The names in a directory, ascending. -/
def names (t : FileTree) (path : Path) : Except FileFault (List String) := do
  let place ← t.resolve path
  match t.node? place with
  | none => .error .notFound
  | some .directory => .ok (t.namesAt place)
  | some _ => .error .notADirectory

/-- The tree with a text written to a file, which is made if it is not there. -/
def write (t : FileTree) (path : Path) (text : String) : Except FileFault FileTree := do
  let place ← t.resolve path
  match t.node? place with
  | some .directory => .error .isADirectory
  | some _ => .ok (t.put place (.file text))
  | none =>
      match t.node? place.dropLast with
      | some .directory => .ok (t.put place (.file text))
      | some _ => .error .notADirectory
      | none => .error .notFound

/-- Makes the directories of parts that are not there, from a place on; `made` says whether one was
made before.  A directory that has nothing but dots behind it is not made and has to be there.  A
file on the way is no directory; at the end, and on the way once a directory was made, it is there
already.  What was made before a fault stays. -/
def makeFrom (t : FileTree) : (made : Bool) → Place → List String →
    FileTree × Except FileFault Unit
  | _, _, [] => (t, .ok ())
  | made, place, part :: rest =>
      let place := enter place part
      let ends := rest.all (·.isEmpty)
      let dots := !ends && rest.all fun part => part.isEmpty || part == "."
      if maxNameBytes < part.utf8ByteSize then (t, .error .tooLong)
      else
        match t.node? place with
        | some .directory => makeFrom t made place rest
        | some _ => (t, .error (if ends || (made && !dots) then .alreadyExists else .notADirectory))
        | none =>
            if dots then (t, .error .notFound)
            else makeFrom (t.put place .directory) true place rest

/-- Makes a directory and those above it, where they are not there. -/
def makeDirectories (t : FileTree) (path : Path) : FileTree × Except FileFault Unit :=
  if path.text.isEmpty then (t, .ok ())
  else
    match pathFault? path with
    | some fault => (t, .error fault)
    | none =>
        let (place, parts) := start path
        t.makeFrom false place parts

/-- The tree with a text written to a file in a directory that is made if it is not there. -/
def writeWithin (t : FileTree) (path : Path) (text : String) : FileTree × Except FileFault Unit :=
  match t.makeDirectories path.directory with
  | (t, .error e) => (t, .error e)
  | (t, .ok _) =>
      match t.write path text with
      | .error e => (t, .error e)
      | .ok t => (t, .ok ())

/-- Whether a place is another one or lies below it. -/
def isBelow (place above : Place) : Bool := above.isPrefixOf place

/-- Moves what stands at a place, and all below it. -/
def move (t : FileTree) (source target : Place) : FileTree :=
  let moved := t.toList.filter fun e => isBelow e.place source
  let kept := moved.foldl (fun t e => t.erase e.key) t
  moved.foldl (fun t e => t.put (target ++ e.place.drop source.length) e.node) kept

/-- The tree in which what stands at a place has taken the place of another.  A file takes the place
of a file, and a directory that of an empty directory. -/
def renameAt (t : FileTree) (source target : Place) : Except FileFault FileTree :=
  match t.node? source, t.node? target with
  | none, _ => .error .notFound
  | some _, none =>
      if isBelow target source then .error .invalidArgument
      else if t.node? target.dropLast = some .directory then .ok (t.move source target)
      else .error .notFound
  | some .directory, some .directory =>
      if source = target then .ok t
      else if isBelow target source then .error .invalidArgument
      else if (t.namesAt target).isEmpty then .ok (t.move source target)
      else .error .notEmpty
  | some .directory, some _ => .error .notADirectory
  | some _, some .directory => .error .isADirectory
  | some _, some _ => .ok (t.move source target)

/-- The tree in which a path has taken the place of another.  Neither may end in dots, and only the
path of a directory may become one that ends in a slash. -/
def rename (t : FileTree) (source target : Path) : Except FileFault FileTree := do
  let place ← t.resolve source
  let target := if t.isDirectory source then target.trimEnd else target
  let goal ← t.resolve target
  if source.endsInDots || target.endsInDots then .error .busy else t.renameAt place goal

end FileTree

end FileTree

end ArchiveDeposit

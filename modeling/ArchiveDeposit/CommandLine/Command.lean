import ArchiveDeposit.CommandLine.Arguments
import ArchiveDeposit.DepositError
import ArchiveDeposit.FileTree.Path
import ArchiveDeposit.Settings

/-!
# Commands

The commands, their options, and how they are read from the words of a command line.

The options that are settings may stand before the command or behind it; those behind it count.
-/

namespace ArchiveDeposit

section Command

/-- Which observations or files are listed. -/
structure Selection where
  stages : List Stage
  /-- Files in one of these stages are listed, if there are any, and no observations. -/
  artefactStages : List Stage
  /-- The first and the last instant of completion, as they are written. -/
  completed : Option (String × String)
deriving DecidableEq, Repr

/-- What is asked for. -/
inductive Command where
  | importManifest (manifest : Path) (force : Bool)
  | progress (sbid : Option Sbid) (once : Bool)
  | status (sbid : Sbid) (json : Bool)
  | list (selection : Selection)
  | setState (sbid : Sbid) (file : Option String) (stage : Stage)
  | signal (sbid : Sbid) (file : Option String) (stage : Stage) (withdraw : Bool)
  | recover (sbid : Sbid) (file : Option String)
deriving DecidableEq, Repr

/-- The commands by name. -/
inductive CommandName where
  | importManifest
  | progress
  | status
  | list
  | setState
  | signal
  | recover
deriving DecidableEq, Repr

namespace CommandName

/-- Every command. -/
def all : List CommandName :=
  [.importManifest, .progress, .status, .list, .setState, .signal, .recover]

/-- The word for a command. -/
def text : CommandName → String
  | .importManifest => "import"
  | .progress => "progress"
  | .status => "status"
  | .list => "list"
  | .setState => "set-state"
  | .signal => "signal"
  | .recover => "recover"

/-- The command with a word. -/
def ofText? (text : String) : Option CommandName := all.find? fun c => c.text == text

end CommandName

/-- What the words of a command line have given so far. -/
structure Draft where
  manifest : Option Path := none
  force : Bool := false
  sbid : Option Sbid := none
  once : Bool := false
  json : Bool := false
  /-- The stage of one entity. -/
  stage : Option Stage := none
  stages : List Stage := []
  artefactStages : List Stage := []
  completedFrom : Option String := none
  completedTo : Option String := none
  file : Option String := none
  withdraw : Bool := false
  settingsFile : Option Path := none
  stateDirectory : Option Path := none
  maxTicks : Option Nat := none
  /-- How often more log lines were asked for. -/
  verbosity : Nat := 0
deriving DecidableEq, Repr

namespace Draft

/-- Takes a value in that no earlier one was given for. -/
def takeOnce {α : Type} (given : Option α) (value : Except UsageError α) (put : α → Draft) :
    Except UsageError Draft :=
  if given.isSome then .error .conflict else value.map put

/-- A path, which must not be empty. -/
def readPath (text : String) : Except UsageError Path :=
  if text.isEmpty then .error .emptyValue else .ok ⟨text⟩

/-- The identifier of an observation. -/
def readSbid (text : String) : Except UsageError Sbid :=
  (Sbid.ofText text).mapError fun _ => .invalidValue

/-- The name of a stage. -/
def readStage (text : String) : Except UsageError Stage :=
  (Stage.ofText text).mapError fun _ => .invalidValue

/-- The texts between commas. -/
def splitAtCommas : List Char → List (List Char)
  | [] => [[]]
  | c :: cs =>
      if c = ',' then [] :: splitAtCommas cs
      else
        match splitAtCommas cs with
        | [] => [[c]]
        | text :: rest => (c :: text) :: rest

/-- The names of stages between commas. -/
def readStages (text : String) : Except UsageError (List Stage) :=
  (splitAtCommas text.toList).mapM fun cs => readStage (String.ofList cs)

/-- A number of ticks.  Zero may have a minus sign. -/
def readTicks (text : String) : Except UsageError Nat :=
  match text.toList with
  | '-' :: c :: cs => if (c :: cs).all (· == '0') then .ok 0 else .error .invalidValue
  | cs => (Text.readDecimal UInt32.size cs).mapError fun _ => .invalidValue

/-- A flag that must not repeat. -/
def flag (given : Draft → Bool) (put : Draft → Draft) : OptionMeaning Draft :=
  .flag fun d => if given d then .error .conflict else .ok (put d)

/-- An option that must not repeat, with a value. -/
def single {α : Type} (given : Draft → Option α) (read : String → Except UsageError α)
    (put : Draft → α → Draft) : OptionMeaning Draft :=
  .value fun text d => takeOnce (given d) (read text) (put d)

/-- An option that may repeat, with values that add up. -/
def several (put : Draft → List Stage → Draft) : OptionMeaning Draft :=
  .value fun text d => (readStages text).map (put d)

/-- The option for an observation. -/
def sbidOption : String × OptionMeaning Draft :=
  ("sbid", single Draft.sbid readSbid fun d sbid => { d with sbid := some sbid })

/-- The option for a file. -/
def fileOption : String × OptionMeaning Draft :=
  ("file", single Draft.file .ok fun d file => { d with file := some file })

/-- The option for a stage, which has one of two names. -/
def stageOption (name : String) : String × OptionMeaning Draft :=
  (name, single Draft.stage readStage fun d stage => { d with stage := some stage })

/-- The options of a command. -/
def options : CommandName → List (String × OptionMeaning Draft)
  | .importManifest => [("force", flag Draft.force fun d => { d with force := true })]
  | .progress => [sbidOption, ("once", flag Draft.once fun d => { d with once := true })]
  | .status => [sbidOption, ("json", flag Draft.json fun d => { d with json := true })]
  | .list =>
      [("state", several fun d l => { d with stages := d.stages ++ l }),
        ("artefact-state", several fun d l => { d with artefactStages := d.artefactStages ++ l }),
        ("completed-from",
          single Draft.completedFrom .ok fun d text => { d with completedFrom := some text }),
        ("completed-to",
          single Draft.completedTo .ok fun d text => { d with completedTo := some text })]
  | .setState => [sbidOption, fileOption, stageOption "state"]
  | .signal =>
      [sbidOption, fileOption, stageOption "stage",
        ("withdraw", flag Draft.withdraw fun d => { d with withdraw := true })]
  | .recover => [sbidOption, fileOption]

/-- The operands of a command. -/
def operands : CommandName → List (String → Draft → Except UsageError Draft)
  | .importManifest =>
      [fun text d => (readPath text).map fun path => { d with manifest := some path }]
  | _ => []

/-- Asks for the general description. -/
def askHelp : Draft → Except UsageError Draft := fun _ => .error .help

/-- Asks for the version. -/
def askVersion : Draft → Except UsageError Draft := fun _ => .error .version

/-- Asks for more log lines, which may repeat. -/
def askMore : Draft → Except UsageError Draft :=
  fun d => .ok { d with verbosity := d.verbosity + 1 }

/-- The options that are settings, and the one for more log lines. -/
def settingOptions : List (String × OptionMeaning Draft) :=
  [("verbose", .flag askMore),
    ("config", single Draft.settingsFile readPath fun d path => { d with settingsFile := some path }),
    ("state-dir",
      single Draft.stateDirectory readPath fun d path => { d with stateDirectory := some path }),
    ("max-ticks", single Draft.maxTicks readTicks fun d n => { d with maxTicks := some n })]

/-- What may stand behind the word for a command; the settings only if `settings` says so. -/
def commandGrammar (settings : Bool) (name : CommandName) : Grammar Draft where
  long := options name ++ (if settings then settingOptions else []) ++ [("help", .flag askHelp)]
  short := (if settings then [('v', askMore)] else []) ++ [('h', askHelp)]
  operands := operands name
  commands := []

/-- The word that asks for the description of a command. -/
def helpWord : String := "help"

/-- What may stand before the word for a command. -/
def mainGrammar : Grammar Draft where
  long := settingOptions ++ [("help", .flag askHelp), ("version", .flag askVersion)]
  short := [('v', askMore), ('h', askHelp), ('V', askVersion)]
  operands := []
  commands := CommandName.all.map CommandName.text ++ [helpWord]

/-- A value that has to be given. -/
def required {α : Type} (value : Option α) : Except UsageError α :=
  match value with
  | some x => .ok x
  | none => .error .missingArgument

/-- The observations or files that a list is asked for.  Options that exclude each other are refused
before options that need each other. -/
def selection (d : Draft) : Except UsageError Selection :=
  if !d.stages.isEmpty && !d.artefactStages.isEmpty then .error .conflict
  else
    match d.completedFrom, d.completedTo with
    | none, none => .ok ⟨d.stages, d.artefactStages, none⟩
    | some first, some last => .ok ⟨d.stages, d.artefactStages, some (first, last)⟩
    | _, _ => .error .missingArgument

/-- The command with a name that a draft gives. -/
def command (d : Draft) : CommandName → Except UsageError Command
  | .importManifest => (required d.manifest).map fun path => .importManifest path d.force
  | .progress => .ok (.progress d.sbid d.once)
  | .status => (required d.sbid).map fun sbid => .status sbid d.json
  | .list => d.selection.map Command.list
  | .setState => do return .setState (← required d.sbid) d.file (← required d.stage)
  | .signal => do return .signal (← required d.sbid) d.file (← required d.stage) d.withdraw
  | .recover => (required d.sbid).map fun sbid => .recover sbid d.file

/-- The settings that are given behind a command, and where none are, those before it. -/
def settings (outer inner : Draft) : SettingOptions where
  file := inner.settingsFile.or outer.settingsFile
  stateDirectory := inner.stateDirectory.or outer.stateDirectory
  maxTicks := inner.maxTicks.or outer.maxTicks

end Draft

/-- What a whole command line asks for. -/
structure Invocation where
  options : SettingOptions
  /-- How often more log lines are asked for. -/
  verbosity : Nat
  command : Command
deriving DecidableEq, Repr

/-- The name of the program. -/
def programName : String := "casda-deposit"

/-- The name of the program and its version. -/
def versionText : String := programName ++ " 0.1.0"

/-- The general description. -/
def helpLines : List String :=
  ["Usage: " ++ programName ++ " [OPTIONS] <COMMAND>", "", "Commands:"] ++
    CommandName.all.map (fun c => "  " ++ c.text) ++
    ["", "Options:"] ++ Draft.settingOptions.map (fun o => "  --" ++ o.1)

namespace Command

/-- Reads what stands behind the word for a command. -/
def readOptions (settings : Bool) (name : CommandName) (words : List String) :
    Except UsageError (Draft × Command) := do
  let (reading, _) ← (Draft.commandGrammar settings name).read {} words
  let draft ← reading.settle
  return (draft, ← draft.command name)

/-- Reads a command without settings. -/
def ofWords : List String → Except UsageError Command
  | [] => .error .noCommand
  | word :: rest =>
      match CommandName.ofText? word with
      | none => .error .unknownArgument
      | some name => (readOptions false name rest).map Prod.snd

/-- What the word for help shows: the general description or that of a command. -/
def helpFor : List String → UsageError
  | [] => .help
  | [word] => if Draft.mainGrammar.commands.contains word then .help else .unknownArgument
  | _ => .unknownArgument

/-- Reads a whole command line: settings, a command, and its options.  What stands behind the
command is examined first, and counts first. -/
def ofCommandLine (words : List String) : Except UsageError Invocation := do
  let (reading, found) ← Draft.mainGrammar.read {} words
  match found with
  | none =>
      let _ ← reading.settle
      .error .noCommand
  | some ⟨word, rest⟩ =>
      match CommandName.ofText? word with
      | none => .error (helpFor rest)
      | some name =>
          let (inner, command) ← readOptions true name rest
          let outer ← reading.settle
          let verbosity := if inner.verbosity = 0 then outer.verbosity else inner.verbosity
          return ⟨Draft.settings outer inner, verbosity, command⟩

end Command

end Command

end ArchiveDeposit

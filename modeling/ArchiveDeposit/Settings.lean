import ArchiveDeposit.FileTree.Basic
import ArchiveDeposit.Json.Basic
import ArchiveDeposit.Text.Blank
import ArchiveDeposit.Text.Decimal
import ArchiveDeposit.Text.Quoted
import ArchiveDeposit.Yaml.Decoder
import ArchiveDeposit.Yaml.Reader

/-!
# Settings

What the commands depend on besides their arguments.  Settings come from four places, each of which
overrides those before it: the defaults, a file, the environment, and the options of the command
line.
-/

namespace ArchiveDeposit

section Settings

/-- The form of log lines. -/
inductive LogFormat where
  | text
  | json
deriving DecidableEq, Repr

namespace LogFormat

/-- The name of a form. -/
def name : LogFormat → String
  | .text => "text"
  | .json => "json"

/-- The form with exactly this name. -/
def ofName? (name : String) : Option LogFormat :=
  [LogFormat.text, .json].find? fun f => f.name == name

end LogFormat

/-- What the commands depend on besides their arguments. -/
structure Settings where
  /-- The directory in which observations are stored. -/
  stateDirectory : Path
  /-- The most ticks that one call drives an observation for. -/
  maxTicks : Nat
  /-- Whether every stage counts as complete without a report. -/
  autoComplete : Bool
  /-- Whether the jobs that pack files are simulated. -/
  simulateJobs : Bool
  logFormat : LogFormat
deriving DecidableEq, Repr

/-- The variables of the environment that are settings. -/
structure Environment where
  stateDirectory : Option String
  maxTicks : Option String
deriving DecidableEq, Repr

namespace Environment

/-- The name of the variable for the state directory. -/
def directoryVariable : String := "CASDA_STATE_DIR"

/-- The name of the variable for the most ticks. -/
def ticksVariable : String := "CASDA_MAX_TICKS"

end Environment

/-- The options of the command line that are settings. -/
structure SettingOptions where
  file : Option Path
  stateDirectory : Option Path
  maxTicks : Option Nat
deriving DecidableEq, Repr

/-- Why there are no settings. -/
inductive SettingsError where
  | invalid
  | invalidFile (path : Path)
  | unreadableFile (path : Path) (fault : FileFault)
  | invalidTicks (text : String) (fault : Text.DecimalFault)
  | noTicks
deriving DecidableEq, Repr

namespace SettingsError

/-- What is said of settings that cannot be read. -/
def invalidText : String := "invalid deposit configuration"

/-- The wording of an error. -/
def message : SettingsError → String
  | .invalid => invalidText
  | .invalidFile path => "in " ++ path.text ++ ": " ++ invalidText
  | .unreadableFile path fault =>
      "failed to read config file: " ++ path.text ++ ": " ++ fault.message
  | .invalidTicks text fault =>
      Environment.ticksVariable ++ " must be a positive integer, got " ++ Text.quote text ++ ": " ++
        fault.message
  | .noTicks => "max_ticks must be at least 1"

end SettingsError

namespace Settings

/-- The settings where nothing else is said. -/
def standard : Settings := ⟨⟨".casda/observations"⟩, 64, true, true, .text⟩

/-- The settings as data. -/
def toJson (s : Settings) : Json :=
  .object [("state_dir", .string s.stateDirectory.text), ("max_ticks", .ofNat s.maxTicks),
    ("auto_complete", .bool s.autoComplete), ("simulate_jobs", .bool s.simulateJobs),
    ("log_format", .string s.logFormat.name)]

/-- The names of the settings in a file. -/
def fieldNames : List String :=
  ["state_dir", "max_ticks", "auto_complete", "simulate_jobs", "log_format"]

/-- Reads settings from YAML; what is missing is as usual. -/
def ofYaml (y : Yaml) : Option Settings := do
  let entries ← y.decodeEntries fieldNames
  let directory ← Yaml.entry? entries "state_dir" Yaml.decodeText
  let ticks ← Yaml.entry? entries "max_ticks" (Yaml.decodeBelow UInt32.size)
  let complete ← Yaml.entry? entries "auto_complete" Yaml.decodeBool
  let jobs ← Yaml.entry? entries "simulate_jobs" Yaml.decodeBool
  let format ← Yaml.entry? entries "log_format" (Yaml.decodeName LogFormat.ofName?)
  return ⟨(directory.map Path.mk).getD standard.stateDirectory,
    ticks.getD standard.maxTicks, complete.getD standard.autoComplete,
    jobs.getD standard.simulateJobs, format.getD standard.logFormat⟩

/-- Reads settings from the text of a YAML document. -/
def ofText (text : String) : Except SettingsError Settings :=
  match (Yaml.ofText? text).bind ofYaml with
  | some s => .ok s
  | none => .error .invalid

/-- Reads settings from a file. -/
def ofFile (tree : FileTree) (path : Path) : Except SettingsError Settings :=
  match tree.read path with
  | .error fault => .error (.unreadableFile path fault)
  | .ok text =>
      match ofText text with
      | .ok s => .ok s
      | .error _ => .error (.invalidFile path)

/-- The same settings with another state directory. -/
def withStateDirectory (s : Settings) (path : Path) : Settings :=
  ⟨path, s.maxTicks, s.autoComplete, s.simulateJobs, s.logFormat⟩

/-- The same settings with another number of ticks. -/
def withMaxTicks (s : Settings) (ticks : Nat) : Settings :=
  ⟨s.stateDirectory, ticks, s.autoComplete, s.simulateJobs, s.logFormat⟩

/-- A variable that is set to something. -/
def nonempty (value : Option String) : Option String := value.filter fun v => !v.isEmpty

/-- The settings after the environment; a variable without a text counts as not set. -/
def applyEnvironment (s : Settings) (env : Environment) : Except SettingsError Settings :=
  let s :=
    match nonempty env.stateDirectory with
    | some directory => s.withStateDirectory ⟨directory⟩
    | none => s
  match nonempty env.maxTicks with
  | none => .ok s
  | some text =>
      match Text.readDecimal UInt32.size (Text.trim text.toList) with
      | .ok ticks => .ok (s.withMaxTicks ticks)
      | .error fault => .error (.invalidTicks text fault)

/-- The settings after the options. -/
def applyOptions (s : Settings) (options : SettingOptions) : Settings :=
  let s :=
    match options.stateDirectory with
    | some path => s.withStateDirectory path
    | none => s
  match options.maxTicks with
  | some ticks => s.withMaxTicks ticks
  | none => s

/-- The settings of a call, from a file if one is named, the environment and the options. -/
def resolve (tree : FileTree) (options : SettingOptions) (env : Environment) :
    Except SettingsError Settings := do
  let s ←
    match options.file with
    | some path => ofFile tree path
    | none => .ok standard
  let s ← s.applyEnvironment env
  let s := s.applyOptions options
  if s.maxTicks = 0 then .error .noTicks else .ok s

end Settings

end Settings

end ArchiveDeposit

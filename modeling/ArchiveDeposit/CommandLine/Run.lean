import ArchiveDeposit.CommandLine.Command
import ArchiveDeposit.CommandLine.Journal
import ArchiveDeposit.CommandLine.Outcome

/-!
# Running commands

What each command does to a tree of files, what it prints and logs, and how it ends.  A command that
is refused leaves in the tree what it had done before, and what it sent out before that stays.
-/

namespace ArchiveDeposit

section Run

/-- What commands depend on: the settings and the clock. -/
structure Circumstances where
  settings : Settings
  now : Timestamp

/-- The state directory of the settings. -/
def Settings.stateDirectoryIn (s : Settings) (tree : FileTree) : StateDirectory :=
  ⟨tree, s.stateDirectory⟩

namespace Command

/-- The observation of a manifest in a file. -/
def buildManifest (tree : FileTree) (path : Path) : Except CommandError Observation :=
  match tree.read path with
  | .error fault => .error (.unreadableManifest path fault)
  | .ok text =>
      match Manifest.ofText? text with
      | none => .error (.invalidManifest path)
      | some m => (m.build Factory.standard).mapError CommandError.manifest

/-- Stores an observation that was imported. -/
def saveImported (d : StateDirectory) (o : Observation) : Outcome :=
  match d.save o with
  | (d, .error e) => .refused d (.notSaved o.sbid e)
  | (d, .ok _) =>
      let line := "OK: imported " ++ o.sbid.text ++ " with " ++ toString o.artefacts.length ++
        " artefacts"
      (Outcome.done d [line]).behind [d.savedEntry o.sbid]

/-- Imports an observation.  One that is there already is replaced only if `force` says so, and its
reports are withdrawn first. -/
def runImport (d : StateDirectory) (path : Path) (force : Bool) : Outcome :=
  match buildManifest d.tree path with
  | .error e => .refused d e
  | .ok o =>
      if !d.contains o.sbid then (saveImported d o).behind [.built o]
      else if !force then (Outcome.refused d (.alreadyImported o.sbid)).behind [.built o]
      else
        let entries : List LogEntry := [.built o, .replacing o.sbid]
        match d.saveSignals o.sbid Ascending.empty with
        | (d, .error e) => (Outcome.refused d (.signalsNotReset e)).behind entries
        | (d, .ok _) => (saveImported d o).behind entries

/-- The word for the way that driving ended. -/
def verdict : DriveOutcome → String
  | .deposited => "deposited"
  | .failed => "FAILED"
  | .stalled => "waiting"
  | .tickLimit => "tick limit reached"

/-- The line for an observation that was driven. -/
def driveLine (sbid : Sbid) (report : DriveReport) : String :=
  sbid.text ++ ": " ++ report.stage.name ++ " after " ++ toString report.ticks ++ " tick(s), " ++
    toString report.transitions ++ " transition(s) (" ++ verdict report.outcome ++ ")"

/-- The reports that count for an observation. -/
def signalsFor (d : StateDirectory) (settings : Settings) (sbid : Sbid) :
    Except StateError Signals :=
  if settings.autoComplete then .ok Signals.autoComplete
  else (d.loadSignals sbid).map SignalBoard.toSignals

/-- What driving one stored observation comes to: the directory, the entries that are logged, and a
report. -/
def driveOne (d : StateDirectory) (c : Circumstances) (limit : Nat) (sbid : Sbid) :
    StateDirectory × List LogEntry × Except CommandError DriveReport :=
  match ObservationStore.fetch d sbid with
  | .error e => (d, [], .error (.load e))
  | .ok o =>
      match signalsFor d c.settings sbid with
      | .error e => (d, [], .error (.state e))
      | .ok signals =>
          let jobs := c.settings.simulateJobs
          let entries := StateDirectory.driveEntries signals jobs c.now 0 limit d o
          let (d, _, result) := drive d o signals jobs limit fun _ => c.now
          (d, entries, result.mapError CommandError.drive)

/-- Drives stored observations one after the other.  The code is 2 if one of them failed. -/
def driveEach (c : Circumstances) (limit : Nat) : StateDirectory → List Sbid → Outcome
  | d, [] => .done d []
  | d, sbid :: rest =>
      match driveOne d c limit sbid with
      | (d, entries, .error e) => (Outcome.refused d e).behind entries
      | (d, entries, .ok report) =>
          let after := driveEach c limit d rest
          let code := if report.outcome = .failed then 2 else 0
          let line := Emission.printed (driveLine sbid report)
          (Outcome.mk after.tree (line :: after.emissions) (after.result.map (max code))).behind
            entries

/-- Whether an observation needs no progress: it is deposited or failed. -/
def isSettled (o : Observation) : Bool := o.isDeposited || o.isFailed

/-- Drives one observation, or all that are not settled. -/
def runProgress (d : StateDirectory) (c : Circumstances) (sbid : Option Sbid) (once : Bool) :
    Outcome :=
  let limit := if once then 1 else c.settings.maxTicks
  match sbid with
  | some sbid => driveEach c limit d [sbid]
  | none =>
      match ObservationStore.loadAll d with
      | .error e => (Outcome.refused d (.state e)).behind d.skippedEntries
      | .ok all =>
          let entries := d.skippedEntries ++ (all.filter isSettled).map LogEntry.settled
          match (all.filter fun o => !isSettled o).map Observation.sbid with
          | [] => (Outcome.done d ["No observations to progress."]).behind entries
          | sbids => (driveEach c limit d sbids).behind entries

/-- Shows the status of an observation. -/
def runStatus (d : StateDirectory) (sbid : Sbid) (json : Bool) : Outcome :=
  match ObservationStore.fetch d sbid with
  | .error e => .refused d (.load e)
  | .ok o =>
      let status := ObservationStatus.ofObservation o
      .done d (if json then [status.toJson.pretty] else status.lines)

/-- The line of a file in a list. -/
def artefactLine (sbid : Sbid) (a : Artefact) : String :=
  sbid.text ++ "  " ++ a.filename ++ "  [" ++ a.kind.typeName ++ "]  " ++ a.stage.name

/-- The line of an observation in a list. -/
def observationLine (o : Observation) : String :=
  o.sbid.text ++ "  " ++ o.stage.name ++ "  " ++
    toString (o.artefacts.countP (·.isDeposited)) ++ "/" ++ toString o.artefacts.length ++
    " deposited, " ++ toString (o.artefacts.countP (·.isFailed)) ++ " failed"

/-- A range of instants as it is written; the first is read first. -/
def readRange (first last : String) : Except CommandError (Timestamp × Timestamp) := do
  let first ← (Timestamp.ofText first).mapError (CommandError.invalidInstant "completed-from")
  let last ← (Timestamp.ofText last).mapError (CommandError.invalidInstant "completed-to")
  if first.notAfter last then return (first, last) else throw .emptyRange

/-- The range of completion of a selection. -/
def rangeOf (s : Selection) : Except CommandError (Option (Timestamp × Timestamp)) :=
  match s.completed with
  | none => .ok none
  | some (first, last) => (readRange first last).map some

/-- The observations in some stages that were completed in a range.  Without stages all count, and
without a range all times. -/
def selected (d : StateDirectory) (stages : List Stage) (range : Option (Timestamp × Timestamp)) :
    Except StateError (List Observation) :=
  match range with
  | some (first, last) =>
      (ObservationStore.findCompletedBetween d first last).map fun found =>
        found.filter fun o => stages.isEmpty || stages.contains o.stage
  | none =>
      if stages.isEmpty then ObservationStore.loadAll d else ObservationStore.findByStages d stages

/-- The outcome of listing things of a directory, each on a line, and their number. -/
def listing {α : Type} (d : StateDirectory) (found : Except StateError (List α))
    (line : α → String) (noun : String) : Outcome :=
  let outcome : Outcome :=
    match found with
    | .error e => .refused d (.state e)
    | .ok found => .done d (found.map line ++ [toString found.length ++ " " ++ noun])
  outcome.behind d.skippedEntries

/-- Lists observations, or files. -/
def runList (d : StateDirectory) (s : Selection) : Outcome :=
  if !d.tree.isDirectory d.root then
    .done d ["No observations found (state directory does not exist)."]
  else if !s.artefactStages.isEmpty then
    listing d (ObservationStore.findArtefactsByStages d s.artefactStages)
      (fun (sbid, a) => artefactLine sbid a) "artefact(s)"
  else
    match rangeOf s with
    | .error e => .refused d e
    | .ok range => listing d (selected d s.stages range) observationLine "observation(s)"

/-- A change of a stored observation, and the target that it is named for. -/
def changeStage (o : Observation) (file : Option String) (stage : Stage) (now : Timestamp) :
    Except CommandError (Observation × String × List Transition) :=
  match file with
  | none =>
      ((o.advance stage now).mapError (.notSet o.sbid.text stage)).map fun (o, transition) =>
        (o, o.sbid.text, transition.toList)
  | some filename =>
      match o.named? filename with
      | none => .error (.artefactNotFound filename o.sbid)
      | some a =>
          ((o.setArtefactStage a.id stage now).mapError (.notSet filename stage)).map
            fun (o, transitions) => (o, filename, transitions)

/-- The line of a transition that a command made. -/
def transitionLine (t : Transition) : String := "  " ++ t.text

/-- The lines for a change that was made. -/
def changeLines (target : String) (stage : Stage) : List Transition → List String
  | [] => ["OK: " ++ target ++ " already " ++ stage.name]
  | t :: rest =>
      ("OK: " ++ target ++ " transitioned " ++ t.source.name ++ " → " ++ t.target.name) ::
        rest.map transitionLine

/-- Puts an observation or a file into a stage. -/
def runSetState (d : StateDirectory) (c : Circumstances) (sbid : Sbid) (file : Option String)
    (stage : Stage) : Outcome :=
  match ObservationStore.fetch d sbid with
  | .error e => .refused d (.load e)
  | .ok o =>
      match changeStage o file stage c.now with
      | .error e => .refused d e
      | .ok (o, target, transitions) =>
          let entries := o.moveEntries true none transitions
          match d.save o with
          | (d, .error e) => (Outcome.refused d (.notSaved sbid e)).behind entries
          | (d, .ok _) =>
              (Outcome.done d (changeLines target stage transitions)).behind
                (entries ++ [d.savedEntry sbid])

/-- The owner that a report is for. -/
def ownerOf (o : Observation) (file : Option String) : Except CommandError Owner :=
  match file with
  | none => .ok (.observation o.sbid)
  | some filename =>
      match o.named? filename with
      | none => .error (.artefactNotFound filename o.sbid)
      | some a => .ok a.owner

/-- The line for a report that was taken in or back. -/
def signalLine (owner : Owner) (stage : Stage) (withdraw changed : Bool) : String :=
  if changed then
    "OK: " ++ (if withdraw then "withdrew" else "signalled") ++ " " ++ stage.name ++ " for " ++
      owner.text
  else "OK: nothing to do, " ++ stage.name ++ " for " ++ owner.text ++ " unchanged"

/-- Takes a report for an owner in or back. -/
def recordSignal (d : StateDirectory) (sbid : Sbid) (signal : Signal) (withdraw : Bool) :
    Outcome :=
  match d.loadSignals sbid with
  | .error e => .refused d (.state e)
  | .ok board =>
      let (board, changed) := if withdraw then board.withdraw signal else board.signal signal
      match d.saveSignals sbid board with
      | (d, .error e) => .refused d (.state e)
      | (d, .ok _) => .done d [signalLine signal.owner signal.stage withdraw changed]

/-- Takes a report for an observation or a file in or back. -/
def runSignal (d : StateDirectory) (c : Circumstances) (sbid : Sbid) (file : Option String)
    (stage : Stage) (withdraw : Bool) : Outcome :=
  match ObservationStore.fetch d sbid with
  | .error e => .refused d (.load e)
  | .ok o =>
      match ownerOf o file with
      | .error e => .refused d e
      | .ok owner =>
          (recordSignal d sbid ⟨owner, stage⟩ withdraw).behind
            (if c.settings.autoComplete then [.signalsIgnored] else [])

/-- The line for a recovery that was done. -/
def recoveryLine (sbid : Sbid) (file : Option String) (transitions : List Transition) : String :=
  "OK: recovered " ++ sbid.text ++
    (match file with
      | some filename => "/" ++ filename
      | none => "") ++
    " (" ++ toString transitions.length ++ " transition(s))"

/-- Recovers a failed file of an observation, or the failed observation. -/
def recoverIn (file : Option String) (now : Timestamp) (o : Observation) :
    Observation × Except RecoveryError (List Transition) :=
  match file with
  | some filename => o.recoverArtefact filename now
  | none => o.recoverAll now

/-- The entries of a recovery. -/
def recoveryEntries (d : StateDirectory) (sbid : Sbid) (file : Option String) (now : Timestamp) :
    List LogEntry :=
  match ObservationStore.fetch d sbid with
  | .error _ => []
  | .ok o =>
      match recoverIn file now o with
      | (after, .error _) => o.recoveryEntries after
      | (after, .ok transitions) =>
          o.recoveryEntries after ++ [LogEntry.recovery sbid file transitions.length]

/-- Recovers a failed file or a failed observation that is stored. -/
def runRecover (d : StateDirectory) (c : Circumstances) (sbid : Sbid) (file : Option String) :
    Outcome :=
  let entries := recoveryEntries d sbid file c.now
  let (d, result) :=
    match file with
    | some filename => ObservationStore.recoverArtefact d sbid filename c.now
    | none => ObservationStore.recoverObservation d sbid c.now
  match result with
  | .error e => (Outcome.refused d (.recovery e)).behind entries
  | .ok transitions =>
      (Outcome.done d
        (transitions.map transitionLine ++ [recoveryLine sbid file transitions])).behind
        (entries ++ [d.savedEntry sbid])

/-- Runs a command. -/
def run (command : Command) (c : Circumstances) (tree : FileTree) : Outcome :=
  let d := c.settings.stateDirectoryIn tree
  match command with
  | .importManifest manifest force => runImport d manifest force
  | .progress sbid once => runProgress d c sbid once
  | .status sbid json => runStatus d sbid json
  | .list selection => runList d selection
  | .setState sbid file stage => runSetState d c sbid file stage
  | .signal sbid file stage withdraw => runSignal d c sbid file stage withdraw
  | .recover sbid file => runRecover d c sbid file

/-- Resolves the settings and runs a command with them. -/
def runIn (command : Command) (options : SettingOptions) (env : Environment) (tree : FileTree)
    (now : Timestamp) : Except SettingsError Outcome :=
  (Settings.resolve tree options env).map fun settings => command.run ⟨settings, now⟩ tree

end Command

end Run

end ArchiveDeposit

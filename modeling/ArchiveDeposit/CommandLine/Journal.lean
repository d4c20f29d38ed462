import ArchiveDeposit.CommandLine.Log
import ArchiveDeposit.Drive
import ArchiveDeposit.StateDirectory

/-!
# What is logged

The entries for what happens to observations: changes of stage, the deposit of packed members with
their encapsulation, recoveries, ticks, files that are stored, and files that are skipped.

The entries are told from what an operation gives, its transitions and the observations before and
after it, so the operations themselves keep no log.
-/

namespace ArchiveDeposit

section Journal

namespace LogEntry

/-- A change of the stage of an owner; a failure is counted. -/
def changed (owner : Owner) (source target : Stage) (failures : UInt32) : LogEntry :=
  let change : List (String × Json) :=
    [("owner", .string owner.text), ("from", source.toJson), ("to", target.toJson)]
  if target.isFailure then
    ⟨.warning, "deposit failed", change ++ [("failure_count", .ofNat failures.toNat)]⟩
  else ⟨.info, "deposit state changed", change⟩

/-- An owner that was taken back. -/
def recovered (owner : Owner) (target : Stage) : LogEntry :=
  ⟨.info, "deposit recovered", [("owner", .string owner.text), ("to", target.toJson)]⟩

/-- The value that names an observation. -/
def sbidValue (sbid : Sbid) : String × Json := ("sbid", .string sbid.text)

/-- A failed file that makes its observation fail. -/
def childFailed (sbid : Sbid) (a : Artefact) : LogEntry :=
  ⟨.warning, "child artefact failed, failing observation",
    [sbidValue sbid, ("artefact", .string a.filename), ("state", a.stage.toJson)]⟩

/-- The members that were deposited with an encapsulation. -/
def membersDeposited (encapsulation : String) (deposited : Nat) : LogEntry :=
  ⟨.debug, "encapsulation fan-out",
    [("encapsulation", .string encapsulation), ("deposited", .ofNat deposited)]⟩

/-- The end of a tick. -/
def ticked (sbid : Sbid) (tick moved : Nat) : LogEntry :=
  ⟨.debug, "tick", [sbidValue sbid, ("tick", .ofNat tick), ("moved", .ofNat moved)]⟩

/-- An observation that was stored in a file. -/
def saved (sbid : Sbid) (path : Path) : LogEntry :=
  ⟨.debug, "saved observation", [sbidValue sbid, ("path", .string path.text)]⟩

/-- An observation that needs no progress. -/
def settled (o : Observation) : LogEntry :=
  ⟨.debug, "skipping settled observation", [sbidValue o.sbid, ("state", o.stage.toJson)]⟩

/-- An observation that was built from a manifest. -/
def built (o : Observation) : LogEntry :=
  ⟨.debug, "built observation from manifest",
    [sbidValue o.sbid, ("artefacts", .ofNat o.artefacts.length)]⟩

/-- An observation that is imported again. -/
def replacing (sbid : Sbid) : LogEntry :=
  ⟨.warning, "replacing existing observation", [sbidValue sbid]⟩

/-- Reports that make no difference. -/
def signalsIgnored : LogEntry :=
  ⟨.warning, "auto_complete is on; recorded signals are ignored by progress", []⟩

/-- A file that is named for no observation. -/
def skipped (name : String) (cause : IdentifierError) : LogEntry :=
  ⟨.warning, "skipping state file without a valid sbid",
    [("file", .string name), ("error", .string cause.message)]⟩

/-- A recovery of a file, or of a whole observation. -/
def recovery (sbid : Sbid) (file : Option String) (transitions : Nat) : LogEntry :=
  let count := ("recovered", Json.ofNat transitions)
  match file with
  | some name =>
      ⟨.info, "artefact recovered",
        [sbidValue sbid, ("file_id", .string (Text.quote name)), count]⟩
  | none => ⟨.info, "observation recovered", [sbidValue sbid, count]⟩

/-- The settings of a call. -/
def resolved (s : Settings) : LogEntry :=
  ⟨.debug, "resolved configuration",
    [("state_dir", .string s.stateDirectory.text), ("max_ticks", .ofNat s.maxTicks),
      ("auto_complete", .bool s.autoComplete), ("simulate_jobs", .bool s.simulateJobs)]⟩

/-- What stopped the program. -/
def stopped (message : String) : LogEntry := ⟨.error, message, []⟩

end LogEntry

namespace Observation

/-- How often an owner failed that is the observation or one of its files. -/
def failuresOf (o : Observation) (owner : Owner) : UInt32 :=
  if o.record.state.owner = owner then o.record.failureCount
  else
    match o.artefacts.find? fun a => a.record.state.owner == owner with
    | some a => a.record.failureCount
    | none => 0

/-- The encapsulation that a transition deposits with its packed members: a step of progress does so
from the archived stage, what a job reported from any stage. -/
def depositedEncapsulation? (o : Observation) (reported : Bool) (t : Transition) : Option String :=
  if t.target = .deposited ∧ (reported ∨ t.source = .archived) then
    (o.artefacts.find? fun a => a.isEncapsulation && a.record.state.owner == t.owner).map
      Artefact.filename
  else none

/-- The entry of a transition of a file or of the observation. -/
def moveEntry (o : Observation) (t : Transition) : LogEntry :=
  .changed t.owner t.source t.target (o.failuresOf t.owner)

/-- The entries for transitions, with the observation after them; `reported` tells those that a job
reported from those of progress.  The transitions of packed members follow that of their
encapsulation, and their number stands behind them; `pending` is the encapsulation whose members
are being counted. -/
def moveEntries (o : Observation) (reported : Bool) :
    (pending : Option (String × Nat)) → List Transition → List LogEntry
  | none, [] => []
  | some (name, count), [] => [.membersDeposited name count]
  | none, t :: rest =>
      o.moveEntry t :: moveEntries o reported ((o.depositedEncapsulation? reported t).map (·, 0)) rest
  | some (name, count), t :: rest =>
      if t.source = .encapsulated ∧ t.target = .deposited then
        o.moveEntry t :: moveEntries o reported (some (name, count + 1)) rest
      else
        .membersDeposited name count :: o.moveEntry t ::
          moveEntries o reported ((o.depositedEncapsulation? reported t).map (·, 0)) rest

/-- The failed file that makes the observation fail in a stage: the first that may step in it. -/
def firstFailed? (o : Observation) (stage : Stage) : Option Artefact :=
  (inScope? stage).bind fun inScope => o.artefacts.find? fun a => inScope a && a.isFailed

/-- The entries of a call of progress.  An observation that fails does so at the end of it. -/
def progressEntries (before after : Observation) (moved : List Transition) : List LogEntry :=
  if !before.isFailed && after.isFailed then
    after.moveEntries false none moved.dropLast ++
      ((after.firstFailed? before.stage).map (LogEntry.childFailed after.sbid)).toList ++
      (moved.getLast?.map after.moveEntry).toList
  else after.moveEntries false none moved

/-- The entries for the files that jobs moved. -/
def jobEntries (before after : Observation) : List LogEntry :=
  (before.artefacts.zip after.artefacts).filterMap fun (a, b) =>
    if a.stage = b.stage then none
    else some (.changed b.record.state.owner a.stage b.stage b.record.failureCount)

/-- The entries for a record that was taken back. -/
def recordEntries (before after : DepositRecord) : List LogEntry :=
  if before.stage = after.stage then []
  else
    let owner := after.state.owner
    [LogEntry.changed owner before.stage after.stage after.failureCount,
      LogEntry.recovered owner after.stage]

/-- The entries for the records that a recovery took back, those of files first. -/
def recoveryEntries (before after : Observation) : List LogEntry :=
  ((before.artefacts.zip after.artefacts).flatMap fun (a, b) => recordEntries a.record b.record) ++
    recordEntries before.record after.record

end Observation

namespace StateDirectory

/-- The entry for an observation that was stored. -/
def savedEntry (d : StateDirectory) (sbid : Sbid) : LogEntry :=
  .saved sbid (d.observationFile sbid)

/-- The entry for a file that is named for no observation although its name ends like that of an
observation's file. -/
def skippedEntry? (name : String) : Option LogEntry :=
  if signalsSuffix.toList.isSuffixOf name.toList then none
  else do
    let stem ← dropEnding? observationSuffix.toList name.toList
    match Sbid.ofText (String.ofList stem) with
    | .error cause => some (.skipped name cause)
    | .ok _ => none

/-- The entries for the files that are skipped where the directory is listed. -/
def skippedEntries (d : StateDirectory) : List LogEntry :=
  match d.tree.names d.root with
  | .error _ => []
  | .ok names => names.filterMap skippedEntry?

/-- The entries of driving an observation for at most `limit` more ticks, after `ticks` of them. -/
def driveEntries (signals : Signals) (jobs : Bool) (now : Timestamp) (ticks : Nat) :
    (limit : Nat) → StateDirectory → Observation → List LogEntry
  | 0, _, _ => []
  | limit + 1, d, o =>
      let (progressed, moved) := o.progress signals now
      let (after, result) := o.tick signals jobs now
      let entries := o.progressEntries progressed moved ++ progressed.jobEntries after
      match result with
      | .error _ => entries
      | .ok moved =>
          let entries := entries ++ [.ticked o.sbid (ticks + 1) moved.length]
          match saveMoved d after moved with
          | (_, .error _) => entries
          | (d, .ok _) =>
              entries ++ (if moved.isEmpty then [] else [d.savedEntry o.sbid]) ++
                (if (settled? after moved).isSome then []
                  else driveEntries signals jobs now (ticks + 1) limit d after)

end StateDirectory

end Journal

end ArchiveDeposit

import ArchiveDeposit.Observation.Basic

/-!
# Recovery from failures

A failed file is taken back to its checkpoint, and with it the observation if it was failed and no
other file is.  A failed observation is taken back together with every failed file.

A recovery that is refused part of the way, because a stored checkpoint does not belong to the
lifecycle, leaves what it has recovered already; this is why the observation is given beside the
refusal.
-/

namespace ArchiveDeposit

section Recovery

/-- Why a recovery is refused. -/
inductive RecoveryError where
  | artefactNotFailed (sbid : Sbid) (filename : String) (stage : Stage)
  | artefactNotFound (sbid : Sbid) (filename : String)
  | observationNotFound (sbid : Sbid)
  | observationNotFailed (sbid : Sbid) (stage : Stage)
  | refused (cause : DepositError)
deriving DecidableEq, Repr

/-- The wording of a refusal. -/
def RecoveryError.message : RecoveryError → String
  | .artefactNotFailed sbid filename stage =>
      "artefact " ++ Text.quote filename ++ " of observation " ++ sbid.text ++ " is " ++
        stage.name ++ ", not a failed deposit"
  | .artefactNotFound sbid filename =>
      "observation " ++ sbid.text ++ " has no artefact " ++ Text.quote filename
  | .observationNotFound sbid => "observation " ++ sbid.text ++ " not found"
  | .observationNotFailed sbid stage =>
      "observation " ++ sbid.text ++ " is " ++ stage.name ++ ", not a failed deposit"
  | .refused cause => cause.message

namespace Observation

/-- Takes the observation's own record back to its checkpoint. -/
def recoverOwn (o : Observation) (now : Timestamp) :
    Except DepositError (Observation × Option Transition) :=
  (o.record.recover now).map fun (record, transition) =>
    (⟨o.sbid, record, o.started, o.completed, o.artefacts⟩, transition)

/-- Takes every failed file of a list back, up to the first that refuses. -/
def recoverEach (now : Timestamp) :
    List Artefact → List Artefact × Except DepositError (List Transition)
  | [] => ([], .ok [])
  | a :: rest =>
      if a.isFailed then
        match a.recover now with
        | .error e => (a :: rest, .error e)
        | .ok (a, transition) =>
            let (rest, result) := recoverEach now rest
            (a :: rest, result.map (transition.toList ++ ·))
      else
        let (rest, result) := recoverEach now rest
        (a :: rest, result)

/-- Takes one failed file back, and the observation with it if nothing else keeps it failed. -/
def recoverArtefact (o : Observation) (filename : String) (now : Timestamp) :
    Observation × Except RecoveryError (List Transition) :=
  match o.artefacts.findIdx? (fun a => a.filename == filename), o.named? filename with
  | some place, some file =>
      if !file.isFailed then
        (o, .error (.artefactNotFailed o.sbid filename file.stage))
      else
        match file.recover now with
        | .error e => (o, .error (.refused e))
        | .ok (file, transition) =>
            let o := o.withArtefacts (o.artefacts.set place file)
            if o.isFailed && !o.artefacts.any (·.isFailed) then
              match o.recoverOwn now with
              | .error e => (o, .error (.refused e))
              | .ok (o, own) => (o, .ok (transition.toList ++ own.toList))
            else (o, .ok transition.toList)
  | _, _ => (o, .error (.artefactNotFound o.sbid filename))

/-- Takes a failed observation and all its failed files back, the files first. -/
def recoverAll (o : Observation) (now : Timestamp) :
    Observation × Except RecoveryError (List Transition) :=
  if !o.isFailed then (o, .error (.observationNotFailed o.sbid o.stage))
  else
    let (artefacts, result) := recoverEach now o.artefacts
    let o := o.withArtefacts artefacts
    match result with
    | .error e => (o, .error (.refused e))
    | .ok transitions =>
        match o.recoverOwn now with
        | .error e => (o, .error (.refused e))
        | .ok (o, own) => (o, .ok (transitions ++ own.toList))

end Observation

end Recovery

end ArchiveDeposit

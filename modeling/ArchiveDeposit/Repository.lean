import ArchiveDeposit.Observation.Recovery

/-!
# Stores of observations

A store keeps observations by their identifiers.  This module says what a store offers, which
questions are answered from that alone, and how a recovery is done in a store: load, recover, save,
and save nothing when the recovery is refused.

`Repository` is the store that lives in memory.  It lists its observations in ascending order and
never fails.
-/

namespace ArchiveDeposit

section Repository

/-- A store of observations; `Fault` is what can go wrong with it. -/
class ObservationStore (Store : Type) (Fault : outParam Type) where
  /-- The observation with an identifier. -/
  load : Store → Sbid → Except Fault (Option Observation)
  /-- The store with an observation put in, over the one of the same identifier.  What a failed
  attempt leaves behind is part of the answer. -/
  save : Store → Observation → Store × Except Fault Unit
  /-- The identifiers of what is stored, ascending. -/
  list : Store → Except Fault (List Sbid)

namespace ObservationStore

variable {Store Fault : Type} [ObservationStore Store Fault]

/-- The observations with the identifiers of a list, those that are stored. -/
def loadEach (store : Store) : List Sbid → Except Fault (List Observation)
  | [] => .ok []
  | sbid :: rest =>
      match load store sbid with
      | .error e => .error e
      | .ok found => (loadEach store rest).map (found.toList ++ ·)

/-- Every observation, by ascending identifier. -/
def loadAll (store : Store) : Except Fault (List Observation) :=
  match list store with
  | .error e => .error e
  | .ok sbids => loadEach store sbids

/-- The observations in one of some stages. -/
def findByStages (store : Store) (stages : List Stage) : Except Fault (List Observation) :=
  (loadAll store).map fun all => all.filter fun o => stages.contains o.stage

/-- The observations that were deposited in a range of time, both ends included. -/
def findCompletedBetween (store : Store) (first last : Timestamp) :
    Except Fault (List Observation) :=
  (loadAll store).map fun all => all.filter fun o => o.completed.any (·.isWithin first last)

/-- The files in one of some stages, each with its observation's identifier. -/
def findArtefactsByStages (store : Store) (stages : List Stage) :
    Except Fault (List (Sbid × Artefact)) :=
  (loadAll store).map fun all => all.flatMap fun o =>
    (o.artefacts.filter fun a => stages.contains a.stage).map fun a => (o.sbid, a)

/-- What is found are the files of all observations that stand in one of the stages. -/
theorem mem_findArtefactsByStages {store : Store} {stages : List Stage} {all : List Observation}
    (h : loadAll store = .ok all) :
    ∃ found, findArtefactsByStages store stages = .ok found ∧
      ∀ sbid a, (sbid, a) ∈ found ↔
        ∃ o ∈ all, o.sbid = sbid ∧ a ∈ o.artefacts ∧ a.stage ∈ stages := by
  refine ⟨_, by rw [findArtefactsByStages, h]; rfl, fun sbid a => ?_⟩
  simp only [List.mem_flatMap, List.mem_map, List.mem_filter, List.contains_iff_mem,
    Prod.mk.injEq]
  constructor
  · rintro ⟨o, ho, b, ⟨hb, hstage⟩, rfl, rfl⟩
    exact ⟨o, ho, rfl, hb, hstage⟩
  · rintro ⟨o, ho, rfl, ha, hstage⟩
    exact ⟨o, ho, a, ⟨ha, hstage⟩, rfl, rfl⟩

/-- Why an observation that has to be there is not loaded. -/
inductive LoadError (Fault : Type) where
  | failed (sbid : Sbid) (cause : Fault)
  | notFound (sbid : Sbid)
deriving DecidableEq, Repr

/-- The wording of an error, given that of a store's faults. -/
def LoadError.message (describe : Fault → String) : LoadError Fault → String
  | .failed sbid cause => "failed to load " ++ sbid.text ++ ": " ++ describe cause
  | .notFound sbid => "observation not found: " ++ sbid.text

/-- The observation with an identifier, which has to be there. -/
def fetch (store : Store) (sbid : Sbid) : Except (LoadError Fault) Observation :=
  match load store sbid with
  | .error e => .error (.failed sbid e)
  | .ok none => .error (.notFound sbid)
  | .ok (some o) => .ok o

/-- Why a recovery in a store is refused. -/
inductive StoredRecoveryError (Fault : Type) where
  | recovery (cause : RecoveryError)
  | store (cause : Fault)
deriving DecidableEq, Repr

/-- The wording of an error, given that of a store's faults. -/
def StoredRecoveryError.message (describe : Fault → String) :
    StoredRecoveryError Fault → String
  | .recovery cause => cause.message
  | .store cause => describe cause

/-- Loads an observation, recovers it, and saves it if the recovery was not refused. -/
def recoverWith (store : Store) (sbid : Sbid)
    (recover : Observation → Observation × Except RecoveryError (List Transition)) :
    Store × Except (StoredRecoveryError Fault) (List Transition) :=
  match load store sbid with
  | .error e => (store, .error (.store e))
  | .ok none => (store, .error (.recovery (.observationNotFound sbid)))
  | .ok (some o) =>
      match recover o with
      | (_, .error e) => (store, .error (.recovery e))
      | (o, .ok transitions) =>
          match save store o with
          | (store, .error e) => (store, .error (.store e))
          | (store, .ok _) => (store, .ok transitions)

/-- Recovers one failed file of a stored observation. -/
def recoverArtefact (store : Store) (sbid : Sbid) (filename : String) (now : Timestamp) :
    Store × Except (StoredRecoveryError Fault) (List Transition) :=
  recoverWith store sbid fun o => o.recoverArtefact filename now

/-- Recovers a failed stored observation. -/
def recoverObservation (store : Store) (sbid : Sbid) (now : Timestamp) :
    Store × Except (StoredRecoveryError Fault) (List Transition) :=
  recoverWith store sbid fun o => o.recoverAll now

end ObservationStore

/-- Observations in memory, by ascending identifier. -/
abbrev Repository := Ascending Observation.sbid

/-- A store in memory does not fail. -/
inductive NoFault
deriving DecidableEq, Repr

/-- There is nothing to word. -/
def NoFault.message : NoFault → String := fun e => nomatch e

/-- What is there where nothing fails. -/
def NoFault.get {α : Type} : Except NoFault α → α
  | .ok x => x
  | .error e => nomatch e

namespace Repository

/-- The observation with an identifier. -/
def load (r : Repository) (sbid : Sbid) : Option Observation := r.find? sbid

/-- The repository with an observation put in, over the one of the same identifier. -/
def save (r : Repository) (o : Observation) : Repository := r.insert o

/-- An observation that is saved is loaded again, and every other one as before. -/
theorem load_save (r : Repository) (o : Observation) (sbid : Sbid) :
    (r.save o).load sbid = if o.sbid = sbid then some o else r.load sbid := by
  rw [save, load, Ascending.find?_insert]
  simp only [Std.compare_eq_iff_eq]
  rfl

/-- The identifiers of what is stored, ascending. -/
def list (r : Repository) : List Sbid := r.toList.map Observation.sbid

instance : ObservationStore Repository NoFault where
  load r sbid := .ok (r.load sbid)
  save r o := (r.save o, .ok ())
  list r := .ok r.list

end Repository

end Repository

end ArchiveDeposit

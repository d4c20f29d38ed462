import ArchiveDeposit.Drive
import ArchiveDeposit.Proofs.EncapsulationStep

/-!
# Calls on an observation, file by file

What becomes of each file in a call of progress, in the change that a job reports and in a round of
simulated jobs, said without running through the files one after the other; and what becomes of the
observation's own record.

**Results.**
* `Observation.progress_artefacts` and `Observation.progress_record`: a call of progress.
* `Observation.setArtefactStage_spec`: the change that a job reports.
* `Observation.runJobs_eq`: the simulated jobs are never refused and move every file that waits for
  them.
-/

namespace ArchiveDeposit

section Snapshot

theorem Lifecycle.accepts_deposited (l : Lifecycle) : l.accepts .deposited = true := by
  cases l <;> decide

/-- The same owner, deposited. -/
def DepositState.deposited (s : DepositState) : DepositState :=
  ⟨.deposited, s.lifecycle, s.owner, s.lifecycle.accepts_deposited⟩

namespace Artefact

/-- Whether a file waits for a simulated job. -/
def isPackable (a : Artefact) : Bool :=
  a.state.lifecycle == .encapsulated && a.stage == .processing

/-- The file after a simulated job. -/
def packed (a : Artefact) (now : Timestamp) : Artefact :=
  if h : a.state.lifecycle.accepts .encapsulating = true then
    a.withRecord (a.record.replace ⟨.encapsulating, a.state.lifecycle, a.state.owner, h⟩ now).1
  else a

/-- A file after a round of simulated jobs. -/
def afterJobs (a : Artefact) (now : Timestamp) : Artefact :=
  if a.isPackable then a.packed now else a

/-- A job may report that a file is one stage further. -/
theorem advance_target {a : Artefact} {step : Step}
    (h : a.state.lifecycle.stepFrom? a.stage = some step) (now : Timestamp) :
    a.advance step.target now = .ok (a.withChange (a.record.replace
      ⟨step.target, a.state.lifecycle, a.state.owner, Lifecycle.accepts_target h⟩ now)) := by
  have hadvance := DepositRecord.advanceTo_target (s := a.record.state) h
  rw [advance, DepositRecord.advance, hadvance]
  rfl

/-- Only members of encapsulations come to be packed, and their deposit is all that is left. -/
theorem stepFrom?_of_stage_encapsulated {a : Artefact} (h : a.stage = .encapsulated) :
    a.state.lifecycle.stepFrom? a.stage = some ⟨.encapsulated, .deposited, .external, false⟩ := by
  have haccept : a.state.lifecycle.accepts .encapsulated = true := h ▸ a.state.accepted
  have hline : ∀ l : Lifecycle, l.accepts .encapsulated = true →
      l.stepFrom? .encapsulated = some ⟨.encapsulated, .deposited, .external, false⟩ := by
    intro l
    cases l <;> decide
  rw [h]
  exact hline _ haccept

/-- What the deposit of its encapsulation does to a file. -/
theorem depositPacked_eq (a : Artefact) (now : Timestamp) :
    a.depositPacked now =
      if a.stage = .encapsulated then a.withChange (a.record.replace a.state.deposited now)
      else (a, none) := by
  unfold depositPacked
  split
  · next hstage =>
      rw [advance_target (stepFrom?_of_stage_encapsulated hstage) now]
      rfl
  · rfl

theorem stage_depositPacked (a : Artefact) (now : Timestamp) :
    (a.depositPacked now).1.stage = if a.stage = .encapsulated then .deposited else a.stage := by
  rw [depositPacked_eq]
  split
  · exact DepositRecord.stage_replace a.record _ now
  · rfl

/-- A packed file that is as far as its packing is deposited with its encapsulation. -/
theorem isDeposited_depositPacked {a : Artefact} (hl : a.state.lifecycle = .encapsulated)
    (h : a.state.hasReached .encapsulated = true) (now : Timestamp) :
    (a.depositPacked now).1.isDeposited = true := by
  have hend : ∀ s : Stage, Lifecycle.encapsulated.reaches s .encapsulated = true →
      s = .encapsulated ∨ s = .deposited := by
    intro s
    cases s <;> decide
  rw [DepositState.hasReached_eq, hl] at h
  have hstage : (a.depositPacked now).1.stage = .deposited := by
    rw [stage_depositPacked]
    rcases hend a.state.stage h with hpacked | hdeposited
    · exact if_pos hpacked
    · rw [show a.stage = _ from hdeposited]
      rfl
  exact beq_of_eq hstage

theorem stepFrom?_of_isPackable {a : Artefact} (h : a.isPackable = true) :
    a.state.lifecycle.stepFrom? a.stage = some ⟨.processing, .encapsulating, .external, false⟩ := by
  simp only [isPackable, Bool.and_eq_true, beq_iff_eq] at h
  rw [h.1, h.2]
  rfl

/-- A simulated job on a file that waits for it is never refused. -/
theorem advance_of_isPackable {a : Artefact} (h : a.isPackable = true) (now : Timestamp) :
    a.advance .encapsulating now = .ok (a.packed now,
      some ⟨a.state.owner, .processing, .encapsulating, now⟩) := by
  have hstep := stepFrom?_of_isPackable h
  have haccept : a.state.lifecycle.accepts .encapsulating = true :=
    Lifecycle.accepts_target hstep
  have hstage : a.record.state.stage = .processing := by
    simp only [isPackable, Bool.and_eq_true, beq_iff_eq] at h
    exact h.2
  have hadvance := advance_target hstep now
  have hne : (⟨.encapsulating, a.state.lifecycle, a.state.owner, haccept⟩ : DepositState).stage ≠
      a.record.state.stage := by simp [hstage]
  rw [hadvance, packed]
  simp only [haccept, dite_true, withChange]
  rw [DepositRecord.replace_of_stage_ne hne, hstage]

theorem continues_packed {a : Artefact} (h : a.isPackable = true) (now : Timestamp) :
    a.Continues (a.packed now) :=
  continues_advance (advance_of_isPackable h now)

theorem continues_afterJobs (a : Artefact) (now : Timestamp) : a.Continues (a.afterJobs now) := by
  unfold afterJobs
  split
  · next hpack => exact continues_packed hpack now
  · exact Continues.refl a

@[simp] theorem stage_packed {a : Artefact} (h : a.isPackable = true) (now : Timestamp) :
    (a.packed now).stage = .encapsulating := by
  have haccept : a.state.lifecycle.accepts .encapsulating = true :=
    Lifecycle.accepts_target (stepFrom?_of_isPackable h)
  simp only [packed, haccept, dite_true]
  exact DepositRecord.stage_replace a.record _ now

end Artefact

namespace Observation

open Encapsulation

variable {parent : Parent} {artefacts : List Artefact} {o : Observation}
  {signals : Signals} {now : Timestamp}

/-- A file after the steps of those that are no encapsulations. -/
def childStep (artefacts : List Artefact) (inScope : Artefact → Bool) (signals : Signals)
    (now : Timestamp) (a : Artefact) : Artefact :=
  if inScope a && !a.isEncapsulation then
    (a.progress (childSurroundings artefacts signals a) now).1
  else a

/-- A file after a call of progress on an observation in a stage. -/
def fileStep (stage : Stage) (artefacts : List Artefact) (signals : Signals) (now : Timestamp)
    (a : Artefact) : Artefact :=
  match inScope? stage with
  | none => a
  | some inScope =>
      if stage = .depositing then
        settled (artefacts.map (childStep artefacts inScope signals now)) signals now
          (childStep artefacts inScope signals now a)
      else childStep artefacts inScope signals now a

/-- The observation's own state after a call of progress that leaves it with these files. -/
def ownNext (o : Observation) (artefacts : List Artefact) (signals : Signals) : DepositState :=
  if hasFailedInScope o.stage artefacts then o.state.failed
  else o.state.progress (ownSurroundings artefacts signals)

theorem continues_childStep (artefacts : List Artefact) (inScope : Artefact → Bool)
    (signals : Signals) (now : Timestamp) (a : Artefact) :
    a.Continues (childStep artefacts inScope signals now a) := by
  unfold childStep
  split
  · exact a.continues_progress _ now
  · exact Artefact.Continues.refl a

/-- What a call of progress does to a file besides the file's own step. -/
theorem continues_fileStep_of_childStep {stage : Stage} {inScope : Artefact → Bool}
    (hscope : inScope? stage = some inScope) (artefacts : List Artefact) (signals : Signals)
    (now : Timestamp) (a : Artefact) :
    (childStep artefacts inScope signals now a).Continues
      (fileStep stage artefacts signals now a) := by
  simp only [fileStep, hscope]
  split
  · exact continues_settledBy ..
  · exact Artefact.Continues.refl _

theorem continues_fileStep (stage : Stage) (artefacts : List Artefact) (signals : Signals)
    (now : Timestamp) (a : Artefact) : a.Continues (fileStep stage artefacts signals now a) := by
  cases hscope : inScope? stage with
  | none =>
      simp only [fileStep, hscope]
      exact Artefact.Continues.refl a
  | some inScope =>
      exact (continues_childStep artefacts inScope signals now a).trans
        (continues_fileStep_of_childStep hscope artefacts signals now a)

theorem progressFiles_fst (h : Arranged artefacts) (stage : Stage) :
    (progressFiles stage artefacts signals now).1 =
      artefacts.map (fileStep stage artefacts signals now) := by
  unfold progressFiles fileStep
  cases inScope? stage with
  | none => simp
  | some inScope =>
      have hchildren : (progressChildren artefacts inScope signals now).1 =
          artefacts.map (childStep artefacts inScope signals now) := rfl
      by_cases hstage : stage = .depositing
      · simp only [hstage, if_true, hchildren]
        have hmap := h.map fun a _ => continues_childStep artefacts inScope signals now a
        rw [hmap.progressEncapsulations_fst, List.map_map]
        rfl
      · simp only [hstage, if_false, hchildren]

theorem encapsulationState?_of_mem (h : Arranged artefacts) {file : Artefact}
    (hfile : file ∈ artefacts) (hkind : file.isEncapsulation = true) :
    encapsulationState? artefacts file.id = some file.state := by
  unfold encapsulationState?
  cases hfind : artefacts.reverse.find? fun a => a.isEncapsulation && a.id == file.id with
  | none =>
      rw [List.find?_eq_none] at hfind
      exact absurd (by simp [hkind]) (hfind file (by simpa using hfile))
  | some other =>
      have hother := List.mem_reverse.mp (List.mem_of_find?_eq_some hfind)
      have hid := List.find?_some hfind
      simp only [Bool.and_eq_true, beq_iff_eq] at hid
      rw [h.eq_of_id hother hfile hid.2]
      rfl

@[simp] theorem apply_record (o : Observation) (next : DepositState) (now : Timestamp) :
    (o.apply next now).1.record = (o.record.replace next now).1 := by
  unfold apply
  cases h : (o.record.replace next now).2 with
  | none => simp [h, DepositRecord.replace_fst_of_snd_eq_none h]
  | some t => simp [h]

@[simp] theorem apply_snd (o : Observation) (next : DepositState) (now : Timestamp) :
    (o.apply next now).2 = (o.record.replace next now).2 := by
  unfold apply
  cases h : (o.record.replace next now).2 <;> simp [h]

@[simp] theorem apply_artefacts (o : Observation) (next : DepositState) (now : Timestamp) :
    (o.apply next now).1.artefacts = o.artefacts := by
  unfold apply
  cases h : (o.record.replace next now).2 <;> simp [h]

@[simp] theorem apply_sbid (o : Observation) (next : DepositState) (now : Timestamp) :
    (o.apply next now).1.sbid = o.sbid := by
  unfold apply
  cases h : (o.record.replace next now).2 <;> simp [h]

/-- In a stage in which progress stops at once, no file is asked to step and no step leaves. -/
theorem inScope?_of_stopped (h : (o.isFailed || o.state.isTerminal) = true) :
    inScope? o.stage = none ∧ o.state.lifecycle.stepFrom? o.stage = none := by
  have hscope : ∀ s : Stage, (s.isFailure || s.isIn .terminal) = true → inScope? s = none := by
    intro s
    cases s <;> first | exact fun _ => rfl | exact fun hs => nomatch hs
  have hstep : ∀ (s : Stage) (l : Lifecycle), (s.isFailure || s.isIn .terminal) = true →
      l.stepFrom? s = none := by
    intro s l
    cases s <;> cases l <;> decide
  exact ⟨hscope o.stage h, hstep o.stage _ h⟩

theorem progress_eq (o : Observation) (signals : Signals) (now : Timestamp) :
    o.progress signals now =
      let files := progressFiles o.stage o.artefacts signals now
      let own := (o.withArtefacts files.1).apply (o.ownNext files.1 signals) now
      (own.1, files.2 ++ own.2.toList) := by
  unfold progress
  split
  · next hstopped =>
      obtain ⟨hscope, hstep⟩ := inScope?_of_stopped hstopped
      have hfiles : progressFiles o.stage o.artefacts signals now = (o.artefacts, []) := by
        simp [progressFiles, hscope]
      have hnext : o.ownNext o.artefacts signals = o.state := by
        rcases DepositState.progress_cases o.state (ownSurroundings o.artefacts signals) with
          heq | ⟨step, hsome, _⟩
        · simp [ownNext, hasFailedInScope, hscope, heq]
        · rw [show o.state.stage = o.stage from rfl, hstep] at hsome
          cases hsome
      have hsame : o.record.replace o.state now = (o.record, none) :=
        DepositRecord.replace_of_stage_eq rfl now
      simp [hfiles, hnext, withArtefacts, apply, hsame]
  · rfl

theorem progress_fst (o : Observation) (signals : Signals) (now : Timestamp) :
    (o.progress signals now).1 =
      ((o.withArtefacts (progressFiles o.stage o.artefacts signals now).1).apply
        (o.ownNext (progressFiles o.stage o.artefacts signals now).1 signals) now).1 := by
  rw [progress_eq]

/-- What a call of progress reports: first of the files, and then of the observation itself. -/
theorem progress_snd (o : Observation) (signals : Signals) (now : Timestamp) :
    (o.progress signals now).2 =
      (progressFiles o.stage o.artefacts signals now).2 ++
        (o.record.replace
          (o.ownNext (progressFiles o.stage o.artefacts signals now).1 signals) now).2.toList := by
  rw [progress_eq]
  exact congrArg (_ ++ Option.toList ·) (apply_snd ..)

theorem progress_artefacts (h : Siblings parent o.artefacts) :
    (o.progress signals now).1.artefacts =
      o.artefacts.map (fileStep o.stage o.artefacts signals now) := by
  rw [progress_fst, apply_artefacts]
  exact progressFiles_fst h.arranged o.stage

@[simp] theorem progress_sbid (o : Observation) (signals : Signals) (now : Timestamp) :
    (o.progress signals now).1.sbid = o.sbid := by
  rw [progress_fst, apply_sbid]
  rfl

/-- The observation's own record after a call of progress: it fails or steps as its files are
then. -/
theorem progress_record (o : Observation) (signals : Signals) (now : Timestamp) :
    (o.progress signals now).1.record =
      (o.record.replace (o.ownNext (o.progress signals now).1.artefacts signals) now).1 := by
  rw [progress_fst, apply_record, apply_artefacts]
  rfl

theorem continues_progress_record (o : Observation) (signals : Signals) (now : Timestamp) :
    o.record.Continues (o.progress signals now).1.record := by
  rw [progress_record, ownNext]
  split
  · exact (o.record.stays_failed now).continues
  · exact o.record.continues_progress _ now

/-- What becomes of the observation's own record in a call of progress: it fails with a file that
may step, it stays, or it takes the step that its files, as they are then, permit. -/
theorem progress_record_cases (o : Observation) (signals : Signals) (now : Timestamp) :
    let o' := (o.progress signals now).1
    (hasFailedInScope o.stage o'.artefacts = true ∧
      o'.record = (o.record.replace o.state.failed now).1) ∨
    (hasFailedInScope o.stage o'.artefacts = false ∧
      (o'.record = o.record ∨
        ∃ step, o.state.lifecycle.stepFrom? o.stage = some step ∧
          (ownSurroundings o'.artefacts signals).permits step o.state.owner = true ∧
            o.record.effectiveStage = step.source ∧ o'.record.effectiveStage = step.target ∧
              o'.stage = step.target)) := by
  intro o'
  have hrecord : o'.record = _ := progress_record o signals now
  unfold ownNext at hrecord
  split at hrecord
  · next hfailed => exact Or.inl ⟨hfailed, hrecord⟩
  · next hfailed =>
      refine Or.inr ⟨by simpa using hfailed, ?_⟩
      rcases o.record.replace_progress_cases (ownSurroundings o'.artefacts signals) now with
        hsame | ⟨step, hstep, hpermit, hsource, htarget⟩
      · exact Or.inl (hrecord.trans hsame)
      · refine Or.inr ⟨step, hstep, hpermit, hsource, ?_, ?_⟩
        · rw [hrecord]
          exact htarget
        · rw [stage, hrecord, DepositRecord.stage_replace]
          exact DepositState.stage_progress hstep hpermit

/-- The change of an encapsulation that a job reports, file by file: it takes its packed members
along when it is deposited, and waits until all its members are packed. -/
theorem setStage_spec (h : Siblings parent artefacts) {file : Artefact} (hfile : file ∈ artefacts)
    (hkind : file.isEncapsulation = true) {stage : Stage} {after : List Artefact}
    {transitions : List Transition}
    (hok : setStage artefacts file.id stage now = .ok (after, transitions)) :
    ∃ change, file.advance stage now = .ok change ∧
      after = artefacts.map (afterCommit file.id change (stage == .deposited) now) ∧
      (stage = .deposited → ∀ member ∈ artefacts, member.encapsulation = some file.id →
        member.state.hasReached .encapsulated = true) := by
  unfold setStage at hok
  rw [h.arranged.find?_of_mem hfile hkind] at hok
  cases hadvance : file.advance stage now with
  | error e => simp [hadvance] at hok
  | ok change =>
      have hcont := Artefact.continues_advance hadvance
      have hnone := Artefact.advance_fst_of_snd_eq_none hadvance
      have hcommit := h.arranged.commit_fst hfile hcont hnone (stage == .deposited) now
      refine ⟨change, rfl, ?_⟩
      simp only [hadvance] at hok
      split at hok
      · cases hok
      · next hready =>
          refine ⟨?_, ?_⟩
          · rw [← hcommit, Except.ok.inj hok]
          · rintro rfl member hmember henc
            cases hlag : (members artefacts file.id).find?
                fun m => !m.state.hasReached .encapsulated with
            | some lagging => exact absurd hlag (hready lagging rfl)
            | none =>
                rw [List.find?_eq_none] at hlag
                simpa using hlag member (h.arranged.mem_members_iff.mpr ⟨hmember, henc⟩)

/-- The change of a file that a job reports, file by file; an encapsulation takes its packed members
along when it is deposited, and waits until all its members are packed. -/
theorem setArtefactStage_spec (h : Siblings parent o.artefacts) {id : ArtefactId} {stage : Stage}
    {o' : Observation} {transitions : List Transition}
    (hok : o.setArtefactStage id stage now = .ok (o', transitions)) :
    ∃ file ∈ o.artefacts, file.id = id ∧ ∃ change, file.advance stage now = .ok change ∧
      o' = o.withArtefacts (o.artefacts.map
        (afterCommit id change (file.isEncapsulation && stage == .deposited) now)) ∧
      (file.isEncapsulation = true → stage = .deposited →
        ∀ member ∈ o.artefacts, member.encapsulation = some id →
          member.state.hasReached .encapsulated = true) := by
  unfold setArtefactStage at hok
  split at hok
  · cases hok
  · next file hfile =>
      obtain ⟨hmem, rfl⟩ := (artefact?_eq_some_iff h).mp hfile
      refine ⟨file, hmem, rfl, ?_⟩
      split at hok
      · next hkind =>
          obtain ⟨changed, hset, hpair⟩ := eq_ok_of_map hok
          cases hpair
          obtain ⟨change, hadvance, hafter, hready⟩ := setStage_spec h hmem hkind hset
          refine ⟨change, hadvance, ?_, fun _ => hready⟩
          rw [hafter, hkind, Bool.true_and]
      · next hkind =>
          obtain ⟨change, hadvance, hpair⟩ := eq_ok_of_map hok
          cases hpair
          refine ⟨change, hadvance, ?_, fun henc => absurd henc hkind⟩
          rw [h.arranged.set_eq_map hmem]
          congr 1
          apply List.map_congr_left
          intro a _
          simp [afterCommit, hkind]

/-- A change of the file of an encapsulation alone touches no other file. -/
theorem changeFile_spec (h : Siblings parent artefacts) {id : ArtefactId}
    {change : Artefact → Except DepositError (Artefact × Option Transition)}
    (hchange : Artefact.Reports change) {after : List Artefact} {transitions : List Transition}
    (hok : changeFile artefacts id change now = .ok (after, transitions)) :
    after = artefacts ∨ ∃ file ∈ artefacts, file.id = id ∧ file.isEncapsulation = true ∧
      ∃ changed, change file = .ok changed ∧
        after = artefacts.map (afterCommit id changed false now) := by
  unfold changeFile at hok
  split at hok
  · cases hok
    exact Or.inl rfl
  · next place file hfind =>
      obtain ⟨hmem, rfl, rfl, hkind⟩ := h.arranged.mem_of_find? hfind
      obtain ⟨changed, hchanged, hpair⟩ := eq_ok_of_map hok
      obtain ⟨hcont, hnone⟩ := hchange file changed hchanged
      have hcommit := h.arranged.commit_fst hmem hcont hnone false now
      refine Or.inr ⟨file, hmem, rfl, hkind, changed, hchanged, ?_⟩
      rw [← hcommit, hpair]

/-- The report of a simulated job on a file. -/
def packedReport (now : Timestamp) (a : Artefact) : Transition :=
  ⟨a.state.owner, .processing, .encapsulating, now⟩

theorem not_isEncapsulation_of_isPackable (h : Siblings parent artefacts) {a : Artefact}
    (ha : a ∈ artefacts) (hpack : a.isPackable = true) : a.isEncapsulation = false := by
  simp only [Artefact.isPackable, Bool.and_eq_true, beq_iff_eq] at hpack
  have hbelongs := h.belongs a ha
  exact hbelongs.isEncapsulation_of_member (hbelongs.isSome_of_lifecycle hpack.1)

/-- A simulated job on one file that waits for it. -/
theorem setArtefactStage_of_isPackable (h : Siblings parent o.artefacts) {a : Artefact}
    (ha : a ∈ o.artefacts) (hpack : a.isPackable = true) (now : Timestamp) :
    o.setArtefactStage a.id .encapsulating now =
      .ok (o.withArtefacts (o.artefacts.map fun b => if b.id = a.id then a.packed now else b),
        [packedReport now a]) := by
  have hfind : o.artefact? a.id = some a := (artefact?_eq_some_iff h).mpr ⟨ha, rfl⟩
  have hkind := not_isEncapsulation_of_isPackable h ha hpack
  unfold setArtefactStage
  simp only [hfind, hkind, Bool.false_eq_true, if_false, Artefact.advance_of_isPackable hpack now,
    Except.map, h.arranged.set_eq_map ha]
  rfl

/-- A job on one file before jobs on others gives each file what it gets from all of them. -/
theorem packed_cons (h : Siblings parent artefacts) {file : Artefact} (hfile : file ∈ artefacts)
    {rest : List Artefact} (hnew : ∀ other ∈ rest, other.id ≠ file.id)
    (hid : (file.packed now).id = file.id) {a : Artefact} (ha : a ∈ artefacts) :
    let after := fun b : Artefact => if b.id = file.id then file.packed now else b
    (if after a ∈ rest then (after a).packed now else after a) =
      if a ∈ file :: rest then a.packed now else a := by
  intro after
  by_cases hself : a = file
  · subst hself
    have hafter : after a = a.packed now := by simp [after]
    have hnot : after a ∉ rest := fun hmem => hnew _ hmem (by rw [hafter, hid])
    rw [hafter] at hnot ⊢
    simp [hnot]
  · have hne : a.id ≠ file.id := fun heq => hself (h.arranged.eq_of_id ha hfile heq)
    simp [after, hne, hself]

/-- Simulated jobs on files that wait for them are never refused. -/
theorem packEach_eq (now : Timestamp) (files : List Artefact) :
    ∀ {o : Observation}, Siblings parent o.artefacts →
      (∀ file ∈ files, file ∈ o.artefacts ∧ file.isPackable = true) →
      (files.map Artefact.id).Nodup →
      packEach now (files.map Artefact.id) o =
        (o.withArtefacts (o.artefacts.map fun a => if a ∈ files then a.packed now else a),
          .ok (files.map (packedReport now))) := by
  induction files with
  | nil =>
      intro o _ _ _
      simp [packEach, withArtefacts]
  | cons file rest ih =>
      intro o h hfiles hnodup
      obtain ⟨hfile, hpack⟩ := hfiles file List.mem_cons_self
      obtain ⟨hnew, hrest⟩ := List.nodup_cons.mp hnodup
      have hother : ∀ other ∈ rest, other.id ≠ file.id := fun other hmem heq =>
        hnew (heq ▸ List.mem_map_of_mem hmem)
      have hpacked : file.Continues (file.packed now) := Artefact.continues_packed hpack now
      let after := fun b : Artefact => if b.id = file.id then file.packed now else b
      have hcont : ∀ a ∈ o.artefacts, a.Continues (after a) := by
        intro a ha
        by_cases hid : a.id = file.id
        · rw [h.arranged.eq_of_id ha hfile hid]
          simpa [after] using hpacked
        · simpa [after, hid] using Artefact.Continues.refl a
      have hrestFiles : ∀ other ∈ rest,
          other ∈ (o.withArtefacts (o.artefacts.map after)).artefacts ∧
            other.isPackable = true := by
        intro other hmem
        obtain ⟨hold, hpackOther⟩ := hfiles other (List.mem_cons_of_mem _ hmem)
        exact ⟨List.mem_map.mpr ⟨other, hold, by simp [after, hother other hmem]⟩, hpackOther⟩
      have htail : packEach now (rest.map Artefact.id) (o.withArtefacts (o.artefacts.map after)) =
          (o.withArtefacts (o.artefacts.map fun a => if a ∈ file :: rest then a.packed now else a),
            .ok (rest.map (packedReport now))) := by
        rw [ih (h.map hcont) hrestFiles hrest]
        simp only [withArtefacts, List.map_map]
        rw [← List.map_congr_left fun a ha => packed_cons h hfile hother hpacked.id ha]
        rfl
      rw [List.map_cons, packEach, setArtefactStage_of_isPackable h hfile hpack now]
      change ((packEach now (rest.map Artefact.id) (o.withArtefacts (o.artefacts.map after))).1,
        (packEach now (rest.map Artefact.id) (o.withArtefacts (o.artefacts.map after))).2.map
          ([packedReport now file] ++ ·)) = _
      rw [htail]
      rfl

/-- The simulated jobs are never refused: every file that waits for one is moved and reported, and
nothing else changes. -/
theorem runJobs_eq (h : Siblings parent o.artefacts) (now : Timestamp) :
    o.runJobs now =
      (o.withArtefacts (o.artefacts.map (·.afterJobs now)),
        .ok ((o.artefacts.filter Artefact.isPackable).map (packedReport now))) := by
  have hfiles : ∀ file ∈ o.artefacts.filter Artefact.isPackable,
      file ∈ o.artefacts ∧ file.isPackable = true := fun file hfile => List.mem_filter.mp hfile
  have hnodup : ((o.artefacts.filter Artefact.isPackable).map Artefact.id).Nodup :=
    h.arranged.nodup_ids.sublist (List.filter_sublist.map _)
  have heach := packEach_eq now (o.artefacts.filter Artefact.isPackable) h hfiles hnodup
  have hpackable : o.packable = (o.artefacts.filter Artefact.isPackable).map Artefact.id := rfl
  rw [runJobs, hpackable, heach]
  have hpointwise : ∀ a ∈ o.artefacts,
      (if a ∈ o.artefacts.filter Artefact.isPackable then a.packed now else a) =
        a.afterJobs now := by
    intro a ha
    simp [Artefact.afterJobs, List.mem_filter, ha]
  rw [List.map_congr_left hpointwise]

end Observation

end Snapshot

end ArchiveDeposit

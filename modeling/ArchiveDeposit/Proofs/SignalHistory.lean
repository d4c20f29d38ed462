import ArchiveDeposit.Proofs.OneStep
import ArchiveDeposit.Proofs.Precedence
import ArchiveDeposit.Proofs.Stall
import Mathlib.Data.List.Induction

/-!
# Steps and the reports they await

Some steps await the report that the work of the stage is complete.  Reports come and go: each tick
asks a board of its own.  This module looks back from where an owner stands.  Whenever it stands
beyond a stage that a report has to end, a tick of the run found it in that stage and had the report,
for this owner and no other.  Nothing leads around such a stage: neither a deposit together with
others nor a simulated job, since the files that these move await no reports at all.

**Results.**
* `DepositState.heeds_progress`: a step heeds the reports.
* `Observation.OnCourse.heeds_afterCycle`: a tick heeds them for every owner.
* `Observation.reported_of_beyond`: every stage that awaits a report was left with it.
-/

namespace ArchiveDeposit

section SignalHistory

/-- Whether the step that leaves a stage awaits a report. -/
def Lifecycle.awaitsSignal (l : Lifecycle) (stage : Stage) : Bool :=
  (l.stepFrom? stage).any Step.awaitsSignal

/-- A file that is packed is moved by others, and never awaits a report. -/
theorem Lifecycle.not_awaitsSignal_encapsulated (stage : Stage) :
    Lifecycle.encapsulated.awaitsSignal stage = false := by
  cases stage <;> decide

/-- Nothing but the initial stage lies at or before it. -/
theorem Lifecycle.eq_initial_of_reaches {l : Lifecycle} {stage : Stage}
    (h : l.reaches l.initial stage = true) : stage = l.initial := by
  revert h
  cases l <;> cases stage <;> decide

/-- What a step reaches beside its target was reached before it. -/
theorem Lifecycle.reaches_of_reaches_target {l : Lifecycle} {source stage : Stage} {step : Step}
    (h : l.stepFrom? source = some step) (hreached : l.reaches step.target stage = true)
    (hne : step.target ≠ stage) : l.reaches source stage = true := by
  obtain ⟨hsource, _, hplace⟩ := place_stepFrom? h
  obtain ⟨htarget, hstage, hle⟩ := reaches_iff.mp hreached
  have hother : l.place stage ≠ l.place step.target := by
    intro heq
    have hget := getElem?_place htarget
    rw [← heq, getElem?_place hstage] at hget
    exact hne (Option.some.inj hget).symm
  exact reaches_iff.mpr ⟨hsource, hstage, by omega⟩

namespace DepositState

/-- Whether a stage lies behind the owner on its line. -/
def isBeyond (s : DepositState) (stage : Stage) : Bool := s.hasReached stage && s.stage != stage

/-- A change that leaves no stage that awaits a report, except the present one with its report. -/
structure Heeds (signals : Signals) (s t : DepositState) : Prop where
  lifecycle : t.lifecycle = s.lifecycle
  owner : t.owner = s.owner
  leaves : ∀ stage, s.lifecycle.awaitsSignal stage = true → t.isBeyond stage = true →
    s.isBeyond stage = true ∨ s.stage = stage ∧ signals s.owner stage = true

variable {signals : Signals} {s t u : DepositState}

theorem Heeds.refl (signals : Signals) (s : DepositState) : s.Heeds signals s :=
  ⟨rfl, rfl, fun _ _ hbeyond => Or.inl hbeyond⟩

theorem heeds_of_encapsulated (hlifecycle : t.lifecycle = s.lifecycle) (howner : t.owner = s.owner)
    (hl : s.lifecycle = .encapsulated) : s.Heeds signals t where
  lifecycle := hlifecycle
  owner := howner
  leaves stage hawaits := by
    rw [hl, Lifecycle.not_awaitsSignal_encapsulated] at hawaits
    cases hawaits

theorem heeds_progress (s : DepositState) (around : Surroundings) :
    s.Heeds around.signals (s.progress around) := by
  rcases progress_cases s around with hsame | ⟨step, hstep, hpermit, htarget⟩
  · rw [hsame]
    exact Heeds.refl _ s
  · refine ⟨s.progress_lifecycle around, s.progress_owner around, fun stage hawaits hbeyond => ?_⟩
    rw [isBeyond, hasReached_eq, s.progress_lifecycle, htarget, Bool.and_eq_true, bne_iff_ne]
      at hbeyond
    have hreached := Lifecycle.reaches_of_reaches_target hstep hbeyond.1 hbeyond.2
    by_cases hstage : s.stage = stage
    · refine Or.inr ⟨hstage, ?_⟩
      rw [← hstage, Lifecycle.awaitsSignal, hstep, Option.any_some] at hawaits
      rw [Surroundings.permits, hawaits, Lifecycle.source_of_stepFrom? hstep, hstage] at hpermit
      simpa using (Bool.and_eq_true_iff.mp hpermit).2
    · exact Or.inl (Bool.and_eq_true_iff.mpr ⟨hreached, bne_iff_ne.mpr hstage⟩)

end DepositState

namespace Observation

open Encapsulation

variable {o : Observation} {a : Artefact} {signals : Signals} {now : Timestamp} {owner : Owner}
  {state : DepositState}

theorem heeds_childStep (artefacts : List Artefact) (inScope : Artefact → Bool) (signals : Signals)
    (now : Timestamp) (a : Artefact) :
    a.state.Heeds signals (childStep artefacts inScope signals now a).state := by
  unfold childStep
  split
  · rw [Artefact.state_progress]
    exact a.state.heeds_progress (childSurroundings artefacts signals a)
  · exact .refl signals a.state

theorem heeds_fileStep {parent : Parent} {artefacts : List Artefact}
    (hs : Siblings parent artefacts) (ha : a ∈ artefacts) (stage : Stage) (signals : Signals)
    (now : Timestamp) :
    a.state.Heeds signals (fileStep stage artefacts signals now a).state := by
  by_cases hstage : stage = .depositing
  · subst hstage
    cases hkind : a.isEncapsulation with
    | true =>
        rw [fileStep_depositing_of_isEncapsulation ha hkind, step, Artefact.state_progress]
        exact a.state.heeds_progress { signals := signals, children := _ }
    | false =>
        cases henc : a.encapsulation with
        | none =>
            rw [fileStep_depositing_of_unpacked ha hkind henc]
            exact heeds_childStep artefacts _ signals now a
        | some id =>
            -- Whether its encapsulation takes it along makes no difference here.
            have hcont := continues_fileStep .depositing artefacts signals now a
            exact DepositState.heeds_of_encapsulated hcont.record.lifecycle hcont.record.owner
              ((hs.belongs a ha).of_member (by simp [henc])).1
  · unfold fileStep
    split
    · exact .refl signals a.state
    · rw [if_neg hstage]
      exact heeds_childStep artefacts _ signals now a

/-- A simulated job moves only what awaits no report. -/
theorem heeds_afterJobs {s : DepositState} (h : s.Heeds signals a.state) (later : Timestamp) :
    s.Heeds signals (a.afterJobs later).state := by
  cases hpack : a.isPackable with
  | false =>
      rw [Artefact.afterJobs, hpack]
      exact h
  | true =>
      have hcont := a.continues_afterJobs later
      have hl : a.state.lifecycle = .encapsulated := by
        simp only [Artefact.isPackable, Bool.and_eq_true, beq_iff_eq] at hpack
        exact hpack.1
      exact DepositState.heeds_of_encapsulated (hcont.record.lifecycle.trans h.lifecycle)
        (hcont.record.owner.trans h.owner) (h.lifecycle.symm.trans hl)

/-- A tick with a board of its own, and the time of the simulated jobs if they run after it. -/
structure Cycle where
  signals : Signals
  now : Timestamp
  jobs : Option Timestamp

/-- The observation after a tick. -/
def afterCycle (o : Observation) (cycle : Cycle) : Observation :=
  let o := (o.progress cycle.signals cycle.now).1
  match cycle.jobs with
  | none => o
  | some later => (o.runJobs later).1

/-- The observation after ticks, one after the other. -/
def afterCycles (o : Observation) (cycles : List Cycle) : Observation := cycles.foldl afterCycle o

@[simp] theorem afterCycles_nil (o : Observation) : o.afterCycles [] = o := rfl

@[simp] theorem afterCycles_concat (o : Observation) (cycles : List Cycle) (cycle : Cycle) :
    o.afterCycles (cycles ++ [cycle]) = (o.afterCycles cycles).afterCycle cycle := by
  simp [afterCycles]

/-- The simulated jobs are never refused on course. -/
theorem OnCourse.afterCycle_eq (h : o.OnCourse) (cycle : Cycle) :
    o.afterCycle cycle = match cycle.jobs with
      | none => (o.progress cycle.signals cycle.now).1
      | some later => (o.progress cycle.signals cycle.now).1.withArtefacts
          ((o.progress cycle.signals cycle.now).1.artefacts.map (·.afterJobs later)) := by
  unfold afterCycle
  cases cycle.jobs with
  | none => rfl
  | some later => exact congrArg Prod.fst (runJobs_eq h.progress.wellFormed.files later)

theorem OnCourse.afterCycle (h : o.OnCourse) (cycle : Cycle) : (o.afterCycle cycle).OnCourse := by
  rw [h.afterCycle_eq]
  cases cycle.jobs with
  | none => exact h.progress
  | some later => exact h.progress.packed later

theorem OnCourse.afterCycles (h : o.OnCourse) (cycles : List Cycle) :
    (o.afterCycles cycles).OnCourse := by
  induction cycles using List.reverseRecOn with
  | nil => exact h
  | append_singleton cycles cycle ih =>
      rw [afterCycles_concat]
      exact ih.afterCycle cycle

theorem Stands.owner_eq (h : o.Stands owner state) (hwf : o.WellFormed) : state.owner = owner := by
  cases h with
  | own => exact hwf.owner
  | file ha => exact (hwf.files.belongs _ ha).owner

theorem OnCourse.not_isFailed (h : o.OnCourse) (hstands : o.Stands owner state) :
    state.isFailed = false := by
  cases hstands with
  | own => exact h.own
  | file ha => exact h.files _ ha

/-- Where an owner stands after a call of progress it came from where it stood before, and heeded
the reports. -/
theorem OnCourse.heeds_progress (h : o.OnCourse)
    (hstands : (o.progress signals now).1.Stands owner state) :
    ∃ before, o.Stands owner before ∧ before.Heeds signals state := by
  have hs := h.wellFormed.files
  cases hstands with
  | own =>
      rw [(moves_progress h.wellFormed signals now).sbid]
      refine ⟨o.state, .own, ?_⟩
      rw [Observation.state, Observation.state, h.record_progress,
        DepositRecord.state_replace_progress]
      exact o.state.heeds_progress (ownSurroundings _ signals)
  | file hb =>
      rw [progress_artefacts hs] at hb
      obtain ⟨a, ha, rfl⟩ := List.mem_map.mp hb
      have hcont := continues_fileStep o.stage o.artefacts signals now a
      rw [hcont.owner_eq]
      exact ⟨a.state, .file ha, heeds_fileStep hs ha o.stage signals now⟩

theorem OnCourse.heeds_afterCycle (h : o.OnCourse) {cycle : Cycle}
    (hstands : (o.afterCycle cycle).Stands owner state) :
    ∃ before, o.Stands owner before ∧ before.Heeds cycle.signals state := by
  rw [h.afterCycle_eq] at hstands
  cases hjobs : cycle.jobs with
  | none =>
      rw [hjobs] at hstands
      exact h.heeds_progress hstands
  | some later =>
      rw [hjobs] at hstands
      cases hstands with
      | own => exact h.heeds_progress .own
      | file hb =>
          obtain ⟨a, ha, rfl⟩ := List.mem_map.mp hb
          rw [(a.continues_afterJobs later).owner_eq]
          obtain ⟨before, hbefore, hheeds⟩ := h.heeds_progress (.file ha)
          exact ⟨before, hbefore, heeds_afterJobs hheeds later⟩

/-- What adding files leads to has not started. -/
theorem Reachable.unstarted (h : Reachable (fun _ operation => operation.adds = true) o) :
    o.Unstarted := by
  induction h with
  | new hnew =>
      obtain ⟨hsound, hnone, hstage⟩ := sound_new hnew
      exact ⟨hsound, hstage, by simp [hnone]⟩
  | perform _ operation hadds now ih =>
      rcases perform_adds_cases ih.sound.wellFormed hadds now with
        hrefused | ⟨_, _, _, _, hpacked, hok⟩
      · rw [hrefused]
        exact ih
      · exact ih.push hpacked hok

/-- Nothing lies behind an owner that has not started. -/
theorem Unstarted.not_isBeyond (h : o.Unstarted) (hstands : o.Stands owner state) (stage : Stage) :
    state.isBeyond stage = false := by
  have hinitial : state.stage = state.lifecycle.initial := by
    cases hstands with
    | own =>
        rw [h.sound.wellFormed.lifecycle]
        exact h.own
    | file ha => exact h.files _ ha
  apply Bool.eq_false_iff.mpr
  intro hbeyond
  rw [DepositState.isBeyond, DepositState.hasReached_eq, hinitial, Bool.and_eq_true,
    bne_iff_ne] at hbeyond
  exact hbeyond.2 (Lifecycle.eq_initial_of_reaches hbeyond.1).symm

/-- A stage was reported complete for an owner in a tick of a run that found the owner in it. -/
def ReportedIn (o : Observation) (cycles : List Cycle) (owner : Owner) (stage : Stage) : Prop :=
  ∃ earlier cycle later, cycles = earlier ++ cycle :: later ∧
    cycle.signals owner stage = true ∧
      ∃ before, (o.afterCycles earlier).Stands owner before ∧ before.stage = stage

theorem ReportedIn.concat {cycles : List Cycle} {stage : Stage}
    (h : o.ReportedIn cycles owner stage) (last : Cycle) :
    o.ReportedIn (cycles ++ [last]) owner stage := by
  obtain ⟨earlier, cycle, later, rfl, hreported⟩ := h
  exact ⟨earlier, cycle, later ++ [last], by simp, hreported⟩

/-- In every run of ticks from an observation that has only had files added, nothing fails, and
every stage that awaits a report and lies behind an owner was reported complete for this owner in a
tick that found it there. -/
theorem reported_of_beyond (h : Reachable (fun _ operation => operation.adds = true) o)
    (cycles : List Cycle) (hstands : (o.afterCycles cycles).Stands owner state) :
    state.isFailed = false ∧
      ∀ stage, state.lifecycle.awaitsSignal stage = true → state.isBeyond stage = true →
        o.ReportedIn cycles owner stage := by
  have hunstarted := h.unstarted
  have honCourse := hunstarted.onCourse
  refine ⟨(honCourse.afterCycles cycles).not_isFailed hstands, fun stage hawaits hbeyond => ?_⟩
  induction cycles using List.reverseRecOn generalizing state with
  | nil =>
      rw [hunstarted.not_isBeyond hstands stage] at hbeyond
      cases hbeyond
  | append_singleton cycles cycle ih =>
      rw [afterCycles_concat] at hstands
      obtain ⟨before, hbefore, hheeds⟩ := (honCourse.afterCycles cycles).heeds_afterCycle hstands
      rw [hheeds.lifecycle] at hawaits
      rcases hheeds.leaves stage hawaits hbeyond with hearlier | ⟨hstage, hreported⟩
      · exact (ih hbefore hawaits hearlier).concat cycle
      · rw [hbefore.owner_eq (honCourse.afterCycles cycles).wellFormed] at hreported
        exact ⟨cycles, cycle, [], rfl, hreported, before, hbefore, hstage⟩

/-- A run in which only the board of its third tick holds a report: the metadata file was in
processing when that tick began. -/
theorem reported_third_tick :
    ∃ (o : Observation) (cycles : List Cycle) (owner : Owner) (state : DepositState),
      Reachable (fun _ operation => operation.adds = true) o ∧
        (o.afterCycles cycles).Stands owner state ∧
          state.lifecycle.awaitsSignal .processing = true ∧ state.isBeyond .processing = true ∧
            o.ReportedIn cycles owner .processing := by
  let now := Timestamp.ofUnixSeconds 0
  let o := performEach now (fresh ⟨1⟩) [.add .observationMetadataFile "m.xml"]
  let metadata := Owner.artefact (some (.observation ⟨1⟩)) "m.xml"
  let cycles : List Cycle :=
    [⟨fun _ _ => false, now, none⟩, ⟨fun _ _ => false, now, some now⟩,
      ⟨fun owner stage => owner == metadata && stage == .processing, now, none⟩]
  have hadded : Reachable (fun _ operation => operation.adds = true) o :=
    (Reachable.new (new_standard ⟨1⟩)).performEach ⟨rfl, trivial⟩
  have hfile : ∃ a ∈ (o.afterCycles cycles).artefacts,
      a.state.lifecycle.awaitsSignal .processing = true ∧
        a.state.isBeyond .processing = true := by
    decide +kernel
  obtain ⟨a, ha, hawaits, hbeyond⟩ := hfile
  have hstands : (o.afterCycles cycles).Stands a.owner a.state := .file ha
  exact ⟨o, cycles, a.owner, a.state, hadded, hstands, hawaits, hbeyond,
    (reported_of_beyond hadded cycles hstands).2 .processing hawaits hbeyond⟩

end Observation

end SignalHistory

end ArchiveDeposit

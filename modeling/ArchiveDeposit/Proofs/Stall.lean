import ArchiveDeposit.Proofs.Completion
import ArchiveDeposit.Proofs.OneStep

/-!
# Where driving stalls

A tick with simulated jobs that moves nothing leaves everything as it was, so every entity that was
asked for a step was refused it as things stand.  A gate can be closed only because another entity
is not far enough yet: the observation waits for its files, an encapsulation for its members, and a
member for its encapsulation.  This module shows that these never wait for each other alone: as
long as the observation is not deposited, some entity finds its gate open.  What that one lacks is a
report, and with this report the next tick moves.

**Results.**
* `Observation.OnCourse.not_permits`: after a tick that changes nothing no step is permitted.
* `Observation.OnCourse.hasOpen`: some entity finds its gate open.
* `Observation.OnCourse.stall_cause`: a stall lacks a report, and ends with it.
-/

namespace ArchiveDeposit

section Stall

open Encapsulation

/-- The stages of a packed file before it waits to be packed, and while it does. -/
theorem Lifecycle.encapsulated_stage_cases (s : Stage)
    (h : Lifecycle.encapsulated.isOnLine s = true) :
    s = .undeposited ∨ s = .processing ∨ s = .encapsulating ∨
      Lifecycle.encapsulated.reaches s .encapsulated = true := by
  revert h
  cases s <;> decide

theorem DepositState.stage_progress_ne {s : DepositState} {around : Surroundings} {step : Step}
    (hstep : s.lifecycle.stepFrom? s.stage = some step)
    (hpermit : around.permits step s.owner = true) : (s.progress around).stage ≠ s.stage := by
  rw [stage_progress hstep hpermit]
  exact (Lifecycle.ne_target_of_stepFrom? hstep).symm

namespace Observation

/-- An owner in the deposit of an observation, and its present state. -/
inductive Stands (o : Observation) : Owner → DepositState → Prop
  | own : o.Stands (.observation o.sbid) o.state
  | file {a : Artefact} (ha : a ∈ o.artefacts) : o.Stands a.owner a.state

/-- A state whose owner is asked for a step in a call of progress, and what the owner sees around it
while nothing moves. -/
inductive Asked (o : Observation) (signals : Signals) : DepositState → Surroundings → Prop
  | own : o.Asked signals o.state (ownSurroundings o.artefacts signals)
  | child {a : Artefact} (ha : a ∈ o.artefacts) (hkind : a.isEncapsulation = false)
      {inScope : Artefact → Bool} (hscope : inScope? o.stage = some inScope)
      (hin : inScope a = true) :
      o.Asked signals a.state (childSurroundings o.artefacts signals a)
  | encapsulation {file : Artefact} (hfile : file ∈ o.artefacts)
      (hkind : file.isEncapsulation = true) (hstage : o.stage = .depositing) :
      o.Asked signals file.state
        { signals := signals, children := (members o.artefacts file.id).map Artefact.state }

/-- Some owner that is asked for a step finds its gate open. -/
def HasOpen (o : Observation) (signals : Signals) : Prop :=
  ∃ state around step, o.Asked signals state around ∧
    state.lifecycle.stepFrom? state.stage = some step ∧ around.opens step.gate = true

variable {o : Observation} {signals : Signals} {now : Timestamp} {state : DepositState}
  {around : Surroundings} {step : Step}

namespace Asked

theorem stands (h : o.Asked signals state around) (hwf : o.WellFormed) :
    o.Stands state.owner state := by
  cases h with
  | own =>
      rw [hwf.owner]
      exact .own
  | child ha hkind hscope hin =>
      rw [(hwf.files.belongs _ ha).owner]
      exact .file ha
  | encapsulation hfile hkind hstage =>
      rw [(hwf.files.belongs _ hfile).owner]
      exact .file hfile

theorem signals_eq (h : o.Asked signals state around) : around.signals = signals := by
  cases h <;> rfl

/-- Gates do not depend on reports. -/
theorem withSignals (h : o.Asked signals state around) (other : Signals) :
    ∃ around', o.Asked other state around' ∧ ∀ gate, around'.opens gate = around.opens gate := by
  cases h with
  | own => exact ⟨_, .own, fun gate => by cases gate <;> rfl⟩
  | child ha hkind hscope hin =>
      exact ⟨_, .child ha hkind hscope hin, fun gate => by cases gate <;> rfl⟩
  | encapsulation hfile hkind hstage =>
      exact ⟨_, .encapsulation hfile hkind hstage, fun gate => by cases gate <;> rfl⟩

end Asked

/-- While the observation deposits, every file is asked for a step. -/
theorem inScope?_of_depositing (hstage : o.stage = .depositing) :
    inScope? o.stage = some fun _ => true := by
  rw [hstage]
  rfl

theorem OnCourse.fileStep_eq (h : o.OnCourse) (hsame : (o.progress signals now).1 = o) :
    ∀ a ∈ o.artefacts, fileStep o.stage o.artefacts signals now a = a := by
  have hmap : o.artefacts.map (fileStep o.stage o.artefacts signals now) =
      o.artefacts.map id := by
    rw [← progress_artefacts h.wellFormed.files, hsame, List.map_id]
  exact List.map_inj_left.mp hmap

/-- In a call that changes nothing, no file has stepped on the way either. -/
theorem OnCourse.childStep_eq (h : o.OnCourse) (hsame : (o.progress signals now).1 = o)
    {inScope : Artefact → Bool} (hscope : inScope? o.stage = some inScope) :
    ∀ a ∈ o.artefacts, childStep o.artefacts inScope signals now a = a := by
  intro a ha
  have hle :=
    (advances_fileStep_of_childStep hscope o.artefacts signals now a).ahead_le
  rw [h.fileStep_eq hsame a ha] at hle
  apply (continues_childStep o.artefacts inScope signals now a).eq_of_record
  rcases (advances_childStep o.artefacts inScope signals now a).ahead with hrecord | hlt
  · exact hrecord
  · exact absurd hle (Nat.not_le_of_lt hlt)

/-- In a call that changes nothing, no step is permitted that was asked for. -/
theorem OnCourse.not_permits (h : o.OnCourse) (hsame : (o.progress signals now).1 = o)
    (hasked : o.Asked signals state around)
    (hstep : state.lifecycle.stepFrom? state.stage = some step) :
    around.permits step state.owner = false := by
  apply Bool.eq_false_iff.mpr
  intro hpermit
  have hmoves := DepositState.stage_progress_ne hstep hpermit
  cases hasked with
  | own =>
      have hrecord : (o.progress signals now).1.record = (o.record.replace (o.record.state.progress
          (ownSurroundings (o.progress signals now).1.artefacts signals)) now).1 :=
        h.record_progress
      rw [hsame] at hrecord
      have hstage := congrArg (fun r : DepositRecord => r.state.stage) hrecord
      rw [DepositRecord.stage_replace] at hstage
      exact hmoves hstage.symm
  | child ha hkind hscope hin =>
      have hchild := h.childStep_eq hsame hscope _ ha
      rw [childStep, hin, hkind] at hchild
      have hstage := congrArg Artefact.stage hchild
      exact hmoves ((Artefact.stage_progress _ _ _).symm.trans hstage)
  | @encapsulation file hfile hkind hstage =>
      have hown : o.artefacts.map (ownStep o.artefacts signals now) = o.artefacts := by
        have hunmoved := h.childStep_eq hsame (inScope?_of_depositing hstage)
        exact (List.map_congr_left hunmoved).trans (List.map_id' _)
      have hstep := h.fileStep_eq hsame file hfile
      rw [hstage, fileStep_depositing_of_isEncapsulation hfile hkind, hown] at hstep
      have hfileStage := congrArg Artefact.stage hstep
      exact hmoves ((Artefact.stage_progress _ _ _).symm.trans hfileStage)

/-- What a tick that moves nothing leaves. -/
theorem OnCourse.eq_of_quiet (h : o.OnCourse) (hquiet : (o.tick signals true now).2 = .ok []) :
    (o.progress signals now).1 = o ∧ (∀ a ∈ o.artefacts, a.isPackable = false) ∧
      (o.tick signals true now).1 = o := by
  obtain ⟨o', moved, heq, _, _, hunmoved⟩ := h.wellFormed.tick_spec signals true now
  have hleft : (o.tick signals true now).1 = o := by
    rw [heq] at hquiet ⊢
    exact hunmoved (Except.ok.inj hquiet)
  rw [tick_eq h.wellFormed h.own_progress] at hquiet
  obtain ⟨hprogress, hjobs⟩ := List.append_eq_nil_iff.mp (Except.ok.inj hquiet)
  have hsame := progress_eq_of_nil h.wellFormed hprogress
  rw [hsame] at hjobs
  refine ⟨hsame, fun a ha => ?_, hleft⟩
  simpa using List.filter_eq_nil_iff.mp (List.map_eq_nil_iff.mp hjobs) a ha

/-- A file that is not deposited has a step before it. -/
theorem OnCourse.stepFrom?_isSome (h : o.OnCourse) {a : Artefact} (ha : a ∈ o.artefacts)
    (hnot : a.isDeposited = false) :
    ∃ step, a.state.lifecycle.stepFrom? a.state.stage = some step := by
  apply Lifecycle.stepFrom?_isSome (DepositState.isOnLine (h.files a ha))
  intro hdeposited
  rw [Artefact.isDeposited, DepositState.isDeposited, hdeposited] at hnot
  cases hnot

/-- A file that is on its own finds every gate open. -/
theorem OnCourse.hasOpen_of_single (h : o.OnCourse) {a : Artefact} (ha : a ∈ o.artefacts)
    (hnone : a.encapsulation = none) (hkind : a.isEncapsulation = false)
    (hnot : a.isDeposited = false) {inScope : Artefact → Bool}
    (hscope : inScope? o.stage = some inScope) (hin : inScope a = true) :
    o.HasOpen signals := by
  obtain ⟨step, hstep⟩ := h.stepFrom?_isSome ha hnot
  have hgate : step.gate = .immediate := by
    apply Lifecycle.single_gates
    have hmem := List.mem_of_find?_eq_some hstep
    rcases (h.wellFormed.files.belongs a ha).lifecycle_of_single hnone hkind with hl | hl
    · rw [hl] at hmem
      exact List.mem_append_left _ hmem
    · rw [hl] at hmem
      exact List.mem_append_right _ hmem
  refine ⟨_, _, step, .child ha hkind hscope hin, hstep, ?_⟩
  rw [hgate]
  rfl

/-- A packed file that is no further than waiting to be packed finds its gate open, unless it waits
for a job or for its encapsulation. -/
theorem OnCourse.hasOpen_of_member (h : o.OnCourse) (hstage : o.stage = .depositing)
    {file member : Artefact} (hholds : Holds o.artefacts file member)
    (hidle : member.isPackable = false)
    (hshort : member.state.hasReached .encapsulated = false)
    (hfile : member.stage = .encapsulating → file.state.hasReached .processed = true) :
    o.HasOpen signals := by
  have hs := h.wellFormed.files
  have hl := hholds.member_lifecycle hs
  have hasked : o.Asked signals member.state (childSurroundings o.artefacts signals member) :=
    .child hholds.mem_member (hholds.member_isEncapsulation hs) (inScope?_of_depositing hstage) rfl
  have hon := DepositState.isOnLine (h.files member hholds.mem_member)
  rw [hl] at hon
  rcases Lifecycle.encapsulated_stage_cases member.stage hon with
    hstart | hprocessing | hwaits | hreached
  · refine ⟨_, _, ⟨.undeposited, .processing, .immediate, false⟩, hasked, ?_, rfl⟩
    rw [hl, show member.state.stage = _ from hstart]
    rfl
  · simp [Artefact.isPackable, hl, hprocessing] at hidle
  · refine ⟨_, _, ⟨.encapsulating, .encapsulated, .encapsulationReached .processed, false⟩, hasked,
      ?_, ?_⟩
    · rw [hl, show member.state.stage = _ from hwaits]
      rfl
    · simp only [Surroundings.opens, childSurroundings, hholds.encapsulation, Option.bind_some,
        encapsulationState?_of_mem hs.arranged hholds.mem_file (hholds.isEncapsulation hs),
        Option.any_some]
      exact hfile hwaits
  · rw [DepositState.hasReached_eq, hl] at hshort
    exact absurd hreached (Bool.eq_false_iff.mp hshort)

/-- An encapsulation that waits for its members finds its gate open, unless one of them is short of
what it waits for. -/
theorem OnCourse.hasOpen_of_childrenReached (h : o.OnCourse) (hstage : o.stage = .depositing)
    {file : Artefact} (hfile : file ∈ o.artefacts) (hkind : file.isEncapsulation = true)
    (hstep : file.state.lifecycle.stepFrom? file.state.stage = some step) {stage : Stage}
    (hgate : step.gate = .childrenReached stage)
    (hmembers : ∀ member, Holds o.artefacts file member →
      member.state.hasReached stage = false → o.HasOpen signals) : o.HasOpen signals := by
  by_cases hall : ∀ member, Holds o.artefacts file member → member.state.hasReached stage = true
  · refine ⟨_, _, step, .encapsulation hfile hkind hstage, hstep, ?_⟩
    rw [hgate]
    exact (opens_childrenReached_iff h.wellFormed.files hfile signals stage).mpr hall
  · push Not at hall
    obtain ⟨member, hholds, hshort⟩ := hall
    exact hmembers member hholds (by simpa using hshort)

/-- An encapsulation that is not deposited finds its gate open, or one of its members does. -/
theorem OnCourse.hasOpen_of_encapsulation (h : o.OnCourse) (hstage : o.stage = .depositing)
    (hidle : ∀ a ∈ o.artefacts, a.isPackable = false) {file : Artefact}
    (hfile : file ∈ o.artefacts) (hkind : file.isEncapsulation = true)
    (hnot : file.isDeposited = false) : o.HasOpen signals := by
  have hs := h.wellFormed.files
  have hl : file.state.lifecycle = .encapsulation :=
    ((hs.belongs file hfile).of_isEncapsulation hkind).2
  obtain ⟨step, hstep⟩ := h.stepFrom?_isSome hfile hnot
  have hmem : step ∈ Lifecycle.encapsulation.steps := by
    rw [← hl]
    exact List.mem_of_find?_eq_some hstep
  rcases Lifecycle.encapsulation_gate_cases step hmem with hgate | hgate | ⟨hsource, hgate⟩
  · refine ⟨_, _, step, .encapsulation hfile hkind hstage, hstep, ?_⟩
    rw [hgate]
    rfl
  · refine h.hasOpen_of_childrenReached hstage hfile hkind hstep hgate
      fun member hholds hshort => ?_
    rw [DepositState.hasReached_eq, hholds.member_lifecycle hs] at hshort
    refine h.hasOpen_of_member hstage hholds (hidle member hholds.mem_member) ?_ fun hwaiting => ?_
    · rw [DepositState.hasReached_eq, hholds.member_lifecycle hs, Bool.eq_false_iff]
      intro hpacked
      have hreached := Lifecycle.reaches_trans hpacked
        (show Lifecycle.encapsulated.reaches .encapsulated .encapsulating = true by decide)
      exact absurd hreached (Bool.eq_false_iff.mp hshort)
    · rw [show member.state.stage = _ from hwaiting] at hshort
      cases hshort
  · refine h.hasOpen_of_childrenReached hstage hfile hkind hstep hgate
      fun member hholds hshort => ?_
    refine h.hasOpen_of_member hstage hholds (hidle member hholds.mem_member) hshort fun _ => ?_
    rw [DepositState.hasReached_eq, hl, show file.state.stage = _ from
      (Lifecycle.source_of_stepFrom? hstep).symm.trans hsource]
    decide

theorem hasOpen_own (hstep : o.state.lifecycle.stepFrom? o.stage = some step)
    (hopens : (ownSurroundings o.artefacts signals).opens step.gate = true) :
    o.HasOpen signals :=
  ⟨_, _, step, .own, hstep, hopens⟩

theorem OnCourse.hasOpen_depositing (h : o.OnCourse) (hstage : o.stage = .depositing)
    (hidle : ∀ a ∈ o.artefacts, a.isPackable = false) {a : Artefact} (ha : a ∈ o.artefacts)
    (hnot : a.isDeposited = false) : o.HasOpen signals := by
  cases henc : a.encapsulation with
  | none =>
      cases hkind : a.isEncapsulation with
      | false =>
          exact h.hasOpen_of_single ha henc hkind hnot (inScope?_of_depositing hstage) rfl
      | true => exact h.hasOpen_of_encapsulation hstage hidle ha hkind hnot
  | some id =>
      obtain ⟨_, file, hfile, rfl, hkind⟩ := h.wellFormed.files.packed a ha id henc
      apply h.hasOpen_of_encapsulation hstage hidle hfile hkind
      apply Bool.eq_false_iff.mpr
      intro hdeposited
      rw [h.members file a ⟨hfile, ha, henc⟩ hdeposited] at hnot
      cases hnot

/-- As long as an observation on course is not deposited and no file waits for a job, somebody finds
the gate open. -/
theorem OnCourse.hasOpen (h : o.OnCourse) (hnot : o.isDeposited = false)
    (hidle : ∀ a ∈ o.artefacts, a.isPackable = false) (signals : Signals) :
    o.HasOpen signals := by
  have hown : ∀ step, Lifecycle.observation.stepFrom? o.stage = some step →
      (ownSurroundings o.artefacts signals).opens step.gate = true → o.HasOpen signals := by
    intro step hstep
    rw [← h.wellFormed.lifecycle] at hstep
    exact hasOpen_own hstep
  rcases h.stage_cases with hstage | hstage | hstage | hstage | hstage | hstage
  · exact hown ⟨.undeposited, .priorityDepositing, .immediate, false⟩ (by rw [hstage]; rfl) rfl
  · by_cases hall : ∀ a ∈ o.artefacts, a.kind.isPriority = true → a.isDeposited = true
    · refine hown ⟨.priorityDepositing, .depositing, .priorityChildrenDeposited, false⟩
        (by rw [hstage]; rfl) ?_
      simp only [Surroundings.opens, ownSurroundings, List.all_map, List.all_eq_true,
        List.mem_filter]
      exact fun a ha => hall a ha.1 ha.2
    · push Not at hall
      obtain ⟨a, ha, hpriority, hleft⟩ := hall
      obtain ⟨hnone, hkind, _⟩ := (h.wellFormed.files.belongs a ha).of_isPriority hpriority
      have hscope : inScope? o.stage = some fun a => a.kind.isPriority := by
        rw [hstage]
        rfl
      exact h.hasOpen_of_single ha hnone hkind (by simpa using hleft) hscope hpriority
  · by_cases hall : ∀ a ∈ o.artefacts, a.isDeposited = true
    · refine hown ⟨.depositing, .archiving, .childrenDeposited, false⟩ (by rw [hstage]; rfl) ?_
      simp only [Surroundings.opens, ownSurroundings, List.all_map, List.all_eq_true]
      exact hall
    · push Not at hall
      obtain ⟨a, ha, hleft⟩ := hall
      exact h.hasOpen_depositing hstage hidle ha (by simpa using hleft)
  · exact hown ⟨.archiving, .notifying, .immediate, true⟩ (by rw [hstage]; rfl) rfl
  · exact hown ⟨.notifying, .deposited, .immediate, true⟩ (by rw [hstage]; rfl) rfl
  · rw [isDeposited, DepositState.isDeposited, show o.state.stage = _ from hstage] at hnot
    cases hnot

/-- When a tick moves nothing, an owner of the deposit stands before a step that awaits a report
which is not in; and with this one report taken in, the next tick moves. -/
theorem OnCourse.stall_cause (h : o.OnCourse) (hnot : o.isDeposited = false) {board : SignalBoard}
    (hquiet : (o.tick board.toSignals true now).2 = .ok []) :
    ∃ (owner : Owner) (state : DepositState) (step : Step),
      o.Stands owner state ∧ state.lifecycle.stepFrom? state.stage = some step ∧
        step.awaitsSignal = true ∧ board.isComplete ⟨owner, state.stage⟩ = false ∧
        ∀ later : Timestamp, ∃ moved,
          ((o.tick board.toSignals true now).1.tick
            (board.signal ⟨owner, state.stage⟩).1.toSignals true later).2 = .ok moved ∧
              moved ≠ [] := by
  obtain ⟨hsame, hidle, htick⟩ := h.eq_of_quiet hquiet
  obtain ⟨state, around, step, hasked, hstep, hopens⟩ := h.hasOpen hnot hidle board.toSignals
  have hrefused := h.not_permits hsame hasked hstep
  have hsource := Lifecycle.source_of_stepFrom? hstep
  rw [Surroundings.permits, hopens, Bool.true_and, hasked.signals_eq, hsource] at hrefused
  obtain ⟨hawaits, hmissing⟩ := Bool.or_eq_false_iff.mp hrefused
  refine ⟨state.owner, state, step, hasked.stands h.wellFormed, hstep, by simpa using hawaits,
    hmissing, fun later => ?_⟩
  rw [htick]
  let more := (board.signal ⟨state.owner, state.stage⟩).1
  obtain ⟨moved, hmoved, _⟩ := h.tick more.toSignals later
  refine ⟨moved, congrArg Prod.snd hmoved, ?_⟩
  rintro rfl
  have hstill := (h.eq_of_quiet (congrArg Prod.snd hmoved)).1
  obtain ⟨around', hasked', hsameGates⟩ := hasked.withSignals more.toSignals
  have hrefused' := h.not_permits hstill hasked' hstep
  have hin : more.toSignals state.owner state.stage = true :=
    (board.isComplete_signal _ _).mpr (Or.inl rfl)
  rw [Surroundings.permits, hsameGates, hopens, hasked'.signals_eq, hsource, hin] at hrefused'
  simp at hrefused'

/-- An encapsulation that nobody has reported processed, its member waiting beside it and the
observation for both. -/
theorem stall_cause_unreported_encapsulation :
    ∃ (o : Observation) (now : Timestamp) (owner : Owner) (state : DepositState) (step : Step)
      (moved : List Transition),
      o.OnCourse ∧ o.isDeposited = false ∧ o.artefacts.length = 2 ∧
        (o.tick (SignalBoard.toSignals Ascending.empty) true now).2 = .ok [] ∧
        o.Stands owner state ∧ state.lifecycle.stepFrom? state.stage = some step ∧
        step.awaitsSignal = true ∧
        ((o.tick (SignalBoard.toSignals Ascending.empty) true now).1.tick
          (SignalBoard.signal Ascending.empty ⟨owner, state.stage⟩).1.toSignals true now).2 =
            .ok moved ∧
        moved ≠ [] := by
  let m : Manifest :=
    { sbid := 7
      entries := [⟨.encapsulationFile, "e", none⟩, ⟨.spectrum, "s", some "e"⟩] }
  let now := Timestamp.ofUnixSeconds 0
  let board : SignalBoard := Ascending.empty
  let after := fun o : Observation =>
    ((o.afterTick board.toSignals now).afterTick board.toSignals now).afterTick board.toSignals now
  have hbuilt : (m.build .standard).toOption.map (fun o =>
      ((after o).isDeposited, (after o).artefacts.length,
        ((after o).tick board.toSignals true now).2.toOption)) = some (false, 2, some []) := by
    decide +kernel
  cases hbuild : m.build .standard with
  | error e =>
      rw [hbuild] at hbuilt
      cases hbuilt
  | ok o =>
      rw [hbuild] at hbuilt
      obtain ⟨hnot, hrest⟩ := Prod.mk.inj (Option.some.inj hbuilt)
      obtain ⟨hlength, hmoved⟩ := Prod.mk.inj hrest
      have hcourse : (after o).OnCourse :=
        (Manifest.onCourse_of_build hbuild).afterTick.afterTick.afterTick
      have hquiet : ((after o).tick board.toSignals true now).2 = .ok [] := by
        obtain ⟨reported, htick, _⟩ := hcourse.tick board.toSignals now
        rw [htick] at hmoved ⊢
        exact congrArg Except.ok (Option.some.inj hmoved)
      obtain ⟨owner, state, step, hstands, hstep, hawaits, _, hmoves⟩ :=
        hcourse.stall_cause hnot hquiet
      obtain ⟨moved, hnext, hne⟩ := hmoves now
      exact ⟨after o, now, owner, state, step, moved, hcourse, hnot, hlength, hquiet, hstands,
        hstep, hawaits, hnext, hne⟩

end Observation

end Stall

end ArchiveDeposit

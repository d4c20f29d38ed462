import ArchiveDeposit.Drive
import ArchiveDeposit.Proofs.Pace

/-!
# Completion

Driven with simulated jobs, and with every report in, an observation on course is deposited within
sixteen ticks, however many files it has.  One tick starts it, three deposit its priority files and
one more lets the others start; nine deposit those, and two take the observation to its end.

**Results.**
* `Observation.OnCourse.dueIn_afterTick`: a tick takes one off the ticks in which an observation is
  due.
* `drive_deposits`: driving ends with everything deposited.
-/

namespace ArchiveDeposit

section Completion

namespace Observation

variable {o : Observation} {now : Timestamp}

/-- The observation itself takes a step, or it waits. -/
theorem OnCourse.stage_afterTick_cases (h : o.OnCourse) {step : Step}
    (hstep : Lifecycle.observation.stepFrom? o.stage = some step) (signals : Signals)
    (now : Timestamp) :
    (o.afterTick signals now).stage = o.stage ∨
      (o.afterTick signals now).stage = step.target := by
  rcases progress_record_cases o signals now with
    ⟨hfailed, _⟩ | ⟨_, hsame | ⟨taken, htaken, _, _, _, hstage⟩⟩
  · rw [h.hasFailedInScope] at hfailed
    cases hfailed
  · exact Or.inl (congrArg (fun r : DepositRecord => r.state.stage) hsame)
  · rw [h.wellFormed.lifecycle, hstep] at htaken
    rw [Option.some.inj htaken]
    exact Or.inr hstage

/-- With every report in, the observation takes its step when the gate is open. -/
theorem OnCourse.stage_afterTick_of_opens (h : o.OnCourse) (now : Timestamp) {step : Step}
    (hstep : Lifecycle.observation.stepFrom? o.stage = some step)
    (hopens : (ownSurroundings (o.progress Signals.autoComplete now).1.artefacts
      Signals.autoComplete).opens step.gate = true) :
    (o.afterTick Signals.autoComplete now).stage = step.target := by
  rw [← h.wellFormed.lifecycle] at hstep
  change (o.progress Signals.autoComplete now).1.stage = step.target
  rw [stage, h.record_progress, DepositRecord.stage_replace]
  apply DepositState.stage_progress hstep
  rw [Surroundings.permits_autoComplete rfl]
  exact hopens

/-- A number of ticks within which an observation on course is deposited, by its stage. -/
def dueAt (artefacts : List Artefact) (n : Nat) : Stage → Prop
  | .undeposited => 16 ≤ n
  | .priorityDepositing =>
      ∃ k, k + 12 ≤ n ∧ ∀ a ∈ artefacts, a.kind.isPriority = true → a.ahead ≤ k + 1
  | .depositing => 11 ≤ n ∨ ∃ k, k + 3 ≤ n ∧ FilesWithin artefacts (k + 1)
  | .archiving => 2 ≤ n
  | .notifying => 1 ≤ n
  | _ => True

/-- A number of ticks within which the observation is deposited. -/
def DueIn (o : Observation) (n : Nat) : Prop := dueAt o.artefacts n o.stage

theorem OnCourse.stage_cases (h : o.OnCourse) :
    o.stage = .undeposited ∨ o.stage = .priorityDepositing ∨ o.stage = .depositing ∨
      o.stage = .archiving ∨ o.stage = .notifying ∨ o.stage = .deposited := by
  have hon := DepositState.isOnLine h.own
  rw [h.wellFormed.lifecycle] at hon
  have hline : ∀ s : Stage, Lifecycle.observation.isOnLine s = true →
      s = .undeposited ∨ s = .priorityDepositing ∨ s = .depositing ∨ s = .archiving ∨
        s = .notifying ∨ s = .deposited := by
    intro s
    cases s <;> decide
  exact hline o.stage hon

/-- Priority files have four steps. -/
theorem OnCourse.ahead_priority (h : o.OnCourse) :
    ∀ a ∈ o.artefacts, a.kind.isPriority = true → a.ahead ≤ 4 := by
  intro a ha hkind
  have hl := ((h.wellFormed.files.belongs a ha).of_isPriority hkind).2.2
  have hle := Lifecycle.ahead_le a.record.state.lifecycle a.record.state.stage
  rw [show a.record.state.lifecycle = _ from hl] at hle
  rw [Artefact.ahead, DepositRecord.ahead, show a.record.state.lifecycle = _ from hl]
  exact hle

theorem OnCourse.dueIn_sixteen (h : o.OnCourse) : o.DueIn 16 := by
  unfold DueIn
  rcases h.stage_cases with hstage | hstage | hstage | hstage | hstage | hstage <;> rw [hstage]
  · exact Nat.le_refl 16
  · exact ⟨3, by decide, h.ahead_priority⟩
  · exact Or.inl (show 11 ≤ 16 by decide)
  · exact (show 2 ≤ 16 by decide)
  · exact (show 1 ≤ 16 by decide)
  · trivial

theorem OnCourse.deposited_of_dueIn_zero (h : o.OnCourse) (hdue : o.DueIn 0) :
    o.stage = .deposited := by
  unfold DueIn at hdue
  rcases h.stage_cases with hstage | hstage | hstage | hstage | hstage | hstage
  · rw [hstage] at hdue
    exact absurd (show 16 ≤ 0 from hdue) (by decide)
  · rw [hstage] at hdue
    obtain ⟨k, hk, _⟩ := hdue
    omega
  · rw [hstage] at hdue
    rcases hdue with hdue | ⟨k, hk, _⟩
    · exact absurd hdue (by decide)
    · omega
  · rw [hstage] at hdue
    exact absurd (show 2 ≤ 0 from hdue) (by decide)
  · rw [hstage] at hdue
    exact absurd (show 1 ≤ 0 from hdue) (by decide)
  · exact hstage

/-- While the observation deposits its priority files, each of them comes one step closer. -/
theorem OnCourse.ahead_priority_progress (h : o.OnCourse) (now : Timestamp)
    (hstage : o.stage = .priorityDepositing) {n : Nat}
    (hahead : ∀ a ∈ o.artefacts, a.kind.isPriority = true → a.ahead ≤ n + 1) :
    ∀ a ∈ (o.progress Signals.autoComplete now).1.artefacts, a.kind.isPriority = true →
      a.ahead ≤ n := by
  have hs := h.wellFormed.files
  intro b hb hkind
  rw [progress_artefacts hs, hstage] at hb
  obtain ⟨a, ha, rfl⟩ := List.mem_map.mp hb
  rw [(continues_fileStep .priorityDepositing o.artefacts Signals.autoComplete now a).kind] at hkind
  obtain ⟨_, hnotEncapsulation, hl⟩ := (hs.belongs a ha).of_isPriority hkind
  have hstep : fileStep .priorityDepositing o.artefacts Signals.autoComplete now a =
      (a.progress (childSurroundings o.artefacts Signals.autoComplete a) now).1 := by
    simp [fileStep, inScope?, childStep, hkind, hnotEncapsulation]
  have hcloser := hahead a ha hkind
  rw [hstep, Artefact.ahead_progress_of_permits (h.files a ha)]
  · omega
  · intro step hstep
    have hgate : step.gate = .immediate := by
      apply Lifecycle.single_gates
      rw [hl] at hstep
      exact List.mem_append_left _ (List.mem_of_find?_eq_some hstep)
    rw [Surroundings.permits_autoComplete rfl, hgate]
    rfl

/-- While the observation deposits its priority files, a tick takes one off. -/
theorem OnCourse.dueIn_afterTick_priority (h : o.OnCourse) (now : Timestamp)
    (hstage : o.stage = .priorityDepositing) {k n : Nat} (hk : k + 12 ≤ n + 1)
    (hahead : ∀ a ∈ o.artefacts, a.kind.isPriority = true → a.ahead ≤ k + 1) :
    (o.afterTick Signals.autoComplete now).DueIn n := by
  have hcloser := h.ahead_priority_progress now hstage hahead
  have hstep : Lifecycle.observation.stepFrom? o.stage = some
      ⟨.priorityDepositing, .depositing, .priorityChildrenDeposited, false⟩ := by
    rw [hstage]
    rfl
  rcases h.stage_afterTick_cases hstep Signals.autoComplete now with hwaits | hnext
  · cases k with
    | zero =>
        have hopens : (ownSurroundings (o.progress Signals.autoComplete now).1.artefacts
            Signals.autoComplete).opens .priorityChildrenDeposited = true := by
          simp only [Surroundings.opens, ownSurroundings, List.all_map, List.all_eq_true,
            List.mem_filter]
          rintro a ⟨ha, hkind⟩
          have hzero : a.ahead = 0 := Nat.le_zero.mp (hcloser a ha hkind)
          exact (Artefact.isDeposited_iff_ahead (h.files_progress a ha)).mpr hzero
        rw [h.stage_afterTick_of_opens now hstep hopens, hstage] at hwaits
        cases hwaits
    | succ k =>
        rw [DueIn, hwaits, hstage]
        refine ⟨k, by omega, ?_⟩
        intro b hb hkind
        obtain ⟨a, ha, rfl⟩ := List.mem_map.mp hb
        rw [(Artefact.continues_afterJobs a now).kind] at hkind
        exact Nat.le_trans (Artefact.advances_afterJobs a now).ahead_le (hcloser a ha hkind)
  · rw [DueIn, hnext]
    have hlate : 11 ≤ n := by omega
    exact Or.inl hlate

/-- While the observation deposits and its members wait to be packed, a tick takes one off. -/
theorem OnCourse.dueIn_afterTick_depositing (h : o.OnCourse) (now : Timestamp)
    (hstage : o.stage = .depositing) {k n : Nat} (hk : k + 3 ≤ n + 1)
    (hwithin : FilesWithin o.artefacts (k + 1)) :
    (o.afterTick Signals.autoComplete now).DueIn n := by
  have hcloser := h.filesWithin_succ now hstage hwithin
  have hstep : Lifecycle.observation.stepFrom? o.stage = some
      ⟨.depositing, .archiving, .childrenDeposited, false⟩ := by
    rw [hstage]
    rfl
  rcases h.stage_afterTick_cases hstep Signals.autoComplete now with hwaits | hnext
  · cases k with
    | zero =>
        have hopens : (ownSurroundings (o.progress Signals.autoComplete now).1.artefacts
            Signals.autoComplete).opens .childrenDeposited = true := by
          simp only [Surroundings.opens, ownSurroundings, List.all_map, List.all_eq_true]
          exact h.progress.isDeposited_of_filesWithin hcloser
        rw [h.stage_afterTick_of_opens now hstep hopens, hstage] at hwaits
        cases hwaits
    | succ k =>
        rw [DueIn, hwaits, hstage]
        refine Or.inr ⟨k, by omega, ?_⟩
        exact hcloser.map (fun a _ => a.continues_afterJobs now) fun a _ =>
          (Artefact.advances_afterJobs a now).ahead_le
  · rw [DueIn, hnext]
    have hlate : 2 ≤ n := by omega
    exact hlate

/-- In the first tick of depositing, members come to wait to be packed. -/
theorem OnCourse.dueIn_afterTick_first (h : o.OnCourse) (now : Timestamp)
    (hstage : o.stage = .depositing) {n : Nat} (hn : 11 ≤ n + 1) :
    (o.afterTick Signals.autoComplete now).DueIn n := by
  have hstep : Lifecycle.observation.stepFrom? o.stage = some
      ⟨.depositing, .archiving, .childrenDeposited, false⟩ := by
    rw [hstage]
    rfl
  rcases h.stage_afterTick_cases hstep Signals.autoComplete now with hwaits | hnext
  · rw [DueIn, hwaits, hstage]
    exact Or.inr ⟨7, by omega, h.filesWithin_first hstage⟩
  · rw [DueIn, hnext]
    have hlate : 2 ≤ n := by omega
    exact hlate

theorem OnCourse.stage_afterTick_deposited (h : o.OnCourse) (now : Timestamp)
    (hstage : o.stage = .deposited) :
    (o.afterTick Signals.autoComplete now).stage = .deposited := by
  rcases progress_record_cases o Signals.autoComplete now with
    ⟨hfailed, _⟩ | ⟨_, hsame | ⟨taken, htaken, _⟩⟩
  · rw [h.hasFailedInScope] at hfailed
    cases hfailed
  · exact (congrArg (fun r : DepositRecord => r.state.stage) hsame).trans hstage
  · rw [h.wellFormed.lifecycle, hstage] at htaken
    cases htaken

/-- A tick takes one off the ticks in which an observation on course is due. -/
theorem OnCourse.dueIn_afterTick (h : o.OnCourse) (now : Timestamp) {n : Nat}
    (hdue : o.DueIn (n + 1)) : (o.afterTick Signals.autoComplete now).DueIn n := by
  unfold DueIn at hdue
  rcases h.stage_cases with hstage | hstage | hstage | hstage | hstage | hstage <;>
    rw [hstage] at hdue
  · have hnext := h.stage_afterTick_of_opens now (by rw [hstage]; rfl) rfl
    have hn : 16 ≤ n + 1 := hdue
    rw [DueIn, hnext]
    exact ⟨3, by omega, h.afterTick.ahead_priority⟩
  · obtain ⟨k, hk, hahead⟩ := hdue
    exact h.dueIn_afterTick_priority now hstage hk hahead
  · rcases hdue with hn | ⟨k, hk, hwithin⟩
    · exact h.dueIn_afterTick_first now hstage hn
    · exact h.dueIn_afterTick_depositing now hstage hk hwithin
  · have hnext := h.stage_afterTick_of_opens now (by rw [hstage]; rfl) rfl
    have hn : 2 ≤ n + 1 := hdue
    rw [DueIn, hnext]
    exact Nat.le_of_succ_le_succ hn
  · have hnext := h.stage_afterTick_of_opens now (by rw [hstage]; rfl) rfl
    rw [DueIn, hnext]
    trivial
  · rw [DueIn, h.stage_afterTick_deposited now hstage]
    trivial

/-- A tick that changes nothing leaves an observation that is due deposited already. -/
theorem OnCourse.deposited_of_unchanged (h : o.OnCourse)
    (hartefacts : (o.afterTick Signals.autoComplete now).artefacts = o.artefacts)
    (hrecord : (o.afterTick Signals.autoComplete now).record = o.record) :
    ∀ n, o.DueIn n → o.stage = .deposited := by
  intro n
  induction n with
  | zero => exact h.deposited_of_dueIn_zero
  | succ n ih =>
      intro hdue
      apply ih
      have hstage : (o.afterTick Signals.autoComplete now).stage = o.stage :=
        congrArg (fun r : DepositRecord => r.state.stage) hrecord
      have hafter := h.dueIn_afterTick now hdue
      unfold DueIn at hafter ⊢
      rw [hstage, hartefacts] at hafter
      exact hafter

/-- How often the observation and each of its files has failed. -/
def failureCounts (o : Observation) : UInt32 × List (ArtefactId × UInt32) :=
  (o.record.failureCount, o.artefacts.map fun a => (a.id, a.record.failureCount))

theorem OnCourse.failureCounts_afterTick (h : o.OnCourse) (signals : Signals) (now : Timestamp) :
    (o.afterTick signals now).failureCounts = o.failureCounts := by
  have hown : o.record.Advances (o.afterTick signals now).record := h.advances_afterTick
  rw [failureCounts, failureCounts, hown.failureCount, h.artefacts_afterTick, List.map_map]
  congr 1
  apply List.map_congr_left
  intro a ha
  have hid := (continues_tickFile o signals now a).id
  have hcount : (o.tickFile signals now a).record.failureCount = a.record.failureCount :=
    (o.advances_tickFile signals now a).failureCount
  simp only [Function.comp_apply, hid, hcount]

theorem OnCourse.files_of_deposited (h : o.OnCourse) (hstage : o.stage = .deposited) :
    ∀ a ∈ o.artefacts, a.isDeposited = true := by
  apply h.archived
  rw [DepositState.hasReached_eq, h.wellFormed.lifecycle, show o.state.stage = _ from hstage]
  rfl

theorem OnCourse.stepsAhead_of_deposited (h : o.OnCourse) (hstage : o.stage = .deposited) :
    o.stepsAhead = 0 := by
  have hown : o.record.ahead = 0 := by
    rw [DepositRecord.ahead, show o.record.state.lifecycle = _ from h.wellFormed.lifecycle,
      show o.record.state.stage = _ from hstage]
    rfl
  have hfiles : Artefact.totalAhead o.artefacts = 0 := by
    apply Artefact.totalAhead_eq_zero
    intro a ha
    exact (Artefact.isDeposited_iff_ahead (h.files a ha)).mp (h.files_of_deposited hstage a ha)
  rw [stepsAhead, hown, hfiles]

/-- Driving goes on after a tick that leaves an observation that is due undeposited. -/
theorem OnCourse.settled?_afterTick (h : o.OnCourse) {n : Nat} (hdue : o.DueIn n)
    (hstage : (o.afterTick Signals.autoComplete now).stage ≠ .deposited) {moved : List Transition}
    (hcount : o.stepsAhead = (o.afterTick Signals.autoComplete now).stepsAhead + moved.length) :
    settled? (o.afterTick Signals.autoComplete now) moved = none := by
  have hdeposited : (o.afterTick Signals.autoComplete now).isDeposited = false :=
    beq_eq_false_iff_ne.mpr hstage
  have hfailed : (o.afterTick Signals.autoComplete now).isFailed = false := h.afterTick.own
  have hmoved : moved.isEmpty = false := by
    cases moved with
    | cons first rest => rfl
    | nil =>
        obtain ⟨hartefacts, hrecord⟩ := h.eq_of_nothing_reported hcount
        have hsame : (o.afterTick Signals.autoComplete now).stage = o.stage :=
          congrArg (fun r : DepositRecord => r.state.stage) hrecord
        rw [hsame] at hstage
        exact absurd (h.deposited_of_unchanged hartefacts hrecord n hdue) hstage
  rw [settled?, hdeposited, hfailed, hmoved]
  rfl

end Observation

variable {Store Fault : Type} [ObservationStore Store Fault] {store : Store}

/-- A store that does not fail to save, whatever has been saved before. -/
def Saves (store : Store) : Prop :=
  ∀ (before : List Observation) (o : Observation),
    (ObservationStore.save (before.foldl (fun s o => (ObservationStore.save s o).1) store) o).2 =
      .ok ()

theorem Saves.saveMoved (h : Saves store) (o : Observation) (moved : List Transition) :
    ∃ store' : Store, saveMoved store o moved = (store', .ok ()) ∧ Saves store' := by
  unfold ArchiveDeposit.saveMoved
  split
  · exact ⟨store, rfl, h⟩
  · refine ⟨(ObservationStore.save store o).1, ?_, fun before => h (o :: before)⟩
    exact Prod.ext rfl (h [] o)

/-- One tick of driving an observation that is due: driving ends with the deposit, or it goes on. -/
theorem driveFrom_succ {o : Observation} (hsaves : Saves store) (h : o.OnCourse) {n : Nat}
    (hdue : o.DueIn n) (clock : Nat → Timestamp) (ticks transitions limit : Nat) :
    let next := o.afterTick Signals.autoComplete (clock ticks)
    ∃ (after : Store) (made : Nat), Saves after ∧ o.stepsAhead = next.stepsAhead + made ∧
      driveFrom Signals.autoComplete true clock ticks transitions (limit + 1) store o =
        if next.stage = .deposited then
          (after, next, .ok ⟨.deposited, ticks + 1, transitions + made, .deposited⟩)
        else
          driveFrom Signals.autoComplete true clock (ticks + 1) (transitions + made) limit after
            next := by
  intro next
  obtain ⟨moved, htick, hcount⟩ : ∃ moved,
      o.tick Signals.autoComplete true (clock ticks) = (next, .ok moved) ∧
        o.stepsAhead = next.stepsAhead + moved.length :=
    h.tick Signals.autoComplete (clock ticks)
  obtain ⟨after, hsaved, hafter⟩ := hsaves.saveMoved next moved
  refine ⟨after, moved.length, hafter, hcount, ?_⟩
  rw [driveFrom, htick]
  simp only [hsaved]
  by_cases hstage : next.stage = .deposited
  · have hsettled : settled? next moved = some .deposited :=
      if_pos (beq_iff_eq.mpr hstage)
    rw [if_pos hstage, hsettled]
    simp only [hstage]
  · have hsettled := h.settled?_afterTick hdue hstage hcount
    rw [if_neg hstage, hsettled]

/-- From any tick on, driving deposits an observation within the ticks in which it is due, and
leaves the failures that were counted as they are. -/
theorem driveFrom_deposits (clock : Nat → Timestamp) (n : Nat) :
    ∀ (ticks transitions : Nat) {limit : Nat} {store : Store} {o : Observation}, Saves store →
      o.OnCourse → o.DueIn (n + 1) → n < limit →
      ∃ (store' : Store) (o' : Observation) (ran : Nat),
        driveFrom Signals.autoComplete true clock ticks transitions limit store o =
            (store', o', .ok ⟨.deposited, ticks + ran, transitions + o.stepsAhead, .deposited⟩) ∧
          ran ≤ n + 1 ∧ (∀ a ∈ o'.artefacts, a.isDeposited = true) ∧
          o'.failureCounts = o.failureCounts := by
  induction n with
  | zero =>
      intro ticks transitions limit store o hsaves h hdue hlimit
      obtain ⟨limit, rfl⟩ := Nat.exists_eq_add_one_of_ne_zero (show limit ≠ 0 by omega)
      obtain ⟨after, made, _, hcount, hdrive⟩ :=
        driveFrom_succ hsaves h hdue clock ticks transitions limit
      have hstage : (o.afterTick Signals.autoComplete (clock ticks)).stage = .deposited :=
        h.afterTick.deposited_of_dueIn_zero (h.dueIn_afterTick (clock ticks) hdue)
      rw [h.afterTick.stepsAhead_of_deposited hstage, Nat.zero_add] at hcount
      refine ⟨after, _, 1, ?_, Nat.le_refl 1, h.afterTick.files_of_deposited hstage,
        h.failureCounts_afterTick Signals.autoComplete (clock ticks)⟩
      rw [hdrive, if_pos hstage, hcount]
  | succ n ih =>
      intro ticks transitions limit store o hsaves h hdue hlimit
      obtain ⟨limit, rfl⟩ := Nat.exists_eq_add_one_of_ne_zero (show limit ≠ 0 by omega)
      obtain ⟨after, made, hafter, hcount, hdrive⟩ :=
        driveFrom_succ hsaves h hdue clock ticks transitions limit
      have hcounts := h.failureCounts_afterTick Signals.autoComplete (clock ticks)
      by_cases hstage : (o.afterTick Signals.autoComplete (clock ticks)).stage = .deposited
      · rw [h.afterTick.stepsAhead_of_deposited hstage, Nat.zero_add] at hcount
        refine ⟨after, _, 1, ?_, by omega, h.afterTick.files_of_deposited hstage, hcounts⟩
        rw [hdrive, if_pos hstage, hcount]
      · have hleft : n < limit := by omega
        obtain ⟨store', o', ran, hrest, hran, hfiles, hsame⟩ :=
          ih (ticks + 1) (transitions + made) hafter h.afterTick (h.dueIn_afterTick (clock ticks) hdue) hleft
        refine ⟨store', o', ran + 1, ?_, by omega, hfiles, hsame.trans hcounts⟩
        rw [hdrive, if_neg hstage, hrest, hcount]
        simp only [Nat.add_assoc, Nat.add_comm 1 ran, Nat.add_comm made]

/-- Driven with simulated jobs and every report in, an observation on course is deposited with all
its files after at most sixteen ticks.  Nothing fails on the way, and every step that lay ahead is
reported once, whatever time each tick has. -/
theorem drive_deposits {o : Observation} {limit : Nat} (hsaves : Saves store)
    (h : o.OnCourse ∨ ∃ m : Manifest, m.build .standard = .ok o) (hlimit : 16 ≤ limit)
    (clock : Nat → Timestamp) :
    ∃ (store' : Store) (o' : Observation) (ticks : Nat),
      drive store o Signals.autoComplete true limit clock =
          (store', o', .ok ⟨.deposited, ticks, o.stepsAhead, .deposited⟩) ∧
        ticks ≤ 16 ∧ (∀ a ∈ o'.artefacts, a.isDeposited = true) ∧
        o'.failureCounts = o.failureCounts := by
  have hcourse : o.OnCourse := by
    rcases h with hcourse | ⟨m, hbuild⟩
    · exact hcourse
    · exact Manifest.onCourse_of_build hbuild
  obtain ⟨store', o', ticks, hdrive, hticks, hrest⟩ :=
    driveFrom_deposits clock 15 0 0 hsaves hcourse hcourse.dueIn_sixteen hlimit
  refine ⟨store', o', ticks, ?_, hticks, hrest⟩
  rw [drive, hdrive, Nat.zero_add, Nat.zero_add]

/-- A catalogue, a cube, and a spectrum that is packed, driven from their manifest on with a clock
that goes on by a minute for each tick. -/
theorem drive_deposits_mixed_manifest :
    ∃ (o o' : Observation) (store' : Repository) (ticks : Nat),
      drive (Ascending.empty : Repository) o Signals.autoComplete true 16
          (fun tick => Timestamp.ofUnixSeconds (60 * tick)) =
          (store', o', .ok ⟨.deposited, ticks, 31, .deposited⟩) ∧
        o.artefacts.length = 4 ∧ ticks ≤ 16 ∧ ∀ a ∈ o'.artefacts, a.isDeposited = true := by
  let m : Manifest :=
    { sbid := 7
      entries := [⟨.catalogue, "c", none⟩, ⟨.spectrum, "s", some "e"⟩,
        ⟨.encapsulationFile, "e", none⟩, ⟨.imageCube, "i", none⟩] }
  have hbuilt : (m.build .standard).toOption.map (fun o => (o.stepsAhead, o.artefacts.length)) =
      some (31, 4) := by
    decide +kernel
  cases hbuild : m.build .standard with
  | error e =>
      rw [hbuild] at hbuilt
      cases hbuilt
  | ok o =>
      rw [hbuild] at hbuilt
      obtain ⟨hsteps, hlength⟩ := Prod.mk.inj (Option.some.inj hbuilt)
      have hsaves : Saves (Ascending.empty : Repository) := fun _ _ => rfl
      obtain ⟨store', o', ticks, hdrive, hticks, hfiles, _⟩ :=
        drive_deposits hsaves (Or.inr ⟨m, hbuild⟩) (Nat.le_refl 16)
          fun tick => Timestamp.ofUnixSeconds (60 * tick)
      rw [hsteps] at hdrive
      exact ⟨o, o', store', ticks, hdrive, hlength, hticks, hfiles⟩

end Completion

end ArchiveDeposit

import ArchiveDeposit.Proofs.WellFormed

/-!
# Steps that lie ahead

Steps of the lifecycle, the deposit of packed members and simulated jobs have in common that they
fail nothing, count no failure, and take steps off those that lie ahead.  How far an entity is that
has not failed can then be told from this number alone: what it has reached, and whether it is
deposited.

**Results.**
* `DepositState.hasReached_iff_ahead`: a stage is reached when no more steps lie ahead than from it.
* `Artefact.ahead_progress_of_permits`: a file whose step is permitted has one step less ahead.
* `Observation.advances_fileStep`: what a call of progress does to a file.
-/

namespace ArchiveDeposit

section Advance

namespace Lifecycle

theorem ahead_eq {l : Lifecycle} {s : Stage} (h : l.isOnLine s = true) :
    l.ahead s = l.steps.length - l.place s ∧ l.place s ≤ l.steps.length := by
  have hlt := (List.getElem?_eq_some_iff.mp (getElem?_place h)).1
  simp only [sequence, List.length_cons, List.length_map] at hlt
  refine ⟨?_, by omega⟩
  rw [ahead, position?_of_isOnLine h]
  rfl

/-- A stage is reached when no more steps lie ahead than from it. -/
theorem reaches_iff_ahead {l : Lifecycle} {s t : Stage} (hs : l.isOnLine s = true)
    (ht : l.isOnLine t = true) : l.reaches s t = true ↔ l.ahead s ≤ l.ahead t := by
  obtain ⟨hsAhead, hsPlace⟩ := ahead_eq hs
  obtain ⟨htAhead, htPlace⟩ := ahead_eq ht
  rw [reaches_iff, hsAhead, htAhead]
  constructor
  · rintro ⟨_, _, hle⟩
    omega
  · intro hle
    exact ⟨hs, ht, by omega⟩

theorem ahead_le (l : Lifecycle) (s : Stage) : l.ahead s ≤ l.steps.length := by
  unfold ahead
  cases l.position? s with
  | none => exact Nat.zero_le _
  | some n => exact Nat.sub_le _ n

theorem eq_initial_of_ahead {l : Lifecycle} {s : Stage} (h : l.ahead s = l.steps.length) :
    s = l.initial := by
  revert h
  cases l <;> cases s <;> decide

theorem stepFrom?_initial (l : Lifecycle) :
    ∃ step, l.stepFrom? l.initial = some step ∧ step.gate = .immediate ∧
      step.awaitsSignal = false := by
  cases l <;> exact ⟨_, rfl, rfl, rfl⟩

end Lifecycle

theorem DepositState.hasReached_iff_ahead {s : DepositState} (h : s.isFailed = false)
    {stage : Stage} (hstage : s.lifecycle.isOnLine stage = true) :
    s.hasReached stage = true ↔ s.lifecycle.ahead s.stage ≤ s.lifecycle.ahead stage := by
  rw [hasReached_eq]
  exact Lifecycle.reaches_iff_ahead (isOnLine h) hstage

theorem Surroundings.permits_autoComplete {around : Surroundings}
    (h : around.signals = Signals.autoComplete) (step : Step) (owner : Owner) :
    around.permits step owner = around.opens step.gate := by
  simp [permits, h, Signals.autoComplete]

namespace DepositRecord

/-- The same record, or one further on, with no failure between them. -/
structure Advances (r s : DepositRecord) : Prop where
  lifecycle : s.state.lifecycle = r.state.lifecycle
  isFailed : s.isFailed = r.isFailed
  failureCount : s.failureCount = r.failureCount
  ahead : s = r ∨ s.ahead < r.ahead

namespace Advances

theorem refl (r : DepositRecord) : r.Advances r := ⟨rfl, rfl, rfl, Or.inl rfl⟩

theorem ahead_le {r s : DepositRecord} (h : r.Advances s) : s.ahead ≤ r.ahead := by
  rcases h.ahead with rfl | hlt
  · exact Nat.le_refl _
  · exact Nat.le_of_lt hlt

theorem trans {r s t : DepositRecord} (hrs : r.Advances s) (hst : s.Advances t) :
    r.Advances t where
  lifecycle := hst.lifecycle.trans hrs.lifecycle
  isFailed := hst.isFailed.trans hrs.isFailed
  failureCount := hst.failureCount.trans hrs.failureCount
  ahead := by
    rcases hrs.ahead with rfl | hlt
    · exact hst.ahead
    · exact Or.inr (Nat.lt_of_le_of_lt hst.ahead_le hlt)

end Advances

variable {r : DepositRecord}

/-- Going to the stage after the present one. -/
theorem advances_replace_target {step : Step} {next : DepositState}
    (hstep : r.state.lifecycle.stepFrom? r.state.stage = some step)
    (hl : next.lifecycle = r.state.lifecycle) (hstage : next.stage = step.target)
    (now : Timestamp) : r.Advances (r.replace next now).1 := by
  obtain ⟨hs, ht, _⟩ := Lifecycle.place_stepFrom? hstep
  have hnot : r.isFailed = false := Lifecycle.isFailure_of_isOnLine hs
  have hnext : next.isFailed = false := by
    rw [DepositState.isFailed, hstage]
    exact Lifecycle.isFailure_of_isOnLine ht
  refine ⟨replace_lifecycle hl now, ?_, failureCount_replace hnext now, Or.inr ?_⟩
  · rw [hnot, isFailed, DepositState.isFailed, stage_replace]
    exact hnext
  · have hahead := Lifecycle.ahead_stepFrom? hstep
    rw [ahead, ahead, replace_lifecycle hl, stage_replace, hstage]
    omega

theorem advances_progress (r : DepositRecord) (around : Surroundings) (now : Timestamp) :
    r.Advances (r.replace (r.state.progress around) now).1 := by
  rcases DepositState.progress_cases r.state around with heq | ⟨step, hstep, _, hstage⟩
  · rw [heq, replace_of_stage_eq rfl]
    exact Advances.refl r
  · exact advances_replace_target hstep (by simp) hstage now

theorem isDeposited_iff_ahead (h : r.isFailed = false) :
    r.state.isDeposited = true ↔ r.ahead = 0 := by
  have hzero := Lifecycle.ahead_eq_zero_iff (DepositState.isOnLine h)
  rw [DepositState.isDeposited, beq_iff_eq]
  exact hzero.symm

/-- A record whose step is permitted has one step less ahead. -/
theorem ahead_progress_of_permits {around : Surroundings} (h : r.isFailed = false)
    (hpermit : ∀ step, r.state.lifecycle.stepFrom? r.state.stage = some step →
      around.permits step r.state.owner = true) (now : Timestamp) :
    (r.replace (r.state.progress around) now).1.ahead = r.ahead - 1 := by
  have hon : r.state.lifecycle.isOnLine r.state.stage = true := DepositState.isOnLine h
  by_cases hdeposited : r.state.stage = .deposited
  · have hzero : r.ahead = 0 := (Lifecycle.ahead_eq_zero_iff hon).mpr hdeposited
    have hle := (r.advances_progress around now).ahead_le
    omega
  · obtain ⟨step, hstep⟩ := Lifecycle.stepFrom?_isSome hon hdeposited
    have hstage := DepositState.stage_progress hstep (hpermit step hstep)
    have hahead := Lifecycle.ahead_stepFrom? hstep
    rw [ahead, ahead, replace_lifecycle (by simp), stage_replace, hstage]
    omega

end DepositRecord

namespace Artefact

/-- The number of steps from the present stage of the file to its deposit. -/
def ahead (a : Artefact) : Nat := a.record.ahead

theorem isDeposited_iff_ahead {a : Artefact} (h : a.isFailed = false) :
    a.isDeposited = true ↔ a.ahead = 0 :=
  DepositRecord.isDeposited_iff_ahead (r := a.record) h

/-- A file whose step is permitted has one step less ahead. -/
theorem ahead_progress_of_permits {a : Artefact} {around : Surroundings} (h : a.isFailed = false)
    (hpermit : ∀ step, a.state.lifecycle.stepFrom? a.stage = some step →
      around.permits step a.state.owner = true) (now : Timestamp) :
    (a.progress around now).1.ahead = a.ahead - 1 :=
  DepositRecord.ahead_progress_of_permits (r := a.record) h hpermit now

theorem advances_depositPacked (a : Artefact) (now : Timestamp) :
    a.record.Advances (a.depositPacked now).1.record := by
  rw [depositPacked_eq]
  split
  · next hstage =>
      exact DepositRecord.advances_replace_target (stepFrom?_of_stage_encapsulated hstage)
        (by rfl) (by rfl) now
  · exact DepositRecord.Advances.refl _

theorem advances_packed {a : Artefact} (h : a.isPackable = true) (now : Timestamp) :
    a.record.Advances (a.packed now).record := by
  have hstep := stepFrom?_of_isPackable h
  rw [packed, dif_pos (Lifecycle.accepts_target hstep)]
  exact DepositRecord.advances_replace_target hstep (by rfl) (by rfl) now

theorem advances_afterJobs (a : Artefact) (now : Timestamp) :
    a.record.Advances (a.afterJobs now).record := by
  unfold afterJobs
  split
  · next hpack => exact advances_packed hpack now
  · exact DepositRecord.Advances.refl _

theorem isDeposited_of_advances {a b : Artefact} (h : a.record.Advances b.record)
    (hnot : a.isFailed = false) (hdeposited : a.isDeposited = true) : b.isDeposited = true := by
  have hnotAfter : b.isFailed = false := h.isFailed.trans hnot
  have hzero := (isDeposited_iff_ahead hnot).mp hdeposited
  have hle : b.ahead ≤ a.ahead := h.ahead_le
  rw [isDeposited_iff_ahead hnotAfter]
  omega

end Artefact

namespace Observation

open Encapsulation

theorem advances_childStep (artefacts : List Artefact) (inScope : Artefact → Bool)
    (signals : Signals) (now : Timestamp) (a : Artefact) :
    a.record.Advances (childStep artefacts inScope signals now a).record := by
  unfold childStep
  split
  · exact a.record.advances_progress _ now
  · exact DepositRecord.Advances.refl _

theorem advances_settled (artefacts : List Artefact) (signals : Signals) (now : Timestamp)
    (a : Artefact) : a.record.Advances (settled artefacts signals now a).record := by
  unfold settled settledBy
  split
  · split
    · exact a.record.advances_progress _ now
    · exact DepositRecord.Advances.refl _
  · split
    · exact a.advances_depositPacked now
    · exact DepositRecord.Advances.refl _

/-- What a call of progress does to a file besides the file's own step. -/
theorem advances_fileStep_of_childStep {stage : Stage} {inScope : Artefact → Bool}
    (hscope : inScope? stage = some inScope) (artefacts : List Artefact) (signals : Signals)
    (now : Timestamp) (a : Artefact) :
    (childStep artefacts inScope signals now a).record.Advances
      (fileStep stage artefacts signals now a).record := by
  simp only [fileStep, hscope]
  split
  · exact advances_settled ..
  · exact DepositRecord.Advances.refl _

theorem advances_fileStep (stage : Stage) (artefacts : List Artefact) (signals : Signals)
    (now : Timestamp) (a : Artefact) :
    a.record.Advances (fileStep stage artefacts signals now a).record := by
  cases hscope : inScope? stage with
  | none =>
      simp only [fileStep, hscope]
      exact DepositRecord.Advances.refl _
  | some inScope =>
      exact (advances_childStep artefacts inScope signals now a).trans
        (advances_fileStep_of_childStep hscope artefacts signals now a)

end Observation

end Advance

end ArchiveDeposit

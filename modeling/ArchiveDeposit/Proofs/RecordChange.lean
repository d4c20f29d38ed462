import ArchiveDeposit.DepositRecord
import ArchiveDeposit.Proofs.Place

/-!
# Changes of deposit records

Every change of a record puts another state of the same owner on the same lifecycle in place of the
present one.  Seen through failures, at the effective stage, such a change stays where it is or goes
forward: a failure leaves the effective stage alone, and a recovery goes back to it.

**Results.**
* `effectiveStage_replace`: the effective stage after a change.
* `DepositRecord.Continues`: what every change keeps, with one lemma for each way to change a
  record.
* `ahead_progress`: a step of the lifecycle is reported once and takes one step off those ahead.
-/

namespace ArchiveDeposit

section RecordChange

/-- What is given by a function of a result comes from a result. -/
theorem eq_ok_of_map {ε α β : Type} {result : Except ε α} {f : α → β} {b : β}
    (h : result.map f = .ok b) : ∃ a, result = .ok a ∧ f a = b := by
  cases result with
  | error e => cases h
  | ok a => exact ⟨a, rfl, Except.ok.inj h⟩

namespace DepositRecord

/-- A checkpoint is kept exactly while the owner is failed, and the effective stage stands on the
line. -/
structure Sound (r : DepositRecord) : Prop where
  checkpoint : r.checkpoint.isSome = r.isFailed
  onLine : r.state.lifecycle.isOnLine r.effectiveStage = true

/-- The place of the effective stage. -/
def place (r : DepositRecord) : Nat := r.state.lifecycle.place r.effectiveStage

/-- Whether the effective stage stands at or after a stage. -/
def hasReached (r : DepositRecord) (stage : Stage) : Bool :=
  r.state.lifecycle.reaches r.effectiveStage stage

/-- The number of steps from the present stage to the end of the line. -/
def ahead (r : DepositRecord) : Nat := r.state.lifecycle.ahead r.state.stage

theorem effectiveStage_of_not_failed {r : DepositRecord} (h : r.isFailed = false) :
    r.effectiveStage = r.state.stage := by
  simp [effectiveStage, h, stage]

theorem effectiveStage_of_stage_deposited {r : DepositRecord} (h : r.state.stage = .deposited) :
    r.effectiveStage = .deposited := by
  have hnot : r.isFailed = false := by
    rw [isFailed, DepositState.isFailed, h]
    rfl
  rw [effectiveStage_of_not_failed hnot, h]

theorem hasReached_of_state {r : DepositRecord} {stage : Stage}
    (h : r.state.hasReached stage = true) : r.hasReached stage = true := by
  have hnot : r.isFailed = false := DepositState.isFailed_of_hasReached h
  rw [hasReached, effectiveStage_of_not_failed hnot]
  exact h

theorem hasReached_deposited_iff {r : DepositRecord} :
    r.hasReached .deposited = true ↔ r.effectiveStage = .deposited :=
  Lifecycle.reaches_deposited_iff

theorem hasReached_trans {r : DepositRecord} {s t : Stage} (hs : r.hasReached s = true)
    (ht : r.state.lifecycle.reaches s t = true) : r.hasReached t = true :=
  Lifecycle.reaches_trans hs ht

theorem sound_new (l : Lifecycle) (owner : Owner) : (new (.initial l owner)).Sound := by
  have hnot : (new (.initial l owner)).isFailed = false :=
    Lifecycle.isFailure_of_isOnLine l.isOnLine_initial
  refine ⟨hnot.symm, ?_⟩
  rw [effectiveStage_of_not_failed hnot]
  exact l.isOnLine_initial

variable {r : DepositRecord} {next : DepositState}

theorem replace_of_stage_eq (h : next.stage = r.state.stage) (now : Timestamp) :
    r.replace next now = (r, none) := by
  simp [replace, h]

/-- A state in another stage is put in place, counted if it is a failure, and reported. -/
theorem replace_of_stage_ne (h : next.stage ≠ r.state.stage) (now : Timestamp) :
    r.replace next now =
      (⟨next, if next.isFailed then r.failureCount + 1 else r.failureCount,
        if next.isFailed then (if r.isFailed then r.checkpoint else some r.state.stage)
        else if r.isFailed then none else r.checkpoint⟩,
      some ⟨next.owner, r.state.stage, next.stage, now⟩) := by
  have hne : r.state.stage ≠ next.stage := fun heq => h heq.symm
  simp only [replace, hne, if_false]
  rfl

/-- After a change the record is in the stage of the new state. -/
@[simp] theorem stage_replace (r : DepositRecord) (next : DepositState) (now : Timestamp) :
    (r.replace next now).1.state.stage = next.stage := by
  by_cases hsame : next.stage = r.state.stage
  · rw [replace_of_stage_eq hsame, hsame]
  · rw [replace_of_stage_ne hsame]

/-- Nothing is reported exactly when the stage stays the same. -/
theorem replace_snd_eq_none_iff {now : Timestamp} :
    (r.replace next now).2 = none ↔ next.stage = r.state.stage := by
  by_cases hsame : next.stage = r.state.stage
  · simp [replace_of_stage_eq hsame, hsame]
  · simp [replace_of_stage_ne hsame, hsame]

/-- A change of which nothing is reported leaves the record as it is. -/
theorem replace_fst_of_snd_eq_none {now : Timestamp} (h : (r.replace next now).2 = none) :
    (r.replace next now).1 = r := by
  rw [replace_of_stage_eq (replace_snd_eq_none_iff.mp h)]

theorem replace_lifecycle (h : next.lifecycle = r.state.lifecycle) (now : Timestamp) :
    (r.replace next now).1.state.lifecycle = r.state.lifecycle := by
  by_cases hsame : next.stage = r.state.stage
  · rw [replace_of_stage_eq hsame]
  · rw [replace_of_stage_ne hsame, h]

theorem replace_owner (h : next.owner = r.state.owner) (now : Timestamp) :
    (r.replace next now).1.state.owner = r.state.owner := by
  by_cases hsame : next.stage = r.state.stage
  · rw [replace_of_stage_eq hsame]
  · rw [replace_of_stage_ne hsame, h]

theorem failureCount_replace (h : next.isFailed = false) (now : Timestamp) :
    (r.replace next now).1.failureCount = r.failureCount := by
  by_cases hsame : next.stage = r.state.stage
  · rw [replace_of_stage_eq hsame]
  · simp [replace_of_stage_ne hsame, h]

/-- A failure leaves the effective stage as it was; any other state gives its own stage. -/
theorem effectiveStage_replace (h : next.lifecycle = r.state.lifecycle) (now : Timestamp) :
    (r.replace next now).1.effectiveStage =
      if next.isFailed then r.effectiveStage else next.stage := by
  by_cases hsame : next.stage = r.state.stage
  · have hclass : next.isFailed = r.isFailed := congrArg Stage.isFailure hsame
    rw [replace_of_stage_eq hsame, hclass, hsame]
    cases hfail : r.isFailed with
    | false => rw [effectiveStage_of_not_failed hfail]; rfl
    | true => rfl
  · rw [replace_of_stage_ne hsame]
    cases hfail : next.isFailed with
    | false => exact effectiveStage_of_not_failed hfail
    | true =>
        have hnow : ∀ count checkpoint,
            (⟨next, count, checkpoint⟩ : DepositRecord).isFailed = true :=
          fun _ _ => hfail
        cases hold : r.isFailed with
        | false => simp [effectiveStage, hnow, recoveryStage, hold, stage]
        | true => simp [effectiveStage, hnow, recoveryStage, hold, h]

theorem Sound.replace (hr : r.Sound) (h : next.lifecycle = r.state.lifecycle) (now : Timestamp) :
    (r.replace next now).1.Sound := by
  constructor
  · by_cases hsame : next.stage = r.state.stage
    · rw [replace_of_stage_eq hsame]
      exact hr.checkpoint
    · have hkept := hr.checkpoint
      rw [replace_of_stage_ne hsame]
      cases hfail : next.isFailed with
      | false =>
          have hnow : ∀ count checkpoint,
              (⟨next, count, checkpoint⟩ : DepositRecord).isFailed = false := fun _ _ => hfail
          cases hold : r.isFailed with
          | false => simpa [hnow, hold] using hkept
          | true => simp [hnow]
      | true =>
          have hnow : ∀ count checkpoint,
              (⟨next, count, checkpoint⟩ : DepositRecord).isFailed = true := fun _ _ => hfail
          cases hold : r.isFailed with
          | false => simp [hnow]
          | true => simpa [hnow, hold] using hkept
  · rw [replace_lifecycle h, effectiveStage_replace h]
    by_cases hfail : next.isFailed = true
    · simpa [hfail] using hr.onLine
    · have hon := DepositState.isOnLine (s := next) (by simpa using hfail)
      simpa [hfail, h] using hon

/-- The same owner on the same lifecycle, its effective stage where it was or further on. -/
structure Continues (r s : DepositRecord) : Prop where
  lifecycle : s.state.lifecycle = r.state.lifecycle
  owner : s.state.owner = r.state.owner
  sound : r.Sound → s.Sound
  place : r.Sound → r.place ≤ s.place

namespace Continues

theorem refl (r : DepositRecord) : r.Continues r := ⟨rfl, rfl, id, fun _ => Nat.le_refl _⟩

theorem trans {r s t : DepositRecord} (hrs : r.Continues s) (hst : s.Continues t) :
    r.Continues t where
  lifecycle := hst.lifecycle.trans hrs.lifecycle
  owner := hst.owner.trans hrs.owner
  sound hr := hst.sound (hrs.sound hr)
  place hr := Nat.le_trans (hrs.place hr) (hst.place (hrs.sound hr))

theorem hasReached {r s : DepositRecord} (h : r.Continues s) (hr : r.Sound) {stage : Stage}
    (hreached : r.hasReached stage = true) : s.hasReached stage = true := by
  have hon := (h.sound hr).onLine
  have hle := h.place hr
  unfold DepositRecord.place at hle
  unfold DepositRecord.hasReached at hreached ⊢
  rw [h.lifecycle] at hon hle ⊢
  exact Lifecycle.reaches_of_place_le hon hle hreached

theorem deposited {r s : DepositRecord} (h : r.Continues s) (hr : r.Sound)
    (hdep : r.effectiveStage = .deposited) : s.effectiveStage = .deposited :=
  hasReached_deposited_iff.mp (h.hasReached hr (hasReached_deposited_iff.mpr hdep))

/-- A change to a failure, or to a stage at or after the effective one. -/
theorem replace (hl : next.lifecycle = r.state.lifecycle) (ho : next.owner = r.state.owner)
    (hnext : next.isFailed = true ∨
      (r.Sound → r.place ≤ r.state.lifecycle.place next.stage)) (now : Timestamp) :
    r.Continues (r.replace next now).1 where
  lifecycle := replace_lifecycle hl now
  owner := replace_owner ho now
  sound hr := hr.replace hl now
  place hr := by
    have hafter : (r.replace next now).1.place =
        r.state.lifecycle.place (if next.isFailed then r.effectiveStage else next.stage) := by
      rw [DepositRecord.place, replace_lifecycle hl, effectiveStage_replace hl]
    rw [hafter]
    by_cases hfail : next.isFailed = true
    · simp [hfail, DepositRecord.place]
    · rcases hnext with hyes | hle
      · exact absurd hyes hfail
      · simpa [hfail] using hle hr

end Continues

/-- A change that leaves the effective stage where it is, as failures and recoveries do. -/
structure Stays (r s : DepositRecord) : Prop where
  continues : r.Continues s
  effectiveStage : r.Sound → s.effectiveStage = r.effectiveStage

theorem Stays.refl (r : DepositRecord) : r.Stays r := ⟨Continues.refl r, fun _ => rfl⟩

theorem Stays.hasReached {r s : DepositRecord} (h : r.Stays s) (hr : r.Sound) (stage : Stage) :
    s.hasReached stage = r.hasReached stage := by
  rw [DepositRecord.hasReached, DepositRecord.hasReached, h.continues.lifecycle,
    h.effectiveStage hr]

/-- A failure leaves the effective stage where it is. -/
theorem Stays.replace (hl : next.lifecycle = r.state.lifecycle) (ho : next.owner = r.state.owner)
    (hfail : next.isFailed = true) (now : Timestamp) : r.Stays (r.replace next now).1 where
  continues := Continues.replace hl ho (Or.inl hfail) now
  effectiveStage _ := by
    rw [effectiveStage_replace hl]
    simp [hfail]

end DepositRecord

namespace DepositState

/-- A step leads to the stage after the present one if the surroundings permit it; otherwise the
state stays as it is. -/
theorem progress_cases (s : DepositState) (around : Surroundings) :
    s.progress around = s ∨
      ∃ step, s.lifecycle.stepFrom? s.stage = some step ∧
        around.permits step s.owner = true ∧ (s.progress around).stage = step.target := by
  unfold progress
  split
  · next step hstep =>
      split
      · next hpermit => exact Or.inr ⟨step, hstep, hpermit, rfl⟩
      · exact Or.inl rfl
  · exact Or.inl rfl

/-- The stage after the present one is taken when the surroundings permit the step. -/
theorem stage_progress {s : DepositState} {around : Surroundings} {step : Step}
    (hstep : s.lifecycle.stepFrom? s.stage = some step)
    (hpermit : around.permits step s.owner = true) : (s.progress around).stage = step.target := by
  unfold progress
  split
  · next step' hstep' =>
      rw [hstep] at hstep'
      cases hstep'
      simp [hpermit]
  · next hnone =>
      rw [hstep] at hnone
      cases hnone

/-- Where equally much is permitted around it, a state takes the same step. -/
theorem progress_congr (s : DepositState) {around around' : Surroundings}
    (h : ∀ step, around'.permits step s.owner = around.permits step s.owner) :
    s.progress around' = s.progress around := by
  unfold progress
  split
  · next step _ => rw [h step]
  · rfl

/-- A state that is rebound differs in its stage only. -/
theorem rebind_spec {s next : DepositState} {stage : Stage} (h : s.rebind stage = .ok next) :
    next.lifecycle = s.lifecycle ∧ next.owner = s.owner ∧ next.stage = stage := by
  unfold rebind ofStage at h
  split at h
  · cases h
    exact ⟨rfl, rfl, rfl⟩
  · cases h

theorem isFailed_progress (s : DepositState) (around : Surroundings) :
    (s.progress around).isFailed = s.isFailed := by
  rcases progress_cases s around with heq | ⟨step, hstep, _, hstage⟩
  · rw [heq]
  · obtain ⟨hs, ht, _⟩ := Lifecycle.place_stepFrom? hstep
    unfold isFailed
    rw [hstage, Lifecycle.isFailure_of_isOnLine hs, Lifecycle.isFailure_of_isOnLine ht]

end DepositState

namespace DepositRecord

variable {r : DepositRecord}

theorem continues_progress (r : DepositRecord) (around : Surroundings) (now : Timestamp) :
    r.Continues (r.replace (r.state.progress around) now).1 := by
  apply Continues.replace (by simp) (by simp)
  rcases DepositState.progress_cases r.state around with heq | ⟨step, hstep, _, hstage⟩
  · rw [heq]
    by_cases hfail : r.state.isFailed = true
    · exact Or.inl hfail
    · have hnot : r.isFailed = false := by simpa [isFailed] using hfail
      exact Or.inr fun _ => Nat.le_of_eq (by rw [place, effectiveStage_of_not_failed hnot])
  · obtain ⟨hon, _, hplace⟩ := Lifecycle.place_stepFrom? hstep
    have hnot : r.isFailed = false := Lifecycle.isFailure_of_isOnLine hon
    exact Or.inr fun _ => by
      rw [place, effectiveStage_of_not_failed hnot, hstage]
      omega

/-- A record stays as it is, or takes the step that the surroundings permit. -/
theorem replace_progress_cases (r : DepositRecord) (around : Surroundings) (now : Timestamp) :
    (r.replace (r.state.progress around) now).1 = r ∨
      ∃ step, r.state.lifecycle.stepFrom? r.state.stage = some step ∧
        around.permits step r.state.owner = true ∧ r.effectiveStage = step.source ∧
          (r.replace (r.state.progress around) now).1.effectiveStage = step.target := by
  rcases DepositState.progress_cases r.state around with heq | ⟨step, hstep, hpermit, hstage⟩
  · rw [heq, replace_of_stage_eq rfl]
    exact Or.inl rfl
  · obtain ⟨hs, ht, _⟩ := Lifecycle.place_stepFrom? hstep
    have hnot : r.isFailed = false := Lifecycle.isFailure_of_isOnLine hs
    have hnext : (r.state.progress around).isFailed = false := by
      rw [DepositState.isFailed_progress]
      exact hnot
    refine Or.inr ⟨step, hstep, hpermit, ?_, ?_⟩
    · rw [effectiveStage_of_not_failed hnot, Lifecycle.source_of_stepFrom? hstep]
    · rw [effectiveStage_replace (by simp), hnext, hstage]
      rfl

theorem stays_failed (r : DepositRecord) (now : Timestamp) :
    r.Stays (r.replace r.state.failed now).1 :=
  Stays.replace (by rfl) (by rfl) (by rfl) now

/-- What a job may report: the present stage, a failure, or a later stage of an owner that is not
failed. -/
theorem advanceTo_cases {s next : DepositState} {stage : Stage}
    (h : s.advanceTo stage = .ok next) :
    next.lifecycle = s.lifecycle ∧ next.owner = s.owner ∧ next.stage = stage ∧
      (stage = s.stage ∨ stage.isFailure = true ∨
        (s.isFailed = false ∧ s.lifecycle.place s.stage < s.lifecycle.place stage)) := by
  unfold DepositState.advanceTo DepositState.rebind DepositState.ofStage at h
  by_cases haccept : s.lifecycle.accepts stage = true
  · simp only [haccept, dite_true] at h
    split at h
    · next hsame =>
        cases h
        rcases hsame with hsame | hfail
        · exact ⟨rfl, rfl, rfl, Or.inl hsame⟩
        · exact ⟨rfl, rfl, rfl, Or.inr (Or.inl hfail)⟩
    · next hdiff =>
        split at h
        · cases h
        · next hahead =>
            cases h
            simp only [not_or, Bool.not_eq_true] at hdiff
            simp only [Bool.or_eq_true, not_or, Bool.not_eq_true] at hahead
            obtain ⟨hnot, hbefore⟩ := hahead
            have hon := DepositState.isOnLine hnot
            have honStage := Lifecycle.isOnLine_of_accepts haccept hdiff.2
            rw [DepositState.hasReached_eq] at hbefore
            have hlt : ¬ s.lifecycle.place stage ≤ s.lifecycle.place s.stage := by
              intro hle
              rw [Lifecycle.reaches_iff.mpr ⟨hon, honStage, hle⟩] at hbefore
              cases hbefore
            exact ⟨rfl, rfl, rfl, Or.inr (Or.inr ⟨hnot, by omega⟩)⟩
  · simp [haccept] at h

/-- A job may always report the stage after the present one, whatever the gate of the step. -/
theorem advanceTo_target {s : DepositState} {step : Step}
    (h : s.lifecycle.stepFrom? s.stage = some step) :
    s.advanceTo step.target =
      .ok ⟨step.target, s.lifecycle, s.owner, Lifecycle.accepts_target h⟩ := by
  obtain ⟨hs, ht, hplace⟩ := Lifecycle.place_stepFrom? h
  have hne : ¬ step.target = s.stage := fun heq => Lifecycle.ne_target_of_stepFrom? h heq.symm
  have hnot : s.isFailed = false := Lifecycle.isFailure_of_isOnLine hs
  have hnotTarget : ¬ step.target.isFailure = true := by
    rw [Lifecycle.isFailure_of_isOnLine ht]
    decide
  have hbefore : ¬ s.hasReached step.target = true := by
    rw [DepositState.hasReached_eq, Lifecycle.reaches_iff]
    rintro ⟨_, _, hle⟩
    omega
  simp [DepositState.advanceTo, DepositState.rebind, DepositState.ofStage,
    Lifecycle.accepts_target h, hne, hnotTarget, hnot, hbefore]

theorem continues_replace_advanceTo {next : DepositState} {stage : Stage}
    (h : r.state.advanceTo stage = .ok next) (now : Timestamp) :
    r.Continues (r.replace next now).1 := by
  obtain ⟨hl, ho, hstage, hcases⟩ := advanceTo_cases h
  apply Continues.replace hl ho
  by_cases hfail : next.isFailed = true
  · exact Or.inl hfail
  · right
    intro _
    have hnext : stage.isFailure = false := by
      simpa [DepositState.isFailed, hstage] using hfail
    rcases hcases with hsame | hfailed | ⟨hnot, hlt⟩
    · have hnot : r.isFailed = false := by
        simpa [isFailed, DepositState.isFailed, ← hsame] using hnext
      exact Nat.le_of_eq (by rw [place, effectiveStage_of_not_failed hnot, hstage, hsame])
    · rw [hnext] at hfailed
      cases hfailed
    · rw [place, effectiveStage_of_not_failed hnot, hstage]
      exact Nat.le_of_lt hlt

/-- A job that reports a failure leaves the effective stage where it is. -/
theorem stays_advance {stage : Stage} (hfail : stage.isFailure = true) {now : Timestamp}
    {change : DepositRecord × Option Transition} (h : r.advance stage now = .ok change) :
    r.Stays change.1 := by
  obtain ⟨next, hnext, rfl⟩ := eq_ok_of_map h
  obtain ⟨hl, ho, hstage, _⟩ := advanceTo_cases hnext
  exact Stays.replace hl ho (by rw [DepositState.isFailed, hstage]; exact hfail) now

theorem continues_advance {stage : Stage} {now : Timestamp}
    {change : DepositRecord × Option Transition} (h : r.advance stage now = .ok change) :
    r.Continues change.1 := by
  obtain ⟨next, hnext, rfl⟩ := eq_ok_of_map h
  exact continues_replace_advanceTo hnext now

/-- After the change that a job reports, the effective stage is the one reported unless that is a
failure. -/
theorem effectiveStage_advance {stage : Stage} {now : Timestamp}
    {change : DepositRecord × Option Transition} (h : r.advance stage now = .ok change) :
    change.1.effectiveStage = if stage.isFailure then r.effectiveStage else stage := by
  obtain ⟨next, hnext, rfl⟩ := eq_ok_of_map h
  obtain ⟨hl, _, rfl, _⟩ := advanceTo_cases hnext
  exact effectiveStage_replace hl now

/-- A sound record of a failed owner is always taken back, to its effective stage. -/
theorem recover_of_isFailed (hr : r.Sound) (hfail : r.isFailed = true) (now : Timestamp) :
    ∃ next : DepositState, r.recover now = .ok (r.replace next now) ∧
      next.lifecycle = r.state.lifecycle ∧ next.owner = r.state.owner ∧
        next.stage = r.effectiveStage ∧ next.isFailed = false := by
  have hstage : r.recoveryStage = r.effectiveStage := by simp [effectiveStage, hfail]
  have hon := hr.onLine
  have haccept := Lifecycle.accepts_of_isOnLine hon
  refine ⟨⟨r.effectiveStage, r.state.lifecycle, r.state.owner, haccept⟩, ?_, rfl, rfl, rfl,
    Lifecycle.isFailure_of_isOnLine hon⟩
  simp only [recover, hfail, if_true, hstage, DepositState.rebind, DepositState.ofStage, haccept,
    dite_true]
  rfl

theorem stays_recover {now : Timestamp} {change : DepositRecord × Option Transition}
    (h : r.recover now = .ok change) : r.Stays change.1 := by
  unfold recover at h
  split at h
  · next hfail =>
      obtain ⟨next, hnext, rfl⟩ := eq_ok_of_map h
      obtain ⟨hl, ho, hstage⟩ := DepositState.rebind_spec hnext
      have hback : next.stage = r.effectiveStage := by
        rw [hstage, effectiveStage, if_pos hfail]
      refine ⟨Continues.replace hl ho (Or.inr fun _ => ?_) now, fun _ => ?_⟩
      · exact Nat.le_of_eq (by rw [place, hback])
      · rw [effectiveStage_replace hl, hback]
        split <;> rfl
  · cases h
    exact Stays.refl r

/-- Going to the stage after the present one is reported once and takes one off the steps that lie
ahead. -/
theorem ahead_replace_target {step : Step} {next : DepositState}
    (hstep : r.state.lifecycle.stepFrom? r.state.stage = some step)
    (hl : next.lifecycle = r.state.lifecycle) (hstage : next.stage = step.target)
    (now : Timestamp) :
    r.ahead = (r.replace next now).1.ahead + (r.replace next now).2.toList.length := by
  have hahead := Lifecycle.ahead_stepFrom? hstep
  have hne : next.stage ≠ r.state.stage := fun heq =>
    Lifecycle.ne_target_of_stepFrom? hstep (heq.symm.trans hstage)
  rw [replace_of_stage_ne hne, ahead, ahead, hl, hstage]
  simpa using hahead

/-- A step of the lifecycle is reported once and takes one off the steps that lie ahead. -/
theorem ahead_progress (r : DepositRecord) (around : Surroundings) (now : Timestamp) :
    r.ahead = (r.replace (r.state.progress around) now).1.ahead +
      (r.replace (r.state.progress around) now).2.toList.length := by
  rcases DepositState.progress_cases r.state around with heq | ⟨step, hstep, _, hstage⟩
  · rw [heq, replace_of_stage_eq rfl]
    rfl
  · exact ahead_replace_target hstep (by simp) hstage now

end DepositRecord

end RecordChange

end ArchiveDeposit

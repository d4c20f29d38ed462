import ArchiveDeposit.Proofs.RecordChange

/-!
# Trails of records

A record changes by putting states in place of its own, and each change that makes a difference is
reported as a transition.  A trail is a number of such changes, one after the other, together with
all that they reported.  In which ways the states were chosen is a parameter: by steps of the
lifecycle, by reports of jobs, or by recoveries.

From what one change does follows what a trail keeps, and how the record can be told from the
transitions alone.

**Results.**
* `Trail.leads`: the transitions lead from the first stage to the last without a gap.
* `Trail.failureCount`: the failures that were counted are those among the transitions.
* `Trail.continues`, `Trail.isFailed`, `Trail.checkpoint`, `Trail.effectiveStage`, `Trail.place`:
  what reports of jobs, recoveries and steps keep.
-/

namespace ArchiveDeposit

section Trail

/-- The transitions lead from one stage to another: each is a change, from where the one before it
led. -/
def Leads : Stage → List Transition → Stage → Prop
  | first, [], last => first = last
  | first, t :: rest, last => t.source = first ∧ t.source ≠ t.target ∧ Leads t.target rest last

theorem Leads.snoc {first last : Stage} {log : List Transition} (h : Leads first log last)
    {t : Transition} (hsource : t.source = last) (hchange : t.source ≠ t.target) :
    Leads first (log ++ [t]) t.target := by
  induction log generalizing first with
  | nil => exact ⟨hsource.trans (Eq.symm h), hchange, rfl⟩
  | cons u rest ih => exact ⟨h.1, h.2.1, ih h.2.2⟩

/-- The number of failures among transitions. -/
def failuresIn (log : List Transition) : Nat := log.countP fun t => t.target.isFailure

@[simp] theorem failuresIn_append (log more : List Transition) :
    failuresIn (log ++ more) = failuresIn log + failuresIn more := List.countP_append

/-- A way to choose the state that takes the place of that of a record. -/
abbrev Way := DepositRecord → DepositState → Prop

namespace Way

/-- Whatever state it is. -/
def any : Way := fun _ _ => True

/-- To the stage after the present one. -/
def step : Way := fun r next =>
  ∃ step, r.state.lifecycle.stepFrom? r.state.stage = some step ∧ next.stage = step.target

/-- To a failure, or forward from a stage that is none. -/
def report : Way := fun r next =>
  next.isFailed = true ∨ r.isFailed = false ∧ r.place ≤ r.state.lifecycle.place next.stage

/-- Back to the stage that the failure came from. -/
def recovery : Way := fun r next => next.stage = r.effectiveStage

theorem report_of_step {r : DepositRecord} {next : DepositState} (h : step r next) :
    report r next := by
  obtain ⟨step, hstep, hstage⟩ := h
  obtain ⟨hon, _, hplace⟩ := Lifecycle.place_stepFrom? hstep
  have hnot : r.isFailed = false := Lifecycle.isFailure_of_isOnLine hon
  refine Or.inr ⟨hnot, ?_⟩
  rw [DepositRecord.place, DepositRecord.effectiveStage_of_not_failed hnot, hstage]
  omega

end Way

namespace DepositRecord

/-- The record that some changes lead to, each made in one of the ways allowed, and all that they
reported. -/
inductive Trail (way : Way) (r : DepositRecord) : List Transition → DepositRecord → Prop
  | refl : Trail way r [] r
  | change {log : List Transition} {s : DepositRecord} {next : DepositState}
      (h : Trail way r log s) (hl : next.lifecycle = s.state.lifecycle)
      (ho : next.owner = s.state.owner) (hway : way s next) (now : Timestamp) :
      Trail way r (log ++ (s.replace next now).2.toList) (s.replace next now).1

variable {way : Way} {r s t : DepositRecord} {next : DepositState} {log more : List Transition}

/-- What a change reports, where it makes a difference. -/
theorem replace_snd_of_stage_ne (h : next.stage ≠ r.state.stage) (now : Timestamp) :
    (r.replace next now).2 = some ⟨next.owner, r.state.stage, next.stage, now⟩ := by
  rw [replace_of_stage_ne h]

@[simp] theorem isFailed_replace (r : DepositRecord) (next : DepositState) (now : Timestamp) :
    (r.replace next now).1.isFailed = next.isFailed :=
  congrArg Stage.isFailure (stage_replace r next now)

namespace Trail

/-- One change. -/
theorem single (hl : next.lifecycle = r.state.lifecycle) (ho : next.owner = r.state.owner)
    (hway : way r next) (now : Timestamp) :
    Trail way r (r.replace next now).2.toList (r.replace next now).1 := by
  have h := Trail.refl.change hl ho hway now
  rwa [List.nil_append] at h

theorem trans (hrs : Trail way r log s) (hst : Trail way s more t) :
    Trail way r (log ++ more) t := by
  induction hst with
  | refl => rwa [List.append_nil]
  | change _ hl ho hway now ih =>
      rw [← List.append_assoc]
      exact ih.change hl ho hway now

theorem mono {other : Way} (h : Trail way r log s)
    (hmono : ∀ r next, way r next → other r next) : Trail other r log s := by
  induction h with
  | refl => exact .refl
  | change _ hl ho hway now ih => exact ih.change hl ho (hmono _ _ hway) now

theorem lifecycle (h : Trail way r log s) : s.state.lifecycle = r.state.lifecycle := by
  induction h with
  | refl => rfl
  | change _ hl _ _ now ih => exact (replace_lifecycle hl now).trans ih

theorem owner (h : Trail way r log s) : s.state.owner = r.state.owner := by
  induction h with
  | refl => rfl
  | change _ _ ho _ now ih => exact (replace_owner ho now).trans ih

/-- Every transition of a trail carries the owner of the record. -/
theorem owner_of_mem (h : Trail way r log s) : ∀ u ∈ log, u.owner = r.state.owner := by
  induction h with
  | refl => exact fun u hu => nomatch hu
  | @change log s next hrs _ ho _ now ih =>
      intro u hu
      rcases List.mem_append.mp hu with hold | hnew
      · exact ih u hold
      · by_cases hsame : next.stage = s.state.stage
        · rw [replace_of_stage_eq hsame] at hnew
          cases hnew
        · rw [replace_snd_of_stage_ne hsame, Option.toList_some, List.mem_singleton] at hnew
          rw [hnew]
          exact ho.trans hrs.owner

/-- The transitions of a trail lead from the first stage to the last. -/
theorem leads (h : Trail way r log s) : Leads r.state.stage log s.state.stage := by
  induction h with
  | refl => rfl
  | @change log s next _ _ _ _ now ih =>
      rw [stage_replace]
      by_cases hsame : next.stage = s.state.stage
      · rw [replace_of_stage_eq hsame, hsame]
        simpa using ih
      · rw [replace_snd_of_stage_ne hsame]
        exact ih.snoc rfl fun heq => hsame heq.symm

/-- A trail of which nothing is reported leaves the record as it is. -/
theorem eq_of_nil (h : Trail way r [] s) : s = r := by
  generalize hlog : ([] : List Transition) = log at h
  induction h with
  | refl => rfl
  | change _ _ _ _ now ih =>
      obtain ⟨hbefore, hlast⟩ := List.append_eq_nil_iff.mp hlog.symm
      rw [replace_fst_of_snd_eq_none (Option.toList_eq_nil_iff.mp hlast)]
      exact ih hbefore.symm

/-- The failures that a trail counts are those among its transitions. -/
theorem failureCount (h : Trail way r log s) :
    s.failureCount = r.failureCount + UInt32.ofNat (failuresIn log) := by
  induction h with
  | refl => simp [failuresIn]
  | @change log s next _ _ _ _ now ih =>
      by_cases hsame : next.stage = s.state.stage
      · rw [replace_of_stage_eq hsame]
        simpa using ih
      · have hone : failuresIn [(⟨next.owner, s.state.stage, next.stage, now⟩ : Transition)] =
            if next.isFailed then 1 else 0 := List.countP_singleton
        rw [replace_of_stage_ne hsame, Option.toList_some, failuresIn_append, hone,
          UInt32.ofNat_add, ← UInt32.add_assoc, ← ih]
        cases next.isFailed <;> simp

/-- Reports of jobs go back with nothing. -/
theorem continues (h : Trail .report r log s) : r.Continues s := by
  induction h with
  | refl => exact Continues.refl r
  | change _ hl ho hway now ih =>
      refine ih.trans (Continues.replace hl ho (hway.imp_right fun hforward _ => ?_) now)
      exact hforward.2

/-- What has failed stays failed whatever jobs report. -/
theorem isFailed (h : Trail .report r log s) (hr : r.isFailed = true) : s.isFailed = true := by
  induction h with
  | refl => exact hr
  | change _ _ _ hway now ih =>
      rw [isFailed_replace]
      rcases hway with hfailed | ⟨hnot, _⟩
      · exact hfailed
      · rw [hnot] at ih
        cases ih

/-- What has failed keeps its checkpoint whatever jobs report. -/
theorem checkpoint (h : Trail .report r log s) (hr : r.isFailed = true) :
    s.checkpoint = r.checkpoint := by
  induction h with
  | refl => rfl
  | @change log s next hrs _ _ hway now ih =>
      have hbefore : s.isFailed = true := hrs.isFailed hr
      have hnext : next.isFailed = true := by
        rcases hway with hfailed | ⟨hnot, _⟩
        · exact hfailed
        · rw [hbefore] at hnot
          cases hnot
      by_cases hsame : next.stage = s.state.stage
      · rw [replace_of_stage_eq hsame]
        exact ih
      · rw [replace_of_stage_ne hsame, hnext, hbefore]
        exact ih

/-- Recoveries leave the effective stage where it is. -/
theorem effectiveStage (h : Trail .recovery r log s) : s.effectiveStage = r.effectiveStage := by
  induction h with
  | refl => rfl
  | @change log s next _ hl _ hway now ih =>
      rw [effectiveStage_replace hl, show next.stage = _ from hway]
      split <;> exact ih

/-- Each step goes one place further. -/
theorem place (h : Trail .step r log s) : s.place = r.place + log.length := by
  induction h with
  | refl => rfl
  | @change log s next _ hl _ hway now ih =>
      obtain ⟨step, hstep, hstage⟩ := hway
      obtain ⟨hs, ht, hplace⟩ := Lifecycle.place_stepFrom? hstep
      have hnot : s.isFailed = false := Lifecycle.isFailure_of_isOnLine hs
      have hnext : next.isFailed = false := by
        rw [DepositState.isFailed, hstage]
        exact Lifecycle.isFailure_of_isOnLine ht
      have hne : next.stage ≠ s.state.stage := fun heq =>
        Lifecycle.ne_target_of_stepFrom? hstep (heq.symm.trans hstage)
      have hbefore : s.place = s.state.lifecycle.place s.state.stage := by
        rw [DepositRecord.place, effectiveStage_of_not_failed hnot]
      have hafter : (s.replace next now).1.place = s.state.lifecycle.place step.target := by
        rw [DepositRecord.place, replace_lifecycle hl, effectiveStage_replace hl, hnext, ← hstage]
        rfl
      rw [hafter, hplace, ← hbefore, ih, replace_snd_of_stage_ne hne, Option.toList_some,
        List.length_append, List.length_singleton, Nat.add_assoc]

end Trail

theorem trail_progress (r : DepositRecord) (around : Surroundings) (now : Timestamp) :
    Trail .step r (r.replace (r.state.progress around) now).2.toList
      (r.replace (r.state.progress around) now).1 := by
  rcases DepositState.progress_cases r.state around with hsame | ⟨step, hstep, _, hstage⟩
  · rw [hsame, replace_of_stage_eq rfl]
    exact .refl
  · exact .single (by simp) (by simp) ⟨step, hstep, hstage⟩ now

theorem trail_failed (r : DepositRecord) (now : Timestamp) :
    Trail .report r (r.replace r.state.failed now).2.toList (r.replace r.state.failed now).1 :=
  .single (by rfl) (by rfl) (Or.inl rfl) now

/-- The stage after the present one, put in place. -/
theorem trail_target {step : Step} (hstep : r.state.lifecycle.stepFrom? r.state.stage = some step)
    (next : DepositState) (hl : next.lifecycle = r.state.lifecycle)
    (ho : next.owner = r.state.owner) (hstage : next.stage = step.target) (now : Timestamp) :
    Trail .step r (r.replace next now).2.toList (r.replace next now).1 :=
  .single hl ho ⟨step, hstep, hstage⟩ now

theorem trail_replace_advanceTo {stage : Stage} (h : r.state.advanceTo stage = .ok next)
    (now : Timestamp) : Trail .report r (r.replace next now).2.toList (r.replace next now).1 := by
  obtain ⟨hl, ho, hstage, hcases⟩ := advanceTo_cases h
  rcases hcases with hsame | hfail | ⟨hnot, hlt⟩
  · rw [replace_of_stage_eq (hstage.trans hsame)]
    exact .refl
  · refine .single hl ho (Or.inl ?_) now
    rw [DepositState.isFailed, hstage]
    exact hfail
  · refine .single hl ho (Or.inr ⟨hnot, ?_⟩) now
    rw [place, effectiveStage_of_not_failed hnot, hstage]
    exact Nat.le_of_lt hlt

theorem trail_advance {stage : Stage} {now : Timestamp}
    {change : DepositRecord × Option Transition} (h : r.advance stage now = .ok change) :
    Trail .report r change.2.toList change.1 := by
  obtain ⟨next, hnext, rfl⟩ := eq_ok_of_map h
  exact trail_replace_advanceTo hnext now

theorem trail_recover {now : Timestamp} {change : DepositRecord × Option Transition}
    (h : r.recover now = .ok change) : Trail .recovery r change.2.toList change.1 := by
  unfold recover at h
  split at h
  · next hfail =>
      obtain ⟨next, hnext, rfl⟩ := eq_ok_of_map h
      obtain ⟨hl, ho, hstage⟩ := DepositState.rebind_spec hnext
      refine .single hl ho ?_ now
      rw [Way.recovery, hstage, effectiveStage, if_pos hfail]
  · cases h
    exact .refl

end DepositRecord

end Trail

end ArchiveDeposit

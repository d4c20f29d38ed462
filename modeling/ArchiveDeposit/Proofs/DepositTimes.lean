import ArchiveDeposit.Proofs.ExactRecovery
import ArchiveDeposit.Proofs.StockedDirectory

/-!
# The times of a deposit

An observation notes when it was started on and when it was deposited.  The times are noted where the
observation steps, be it by itself or because a job reports a stage for it; a recovery notes none.
Nevertheless they agree with where the observation stands: a failure and its recovery leave the
effective stage where it is, and no other change of the observation leads out of a failure.

What one operation may do to the observation itself is said once; what holds of the times in every
run follows from it by induction on the run, the last operation last.  An operation changes the
observation itself at most once, so that one reading of the clock stands for each.

**Results.**
* `Observation.ownChange_perform`: what an operation does to the observation itself.
* `Observation.OwnChange.completed_iff`, `Observation.OwnChange.completed_eq` and
  `Observation.OwnChange.started_iff`: what it does to the times.
* `Observation.noted_performTimed`: the times of a run, in their order.
* `Observation.times_agree`: the times of every run, and the observations that were deposited in a
  range of time.
-/

namespace ArchiveDeposit

section DepositTimes

theorem Timestamp.notAfter_refl (t : Timestamp) : t.notAfter t = true := by
  rw [notAfter, Std.compare_self]
  rfl

/-- Of the stages on the line of observations, only the first is not past it. -/
theorem Lifecycle.place_undeposited_lt_iff {stage : Stage}
    (hon : observation.isOnLine stage = true) :
    observation.place .undeposited < observation.place stage ↔ stage ≠ .undeposited := by
  cases stage <;> first | decide | cases hon

namespace Observation

variable {o o' : Observation} {now : Timestamp}

/-- What an operation does to the observation itself, whatever it does to the files.  It steps, to a
failure or further on if it is not failed, and notes the time; or it stays where it stood. -/
inductive OwnChange (o : Observation) (now : Timestamp) (o' : Observation) : Prop
  | stays (hrecord : o.record.Stays o'.record) (hfail : o'.isFailed = true → o.isFailed = true)
      (hstarted : o'.started = o.started) (hcompleted : o'.completed = o.completed)
  | steps (next : DepositState) (hl : next.lifecycle = o.state.lifecycle)
      (hcont : o.record.Continues o'.record) (hne : next.stage ≠ o.stage)
      (hforth : next.isFailed = true ∨
        o.isFailed = false ∧ o.state.lifecycle.place o.stage < o.state.lifecycle.place next.stage)
      (hrecord : o'.record = (o.record.replace next now).1)
      (hstarted : o'.started = if o.stage = .undeposited then some now else o.started)
      (hcompleted : o'.completed = if next.stage = .deposited then some now else o.completed)

theorem OwnChange.refl (o : Observation) (now : Timestamp) : o.OwnChange now o :=
  .stays (.refl _) id rfl rfl

theorem apply_started (o : Observation) (next : DepositState) (hne : next.stage ≠ o.stage)
    (now : Timestamp) :
    (o.apply next now).1.started = if o.stage = .undeposited then some now else o.started := by
  rw [apply, DepositRecord.replace_of_stage_ne hne]
  rfl

theorem apply_completed (o : Observation) (next : DepositState) (hne : next.stage ≠ o.stage)
    (now : Timestamp) :
    (o.apply next now).1.completed =
      if next.stage = .deposited then some now else o.completed := by
  rw [apply, DepositRecord.replace_of_stage_ne hne]

/-- A state that is put in place of the own one is one step, or none. -/
theorem ownChange_apply (artefacts : List Artefact) {next : DepositState}
    (hl : next.lifecycle = o.state.lifecycle) (ho : next.owner = o.state.owner)
    (hforth : next.stage = o.stage ∨ next.isFailed = true ∨ o.isFailed = false ∧
      o.state.lifecycle.place o.stage < o.state.lifecycle.place next.stage) (now : Timestamp) :
    o.OwnChange now ((o.withArtefacts artefacts).apply next now).1 := by
  by_cases hsame : next.stage = o.stage
  · have hnone : (o.withArtefacts artefacts).apply next now = (o.withArtefacts artefacts, none) := by
      have hreplace : (o.withArtefacts artefacts).record.replace next now = (o.record, none) :=
        DepositRecord.replace_of_stage_eq hsame now
      rw [apply, hreplace]
    rw [hnone]
    exact .stays (.refl _) id rfl rfl
  · have hstep := hforth.resolve_left hsame
    have hcont : o.record.Continues ((o.withArtefacts artefacts).apply next now).1.record := by
      rw [apply_record]
      refine .replace hl ho (hstep.imp_right fun hon _ => ?_) now
      rw [DepositRecord.place, DepositRecord.effectiveStage_of_not_failed hon.1]
      exact Nat.le_of_lt hon.2
    exact .steps next hl hcont hsame hstep (apply_record _ next now)
      (apply_started (o.withArtefacts artefacts) next hsame now)
      (apply_completed (o.withArtefacts artefacts) next hsame now)

theorem ownChange_advance {stage : Stage} {transition : Option Transition}
    (hok : o.advance stage now = .ok (o', transition)) : o.OwnChange now o' := by
  obtain ⟨next, hnext, hafter⟩ := eq_ok_of_map hok
  obtain ⟨hl, ho, rfl, hforth⟩ := DepositRecord.advanceTo_cases hnext
  have hafter : o' = (o.apply next now).1 := by rw [hafter]
  rw [hafter]
  exact ownChange_apply o.artefacts hl ho hforth now

theorem ownChange_progress (o : Observation) (signals : Signals) (now : Timestamp) :
    o.OwnChange now (o.progress signals now).1 := by
  rw [progress_fst]
  unfold ownNext
  split
  · refine ownChange_apply _ ?_ ?_ (Or.inr (Or.inl ?_)) now <;> rfl
  · refine ownChange_apply _ (DepositState.progress_lifecycle ..) (DepositState.progress_owner ..)
      ?_ now
    rcases DepositState.progress_cases o.state (ownSurroundings _ signals) with
      heq | ⟨step, hstep, _, hstage⟩
    · rw [heq]
      exact Or.inl rfl
    · obtain ⟨hon, _, hplace⟩ := Lifecycle.place_stepFrom? hstep
      refine Or.inr (Or.inr ⟨Lifecycle.isFailure_of_isOnLine hon, ?_⟩)
      rw [hstage]
      exact Nat.lt_of_lt_of_eq (Nat.lt_succ_self _) hplace.symm

/-- A record that is taken back stays where it stood, out of its failure. -/
theorem ownChange_ownBack (h : o.record.Sound) (hfail : o.isFailed = true)
    (artefacts : List Artefact) : o.OwnChange now (o.withArtefacts artefacts).ownBack := by
  have hrecover := DepositRecord.recover_eq h hfail now
  exact .stays (DepositRecord.stays_recover hrecover) (fun _ => hfail) rfl rfl

theorem ownChange_recoverArtefact (h : o.Sound) (filename : String) (now : Timestamp) :
    o.OwnChange now (o.recoverArtefact filename now).1 := by
  rcases o.recoverArtefact_cases filename with ⟨e, hrefuses⟩ | ⟨a, ha, rfl, hfail⟩
  · rw [hrefuses.recoverArtefact_eq h.wellFormed]
    exact .refl o now
  · rw [recoverArtefact_spec h ha hfail]
    split
    · next hlast => exact ownChange_ownBack h.record hlast.1 _
    · exact .stays (.refl _) id rfl rfl

theorem ownChange_recoverAll (h : o.Sound) (now : Timestamp) :
    o.OwnChange now (o.recoverAll now).1 := by
  cases hfail : o.isFailed with
  | false =>
      rw [(recoverAll_eq_error_iff h).mpr ⟨rfl, hfail, rfl⟩]
      exact .refl o now
  | true =>
      rw [recoverAll_eq h hfail]
      exact ownChange_ownBack h.record hfail _

theorem ownChange_recoverOwn (h : o.record.Sound) {transition : Option Transition}
    (hok : o.recoverOwn now = .ok (o', transition)) : o.OwnChange now o' := by
  cases hfail : o.isFailed with
  | false =>
      have hnone : o.record.recover now = .ok (o.record, none) := if_neg (by
        rw [show o.record.isFailed = false from hfail]
        exact Bool.false_ne_true)
      rw [recoverOwn, hnone] at hok
      cases hok
      exact .refl o now
  | true =>
      rw [recoverOwn_eq h hfail] at hok
      cases hok
      exact ownChange_ownBack h hfail o.artefacts

/-- What an operation does to the observation itself. -/
theorem ownChange_perform (h : o.Sound) (operation : Operation) (now : Timestamp) :
    o.OwnChange now (o.perform operation now).1 := by
  have hrefused : o.OwnChange now o := .refl o now
  have hfiles : ∀ artefacts, o.OwnChange now (o.withArtefacts artefacts) :=
    fun artefacts => .stays (.refl _) id rfl rfl
  have hadded : operation.adds = true → o.OwnChange now (o.perform operation now).1 := by
    intro hadds
    rcases perform_adds_cases h.wellFormed hadds now with
      hsame | ⟨kind, filename, encapsulation, id, _, hok⟩
    · rw [hsame]
      exact hrefused
    · obtain ⟨_, _, _, l, _, hpushed⟩ := push_spec hok
      rw [hpushed]
      exact hfiles _
  cases operation with
  | add kind filename | addEncapsulated kind filename encapsulation => exact hadded rfl
  | setArtefactStage id stage =>
      refine orRefused_cases (P := o.OwnChange now) hrefused fun o' transitions hok => ?_
      obtain ⟨_, _, _, _, _, rfl, _⟩ := setArtefactStage_spec h.wellFormed.files hok
      exact hfiles _
  | advance stage =>
      exact orOwnRefused_cases (P := o.OwnChange now) hrefused fun _ _ hok => ownChange_advance hok
  | progress signals => exact ownChange_progress o signals now
  | runJobs =>
      change o.OwnChange now (o.runJobs now).1
      rw [runJobs_eq h.wellFormed.files now]
      exact hfiles _
  | setEncapsulationStage id stage | advanceEncapsulation id stage
    | progressEncapsulation id signals | recoverEncapsulation id =>
      exact orFilesRefused_cases (P := o.OwnChange now) hrefused fun artefacts _ _ =>
        hfiles artefacts
  | recoverArtefact filename => exact ownChange_recoverArtefact h filename now
  | recoverAll => exact ownChange_recoverAll h now
  | recoverOwn =>
      exact orOwnRefused_cases (P := o.OwnChange now) hrefused fun _ _ hok =>
        ownChange_recoverOwn h.record hok

/-- The time of the start is one of the given times, and not after that of the deposit. -/
structure Noted (o : Observation) (times : List Timestamp) : Prop where
  started : ∀ t, o.started = some t → t ∈ times
  ordered : ∀ t u, o.started = some t → o.completed = some u → t.notAfter u = true

namespace OwnChange

/-- The time of the deposit is known exactly while the effective stage is the last one. -/
theorem completed_iff (h : o.OwnChange now o') (hr : o.record.Sound)
    (hbefore : o.completed.isSome = true ↔ o.record.effectiveStage = .deposited) :
    o'.completed.isSome = true ↔ o'.record.effectiveStage = .deposited := by
  cases h with
  | stays hrecord _ _ hcompleted => rw [hcompleted, hrecord.effectiveStage hr, hbefore]
  | steps next hl hcont _ _ hrecord _ hcompleted =>
      have hafter : o'.record.effectiveStage =
          if next.isFailed then o.record.effectiveStage else next.stage := by
        rw [hrecord, DepositRecord.effectiveStage_replace hl]
      by_cases hlast : next.stage = .deposited
      · have hnot : next.isFailed = false := by
          rw [DepositState.isFailed, hlast]
          rfl
        rw [hcompleted, if_pos hlast, hafter, hnot, if_neg Bool.false_ne_true]
        exact iff_of_true rfl hlast
      · rw [hcompleted, if_neg hlast, hbefore]
        refine ⟨hcont.deposited hr, fun hdeposited => ?_⟩
        rw [hafter] at hdeposited
        split at hdeposited
        · exact hdeposited
        · exact absurd hdeposited hlast

/-- Once the effective stage is the last one, the time of the deposit stays. -/
theorem completed_eq (h : o.OwnChange now o') (hlast : o.record.effectiveStage = .deposited) :
    o'.completed = o.completed := by
  cases h with
  | stays _ _ _ hcompleted => exact hcompleted
  | steps next _ _ hne hforth _ _ hcompleted =>
      have hnot : next.stage ≠ .deposited := by
        intro hdeposited
        rcases hforth with hfailed | ⟨hnot, _⟩
        · rw [DepositState.isFailed, hdeposited] at hfailed
          cases hfailed
        · rw [DepositRecord.effectiveStage_of_not_failed hnot] at hlast
          exact hne (hdeposited.trans hlast.symm)
      rw [hcompleted, if_neg hnot]

/-- The time of the start is known exactly when the effective stage is past the first one, or the
observation has failed. -/
theorem started_iff (h : o.OwnChange now o') (hsound : o.Sound) {failed : Prop}
    (hfailed : o.isFailed = true → failed)
    (hbefore : o.started.isSome = true ↔ o.record.effectiveStage ≠ .undeposited ∨ failed) :
    o'.started.isSome = true ↔
      o'.record.effectiveStage ≠ .undeposited ∨ failed ∨ o'.isFailed = true := by
  cases h with
  | stays hrecord hfail hstarted _ =>
      have hor : failed ∨ o'.isFailed = true ↔ failed :=
        or_iff_left_of_imp fun hyes => hfailed (hfail hyes)
      rw [hstarted, hrecord.effectiveStage hsound.record, hbefore, hor]
  | steps next hl _ hne hforth hrecord hstarted _ =>
      have hsome : o'.started.isSome = true := by
        rw [hstarted]
        split
        · rfl
        · next hpast =>
            refine hbefore.mpr ?_
            cases hfail : o.isFailed with
            | true => exact Or.inr (hfailed hfail)
            | false =>
                rw [DepositRecord.effectiveStage_of_not_failed hfail]
                exact Or.inl hpast
      refine iff_of_true hsome ?_
      by_cases hfailure : next.isFailed = true
      · refine Or.inr (Or.inr ?_)
        change o'.record.state.stage.isFailure = true
        rw [hrecord, DepositRecord.stage_replace]
        exact hfailure
      · refine Or.inl fun hfirst => ?_
        rw [hrecord, DepositRecord.effectiveStage_replace hl, if_neg hfailure] at hfirst
        have hlt := (hforth.resolve_left hfailure).2
        rw [hsound.wellFormed.lifecycle, hfirst] at hlt
        exact Nat.not_lt_zero _ hlt

/-- Where the clock does not go back, neither do the times that are noted. -/
theorem noted (h : o.OwnChange now o') {times : List Timestamp} (hn : o.Noted times)
    (hlate : ∀ t ∈ times, t.notAfter now = true)
    (hcompleted : o.completed.isSome = true ↔ o.record.effectiveStage = .deposited) :
    o'.Noted (times ++ [now]) := by
  cases h with
  | stays _ _ hstarted' hcompleted' =>
      refine ⟨fun t ht => ?_, fun t u ht hu => ?_⟩
      · rw [hstarted'] at ht
        exact List.mem_append_left _ (hn.started t ht)
      · rw [hstarted'] at ht
        rw [hcompleted'] at hu
        exact hn.ordered t u ht hu
  | steps next _ _ _ _ _ hstarted' hcompleted' =>
      have hmem : ∀ t, o'.started = some t → t ∈ times ++ [now] := by
        intro t ht
        rw [hstarted'] at ht
        split at ht
        · rw [← Option.some.inj ht]
          exact List.mem_append_right _ (List.mem_singleton_self now)
        · exact List.mem_append_left _ (hn.started t ht)
      refine ⟨hmem, fun t u ht hu => ?_⟩
      by_cases hlast : next.stage = .deposited
      · rw [hcompleted', if_pos hlast] at hu
        rw [← Option.some.inj hu]
        rcases List.mem_append.mp (hmem t ht) with hearlier | hnow
        · exact hlate t hearlier
        · rw [List.mem_singleton.mp hnow]
          exact now.notAfter_refl
      · rw [hcompleted', if_neg hlast] at hu
        have hdeposited := hcompleted.mp (by rw [hu, Option.isSome_some])
        have hpast : o.stage ≠ .undeposited := by
          intro hfirst
          have hnot : o.record.isFailed = false := by
            change o.stage.isFailure = false
            rw [hfirst]
            rfl
          rw [DepositRecord.effectiveStage_of_not_failed hnot] at hdeposited
          cases hfirst.symm.trans hdeposited
        rw [hstarted', if_neg hpast] at ht
        exact hn.ordered t u ht hu

end OwnChange

/-- The observation after some operations, each at its time. -/
def performTimed : Observation → List (Operation × Timestamp) → Observation
  | o, [] => o
  | o, (operation, now) :: rest => performTimed (o.perform operation now).1 rest

/-- Whether an observation was failed at some point of a run. -/
def HasFailed (o : Observation) (steps : List (Operation × Timestamp)) : Prop :=
  ∃ before, before <+: steps ∧ (performTimed o before).isFailed = true

variable {steps more : List (Operation × Timestamp)} {step : Operation × Timestamp}

theorem performTimed_append (o : Observation) (steps more : List (Operation × Timestamp)) :
    performTimed o (steps ++ more) = performTimed (performTimed o steps) more := by
  induction steps generalizing o with
  | nil => rfl
  | cons step rest ih => exact ih _

theorem performTimed_concat (o : Observation) (steps : List (Operation × Timestamp))
    (step : Operation × Timestamp) :
    performTimed o (steps ++ [step]) = ((performTimed o steps).perform step.1 step.2).1 :=
  performTimed_append o steps [step]

theorem hasFailed_concat_iff :
    o.HasFailed (steps ++ [step]) ↔
      o.HasFailed steps ∨ (performTimed o (steps ++ [step])).isFailed = true := by
  constructor
  · rintro ⟨before, hprefix, hfail⟩
    rcases List.prefix_concat_iff.mp hprefix with rfl | hearlier
    · exact Or.inr hfail
    · exact Or.inl ⟨before, hearlier, hfail⟩
  · rintro (⟨before, hprefix, hfail⟩ | hfail)
    · exact ⟨before, hprefix.trans (List.prefix_append _ _), hfail⟩
    · exact ⟨_, List.prefix_refl _, hfail⟩

theorem Reachable.performTimed (h : Reachable (fun _ _ => True) o) :
    Reachable (fun _ _ => True) (performTimed o steps) := by
  induction steps generalizing o with
  | nil => exact h
  | cons step rest ih => exact ih (h.perform step.1 trivial step.2)

section Run

variable {sbid : Sbid} {start : Observation} (hnew : new sbid .standard = .ok start)

include hnew

theorem sound_performTimed (steps : List (Operation × Timestamp)) :
    (performTimed start steps).Sound :=
  (Reachable.new hnew).performTimed.sound

/-- The own change that the last operation of a run makes. -/
theorem ownChange_performTimed (steps : List (Operation × Timestamp))
    (step : Operation × Timestamp) :
    (performTimed start steps).OwnChange step.2 (performTimed start (steps ++ [step])) := by
  rw [performTimed_concat]
  exact ownChange_perform (sound_performTimed hnew steps) step.1 step.2

theorem completed_performTimed_iff (steps : List (Operation × Timestamp)) :
    (performTimed start steps).completed.isSome = true ↔
      (performTimed start steps).record.effectiveStage = .deposited := by
  induction steps using List.reverseRecOn with
  | nil =>
      cases hnew
      refine iff_of_false Bool.false_ne_true ?_
      rintro ⟨⟩
  | append_singleton steps step ih =>
      exact (ownChange_performTimed hnew steps step).completed_iff
        (sound_performTimed hnew steps).record ih

/-- The time of the deposit is never noted anew. -/
theorem completed_performTimed_append {t : Timestamp}
    (hcompleted : (performTimed start steps).completed = some t)
    (more : List (Operation × Timestamp)) :
    (performTimed start (steps ++ more)).completed = some t := by
  induction more using List.reverseRecOn with
  | nil => rwa [List.append_nil]
  | append_singleton more step ih =>
      have hlast := (completed_performTimed_iff hnew (steps ++ more)).mp (by rw [ih]; rfl)
      rw [← List.append_assoc, (ownChange_performTimed hnew (steps ++ more) step).completed_eq hlast,
        ih]

theorem started_performTimed_iff (steps : List (Operation × Timestamp)) :
    (performTimed start steps).started.isSome = true ↔
      (performTimed start steps).record.effectiveStage ≠ .undeposited ∨ start.HasFailed steps := by
  induction steps using List.reverseRecOn with
  | nil =>
      cases hnew
      refine iff_of_false Bool.false_ne_true ?_
      rintro (hpast | ⟨before, hprefix, hfail⟩)
      · exact hpast rfl
      · rw [List.prefix_nil.mp hprefix] at hfail
        cases hfail
  | append_singleton steps step ih =>
      rw [hasFailed_concat_iff]
      exact (ownChange_performTimed hnew steps step).started_iff (sound_performTimed hnew steps)
        (fun hfail => ⟨steps, List.prefix_refl _, hfail⟩) ih

/-- The times of a run whose clock does not go back. -/
theorem noted_performTimed
    (hclock : (steps.map Prod.snd).Pairwise fun t u => t.notAfter u = true) :
    (performTimed start steps).Noted (steps.map Prod.snd) := by
  induction steps using List.reverseRecOn with
  | nil =>
      cases hnew
      refine ⟨?_, ?_⟩
      · intro t ht
        cases ht
      · intro t u ht
        cases ht
  | append_singleton steps step ih =>
      rw [List.map_append, List.map_singleton, List.pairwise_append] at hclock
      rw [List.map_append, List.map_singleton]
      exact (ownChange_performTimed hnew steps step).noted (ih hclock.1)
        (fun t ht => hclock.2.2 t ht step.2 (List.mem_singleton_self _))
        (completed_performTimed_iff hnew steps)

end Run

/-- The times of a run agree with where the observation stands after it. -/
structure TimesAgree (start : Observation) (steps : List (Operation × Timestamp)) : Prop where
  completed : (performTimed start steps).completed.isSome = true ↔
    (performTimed start steps).record.effectiveStage = .deposited
  /-- However the run goes on, the time of the deposit stays. -/
  constant : ∀ t, (performTimed start steps).completed = some t →
    ∀ more, (performTimed start (steps ++ more)).completed = some t
  started : (performTimed start steps).started.isSome = true ↔
    Lifecycle.observation.place .undeposited <
        Lifecycle.observation.place (performTimed start steps).record.effectiveStage ∨
      start.HasFailed steps
  ordered : ((steps.map Prod.snd).Pairwise fun t u => t.notAfter u = true) →
    ∀ t u, (performTimed start steps).started = some t →
      (performTimed start steps).completed = some u → t.notAfter u = true

theorem timesAgree_of_new {sbid : Sbid} {start : Observation}
    (hnew : new sbid .standard = .ok start) (steps : List (Operation × Timestamp)) :
    start.TimesAgree steps where
  completed := completed_performTimed_iff hnew steps
  constant _ hcompleted more := completed_performTimed_append hnew hcompleted more
  started := by
    have hsound := sound_performTimed hnew steps
    have hon := hsound.record.onLine
    rw [show (performTimed start steps).record.state.lifecycle = _ from hsound.wellFormed.lifecycle]
      at hon
    rw [Lifecycle.place_undeposited_lt_iff hon]
    exact started_performTimed_iff hnew steps
  ordered hclock := (noted_performTimed hnew hclock).ordered

/-- The times of every run agree with where its observation stands.  So the observations of a store
that were deposited in a range of time are found among those whose effective stage is the last. -/
theorem times_agree :
    (∀ (sbid : Sbid) (start : Observation), new sbid .standard = .ok start →
      ∀ steps, start.TimesAgree steps) ∧
    ∀ r : Repository,
      (∀ o ∈ r.toList, ∃ sbid start steps,
        new sbid .standard = .ok start ∧ o = performTimed start steps) →
      ∀ first last : Timestamp, ∃ found,
        ObservationStore.findCompletedBetween r first last = .ok found ∧
        (found.Pairwise fun a b => compare a.sbid b.sbid = .lt) ∧
        ∀ o, o ∈ found ↔ o ∈ r.toList ∧ o.record.effectiveStage = .deposited ∧
          ∃ t, o.completed = some t ∧ first.notAfter t = true ∧ t.notAfter last = true := by
  refine ⟨fun sbid start hnew steps => timesAgree_of_new hnew steps, fun r hruns first last => ?_⟩
  let found := r.toList.filter fun o => o.completed.any (·.isWithin first last)
  have hfound : ObservationStore.findCompletedBetween r first last = .ok found := by
    rw [ObservationStore.findCompletedBetween, r.loadAll_eq]
    rfl
  refine ⟨found, hfound, r.ascending.filter _, fun o => ?_⟩
  rw [List.mem_filter, Option.any_eq_true]
  refine and_congr_right fun ho => ?_
  obtain ⟨sbid, start, steps, hnew, rfl⟩ := hruns o ho
  rw [← completed_performTimed_iff hnew steps]
  constructor
  · rintro ⟨t, ht, hwithin⟩
    exact ⟨by rw [ht, Option.isSome_some], t, ht, Bool.and_eq_true_iff.mp hwithin⟩
  · rintro ⟨_, t, ht, hwithin⟩
    exact ⟨t, ht, Bool.and_eq_true_iff.mpr hwithin⟩

/-- An observation that failed before it was started on, was taken back and then deposited, and
another that waits: the first is found at the time of its deposit. -/
theorem times_agree_after_failure :
    ∃ (steps : List (Operation × Timestamp)) (r : Repository) (found : List Observation)
        (start completed : Timestamp),
      let o := performTimed (fresh ⟨1⟩) steps
      (fresh ⟨1⟩).HasFailed steps ∧ o.started = some start ∧ o.completed = some completed ∧
        (fresh ⟨1⟩).TimesAgree steps ∧ start.notAfter completed = true ∧
        r.toList = [o, fresh ⟨2⟩] ∧
        ObservationStore.findCompletedBetween r completed completed = .ok found ∧
        o ∈ found ∧ fresh ⟨2⟩ ∉ found := by
  let steps : List (Operation × Timestamp) :=
    [(.advance .failed, .ofUnixSeconds 0), (.recoverOwn, .ofUnixSeconds 1),
      (.advance .depositing, .ofUnixSeconds 2), (.advance .deposited, .ofUnixSeconds 3)]
  let o := performTimed (fresh ⟨1⟩) steps
  let r : Repository := (Repository.save Ascending.empty (fresh ⟨2⟩)).save o
  have hfailed : (fresh ⟨1⟩).HasFailed steps :=
    ⟨[(.advance .failed, .ofUnixSeconds 0)], by simp [steps], by decide +kernel⟩
  have hstarted : o.started = some (.ofUnixSeconds 2) := by decide +kernel
  have hcompleted : o.completed = some (.ofUnixSeconds 3) := by decide +kernel
  have hclock : (steps.map Prod.snd).Pairwise fun t u => t.notAfter u = true := by decide +kernel
  have hlist : r.toList = [o, fresh ⟨2⟩] := by decide +kernel
  have hruns : ∀ x ∈ r.toList, ∃ sbid start steps,
      new sbid .standard = .ok start ∧ x = performTimed start steps := by
    intro x hx
    rw [hlist, List.mem_pair] at hx
    rcases hx with rfl | rfl
    · exact ⟨_, _, steps, new_standard ⟨1⟩, rfl⟩
    · exact ⟨_, _, [], new_standard ⟨2⟩, rfl⟩
  have hagree := times_agree.1 ⟨1⟩ (fresh ⟨1⟩) (new_standard ⟨1⟩) steps
  have hlast : o.record.effectiveStage = .deposited := by decide +kernel
  obtain ⟨found, hfound, _, hmem⟩ :=
    times_agree.2 r hruns (.ofUnixSeconds 3) (.ofUnixSeconds 3)
  have hnot : fresh ⟨2⟩ ∉ found := by
    intro hin
    cases ((hmem _).mp hin).2.1
  have hin : o ∈ found := (hmem o).mpr
    ⟨by rw [hlist]; exact List.mem_cons_self, hlast, _, hcompleted, by decide +kernel,
      by decide +kernel⟩
  exact ⟨steps, r, found, _, _, hfailed, hstarted, hcompleted, hagree,
    hagree.ordered hclock _ _ hstarted hcompleted, hlist, hfound, hin, hnot⟩

end Observation

end DepositTimes

end ArchiveDeposit

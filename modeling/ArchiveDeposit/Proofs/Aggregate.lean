import ArchiveDeposit.Proofs.Operation

/-!
# An observation and all its files

An observation starts to deposit when its priority files are deposited, and it starts to archive
when all its files are.  The gates look at the files at the instant of the step only; afterwards
files fail and are recovered, and so does the observation.  Seen through failures the order holds
all the same: a deposited file that fails keeps its place.

Past the start of archiving nobody looks at the files again.  A file that fails so late does not
stop the observation, which goes on to its end over the failed file.

**Results.**
* `Observation.Aggregate.perform`: an operation that is allowed keeps the order.
* `Observation.deposited_of_reachable`: the order holds in every state of every run.
* `Observation.progress_outruns_iff`: exactly when the observation goes on over a file that is not
  deposited.
-/

namespace ArchiveDeposit

section Aggregate

namespace Observation

/-- The files as far as the observation needs them, at the effective stages. -/
structure Aggregate (o : Observation) : Prop where
  /-- The priority files are deposited when the observation deposits or is further. -/
  priority : o.record.hasReached .depositing = true →
    ∀ a ∈ o.artefacts, a.kind.isPriority = true → a.record.effectiveStage = .deposited
  /-- All files are deposited when the observation archives or is further. -/
  all : o.record.hasReached .archiving = true →
    ∀ a ∈ o.artefacts, a.record.effectiveStage = .deposited

/-- What may be asked of an observation so that it stays behind its files: it is not itself reported
to be in a stage, except failed, and files are added before it deposits. -/
def AllowsAggregate (o : Observation) : Operation → Prop
  | .add _ _ | .addEncapsulated _ _ _ => o.record.hasReached .depositing = false
  | .advance stage => stage.isFailure = true
  | _ => True

variable {o o' : Observation} {f : Artefact → Artefact} {operation : Operation}
  {signals : Signals} {now : Timestamp}

theorem hasReached_depositing (h : o.WellFormed)
    (hreached : o.record.hasReached .archiving = true) :
    o.record.hasReached .depositing = true := by
  apply DepositRecord.hasReached_trans hreached
  rw [show o.record.state.lifecycle = _ from h.lifecycle]
  decide

/-- While files change one by one, only stages that the observation newly reaches have to be looked
at. -/
theorem Aggregate.moves (h : o.Aggregate) (hsound : o.Sound) (hm : o.Moves f o')
    (hpriority : o'.record.hasReached .depositing = true →
      o.record.hasReached .depositing = true ∨
        ∀ a ∈ o'.artefacts, a.kind.isPriority = true → a.record.effectiveStage = .deposited)
    (hall : o'.record.hasReached .archiving = true →
      o.record.hasReached .archiving = true ∨
        ∀ a ∈ o'.artefacts, a.record.effectiveStage = .deposited) : o'.Aggregate where
  priority hreached := by
    rcases hpriority hreached with hbefore | hnow
    · intro b hb hkind
      rw [hm.artefacts] at hb
      obtain ⟨a, ha, rfl⟩ := List.mem_map.mp hb
      rw [(hm.files a ha).kind] at hkind
      exact (hm.files a ha).record.deposited (hsound.files a ha) (h.priority hbefore a ha hkind)
    · exact hnow
  all hreached := by
    rcases hall hreached with hbefore | hnow
    · intro b hb
      rw [hm.artefacts] at hb
      obtain ⟨a, ha, rfl⟩ := List.mem_map.mp hb
      exact (hm.files a ha).record.deposited (hsound.files a ha) (h.all hbefore a ha)
    · exact hnow

/-- An observation comes to deposit only over deposited priority files, and to archive only over
deposited files. -/
theorem observation_gates : ∀ step ∈ Lifecycle.observation.steps,
    (Lifecycle.observation.reaches step.target .depositing = true →
      Lifecycle.observation.reaches step.source .depositing = true ∨
        step.gate = .priorityChildrenDeposited) ∧
    (Lifecycle.observation.reaches step.target .archiving = true →
      Lifecycle.observation.reaches step.source .archiving = true ∨
        step.gate = .childrenDeposited) := by
  decide

/-- An operation that leaves the own effective stage where it is keeps the order. -/
theorem Aggregate.stays (h : o.Aggregate) (hsound : o.Sound) (hm : o.Moves f o')
    (hstays : o.record.Stays o'.record) : o'.Aggregate := by
  refine h.moves hsound hm (fun hreached => Or.inl ?_) (fun hreached => Or.inl ?_)
  · rw [← hstays.hasReached hsound.record]
    exact hreached
  · rw [← hstays.hasReached hsound.record]
    exact hreached

/-- A call of progress keeps the order: the gates are asked when the files have stepped. -/
theorem Aggregate.progress (h : o.Aggregate) (hsound : o.Sound) (signals : Signals)
    (now : Timestamp) : (o.progress signals now).1.Aggregate := by
  have hl : o.record.state.lifecycle = .observation := hsound.wellFormed.lifecycle
  have hcont := continues_progress_record o signals now
  have hmoves := moves_progress hsound.wellFormed signals now
  rcases progress_record_cases o signals now with
    ⟨_, hfailed⟩ | ⟨_, hsame | ⟨step, hstep, hpermit, hsource, htarget, _⟩⟩
  · apply h.stays hsound hmoves
    rw [hfailed]
    exact o.record.stays_failed now
  · apply h.stays hsound hmoves
    rw [hsame]
    exact DepositRecord.Stays.refl _
  · have hmem : step ∈ Lifecycle.observation.steps := by
      rw [← hl]
      exact List.mem_of_find?_eq_some hstep
    obtain ⟨hdeposits, harchives⟩ := observation_gates step hmem
    have hbefore : ∀ stage, o.record.hasReached stage =
        Lifecycle.observation.reaches step.source stage := by
      intro stage
      rw [DepositRecord.hasReached, hl, hsource]
    have hafter : ∀ stage, (o.progress signals now).1.record.hasReached stage =
        Lifecycle.observation.reaches step.target stage := by
      intro stage
      rw [DepositRecord.hasReached, hcont.lifecycle, hl, htarget]
    simp only [Surroundings.permits, Bool.and_eq_true] at hpermit
    refine h.moves hsound hmoves ?_ ?_
    · intro hreached
      rw [hafter] at hreached
      refine (hdeposits hreached).imp (fun hsource => (hbefore _).trans hsource) ?_
      intro hgate a ha hkind
      simp only [hgate, Surroundings.opens, ownSurroundings, List.all_map, List.all_eq_true,
        List.mem_filter] at hpermit
      exact Artefact.effectiveStage_of_isDeposited (hpermit.1 a ⟨ha, hkind⟩)
    · intro hreached
      rw [hafter] at hreached
      refine (harchives hreached).imp (fun hsource => (hbefore _).trans hsource) ?_
      intro hgate a ha
      simp only [hgate, Surroundings.opens, ownSurroundings, List.all_map,
        List.all_eq_true] at hpermit
      exact Artefact.effectiveStage_of_isDeposited (hpermit.1 a ha)

theorem Aggregate.push (hwf : o.WellFormed) {kind : Kind} {filename : String}
    {encapsulation : Option ArtefactId} {id : ArtefactId}
    (hbefore : o.record.hasReached .depositing = false)
    (hok : o.push .standard kind filename encapsulation = .ok (o', id)) : o'.Aggregate := by
  obtain ⟨_, _, _, l, _, rfl⟩ := push_spec hok
  constructor
  · intro hreached
    have hreached : o.record.hasReached .depositing = true := hreached
    rw [hbefore] at hreached
    cases hreached
  · intro hreached
    rw [hasReached_depositing hwf hreached] at hbefore
    cases hbefore

/-- Every operation that is allowed keeps the order, whether it is refused or not. -/
theorem Aggregate.perform (h : o.Aggregate) (hsound : o.Sound)
    (hallowed : o.AllowsAggregate operation) (now : Timestamp) :
    (o.perform operation now).1.Aggregate := by
  cases hadds : operation.adds with
  | true =>
      cases operation with
      | add kind filename =>
          rcases perform_add_cases o kind filename now with hrefused | ⟨id, hok⟩
          · rw [hrefused]
            exact h
          · exact Aggregate.push hsound.wellFormed hallowed hok
      | addEncapsulated kind filename encapsulation =>
          rcases perform_addEncapsulated_cases hsound.wellFormed kind filename encapsulation now
            with hrefused | ⟨_, id, hok⟩
          · rw [hrefused]
            exact h
          · exact Aggregate.push hsound.wellFormed hallowed hok
      | _ => cases hadds
  | false =>
      by_cases hprogress : ∃ signals, operation = .progress signals
      · obtain ⟨signals, rfl⟩ := hprogress
        exact h.progress hsound signals now
      · obtain ⟨f, hmoves⟩ := perform_moves hsound hadds now
        apply h.stays hsound hmoves
        apply stays_perform_record hsound
        · exact fun signals heq => hprogress ⟨signals, heq⟩
        · rintro stage rfl
          exact hallowed

/-- In every state of every run the order holds. -/
theorem Reachable.aggregate (h : Reachable AllowsAggregate o) : o.Aggregate := by
  induction h with
  | new hnew =>
      obtain ⟨_, hnone, _⟩ := sound_new hnew
      constructor
      · intro _ a ha
        rw [hnone] at ha
        cases ha
      · intro _ a ha
        rw [hnone] at ha
        cases ha
  | perform hbefore operation hallowed now ih =>
      exact ih.perform hbefore.sound hallowed now

/-- In every state of every run, of whatever operations in whatever order, the priority files are
deposited when the observation deposits or is further, and all files when it archives or is
further. -/
theorem deposited_of_reachable (h : Reachable AllowsAggregate o) :
    (o.record.hasReached .depositing = true →
      ∀ a ∈ o.artefacts, a.kind.isPriority = true → a.record.effectiveStage = .deposited) ∧
    (o.record.hasReached .archiving = true →
      ∀ a ∈ o.artefacts, a.record.effectiveStage = .deposited) :=
  ⟨h.aggregate.priority, h.aggregate.all⟩

/-- A run to an observation that has failed while archiving, over a file that has failed, too. -/
theorem deposited_failed_while_archiving :
    ∃ o : Observation, Reachable AllowsAggregate o ∧ o.isFailed = true ∧
      (∃ a ∈ o.artefacts, a.isFailed = true) ∧
        ∀ a ∈ o.artefacts, a.record.effectiveStage = .deposited := by
  let now := Timestamp.ofUnixSeconds 0
  let o := fresh ⟨1⟩
  let operations : List Operation :=
    [.add .observationMetadataFile "m", .add .catalogue "c", .setArtefactStage ⟨0⟩ .deposited,
      .setArtefactStage ⟨1⟩ .deposited, .progress Signals.autoComplete,
      .progress Signals.autoComplete, .progress Signals.autoComplete,
      .setArtefactStage ⟨1⟩ .failed, .advance .invalid]
  have hrun : Reachable AllowsAggregate (performEach now o operations) :=
    (Reachable.new (new_standard ⟨1⟩)).performEach
      ⟨rfl, rfl, trivial, trivial, trivial, trivial, trivial, trivial, rfl, trivial⟩
  have hfailed : (performEach now o operations).isFailed = true ∧
      (∃ a ∈ (performEach now o operations).artefacts, a.isFailed = true) ∧
        (performEach now o operations).record.hasReached .archiving = true := by
    decide +kernel
  exact ⟨_, hrun, hfailed.1, hfailed.2.1, (deposited_of_reachable hrun).2 hfailed.2.2⟩

/-- What may be asked in a run in which all files are there before the start, and nothing is
reported of the observation itself. -/
def AllowsFiles (o : Observation) : Operation → Prop
  | .add _ _ | .addEncapsulated _ _ _ => o.stage = .undeposited
  | .setArtefactStage _ _ | .progress _ | .runJobs | .recoverArtefact _ | .recoverAll => True
  | _ => False

/-- Going on to notify, or to the end, over a file that is not deposited. -/
def Outruns (o o' : Observation) : Prop :=
  o'.stage ≠ o.stage ∧ (o'.stage = .notifying ∨ o'.stage = .deposited) ∧
    ∃ a ∈ o'.artefacts, a.isDeposited = false

theorem allowsAggregate_of_allowsFiles (o : Observation) (operation : Operation)
    (h : o.AllowsFiles operation) : o.AllowsAggregate operation := by
  have hearly : o.stage = .undeposited → o.record.hasReached .depositing = false := by
    intro hstage
    have hstage : o.record.state.stage = .undeposited := hstage
    have hnot : o.record.isFailed = false := by
      rw [DepositRecord.isFailed, DepositState.isFailed, hstage]
      decide
    rw [DepositRecord.hasReached, DepositRecord.effectiveStage_of_not_failed hnot, hstage]
    cases o.record.state.lifecycle <;> decide
  cases operation with
  | add kind filename => exact hearly h
  | addEncapsulated kind filename encapsulation => exact hearly h
  | advance stage => exact h.elim
  | _ => trivial

/-- The stages that an observation leaves without looking at its files. -/
def isLate (o : Observation) : Bool := o.stage == .archiving || o.stage == .notifying

theorem isLate_iff : o.isLate = true ↔ o.stage = .archiving ∨ o.stage = .notifying := by
  simp [isLate]

/-- In a late stage no file is asked to step. -/
theorem progress_artefacts_of_isLate (h : o.WellFormed) (hlate : o.isLate = true)
    (signals : Signals) (now : Timestamp) :
    inScope? o.stage = none ∧ (o.progress signals now).1.artefacts = o.artefacts := by
  have hscope : inScope? o.stage = none := by
    rcases isLate_iff.mp hlate with hstage | hstage <;> rw [hstage] <;> rfl
  refine ⟨hscope, ?_⟩
  have hsame : ∀ a ∈ o.artefacts, fileStep o.stage o.artefacts signals now a = a := by
    intro a _
    rw [fileStep, hscope]
  rw [progress_artefacts h.files, List.map_congr_left hsame, List.map_id']

/-- The steps into the last stages leave late ones, await a report, and ask nothing of the files. -/
theorem observation_late_steps :
    (∀ step ∈ Lifecycle.observation.steps, step.target = .notifying ∨ step.target = .deposited →
      (step.source = .archiving ∨ step.source = .notifying) ∧ step.awaitsSignal = true) ∧
    ∀ stage, stage = .archiving ∨ stage = .notifying →
      ∃ step, Lifecycle.observation.stepFrom? stage = some step ∧ step.gate = .immediate ∧
        (step.target = .notifying ∨ step.target = .deposited) := by
  constructor
  · decide
  · rintro stage (rfl | rfl)
    · exact ⟨_, rfl, rfl, Or.inl rfl⟩
    · exact ⟨_, rfl, rfl, Or.inr rfl⟩

/-- In a late stage every file is deposited, or it was and has failed since. -/
theorem Aggregate.of_isLate (h : o.Aggregate) (hsound : o.Sound) (hlate : o.isLate = true) :
    ∀ a ∈ o.artefacts, a.isDeposited = false →
      a.isFailed = true ∧ a.record.checkpoint = some .deposited := by
  intro a ha hdeposited
  have hl : o.record.state.lifecycle = .observation := hsound.wellFormed.lifecycle
  have hreached : o.record.hasReached .archiving = true := by
    apply DepositRecord.hasReached_of_state
    rw [DepositState.hasReached_eq, hl]
    rcases isLate_iff.mp hlate with hstage | hstage
    · rw [show o.record.state.stage = _ from hstage]
      decide
    · rw [show o.record.state.stage = _ from hstage]
      decide
  have heffective := h.all hreached a ha
  cases hfailed : a.record.isFailed with
  | false =>
      rw [DepositRecord.effectiveStage_of_not_failed hfailed] at heffective
      simp [Artefact.isDeposited, DepositState.isDeposited, Artefact.state, heffective]
        at hdeposited
  | true =>
      refine ⟨hfailed, ?_⟩
      have hkept := (hsound.files a ha).checkpoint
      rw [hfailed] at hkept
      obtain ⟨stage, hstage⟩ := Option.isSome_iff_exists.mp hkept
      rw [DepositRecord.effectiveStage, if_pos hfailed, DepositRecord.recoveryStage, hstage]
        at heffective
      rw [hstage]
      exact congrArg some heffective

/-- Only from a late stage, and only when the report that it awaits is in, does a call of progress
go on over a file that is not deposited. -/
theorem isLate_of_outruns (h : o.WellFormed) (houtruns : o.Outruns (o.progress signals now).1) :
    o.isLate = true ∧ signals (.observation o.sbid) o.stage = true ∧
      ∃ a ∈ o.artefacts, a.isDeposited = false := by
  obtain ⟨hmoved, hlast, a, ha, hdeposited⟩ := houtruns
  have howner : o.state.owner = .observation o.sbid := h.owner
  rcases progress_record_cases o signals now with
    ⟨_, hfailed⟩ | ⟨_, hsame | ⟨step, hstep, hpermit, _, _, hstage⟩⟩
  · have hstage : (o.progress signals now).1.stage = .failed := by
      rw [stage, hfailed, DepositRecord.stage_replace]
      rfl
    rw [hstage] at hlast
    rcases hlast with hlast | hlast <;> cases hlast
  · exact absurd (congrArg (fun r : DepositRecord => r.state.stage) hsame) hmoved
  · rw [hstage] at hlast
    rw [h.lifecycle] at hstep
    obtain ⟨hsource, hawaits⟩ :=
      observation_late_steps.1 step (List.mem_of_find?_eq_some hstep) hlast
    rw [Lifecycle.source_of_stepFrom? hstep] at hsource
    have hlate := isLate_iff.mpr hsource
    rw [(progress_artefacts_of_isLate h hlate signals now).2] at ha
    refine ⟨hlate, ?_, a, ha, hdeposited⟩
    simp only [Surroundings.permits, hawaits, Bool.not_true, Bool.false_or, Bool.and_eq_true,
      Lifecycle.source_of_stepFrom? hstep, howner] at hpermit
    exact hpermit.2

/-- From a late stage a call of progress goes on over every file that is not deposited, when the
report that it awaits is in. -/
theorem outruns_of_isLate (h : o.WellFormed) (hlate : o.isLate = true)
    (hreport : signals (.observation o.sbid) o.stage = true) {a : Artefact}
    (ha : a ∈ o.artefacts) (hdeposited : a.isDeposited = false) :
    o.Outruns (o.progress signals now).1 := by
  have howner : o.state.owner = .observation o.sbid := h.owner
  obtain ⟨hscope, hartefacts⟩ := progress_artefacts_of_isLate h hlate signals now
  obtain ⟨step, hstep, hgate, hlast⟩ := observation_late_steps.2 o.stage (isLate_iff.mp hlate)
  rw [← h.lifecycle] at hstep
  have hpermit : (ownSurroundings (o.progress signals now).1.artefacts signals).permits step
      o.state.owner = true := by
    simp [Surroundings.permits, Surroundings.opens, hgate, howner, ownSurroundings,
      Lifecycle.source_of_stepFrom? hstep, hreport]
  have hstage : (o.progress signals now).1.stage = step.target := by
    rw [stage, progress_record, DepositRecord.stage_replace, ownNext, hasFailedInScope, hscope]
    exact DepositState.stage_progress hstep hpermit
  refine ⟨?_, ?_, a, ?_, hdeposited⟩
  · rw [hstage]
    exact (Lifecycle.ne_target_of_stepFrom? hstep).symm
  · rw [hstage]
    exact hlast
  · rw [hartefacts]
    exact ha

/-- A call of progress takes the observation to its last stages over a file that is not deposited
exactly when the observation archives or notifies, the report that it awaits is in, and a file has
failed.  The files that are not deposited then are those that were and have failed since. -/
theorem progress_outruns_iff (h : Reachable AllowsFiles o) (signals : Signals) (now : Timestamp) :
    (o.Outruns (o.progress signals now).1 ↔
      (o.stage = .archiving ∨ o.stage = .notifying) ∧
        signals (.observation o.sbid) o.stage = true ∧ ∃ a ∈ o.artefacts, a.isFailed = true) ∧
    (o.stage = .archiving ∨ o.stage = .notifying → ∀ a ∈ o.artefacts, a.isDeposited = false →
      a.isFailed = true ∧ a.record.checkpoint = some .deposited) := by
  have hwf := h.sound.wellFormed
  have hfiles : o.isLate = true → _ :=
    (h.mono allowsAggregate_of_allowsFiles).aggregate.of_isLate h.sound
  refine ⟨⟨?_, ?_⟩, fun hstage => hfiles (isLate_iff.mpr hstage)⟩
  · intro houtruns
    obtain ⟨hlate, hreport, a, ha, hdeposited⟩ := isLate_of_outruns hwf houtruns
    exact ⟨isLate_iff.mp hlate, hreport, a, ha, (hfiles hlate a ha hdeposited).1⟩
  · rintro ⟨hstage, hreport, a, ha, hfailed⟩
    apply outruns_of_isLate hwf (isLate_iff.mpr hstage) hreport ha
    rw [Artefact.isFailed, DepositState.isFailed] at hfailed
    rw [Artefact.isDeposited, DepositState.isDeposited]
    revert hfailed
    cases a.state.stage <;> decide

/-- A run to an archiving observation with a file that was deposited and failed: the next call of
progress goes on over it. -/
theorem outruns_late_failure :
    ∃ o : Observation, Reachable AllowsFiles o ∧ o.stage = .archiving ∧
      ∃ now, o.Outruns (o.progress Signals.autoComplete now).1 := by
  let now := Timestamp.ofUnixSeconds 0
  let o := fresh ⟨1⟩
  let operations : List Operation :=
    [.add .catalogue "c", .setArtefactStage ⟨0⟩ .deposited, .progress Signals.autoComplete,
      .progress Signals.autoComplete, .progress Signals.autoComplete,
      .setArtefactStage ⟨0⟩ .failed]
  have hrun : Reachable AllowsFiles (performEach now o operations) :=
    (Reachable.new (new_standard ⟨1⟩)).performEach
      ⟨rfl, trivial, trivial, trivial, trivial, trivial, trivial⟩
  have hlate : (performEach now o operations).stage = .archiving := by
    decide +kernel
  have hfailed : ∃ a ∈ (performEach now o operations).artefacts, a.isFailed = true := by
    decide +kernel
  exact ⟨_, hrun, hlate, now,
    (progress_outruns_iff hrun Signals.autoComplete now).1.mpr ⟨Or.inl hlate, rfl, hfailed⟩⟩

end Observation

end Aggregate

end ArchiveDeposit

import ArchiveDeposit.Proofs.Advance
import ArchiveDeposit.Proofs.CollectionRun

/-!
# A level 7 collection and all its catalogues

A collection is deposited in the call in which the last of its catalogues is, and the time of that
call is noted.  Seen through failures this stays so: a deposited catalogue that fails keeps its
place, and a deposited collection that fails is taken back to where it was, with the time that was
noted.  The one thing that breaks it is a catalogue that is added to a collection that is deposited
already, so runs in which this is done are left out; and so are those in which a job reports a stage
of the collection itself, other than a failure.

Where nothing has failed and every report is in, the way to the deposit is short.  Four calls take
the collection to where it deposits, and four more take every catalogue along its four steps at the
same time, whatever the number of catalogues.

**Results.**
* `Collection.Consistent.perform`: an operation that is allowed keeps collection and catalogues in
  accord.
* `Collection.progress_fails_iff`: exactly when a call of progress fails the collection.
* `Collection.NothingFailed.dueIn_progress`: every call brings the deposit one call closer.
* `Collection.consistent_of_reachable`: what holds in every state of every run.
-/

namespace ArchiveDeposit

section CollectionCourse

namespace Lifecycle

/-- The last step of a collection waits for its catalogues. -/
theorem gate_of_target_deposited : ∀ step ∈ Lifecycle.level7Collection.steps,
    step.target = .deposited → step.gate = .childrenDeposited := by
  decide

/-- Before that, a collection waits for nothing but reports. -/
theorem gate_of_source_ne_depositing : ∀ step ∈ Lifecycle.level7Collection.steps,
    step.source ≠ .depositing → step.gate = .immediate := by
  decide

/-- A catalogue waits for nothing but reports. -/
theorem standard_gates : ∀ step ∈ Lifecycle.standard.steps, step.gate = .immediate := by
  decide

/-- A collection that deposits has one step ahead, and in no other stage has it one. -/
theorem ahead_level7Collection_eq_one_iff {s : Stage} :
    Lifecycle.level7Collection.ahead s = 1 ↔ s = .depositing := by
  cases s <;> decide

end Lifecycle

namespace Collection

variable {c c' : Collection} {operation : CollectionOperation} {signals : Signals}
  {now : Timestamp}

/-- Collection and catalogues are on their lifecycles, and every record is sound. -/
structure Sound (c : Collection) : Prop where
  lifecycle : c.state.lifecycle = .level7Collection
  record : c.record.Sound
  catalogues : ∀ a ∈ c.catalogues, a.state.lifecycle = .standard ∧ a.record.Sound

theorem sound_fresh (id : CollectionId) : (fresh id).Sound :=
  ⟨rfl, DepositRecord.sound_new .level7Collection _, fun _ ha => nomatch ha⟩

/-- An operation that adds no catalogue leaves their number. -/
theorem Becomes.length_catalogues (h : c.Becomes now operation c')
    (hadds : ∀ filename, operation ≠ .add filename) :
    c'.catalogues.length = c.catalogues.length := by
  cases h with
  | refused => rfl
  | added filename => exact absurd rfl (hadds filename)
  | reported => exact List.length_set
  | advanced => rw [apply_catalogues]
  | progressed signals =>
      rw [progress_catalogues]
      split
      · exact List.length_map _
      · rfl
  | recovered _ _ hcatalogues => rw [hcatalogues]

/-- Without one that is added, every catalogue after an operation was there before it. -/
theorem Becomes.mem_catalogues (h : c.Becomes now operation c')
    (hadds : ∀ filename, operation ≠ .add filename) {b : Artefact} (hb : b ∈ c'.catalogues) :
    ∃ a ∈ c.catalogues, ∃ log, a.Accounts .report log b := by
  obtain ⟨i, hi⟩ := List.mem_iff_getElem?.mp hb
  have hlt : i < c.catalogues.length := by
    rw [← h.length_catalogues hadds]
    exact (List.getElem?_eq_some_iff.mp hi).1
  obtain ⟨d, log, hd, haccounts⟩ := h.catalogue (List.getElem?_eq_getElem hlt)
  rw [hi] at hd
  rw [← Option.some.inj hd] at haccounts
  exact ⟨_, List.getElem_mem hlt, log, haccounts⟩

/-- What may be asked of a collection so that it stays behind its catalogues: it is not itself
reported to be in a stage, except failed, and catalogues are added before it is deposited. -/
def AllowsCourse (c : Collection) : CollectionOperation → Prop
  | .add _ => c.record.effectiveStage ≠ .deposited
  | .advance stage => stage.isFailure = true
  | _ => True

instance (c : Collection) : (operation : CollectionOperation) →
    Decidable (c.AllowsCourse operation)
  | .add _ => inferInstanceAs (Decidable (_ ≠ _))
  | .advance _ => inferInstanceAs (Decidable (_ = true))
  | .setCatalogueStage _ _ | .progress _ | .recoverOwn => .isTrue trivial

/-- Only progress moves the effective stage of the collection and notes the time of completion. -/
theorem Becomes.stays (h : c.Becomes now operation c') (hallowed : c.AllowsCourse operation)
    (hprogress : ∀ signals, operation ≠ .progress signals) :
    c.record.Stays c'.record ∧ c'.completed = c.completed := by
  cases h with
  | refused => exact ⟨DepositRecord.Stays.refl _, rfl⟩
  | added => exact ⟨DepositRecord.Stays.refl _, rfl⟩
  | reported => exact ⟨DepositRecord.Stays.refl _, rfl⟩
  | advanced hnext =>
      obtain ⟨hl, ho, hstage, _⟩ := DepositRecord.advanceTo_cases hnext
      have hfail := hallowed
      rw [← hstage] at hfail
      refine ⟨?_, ?_⟩
      · rw [apply_record]
        exact DepositRecord.Stays.replace hl ho hfail now
      · rw [apply_completed, if_neg]
        rintro ⟨_, hdeposited⟩
        rw [hdeposited] at hfail
        cases hfail
  | progressed signals => exact absurd rfl (hprogress signals)
  | recovered hrecord hcompleted => exact ⟨hrecord, hcompleted⟩

/-- A collection whose effective stage is the last one does not change in a call of progress. -/
theorem progress_of_deposited (h : c.record.effectiveStage = .deposited) :
    c.progress signals now = (c, []) := by
  have hstopped : (c.isFailed || c.state.isTerminal) = true := by
    cases hfail : c.isFailed with
    | true => rfl
    | false =>
        rw [DepositRecord.effectiveStage_of_not_failed hfail] at h
        rw [Bool.false_or, DepositState.isTerminal, state, h]
        rfl
  rw [progress, if_pos hstopped]

@[simp] theorem isFailed_catalogueStep (a : Artefact) :
    (catalogueStep signals now a).isFailed = a.isFailed :=
  (a.record.advances_progress _ now).isFailed

/-- Steps of the catalogues do not change whether a failed one fails the collection. -/
theorem hasFailed_progress_iff (c : Collection) (signals : Signals) (now : Timestamp) :
    (c.stage == .depositing && (c.progress signals now).1.catalogues.any (·.isFailed)) = true ↔
      c.stage = .depositing ∧ ∃ a ∈ c.catalogues, a.isFailed = true := by
  by_cases hstage : c.stage = .depositing
  · simp [progress_catalogues, hstage]
  · simp [hstage]

/-- What becomes of the collection's own record in a call of progress: it fails with a catalogue, it
stays, or it takes the step that its catalogues, as they are then, permit. -/
theorem progress_record_cases (c : Collection) (signals : Signals) (now : Timestamp) :
    let c' := (c.progress signals now).1
    (c.stage = .depositing ∧ (∃ a ∈ c.catalogues, a.isFailed = true) ∧
      c'.record = (c.record.replace c.state.failed now).1) ∨
    (¬ (c.stage = .depositing ∧ ∃ a ∈ c.catalogues, a.isFailed = true) ∧
      (c'.record = c.record ∨
        ∃ step, c.state.lifecycle.stepFrom? c.stage = some step ∧
          Surroundings.permits
            { signals := signals, children := c'.catalogues.map Artefact.state } step
              c.state.owner = true ∧
            c.record.effectiveStage = step.source ∧ c'.record.effectiveStage = step.target ∧
              c'.stage = step.target)) := by
  intro c'
  have hrecord : c'.record = _ := c.progress_record signals now
  have hfailed := c.hasFailed_progress_iff signals now
  unfold ownNext at hrecord
  split at hrecord
  · next hboth =>
      obtain ⟨hstage, hsome⟩ := hfailed.mp hboth
      exact Or.inl ⟨hstage, hsome, hrecord⟩
  · next hboth =>
      refine Or.inr ⟨fun hyes => hboth (hfailed.mpr hyes), ?_⟩
      let around : Surroundings :=
        { signals := signals, children := c'.catalogues.map Artefact.state }
      rcases c.record.replace_progress_cases around now with
        hsame | ⟨step, hstep, hpermit, hsource, htarget⟩
      · exact Or.inl (hrecord.trans hsame)
      · refine Or.inr ⟨step, hstep, hpermit, hsource, hrecord ▸ htarget, ?_⟩
        rw [stage, hrecord, DepositRecord.stage_replace]
        exact DepositState.stage_progress hstep hpermit

/-- A call of progress fails a collection exactly when it deposits and a catalogue is failed; it is
then taken back to where it deposits. -/
theorem progress_fails_iff (c : Collection) (signals : Signals) (now : Timestamp) :
    let c' := (c.progress signals now).1
    (c.isFailed = false ∧ c'.stage = .failed ∧ c'.record.checkpoint = some .depositing) ↔
      c.stage = .depositing ∧ ∃ a ∈ c.catalogues, a.isFailed = true := by
  intro c'
  constructor
  · rintro ⟨hnot, hfailed, _⟩
    rcases c.progress_record_cases signals now with
      ⟨hstage, hsome, _⟩ | ⟨_, hsame | ⟨step, hstep, _, _, _, hstage⟩⟩
    · exact ⟨hstage, hsome⟩
    · rw [show c'.stage = c.stage from congrArg (·.state.stage) hsame] at hfailed
      rw [isFailed, DepositState.isFailed, show c.state.stage = _ from hfailed] at hnot
      cases hnot
    · have hline := (Lifecycle.place_stepFrom? hstep).2.1
      rw [← hstage, show c'.stage = _ from hfailed] at hline
      cases Lifecycle.isFailure_of_isOnLine hline
  · rintro ⟨hstage, hsome⟩
    have hrecord : c'.record = (c.record.replace c.state.failed now).1 := by
      rcases c.progress_record_cases signals now with ⟨_, _, hrecord⟩ | ⟨hnot, _⟩
      · exact hrecord
      · exact absurd ⟨hstage, hsome⟩ hnot
    have hown : c.record.state.stage = .depositing := hstage
    have hne : c.state.failed.stage ≠ c.record.state.stage := by
      rw [hown]
      rintro ⟨⟩
    have hnot : c.record.isFailed = false := by
      rw [DepositRecord.isFailed, DepositState.isFailed, hown]
      rfl
    refine ⟨hnot, ?_, ?_⟩
    · rw [stage, hrecord, DepositRecord.stage_replace]
      rfl
    · rw [hrecord, DepositRecord.replace_of_stage_ne hne, hnot, hown]
      rfl

theorem continues_progress_record (c : Collection) (signals : Signals) (now : Timestamp) :
    c.record.Continues (c.progress signals now).1.record := by
  rw [progress_record, ownNext]
  split
  · exact (c.record.stays_failed now).continues
  · exact c.record.continues_progress _ now

theorem Becomes.continues_record (h : c.Becomes now operation c')
    (hallowed : c.AllowsCourse operation) : c.record.Continues c'.record := by
  by_cases hprogress : ∃ signals, operation = .progress signals
  · obtain ⟨signals, rfl⟩ := hprogress
    cases h with
    | refused => exact DepositRecord.Continues.refl _
    | progressed => exact c.continues_progress_record signals now
  · exact (h.stays hallowed fun signals heq => hprogress ⟨signals, heq⟩).1.continues

theorem Becomes.sound_catalogues (h : c.Becomes now operation c') (hsound : c.Sound) :
    ∀ b ∈ c'.catalogues, b.state.lifecycle = .standard ∧ b.record.Sound := by
  intro b hb
  by_cases hadds : ∃ filename, operation = .add filename
  · obtain ⟨filename, rfl⟩ := hadds
    cases h with
    | refused => exact hsound.catalogues b hb
    | added _ id =>
        rcases List.mem_append.mp hb with hold | hnew
        · exact hsound.catalogues b hold
        · rw [List.mem_singleton.mp hnew]
          exact ⟨rfl, DepositRecord.sound_new .standard _⟩
  · obtain ⟨a, ha, log, haccounts⟩ :=
      h.mem_catalogues (fun filename heq => hadds ⟨filename, heq⟩) hb
    obtain ⟨hl, hrecord⟩ := hsound.catalogues a ha
    exact ⟨haccounts.continues.record.lifecycle.trans hl, haccounts.continues.record.sound hrecord⟩

theorem Sound.perform (h : c.Sound) (hallowed : c.AllowsCourse operation) (now : Timestamp) :
    (c.perform operation now).1.Sound := by
  have hbecomes := c.becomes_perform operation now
  have hrecord := hbecomes.continues_record hallowed
  exact ⟨hrecord.lifecycle.trans h.lifecycle, hrecord.sound h.record, hbecomes.sound_catalogues h⟩

/-- The collection is deposited only with all its catalogues, at the effective stages, and has a
time of completion exactly when it is. -/
structure Consistent (c : Collection) : Prop where
  catalogues : c.record.effectiveStage = .deposited →
    ∀ a ∈ c.catalogues, a.record.effectiveStage = .deposited
  completed : c.completed.isSome = true ↔ c.record.effectiveStage = .deposited

theorem consistent_fresh (id : CollectionId) : (fresh id).Consistent :=
  ⟨fun heq => (nomatch heq), ⟨fun heq => (nomatch heq), fun heq => (nomatch heq)⟩⟩

/-- A collection comes to be deposited only over deposited catalogues. -/
theorem catalogues_of_progress_deposited (hsound : c.Sound)
    (hbefore : c.record.effectiveStage ≠ .deposited)
    (hafter : (c.progress signals now).1.record.effectiveStage = .deposited) :
    (c.progress signals now).1.stage = .deposited ∧
      ∀ b ∈ (c.progress signals now).1.catalogues, b.isDeposited = true := by
  rcases c.progress_record_cases signals now with
    ⟨_, _, hrecord⟩ | ⟨_, hrecord | ⟨step, hstep, hpermit, _, htarget, hstage⟩⟩
  · have hstays := (c.record.stays_failed now).effectiveStage hsound.record
    rw [hrecord] at hafter
    exact absurd (hstays.symm.trans hafter) hbefore
  · rw [hrecord] at hafter
    exact absurd hafter hbefore
  · rw [hafter] at htarget
    rw [hsound.lifecycle] at hstep
    have hgate := Lifecycle.gate_of_target_deposited step (List.mem_of_find?_eq_some hstep)
      htarget.symm
    simp only [Surroundings.permits, hgate, Surroundings.opens, List.all_map, Bool.and_eq_true,
      List.all_eq_true] at hpermit
    exact ⟨hstage.trans htarget.symm, hpermit.1⟩

theorem Consistent.progress (h : c.Consistent) (hsound : c.Sound) (signals : Signals)
    (now : Timestamp) : (c.progress signals now).1.Consistent := by
  by_cases hbefore : c.record.effectiveStage = .deposited
  · rw [progress_of_deposited hbefore]
    exact h
  · have hnone : ¬ c.completed.isSome = true := fun hsome => hbefore (h.completed.mp hsome)
    have hnot : c.stage ≠ .deposited := fun heq =>
      hbefore (DepositRecord.effectiveStage_of_stage_deposited heq)
    have hstage : (c.progress signals now).1.completed.isSome = true ↔
        (c.progress signals now).1.stage = .deposited := by
      rw [progress_completed]
      split
      · next hboth => simp [hboth.2]
      · next hboth =>
          refine iff_of_false hnone fun heq => hboth ⟨?_, heq⟩
          rw [heq]
          exact hnot.symm
    refine ⟨fun hafter b hb => Artefact.effectiveStage_of_isDeposited
      ((catalogues_of_progress_deposited hsound hbefore hafter).2 b hb), hstage.trans ⟨?_, ?_⟩⟩
    · exact DepositRecord.effectiveStage_of_stage_deposited
    · exact fun hafter => (catalogues_of_progress_deposited hsound hbefore hafter).1

/-- An operation that is allowed keeps collection and catalogues in accord. -/
theorem Consistent.perform (h : c.Consistent) (hsound : c.Sound)
    (hallowed : c.AllowsCourse operation) (now : Timestamp) :
    (c.perform operation now).1.Consistent := by
  by_cases hprogress : ∃ signals, operation = .progress signals
  · obtain ⟨signals, rfl⟩ := hprogress
    exact h.progress hsound signals now
  · have hbecomes := c.becomes_perform operation now
    obtain ⟨hstays, hcompleted⟩ :=
      hbecomes.stays hallowed fun signals heq => hprogress ⟨signals, heq⟩
    have hstage := hstays.effectiveStage hsound.record
    refine ⟨fun hdeposited b hb => ?_, by rw [hcompleted, hstage]; exact h.completed⟩
    rw [hstage] at hdeposited
    have hadds : ∀ filename, operation ≠ .add filename := by
      rintro filename rfl
      exact hallowed hdeposited
    obtain ⟨a, ha, log, haccounts⟩ := hbecomes.mem_catalogues hadds hb
    exact haccounts.continues.record.deposited (hsound.catalogues a ha).2
      (h.catalogues hdeposited a ha)

theorem Reachable.consistent (h : Reachable AllowsCourse c) : c.Sound ∧ c.Consistent := by
  induction h with
  | new hnew =>
      cases hnew
      exact ⟨sound_fresh _, consistent_fresh _⟩
  | perform _ operation hallowed now ih =>
      exact ⟨ih.1.perform hallowed now, ih.2.perform ih.1 hallowed now⟩

/-- A time of completion that is noted is not noted again. -/
theorem completed_performEach (h : Reachable AllowsCourse c) {t : Timestamp}
    (hcompleted : c.completed = some t) {calls : List CollectionCall}
    (hallowed : AllowsEach AllowsCourse c calls) : (performEach c calls).completed = some t := by
  induction calls generalizing c with
  | nil => exact hcompleted
  | cons call rest ih =>
      refine ih (h.perform call.1 hallowed.1 call.2) ?_ hallowed.2
      by_cases hprogress : ∃ signals, call.1 = .progress signals
      · obtain ⟨signals, hcall⟩ := hprogress
        have hdeposited := h.consistent.2.completed.mp (by rw [hcompleted]; rfl)
        rw [hcall, Collection.perform, progress_of_deposited hdeposited]
        exact hcompleted
      · exact ((c.becomes_perform call.1 call.2).stays hallowed.1
          fun signals heq => hprogress ⟨signals, heq⟩).2.trans hcompleted

/-- Calls of progress with every report in, at some times. -/
def progressCalls (times : List Timestamp) : List CollectionCall :=
  times.map fun now => (.progress Signals.autoComplete, now)

/-- Neither the collection nor a catalogue is failed. -/
structure NothingFailed (c : Collection) : Prop where
  own : c.isFailed = false
  catalogues : ∀ a ∈ c.catalogues, a.isFailed = false

/-- All is deposited, or some calls are left until it is: one for each step of the collection up to
where it deposits, and from there one for each step of the last catalogue. -/
def DueIn (c : Collection) (n : Nat) : Prop :=
  (c.isDeposited = true ∧ ∀ a ∈ c.catalogues, a.isDeposited = true) ∨
    ∃ k m, c.record.ahead = k + 1 ∧ (∀ a ∈ c.catalogues, a.ahead ≤ m + 1) ∧ k + m < n

theorem Sound.progress (h : c.Sound) (signals : Signals) (now : Timestamp) :
    (c.progress signals now).1.Sound :=
  Sound.perform h (show c.AllowsCourse (.progress signals) from trivial) now

/-- Where nothing is failed, the collection takes the step that its catalogues permit. -/
theorem NothingFailed.progress_record (h : c.NothingFailed) :
    (c.progress signals now).1.record = (c.record.replace (c.state.progress
      { signals := signals,
        children := (c.progress signals now).1.catalogues.map Artefact.state }) now).1 := by
  have hcatalogues := h.catalogues
  have hnone : (c.progress signals now).1.catalogues.any (·.isFailed) = false := by
    rw [progress_catalogues]
    split <;> simpa using hcatalogues
  rw [Collection.progress_record, ownNext, hnone, Bool.and_false]
  rfl

theorem NothingFailed.progress (h : c.NothingFailed) (signals : Signals) (now : Timestamp) :
    (c.progress signals now).1.NothingFailed where
  own := by
    rw [isFailed, state, h.progress_record]
    exact (c.record.advances_progress _ now).isFailed.trans h.own
  catalogues := by
    have hcatalogues := h.catalogues
    rw [progress_catalogues]
    split <;> simpa using hcatalogues

/-- A catalogue whose collection deposits has one step less ahead. -/
theorem ahead_catalogueStep {a : Artefact} (hl : a.state.lifecycle = .standard)
    (hnot : a.isFailed = false) (now : Timestamp) :
    (catalogueStep Signals.autoComplete now a).ahead = a.ahead - 1 := by
  refine Artefact.ahead_progress_of_permits hnot (fun step hstep => ?_) now
  rw [hl] at hstep
  rw [Surroundings.permits_autoComplete rfl,
    Lifecycle.standard_gates step (List.mem_of_find?_eq_some hstep)]
  rfl

/-- A collection that deposits goes on to its end in the call in which its catalogues do, and waits
for them in every other. -/
theorem NothingFailed.progress_depositing (h : c.NothingFailed) (hsound : c.Sound)
    (hstage : c.stage = .depositing) (now : Timestamp) :
    let after := (c.progress Signals.autoComplete now).1
    ((∀ a ∈ after.catalogues, a.isDeposited = true) → after.isDeposited = true) ∧
      ((∃ a ∈ after.catalogues, a.isDeposited = false) → after.record = c.record) := by
  intro after
  have hstep : c.state.lifecycle.stepFrom? c.state.stage =
      some ⟨.depositing, .deposited, .childrenDeposited, false⟩ := by
    rw [hsound.lifecycle, show c.state.stage = _ from hstage]
    rfl
  constructor
  · intro hall
    let around : Surroundings :=
      { signals := .autoComplete, children := after.catalogues.map Artefact.state }
    have hpermit : around.permits ⟨.depositing, .deposited, .childrenDeposited, false⟩
        c.state.owner = true := by
      simpa [around, Surroundings.permits, Surroundings.opens, Artefact.isDeposited] using hall
    have hnext := DepositState.stage_progress hstep hpermit
    refine beq_of_eq ?_
    rw [state, h.progress_record, DepositRecord.stage_replace, hnext]
  · rintro ⟨a, ha, hnot⟩
    rcases c.progress_record_cases Signals.autoComplete now with
      ⟨_, ⟨b, hb, hfailed⟩, _⟩ | ⟨_, hsame | ⟨step, hsome, hpermit, _⟩⟩
    · rw [h.catalogues b hb] at hfailed
      cases hfailed
    · exact hsame
    · rw [show c.state.lifecycle.stepFrom? c.stage = _ from hstep] at hsome
      cases hsome
      simp only [Surroundings.permits, Surroundings.opens, List.all_map, Bool.and_eq_true,
        List.all_eq_true] at hpermit
      have hyes : a.isDeposited = true := hpermit.1 a ha
      rw [hnot] at hyes
      cases hyes

/-- Up to where it deposits, every call takes the collection one step further. -/
theorem NothingFailed.ahead_progress (h : c.NothingFailed) (hsound : c.Sound)
    (hstage : c.stage ≠ .depositing) (now : Timestamp) :
    (c.progress Signals.autoComplete now).1.record.ahead = c.record.ahead - 1 := by
  rw [h.progress_record]
  refine DepositRecord.ahead_progress_of_permits h.own (fun step hstep => ?_) now
  have hsource : step.source ≠ .depositing := by
    rw [Lifecycle.source_of_stepFrom? hstep]
    exact hstage
  rw [show c.record.state.lifecycle = _ from hsound.lifecycle] at hstep
  rw [Surroundings.permits_autoComplete rfl,
    Lifecycle.gate_of_source_ne_depositing step (List.mem_of_find?_eq_some hstep) hsource]
  rfl

theorem Sound.ahead_eq_one_iff (h : c.Sound) : c.record.ahead = 1 ↔ c.stage = .depositing := by
  rw [DepositRecord.ahead, show c.record.state.lifecycle = _ from h.lifecycle]
  exact Lifecycle.ahead_level7Collection_eq_one_iff

/-- While the collection deposits, a call takes one step off every catalogue. -/
theorem NothingFailed.dueIn_depositing (h : c.NothingFailed) (hsound : c.Sound)
    (hstage : c.stage = .depositing) {m : Nat} (hwithin : ∀ a ∈ c.catalogues, a.ahead ≤ m + 1)
    (now : Timestamp) : (c.progress Signals.autoComplete now).1.DueIn m := by
  have hafter := h.progress Signals.autoComplete now
  obtain ⟨hdeposits, hwaits⟩ := h.progress_depositing hsound hstage now
  have hcloser : ∀ b ∈ (c.progress Signals.autoComplete now).1.catalogues, b.ahead ≤ m := by
    rw [progress_catalogues, if_pos hstage]
    intro b hb
    obtain ⟨a, ha, rfl⟩ := List.mem_map.mp hb
    have hbefore := hwithin a ha
    rw [ahead_catalogueStep (hsound.catalogues a ha).1 (h.catalogues a ha)]
    omega
  by_cases hall : ∀ b ∈ (c.progress Signals.autoComplete now).1.catalogues, b.isDeposited = true
  · exact Or.inl ⟨hdeposits hall, hall⟩
  · obtain ⟨b, hb, hnot⟩ : ∃ b ∈ (c.progress Signals.autoComplete now).1.catalogues,
        b.isDeposited = false := by
      simpa using hall
    -- The catalogue still has a step ahead after the call, so this was not the last call.
    have hpositive : b.ahead ≠ 0 := fun hzero => by
      rw [(Artefact.isDeposited_iff_ahead (hafter.catalogues b hb)).mpr hzero] at hnot
      cases hnot
    have hle := hcloser b hb
    refine Or.inr ⟨0, m - 1, ?_, fun a ha => ?_, by omega⟩
    · rw [hwaits ⟨b, hb, hnot⟩]
      exact hsound.ahead_eq_one_iff.mpr hstage
    · have hcatalogue := hcloser a ha
      omega

/-- Every call brings the deposit one call closer. -/
theorem NothingFailed.dueIn_progress (h : c.NothingFailed) (hsound : c.Sound) {n : Nat}
    (hdue : c.DueIn (n + 1)) (now : Timestamp) :
    (c.progress Signals.autoComplete now).1.DueIn n := by
  rcases hdue with ⟨hdeposited, hall⟩ | ⟨k, m, hahead, hwithin, hlt⟩
  · rw [progress_of_deposited (DepositRecord.effectiveStage_of_stage_deposited
      (eq_of_beq hdeposited))]
    exact Or.inl ⟨hdeposited, hall⟩
  · by_cases hstage : c.stage = .depositing
    · rcases h.dueIn_depositing hsound hstage hwithin now with
        hdone | ⟨k', m', hahead', hwithin', hlt'⟩
      · exact Or.inl hdone
      · exact Or.inr ⟨k', m', hahead', hwithin', by omega⟩
    · have hown := h.ahead_progress hsound hstage now
      have hone : c.record.ahead ≠ 1 := fun heq => hstage (hsound.ahead_eq_one_iff.mp heq)
      refine Or.inr ⟨k - 1, m, by omega, ?_, by omega⟩
      rw [progress_catalogues, if_neg hstage]
      exact hwithin

theorem NothingFailed.deposited_performEach {times : List Timestamp} (h : c.NothingFailed)
    (hsound : c.Sound) (hdue : c.DueIn times.length) :
    let after := performEach c (progressCalls times)
    after.isDeposited = true ∧ ∀ b ∈ after.catalogues, b.isDeposited = true := by
  induction times generalizing c with
  | nil =>
      rcases hdue with hdone | ⟨k, m, _, _, hlt⟩
      · exact hdone
      · exact absurd hlt (Nat.not_lt_zero _)
  | cons now rest ih =>
      exact ih (h.progress _ now) (hsound.progress _ now) (h.dueIn_progress hsound hdue now)

/-- The line of a collection has five steps and that of a catalogue four, the first of which is
taken in the call after the collection's fourth. -/
theorem Reachable.dueIn_eight (h : Reachable AllowsCourse c) (hnot : c.NothingFailed) :
    c.DueIn 8 := by
  obtain ⟨hsound, hconsistent⟩ := h.consistent
  by_cases hzero : c.record.ahead = 0
  · have hdeposited : c.isDeposited = true :=
      (DepositRecord.isDeposited_iff_ahead hnot.own).mpr hzero
    refine Or.inl ⟨hdeposited, fun a ha => beq_of_eq ?_⟩
    have heffective := DepositRecord.effectiveStage_of_stage_deposited (eq_of_beq hdeposited)
    rw [← hconsistent.catalogues heffective a ha]
    exact (DepositRecord.effectiveStage_of_not_failed (hnot.catalogues a ha)).symm
  · have hown : c.record.ahead ≤ Lifecycle.level7Collection.steps.length :=
      hsound.lifecycle ▸ Lifecycle.ahead_le _ _
    have hfive : Lifecycle.level7Collection.steps.length = 5 := rfl
    refine Or.inr ⟨c.record.ahead - 1, 3, by omega, fun a ha => ?_, by omega⟩
    have hcatalogue : a.ahead ≤ Lifecycle.standard.steps.length :=
      (hsound.catalogues a ha).1 ▸ Lifecycle.ahead_le _ _
    exact hcatalogue

/-- In every state of every run, the collection is deposited only with all its catalogues, and it
has a time of completion, noted once, exactly when it is.  A call of progress touches catalogues
only while the collection deposits, and fails the collection exactly when it then has a failed one.
Where nothing is failed, eight calls with every report in deposit all. -/
theorem consistent_of_reachable (h : Reachable AllowsCourse c) :
    c.Consistent ∧
      (∀ t, c.completed = some t → ∀ calls, AllowsEach AllowsCourse c calls →
        (performEach c calls).completed = some t) ∧
      (∀ signals now, let after := (c.progress signals now).1
        (c.stage ≠ .depositing → after.catalogues = c.catalogues) ∧
        ((c.isFailed = false ∧ after.stage = .failed ∧
            after.record.checkpoint = some .depositing) ↔
          c.stage = .depositing ∧ ∃ a ∈ c.catalogues, a.isFailed = true)) ∧
      (c.NothingFailed → ∀ times : List Timestamp, times.length = 8 →
        let after := performEach c (progressCalls times)
        (after.isDeposited = true ∧ ∀ b ∈ after.catalogues, b.isDeposited = true) ∧
          ∀ (i : Nat) (a : Artefact), c.catalogues[i]? = some a →
            ∃ b, after.catalogues[i]? = some b ∧ b.filename = a.filename) := by
  refine ⟨h.consistent.2, fun t hcompleted calls => completed_performEach h hcompleted,
    fun signals now => ⟨fun hstage => ?_, c.progress_fails_iff signals now⟩, ?_⟩
  · rw [progress_catalogues, if_neg hstage]
  · intro hnot times hlength
    have hdue := h.dueIn_eight hnot
    rw [← hlength] at hdue
    refine ⟨hnot.deposited_performEach h.consistent.1 hdue, fun i a ha => ?_⟩
    obtain ⟨b, _, hb, haccounts⟩ := catalogue_performEach (progressCalls times) ha
    exact ⟨b, hb, haccounts.continues.filename⟩

/-- A collection that was invalid and taken back is deposited with its two catalogues in eight
calls; the time of that stays when it fails again afterwards. -/
theorem consistent_invalid_and_taken_back :
    ∃ (c : Collection) (now later : Timestamp), Reachable AllowsCourse c ∧ c.NothingFailed ∧
      c.record.failureCount = 1 ∧ c.catalogues.length = 2 ∧
        let after := performEach c (progressCalls (List.replicate 8 now))
        (after.isDeposited = true ∧ ∀ b ∈ after.catalogues, b.isDeposited = true) ∧
          after.completed = some now ∧
            (performEach after
              [(.advance .failed, later), (.progress .autoComplete, later)]).completed =
                some now := by
  let now := Timestamp.ofUnixSeconds 0
  let later := Timestamp.ofUnixSeconds 1
  let c := performEach (fresh ⟨7⟩) [(.add "a", now), (.progress .autoComplete, now),
    (.advance .invalid, now), (.recoverOwn, now), (.add "b", now)]
  have hrun : Reachable AllowsCourse c :=
    (Reachable.new (new_standard ⟨7⟩)).performEach
      ⟨by decide +kernel, trivial, rfl, trivial, by decide +kernel, trivial⟩
  have hnot : c.NothingFailed := ⟨by decide +kernel, by decide +kernel⟩
  let after := performEach c (progressCalls (List.replicate 8 now))
  have hrunAfter : Reachable AllowsCourse after :=
    hrun.performEach
      ⟨trivial, trivial, trivial, trivial, trivial, trivial, trivial, trivial, trivial⟩
  have hcompleted : after.completed = some now := by decide +kernel
  have hall := (consistent_of_reachable hrun).2.2.2 hnot (List.replicate 8 now) rfl
  have hkept := (consistent_of_reachable hrunAfter).2.1 now hcompleted
    [(.advance .failed, later), (.progress .autoComplete, later)] ⟨rfl, trivial, trivial⟩
  exact ⟨c, now, later, hrun, hnot, by decide +kernel, by decide +kernel, hall.1, hcompleted, hkept⟩

end Collection

end CollectionCourse

end ArchiveDeposit

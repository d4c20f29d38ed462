import ArchiveDeposit.Proofs.Advance
import ArchiveDeposit.Proofs.Retention

/-!
# How failures spread

A call of progress fails no file and leaves failed files alone.  It fails the observation exactly
when a file that may step is failed, which is a matter of the stage of the observation and of the
files before the call: what the other files do in the call, also an encapsulation that takes its
members along, makes no difference.  The failure of the observation is then counted, or the call has
no result if there is no number left for it, and it is the last thing reported.

Afterwards nothing is asked of anybody until something is taken back, whatever jobs report
meanwhile.

**Results.**
* `Observation.fileStep_of_isFailed`: a call of progress leaves failed files alone.
* `Observation.FailsNext.progress`: what becomes of the observation when it fails.
* `Observation.progress_of_failed_run`: nothing moves until something is taken back.
* `Observation.progress_fails_exactly`: all of this, in every state of every run.
-/

namespace ArchiveDeposit

section FailurePropagation

namespace DepositRecord

variable {r s : DepositRecord}

theorem ahead_of_isFailed (h : r.isFailed = true) : r.ahead = 0 := by
  have hnone : r.state.lifecycle.position? r.state.stage = none := by
    cases hplace : r.state.lifecycle.position? r.state.stage with
    | none => rfl
    | some n =>
        have hnot : r.isFailed = false :=
          Lifecycle.isFailure_of_isOnLine (Lifecycle.isOnLine_of_position? hplace).1
        rw [h] at hnot
        cases hnot
  rw [ahead, Lifecycle.ahead, hnone]
  rfl

theorem Advances.eq_of_isFailed (h : r.Advances s) (hfailed : r.isFailed = true) : s = r := by
  rcases h.ahead with hsame | hlt
  · exact hsame
  · rw [ahead_of_isFailed hfailed] at hlt
    exact absurd hlt (Nat.not_lt_zero _)

end DepositRecord

namespace Observation

variable {o : Observation} {signals : Signals} {now : Timestamp}

theorem isFailed_fileStep (stage : Stage) (artefacts : List Artefact) (signals : Signals)
    (now : Timestamp) (a : Artefact) :
    (fileStep stage artefacts signals now a).isFailed = a.isFailed :=
  (advances_fileStep stage artefacts signals now a).isFailed

/-- A call of progress leaves failed files alone. -/
theorem fileStep_of_isFailed {a : Artefact} (hfailed : a.isFailed = true) (stage : Stage)
    (artefacts : List Artefact) (signals : Signals) (now : Timestamp) :
    fileStep stage artefacts signals now a = a :=
  (continues_fileStep stage artefacts signals now a).eq_of_record
    ((advances_fileStep stage artefacts signals now a).eq_of_isFailed hfailed)

/-- Whether the next call of progress fails the observation: a file that may step is failed. -/
def FailsNext (o : Observation) : Prop :=
  o.stage = .priorityDepositing ∧
      (∃ a ∈ o.artefacts, a.kind.isPriority = true ∧ a.isFailed = true) ∨
    o.stage = .depositing ∧ ∃ a ∈ o.artefacts, a.isFailed = true

instance (o : Observation) : Decidable o.FailsNext := inferInstanceAs (Decidable (_ ∨ _))

theorem hasFailedInScope_iff {stage : Stage} {artefacts : List Artefact} :
    hasFailedInScope stage artefacts = true ↔
      stage = .priorityDepositing ∧
          (∃ a ∈ artefacts, a.kind.isPriority = true ∧ a.isFailed = true) ∨
        stage = .depositing ∧ ∃ a ∈ artefacts, a.isFailed = true := by
  unfold hasFailedInScope
  cases stage <;> simp [inScope?]

/-- Whether a file that may step is failed is the same before a call of progress and after it. -/
theorem hasFailedInScope_progress (h : o.WellFormed) (signals : Signals) (now : Timestamp) :
    hasFailedInScope o.stage (o.progress signals now).1.artefacts = true ↔ o.FailsNext := by
  have hstep : ∀ a ∈ o.artefacts,
      (fileStep o.stage o.artefacts signals now a).isFailed = a.isFailed ∧
        (fileStep o.stage o.artefacts signals now a).kind = a.kind := fun a _ =>
    ⟨isFailed_fileStep o.stage o.artefacts signals now a,
      (continues_fileStep o.stage o.artefacts signals now a).kind⟩
  have hsome : (∃ b ∈ o.artefacts.map (fileStep o.stage o.artefacts signals now),
      b.isFailed = true) ↔ ∃ a ∈ o.artefacts, a.isFailed = true := by
    simp only [List.mem_map, exists_exists_and_eq_and]
    exact exists_congr fun a => and_congr_right fun ha => by rw [(hstep a ha).1]
  have hpriority : (∃ b ∈ o.artefacts.map (fileStep o.stage o.artefacts signals now),
      b.kind.isPriority = true ∧ b.isFailed = true) ↔
        ∃ a ∈ o.artefacts, a.kind.isPriority = true ∧ a.isFailed = true := by
    simp only [List.mem_map, exists_exists_and_eq_and]
    exact exists_congr fun a => and_congr_right fun ha => by
      rw [(hstep a ha).1, (hstep a ha).2]
  rw [progress_artefacts h.files, hasFailedInScope_iff, hsome, hpriority, FailsNext]

theorem FailsNext.not_isFailed (h : o.FailsNext) : o.isFailed = false := by
  rcases h with ⟨hstage, _⟩ | ⟨hstage, _⟩ <;>
    rw [isFailed, DepositState.isFailed, show o.state.stage = _ from hstage] <;> rfl

/-- What becomes of the observation when it fails, and what is reported of it. -/
theorem FailsNext.progress (h : o.FailsNext) (hwf : o.WellFormed) (signals : Signals)
    (now : Timestamp) :
    let after := (o.progress signals now).1
    (o.progress signals now).2.getLast? =
        some ⟨.observation o.sbid, o.stage, .failed, now⟩ ∧
      after.stage = .failed ∧ after.record.checkpoint = some o.stage ∧
        after.record.failureCount = o.record.failureCount + 1 := by
  intro after
  have hown := (hasFailedInScope_progress hwf signals now).mpr h
  have hnot : o.record.isFailed = false := h.not_isFailed
  have hne : o.state.failed.stage ≠ o.record.state.stage := fun heq => by
    rw [DepositRecord.isFailed, DepositState.isFailed, ← heq] at hnot
    cases hnot
  have hreplace := DepositRecord.replace_of_stage_ne hne now
  have hrecord : after.record = (o.record.replace o.state.failed now).1 := by
    rw [show after.record = _ from progress_record o signals now, ownNext, if_pos hown]
  have hreport : (o.progress signals now).2.getLast? =
      some ⟨o.state.owner, o.stage, .failed, now⟩ := by
    have hfiles : (progressFiles o.stage o.artefacts signals now).1 = after.artefacts := by
      rw [show after.artefacts = _ from progress_artefacts hwf.files,
        progressFiles_fst hwf.files.arranged]
    rw [progress_snd, hfiles, ownNext, if_pos hown, hreplace]
    exact List.getLast?_concat
  refine ⟨hwf.owner ▸ hreport, ?_, ?_, ?_⟩
  · rw [stage, hrecord, DepositRecord.stage_replace]
    rfl
  · rw [hrecord, hreplace, hnot]
    rfl
  · rw [hrecord, hreplace]
    rfl

/-- A call of progress fails the observation exactly when a file that may step is failed. -/
theorem progress_fails_iff (h : o.WellFormed) (signals : Signals) (now : Timestamp) :
    (o.isFailed = false ∧ (o.progress signals now).1.isFailed = true) ↔ o.FailsNext := by
  constructor
  · rintro ⟨hnot, hfailed⟩
    rw [← hasFailedInScope_progress h signals now]
    cases hscope : hasFailedInScope o.stage (o.progress signals now).1.artefacts with
    | true => rfl
    | false =>
        have hkept := (o.record.advances_progress
          (ownSurroundings (o.progress signals now).1.artefacts signals) now).isFailed
        have hrecord := progress_record o signals now
        rw [ownNext, hscope] at hrecord
        rw [isFailed, state, hrecord] at hfailed
        rw [isFailed, state] at hnot
        rw [DepositRecord.isFailed, DepositRecord.isFailed, hnot] at hkept
        exact absurd (hkept.symm.trans hfailed) Bool.false_ne_true
  · intro hnext
    refine ⟨hnext.not_isFailed, ?_⟩
    have hstage := (hnext.progress h signals now).2.1
    exact congrArg Stage.isFailure hstage

theorem progress_of_isFailed (h : o.isFailed = true) (signals : Signals) (now : Timestamp) :
    o.progress signals now = (o, []) := by
  rw [Observation.progress, if_pos (by rw [h, Bool.true_or])]

/-- What has failed stays so through an operation that takes nothing back. -/
theorem isFailed_perform {operation : Operation} (hsound : o.Sound) (h : o.isFailed = true)
    (hrecovers : operation.recovers = false) (now : Timestamp) :
    (o.perform operation now).1.isFailed = true := by
  cases hadds : operation.adds with
  | true =>
      rcases perform_adds_cases hsound.wellFormed hadds now with hsame | ⟨_, _, _, _, _, hok⟩
      · rw [hsame]
        exact h
      · obtain ⟨_, _, _, l, _, hpushed⟩ := push_spec hok
        rw [hpushed]
        exact h
  | false =>
      obtain ⟨f, haccounts⟩ := perform_accounts hsound hadds now
      rw [Operation.way, hrecovers] at haccounts
      exact haccounts.own.isFailed h

/-- The observation after some operations, one after the other, each at its own time. -/
def performCalls : Observation → List (Operation × Timestamp) → Observation
  | o, [] => o
  | o, (operation, now) :: rest => performCalls (o.perform operation now).1 rest

/-- Once the observation has failed, nothing moves in a call of progress until something is taken
back. -/
theorem progress_of_failed_run {calls : List (Operation × Timestamp)} (hsound : o.Sound)
    (h : o.isFailed = true) (hrecovers : ∀ call ∈ calls, call.1.recovers = false)
    (signals : Signals) (now : Timestamp) :
    (performCalls o calls).progress signals now = (performCalls o calls, []) := by
  induction calls generalizing o with
  | nil => exact progress_of_isFailed h signals now
  | cons call rest ih =>
      exact ih (hsound.perform call.1 call.2)
        (isFailed_perform hsound h (hrecovers call List.mem_cons_self) call.2)
        fun other hother => hrecovers other (List.mem_cons_of_mem _ hother)

/-- A call of progress has no result exactly where the observation fails and there is no number left
for its failures. -/
theorem returned?_progress_eq_none_iff (h : o.WellFormed) (signals : Signals) (now : Timestamp) :
    returned? o (o.progress signals now) = none ↔
      o.FailsNext ∧ o.record.failureCount.toNat + 1 = UInt32.size := by
  have hfiles : ¬∃ a ∈ o.artefacts,
      a.record.hasWrapped (fileStep o.stage o.artefacts signals now a).record = true := by
    rintro ⟨a, _, hwrapped⟩
    have hcount := (advances_fileStep o.stage o.artefacts signals now a).failureCount
    rw [DepositRecord.hasWrapped_eq_true_iff, hcount] at hwrapped
    exact Nat.lt_irrefl _ hwrapped
  rw [returned?_eq_none_iff (progress_artefacts h.files), or_iff_left hfiles]
  by_cases hnext : o.FailsNext
  · rw [DepositRecord.hasWrapped_of_succ (hnext.progress h signals now).2.2.2]
    exact (and_iff_right hnext).symm
  · have hscope : ¬hasFailedInScope o.stage (o.progress signals now).1.artefacts = true := fun heq =>
      hnext ((hasFailedInScope_progress h signals now).mp heq)
    have hcount := (o.record.advances_progress
      (ownSurroundings (o.progress signals now).1.artefacts signals) now).failureCount
    rw [DepositRecord.hasWrapped_eq_true_iff, progress_record, ownNext, if_neg hscope]
    exact iff_of_false (Nat.not_lt_of_le (Nat.le_of_eq (congrArg UInt32.toNat hcount.symm)))
      fun hboth => hnext hboth.1

/-- In every state of every run, a call of progress fails no file and leaves failed ones alone; it
fails the observation exactly when a file that may step is failed, which is then counted and
reported last; and nothing moves afterwards until something is taken back.  The call has no result
exactly where the observation fails and there is no number left for its failures. -/
theorem progress_fails_exactly {allowed : Observation → Operation → Prop}
    (h : Reachable allowed o) (signals : Signals) (now : Timestamp) :
    (returned? o (o.progress signals now) = none ↔
      o.FailsNext ∧ o.record.failureCount.toNat + 1 = UInt32.size) ∧
    ∀ after log, returned? o (o.progress signals now) = some (after, log) →
      (∃ f : Artefact → Artefact, after.artefacts = o.artefacts.map f ∧
        ∀ a ∈ o.artefacts, (f a).isFailed = a.isFailed ∧ (a.isFailed = true → f a = a)) ∧
      ((o.isFailed = false ∧ after.isFailed = true) ↔ o.FailsNext) ∧
      (o.FailsNext →
        (log.getLast? = some ⟨.observation o.sbid, o.stage, .failed, now⟩ ∧
          after.stage = .failed ∧ after.record.checkpoint = some o.stage ∧
            after.record.failureCount.toNat = o.record.failureCount.toNat + 1) ∧
        ∀ calls : List (Operation × Timestamp), (∀ call ∈ calls, call.1.recovers = false) →
          ∀ signals now,
            let later := performCalls after calls
            returned? later (later.progress signals now) = some (later, [])) := by
  have hsound := h.sound
  have hwf := hsound.wellFormed
  have hnone := returned?_progress_eq_none_iff hwf signals now
  refine ⟨hnone, fun after log hreturned => ?_⟩
  have hcall : (after, log) = o.progress signals now := eq_of_returned? hreturned
  obtain ⟨rfl, rfl⟩ : after = (o.progress signals now).1 ∧ log = (o.progress signals now).2 :=
    ⟨congrArg Prod.fst hcall, congrArg Prod.snd hcall⟩
  refine ⟨⟨fileStep o.stage o.artefacts signals now, progress_artefacts hwf.files,
      fun a _ => ⟨isFailed_fileStep o.stage o.artefacts signals now a,
        fun hfailed => fileStep_of_isFailed hfailed o.stage o.artefacts signals now⟩⟩,
    progress_fails_iff hwf signals now, fun hnext => ⟨?_, ?_⟩⟩
  · obtain ⟨hlast, hstage, hcheckpoint, hcount⟩ := hnext.progress hwf signals now
    refine ⟨hlast, hstage, hcheckpoint, ?_⟩
    -- There was a number left, or the call would have no result.
    have hleft : o.record.failureCount.toNat + 1 ≠ UInt32.size := fun hfull => by
      rw [hnone.mpr ⟨hnext, hfull⟩] at hreturned
      cases hreturned
    have hlt : o.record.failureCount.toNat + 1 < UInt32.size :=
      Nat.lt_of_le_of_ne o.record.failureCount.toNat_lt_size hleft
    rw [hcount, UInt32.toNat_add]
    exact Nat.mod_eq_of_lt hlt
  · intro calls hrecovers signals' now' later
    have hafter := ((progress_fails_iff hwf signals now).mpr hnext).2
    have hquiet : later.progress signals' now' = (later, []) :=
      progress_of_failed_run (hsound.perform (.progress signals) now) hafter hrecovers signals' now'
    rw [hquiet]
    exact returned?_of_added [] rfl (List.append_nil _).symm

/-- A failed catalogue fails the observation in a call in which an encapsulation and its member
step; a job goes on with the member, and no call of progress moves anything. -/
theorem progress_fails_exactly_beside_steps :
    ∃ (o : Observation) (now later : Timestamp) (after : Observation) (log : List Transition),
      Reachable (fun _ _ => True) o ∧ o.FailsNext ∧
        returned? o (o.progress .autoComplete now) = some (after, log) ∧ log.length = 3 ∧
        log.getLast? = some ⟨.observation ⟨1⟩, .depositing, .failed, now⟩ ∧
        after.record.failureCount.toNat = 1 ∧
          let reported := performCalls after [(.setArtefactStage ⟨1⟩ .encapsulated, later)]
          reported ≠ after ∧
            returned? reported (reported.progress .autoComplete later) = some (reported, []) := by
  let now := Timestamp.ofUnixSeconds 0
  let later := Timestamp.ofUnixSeconds 1
  let o := performEach now (fresh ⟨1⟩)
    [.add .encapsulationFile "e", .addEncapsulated .cubelet "m" ⟨0⟩, .add .catalogue "c",
      .progress .autoComplete, .progress .autoComplete, .setArtefactStage ⟨2⟩ .failed]
  have hrun : Reachable (fun _ _ => True) o :=
    (Reachable.new (new_standard ⟨1⟩)).performEach
      ⟨trivial, trivial, trivial, trivial, trivial, trivial, trivial⟩
  have hnext : o.FailsNext := by decide +kernel
  have hends : (returned? o (o.progress .autoComplete now)).isSome = true := by decide +kernel
  obtain ⟨⟨after, log⟩, hreturned⟩ := Option.isSome_iff_exists.mp hends
  obtain ⟨_, _, hfails⟩ := (progress_fails_exactly hrun .autoComplete now).2 after log hreturned
  obtain ⟨⟨hlast, _, _, hcount⟩, hlater⟩ := hfails hnext
  have hbefore : o.sbid = ⟨1⟩ ∧ o.stage = .depositing ∧ o.record.failureCount.toNat = 0 := by
    decide +kernel
  rw [hbefore.1, hbefore.2.1] at hlast
  rw [hbefore.2.2] at hcount
  have hlength : (o.progress .autoComplete now).2.length = 3 := by decide +kernel
  have hmoved : performCalls (o.progress .autoComplete now).1
      [(.setArtefactStage ⟨1⟩ .encapsulated, later)] ≠ (o.progress .autoComplete now).1 := by
    decide +kernel
  rw [← eq_of_returned? hreturned] at hlength hmoved
  refine ⟨o, now, later, after, log, hrun, hnext, hreturned, hlength, hlast, hcount, hmoved, ?_⟩
  exact hlater [(.setArtefactStage ⟨1⟩ .encapsulated, later)] (by simp [Operation.recovers])
    .autoComplete later

end Observation

end FailurePropagation

end ArchiveDeposit

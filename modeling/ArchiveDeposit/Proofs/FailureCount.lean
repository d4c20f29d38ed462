import ArchiveDeposit.Proofs.Operation

/-!
# Counting failures

Failures are counted in words, and the program stops at one for which there is no number left.  A
call makes at most one failure: steps and recoveries lead to stages of the lifecycle, and all else
that a call does follows the one change that was asked for.  So a count that has passed the largest
word in a call stands at zero, below where it stood before, and a call has a result exactly where
the failures that it reports can all be counted.

**Results.**
* `DepositRecord.Trail.hasWrapped_iff`: where a count has passed the largest word.
* `Observation.failuresIn_perform_le_one`: a call reports at most one failure.
* `Observation.returned?_perform_eq_none_iff`: the calls that have no result.
-/

namespace ArchiveDeposit

section FailureCount

/-- Where a call has a result, this is what it leads to and answers. -/
theorem eq_of_returned? {α β : Type} [HoldsRecords α] {before : α} {call result : α × β}
    (h : returned? before call = some result) : result = call := by
  unfold returned? at h
  dsimp only at h
  split at h
  · cases h
  · exact (Option.some.inj h).symm

namespace DepositRecord

variable {r s : DepositRecord} {way : Way} {log : List Transition}

/-- Whether a record has no number left for the last of some failures. -/
def Overflows (r : DepositRecord) (log : List Transition) : Prop :=
  UInt32.size ≤ r.failureCount.toNat + failuresIn log

theorem not_overflows_nil (r : DepositRecord) : ¬r.Overflows [] :=
  Nat.not_le_of_lt r.failureCount.toNat_lt_size

theorem hasWrapped_eq_true_iff :
    r.hasWrapped s = true ↔ s.failureCount.toNat < r.failureCount.toNat := by
  rw [hasWrapped, decide_eq_true_eq, UInt32.lt_iff_toNat_lt]

@[simp] theorem hasWrapped_self (r : DepositRecord) : r.hasWrapped r = false := by
  simp [hasWrapped]

/-- One more failure passes the largest word if that is what is counted already. -/
theorem hasWrapped_of_succ (h : s.failureCount = r.failureCount + 1) :
    r.hasWrapped s = true ↔ r.failureCount.toNat + 1 = UInt32.size := by
  have hsize : UInt32.size = 4294967296 := rfl
  have hword := r.failureCount.toNat_lt_size
  rw [hasWrapped_eq_true_iff, h, UInt32.toNat_add, show (1 : UInt32).toNat = 1 from rfl]
  omega

/-- Putting a state in place of that of a record passes the largest word exactly where it is a
failure to be counted and that word is what is counted already. -/
theorem hasWrapped_replace_iff (r : DepositRecord) (next : DepositState) (now : Timestamp) :
    r.hasWrapped (r.replace next now).1 = true ↔ next.stage ≠ r.state.stage ∧
      next.isFailed = true ∧ r.failureCount.toNat + 1 = UInt32.size := by
  by_cases hsame : next.stage = r.state.stage
  · rw [replace_of_stage_eq hsame]
    simp [hsame]
  · cases hfailed : next.isFailed with
    | false =>
        rw [hasWrapped, failureCount_replace hfailed now]
        simp
    | true =>
        have hcount : (r.replace next now).1.failureCount = r.failureCount + 1 := by
          rw [replace_of_stage_ne hsame, hfailed]
          rfl
        rw [hasWrapped_of_succ hcount]
        simp [hsame]

/-- Putting a state in place of that of a record has no result exactly where there is no number left
for the failure. -/
theorem returned?_replace_eq_none_iff (r : DepositRecord) (next : DepositState)
    (now : Timestamp) :
    returned? r (r.replace next now) = none ↔ next.stage ≠ r.state.stage ∧
      next.isFailed = true ∧ r.failureCount.toNat + 1 = UInt32.size := by
  rw [← hasWrapped_replace_iff r next now]
  simp [returned?, HoldsRecords.records]

/-- A failure on which another follows, with no number left for it. -/
example :
    let state : DepositState := ⟨.failed, .observation, .observation ⟨1⟩, by decide⟩
    returned? (⟨state, 4294967295, some .undeposited⟩ : DepositRecord)
      (replace ⟨state, 4294967295, some .undeposited⟩
        ⟨.invalid, .observation, .observation ⟨1⟩, by decide⟩ (Timestamp.ofUnixSeconds 0)) =
      none := by
  decide

namespace Trail

/-- The failures of a trail are counted as long as there are numbers for them. -/
theorem toNat_failureCount (h : Trail way r log s) (hcounts : ¬r.Overflows log) :
    s.failureCount.toNat = r.failureCount.toNat + failuresIn log := by
  have hsum : r.failureCount.toNat + failuresIn log < UInt32.size := Nat.lt_of_not_le hcounts
  have hnew : failuresIn log < UInt32.size := Nat.lt_of_le_of_lt (Nat.le_add_left _ _) hsum
  rw [h.failureCount, UInt32.toNat_add, UInt32.toNat_ofNat_of_lt' hnew]
  exact Nat.mod_eq_of_lt hsum

/-- A trail with one failure at most passes the largest word exactly where it has no number left for
that. -/
theorem hasWrapped_iff (h : Trail way r log s) (hone : failuresIn log ≤ 1) :
    r.hasWrapped s = true ↔ r.Overflows log := by
  have hsize : UInt32.size = 4294967296 := rfl
  have hword := r.failureCount.toNat_lt_size
  rw [hasWrapped_eq_true_iff, Overflows, h.failureCount, UInt32.toNat_add, UInt32.toNat_ofNat']
  omega

/-- A trail in which no failure is chosen has none. -/
theorem failuresIn_eq_zero (h : Trail way r log s)
    (hway : ∀ {before t next}, Trail way r before t → way t next → next.isFailed = false) :
    failuresIn log = 0 := by
  induction h with
  | refl => rfl
  | @change log t next htrail _ _ hchosen now ih =>
      have hnext : next.stage.isFailure = false := hway htrail hchosen
      by_cases hsame : next.stage = t.state.stage
      · rw [replace_of_stage_eq hsame]
        simpa using ih
      · rw [replace_snd_of_stage_ne hsame, failuresIn_append, ih]
        simp [failuresIn, hnext]

/-- The stages of a lifecycle that steps lead to are no failures. -/
theorem failuresIn_of_step (h : Trail .step r log s) : failuresIn log = 0 := by
  refine h.failuresIn_eq_zero fun _ hstep => ?_
  obtain ⟨step, hfrom, hstage⟩ := hstep
  rw [DepositState.isFailed, hstage]
  exact Lifecycle.isFailure_of_isOnLine (Lifecycle.place_stepFrom? hfrom).2.1

/-- A recovery leads back to a stage of the lifecycle. -/
theorem failuresIn_of_recovery (h : Trail .recovery r log s) (hr : r.Sound) :
    failuresIn log = 0 := by
  refine h.failuresIn_eq_zero fun htrail hback => ?_
  rw [DepositState.isFailed, show _ = _ from hback, htrail.effectiveStage]
  exact Lifecycle.isFailure_of_isOnLine hr.onLine

end Trail

end DepositRecord

open DepositRecord

/-- Where files change one by one, so do their counts. -/
theorem Artefact.any_hasWrapped_iff {files : List Artefact} {f : Artefact → Artefact} :
    ((files.map Artefact.record).zip ((files.map f).map Artefact.record)).any
        (fun (r, s) => r.hasWrapped s) = true ↔
      ∃ a ∈ files, a.record.hasWrapped (f a).record = true := by
  rw [List.map_map, List.zip_map']
  simp only [List.any_map, List.any_eq_true, Function.comp_apply]

namespace Observation

variable {o o' : Observation} {f : Artefact → Artefact} {way : Way} {log : List Transition}
  {operation : Operation} {now : Timestamp}

theorem Accounts.failuresIn_eq_zero (h : o.Accounts way f log o')
    (hown : failuresIn (transitionsOf (.observation o.sbid) log) = 0)
    (hfiles : ∀ a ∈ o.artefacts, failuresIn (transitionsOf a.owner log) = 0) :
    failuresIn log = 0 := by
  refine List.countP_eq_zero.mpr fun t ht => ?_
  have hsame : t ∈ transitionsOf t.owner log := List.mem_filter.mpr ⟨ht, by simp⟩
  have hnone : failuresIn (transitionsOf t.owner log) = 0 := by
    rcases h.owners t ht with howner | ⟨a, ha, howner⟩
    · rw [howner]
      exact hown
    · rw [howner]
      exact hfiles a ha
  exact List.countP_eq_zero.mp hnone t hsame

theorem Accounts.failuresIn_of_step (h : o.Accounts .step f log o') : failuresIn log = 0 :=
  h.failuresIn_eq_zero h.own.failuresIn_of_step fun a ha => (h.files a ha).failuresIn_of_step

theorem Accounts.failuresIn_of_recovery (h : o.Accounts .recovery f log o') (hsound : o.Sound) :
    failuresIn log = 0 :=
  h.failuresIn_eq_zero (h.own.failuresIn_of_recovery hsound.record) fun a ha =>
    (h.files a ha).failuresIn_of_recovery (hsound.files a ha)

theorem failuresIn_toList_le_one (transition : Option Transition) :
    failuresIn transition.toList ≤ 1 :=
  Nat.le_trans List.countP_le_length (by cases transition <;> simp)

/-- The members of an encapsulation that are deposited with it make no failure besides its own. -/
theorem failuresIn_commit (h : o.WellFormed) {file : Artefact} (hfile : file ∈ o.artefacts)
    {change : Artefact × Option Transition} (hchange : file.Accounts way change.2.toList change.1)
    (deposits : Bool) (now : Timestamp) :
    failuresIn (Encapsulation.commit o.artefacts file.id file.id.index change deposits now).2 ≤
      1 := by
  unfold Encapsulation.commit
  have hone := failuresIn_toList_le_one change.2
  cases hreport : change.2 with
  | none => exact Nat.zero_le 1
  | some t =>
      rw [hreport] at hone
      cases deposits with
      | false => exact hone
      | true =>
          have hset := accounts_set h hfile hchange
          obtain ⟨g, hmembers⟩ := accounts_depositMembers (h.moves hset.moves) file.id now
          change failuresIn ([t] ++
            (Encapsulation.depositMembers (o.artefacts.set file.id.index change.1) file.id now).2) ≤
              1
          rw [failuresIn_append]
          exact Nat.add_le_add hone (Nat.le_of_eq hmembers.failuresIn_of_step)

theorem failuresIn_setStage (h : o.WellFormed) {id : ArtefactId} {stage : Stage}
    {artefacts : List Artefact}
    (hok : Encapsulation.setStage o.artefacts id stage now = .ok (artefacts, log)) :
    failuresIn log ≤ 1 := by
  rcases commit_of_setStage h hok with hnone | ⟨file, hfile, change, deposits, hadvance, hcommit⟩
  · cases hnone
    exact Nat.zero_le 1
  · have hone := failuresIn_commit h hfile (Artefact.accounts_advance hadvance) deposits now
    rwa [← hcommit] at hone

theorem failuresIn_changeFile (h : o.WellFormed) {id : ArtefactId} {stage : Stage}
    {artefacts : List Artefact}
    (hok : Encapsulation.changeFile o.artefacts id (·.advance stage now) now =
      .ok (artefacts, log)) : failuresIn log ≤ 1 := by
  rcases commit_of_changeFile h hok with hnone | ⟨file, hfile, changed, hadvance, hcommit⟩
  · cases hnone
    exact Nat.zero_le 1
  · have hone := failuresIn_commit h hfile (Artefact.accounts_advance hadvance) false now
    rwa [← hcommit] at hone

theorem failuresIn_setArtefactStage (h : o.WellFormed) {id : ArtefactId} {stage : Stage}
    (hok : o.setArtefactStage id stage now = .ok (o', log)) : failuresIn log ≤ 1 := by
  rcases setArtefactStage_cases h hok with ⟨_, hset, _⟩ | ⟨_, _, change, _, rfl, _⟩
  · exact failuresIn_setStage h hset
  · exact failuresIn_toList_le_one change.2

/-- In a call of progress only the observation itself can fail. -/
theorem failuresIn_progress (h : o.WellFormed) (signals : Signals) (now : Timestamp) :
    failuresIn (o.progress signals now).2 ≤ 1 := by
  obtain ⟨f, hfiles⟩ := accounts_progressFiles h o.stage signals now
  rw [progress_snd, failuresIn_append, hfiles.failuresIn_of_step, Nat.zero_add]
  exact failuresIn_toList_le_one _

theorem failuresIn_orRefused {result : Except DepositError (Observation × List Transition)}
    (hok : ∀ o' log, result = .ok (o', log) → failuresIn log ≤ 1) :
    failuresIn (reported (o.orRefused result).2) ≤ 1 := by
  cases result with
  | error e => exact Nat.zero_le 1
  | ok change => exact hok change.1 change.2 rfl

theorem failuresIn_orFilesRefused
    {result : Except DepositError (List Artefact × List Transition)}
    (hok : ∀ artefacts log, result = .ok (artefacts, log) → failuresIn log ≤ 1) :
    failuresIn (reported (o.orFilesRefused result).2) ≤ 1 := by
  cases result with
  | error e => exact Nat.zero_le 1
  | ok change => exact hok change.1 change.2 rfl

/-- A call reports at most one failure. -/
theorem failuresIn_perform_le_one (h : o.Sound) (operation : Operation) (now : Timestamp) :
    failuresIn (reported (o.perform operation now).2) ≤ 1 := by
  have hwf := h.wellFormed
  have hrecovered : operation.recovers = true →
      failuresIn (reported (o.perform operation now).2) ≤ 1 := by
    intro hrecovers
    obtain ⟨f, haccounts⟩ := perform_accounts h (Operation.adds_of_recovers hrecovers) now
    rw [Operation.way, if_pos hrecovers] at haccounts
    rw [haccounts.failuresIn_of_recovery h]
    exact Nat.zero_le 1
  cases operation with
  | add kind filename | addEncapsulated kind filename encapsulation =>
      rw [reported_of_adds o rfl now]
      exact Nat.zero_le 1
  | setArtefactStage id stage =>
      exact failuresIn_orRefused fun _ _ hok => failuresIn_setArtefactStage hwf hok
  | advance stage =>
      refine failuresIn_orRefused fun _ _ hok => ?_
      obtain ⟨change, _, hpair⟩ := eq_ok_of_map hok
      cases hpair
      exact failuresIn_toList_le_one change.2
  | progress signals => exact failuresIn_progress hwf signals now
  | runJobs =>
      obtain ⟨f, hjobs⟩ := accounts_runJobs hwf now
      simp only [perform, runJobs_eq hwf.files now]
      exact Nat.le_trans (Nat.le_of_eq hjobs.failuresIn_of_step) (Nat.zero_le 1)
  | setEncapsulationStage id stage =>
      exact failuresIn_orFilesRefused fun _ _ hok => failuresIn_setStage hwf hok
  | advanceEncapsulation id stage =>
      exact failuresIn_orFilesRefused fun _ _ hok => failuresIn_changeFile hwf hok
  | progressEncapsulation id signals =>
      obtain ⟨f, hstep⟩ := accounts_progressEncapsulation hwf id signals now
      exact Nat.le_trans (Nat.le_of_eq hstep.failuresIn_of_step) (Nat.zero_le 1)
  | recoverEncapsulation id | recoverArtefact filename | recoverAll | recoverOwn =>
      exact hrecovered rfl

/-- Where files change one by one, a call has no result if a count of the observation or of a file
has passed the largest word. -/
theorem returned?_eq_none_iff {β : Type} {call : Observation × β}
    (hfiles : call.1.artefacts = o.artefacts.map f) :
    returned? o call = none ↔ o.record.hasWrapped call.1.record = true ∨
      ∃ a ∈ o.artefacts, a.record.hasWrapped (f a).record = true := by
  rw [← Artefact.any_hasWrapped_iff, ← hfiles]
  simp only [returned?, HoldsRecords.records, List.zip_cons_cons, List.any_cons, ite_eq_left_iff,
    reduceCtorEq, imp_false, Decidable.not_not, Bool.or_eq_true]

/-- Files that are added leave the counts of those that are there. -/
theorem returned?_of_added {β : Type} {call : Observation × β} (more : List Artefact)
    (hrecord : call.1.record = o.record) (hfiles : call.1.artefacts = o.artefacts ++ more) :
    returned? o call = some call := by
  have hpairs : (o.artefacts.map Artefact.record).zip (call.1.artefacts.map Artefact.record) =
      o.artefacts.map fun a => (a.record, a.record) := by
    rw [hfiles, List.map_append, ← List.append_nil (o.artefacts.map Artefact.record),
      List.append_assoc, List.nil_append, List.zip_append rfl, List.zip_nil_left, List.append_nil,
      List.zip_map']
  simp [returned?, HoldsRecords.records, hpairs, hrecord]

/-- Whether the observation or a file has no number left for a failure among some transitions. -/
def CannotCount (o : Observation) (log : List Transition) : Prop :=
  o.record.Overflows (transitionsOf (.observation o.sbid) log) ∨
    ∃ a ∈ o.artefacts, a.record.Overflows (transitionsOf a.owner log)

theorem not_cannotCount_nil (o : Observation) : ¬o.CannotCount [] := by
  rintro (hown | ⟨a, _, hfile⟩)
  · exact o.record.not_overflows_nil hown
  · exact a.record.not_overflows_nil hfile

/-- A call has no result exactly where it makes a failure for which there is no number left. -/
theorem returned?_perform_eq_none_iff (h : o.Sound) (operation : Operation) (now : Timestamp) :
    returned? o (o.perform operation now) = none ↔
      o.CannotCount (reported (o.perform operation now).2) := by
  cases hadds : operation.adds with
  | false =>
      obtain ⟨f, haccounts⟩ := perform_accounts h hadds now
      have hone (owner : Owner) :
          failuresIn (transitionsOf owner (reported (o.perform operation now).2)) ≤ 1 :=
        Nat.le_trans List.filter_sublist.countP_le (failuresIn_perform_le_one h operation now)
      rw [returned?_eq_none_iff haccounts.moves.artefacts,
        haccounts.own.hasWrapped_iff (hone _), CannotCount]
      refine or_congr_right (exists_congr fun a => and_congr_right fun ha => ?_)
      exact (haccounts.files a ha).hasWrapped_iff (hone _)
  | true =>
      have hreturned : returned? o (o.perform operation now) = some (o.perform operation now) := by
        rcases perform_adds_cases h.wellFormed hadds now with hsame | ⟨_, _, _, _, _, hok⟩
        · exact returned?_of_added [] (congrArg Observation.record hsame)
            (by rw [hsame, List.append_nil])
        · obtain ⟨_, _, _, l, _, hpushed⟩ := push_spec hok
          exact returned?_of_added _ (by rw [hpushed]; rfl) (congrArg Observation.artefacts hpushed)
      rw [hreturned, reported_of_adds o hadds now]
      exact iff_of_false nofun o.not_cannotCount_nil

end Observation

end FailureCount

end ArchiveDeposit

import ArchiveDeposit.Proofs.CollectionCourse
import ArchiveDeposit.Proofs.FailureCount

/-!
# Catalogues that failed

Only a recovery takes an owner out of the failures, and the recovery of a collection is one of its
own record: it reaches no catalogue.  No other operation on a collection recovers anything, so a
catalogue that has failed stays failed for good, with the checkpoint that it would go back to.

The collection itself is taken back to where it deposits and finds the failed catalogue again: the
next call of progress fails it once more.  This is counted each time, up to the call for which there
is no number left.

**Results.**
* `Collection.isFailed_performEach`: a catalogue that has failed stays failed.
* `Collection.returned?_progress_eq_none_iff`: the calls of progress that have no result.
* `Collection.comesBack_iff`: a catalogue can be brought out of the failures exactly when it is in
  none.
-/

namespace ArchiveDeposit

section CatalogueFailure

namespace Collection

variable {c : Collection} {i : Nat} {a : Artefact}

/-- Whether some calls leave the catalogue at a place out of the failures. -/
def ComesBack (c : Collection) (i : Nat) : Prop :=
  ∃ calls b, (performEach c calls).catalogues[i]? = some b ∧ b.isFailed = false

/-- A catalogue that has failed stays failed, and keeps its checkpoint. -/
theorem isFailed_performEach (ha : c.catalogues[i]? = some a) (hfailed : a.isFailed = true)
    (calls : List CollectionCall) :
    ∃ b, (performEach c calls).catalogues[i]? = some b ∧ b.filename = a.filename ∧
      b.isFailed = true ∧ b.record.checkpoint = a.record.checkpoint := by
  obtain ⟨b, log, hb, haccounts⟩ := catalogue_performEach calls ha
  exact ⟨b, hb, haccounts.continues.filename, haccounts.trail.isFailed hfailed,
    haccounts.trail.checkpoint hfailed⟩

/-- A collection that deposits over a failed catalogue is failed by the next call of progress. -/
theorem stage_progress_of_failed (ha : c.catalogues[i]? = some a) (hfailed : a.isFailed = true)
    (hstage : c.stage = .depositing) (signals : Signals) (now : Timestamp) :
    (c.progress signals now).1.stage = .failed :=
  ((c.progress_fails_iff signals now).mpr
    ⟨hstage, a, List.mem_of_getElem? ha, hfailed⟩).2.1

/-- Where catalogues change one by one, a call has no result if a count of the collection or of a
catalogue has passed the largest word. -/
theorem returned?_eq_none_iff {β : Type} {call : Collection × β} {f : Artefact → Artefact}
    (hcatalogues : call.1.catalogues = c.catalogues.map f) :
    returned? c call = none ↔ c.record.hasWrapped call.1.record = true ∨
      ∃ a ∈ c.catalogues, a.record.hasWrapped (f a).record = true := by
  rw [← Artefact.any_hasWrapped_iff, ← hcatalogues]
  simp only [returned?, HoldsRecords.records, List.zip_cons_cons, List.any_cons, ite_eq_left_iff,
    reduceCtorEq, imp_false, Decidable.not_not, Bool.or_eq_true]

/-- The catalogues change one by one in a call of progress, and no failure of them is counted. -/
theorem exists_progress_catalogues (c : Collection) (signals : Signals) (now : Timestamp) :
    ∃ f : Artefact → Artefact, (c.progress signals now).1.catalogues = c.catalogues.map f ∧
      ∀ a, (f a).record.failureCount = a.record.failureCount := by
  rw [progress_catalogues]
  split
  · exact ⟨catalogueStep signals now, rfl, fun a => (a.record.advances_progress _ now).failureCount⟩
  · exact ⟨fun a => a, (List.map_id' _).symm, fun _ => rfl⟩

/-- A call of progress has no result exactly where a failed catalogue fails the collection and there
is no number left for its failures. -/
theorem returned?_progress_eq_none_iff (c : Collection) (signals : Signals) (now : Timestamp) :
    returned? c (c.progress signals now) = none ↔
      (c.stage = .depositing ∧ ∃ a ∈ c.catalogues, a.isFailed = true) ∧
        c.record.failureCount.toNat + 1 = UInt32.size := by
  obtain ⟨f, hcatalogues, hcount⟩ := c.exists_progress_catalogues signals now
  have hnone : ¬∃ a ∈ c.catalogues, a.record.hasWrapped (f a).record = true := by
    rintro ⟨a, _, hwrapped⟩
    rw [DepositRecord.hasWrapped_eq_true_iff, hcount] at hwrapped
    exact Nat.lt_irrefl _ hwrapped
  have hfails := c.hasFailed_progress_iff signals now
  rw [returned?_eq_none_iff hcatalogues, or_iff_left hnone, progress_record, ownNext]
  split
  · next hfailed =>
      have hnext := hfails.mp hfailed
      have hstage : c.state.failed.stage ≠ c.record.state.stage := by
        rw [show c.record.state.stage = .depositing from hnext.1]
        exact (by decide : Stage.failed ≠ .depositing)
      rw [DepositRecord.hasWrapped_replace_iff, and_iff_right hstage, and_iff_right hnext]
      exact and_iff_right rfl
  · next hnot =>
      rw [DepositRecord.hasWrapped_eq_true_iff, show c.state = c.record.state from rfl,
        (c.record.advances_progress _ now).failureCount]
      exact iff_of_false (Nat.lt_irrefl _) fun hboth => hnot (hfails.mpr hboth.1)

/-- A catalogue can be brought out of the failures exactly when it is in none.  One that has failed
stays so with its checkpoint, and fails its collection in every call of progress while that
deposits. -/
theorem comesBack_iff (ha : c.catalogues[i]? = some a) :
    (c.ComesBack i ↔ a.isFailed = false) ∧
      (a.isFailed = true → ∀ calls, let after := performEach c calls
        (∃ b, after.catalogues[i]? = some b ∧ b.filename = a.filename ∧ b.isFailed = true ∧
          b.record.checkpoint = a.record.checkpoint) ∧
        (after.stage = .depositing → ∀ signals now,
          (after.progress signals now).1.stage = .failed)) := by
  constructor
  · constructor
    · rintro ⟨calls, b, hb, hnot⟩
      cases hfailed : a.isFailed with
      | false => rfl
      | true =>
          obtain ⟨d, hd, _, hstill, _⟩ := isFailed_performEach ha hfailed calls
          rw [hb] at hd
          rw [← Option.some.inj hd, hnot] at hstill
          cases hstill
    · exact fun hnot => ⟨[], a, ha, hnot⟩
  · intro hfailed calls after
    obtain ⟨b, hb, hname, hstill, hcheckpoint⟩ := isFailed_performEach ha hfailed calls
    exact ⟨⟨b, hb, hname, hstill, hcheckpoint⟩,
      fun hstage signals now => stage_progress_of_failed hb hstill hstage signals now⟩

/-- A catalogue that fails before its first step never comes back to it. -/
theorem comesBack_failed_at_first :
    ∃ (c : Collection) (a : Artefact), Reachable (fun _ _ => True) c ∧
      c.catalogues[0]? = some a ∧ a.isFailed = true ∧
        a.record.checkpoint = some .undeposited ∧ ¬ c.ComesBack 0 := by
  let now := Timestamp.ofUnixSeconds 0
  let c := performEach (fresh ⟨7⟩) [(.add "c", now), (.advance .depositing, now),
    (.setCatalogueStage ⟨0⟩ .failed, now), (.progress .autoComplete, now)]
  have hrun : Reachable (fun _ _ => True) c :=
    (Reachable.new (new_standard ⟨7⟩)).performEach ⟨trivial, trivial, trivial, trivial, trivial⟩
  have hfile : ∃ a, c.catalogues[0]? = some a ∧ a.isFailed = true ∧
      a.record.checkpoint = some .undeposited := by
    decide +kernel
  obtain ⟨a, ha, hfailed, hcheckpoint⟩ := hfile
  refine ⟨c, a, hrun, ha, hfailed, hcheckpoint, fun hback => ?_⟩
  have hnot := (comesBack_iff ha).1.mp hback
  rw [hfailed] at hnot
  cases hnot

end Collection

end CatalogueFailure

end ArchiveDeposit

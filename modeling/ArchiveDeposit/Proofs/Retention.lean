import ArchiveDeposit.Proofs.FailureCount

/-!
# No work is lost

Whatever is asked of an observation, in whatever order, each operation leaves every record that is
there with at least what it had: the effective stage stands where it stood or further on, every
failure is counted, and an owner that has failed stays failed until a recovery takes it back to its
effective stage.  A call that cannot count a failure has no result.

**Results.**
* `DepositRecord.Trail.retains`: what reports of jobs, steps and recoveries keep of a record.
* `Observation.perform_retains`: what every operation keeps, of the observation and of each file.
-/

namespace ArchiveDeposit

section Retention

namespace DepositRecord

variable {r s : DepositRecord} {log : List Transition} {recovers : Bool}

/-- What a change keeps of a record, given the transitions of its owner that it reports and whether
it is a recovery. -/
structure Retains (recovers : Bool) (log : List Transition) (r s : DepositRecord) : Prop where
  lifecycle : s.state.lifecycle = r.state.lifecycle
  owner : s.state.owner = r.state.owner
  /-- The effective stage stands where it stood or further on. -/
  forward : s.hasReached r.effectiveStage = true
  failureCount : s.failureCount.toNat = r.failureCount.toNat + failuresIn log
  failureCount_le : r.failureCount ≤ s.failureCount
  leaves : r.isFailed = true → s.isFailed = false →
    recovers = true ∧ s.stage = r.effectiveStage

/-- What has changed in the way of an operation retains what was there. -/
theorem Trail.retains {operation : Operation} (h : Trail operation.way r log s)
    (hcont : r.Continues s) (hr : r.Sound) (hcounts : ¬r.Overflows log) :
    r.Retains operation.recovers log s where
  lifecycle := hcont.lifecycle
  owner := hcont.owner
  forward := by
    have hbefore : s.state.lifecycle.isOnLine r.effectiveStage = true := by
      rw [hcont.lifecycle]
      exact hr.onLine
    have hplace : s.state.lifecycle.place r.effectiveStage ≤ s.place := by
      rw [hcont.lifecycle]
      exact hcont.place hr
    exact Lifecycle.reaches_iff.mpr ⟨(hcont.sound hr).onLine, hbefore, hplace⟩
  failureCount := h.toNat_failureCount hcounts
  failureCount_le := by
    rw [UInt32.le_iff_toNat_le, h.toNat_failureCount hcounts]
    exact Nat.le_add_right _ _
  leaves hfail hnot := by
    cases hrecovers : operation.recovers with
    | false =>
        rw [Operation.way, hrecovers] at h
        have hstill : s.isFailed = true := h.isFailed hfail
        rw [hnot] at hstill
        cases hstill
    | true =>
        rw [Operation.way, hrecovers] at h
        have hback : s.effectiveStage = r.effectiveStage := h.effectiveStage
        rw [effectiveStage_of_not_failed hnot] at hback
        exact ⟨rfl, hback⟩

theorem retains_refl {operation : Operation} (hr : r.Sound) :
    r.Retains operation.recovers [] r :=
  (Trail.refl).retains (Continues.refl r) hr r.not_overflows_nil

end DepositRecord

/-- What a change keeps of a file. -/
structure Artefact.Retains (recovers : Bool) (log : List Transition) (a b : Artefact) : Prop where
  id : b.id = a.id
  kind : b.kind = a.kind
  filename : b.filename = a.filename
  parent : b.parent = a.parent
  encapsulation : b.encapsulation = a.encapsulation
  record : a.record.Retains recovers log b.record

theorem Artefact.Continues.retains {recovers : Bool} {log : List Transition} {a b : Artefact}
    (h : a.Continues b) (hrecord : a.record.Retains recovers log b.record) :
    a.Retains recovers log b :=
  ⟨h.id, h.kind, h.filename, h.parent, h.encapsulation, hrecord⟩

namespace Observation

variable {o : Observation}

/-- Every operation, in every state of every run, keeps what is there of the observation and, at
its place in the list, of each file.  It has no result exactly where the observation or a file makes
a failure for which there is no number left. -/
theorem perform_retains {allowed : Observation → Operation → Prop} (h : Reachable allowed o)
    (operation : Operation) (now : Timestamp) :
    (returned? o (o.perform operation now) = none ↔
      o.CannotCount (reported (o.perform operation now).2)) ∧
    ∀ after result, returned? o (o.perform operation now) = some (after, result) →
      after.sbid = o.sbid ∧
        o.record.Retains operation.recovers
          (transitionsOf (.observation o.sbid) (reported result)) after.record ∧
        ∀ (i : Nat) (a : Artefact), o.artefacts[i]? = some a →
          ∃ b, after.artefacts[i]? = some b ∧
            a.Retains operation.recovers (transitionsOf a.owner (reported result)) b := by
  have hsound := h.sound
  have hnone := returned?_perform_eq_none_iff hsound operation now
  refine ⟨hnone, fun after result hreturned => ?_⟩
  have hcall : (after, result) = o.perform operation now := eq_of_returned? hreturned
  obtain ⟨rfl, rfl⟩ : after = (o.perform operation now).1 ∧ result = (o.perform operation now).2 :=
    ⟨congrArg Prod.fst hcall, congrArg Prod.snd hcall⟩
  have hcounts : ¬o.CannotCount (reported (o.perform operation now).2) := fun hcannot => by
    rw [hnone.mpr hcannot] at hreturned
    cases hreturned
  have hunchanged : ∀ a ∈ o.artefacts, a.Retains operation.recovers [] a := fun a ha =>
    (Artefact.Continues.refl a).retains (DepositRecord.retains_refl (hsound.files a ha))
  cases hadds : operation.adds with
  | false =>
      obtain ⟨f, hchange⟩ := perform_accounts hsound hadds now
      refine ⟨hchange.moves.sbid, hchange.own.retains hchange.moves.record hsound.record
        fun hown => hcounts (Or.inl hown), fun i a ha => ⟨f a, ?_, ?_⟩⟩
      · rw [hchange.moves.artefacts, List.getElem?_map, ha]
        rfl
      · have hmem := List.mem_of_getElem? ha
        have hcont := hchange.moves.files a hmem
        exact hcont.retains ((hchange.files a hmem).retains hcont.record (hsound.files a hmem)
          fun hfile => hcounts (Or.inr ⟨a, hmem, hfile⟩))
  | true =>
      rw [reported_of_adds o hadds now]
      rcases perform_adds_cases hsound.wellFormed hadds now with
        hrefused | ⟨_, _, _, _, _, hok⟩
      · rw [hrefused]
        exact ⟨rfl, DepositRecord.retains_refl hsound.record,
          fun i a ha => ⟨a, ha, hunchanged a (List.mem_of_getElem? ha)⟩⟩
      · obtain ⟨_, _, _, l, _, hpushed⟩ := push_spec hok
        rw [hpushed]
        refine ⟨rfl, DepositRecord.retains_refl hsound.record, fun i a ha => ⟨a, ?_, ?_⟩⟩
        · exact List.getElem?_append_left (List.getElem?_eq_some_iff.mp ha).1 ▸ ha
        · exact hunchanged a (List.mem_of_getElem? ha)

/-- A file that failed at its deposit goes back to it when it is recovered. -/
theorem retains_recovered_depositing :
    ∃ (o : Observation) (now : Timestamp) (after : Observation)
      (result : Except RecoveryError (List Transition)) (a b : Artefact),
      Reachable (fun _ _ => True) o ∧ o.artefacts[0]? = some a ∧ a.isFailed = true ∧
        returned? o (o.perform (.recoverArtefact "c") now) = some (after, result) ∧
        after.artefacts[0]? = some b ∧ b.stage = .depositing ∧
          a.Retains true (transitionsOf a.owner (reported result)) b := by
  let now := Timestamp.ofUnixSeconds 0
  let o := performEach now (fresh ⟨1⟩)
    [.add .catalogue "c", .setArtefactStage ⟨0⟩ .depositing, .setArtefactStage ⟨0⟩ .failed]
  have hrun : Reachable (fun _ _ => True) o :=
    (Reachable.new (new_standard ⟨1⟩)).performEach ⟨trivial, trivial, trivial, trivial⟩
  have hfile : ∃ a, o.artefacts[0]? = some a ∧ a.isFailed = true := by decide +kernel
  have hends : (returned? o (o.perform (.recoverArtefact "c") now)).isSome = true := by
    decide +kernel
  have hafter : ∀ b ∈ (o.perform (.recoverArtefact "c") now).1.artefacts,
      b.stage = .depositing := by
    decide +kernel
  obtain ⟨a, ha, hfail⟩ := hfile
  obtain ⟨⟨after, result⟩, hreturned⟩ := Option.isSome_iff_exists.mp hends
  rw [← eq_of_returned? hreturned] at hafter
  obtain ⟨b, hb, hretains⟩ :=
    ((perform_retains hrun (.recoverArtefact "c") now).2 after result hreturned).2.2 0 a ha
  exact ⟨o, now, after, result, a, b, hrun, ha, hfail, hreturned, hb,
    hafter b (List.mem_of_getElem? hb), hretains⟩

end Observation

end Retention

end ArchiveDeposit

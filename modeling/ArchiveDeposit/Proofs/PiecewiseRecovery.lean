import ArchiveDeposit.Proofs.Operation

/-!
# Recovering file by file

A failed observation can be taken back at once, or by taking back its failed files, each under its
name.  The two meet because a record that is taken back depends on that record alone, neither on
the time nor on other records: every call takes one file out of those that have failed, and leaves
what taking back the whole observation would come to.  The last call finds nothing that keeps the
observation failed, and takes it back too.

**Results.**
* `DepositRecord.recover_eq`: what taking a failed record back comes to, and what is reported.
* `Observation.recoverAll_eq`: taking a failed observation back at once.
* `Observation.recoverArtefact_eq`: taking one of its failed files back.
* `Observation.recoverFiles_eq_recoverAll`: every order of calls ends in the same observation.
-/

namespace ArchiveDeposit

section PiecewiseRecovery

namespace DepositRecord

/-- The record at its checkpoint, without one from then on.  One that is not failed, and one whose
checkpoint its lifecycle refuses, is as it was. -/
def back (r : DepositRecord) : DepositRecord :=
  if r.isFailed then
    match r.state.rebind r.recoveryStage with
    | .ok next => ⟨next, r.failureCount, none⟩
    | .error _ => r
  else r

/-- The transition that is reported when a failed record is taken back. -/
def backReport (r : DepositRecord) (now : Timestamp) : Transition :=
  ⟨r.state.owner, r.stage, r.effectiveStage, now⟩

/-- A sound record that has failed is taken back to its effective stage, which is reported. -/
theorem recover_eq {r : DepositRecord} (hr : r.Sound) (hfail : r.isFailed = true)
    (now : Timestamp) : r.recover now = .ok (r.back, some (r.backReport now)) := by
  have haccept := Lifecycle.accepts_of_isOnLine hr.onLine
  have hnot : r.effectiveStage.isFailure = false := Lifecycle.isFailure_of_isOnLine hr.onLine
  have hstage : r.recoveryStage = r.effectiveStage := by simp [effectiveStage, hfail]
  let next : DepositState := ⟨r.effectiveStage, r.state.lifecycle, r.state.owner, haccept⟩
  have hrebind : r.state.rebind r.recoveryStage = .ok next := by
    rw [hstage, DepositState.rebind, DepositState.ofStage, dif_pos haccept]
  have hne : next.stage ≠ r.state.stage := by
    intro heq
    have hfailure : r.state.stage.isFailure = true := hfail
    rw [← heq, hnot] at hfailure
    cases hfailure
  have hreplace : r.replace next now = (r.back, some (r.backReport now)) := by
    rw [replace_of_stage_ne hne, back, if_pos hfail, hrebind]
    have hnext : next.isFailed = false := hnot
    simp only [hnext, hfail, Bool.false_eq_true, if_false, if_true]
    rfl
  rw [recover, if_pos hfail, hrebind, Except.map, hreplace]

/-- A sound record is not failed when it has been taken back. -/
theorem isFailed_back {r : DepositRecord} (hr : r.Sound) : r.back.isFailed = false := by
  cases hfail : r.isFailed with
  | false => rw [back, hfail, if_neg Bool.false_ne_true, hfail]
  | true =>
      have hnow := recover_eq hr hfail (Timestamp.ofUnixSeconds 0)
      obtain ⟨next, hnext, _, _, _, hnot⟩ :=
        recover_of_isFailed hr hfail (Timestamp.ofUnixSeconds 0)
      rw [hnow] at hnext
      have hback : r.back = (r.replace next (Timestamp.ofUnixSeconds 0)).1 :=
        congrArg Prod.fst (Except.ok.inj hnext)
      rw [hback, isFailed, DepositState.isFailed, stage_replace]
      exact hnot

end DepositRecord

namespace Artefact

/-- The file with its record taken back. -/
def back (a : Artefact) : Artefact := a.withRecord a.record.back

/-- The transition that is reported when a failed file is taken back. -/
def backReport (a : Artefact) (now : Timestamp) : Transition := a.record.backReport now

theorem recover_eq {a : Artefact} (hr : a.record.Sound) (hfail : a.isFailed = true)
    (now : Timestamp) : a.recover now = .ok (a.back, some (a.backReport now)) := by
  rw [recover, DepositRecord.recover_eq hr hfail now]
  rfl

/-- A file that has not failed has nothing to be taken back from. -/
theorem back_of_not_failed {a : Artefact} (h : a.isFailed = false) : a.back = a := by
  have hrecord : a.record.back = a.record := if_neg (by
    rw [show a.record.isFailed = false from h]
    exact Bool.false_ne_true)
  rw [back, hrecord]
  rfl

theorem isFailed_back {a : Artefact} (hr : a.record.Sound) : a.back.isFailed = false :=
  DepositRecord.isFailed_back hr

end Artefact

namespace Observation

variable {o : Observation} {a : Artefact} {now : Timestamp}

/-- The observation with its own record taken back. -/
def ownBack (o : Observation) : Observation :=
  ⟨o.sbid, o.record.back, o.started, o.completed, o.artefacts⟩

/-- The observation with one of its files taken back. -/
def fileBack (o : Observation) (a : Artefact) : Observation :=
  o.withArtefacts (o.artefacts.map fun b => if b.id = a.id then b.back else b)

/-- The observation and all its files taken back. -/
def allBack (o : Observation) : Observation :=
  (o.withArtefacts (o.artefacts.map Artefact.back)).ownBack

/-- The failed files. -/
def failedFiles (o : Observation) : List Artefact := o.artefacts.filter Artefact.isFailed

theorem recoverOwn_eq (h : o.record.Sound) (hfail : o.isFailed = true) (now : Timestamp) :
    o.recoverOwn now = .ok (o.ownBack, some (o.record.backReport now)) := by
  rw [recoverOwn, DepositRecord.recover_eq h hfail now]
  rfl

/-- Taking a failed observation back at once. -/
theorem recoverAll_eq (h : o.Sound) (hfail : o.isFailed = true) (now : Timestamp) :
    o.recoverAll now = (o.allBack, .ok
      (o.failedFiles.map (·.backReport now) ++ [o.record.backReport now])) := by
  have hfiles : (o.artefacts.map fun a => if a.isFailed then a.recovered now else a) =
      o.artefacts.map Artefact.back := by
    refine List.map_congr_left fun a ha => ?_
    cases hfailed : a.isFailed with
    | false => rw [if_neg Bool.false_ne_true, Artefact.back_of_not_failed hfailed]
    | true =>
        rw [if_pos rfl, Artefact.recovered, Artefact.recover_eq (h.files a ha) hfailed]
  have hreports : (o.artefacts.filter Artefact.isFailed).filterMap (·.recoveryReport now) =
      o.failedFiles.map (·.backReport now) := by
    rw [failedFiles, ← List.filterMap_eq_map]
    refine List.filterMap_congr fun a ha => ?_
    obtain ⟨hmem, hfailed⟩ := List.mem_filter.mp ha
    rw [Artefact.recoveryReport, Artefact.recover_eq (h.files a hmem) hfailed]
    rfl
  have hown := recoverOwn_eq (o := o.withArtefacts (o.artefacts.map Artefact.back)) h.record hfail
    now
  rw [recoverAll, hfail, recoverEach_eq now h.files, hfiles, hreports]
  simp only [Bool.not_true, Bool.false_eq_true, if_false, hown]
  rfl

/-- Taking one failed file back, and the observation with it where no other file is failed. -/
theorem recoverArtefact_eq (h : o.Sound) (ha : a ∈ o.artefacts) (hfail : a.isFailed = true)
    (now : Timestamp) :
    o.recoverArtefact a.filename now =
      if o.isFailed && !(o.fileBack a).artefacts.any (·.isFailed) then
        ((o.fileBack a).ownBack, .ok [a.backReport now, o.record.backReport now])
      else (o.fileBack a, .ok [a.backReport now]) := by
  have hnamed : o.named? a.filename = some a := (named?_eq_some_iff h.wellFormed).mpr ⟨ha, rfl⟩
  have hfound : (o.artefacts.findIdx? fun b => b.filename == a.filename).isSome = true := by
    rw [List.findIdx?_isSome]
    exact List.any_eq_true.mpr ⟨a, ha, beq_self_eq_true _⟩
  obtain ⟨place, hplace⟩ := Option.isSome_iff_exists.mp hfound
  obtain ⟨_, _, rfl⟩ := findIdx?_named? h.wellFormed hplace hnamed
  have hset : o.artefacts.set a.id.index a.back = (o.fileBack a).artefacts := by
    rw [h.wellFormed.files.arranged.set_eq_map ha]
    refine List.map_congr_left fun b hb => ?_
    by_cases hid : b.id = a.id
    · rw [if_pos hid, if_pos hid, h.wellFormed.files.arranged.eq_of_id hb ha hid]
    · rw [if_neg hid, if_neg hid]
  have hown : o.isFailed = true → (o.fileBack a).recoverOwn now =
      .ok ((o.fileBack a).ownBack, some (o.record.backReport now)) := fun hfailed =>
    recoverOwn_eq (o := o.fileBack a) h.record hfailed now
  rw [recoverArtefact, hplace, hnamed]
  simp only [hfail, Bool.not_true, Bool.false_eq_true, if_false,
    Artefact.recover_eq (h.files a ha) hfail now, hset]
  change (if (o.isFailed && !(o.fileBack a).artefacts.any (·.isFailed)) = true then _ else _) = _
  split
  · next hlast =>
      rw [show o.withArtefacts (o.fileBack a).artefacts = o.fileBack a from rfl,
        hown (Bool.and_eq_true_iff.mp hlast).1]
      rfl
  · rfl

/-- Takes files back under their names, one call after the other, each at a time of its own. -/
def recoverFiles : List (Artefact × Timestamp) → Observation →
    Observation × List (Except RecoveryError (List Transition))
  | [], o => (o, [])
  | (a, now) :: calls, o =>
      let (o, result) := o.recoverArtefact a.filename now
      let (o, results) := recoverFiles calls o
      (o, result :: results)

theorem sound_fileBack (h : o.Sound) (ha : a ∈ o.artefacts) (hfail : a.isFailed = true) :
    (o.fileBack a).Sound := by
  have hback : a.Continues a.back :=
    (Artefact.stays_recover
      (Artefact.recover_eq (h.files a ha) hfail (Timestamp.ofUnixSeconds 0))).2
  refine h.moves (moves_withArtefacts fun b hb => ?_)
  by_cases hid : b.id = a.id
  · rw [if_pos hid, h.wellFormed.files.arranged.eq_of_id hb ha hid]
    exact hback
  · rw [if_neg hid]
    exact Artefact.Continues.refl b

/-- A file that was taken back is no failed one any more; the others are. -/
theorem failedFiles_fileBack (h : o.Sound) (a : Artefact) :
    (o.fileBack a).failedFiles = o.failedFiles.filter fun b => b.id ≠ a.id := by
  have hfailed : ∀ b ∈ o.artefacts,
      (if b.id = a.id then b.back else b).isFailed = (decide (b.id ≠ a.id) && b.isFailed) := by
    intro b hb
    by_cases hid : b.id = a.id
    · simp [hid, Artefact.isFailed_back (h.files b hb)]
    · simp [hid]
  have hsame : ∀ b ∈ o.artefacts.filter fun b => decide (b.id ≠ a.id) && b.isFailed,
      (if b.id = a.id then b.back else b) = b := fun b hb => by
    have hid : b.id ≠ a.id := by simpa using (Bool.and_eq_true_iff.mp (List.mem_filter.mp hb).2).1
    rw [if_neg hid]
  calc (o.fileBack a).failedFiles
      = (o.artefacts.filter fun b => decide (b.id ≠ a.id) && b.isFailed).map
          fun b => if b.id = a.id then b.back else b := by
        rw [failedFiles, fileBack, withArtefacts, List.filter_map]
        exact congrArg _ (List.filter_congr hfailed)
    _ = o.artefacts.filter fun b => decide (b.id ≠ a.id) && b.isFailed := by
        rw [List.map_congr_left hsame, List.map_id']
    _ = o.failedFiles.filter fun b => b.id ≠ a.id := by
        rw [failedFiles, List.filter_filter]

/-- Taking everything back takes no notice of a file that was taken back before. -/
theorem allBack_fileBack (h : o.Sound) (a : Artefact) : (o.fileBack a).allBack = o.allBack := by
  have hfiles : (o.fileBack a).artefacts.map Artefact.back = o.artefacts.map Artefact.back := by
    rw [fileBack, withArtefacts, List.map_map]
    refine List.map_congr_left fun b hb => ?_
    by_cases hid : b.id = a.id
    · rw [Function.comp_apply, if_pos hid,
        Artefact.back_of_not_failed (Artefact.isFailed_back (h.files b hb))]
    · rw [Function.comp_apply, if_neg hid]
  simp only [allBack, hfiles]
  rfl

/-- Where no other file is failed, taking one file and the own record back takes everything back. -/
theorem ownBack_fileBack (h : o.Sound) (hnone : (o.fileBack a).failedFiles = []) :
    (o.fileBack a).ownBack = o.allBack := by
  have hfiles : (o.fileBack a).artefacts.map Artefact.back = (o.fileBack a).artefacts := by
    refine (List.map_congr_left fun b hb => ?_).trans (List.map_id' _)
    refine Artefact.back_of_not_failed ?_
    simpa using List.filter_eq_nil_iff.mp hnone b hb
  rw [← allBack_fileBack h a, allBack, hfiles]
  rfl

/-- Of the failed files in any order, those behind the first are left when that one is taken
back. -/
theorem perm_failedFiles_fileBack (h : o.Sound) {rest : List Artefact}
    (hperm : (a :: rest).Perm o.failedFiles) : rest.Perm (o.fileBack a).failedFiles := by
  have hids : ((a :: rest).map Artefact.id).Nodup := by
    refine (hperm.map Artefact.id).nodup_iff.mpr ?_
    exact h.wellFormed.files.arranged.nodup_ids.sublist (List.filter_sublist.map Artefact.id)
  have hothers : ∀ b ∈ rest, b.id ≠ a.id := fun b hb heq =>
    (List.nodup_cons.mp hids).1 (List.mem_map.mpr ⟨b, hb, heq⟩)
  have hfiltered := hperm.filter fun b => b.id ≠ a.id
  rw [← failedFiles_fileBack h a] at hfiltered
  refine List.Perm.trans (List.Perm.of_eq ?_) hfiltered
  rw [List.filter_cons_of_neg (by simp),
    List.filter_eq_self.mpr fun b hb => by simpa using hothers b hb]

/-- Files taken back one after the other, up to the last that is failed: every call reports its
file, and the last one the observation too. -/
theorem recoverFiles_of_perm {calls : List (Artefact × Timestamp)} {last : Artefact × Timestamp} :
    ∀ {o : Observation}, o.Sound → o.isFailed = true →
      ((calls ++ [last]).map Prod.fst).Perm o.failedFiles →
      recoverFiles (calls ++ [last]) o = (o.allBack,
        calls.map (fun call => .ok [call.1.backReport call.2]) ++
          [.ok [last.1.backReport last.2, o.record.backReport last.2]]) := by
  induction calls with
  | nil =>
      intro o h hfail hperm
      have hfailed : o.failedFiles = [last.1] := (List.perm_singleton.mp hperm.symm)
      obtain ⟨hmem, hlast⟩ := List.mem_filter.mp
        (show last.1 ∈ o.failedFiles from hfailed ▸ List.mem_singleton_self _)
      have hnone : (o.fileBack last.1).failedFiles = [] := by
        rw [failedFiles_fileBack h, hfailed]
        simp
      have hany : (o.fileBack last.1).artefacts.any (·.isFailed) = false := by
        simpa [failedFiles, List.filter_eq_nil_iff] using hnone
      simp only [List.nil_append, recoverFiles, recoverArtefact_eq h hmem hlast, hfail, hany,
        Bool.not_false, Bool.and_self, if_true, ownBack_fileBack h hnone, List.map_nil]
  | cons call calls ih =>
      intro o h hfail hperm
      obtain ⟨a, now⟩ := call
      obtain ⟨hmem, hfailed⟩ := List.mem_filter.mp (hperm.subset List.mem_cons_self)
      have hrest : ((calls ++ [last]).map Prod.fst).Perm (o.fileBack a).failedFiles :=
        perm_failedFiles_fileBack h hperm
      have hany : (o.fileBack a).artefacts.any (·.isFailed) = true := by
        have hlast : last.1 ∈ (o.fileBack a).failedFiles :=
          hrest.subset (List.mem_map_of_mem (List.mem_append_right _ (List.mem_singleton_self _)))
        obtain ⟨hlast, hlastFailed⟩ := List.mem_filter.mp hlast
        exact List.any_eq_true.mpr ⟨last.1, hlast, hlastFailed⟩
      have hnext := ih (sound_fileBack h hmem hfailed) hfail hrest
      rw [allBack_fileBack h a] at hnext
      simp only [List.cons_append, recoverFiles, recoverArtefact_eq h hmem hfailed, hany,
        Bool.not_true, Bool.and_false, Bool.false_eq_true, if_false, hnext, List.map_cons]
      rfl

/-- In every state of every run, a failed observation with failed files can be taken back file by
file: called once for each of them, in any order and at any times, the recovery of a file is never
refused; it reports that file and, when it is the last one, the observation; and the observation is
then the one that taking it back at once gives. -/
theorem recoverFiles_eq_recoverAll {allowed : Observation → Operation → Prop}
    (h : Reachable allowed o) (hfail : o.isFailed = true) {calls : List (Artefact × Timestamp)}
    {last : Artefact × Timestamp}
    (hcalls : ((calls ++ [last]).map Prod.fst).Perm (o.artefacts.filter Artefact.isFailed))
    (now : Timestamp) :
    (∃ log, o.recoverAll now = ((recoverFiles (calls ++ [last]) o).1, .ok log)) ∧
      (recoverFiles (calls ++ [last]) o).2 =
        calls.map (fun call => .ok [call.1.backReport call.2]) ++
          [.ok [last.1.backReport last.2, o.record.backReport last.2]] := by
  have hfiles := recoverFiles_of_perm h.sound hfail hcalls
  rw [hfiles, recoverAll_eq h.sound hfail now]
  exact ⟨⟨_, rfl⟩, rfl⟩

/-- A cube that failed while it was stored and a catalogue that was found invalid at once, with the
observation failed after them, taken back in the other order at two times. -/
theorem recoverFiles_catalogue_first :
    ∃ (o : Observation) (cube catalogue : Artefact) (t u now : Timestamp),
      Reachable (fun _ _ => True) o ∧ o.isFailed = true ∧
        cube.record.checkpoint = some .processing ∧
        catalogue.record.checkpoint = some .undeposited ∧
        [catalogue, cube].Perm (o.artefacts.filter Artefact.isFailed) ∧
        (∃ log, o.recoverAll now = ((recoverFiles [(catalogue, t), (cube, u)] o).1, .ok log)) ∧
        (recoverFiles [(catalogue, t), (cube, u)] o).2 =
          [.ok [catalogue.backReport t], .ok [cube.backReport u, o.record.backReport u]] := by
  let operations : List Operation :=
    [.add .imageCube "i", .add .catalogue "c", .progress Signals.autoComplete,
      .progress Signals.autoComplete, .setArtefactStage ⟨0⟩ .processing,
      .setArtefactStage ⟨0⟩ .failed, .setArtefactStage ⟨1⟩ .invalid,
      .progress Signals.autoComplete]
  obtain ⟨o, ho⟩ : ∃ o, o = performEach (.ofUnixSeconds 0) (fresh ⟨1⟩) operations := ⟨_, rfl⟩
  have hrun : Reachable (fun _ _ => True) o :=
    ho ▸ (Reachable.new (new_standard ⟨1⟩)).performEach
      ⟨trivial, trivial, trivial, trivial, trivial, trivial, trivial, trivial, trivial⟩
  have hfail : o.isFailed = true := by rw [ho]; decide +kernel
  obtain ⟨cube, catalogue, hcube, hcatalogue, hperm⟩ : ∃ cube catalogue : Artefact,
      cube.record.checkpoint = some .processing ∧ catalogue.record.checkpoint = some .undeposited ∧
        [catalogue, cube].Perm (o.artefacts.filter Artefact.isFailed) := by
    let files := (performEach (.ofUnixSeconds 0) (fresh ⟨1⟩) operations).artefacts
    refine ⟨files.get ⟨0, by decide +kernel⟩, files.get ⟨1, by decide +kernel⟩, ?_⟩
    rw [ho]
    decide +kernel
  let calls : List (Artefact × Timestamp) := [(catalogue, .ofUnixSeconds 1)]
  let last : Artefact × Timestamp := (cube, .ofUnixSeconds 2)
  obtain ⟨hall, hreports⟩ :=
    @recoverFiles_eq_recoverAll o _ hrun hfail calls last hperm (.ofUnixSeconds 3)
  exact ⟨o, cube, catalogue, _, _, _, hrun, hfail, hcube, hcatalogue, hperm, hall, hreports⟩

end Observation

end PiecewiseRecovery

end ArchiveDeposit

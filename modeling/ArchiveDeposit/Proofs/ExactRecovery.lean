import ArchiveDeposit.Proofs.JobReport
import ArchiveDeposit.Proofs.PiecewiseRecovery

/-!
# What a recovery comes to

The recovery of a file is refused if there is no such file, or if it is not failed; the recovery of
an observation, if that is not failed.  Nothing else refuses them: a checkpoint that a run notes
belongs to the lifecycle, so that no recovery stops half way.

What is recovered stands at its checkpoint, without one from then on, its failures counted as before.
A file that is recovered takes the observation along exactly if that is failed and no other file is.
Everything else stays as it is, the times of the observation too.

**Results.**
* `DepositRecord.takenBack_back` and `Artefact.returns_back`: a record that is recovered, and a file
  that is recovered from a failure reported before.
* `Observation.recoverArtefact_spec`: the recovery of a failed file.
* `Observation.recovers_exactly`: the causes of a refusal, and all that a recovery changes.
-/

namespace ArchiveDeposit

section ExactRecovery

/-- The same record at its checkpoint, without one from then on. -/
structure DepositRecord.TakenBack (r s : DepositRecord) : Prop where
  stage : r.checkpoint = some s.stage
  checkpoint : s.checkpoint = none
  failureCount : s.failureCount = r.failureCount
  lifecycle : s.state.lifecycle = r.state.lifecycle
  owner : s.state.owner = r.state.owner

/-- A sound record that is failed is taken back to its checkpoint. -/
theorem DepositRecord.takenBack_back {r : DepositRecord} (hr : r.Sound) (hfail : r.isFailed = true) :
    r.TakenBack r.back := by
  have haccept := Lifecycle.accepts_of_isOnLine hr.onLine
  have hstage : r.recoveryStage = r.effectiveStage := by simp [effectiveStage, hfail]
  have hback : r.back =
      ⟨⟨r.effectiveStage, r.state.lifecycle, r.state.owner, haccept⟩, r.failureCount, none⟩ := by
    rw [back, if_pos hfail, hstage, DepositState.rebind, DepositState.ofStage, dif_pos haccept]
  rw [hback]
  refine ⟨?_, rfl, rfl, rfl, rfl⟩
  rw [hr.checkpoint_eq, if_pos hfail]
  rfl

namespace Artefact

variable {a b : Artefact}

/-- The same file, its record taken back. -/
structure TakenBack (a b : Artefact) : Prop where
  file : b = a.withRecord b.record
  record : a.record.TakenBack b.record

theorem takenBack_back (hr : a.record.Sound) (hfail : a.isFailed = true) : a.TakenBack a.back :=
  ⟨rfl, DepositRecord.takenBack_back hr hfail⟩

/-- The same file where it stood before its failures, with one more of these counted, unless it was
in that failure already. -/
structure Returns (failure : Stage) (a b : Artefact) : Prop where
  file : b = a.withRecord b.record
  stage : b.stage = a.record.effectiveStage
  checkpoint : b.record.checkpoint = none
  failureCount : b.record.failureCount =
    if failure = a.stage then a.record.failureCount else a.record.failureCount + 1
  lifecycle : b.state.lifecycle = a.state.lifecycle
  owner : b.state.owner = a.state.owner

/-- A failure that is recovered leaves the file where it stood. -/
theorem returns_back {failure : Stage} (hfailure : failure.isFailure = true)
    (h : a.Enters failure b) (hb : b.record.Sound) : a.Returns failure b.back := by
  have hfail : b.isFailed = true := by
    change b.stage.isFailure = true
    rw [h.stage, hfailure]
  have hback := DepositRecord.takenBack_back hb hfail
  have hcheckpoint := h.checkpoint
  rw [if_pos hfailure, hback.stage] at hcheckpoint
  refine ⟨?_, Option.some.inj hcheckpoint, hback.checkpoint, ?_, hback.lifecycle.trans h.lifecycle,
    hback.owner.trans h.owner⟩
  · rw [h.file]
    rfl
  · change b.record.back.failureCount = _
    rw [hback.failureCount, h.failureCount]
    by_cases hsame : failure = a.stage <;> simp [hsame, hfailure]

end Artefact

namespace Observation

open Encapsulation

variable {o : Observation} {a : Artefact} {now : Timestamp}

/-- Whether the observation is failed, and no file besides the given one is. -/
def FailsOnlyWith (o : Observation) (a : Artefact) : Prop :=
  o.isFailed = true ∧ ∀ b ∈ o.artefacts, b.isFailed = true → b.id = a.id

instance (o : Observation) (a : Artefact) : Decidable (o.FailsOnlyWith a) :=
  inferInstanceAs (Decidable (_ ∧ _))

/-- Why the recovery of a file is refused. -/
inductive RefusesRecovery (o : Observation) (filename : String) : RecoveryError → Prop
  /-- No file has the name. -/
  | notFound (h : ∀ a ∈ o.artefacts, a.filename ≠ filename) :
      o.RefusesRecovery filename (.artefactNotFound o.sbid filename)
  /-- The file is not failed. -/
  | notFailed {a : Artefact} (ha : a ∈ o.artefacts) (hname : a.filename = filename)
      (h : a.isFailed = false) :
      o.RefusesRecovery filename (.artefactNotFailed o.sbid filename a.stage)

/-- One file is changed in a certain way, and the own record is taken back exactly if the observation
was failed with no other file. -/
structure RecoversFile (o : Observation) (a : Artefact) (change : Artefact → Artefact → Prop)
    (o' : Observation) : Prop where
  frame : o' = ⟨o.sbid, o'.record, o.started, o.completed, o'.artefacts⟩
  files : List.Forall₂ (fun b c => if b.id = a.id then change b c else c = b) o.artefacts o'.artefacts
  record : if o.FailsOnlyWith a then o.record.TakenBack o'.record else o'.record = o.record

/-- The own record is taken back, with that of every failed file. -/
structure RecoversAll (o o' : Observation) : Prop where
  frame : o' = ⟨o.sbid, o'.record, o.started, o.completed, o'.artefacts⟩
  files : List.Forall₂ (fun b c => if b.isFailed then b.TakenBack c else c = b)
    o.artefacts o'.artefacts
  record : o.record.TakenBack o'.record
  sound : o'.isFailed = false ∧ ∀ b ∈ o'.artefacts, b.isFailed = false

/-- The recovery of a file takes the observation along if that was failed with no other file. -/
theorem failsOnlyWith_iff (h : o.Sound) (a : Artefact) :
    o.FailsOnlyWith a ↔
      (o.isFailed && !(o.fileBack a).artefacts.any (·.isFailed)) = true := by
  have hnone : (o.fileBack a).artefacts.any (·.isFailed) = false ↔
      (o.fileBack a).failedFiles = [] := by
    rw [failedFiles, List.any_eq_false, List.filter_eq_nil_iff]
  rw [Bool.and_eq_true, Bool.not_eq_true', hnone, failedFiles_fileBack h, FailsOnlyWith,
    List.filter_eq_nil_iff]
  simp [failedFiles]

/-- The recovery of a failed file. -/
theorem recoverArtefact_spec (h : o.Sound) (ha : a ∈ o.artefacts) (hfail : a.isFailed = true)
    (now : Timestamp) :
    o.recoverArtefact a.filename now =
      (if o.FailsOnlyWith a then (o.fileBack a).ownBack else o.fileBack a,
        .ok (a.backReport now :: if o.FailsOnlyWith a then [o.record.backReport now] else [])) := by
  rw [recoverArtefact_eq h ha hfail]
  simp only [← failsOnlyWith_iff h a]
  split <;> rfl

/-- Where one file is changed, the own record is taken back with the last failed file. -/
theorem recoversFile_of_forall₂ (h : o.record.Sound) {change : Artefact → Artefact → Prop}
    {artefacts : List Artefact} (hfiles : List.Forall₂
      (fun b c => if b.id = a.id then change b c else c = b) o.artefacts artefacts) :
    o.RecoversFile a change (if o.FailsOnlyWith a then (o.withArtefacts artefacts).ownBack
      else o.withArtefacts artefacts) := by
  by_cases hlast : o.FailsOnlyWith a
  · rw [if_pos hlast]
    refine ⟨rfl, hfiles, ?_⟩
    rw [if_pos hlast]
    exact DepositRecord.takenBack_back h hlast.1
  · rw [if_neg hlast]
    refine ⟨rfl, hfiles, ?_⟩
    rw [if_neg hlast]
    rfl

/-- The recovery of a failed file changes that file, and the own record with the last of them. -/
theorem recoversFile_fileBack (h : o.Sound) (ha : a ∈ o.artefacts) (hfail : a.isFailed = true) :
    o.RecoversFile a Artefact.TakenBack
      (if o.FailsOnlyWith a then (o.fileBack a).ownBack else o.fileBack a) := by
  refine recoversFile_of_forall₂ h.record ?_
  rw [List.forall₂_map_right_iff, List.forall₂_same]
  intro b hb
  by_cases hid : b.id = a.id
  · rw [if_pos hid, if_pos hid, h.wellFormed.files.arranged.eq_of_id hb ha hid]
    exact Artefact.takenBack_back (h.files a ha) hfail
  · rw [if_neg hid, if_neg hid]

/-- The recovery of a failed observation leaves nothing failed. -/
theorem recoversAll_allBack (h : o.Sound) (hfail : o.isFailed = true) : o.RecoversAll o.allBack := by
  refine ⟨rfl, ?_, DepositRecord.takenBack_back h.record hfail,
    DepositRecord.isFailed_back h.record, ?_⟩
  · change List.Forall₂ _ o.artefacts (o.artefacts.map _)
    rw [List.forall₂_map_right_iff, List.forall₂_same]
    intro b hb
    split
    · next hfailed => exact Artefact.takenBack_back (h.files b hb) hfailed
    · next hnot => exact Artefact.back_of_not_failed (by simpa using hnot)
  · intro c hc
    obtain ⟨b, hb, rfl⟩ := List.mem_map.mp hc
    exact Artefact.isFailed_back (h.files b hb)

/-- A recovery that is to be refused is refused, and changes nothing. -/
theorem RefusesRecovery.recoverArtefact_eq (h : o.WellFormed) {filename : String}
    {e : RecoveryError} (hrefuses : o.RefusesRecovery filename e) (now : Timestamp) :
    o.recoverArtefact filename now = (o, .error e) := by
  cases hrefuses with
  | notFound hnone =>
      have hfind : o.artefacts.findIdx? (fun a => a.filename == filename) = none := by
        rw [List.findIdx?_eq_none_iff]
        simpa using hnone
      rw [recoverArtefact, hfind]
  | @notFailed a ha hname hnot =>
      have hnamed : o.named? filename = some a := (named?_eq_some_iff h).mpr ⟨ha, hname⟩
      have hfound : (o.artefacts.findIdx? fun b => b.filename == filename).isSome = true := by
        rw [List.findIdx?_isSome]
        exact List.any_eq_true.mpr ⟨a, ha, beq_iff_eq.mpr hname⟩
      obtain ⟨place, hplace⟩ := Option.isSome_iff_exists.mp hfound
      rw [recoverArtefact, hplace, hnamed]
      simp only [hnot, Bool.not_false, if_true]

/-- The recovery of a file is refused, or the file is failed. -/
theorem recoverArtefact_cases (o : Observation) (filename : String) :
    (∃ e, o.RefusesRecovery filename e) ∨
      ∃ a ∈ o.artefacts, a.filename = filename ∧ a.isFailed = true := by
  by_cases hnamed : ∃ a ∈ o.artefacts, a.filename = filename
  · obtain ⟨a, ha, hname⟩ := hnamed
    cases hfail : a.isFailed with
    | false => exact Or.inl ⟨_, .notFailed ha hname hfail⟩
    | true => exact Or.inr ⟨a, ha, hname, hfail⟩
  · exact Or.inl ⟨_, .notFound fun a ha hname => hnamed ⟨a, ha, hname⟩⟩

/-- The causes for which the recovery of a file is refused, and no others. -/
theorem recoverArtefact_eq_error_iff (h : o.Sound) {filename : String} {o' : Observation}
    {e : RecoveryError} :
    o.recoverArtefact filename now = (o', .error e) ↔ o' = o ∧ o.RefusesRecovery filename e := by
  constructor
  · intro herror
    rcases o.recoverArtefact_cases filename with ⟨cause, hrefuses⟩ | ⟨a, ha, rfl, hfail⟩
    · rw [hrefuses.recoverArtefact_eq h.wellFormed] at herror
      cases herror
      exact ⟨rfl, hrefuses⟩
    · rw [recoverArtefact_spec h ha hfail] at herror
      cases herror
  · rintro ⟨rfl, hrefuses⟩
    exact hrefuses.recoverArtefact_eq h.wellFormed now

theorem recoverAll_eq_error_iff (h : o.Sound) {o' : Observation} {e : RecoveryError} :
    o.recoverAll now = (o', .error e) ↔
      o' = o ∧ o.isFailed = false ∧ e = .observationNotFailed o.sbid o.stage := by
  cases hfail : o.isFailed with
  | false =>
      have hresult : o.recoverAll now = (o, .error (.observationNotFailed o.sbid o.stage)) := by
        rw [recoverAll, hfail, Bool.not_false, if_pos rfl]
      rw [hresult]
      constructor
      · rintro ⟨⟩
        exact ⟨rfl, rfl, rfl⟩
      · rintro ⟨rfl, _, rfl⟩
        rfl
  | true =>
      rw [recoverAll_eq h hfail]
      constructor
      · rintro ⟨⟩
      · rintro ⟨_, hnot, _⟩
        cases hnot

/-- A failure is reported for any file, and changes no other. -/
theorem perform_report_failure (h : o.Sound) (ha : a ∈ o.artefacts) {failure : Stage}
    (hfailure : failure.isFailure = true) (now : Timestamp) :
    ∃ fails log, (∀ b ∈ o.artefacts, b.Continues (fails b) ∧
        if b.id = a.id then b.Enters failure (fails b) else fails b = b) ∧
      o.perform (.setArtefactStage a.id failure) now =
        (o.withArtefacts (o.artefacts.map fails), .ok log) := by
  have hasks : asksMembers a failure = false := by
    have hne : (failure == .deposited) = false := by
      refine beq_false_of_ne ?_
      rintro rfl
      cases hfailure
    rw [asksMembers, hne, Bool.and_false]
  obtain ⟨change, hadvance⟩ : ∃ change, a.advance failure now = .ok change := by
    cases hresult : a.advance failure now with
    | ok change => exact ⟨change, rfl⟩
    | error e =>
        rcases Artefact.advance_eq_error_iff.mp hresult with hforeign | ⟨_, hnot⟩
        · rw [Lifecycle.accepts, hfailure] at hforeign
          cases hforeign
        · rw [hfailure] at hnot
          cases hnot
  have hanswer : answer o.artefacts a failure now = .ok change :=
    answer_eq_ok_iff.mpr ⟨hadvance, by rw [lagging?, hasks]; rfl⟩
  refine ⟨afterCommit a.id change (asksMembers a failure) now,
    changeLog o.artefacts a failure change now, fun b hb => ⟨?_, ?_⟩, ?_⟩
  · exact h.wellFormed.files.arranged.continues_afterCommit ha
      (Artefact.continues_advance hadvance) _ now b hb
  · have hbecomes := becomes_afterCommit h ha hadvance hb
    have hnone : ¬ a.TakesAlong failure b := by
      rintro ⟨_, rfl, _⟩
      cases hfailure
    simpa only [if_neg hnone] using hbecomes
  · change o.orRefused (o.setArtefactStage a.id failure now) = _
    rw [setArtefactStage_eq h.wellFormed.files ha, hanswer]
    rfl

/-- A file that is reported as failed and then recovered is where it was, and nothing else changes
but the own record, which is taken back if the observation was failed with no other file. -/
theorem returns_of_report_failure (h : o.Sound) (ha : a ∈ o.artefacts) {failure : Stage}
    (hfailure : failure.isFailure = true) (before now : Timestamp) :
    ∃ failed log o' log', o.perform (.setArtefactStage a.id failure) before = (failed, .ok log) ∧
      failed.recoverArtefact a.filename now = (o', .ok log') ∧
        o.RecoversFile a (Artefact.Returns failure) o' := by
  obtain ⟨fails, log, hfails, hperform⟩ := perform_report_failure h ha hfailure before
  have hsound : (o.withArtefacts (o.artefacts.map fails)).Sound :=
    h.moves (moves_withArtefacts fun b hb => (hfails b hb).1)
  obtain ⟨hcont, henters⟩ := hfails a ha
  rw [if_pos rfl] at henters
  have hmem : fails a ∈ (o.withArtefacts (o.artefacts.map fails)).artefacts :=
    List.mem_map_of_mem ha
  have hfail : (fails a).isFailed = true := by
    change (fails a).stage.isFailure = true
    rw [henters.stage, hfailure]
  have hlast : (o.withArtefacts (o.artefacts.map fails)).FailsOnlyWith (fails a) ↔
      o.FailsOnlyWith a := by
    refine and_congr_right fun _ => ?_
    change (∀ c ∈ o.artefacts.map fails, _) ↔ _
    rw [List.forall_mem_map]
    refine forall₂_congr fun b hb => ?_
    rw [(hfails b hb).1.id, hcont.id]
    by_cases hid : b.id = a.id
    · simp [hid]
    · have hsame := (hfails b hb).2
      rw [if_neg hid] at hsame
      rw [hsame]
  have hfiles : List.Forall₂ (fun b c => if b.id = a.id then b.Returns failure c else c = b)
      o.artefacts ((o.withArtefacts (o.artefacts.map fails)).fileBack (fails a)).artefacts := by
    change List.Forall₂ _ o.artefacts ((o.artefacts.map fails).map _)
    rw [List.map_map, List.forall₂_map_right_iff, List.forall₂_same]
    intro b hb
    rw [Function.comp_apply, (hfails b hb).1.id, hcont.id]
    by_cases hid : b.id = a.id
    · rw [if_pos hid, if_pos hid, h.wellFormed.files.arranged.eq_of_id hb ha hid]
      exact Artefact.returns_back hfailure henters (hsound.files _ hmem)
    · have hsame := (hfails b hb).2
      rw [if_neg hid] at hsame ⊢
      rw [if_neg hid, hsame]
  have hrecover := recoverArtefact_spec hsound hmem hfail now
  rw [hcont.filename] at hrecover
  simp only [hlast] at hrecover
  exact ⟨_, log, _, _, hperform, hrecover, recoversFile_of_forall₂ h.record hfiles⟩

/-- The contract of recoveries.  They are refused for the causes named, and then change nothing; they
are granted otherwise, and then change what they should. -/
theorem recovers_exactly {allowed : Observation → Operation → Prop} (h : Reachable allowed o)
    (now : Timestamp) :
    (∀ filename o' e, o.recoverArtefact filename now = (o', .error e) ↔
      o' = o ∧ o.RefusesRecovery filename e) ∧
    (∀ filename o' log, o.recoverArtefact filename now = (o', .ok log) →
      ∃ a ∈ o.artefacts, a.filename = filename ∧ a.isFailed = true ∧
        o.RecoversFile a Artefact.TakenBack o' ∧
        log = a.backReport now :: if o.FailsOnlyWith a then [o.record.backReport now] else []) ∧
    (∀ o' e, o.recoverAll now = (o', .error e) ↔
      o' = o ∧ o.isFailed = false ∧ e = .observationNotFailed o.sbid o.stage) ∧
    (∀ o' log, o.recoverAll now = (o', .ok log) → o.isFailed = true ∧ o.RecoversAll o' ∧
      log = (o.artefacts.filter Artefact.isFailed).map (·.backReport now) ++
        [o.record.backReport now]) ∧
    ∀ a ∈ o.artefacts, ∀ failure : Stage, failure.isFailure = true → ∀ before : Timestamp,
      ∃ failed log o' log', o.perform (.setArtefactStage a.id failure) before = (failed, .ok log) ∧
        failed.recoverArtefact a.filename now = (o', .ok log') ∧
          o.RecoversFile a (Artefact.Returns failure) o' := by
  have hsound := h.sound
  refine ⟨fun filename o' e => recoverArtefact_eq_error_iff hsound, ?_,
    fun o' e => recoverAll_eq_error_iff hsound, ?_, ?_⟩
  · intro filename o' log hok
    rcases o.recoverArtefact_cases filename with ⟨cause, hrefuses⟩ | ⟨a, ha, rfl, hfail⟩
    · rw [hrefuses.recoverArtefact_eq hsound.wellFormed] at hok
      cases hok
    · rw [recoverArtefact_spec hsound ha hfail] at hok
      cases hok
      exact ⟨a, ha, rfl, hfail, recoversFile_fileBack hsound ha hfail, rfl⟩
  · intro o' log hok
    have hfail : o.isFailed = true := by
      by_contra hnot
      rw [(recoverAll_eq_error_iff hsound).mpr ⟨rfl, by simpa using hnot, rfl⟩] at hok
      cases hok
    rw [recoverAll_eq hsound hfail] at hok
    cases hok
    exact ⟨hfail, recoversAll_allBack hsound hfail, rfl⟩
  · exact fun a ha failure hfailure before =>
      returns_of_report_failure hsound ha hfailure before now

/-- A failed observation of a catalogue that failed and a cube that was found invalid: the recovery
of the catalogue leaves the observation failed, and its own recovery takes both files along. -/
theorem recovers_failed_and_invalid :
    ∃ (o o' o'' : Observation) (now : Timestamp) (log log' : List Transition),
      Reachable (fun _ _ => True) o ∧ (o.artefacts.filter Artefact.isFailed).length = 2 ∧
      o.RefusesRecovery "x" (.artefactNotFound ⟨1⟩ "x") ∧
      (o.recoverArtefact "c" now = (o', .ok log) ∧ log.length = 1 ∧
        ∃ a ∈ o.artefacts, a.filename = "c" ∧ o.RecoversFile a Artefact.TakenBack o') ∧
      o.recoverAll now = (o'', .ok log') ∧ log'.length = 3 ∧ o.RecoversAll o'' := by
  let now := Timestamp.ofUnixSeconds 0
  let o := performEach now (fresh ⟨1⟩)
    [.add .catalogue "c", .add .imageCube "i", .setArtefactStage ⟨0⟩ .depositing,
      .setArtefactStage ⟨0⟩ .failed, .setArtefactStage ⟨1⟩ .invalid, .advance .failed]
  have hrun : Reachable (fun _ _ => True) o :=
    (Reachable.new (new_standard ⟨1⟩)).performEach
      ⟨trivial, trivial, trivial, trivial, trivial, trivial, trivial⟩
  have htwo : (o.artefacts.filter Artefact.isFailed).length = 2 := by decide +kernel
  have hunknown : (o.recoverArtefact "x" now).2 = .error (.artefactNotFound ⟨1⟩ "x") := by
    decide +kernel
  have hone : (reported (o.recoverArtefact "c" now).2).length = 1 := by decide +kernel
  have hall : (reported (o.recoverAll now).2).length = 3 := by decide +kernel
  clear_value o
  obtain ⟨hrefused, hfile, _, hwhole, _⟩ := recovers_exactly hrun now
  obtain ⟨_, hcause⟩ := (hrefused "x" _ _).mp (Prod.ext rfl hunknown)
  obtain ⟨log, hresult, hlength⟩ := eq_ok_of_length_reported hone
  obtain ⟨log', hresult', hlength'⟩ := eq_ok_of_length_reported hall
  obtain ⟨a, ha, hname, _, hback, _⟩ := hfile "c" _ log (Prod.ext rfl hresult)
  obtain ⟨_, hbackAll, _⟩ := hwhole _ log' (Prod.ext rfl hresult')
  exact ⟨o, _, _, now, log, log', hrun, htwo, hcause,
    ⟨Prod.ext rfl hresult, hlength, a, ha, hname, hback⟩, Prod.ext rfl hresult', hlength',
    hbackAll⟩

end Observation

end ExactRecovery

end ArchiveDeposit

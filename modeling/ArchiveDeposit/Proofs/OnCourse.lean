import ArchiveDeposit.Manifest
import ArchiveDeposit.Proofs.Aggregate
import ArchiveDeposit.Proofs.Coordination
import ArchiveDeposit.Proofs.Counting

/-!
# Observations on course

An observation is on course when nothing has failed, all files are deposited once it archives, and
every member of a deposited encapsulation is deposited.  Then a tick fails nothing, is not refused,
and leaves the observation on course.  A tick that reports nothing has changed nothing.

**Results.**
* `Observation.OnCourse.progress` and `Observation.OnCourse.packed`: a tick stays on course.
* `Observation.OnCourse.tick`: what a tick does, file by file, and what it reports.
* `Observation.OnCourse.eq_of_nothing_reported`: nothing is reported only where nothing changes.
* `Manifest.onCourse_of_build`: an observation that is built from a manifest is on course.
-/

namespace ArchiveDeposit

section OnCourse

open Encapsulation

namespace Observation

/-- Nothing has failed, and what is deposited is deposited together with what it waits for. -/
structure OnCourse (o : Observation) : Prop where
  /-- As everything is that operations build under the standard factory; see `Reachable.sound`. -/
  wellFormed : o.WellFormed
  own : o.isFailed = false
  files : ∀ a ∈ o.artefacts, a.isFailed = false
  /-- All files are deposited when the observation archives or is further. -/
  archived : o.state.hasReached .archiving = true → ∀ a ∈ o.artefacts, a.isDeposited = true
  /-- The members of a deposited encapsulation are deposited. -/
  members : ∀ file member, Holds o.artefacts file member → file.isDeposited = true →
    member.isDeposited = true

variable {o : Observation} {signals : Signals} {now : Timestamp}

/-- Where no file has failed, none has after a call of progress. -/
theorem OnCourse.files_progress (h : o.OnCourse) :
    ∀ a ∈ (o.progress signals now).1.artefacts, a.isFailed = false := by
  intro b hb
  rw [progress_artefacts h.wellFormed.files] at hb
  obtain ⟨a, ha, rfl⟩ := List.mem_map.mp hb
  exact (advances_fileStep o.stage o.artefacts signals now a).isFailed.trans (h.files a ha)

theorem OnCourse.hasFailedInScope (h : o.OnCourse) :
    hasFailedInScope o.stage (o.progress signals now).1.artefacts = false := by
  unfold Observation.hasFailedInScope
  split
  · rfl
  · rw [List.any_eq_false]
    intro a ha
    simp [h.files_progress a ha]

theorem OnCourse.record_progress (h : o.OnCourse) :
    (o.progress signals now).1.record = (o.record.replace (o.record.state.progress
      (ownSurroundings (o.progress signals now).1.artefacts signals)) now).1 := by
  rw [progress_record, ownNext, h.hasFailedInScope]
  rfl

theorem OnCourse.advances_record_progress (h : o.OnCourse) :
    o.record.Advances (o.progress signals now).1.record := by
  rw [h.record_progress]
  exact o.record.advances_progress _ now

theorem OnCourse.own_progress (h : o.OnCourse) : (o.progress signals now).1.isFailed = false :=
  h.advances_record_progress.isFailed.trans h.own

/-- An encapsulation steps only while the observation deposits. -/
theorem fileStep_of_isEncapsulation {stage : Stage} {artefacts : List Artefact} {file : Artefact}
    (hkind : file.isEncapsulation = true) (hstage : stage ≠ .depositing) :
    fileStep stage artefacts signals now file = file := by
  unfold fileStep
  split
  · rfl
  · rw [if_neg hstage, childStep, hkind]
    simp

/-- The members of an encapsulation that is deposited by a call of progress are deposited by it. -/
theorem OnCourse.members_fileStep (h : o.OnCourse) {file member : Artefact}
    (hholds : Holds o.artefacts file member)
    (hdeposited : (fileStep o.stage o.artefacts signals now file).isDeposited = true) :
    (fileStep o.stage o.artefacts signals now member).isDeposited = true := by
  have hs := h.wellFormed.files
  have hkind := hholds.isEncapsulation hs
  cases hbefore : file.isDeposited with
  | true =>
      have hadvances := advances_fileStep o.stage o.artefacts signals now member
      exact Artefact.isDeposited_of_advances hadvances (h.files member hholds.mem_member)
        (h.members file member hholds hbefore)
  | false =>
      by_cases hstage : o.stage = .depositing
      · rw [hstage] at hdeposited ⊢
        let inScope := fun _ : Artefact => true
        let child := childStep o.artefacts inScope signals now
        have hcont := fun a (_ : a ∈ o.artefacts) =>
          continues_childStep o.artefacts inScope signals now a
        have hsAfter := hs.map hcont
        have hholdsAfter := hholds.map hcont
        have hkindAfter := hholdsAfter.isEncapsulation hsAfter
        have hchild : child file = file := by simp [child, childStep, hkind]
        have hfileStage : (child file).stage ≠ .deposited := by
          rw [hchild]
          exact fun heq => by simp [Artefact.isDeposited, DepositState.isDeposited,
            show file.state.stage = _ from heq] at hbefore
        have hstep : fileStep .depositing o.artefacts signals now file =
            (step (o.artefacts.map child) signals now (child file)).1 :=
          Arranged.settled_of_isEncapsulation hholdsAfter.mem_file hkindAfter
        have hmember : fileStep .depositing o.artefacts signals now member =
            if deposits (o.artefacts.map child) signals now (child file) then
              ((child member).depositPacked now).1
            else child member :=
          hsAfter.arranged.settled_of_member hholdsAfter.mem_file hkindAfter hholdsAfter.mem_member
            hholdsAfter.encapsulation
        rw [hstep] at hdeposited
        obtain ⟨hdeposits, hpacked⟩ :=
          hholdsAfter.of_deposited hsAfter hfileStage (eq_of_beq hdeposited)
        rw [hmember, if_pos hdeposits]
        exact Artefact.isDeposited_depositPacked (hholdsAfter.member_lifecycle hsAfter) hpacked now
      · rw [fileStep_of_isEncapsulation hkind hstage, hbefore] at hdeposited
        cases hdeposited

theorem OnCourse.progress (h : o.OnCourse) : (o.progress signals now).1.OnCourse where
  wellFormed := h.wellFormed.moves (moves_progress h.wellFormed signals now)
  own := h.own_progress
  files := h.files_progress
  archived := by
    have hs := h.wellFormed.files
    have hkept : o.state.hasReached .archiving = true →
        ∀ b ∈ (o.progress signals now).1.artefacts, b.isDeposited = true := by
      intro hreached b hb
      rw [progress_artefacts hs] at hb
      obtain ⟨a, ha, rfl⟩ := List.mem_map.mp hb
      have hadvances := advances_fileStep o.stage o.artefacts signals now a
      exact Artefact.isDeposited_of_advances hadvances (h.files a ha) (h.archived hreached a ha)
    intro hreached
    have hl : o.record.state.lifecycle = .observation := h.wellFormed.lifecycle
    have hlAfter : (o.progress signals now).1.record.state.lifecycle = o.record.state.lifecycle :=
      h.advances_record_progress.lifecycle
    rcases progress_record_cases o signals now with
      ⟨hfailed, _⟩ | ⟨_, hsame | ⟨taken, hstep, hpermit, _, _, hstage⟩⟩
    · rw [h.hasFailedInScope] at hfailed
      cases hfailed
    · apply hkept
      rw [state, ← hsame]
      exact hreached
    · have hmem : taken ∈ Lifecycle.observation.steps := by
        rw [← hl]
        exact List.mem_of_find?_eq_some hstep
      rw [DepositState.hasReached_eq, state, hlAfter, hl,
        show (o.progress signals now).1.record.state.stage = _ from hstage] at hreached
      rcases (observation_gates taken hmem).2 hreached with hbefore | hgate
      · apply hkept
        rw [DepositState.hasReached_eq, state, hl]
        rw [Lifecycle.source_of_stepFrom? hstep] at hbefore
        exact hbefore
      · simp only [Surroundings.permits, hgate, Surroundings.opens, ownSurroundings, List.all_map,
          Bool.and_eq_true, List.all_eq_true] at hpermit
        exact hpermit.1
  members := by
    intro file member hholds hdeposited
    rw [progress_artefacts h.wellFormed.files] at hholds
    obtain ⟨a, b, hab, rfl, rfl⟩ := hholds.of_map fun a _ =>
      continues_fileStep o.stage o.artefacts signals now a
    exact h.members_fileStep hab hdeposited

theorem OnCourse.packed (h : o.OnCourse) (now : Timestamp) :
    (o.withArtefacts (o.artefacts.map (·.afterJobs now))).OnCourse where
  wellFormed := h.wellFormed.moves (moves_withArtefacts fun a _ => a.continues_afterJobs now)
  own := h.own
  files b hb := by
    obtain ⟨a, ha, rfl⟩ := List.mem_map.mp hb
    exact (a.advances_afterJobs now).isFailed.trans (h.files a ha)
  archived hreached b hb := by
    obtain ⟨a, ha, rfl⟩ := List.mem_map.mp hb
    exact Artefact.isDeposited_of_advances (a.advances_afterJobs now) (h.files a ha)
      (h.archived hreached a ha)
  members file member hholds hdeposited := by
    obtain ⟨a, b, hab, rfl, rfl⟩ := hholds.of_map fun a _ => a.continues_afterJobs now
    have hnot : a.isPackable = false := by
      cases hpack : a.isPackable with
      | false => rfl
      | true =>
          have hkind :=
            not_isEncapsulation_of_isPackable h.wellFormed.files hab.mem_file hpack
          rw [hab.isEncapsulation h.wellFormed.files] at hkind
          cases hkind
    rw [Artefact.afterJobs, hnot] at hdeposited
    exact Artefact.isDeposited_of_advances (b.advances_afterJobs now) (h.files b hab.mem_member)
      (h.members a b hab hdeposited)

/-- A file after a tick. -/
def tickFile (o : Observation) (signals : Signals) (now : Timestamp) (a : Artefact) : Artefact :=
  (fileStep o.stage o.artefacts signals now a).afterJobs now

/-- The observation after a tick on course. -/
def afterTick (o : Observation) (signals : Signals) (now : Timestamp) : Observation :=
  let o := (o.progress signals now).1
  o.withArtefacts (o.artefacts.map (·.afterJobs now))

theorem OnCourse.afterTick (h : o.OnCourse) : (o.afterTick signals now).OnCourse :=
  h.progress.packed now

theorem OnCourse.artefacts_afterTick (h : o.OnCourse) :
    (o.afterTick signals now).artefacts = o.artefacts.map (o.tickFile signals now) := by
  change (o.progress signals now).1.artefacts.map (·.afterJobs now) = _
  rw [progress_artefacts h.wellFormed.files, List.map_map]
  rfl

theorem OnCourse.advances_afterTick (h : o.OnCourse) :
    o.record.Advances (o.afterTick signals now).record :=
  h.advances_record_progress

theorem continues_tickFile (o : Observation) (signals : Signals) (now : Timestamp) (a : Artefact) :
    a.Continues (o.tickFile signals now a) :=
  (continues_fileStep o.stage o.artefacts signals now a).trans (Artefact.continues_afterJobs _ now)

theorem advances_tickFile (o : Observation) (signals : Signals) (now : Timestamp) (a : Artefact) :
    a.record.Advances (o.tickFile signals now a).record :=
  (advances_fileStep o.stage o.artefacts signals now a).trans (Artefact.advances_afterJobs _ now)

/-- A tick on course is never refused, and takes one step off for each transition that it
reports. -/
theorem OnCourse.tick (h : o.OnCourse) (signals : Signals) (now : Timestamp) :
    ∃ moved, o.tick signals true now = (o.afterTick signals now, .ok moved) ∧
      o.stepsAhead = (o.afterTick signals now).stepsAhead + moved.length := by
  have heq : o.tick signals true now = (o.afterTick signals now, .ok ((o.progress signals now).2 ++
      ((o.progress signals now).1.artefacts.filter Artefact.isPackable).map
        (packedReport now))) := tick_eq h.wellFormed h.own_progress
  refine ⟨_, heq, ?_⟩
  have hcount := stepsAhead_tick h.wellFormed h.hasFailedInScope h.own_progress
    (congrArg Prod.snd heq)
  rw [heq] at hcount
  exact hcount

/-- Where as many steps lie ahead as before a tick, nothing has changed. -/
theorem OnCourse.eq_of_nothing_reported (h : o.OnCourse)
    (hsame : o.stepsAhead = (o.afterTick signals now).stepsAhead) :
    (o.afterTick signals now).artefacts = o.artefacts ∧
      (o.afterTick signals now).record = o.record := by
  have hfiles : ∀ a ∈ o.artefacts, (o.tickFile signals now a).ahead ≤ a.ahead :=
    fun a _ => (o.advances_tickFile signals now a).ahead_le
  have hown : o.record.Advances (o.afterTick signals now).record := h.advances_afterTick
  have hownLe := hown.ahead_le
  have htotal := Artefact.totalAhead_map_le hfiles
  rw [stepsAhead, stepsAhead, h.artefacts_afterTick] at hsame
  constructor
  · have heq := Artefact.ahead_eq_of_totalAhead hfiles (by omega)
    rw [h.artefacts_afterTick, List.map_congr_left (g := id), List.map_id]
    intro a ha
    refine (continues_tickFile o signals now a).eq_of_record ?_
    rcases (o.advances_tickFile signals now a).ahead with hrecord | hlt
    · exact hrecord
    · exact absurd (heq a ha) (Nat.ne_of_lt hlt)
  · rcases hown.ahead with hrecord | hlt
    · exact hrecord
    · omega

/-- Nothing of the observation has left its first stage. -/
structure Unstarted (o : Observation) : Prop where
  sound : o.Sound
  own : o.stage = .undeposited
  files : ∀ a ∈ o.artefacts, a.stage = a.state.lifecycle.initial

theorem Unstarted.onCourse (h : o.Unstarted) : o.OnCourse where
  wellFormed := h.sound.wellFormed
  own := by
    rw [isFailed, DepositState.isFailed, show o.state.stage = _ from h.own]
    decide
  files a ha := by
    rw [Artefact.isFailed, DepositState.isFailed, show a.state.stage = _ from h.files a ha]
    exact Lifecycle.isFailure_of_isOnLine (Lifecycle.isOnLine_initial _)
  archived hreached := by
    rw [DepositState.hasReached_eq, h.sound.wellFormed.lifecycle,
      show o.state.stage = _ from h.own] at hreached
    cases hreached
  members file member hholds hdeposited := by
    rw [Artefact.isDeposited, DepositState.isDeposited,
      show file.state.stage = _ from h.files file hholds.mem_file,
      hholds.lifecycle h.sound.wellFormed.files] at hdeposited
    cases hdeposited

theorem Unstarted.push (h : o.Unstarted) {o' : Observation} {kind : Kind} {filename : String}
    {encapsulation : Option ArtefactId} {id : ArtefactId}
    (hpacked : ∀ id, encapsulation = some id →
      ∃ file ∈ o.artefacts, file.id = id ∧ file.isEncapsulation = true)
    (hok : o.push .standard kind filename encapsulation = .ok (o', id)) : o'.Unstarted := by
  have hsound := h.sound.push hpacked hok
  obtain ⟨_, _, _, l, _, rfl⟩ := push_spec hok
  refine ⟨hsound, h.own, ?_⟩
  intro a ha
  rcases List.mem_append.mp ha with hold | hnew
  · exact h.files a hold
  · rw [List.mem_singleton.mp hnew]
    rfl

end Observation

namespace Manifest

open Observation

/-- What adding one file keeps, adding files one after the other keeps. -/
theorem addEach_spec {P : Observation → Prop}
    {add : Observation → ManifestEntry → Except ManifestError Observation}
    (hadd : ∀ o e o', P o → add o e = .ok o' → P o') (entries : List ManifestEntry) :
    ∀ {o o' : Observation}, P o → addEach add o entries = .ok o' → P o' := by
  induction entries with
  | nil =>
      intro o o' h hok
      cases hok
      exact h
  | cons e rest ih =>
      intro o o' h hok
      unfold addEach at hok
      split at hok
      · cases hok
      · next after hafter => exact ih (hadd o e after h hafter) hok

theorem unstarted_of_refuse {o' : Observation} {e : ManifestEntry}
    {result : Except DepositError (Observation × ArtefactId)}
    (h : ∀ after id, result = .ok (after, id) → after.Unstarted) (hok : refuse e result = .ok o') :
    o'.Unstarted := by
  unfold refuse at hok
  split at hok
  · cases hok
  · next after id =>
      cases hok
      exact h _ id rfl

theorem unstarted_addEncapsulation {o o' : Observation} {e : ManifestEntry} (h : o.Unstarted)
    (hok : addEncapsulation .standard o e = .ok o') : o'.Unstarted := by
  unfold addEncapsulation at hok
  split at hok
  · cases hok
  · refine unstarted_of_refuse (fun after id hpush => h.push (fun id hid => ?_) hpush) hok
    cases hid

theorem unstarted_addFile {o o' : Observation} {e : ManifestEntry} (h : o.Unstarted)
    (hok : addFile .standard o e = .ok o') : o'.Unstarted := by
  unfold addFile at hok
  split at hok
  · refine unstarted_of_refuse (fun after id hpush => h.push (fun id hid => ?_) hpush) hok
    cases hid
  · split at hok
    · cases hok
    · refine unstarted_of_refuse (fun after id hadd => ?_) hok
      obtain ⟨hfile, hpush⟩ := addEncapsulated_spec h.sound.wellFormed hadd
      refine h.push (fun id hid => ?_) hpush
      cases hid
      exact hfile

/-- An observation that is built from a manifest is on course. -/
theorem onCourse_of_build {m : Manifest} {o : Observation} (hok : m.build .standard = .ok o) :
    o.OnCourse := by
  unfold build at hok
  split at hok
  · cases hok
  · split at hok
    · cases hok
    · next started hnew =>
        split at hok
        · cases hok
        · next packed hpacked =>
            obtain ⟨hsound, hnone, hstage⟩ := sound_new hnew
            have hstarted : started.Unstarted := ⟨hsound, hstage, by simp [hnone]⟩
            have hencapsulations : packed.Unstarted :=
              addEach_spec (fun _ _ _ => unstarted_addEncapsulation) _ hstarted hpacked
            exact (addEach_spec (fun _ _ _ => unstarted_addFile) _ hencapsulations hok).onCourse

end Manifest

end OnCourse

end ArchiveDeposit

import ArchiveDeposit.Proofs.Operation

/-!
# The integrity of an observation

What every operation may rely on when it looks up a file by its number, by its name or by the
encapsulation that it is packed into, and when it takes a failed owner back: that numbers are
places, that names differ, that files name their parent and their encapsulation truly, and that
what is failed has a checkpoint on the line of its lifecycle.  All of it holds in every state of
every run, and an operation that is refused leaves the observation as it is.

Most refusals come before anything is changed.  Simulated jobs, and recoveries that take back one
file after the other, could be refused half way; of a sound observation they never are.

**Results.**
* `Observation.Sound.intact`: a sound observation is intact.
* `Observation.perform_eq_of_error`: an operation that is refused changes nothing.
* `Observation.intact_of_reachable`: both hold in every state of every run.
-/

namespace ArchiveDeposit

section Integrity

/-- A record in a stage of its lifecycle, with a checkpoint exactly while it is failed, to which it
can be taken back. -/
structure DepositRecord.Intact (r : DepositRecord) : Prop where
  accepted : r.state.lifecycle.accepts r.state.stage = true
  checkpoint_iff : r.checkpoint.isSome = true ↔ r.isFailed = true
  checkpoint_spec : ∀ stage, r.checkpoint = some stage →
    r.state.lifecycle.accepts stage = true ∧ stage.isFailure = false

theorem DepositRecord.Sound.intact {r : DepositRecord} (h : r.Sound) : r.Intact where
  accepted := r.state.accepted
  checkpoint_iff := by rw [h.checkpoint]
  checkpoint_spec := by
    intro stage hstage
    have hfailed : r.isFailed = true := by rw [← h.checkpoint, hstage, Option.isSome_some]
    have hon := h.onLine
    rw [effectiveStage, if_pos hfailed, recoveryStage, hstage, Option.getD_some] at hon
    exact ⟨Lifecycle.accepts_of_isOnLine hon, Lifecycle.isFailure_of_isOnLine hon⟩

theorem Artefact.BelongsTo.lifecycle_eq_encapsulated_iff {a : Artefact} {parent : Parent}
    (h : a.BelongsTo parent) :
    a.state.lifecycle = .encapsulated ↔ a.encapsulation.isSome = true :=
  ⟨h.isSome_of_lifecycle, fun hsome => (h.of_member hsome).1⟩

namespace Siblings

variable {parent : Parent} {artefacts : List Artefact}

/-- A view is opened exactly of the encapsulations of the list, each under its number. -/
theorem find?_eq_some_iff (h : Siblings parent artefacts) {id : ArtefactId} {place : Nat}
    {file : Artefact} :
    Encapsulation.find? artefacts id = some (place, file) ↔
      place = id.index ∧ artefacts[place]? = some file ∧ file.isEncapsulation = true := by
  constructor
  · intro hfind
    obtain ⟨hfile, rfl, rfl, hkind⟩ := h.arranged.mem_of_find? hfind
    exact ⟨rfl, h.arranged.getElem?_of_mem hfile, hkind⟩
  · rintro ⟨rfl, hget, hkind⟩
    have hid : file.id = id := h.numbered _ file hget
    have hfind := h.arranged.find?_of_mem (List.mem_of_getElem? hget) hkind
    rwa [hid] at hfind

/-- The files that a view takes along are all that name its encapsulation. -/
theorem members_eq_filter (h : Siblings parent artefacts) (id : ArtefactId) :
    Encapsulation.members artefacts id =
      Artefact.inChildOrder (artefacts.filter fun a => a.encapsulation == some id) := by
  have hsame : artefacts.filter (·.isMemberOf id) =
      artefacts.filter fun a => a.encapsulation == some id := by
    apply List.filter_congr
    intro a ha
    rw [Bool.eq_iff_iff, beq_iff_eq]
    exact h.arranged.isMemberOf_iff ha
  rw [Encapsulation.members, hsame]

theorem nodup (h : Siblings parent artefacts) : artefacts.Nodup :=
  List.Nodup.of_map _ h.arranged.nodup_ids

theorem nodup_members (h : Siblings parent artefacts) (id : ArtefactId) :
    (Encapsulation.members artefacts id).Nodup :=
  (stableSort_perm _ _).nodup_iff.mpr (h.nodup.filter _)

end Siblings

namespace Observation

variable {o : Observation} {operation : Operation} {now : Timestamp} {e : RecoveryError}

theorem orRefused_eq_of_error {result : Except DepositError (Observation × List Transition)}
    (h : (o.orRefused result).2 = .error e) : (o.orRefused result).1 = o := by
  cases result with
  | error cause => rfl
  | ok change => cases h

/-- An operation that is refused changes nothing. -/
theorem perform_eq_of_error (h : o.Sound) (herror : (o.perform operation now).2 = .error e) :
    (o.perform operation now).1 = o := by
  cases operation with
  | add | addEncapsulated | setArtefactStage | advance | recoverOwn =>
      exact orRefused_eq_of_error herror
  | setEncapsulationStage | advanceEncapsulation | progressEncapsulation
    | recoverEncapsulation => exact orRefused_eq_of_error herror
  | progress signals => cases herror
  | runJobs =>
      simp only [perform, runJobs_eq h.wellFormed.files now] at herror
      cases herror
  | recoverArtefact filename => exact (recovers_recoverArtefact h filename now).eq_of_error herror
  | recoverAll => exact (recovers_recoverAll h now).eq_of_error herror

/-- What holds of an observation and its files in every state of every run. -/
structure Intact (o : Observation) : Prop where
  /-- The number of a file is its place. -/
  numbered : ∀ (i : Nat) (a : Artefact), o.artefacts[i]? = some a → a.id = ⟨i⟩
  distinct : (o.artefacts.map Artefact.filename).Nodup
  /-- The observation owns its own state. -/
  own : o.state.lifecycle = .observation ∧ o.state.owner = .observation o.sbid
  /-- A file belongs to the observation, and owns its state by its name. -/
  owned : ∀ a ∈ o.artefacts,
    a.parent = some o.parent ∧ a.state.owner = .artefact (some o.parent) a.filename
  encapsulated_iff : ∀ a ∈ o.artefacts,
    a.state.lifecycle = .encapsulated ↔ a.encapsulation.isSome = true
  /-- A packed file is of a kind that can be packed, and was added after its encapsulation. -/
  packed : ∀ a ∈ o.artefacts, ∀ id, a.encapsulation = some id →
    a.kind.isEncapsulatable = true ∧ id.index < a.id.index ∧
      ∃ file, o.artefacts[id.index]? = some file ∧ file.id = id ∧ file.kind = .encapsulationFile
  /-- A view is opened of every encapsulation, at its place. -/
  views : ∀ id place file, Encapsulation.find? o.artefacts id = some (place, file) ↔
    place = id.index ∧ o.artefacts[place]? = some file ∧ file.kind = .encapsulationFile
  /-- The view has all the files that are packed into the encapsulation, each once. -/
  members : ∀ id, Encapsulation.members o.artefacts id = o.encapsulationMembers id ∧
    (o.encapsulationMembers id).Nodup ∧
      ∀ a, a ∈ o.encapsulationMembers id ↔ a ∈ o.artefacts ∧ a.encapsulation = some id
  record : o.record.Intact
  records : ∀ a ∈ o.artefacts, a.record.Intact

theorem Sound.intact (h : o.Sound) : o.Intact := by
  have hs := h.wellFormed.files
  have hkind : ∀ file : Artefact, file.isEncapsulation = true ↔ file.kind = .encapsulationFile := by
    intro file
    simp [Artefact.isEncapsulation, Kind.isEncapsulation]
  refine
    { numbered := hs.numbered
      distinct := hs.distinct
      own := ⟨h.wellFormed.lifecycle, h.wellFormed.owner⟩
      owned := fun a ha => ?_
      encapsulated_iff := fun a ha => (hs.belongs a ha).lifecycle_eq_encapsulated_iff
      packed := fun a ha id hid => ?_
      views := fun id place file => by rw [hs.find?_eq_some_iff, hkind]
      members := fun id => ?_
      record := h.record.intact
      records := fun a ha => (h.files a ha).intact }
  · have hbelongs := hs.belongs a ha
    refine ⟨hbelongs.parent, ?_⟩
    rw [hbelongs.owner, Artefact.owner, hbelongs.parent]
  · obtain ⟨hbefore, file, hfile, rfl, henc⟩ := hs.packed a ha id hid
    have hpacks := ((hs.belongs a ha).of_member (by rw [hid, Option.isSome_some])).2
    exact ⟨hpacks, hbefore, file, hs.arranged.getElem?_of_mem hfile, rfl, (hkind file).mp henc⟩
  · have hview : Encapsulation.members o.artefacts id = o.encapsulationMembers id :=
      hs.members_eq_filter id
    refine ⟨hview, ?_, fun a => ?_⟩
    · rw [← hview]
      exact hs.nodup_members id
    · rw [← hview]
      exact hs.arranged.mem_members_iff

/-- In every state of every run the observation is intact, and an operation that is refused there
leaves it as it is. -/
theorem intact_of_reachable {allowed : Observation → Operation → Prop}
    (h : Reachable allowed o) :
    o.Intact ∧ ∀ (operation : Operation) (now : Timestamp) (e : RecoveryError),
      (o.perform operation now).2 = .error e → (o.perform operation now).1 = o :=
  ⟨h.sound.intact, fun _ _ _ herror => perform_eq_of_error h.sound herror⟩

/-- A run with a packed file and a failed one, in which a name is then asked for twice. -/
theorem intact_packed_and_failed :
    ∃ (o : Observation) (now : Timestamp) (e : RecoveryError),
      Reachable (fun _ _ => True) o ∧ o.Intact ∧
        (∃ a ∈ o.artefacts, a.encapsulation = some ⟨0⟩) ∧
        (∃ a ∈ o.artefacts, a.isFailed = true ∧ a.record.checkpoint = some .processing) ∧
        (o.perform (.add .catalogue "m") now).2 = .error e ∧
        (o.perform (.add .catalogue "m") now).1 = o := by
  let now := Timestamp.ofUnixSeconds 0
  let o := performEach now (fresh ⟨1⟩)
    [.add .encapsulationFile "e", .addEncapsulated .cubelet "m" ⟨0⟩, .add .imageCube "i",
      .progress Signals.autoComplete, .progress Signals.autoComplete,
      .progress Signals.autoComplete, .setArtefactStage ⟨2⟩ .failed]
  have hrun : Reachable (fun _ _ => True) o :=
    (Reachable.new (new_standard ⟨1⟩)).performEach
      ⟨trivial, trivial, trivial, trivial, trivial, trivial, trivial, trivial⟩
  have hpacked : ∃ a ∈ o.artefacts, a.encapsulation = some ⟨0⟩ := by decide +kernel
  have hfailed : ∃ a ∈ o.artefacts,
      a.isFailed = true ∧ a.record.checkpoint = some .processing := by
    decide +kernel
  have herror : (o.perform (.add .catalogue "m") now).2 =
      .error (.refused (.duplicateFilename (.observation ⟨1⟩) "m")) := by
    decide +kernel
  obtain ⟨hintact, hrefused⟩ := intact_of_reachable hrun
  exact ⟨o, now, _, hrun, hintact, hpacked, hfailed, herror, hrefused _ now _ herror⟩

end Observation

end Integrity

end ArchiveDeposit

import ArchiveDeposit.Proofs.OnCourse

/-!
# The pace of the files

The files of an observation that deposits wait for each other: members for their encapsulation to be
processed, the encapsulation for all its members to wait, and again for all of them to be packed.
None of this holds up a tick once the members wait to be packed, which they do after the first tick:
an encapsulation then finds its members as far as it needs them, in every tick.  So from then on
every file that is not packed comes one step closer to its deposit in every tick, and takes the
packed ones with it.

**Results.**
* `Observation.OnCourse.filesWithin_first`: how far the files are after the first tick.
* `Observation.OnCourse.filesWithin_succ`: from then on every tick brings them one step closer.
* `Observation.OnCourse.isDeposited_of_filesWithin`: files that are that close are all deposited.
-/

namespace ArchiveDeposit

section Pace

open Encapsulation

namespace Lifecycle

/-- A file that is on its own waits for nobody. -/
theorem single_gates : ∀ step ∈ Lifecycle.standard.steps ++ Lifecycle.archived.steps,
    step.gate = .immediate := by
  decide

/-- An encapsulation waits for its members at the end of its processing, and before its deposit. -/
theorem encapsulation_gate_cases : ∀ step ∈ Lifecycle.encapsulation.steps,
    step.gate = .immediate ∨ step.gate = .childrenReached .encapsulating ∨
      (step.source = .archived ∧ step.gate = .childrenReached .encapsulated) := by
  decide

/-- The stages of a packed file, by the steps that lie ahead. -/
theorem encapsulated_of_ahead (s : Stage) :
    (Lifecycle.encapsulated.ahead s = 2 → s = .encapsulating) ∧
      (Lifecycle.encapsulated.ahead s = 3 → s = .processing) := by
  cases s <;> decide

end Lifecycle

namespace Observation

variable {o : Observation} {parent : Parent} {artefacts : List Artefact} {now : Timestamp}

/-- The files of a list as far as they have to be, packed or not. -/
structure FilesWithin (artefacts : List Artefact) (n : Nat) : Prop where
  /-- Packed files wait to be packed or are further. -/
  packed : ∀ a ∈ artefacts, a.encapsulation.isSome = true → a.ahead ≤ 2
  others : ∀ a ∈ artefacts, a.encapsulation = none → a.ahead ≤ n

/-- The steps of files that are no encapsulations, while all files may step. -/
def childStepAll (artefacts : List Artefact) (now : Timestamp) (a : Artefact) : Artefact :=
  childStep artefacts (fun _ => true) Signals.autoComplete now a

theorem continues_childStepAll (artefacts : List Artefact) (now : Timestamp) (a : Artefact) :
    a.Continues (childStepAll artefacts now a) :=
  continues_childStep artefacts _ Signals.autoComplete now a

theorem childStepAll_of_child {a : Artefact} (hkind : a.isEncapsulation = false) :
    childStepAll artefacts now a =
      (a.progress (childSurroundings artefacts Signals.autoComplete a) now).1 := by
  simp [childStepAll, childStep, hkind]

/-- A file that is no encapsulation and finds its gate open comes one step closer. -/
theorem ahead_fileStep_child {a : Artefact} (hnot : a.isFailed = false)
    (hkind : a.isEncapsulation = false)
    (hopens : ∀ step, a.state.lifecycle.stepFrom? a.stage = some step →
      (childSurroundings artefacts Signals.autoComplete a).opens step.gate = true) :
    (fileStep .depositing artefacts Signals.autoComplete now a).ahead ≤ a.ahead - 1 := by
  have hsettled := advances_settled (artefacts.map (childStepAll artefacts now))
    Signals.autoComplete now (childStepAll artefacts now a)
  have hchild : (childStepAll artefacts now a).ahead = a.ahead - 1 := by
    rw [childStepAll_of_child hkind]
    apply Artefact.ahead_progress_of_permits hnot
    intro step hstep
    rw [Surroundings.permits_autoComplete rfl]
    exact hopens step hstep
  rw [← hchild]
  exact hsettled.ahead_le

/-- What an encapsulation sees of its members when it steps. -/
def memberSurroundings (artefacts : List Artefact) (now : Timestamp) (file : Artefact) :
    Surroundings :=
  { signals := Signals.autoComplete
    children := (members (artefacts.map (childStepAll artefacts now)) file.id).map Artefact.state }

/-- An encapsulation that finds its gate open comes one step closer. -/
theorem ahead_fileStep_encapsulation {a : Artefact} (ha : a ∈ artefacts)
    (hnot : a.isFailed = false) (hkind : a.isEncapsulation = true)
    (hopens : ∀ step, a.state.lifecycle.stepFrom? a.stage = some step →
      (memberSurroundings artefacts now a).opens step.gate = true) :
    (fileStep .depositing artefacts Signals.autoComplete now a).ahead ≤ a.ahead - 1 := by
  have hchild : childStepAll artefacts now a = a := by simp [childStepAll, childStep, hkind]
  have hmem : a ∈ artefacts.map (childStepAll artefacts now) :=
    List.mem_map.mpr ⟨a, ha, hchild⟩
  have hfile : fileStep .depositing artefacts Signals.autoComplete now a =
      (a.progress (memberSurroundings artefacts now a) now).1 := by
    change settled (artefacts.map (childStepAll artefacts now)) Signals.autoComplete now
      (childStepAll artefacts now a) = _
    rw [hchild, Arranged.settled_of_isEncapsulation hmem hkind]
    rfl
  rw [hfile]
  apply Nat.le_of_eq
  apply Artefact.ahead_progress_of_permits hnot
  intro step hstep
  rw [Surroundings.permits_autoComplete rfl]
  exact hopens step hstep

/-- While the observation deposits, the first step of a file is not held up. -/
theorem ahead_fileStep_initial {a : Artefact} (ha : a ∈ artefacts) (hnot : a.isFailed = false)
    (now : Timestamp) :
    (fileStep .depositing artefacts Signals.autoComplete now a).ahead ≤
      a.state.lifecycle.steps.length - 1 := by
  have hle : (fileStep .depositing artefacts Signals.autoComplete now a).ahead ≤ a.ahead :=
    (advances_fileStep .depositing artefacts Signals.autoComplete now a).ahead_le
  have hlength : a.ahead ≤ a.state.lifecycle.steps.length := Lifecycle.ahead_le _ _
  by_cases hall : a.ahead = a.state.lifecycle.steps.length
  · have hinitial : a.stage = a.state.lifecycle.initial := Lifecycle.eq_initial_of_ahead hall
    have hopens : ∀ (around : Surroundings) (step : Step),
        a.state.lifecycle.stepFrom? a.stage = some step → around.opens step.gate = true := by
      intro around step hstep
      obtain ⟨first, hfirst, hgate, _⟩ := a.state.lifecycle.stepFrom?_initial
      rw [hinitial, hfirst] at hstep
      rw [← Option.some.inj hstep, hgate]
      rfl
    rw [← hall]
    cases hkind : a.isEncapsulation with
    | false => exact ahead_fileStep_child hnot hkind (hopens _)
    | true => exact ahead_fileStep_encapsulation ha hnot hkind (hopens _)
  · omega

theorem hasReached_of_ahead {b : Artefact} (hl : b.state.lifecycle = .encapsulated)
    (hnot : b.isFailed = false) {stage : Stage}
    (hstage : Lifecycle.encapsulated.isOnLine stage = true)
    (hle : b.ahead ≤ Lifecycle.encapsulated.ahead stage) : b.state.hasReached stage = true := by
  rw [DepositState.hasReached_iff_ahead hnot (by rw [hl]; exact hstage), hl]
  rw [Artefact.ahead, DepositRecord.ahead, show b.record.state.lifecycle = _ from hl] at hle
  exact hle

/-- A member that waits to be packed is packed when its encapsulation is past its processing. -/
theorem ahead_childStepAll_of_holds (hs : Siblings parent artefacts) {file member : Artefact}
    (hholds : Holds artefacts file member) (hnot : member.isFailed = false)
    (hmember : member.ahead ≤ 2) (hfile : file.state.hasReached .processed = true) :
    (childStepAll artefacts now member).ahead ≤ 1 := by
  have hl : member.state.lifecycle = .encapsulated := hholds.member_lifecycle hs
  have hkind := hholds.member_isEncapsulation hs
  have hle : (childStepAll artefacts now member).ahead ≤ member.ahead :=
    (advances_childStep artefacts _ Signals.autoComplete now member).ahead_le
  by_cases hwaits : member.ahead = 2
  · have hstage : member.stage = .encapsulating := by
      apply (Lifecycle.encapsulated_of_ahead _).1
      rw [← hl]
      exact hwaits
    have hseen : (childSurroundings artefacts Signals.autoComplete member).encapsulation =
        some file.state := by
      simp only [childSurroundings, hholds.encapsulation, Option.bind_some]
      exact encapsulationState?_of_mem hs.arranged hholds.mem_file (hholds.isEncapsulation hs)
    have hahead : (childStepAll artefacts now member).ahead = member.ahead - 1 := by
      rw [childStepAll_of_child hkind]
      apply Artefact.ahead_progress_of_permits hnot
      intro step hstep
      rw [hl, hstage] at hstep
      rw [← Option.some.inj hstep, Surroundings.permits_autoComplete rfl]
      simp only [Surroundings.opens, hseen, Option.any_some]
      exact hfile
    omega
  · omega

theorem hasReached_childStepAll (hs : Siblings parent artefacts) {file member : Artefact}
    (hholds : Holds artefacts file member) (hnot : member.isFailed = false) {stage : Stage}
    (hstage : Lifecycle.encapsulated.isOnLine stage = true)
    (hle : (childStepAll artefacts now member).ahead ≤ Lifecycle.encapsulated.ahead stage) :
    (childStepAll artefacts now member).state.hasReached stage = true := by
  have hadvances := advances_childStep artefacts (fun _ => true) Signals.autoComplete now member
  exact hasReached_of_ahead (hadvances.lifecycle.trans (hholds.member_lifecycle hs))
    (hadvances.isFailed.trans hnot) hstage hle

/-- An encapsulation finds a gate open that all its members open. -/
theorem memberSurroundings_opens (hs : Siblings parent artefacts) {file : Artefact}
    (hfile : file ∈ artefacts) {stage : Stage}
    (hreached : ∀ member, Holds artefacts file member →
      (childStepAll artefacts now member).state.hasReached stage = true) :
    (memberSurroundings artefacts now file).opens (.childrenReached stage) = true := by
  have hsAfter := hs.map fun a _ => continues_childStepAll artefacts now a
  simp only [Surroundings.opens, memberSurroundings, List.all_map, List.all_eq_true]
  intro b hb
  obtain ⟨hmem, henc⟩ := hsAfter.arranged.mem_members_iff.mp hb
  obtain ⟨member, hmember, rfl⟩ := List.mem_map.mp hmem
  rw [(continues_childStepAll artefacts now member).encapsulation] at henc
  exact hreached member ⟨hfile, hmember, henc⟩

/-- An encapsulation whose members wait to be packed finds its gate open, whichever it is. -/
theorem opens_of_members (hs : Siblings parent artefacts)
    (hnot : ∀ a ∈ artefacts, a.isFailed = false) {file : Artefact} (hfile : file ∈ artefacts)
    (hkind : file.isEncapsulation = true)
    (hmembers : ∀ a ∈ artefacts, a.encapsulation.isSome = true → a.ahead ≤ 2) {step : Step}
    (hstep : file.state.lifecycle.stepFrom? file.stage = some step) :
    (memberSurroundings artefacts now file).opens step.gate = true := by
  have hl : file.state.lifecycle = .encapsulation :=
    ((hs.belongs file hfile).of_isEncapsulation hkind).2
  have hwaits : ∀ member, Holds artefacts file member → member.ahead ≤ 2 := fun member hholds =>
    hmembers member hholds.mem_member (by simp [hholds.encapsulation])
  have hmem : step ∈ Lifecycle.encapsulation.steps := by
    rw [← hl]
    exact List.mem_of_find?_eq_some hstep
  rcases Lifecycle.encapsulation_gate_cases step hmem with hgate | hgate | ⟨hsource, hgate⟩
  · rw [hgate]
    rfl
  · rw [hgate]
    apply memberSurroundings_opens hs hfile
    intro member hholds
    have hle : (childStepAll artefacts now member).ahead ≤ member.ahead :=
      (advances_childStep artefacts _ Signals.autoComplete now member).ahead_le
    exact hasReached_childStepAll hs hholds (hnot member hholds.mem_member) (by decide)
      (Nat.le_trans hle (hwaits member hholds))
  · rw [hgate]
    apply memberSurroundings_opens hs hfile
    intro member hholds
    have hprocessed : file.state.hasReached .processed = true := by
      rw [Lifecycle.source_of_stepFrom? hstep] at hsource
      rw [DepositState.hasReached_eq, hl, show file.state.stage = _ from hsource]
      decide
    have hnotMember := hnot member hholds.mem_member
    exact hasReached_childStepAll hs hholds hnotMember (by decide)
      (ahead_childStepAll_of_holds hs hholds hnotMember (hwaits member hholds) hprocessed)

theorem FilesWithin.map {n : Nat} (h : FilesWithin artefacts n) {f : Artefact → Artefact}
    (hcont : ∀ a ∈ artefacts, a.Continues (f a))
    (hle : ∀ a ∈ artefacts, (f a).ahead ≤ a.ahead) : FilesWithin (artefacts.map f) n := by
  constructor
  · intro b hb hsome
    obtain ⟨a, ha, rfl⟩ := List.mem_map.mp hb
    rw [(hcont a ha).encapsulation] at hsome
    exact Nat.le_trans (hle a ha) (h.packed a ha hsome)
  · intro b hb hnone
    obtain ⟨a, ha, rfl⟩ := List.mem_map.mp hb
    rw [(hcont a ha).encapsulation] at hnone
    exact Nat.le_trans (hle a ha) (h.others a ha hnone)

/-- A simulated job brings a packed file that is processed to where it waits to be packed. -/
theorem ahead_afterJobs {b : Artefact} (hl : b.state.lifecycle = .encapsulated)
    (hle : b.ahead ≤ 3) : (b.afterJobs now).ahead ≤ 2 := by
  unfold Artefact.afterJobs
  split
  · next hpack =>
      have hahead := Artefact.ahead_packed hpack now
      omega
  · next hpack =>
      by_cases hprocessing : b.ahead = 3
      · have hstage : b.stage = .processing := by
          apply (Lifecycle.encapsulated_of_ahead _).2
          rw [← hl]
          exact hprocessing
        exact absurd (by simp [Artefact.isPackable, hl, hstage]) hpack
      · omega

/-- After the first tick members wait to be packed, and no other file is at its first stage. -/
theorem OnCourse.filesWithin_first (h : o.OnCourse) (hstage : o.stage = .depositing) :
    FilesWithin (o.afterTick Signals.autoComplete now).artefacts 8 := by
  have hs := h.wellFormed.files
  rw [h.artefacts_afterTick]
  constructor
  · intro b hb hsome
    obtain ⟨a, ha, rfl⟩ := List.mem_map.mp hb
    rw [(continues_tickFile o Signals.autoComplete now a).encapsulation] at hsome
    have hl : a.state.lifecycle = .encapsulated := ((hs.belongs a ha).of_member hsome).1
    have hfirst := ahead_fileStep_initial ha (h.files a ha) now
    have hadvances := advances_fileStep o.stage o.artefacts Signals.autoComplete now a
    rw [hl] at hfirst
    unfold tickFile
    apply ahead_afterJobs (hadvances.lifecycle.trans hl)
    rw [hstage]
    exact hfirst
  · intro b hb _
    obtain ⟨a, ha, rfl⟩ := List.mem_map.mp hb
    have hfirst := ahead_fileStep_initial ha (h.files a ha) now
    have hjobs : (o.tickFile Signals.autoComplete now a).ahead ≤
        (fileStep o.stage o.artefacts Signals.autoComplete now a).ahead :=
      (Artefact.advances_afterJobs _ now).ahead_le
    have hlength : ∀ l : Lifecycle, l.steps.length ≤ 9 := by
      intro l
      cases l <;> decide
    have hnine := hlength a.state.lifecycle
    rw [hstage] at hjobs
    omega

/-- Where members wait to be packed, every other file comes one step closer. -/
theorem OnCourse.filesWithin_succ (h : o.OnCourse) (now : Timestamp)
    (hstage : o.stage = .depositing) {n : Nat} (hwithin : FilesWithin o.artefacts (n + 1)) :
    FilesWithin (o.progress Signals.autoComplete now).1.artefacts n := by
  have hs := h.wellFormed.files
  rw [progress_artefacts hs]
  constructor
  · intro b hb hsome
    obtain ⟨a, ha, rfl⟩ := List.mem_map.mp hb
    rw [(continues_fileStep o.stage o.artefacts Signals.autoComplete now a).encapsulation] at hsome
    have hadvances := advances_fileStep o.stage o.artefacts Signals.autoComplete now a
    exact Nat.le_trans hadvances.ahead_le (hwithin.packed a ha hsome)
  · intro b hb hnone
    obtain ⟨a, ha, rfl⟩ := List.mem_map.mp hb
    rw [(continues_fileStep o.stage o.artefacts Signals.autoComplete now a).encapsulation] at hnone
    have hbefore := hwithin.others a ha hnone
    have hcloser : (fileStep .depositing o.artefacts Signals.autoComplete now a).ahead ≤
        a.ahead - 1 := by
      cases hkind : a.isEncapsulation with
      | false =>
          apply ahead_fileStep_child (h.files a ha) hkind
          intro step hstep
          have hsingle := (hs.belongs a ha).lifecycle_of_single hnone hkind
          have hgate : step.gate = .immediate := by
            apply Lifecycle.single_gates
            rcases hsingle with hl | hl
            · rw [hl] at hstep
              exact List.mem_append_left _ (List.mem_of_find?_eq_some hstep)
            · rw [hl] at hstep
              exact List.mem_append_right _ (List.mem_of_find?_eq_some hstep)
          rw [hgate]
          rfl
      | true =>
          exact ahead_fileStep_encapsulation ha (h.files a ha) hkind fun step hstep =>
            opens_of_members hs h.files ha hkind hwithin.packed hstep
    rw [hstage]
    omega

/-- Files that are all at their ends are deposited, and the packed ones with them. -/
theorem OnCourse.isDeposited_of_filesWithin (h : o.OnCourse)
    (hwithin : FilesWithin o.artefacts 0) : ∀ a ∈ o.artefacts, a.isDeposited = true := by
  have hother : ∀ a ∈ o.artefacts, a.encapsulation = none → a.isDeposited = true := by
    intro a ha hnone
    have hzero := hwithin.others a ha hnone
    rw [Artefact.isDeposited_iff_ahead (h.files a ha)]
    omega
  intro a ha
  cases hpacked : a.encapsulation with
  | none => exact hother a ha hpacked
  | some id =>
      obtain ⟨_, file, hfile, rfl, hkind⟩ := h.wellFormed.files.packed a ha id hpacked
      have hnone := ((h.wellFormed.files.belongs file hfile).of_isEncapsulation hkind).1
      exact h.members file a ⟨hfile, ha, hpacked⟩ (hother file hfile hnone)

end Observation

end Pace

end ArchiveDeposit

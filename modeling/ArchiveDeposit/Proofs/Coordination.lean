import ArchiveDeposit.Proofs.Operation

/-!
# Encapsulations and their members in step

An encapsulation and the files packed into it wait for each other.  The encapsulation leaves
processing when all its members wait to be packed; a member is packed when the encapsulation is
processed; and the members are deposited with the encapsulation.  This module shows that, seen
through failures, the two never lose step: whatever fails and is recovered, and in whatever order
calls of progress and reports of jobs come in.

Reports can break the order, and so can files that come late.  What is excluded are reports that
themselves take a member past waiting, reports that take an encapsulation anywhere but to its
deposit, and members that are added to an encapsulation after its processing.

**Results.**
* `Artefact.Coordinated.continues`: only stages that are newly reached have to be looked at.
* `Observation.Coordinated.perform`: an operation that is allowed keeps the two in step.
* `Observation.coordinated_of_reachable`: they are in step in every state of every run.
-/

namespace ArchiveDeposit

section Coordination

/-- An encapsulation and a packed file as they stand to each other, at their effective stages. -/
structure Artefact.Coordinated (file member : Artefact) : Prop where
  /-- The encapsulation is processed only when the member waits to be packed or is further. -/
  waiting : file.record.hasReached .processed = true →
    member.record.hasReached .encapsulating = true
  /-- The member is packed only when the encapsulation is processed or further. -/
  packed : member.record.hasReached .encapsulated = true →
    file.record.hasReached .processed = true
  /-- The two are deposited together. -/
  deposited : member.record.effectiveStage = .deposited ↔ file.record.effectiveStage = .deposited

/-- An encapsulation of a list and a file of the list that is packed into it. -/
structure Encapsulation.Holds (artefacts : List Artefact) (file member : Artefact) : Prop where
  mem_file : file ∈ artefacts
  mem_member : member ∈ artefacts
  encapsulation : member.encapsulation = some file.id

/-- A report on a file that is left to jobs: a failure of any file; the deposit of an encapsulation;
for a packed file no stage at or after that in which it is packed; for any other file any stage. -/
def Artefact.AwaitsReport (a : Artefact) (stage : Stage) : Prop :=
  stage.isFailure = true ∨
    (a.isEncapsulation = true → stage = .deposited) ∧
      (a.isEncapsulated = true → a.state.lifecycle.reaches stage .encapsulated = false)

namespace Observation

/-- Every encapsulation is in step with each of its members. -/
def Coordinated (o : Observation) : Prop :=
  ∀ file member, Encapsulation.Holds o.artefacts file member → file.Coordinated member

/-- What may be asked of an observation so that its encapsulations stay in step with their members:
reports on files are those left to jobs, and members are added to an encapsulation that is not yet
past its processing. -/
def AllowsInStep (o : Observation) : Operation → Prop
  | .addEncapsulated _ _ id =>
      ∀ file ∈ o.artefacts, file.id = id → file.record.hasReached .processed = false
  | .setArtefactStage id stage | .setEncapsulationStage id stage =>
      ∀ a ∈ o.artefacts, a.id = id → a.AwaitsReport stage
  | .advanceEncapsulation _ stage => stage.isFailure = true
  | _ => True

end Observation

namespace Encapsulation.Holds

variable {parent : Parent} {artefacts : List Artefact} {file member : Artefact}

theorem isEncapsulation (h : Holds artefacts file member) (hs : Siblings parent artefacts) :
    file.isEncapsulation = true := by
  obtain ⟨_, other, hother, hid, hkind⟩ := hs.packed member h.mem_member _ h.encapsulation
  rw [← hs.arranged.eq_of_id hother h.mem_file hid]
  exact hkind

theorem member_isEncapsulation (h : Holds artefacts file member)
    (hs : Siblings parent artefacts) : member.isEncapsulation = false :=
  hs.arranged.isEncapsulation_of_member h.mem_member h.encapsulation

theorem lifecycle (h : Holds artefacts file member) (hs : Siblings parent artefacts) :
    file.state.lifecycle = .encapsulation :=
  ((hs.belongs file h.mem_file).of_isEncapsulation (h.isEncapsulation hs)).2

theorem member_lifecycle (h : Holds artefacts file member) (hs : Siblings parent artefacts) :
    member.state.lifecycle = .encapsulated :=
  ((hs.belongs member h.mem_member).of_member (by simp [h.encapsulation])).1

theorem id_ne (h : Holds artefacts file member) (hs : Siblings parent artefacts) :
    member.id ≠ file.id := by
  intro hid
  have hkind := h.member_isEncapsulation hs
  rw [hs.arranged.eq_of_id h.mem_member h.mem_file hid, h.isEncapsulation hs] at hkind
  cases hkind

/-- Files that are changed one by one are packed where they were. -/
theorem map {f : Artefact → Artefact} (h : Holds artefacts file member)
    (hf : ∀ a ∈ artefacts, a.Continues (f a)) :
    Holds (artefacts.map f) (f file) (f member) where
  mem_file := List.mem_map_of_mem h.mem_file
  mem_member := List.mem_map_of_mem h.mem_member
  encapsulation := by
    rw [(hf member h.mem_member).encapsulation, (hf file h.mem_file).id]
    exact h.encapsulation

theorem of_map {f : Artefact → Artefact} (hf : ∀ a ∈ artefacts, a.Continues (f a))
    (h : Holds (artefacts.map f) file member) :
    ∃ a b, Holds artefacts a b ∧ f a = file ∧ f b = member := by
  obtain ⟨a, ha, rfl⟩ := List.mem_map.mp h.mem_file
  obtain ⟨b, hb, rfl⟩ := List.mem_map.mp h.mem_member
  have henc := h.encapsulation
  rw [(hf b hb).encapsulation, (hf a ha).id] at henc
  exact ⟨a, b, ⟨ha, hb, henc⟩, rfl, rfl⟩

end Encapsulation.Holds

namespace Artefact.Coordinated

variable {file file' member member' : Artefact}

/-- Two that are in step stay so when each stage that one of them newly reaches is answered by the
other. -/
theorem continues (h : file.Coordinated member) (hfile : file.Continues file')
    (hmember : member.Continues member') (hfileSound : file.record.Sound)
    (hmemberSound : member.record.Sound)
    (hwaiting : file'.record.hasReached .processed = true →
      file.record.hasReached .processed = true ∨ member'.record.hasReached .encapsulating = true)
    (hpacked : member'.record.hasReached .encapsulated = true →
      member.record.hasReached .encapsulated = true ∨ file'.record.hasReached .processed = true)
    (hdeposited : member'.record.effectiveStage = .deposited →
      member.record.effectiveStage = .deposited ∨ file'.record.effectiveStage = .deposited)
    (htaken : file'.record.effectiveStage = .deposited →
      file.record.effectiveStage = .deposited ∨ member'.record.effectiveStage = .deposited) :
    file'.Coordinated member' where
  waiting hreached := by
    rcases hwaiting hreached with hold | hnew
    · exact hmember.record.hasReached hmemberSound (h.waiting hold)
    · exact hnew
  packed hreached := by
    rcases hpacked hreached with hold | hnew
    · exact hfile.record.hasReached hfileSound (h.packed hold)
    · exact hnew
  deposited := by
    constructor
    · intro hnow
      rcases hdeposited hnow with hold | hnew
      · exact hfile.record.deposited hfileSound (h.deposited.mp hold)
      · exact hnew
    · intro hnow
      rcases htaken hnow with hold | hnew
      · exact hmember.record.deposited hmemberSound (h.deposited.mpr hold)
      · exact hnew

/-- Failures and recoveries of either leave the two in step. -/
theorem stays (h : file.Coordinated member) (hfile : file.record.Stays file'.record)
    (hmember : member.record.Stays member'.record) (hfileSound : file.record.Sound)
    (hmemberSound : member.record.Sound) : file'.Coordinated member' := by
  have hfileReached : ∀ stage, file'.record.hasReached stage = file.record.hasReached stage :=
    fun stage => hfile.hasReached hfileSound stage
  have hmemberReached : ∀ stage,
      member'.record.hasReached stage = member.record.hasReached stage :=
    fun stage => hmember.hasReached hmemberSound stage
  constructor
  · rw [hfileReached, hmemberReached]
    exact h.waiting
  · rw [hfileReached, hmemberReached]
    exact h.packed
  · rw [hmember.effectiveStage hmemberSound, hfile.effectiveStage hfileSound]
    exact h.deposited

end Artefact.Coordinated

/-- An encapsulation gets past its processing only over members that wait to be packed, and to its
deposit only over packed ones. -/
theorem Lifecycle.encapsulation_gates : ∀ step ∈ Lifecycle.encapsulation.steps,
    (Lifecycle.encapsulation.reaches step.target .processed = true →
      Lifecycle.encapsulation.reaches step.source .processed = true ∨
        step.gate = .childrenReached .encapsulating) ∧
    (step.target = .deposited →
      step.source = .archived ∧ step.gate = .childrenReached .encapsulated) := by
  decide

/-- A packed file is packed only when its encapsulation is processed, and never deposited by a step
of its own. -/
theorem Lifecycle.encapsulated_gates : ∀ step ∈ Lifecycle.encapsulated.steps,
    (Lifecycle.encapsulated.reaches step.target .encapsulated = true →
      step.gate = .encapsulationReached .processed ∨ step.gate = .external) ∧
    (step.target = .deposited → step.gate = .external) := by
  decide

/-- The gate that an encapsulation finds open when its members have reached a stage. -/
theorem Encapsulation.opens_childrenReached_iff {parent : Parent} {artefacts : List Artefact}
    {file : Artefact} (hs : Siblings parent artefacts) (hfile : file ∈ artefacts)
    (signals : Signals) (stage : Stage) :
    Surroundings.opens
      { signals := signals, children := (members artefacts file.id).map Artefact.state }
      (.childrenReached stage) = true ↔
      ∀ member, Holds artefacts file member → member.state.hasReached stage = true := by
  simp only [Surroundings.opens, List.all_map, List.all_eq_true, hs.arranged.mem_members_iff]
  constructor
  · exact fun h member hholds => h member ⟨hholds.mem_member, hholds.encapsulation⟩
  · rintro h member ⟨hmember, henc⟩
    exact h member ⟨hfile, hmember, henc⟩

/-- What an encapsulation requires of its members before a step, each member has reached. -/
theorem Encapsulation.Holds.hasReached_of_permits {parent : Parent} {artefacts : List Artefact}
    {file member : Artefact} (h : Holds artefacts file member) (hs : Siblings parent artefacts)
    {signals : Signals} {step : Step} {owner : Owner} {stage : Stage}
    (hgate : step.gate = .childrenReached stage)
    (hpermit : Surroundings.permits
      { signals := signals, children := (members artefacts file.id).map Artefact.state }
      step owner = true) :
    member.state.hasReached stage = true := by
  rw [Surroundings.permits, hgate, Bool.and_eq_true] at hpermit
  exact (opens_childrenReached_iff hs h.mem_file signals stage).mp hpermit.1 member h

/-- An encapsulation that steps to its deposit takes its members along, which are all packed. -/
theorem Encapsulation.Holds.of_deposited {parent : Parent} {artefacts : List Artefact}
    {file member : Artefact} (h : Holds artefacts file member) (hs : Siblings parent artefacts)
    {signals : Signals} {now : Timestamp} (hbefore : file.stage ≠ .deposited)
    (hafter : (step artefacts signals now file).1.stage = .deposited) :
    deposits artefacts signals now file = true ∧ member.state.hasReached .encapsulated = true := by
  rcases file.progress_cases
    { signals := signals, children := (members artefacts file.id).map Artefact.state } now with
    hsame | ⟨taken, hstep, hpermit, _, hstage, _⟩
  · have hfile : (step artefacts signals now file).1 = file := hsame
    rw [hfile] at hafter
    exact absurd hafter hbefore
  · have hmem : taken ∈ Lifecycle.encapsulation.steps := by
      rw [← h.lifecycle hs]
      exact List.mem_of_find?_eq_some hstep
    obtain ⟨harchived, hgate⟩ :=
      (Lifecycle.encapsulation_gates taken hmem).2 (hstage.symm.trans hafter)
    rw [Lifecycle.source_of_stepFrom? hstep] at harchived
    exact ⟨by simp [deposits, harchived, hafter], h.hasReached_of_permits hs hgate hpermit⟩

namespace Artefact.Coordinated

open Encapsulation Observation

variable {parent : Parent} {artefacts : List Artefact} {file member : Artefact}
  {signals : Signals} {now : Timestamp}

/-- The steps of the files that are no encapsulations leave each in step with its encapsulation. -/
theorem childStep (h : file.Coordinated member) (hs : Siblings parent artefacts)
    (hholds : Holds artefacts file member) (hfileSound : file.record.Sound)
    (hmemberSound : member.record.Sound) (inScope : Artefact → Bool) (signals : Signals)
    (now : Timestamp) :
    (childStep artefacts inScope signals now file).Coordinated
      (childStep artefacts inScope signals now member) := by
  have hfile : Observation.childStep artefacts inScope signals now file = file := by
    simp [Observation.childStep, hholds.isEncapsulation hs]
  have hmemberCont := continues_childStep artefacts inScope signals now member
  have hl : member.record.state.lifecycle = .encapsulated := hholds.member_lifecycle hs
  have hseen : (childSurroundings artefacts signals member).encapsulation = some file.state := by
    simp only [childSurroundings, hholds.encapsulation, Option.bind_some]
    exact encapsulationState?_of_mem hs.arranged hholds.mem_file (hholds.isEncapsulation hs)
  rw [hfile]
  unfold Observation.childStep at hmemberCont ⊢
  by_cases hmoves : (inScope member && !member.isEncapsulation) = true
  · rw [if_pos hmoves] at hmemberCont ⊢
    rcases member.progress_cases (childSurroundings artefacts signals member) now with
      hsame | ⟨step, hstep, hpermit, _, _, htarget⟩
    · rw [hsame]
      exact h
    · have hmem : step ∈ Lifecycle.encapsulated.steps := by
        rw [← hl]
        exact List.mem_of_find?_eq_some hstep
      obtain ⟨hpacked, hend⟩ := Lifecycle.encapsulated_gates step hmem
      simp only [Surroundings.permits, Bool.and_eq_true] at hpermit
      have hinternal : step.gate ≠ .external := by
        intro hgate
        rw [hgate] at hpermit
        cases hpermit.1
      refine h.continues (Continues.refl file) hmemberCont hfileSound hmemberSound Or.inl ?_ ?_
        Or.inl
      · intro hnow
        rw [DepositRecord.hasReached, hmemberCont.record.lifecycle, hl, htarget] at hnow
        rcases hpacked hnow with hgate | hgate
        · right
          rw [hgate, Surroundings.opens, hseen] at hpermit
          exact DepositRecord.hasReached_of_state hpermit.1
        · exact absurd hgate hinternal
      · intro hnow
        exact absurd (hend (htarget.symm.trans hnow)) hinternal
  · rw [if_neg hmoves]
    exact h

/-- A packed file that its encapsulation takes along had been packed before. -/
theorem hasReached_of_depositPacked (hl : member.record.state.lifecycle = .encapsulated)
    (hafter : (member.depositPacked now).1.record.hasReached .encapsulated = true) :
    member.record.hasReached .encapsulated = true := by
  by_cases hpacked : member.stage = .encapsulated
  · apply DepositRecord.hasReached_of_state
    rw [DepositState.hasReached_eq, hl, show member.record.state.stage = _ from hpacked]
    decide
  · rw [depositPacked, if_neg hpacked] at hafter
    exact hafter

/-- The step of an encapsulation, with the deposit of its packed members, leaves it in step with
each of them. -/
theorem step (h : file.Coordinated member) (hs : Siblings parent artefacts)
    (hholds : Holds artefacts file member) (hfileSound : file.record.Sound)
    (hmemberSound : member.record.Sound) (signals : Signals) (now : Timestamp) :
    (Encapsulation.step artefacts signals now file).1.Coordinated
      (if deposits artefacts signals now file then (member.depositPacked now).1 else member) := by
  have hl : file.record.state.lifecycle = .encapsulation := hholds.lifecycle hs
  have hlMember : member.state.lifecycle = .encapsulated := hholds.member_lifecycle hs
  rcases file.progress_cases
    { signals := signals, children := (members artefacts file.id).map Artefact.state } now with
    hsame | ⟨step, hstep, hpermit, hsource, hstage, htarget⟩
  · have hfile : (Encapsulation.step artefacts signals now file).1 = file := hsame
    have hkeeps : deposits artefacts signals now file = false := by
      rw [deposits, hfile]
      cases file.stage <;> decide
    simpa [hfile, hkeeps] using h
  · have hmem : step ∈ Lifecycle.encapsulation.steps := by
      rw [← hholds.lifecycle hs]
      exact List.mem_of_find?_eq_some hstep
    have hprocessed := (Lifecycle.encapsulation_gates step hmem).1
    have hreached : ∀ stage, (Encapsulation.step artefacts signals now file).1.record.hasReached
        stage = Lifecycle.encapsulation.reaches step.target stage := by
      intro stage
      rw [DepositRecord.hasReached, (continues_step ..).record.lifecycle, hl]
      exact congrArg (Lifecycle.encapsulation.reaches · stage) htarget
    have hmemberCont : member.Continues
        (if deposits artefacts signals now file then (member.depositPacked now).1 else member) := by
      split
      · exact member.continues_depositPacked now
      · exact Continues.refl member
    refine h.continues (continues_step ..) hmemberCont hfileSound hmemberSound ?_ ?_ ?_ ?_
    · intro hnow
      rw [hreached] at hnow
      rcases hprocessed hnow with hbefore | hgate
      · left
        rw [DepositRecord.hasReached, hl, hsource]
        exact hbefore
      · right
        have hwaits := hholds.hasReached_of_permits hs hgate hpermit
        exact hmemberCont.record.hasReached hmemberSound (DepositRecord.hasReached_of_state hwaits)
    · intro hnow
      left
      split at hnow
      · exact hasReached_of_depositPacked hlMember hnow
      · exact hnow
    · intro hnow
      split at hnow
      · next hdeposits =>
          simp only [deposits, Bool.and_eq_true, beq_iff_eq] at hdeposits
          exact Or.inr (DepositRecord.effectiveStage_of_stage_deposited hdeposits.2)
      · exact Or.inl hnow
    · intro hnow
      right
      have hbefore : file.stage ≠ .deposited := by
        intro hdeposited
        rw [hholds.lifecycle hs, hdeposited] at hstep
        cases hstep
      obtain ⟨hdeposits, hpacked⟩ := hholds.of_deposited hs hbefore
        (hstage.trans (htarget.symm.trans hnow))
      simpa [hdeposits] using effectiveStage_of_isDeposited
        (isDeposited_depositPacked hlMember hpacked now)

/-- A simulated job on a member leaves it in step with its encapsulation. -/
theorem packed_of_isPackable (h : file.Coordinated member) (hs : Siblings parent artefacts)
    (hholds : Holds artefacts file member) (hfileSound : file.record.Sound)
    (hmemberSound : member.record.Sound) (hpack : member.isPackable = true) :
    file.Coordinated (member.packed now) := by
  have hl : member.record.state.lifecycle = .encapsulated := hholds.member_lifecycle hs
  have hcont := Artefact.continues_packed hpack now
  have hstage : (member.packed now).record.state.stage = .encapsulating := stage_packed hpack now
  have hnot : (member.packed now).record.isFailed = false := by
    rw [DepositRecord.isFailed, DepositState.isFailed, hstage]
    decide
  have heffective := DepositRecord.effectiveStage_of_not_failed hnot
  refine h.continues (Continues.refl file) hcont hfileSound hmemberSound Or.inl ?_ ?_ Or.inl
  · intro hnow
    rw [DepositRecord.hasReached, hcont.record.lifecycle, hl, heffective, hstage] at hnow
    cases hnow
  · intro hnow
    rw [heffective, hstage] at hnow
    cases hnow

theorem afterCommit_of_ne (h : file.Coordinated member) (hs : Siblings parent artefacts)
    (hholds : Holds artefacts file member) {id : ArtefactId}
    {change : Artefact × Option Transition} {deposits : Bool} (hfile : file.id ≠ id)
    (hmember : member.id ≠ id) :
    (afterCommit id change deposits now file).Coordinated
      (afterCommit id change deposits now member) := by
  have hnone := ((hs.belongs file hholds.mem_file).of_isEncapsulation
    (hholds.isEncapsulation hs)).1
  have henc : member.encapsulation ≠ some id := by
    rw [hholds.encapsulation]
    exact fun heq => hfile (Option.some.inj heq)
  have hfileSame : afterCommit id change deposits now file = file := by
    simp [afterCommit, hfile, hnone]
  have hmemberSame : afterCommit id change deposits now member = member := by
    simp [afterCommit, hmember, henc]
  rw [hfileSame, hmemberSame]
  exact h

/-- A report on a member that leaves its packing to steps keeps it in step with its
encapsulation. -/
theorem afterCommit_member (h : file.Coordinated member) (hs : Siblings parent artefacts)
    (hholds : Holds artefacts file member) (hfileSound : file.record.Sound)
    (hmemberSound : member.record.Sound) {stage : Stage}
    {change : Artefact × Option Transition} (hadvance : member.advance stage now = .ok change)
    (hawaits : member.AwaitsReport stage) (deposits : Bool) :
    (afterCommit member.id change deposits now file).Coordinated
      (afterCommit member.id change deposits now member) := by
  have hnone := ((hs.belongs file hholds.mem_file).of_isEncapsulation
    (hholds.isEncapsulation hs)).1
  have hne := hholds.id_ne hs
  have hfileSame : afterCommit member.id change deposits now file = file := by
    simp [afterCommit, hne.symm, hnone]
  have hmemberNow : afterCommit member.id change deposits now member = change.1 := by
    simp [afterCommit]
  rw [hfileSame, hmemberNow]
  have hcont := continues_advance hadvance
  have hl : member.record.state.lifecycle = .encapsulated := hholds.member_lifecycle hs
  by_cases hfail : stage.isFailure = true
  · exact h.stays (DepositRecord.Stays.refl _) (stays_advance hfail hadvance) hfileSound
      hmemberSound
  · have heffective : change.1.record.effectiveStage = stage := by
      rw [effectiveStage_advance hadvance, if_neg hfail]
    have hnot : Lifecycle.encapsulated.reaches stage .encapsulated = false := by
      rw [← hl]
      exact (hawaits.resolve_left hfail).2 (by simp [isEncapsulated, hholds.encapsulation])
    refine h.continues (Continues.refl file) hcont hfileSound hmemberSound Or.inl ?_ ?_ Or.inl
    · intro hnow
      rw [DepositRecord.hasReached, hcont.record.lifecycle, hl, heffective, hnot] at hnow
      cases hnow
    · intro hnow
      rw [heffective.symm.trans hnow] at hnot
      cases hnot

/-- A report on an encapsulation that is a failure or its deposit keeps it in step with each of its
members. -/
theorem afterCommit_file (h : file.Coordinated member) (hs : Siblings parent artefacts)
    (hholds : Holds artefacts file member) (hfileSound : file.record.Sound)
    (hmemberSound : member.record.Sound) {stage : Stage}
    {change : Artefact × Option Transition} (hadvance : file.advance stage now = .ok change)
    (hstage : stage.isFailure = true ∨ stage = .deposited)
    (hready : stage = .deposited → member.state.hasReached .encapsulated = true) :
    (afterCommit file.id change (stage == .deposited) now file).Coordinated
      (afterCommit file.id change (stage == .deposited) now member) := by
  have hne := hholds.id_ne hs
  have hfileNow : afterCommit file.id change (stage == .deposited) now file = change.1 := by
    simp [afterCommit]
  rw [hfileNow]
  have hcont := continues_advance hadvance
  have hl : file.record.state.lifecycle = .encapsulation := hholds.lifecycle hs
  have hlMember : member.record.state.lifecycle = .encapsulated := hholds.member_lifecycle hs
  rcases hstage with hfail | rfl
  · have hnot : (stage == .deposited) = false := by
      revert hfail
      cases stage <;> decide
    have hmemberSame : afterCommit file.id change (stage == .deposited) now member = member := by
      simp [afterCommit, hne, hnot]
    rw [hmemberSame]
    exact h.stays (stays_advance hfail hadvance) (DepositRecord.Stays.refl _) hfileSound
      hmemberSound
  · cases hreported : change.2 with
    | none =>
        have hmemberSame : afterCommit file.id change (Stage.deposited == .deposited) now member =
            member := by
          simp [afterCommit, hne, hreported]
        rw [hmemberSame, advance_fst_of_snd_eq_none hadvance hreported]
        exact h
    | some transition =>
        have hmemberNow : afterCommit file.id change (Stage.deposited == .deposited) now member =
            (member.depositPacked now).1 := by
          simp [afterCommit, hne, hreported, hholds.encapsulation]
        rw [hmemberNow]
        have hdeposited : change.1.record.effectiveStage = .deposited :=
          effectiveStage_advance hadvance
        have hmemberDeposited := effectiveStage_of_isDeposited
          (isDeposited_depositPacked hlMember (hready rfl) now)
        have hmemberCont := member.continues_depositPacked now
        refine h.continues hcont hmemberCont hfileSound hmemberSound ?_ ?_
          (fun _ => Or.inr hdeposited) (fun _ => Or.inr hmemberDeposited)
        · intro _
          right
          rw [DepositRecord.hasReached, hmemberCont.record.lifecycle, hlMember, hmemberDeposited]
          decide
        · intro _
          right
          rw [DepositRecord.hasReached, hcont.record.lifecycle, hl, hdeposited]
          decide

end Artefact.Coordinated

namespace Observation

open Encapsulation

variable {o o' : Observation} {f : Artefact → Artefact} {now : Timestamp}

/-- To keep encapsulations in step while files change one by one, it is enough to look at each pair
that was there. -/
theorem Moves.coordinated (hm : o.Moves f o')
    (hpair : ∀ file member, Holds o.artefacts file member → (f file).Coordinated (f member)) :
    o'.Coordinated := by
  intro file member hholds
  rw [hm.artefacts] at hholds
  obtain ⟨a, b, hab, rfl, rfl⟩ := hholds.of_map hm.files
  exact hpair a b hab

theorem Coordinated.of_artefacts_eq (h : o.Coordinated) (heq : o'.artefacts = o.artefacts) :
    o'.Coordinated := by
  intro file member hholds
  rw [heq] at hholds
  exact h file member hholds

theorem Coordinated.of_stays (h : o.Coordinated) (hsound : o.Sound) (hm : o.Moves f o')
    (hstays : ∀ a ∈ o.artefacts, a.record.Stays (f a).record) : o'.Coordinated :=
  hm.coordinated fun file member hholds =>
    (h file member hholds).stays (hstays file hholds.mem_file) (hstays member hholds.mem_member)
      (hsound.files file hholds.mem_file) (hsound.files member hholds.mem_member)

/-- A packed file of an observation to which a file was added was there, or is the one that was
added, at its first stage, in an encapsulation that was there. -/
theorem holds_push_cases (hsound : o.Sound) {kind : Kind} {filename : String}
    {encapsulation : Option ArtefactId} {id : ArtefactId}
    (hpacked : ∀ id, encapsulation = some id →
      ∃ file ∈ o.artefacts, file.id = id ∧ file.isEncapsulation = true)
    (hok : o.push .standard kind filename encapsulation = .ok (o', id)) {file member : Artefact}
    (hholds : Holds o'.artefacts file member) :
    Holds o.artefacts file member ∨
      file ∈ o.artefacts ∧ encapsulation = some file.id ∧
        ∃ owner, member.record = .new (.initial .encapsulated owner) := by
  have hafter := (hsound.push hpacked hok).wellFormed.files
  obtain ⟨_, _, rfl, l, hl, rfl⟩ := push_spec hok
  have hlt := (hafter.packed member hholds.mem_member _ hholds.encapsulation).1
  have hmemberLt :=
    (List.getElem?_eq_some_iff.mp (hafter.arranged.getElem?_of_mem hholds.mem_member)).1
  have hfile : file ∈ o.artefacts := by
    rcases List.mem_append.mp hholds.mem_file with hold | hnew
    · exact hold
    · rw [List.mem_singleton.mp hnew] at hlt
      simp only [withArtefacts, List.length_append, List.length_singleton] at hmemberLt
      simp only at hlt
      omega
  rcases List.mem_append.mp hholds.mem_member with hold | hnew
  · exact Or.inl ⟨hfile, hold, hholds.encapsulation⟩
  · have henc := hholds.encapsulation
    rw [List.mem_singleton.mp hnew] at henc
    have henc : encapsulation = some file.id := henc
    have hl : l = .encapsulated := by
      rw [henc, Option.isSome_some, Factory.lifecycleFor] at hl
      split at hl
      · split at hl
        · exact (Except.ok.inj hl).symm
        · cases hl
      · contradiction
    refine Or.inr ⟨hfile, henc, .artefact (some o.parent) filename, ?_⟩
    rw [List.mem_singleton.mp hnew, hl]

/-- A file that is added is in step, provided that the encapsulation that it is packed into is not
past its processing. -/
theorem Coordinated.push (h : o.Coordinated) (hsound : o.Sound) {kind : Kind} {filename : String}
    {encapsulation : Option ArtefactId} {id : ArtefactId}
    (hpacked : ∀ id, encapsulation = some id →
      ∃ file ∈ o.artefacts, file.id = id ∧ file.isEncapsulation = true)
    (hopen : ∀ id, encapsulation = some id →
      ∀ file ∈ o.artefacts, file.id = id → file.record.hasReached .processed = false)
    (hok : o.push .standard kind filename encapsulation = .ok (o', id)) : o'.Coordinated := by
  intro file member hholds
  rcases holds_push_cases hsound hpacked hok hholds with hold | ⟨hfile, henc, owner, hrecord⟩
  · exact h file member hold
  · have hbefore := hopen _ henc file hfile rfl
    have hfileLifecycle : file.record.state.lifecycle = .encapsulation :=
      hholds.lifecycle (hsound.push hpacked hok).wellFormed.files
    constructor
    · intro hreached
      rw [hbefore] at hreached
      cases hreached
    · intro hreached
      rw [hrecord] at hreached
      cases hreached
    · constructor
      · intro hdeposited
        rw [hrecord] at hdeposited
        cases hdeposited
      · intro hdeposited
        rw [DepositRecord.hasReached, hfileLifecycle, hdeposited] at hbefore
        cases hbefore

/-- A report that is left to jobs keeps encapsulations in step. -/
theorem Coordinated.report (h : o.Coordinated) (hsound : o.Sound) {a : Artefact}
    (ha : a ∈ o.artefacts) {stage : Stage} {change : Artefact × Option Transition}
    (hadvance : a.advance stage now = .ok change) (hawaits : a.AwaitsReport stage)
    (hready : a.isEncapsulation = true → stage = .deposited → ∀ member ∈ o.artefacts,
      member.encapsulation = some a.id → member.state.hasReached .encapsulated = true) :
    (o.withArtefacts (o.artefacts.map
      (afterCommit a.id change (a.isEncapsulation && stage == .deposited) now))).Coordinated := by
  have hs := hsound.wellFormed.files
  apply (moves_afterCommit hsound.wellFormed ha (Artefact.continues_advance hadvance) _
    now).coordinated
  intro file member hholds
  have hpair := h file member hholds
  have hfileSound := hsound.files file hholds.mem_file
  have hmemberSound := hsound.files member hholds.mem_member
  by_cases hfile : file.id = a.id
  · have hself := hs.arranged.eq_of_id hholds.mem_file ha hfile
    subst hself
    have hkind := hholds.isEncapsulation hs
    have hstage : stage.isFailure = true ∨ stage = .deposited :=
      hawaits.imp_right fun hleft => hleft.1 hkind
    rw [hkind, Bool.true_and]
    exact hpair.afterCommit_file hs hholds hfileSound hmemberSound hadvance hstage
      fun hdeposited => hready hkind hdeposited member hholds.mem_member hholds.encapsulation
  · by_cases hmember : member.id = a.id
    · have hself := hs.arranged.eq_of_id hholds.mem_member ha hmember
      subst hself
      exact hpair.afterCommit_member hs hholds hfileSound hmemberSound hadvance hawaits _
    · exact hpair.afterCommit_of_ne hs hholds hfile hmember

theorem Coordinated.progress (h : o.Coordinated) (hsound : o.Sound) (signals : Signals)
    (now : Timestamp) : (o.progress signals now).1.Coordinated := by
  have hs := hsound.wellFormed.files
  apply (moves_progress hsound.wellFormed signals now).coordinated
  intro file member hholds
  have hpair := h file member hholds
  have hfileSound := hsound.files file hholds.mem_file
  have hmemberSound := hsound.files member hholds.mem_member
  unfold fileStep
  split
  · exact hpair
  · next inScope _ =>
      have hchildren := hpair.childStep hs hholds hfileSound hmemberSound inScope signals now
      split
      · have hf := fun a (_ : a ∈ o.artefacts) =>
          continues_childStep o.artefacts inScope signals now a
        have hsAfter := hs.map hf
        have hholdsAfter := hholds.map hf
        rw [Arranged.settled_of_isEncapsulation hholdsAfter.mem_file
            (hholdsAfter.isEncapsulation hsAfter),
          hsAfter.arranged.settled_of_member hholdsAfter.mem_file
            (hholdsAfter.isEncapsulation hsAfter) hholdsAfter.mem_member hholdsAfter.encapsulation]
        exact hchildren.step hsAfter hholdsAfter
          ((hf file hholds.mem_file).record.sound hfileSound)
          ((hf member hholds.mem_member).record.sound hmemberSound) signals now
      · exact hchildren

theorem Coordinated.runJobs (h : o.Coordinated) (hsound : o.Sound) (now : Timestamp) :
    (o.runJobs now).1.Coordinated := by
  have hs := hsound.wellFormed.files
  apply (moves_runJobs hsound.wellFormed now).coordinated
  intro file member hholds
  have hpair := h file member hholds
  have hfile : file.isPackable = false := by
    cases hpack : file.isPackable with
    | false => rfl
    | true =>
        have hkind := not_isEncapsulation_of_isPackable hs hholds.mem_file hpack
        rw [hholds.isEncapsulation hs] at hkind
        cases hkind
  cases hmember : member.isPackable with
  | false => simpa [Artefact.afterJobs, hfile, hmember] using hpair
  | true =>
      simpa [Artefact.afterJobs, hfile, hmember] using hpair.packed_of_isPackable hs hholds
        (hsound.files file hholds.mem_file) (hsound.files member hholds.mem_member) hmember

theorem Coordinated.progressEncapsulation (h : o.Coordinated) (hsound : o.Sound)
    (id : ArtefactId) (signals : Signals) (now : Timestamp) :
    (o.withArtefacts (Encapsulation.progress o.artefacts id signals now).1).Coordinated := by
  have hs := hsound.wellFormed.files
  cases hfind : find? o.artefacts id with
  | none =>
      apply h.of_artefacts_eq
      simp [Encapsulation.progress, hfind, withArtefacts]
  | some found =>
      obtain ⟨place, stepped⟩ := found
      obtain ⟨hstepped, rfl, _, hkind⟩ := hs.arranged.mem_of_find? hfind
      rw [hs.arranged.progress_fst hstepped hkind signals now]
      apply (moves_afterCommit hsound.wellFormed hstepped (continues_step ..) _ now).coordinated
      intro file member hholds
      have hpair := h file member hholds
      have hmember : member.id ≠ stepped.id := by
        intro hid
        have hnot := hholds.member_isEncapsulation hs
        rw [hs.arranged.eq_of_id hholds.mem_member hstepped hid, hkind] at hnot
        cases hnot
      by_cases hfile : file.id = stepped.id
      · have hself := hs.arranged.eq_of_id hholds.mem_file hstepped hfile
        subst hself
        have hstep := hpair.step hs hholds (hsound.files file hholds.mem_file)
          (hsound.files member hholds.mem_member) signals now
        cases hdeposits : deposits o.artefacts signals now file with
        | false => simpa [afterCommit, hmember, hdeposits] using hstep
        | true =>
            simpa [afterCommit, hmember, hdeposits, Arranged.isSome_of_deposits hdeposits,
              hholds.encapsulation] using hstep
      · exact hpair.afterCommit_of_ne hs hholds hfile hmember

theorem Coordinated.setEncapsulationStage (h : o.Coordinated) (hsound : o.Sound)
    {id : ArtefactId} {stage : Stage} {artefacts : List Artefact} {transitions : List Transition}
    (hallowed : ∀ a ∈ o.artefacts, a.id = id → a.AwaitsReport stage)
    (hok : setStage o.artefacts id stage now = .ok (artefacts, transitions)) :
    (o.withArtefacts artefacts).Coordinated := by
  cases hfind : find? o.artefacts id with
  | none =>
      simp only [setStage, hfind, Except.ok.injEq, Prod.mk.injEq] at hok
      exact h.of_artefacts_eq hok.1.symm
  | some found =>
      obtain ⟨ha, rfl, _, hkind⟩ := hsound.wellFormed.files.arranged.mem_of_find? hfind
      obtain ⟨change, hadvance, rfl, hready⟩ :=
        setStage_spec hsound.wellFormed.files ha hkind hok
      have hreport := h.report hsound ha hadvance (hallowed _ ha rfl) fun _ => hready
      rw [hkind, Bool.true_and] at hreport
      exact hreport

/-- A failure of the file of an encapsulation alone keeps all of them in step. -/
theorem Coordinated.advanceEncapsulation (h : o.Coordinated) (hsound : o.Sound) {id : ArtefactId}
    {stage : Stage} (hfail : stage.isFailure = true) {artefacts : List Artefact}
    {transitions : List Transition}
    (hok : changeFile o.artefacts id (·.advance stage now) now = .ok (artefacts, transitions)) :
    (o.withArtefacts artefacts).Coordinated := by
  have hwf := hsound.wellFormed
  rcases changeFile_spec hwf.files (Artefact.reports_advance stage now) hok with
    rfl | ⟨a, ha, rfl, _, changed, hchanged, rfl⟩
  · exact h.of_artefacts_eq rfl
  · apply h.of_stays hsound
      (moves_afterCommit hwf ha (Artefact.continues_advance hchanged) false now)
    intro b hb
    by_cases hid : b.id = a.id
    · rw [hwf.files.arranged.eq_of_id hb ha hid]
      simpa [afterCommit] using Artefact.stays_advance hfail hchanged
    · simpa [afterCommit, hid] using DepositRecord.Stays.refl b.record

/-- Every operation that is allowed keeps encapsulations in step, whether it is refused or not. -/
theorem Coordinated.perform (h : o.Coordinated) (hsound : o.Sound) {operation : Operation}
    (hallowed : o.AllowsInStep operation) (now : Timestamp) :
    (o.perform operation now).1.Coordinated := by
  have hwf := hsound.wellFormed
  have hrecovered : operation.recovers = true → (o.perform operation now).1.Coordinated := by
    intro hrecovers
    obtain ⟨f, hstays⟩ := perform_stays hsound hrecovers now
    exact h.of_stays hsound hstays.moves hstays.files
  cases operation with
  | add kind filename =>
      rcases perform_add_cases o kind filename now with hrefused | ⟨id, hok⟩
      · rw [hrefused]
        exact h
      · refine h.push hsound (fun id hid => ?_) (fun id hid => ?_) hok
        · cases hid
        · cases hid
  | addEncapsulated kind filename encapsulation =>
      rcases perform_addEncapsulated_cases hwf kind filename encapsulation now with
        hrefused | ⟨hfile, id, hok⟩
      · rw [hrefused]
        exact h
      · refine h.push hsound (fun id hid => ?_) (fun id hid => ?_) hok
        · cases hid
          exact hfile
        · cases hid
          exact hallowed
  | setArtefactStage id stage =>
      refine orRefused_cases (P := Coordinated) h fun o' transitions hok => ?_
      obtain ⟨a, ha, rfl, change, hadvance, rfl, hready⟩ := setArtefactStage_spec hwf.files hok
      exact h.report hsound ha hadvance (hallowed a ha rfl) hready
  | advance stage =>
      exact orOwnRefused_cases (P := Coordinated) h fun o' transition hok =>
        h.of_artefacts_eq (advance_spec hok).2.1
  | progress signals => exact h.progress hsound signals now
  | runJobs => exact h.runJobs hsound now
  | setEncapsulationStage id stage =>
      exact orFilesRefused_cases (P := Coordinated) h fun artefacts transitions hok =>
        h.setEncapsulationStage hsound hallowed hok
  | advanceEncapsulation id stage =>
      exact orFilesRefused_cases (P := Coordinated) h fun artefacts transitions hok =>
        h.advanceEncapsulation hsound hallowed hok
  | progressEncapsulation id signals => exact h.progressEncapsulation hsound id signals now
  | recoverEncapsulation id | recoverArtefact filename | recoverAll | recoverOwn =>
      exact hrecovered rfl

/-- In every state of every run, of whatever operations in whatever order, each encapsulation is in
step with each of its members. -/
theorem coordinated_of_reachable (h : Reachable AllowsInStep o) :
    ∀ file ∈ o.artefacts, ∀ member ∈ o.artefacts,
      member.encapsulation = some file.id → file.Coordinated member := by
  have hall : o.Coordinated := by
    induction h with
    | new hnew =>
        intro file member hholds
        have hmem := hholds.mem_file
        rw [(sound_new hnew).2.1] at hmem
        cases hmem
    | perform hbefore operation hallowed now ih =>
        exact ih.perform hbefore.sound hallowed now
  exact fun file hfile member hmember henc => hall file member ⟨hfile, hmember, henc⟩

/-- A run to an encapsulation that is processed and a member of it that has failed meanwhile. -/
theorem coordinated_failed_member :
    ∃ o : Observation, Reachable AllowsInStep o ∧ ∃ file ∈ o.artefacts, ∃ member ∈ o.artefacts,
      file.stage = .processed ∧ member.isFailed = true ∧ file.Coordinated member := by
  let now := Timestamp.ofUnixSeconds 0
  let o := fresh ⟨1⟩
  let operations : List Operation :=
    [.add .encapsulationFile "e", .addEncapsulated .cubelet "m" ⟨0⟩,
      .progress Signals.autoComplete, .progress Signals.autoComplete,
      .progress Signals.autoComplete, .runJobs, .progress Signals.autoComplete,
      .setArtefactStage ⟨1⟩ .failed]
  have hopen : ∀ file ∈ (o.perform (.add .encapsulationFile "e") now).1.artefacts,
      file.id = ⟨0⟩ → file.record.hasReached .processed = false := by
    decide +kernel
  have hrun : Reachable AllowsInStep (performEach now o operations) :=
    (Reachable.new (new_standard ⟨1⟩)).performEach
      ⟨trivial, hopen, trivial, trivial, trivial, trivial, trivial, fun _ _ _ => Or.inl rfl,
        trivial⟩
  have hpair : ∃ file ∈ (performEach now o operations).artefacts,
      ∃ member ∈ (performEach now o operations).artefacts,
        member.encapsulation = some file.id ∧ file.stage = .processed ∧
          member.isFailed = true := by
    decide +kernel
  obtain ⟨file, hfile, member, hmember, henc, hstage, hfailed⟩ := hpair
  exact ⟨_, hrun, file, hfile, member, hmember, hstage, hfailed,
    coordinated_of_reachable hrun file hfile member hmember henc⟩

end Observation

end Coordination

end ArchiveDeposit

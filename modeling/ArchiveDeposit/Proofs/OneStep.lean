import ArchiveDeposit.Proofs.Coordination

/-!
# Steps in one call

A call of progress is meant to take each entity at most one step further.  It does so for the
observation itself, for encapsulations and for files that are packed into none.  A packed file is
asked twice: it takes its own step first, and then its encapsulation may take it along to the
deposit.  The two fall into one call exactly when the file waits to be packed while its
encapsulation is archived already and waits for no other file.

**Results.**
* `Encapsulation.deposits_iff`: when the step of an encapsulation is the deposit of its members.
* `Observation.place_fileStep_le_iff`: which files go further than one place.
* `Observation.progress_stepsOnce_iff`: when a call takes each entity at most one step further.
-/

namespace ArchiveDeposit

section OneStep

/-- The stage after a step, if the surroundings permit one. -/
theorem DepositState.stage_progress_eq (s : DepositState) (around : Surroundings) :
    (s.progress around).stage =
      match s.lifecycle.stepFrom? s.stage with
      | some step => if around.permits step s.owner then step.target else s.stage
      | none => s.stage := by
  rcases progress_cases s around with hsame | ⟨step, hstep, hpermit, hstage⟩
  · rw [hsame]
    cases hstep : s.lifecycle.stepFrom? s.stage with
    | none => rfl
    | some step =>
        by_cases hpermit : around.permits step s.owner = true
        · have htaken := stage_progress hstep hpermit
          rw [hsame] at htaken
          exact htaken.trans (if_pos hpermit).symm
        · exact (if_neg hpermit).symm
  · rw [hstage, hstep]
    exact (if_pos hpermit).symm

/-- The stage of a packed file after its own step: it starts by itself, and it is packed when its
encapsulation is processed. -/
def Stage.afterOwnStep (processed : Bool) : Stage → Stage
  | .undeposited => .processing
  | .encapsulating => if processed then .encapsulated else .encapsulating
  | stage => stage

/-- Beside an encapsulation that is processed, the files that are packed after their own step are
those that waited to be packed, or were further. -/
theorem Lifecycle.reaches_afterOwnStep (s : Stage) :
    Lifecycle.encapsulated.reaches (s.afterOwnStep true) .encapsulated =
      Lifecycle.encapsulated.reaches s .encapsulating := by
  cases s <;> rfl

/-- Of the packed files that wait to be packed, or are further, those that wait are more than one
place before their deposit. -/
theorem Lifecycle.place_deposited_le_iff (s : Stage)
    (h : Lifecycle.encapsulated.reaches s .encapsulating = true) :
    Lifecycle.encapsulated.place .deposited ≤ Lifecycle.encapsulated.place s + 1 ↔
      s ≠ .encapsulating := by
  revert h
  cases s <;> decide

theorem Artefact.place_progress_le (a : Artefact) (around : Surroundings) (now : Timestamp) :
    (a.progress around now).1.record.place ≤ a.record.place + 1 := by
  rw [(a.accounts_progress around now).trail.place]
  exact Nat.add_le_add_left (Option.length_toList_le) _

namespace Observation

variable {artefacts : List Artefact} {signals : Signals} {now : Timestamp}

/-- A file after its own step in a call on an observation that deposits, where every file may
step. -/
def ownStep (artefacts : List Artefact) (signals : Signals) (now : Timestamp) (a : Artefact) :
    Artefact :=
  childStep artefacts (fun _ => true) signals now a

theorem continues_ownStep (artefacts : List Artefact) (signals : Signals) (now : Timestamp) :
    ∀ a ∈ artefacts, a.Continues (ownStep artefacts signals now a) := fun a _ =>
  continues_childStep artefacts (fun _ => true) signals now a

/-- Encapsulations are left alone while other files take their steps. -/
theorem ownStep_of_isEncapsulation {a : Artefact} (hkind : a.isEncapsulation = true) :
    ownStep artefacts signals now a = a := by
  simp [ownStep, childStep, hkind]

theorem fileStep_depositing (artefacts : List Artefact) (signals : Signals) (now : Timestamp)
    (a : Artefact) :
    fileStep .depositing artefacts signals now a =
      Encapsulation.settled (artefacts.map (ownStep artefacts signals now)) signals now
        (ownStep artefacts signals now a) := rfl

/-- An encapsulation steps as its members stand after their own steps. -/
theorem fileStep_depositing_of_isEncapsulation {a : Artefact} (ha : a ∈ artefacts)
    (hkind : a.isEncapsulation = true) (signals : Signals) (now : Timestamp) :
    fileStep .depositing artefacts signals now a =
      (Encapsulation.step (artefacts.map (ownStep artefacts signals now)) signals now a).1 := by
  have hmem := List.mem_map_of_mem (f := ownStep artefacts signals now) ha
  rw [ownStep_of_isEncapsulation hkind] at hmem
  rw [fileStep_depositing, ownStep_of_isEncapsulation hkind]
  exact Arranged.settled_of_isEncapsulation hmem hkind

/-- A file that is packed into none takes its own step and no other. -/
theorem fileStep_depositing_of_unpacked {a : Artefact} (ha : a ∈ artefacts)
    (hkind : a.isEncapsulation = false) (hnone : a.encapsulation = none) (signals : Signals)
    (now : Timestamp) :
    fileStep .depositing artefacts signals now a = ownStep artefacts signals now a := by
  have hcont := continues_ownStep artefacts signals now a ha
  rw [fileStep_depositing]
  simp [Encapsulation.settled, Encapsulation.settledBy, hcont.isEncapsulation.trans hkind,
    hcont.encapsulation.trans hnone]

end Observation

namespace Encapsulation

open Observation

variable {parent : Parent} {artefacts : List Artefact} {file member : Artefact}
  {signals : Signals} {now : Timestamp}

/-- An encapsulation deposits its members when it is archived and each of them is packed. -/
theorem deposits_iff (hs : Siblings parent artefacts) (hfile : file ∈ artefacts)
    (hkind : file.isEncapsulation = true) :
    deposits artefacts signals now file = true ↔
      file.stage = .archived ∧
        ∀ member, Holds artefacts file member → member.state.hasReached .encapsulated = true := by
  have hl : file.state.lifecycle = .encapsulation :=
    ((hs.belongs file hfile).of_isEncapsulation hkind).2
  have hmembers := opens_childrenReached_iff hs hfile signals .encapsulated
  rw [deposits, Bool.and_eq_true, beq_iff_eq, beq_iff_eq]
  refine and_congr_right fun hstage => ?_
  have hstep : file.state.lifecycle.stepFrom? file.state.stage =
      some ⟨.archived, .deposited, .childrenReached .encapsulated, false⟩ := by
    rw [hl, show file.state.stage = _ from hstage]
    rfl
  rw [step, Artefact.stage_progress, DepositState.stage_progress_eq, hstep, ← hmembers]
  simp only [Surroundings.permits, show file.state.stage = _ from hstage, Bool.not_false,
    Bool.true_or, Bool.and_true]
  split
  · next hall => exact ⟨fun _ => hall, fun _ => rfl⟩
  · next hnot => exact ⟨fun hend => absurd hend (by decide), fun hall => absurd hall hnot⟩

namespace Holds

theorem stage_ownStep (h : Holds artefacts file member) (hs : Siblings parent artefacts)
    (signals : Signals) (now : Timestamp) :
    (ownStep artefacts signals now member).stage =
      member.stage.afterOwnStep (file.state.hasReached .processed) := by
  have hl : member.state.lifecycle = .encapsulated := h.member_lifecycle hs
  have hseen : (childSurroundings artefacts signals member).encapsulation = some file.state := by
    simp only [childSurroundings, h.encapsulation, Option.bind_some]
    exact encapsulationState?_of_mem hs.arranged h.mem_file (h.isEncapsulation hs)
  rw [ownStep, childStep, h.member_isEncapsulation hs]
  simp only [Bool.not_false, Bool.and_self, if_true, Artefact.stage_progress]
  rw [DepositState.stage_progress_eq, hl]
  change (match Lifecycle.encapsulated.stepFrom? member.stage with
    | some step => if _ then step.target else member.stage
    | none => member.stage) = _
  cases member.stage <;>
    simp [Lifecycle.stepFrom?, Lifecycle.steps, Surroundings.permits, Surroundings.opens, hseen,
      Stage.afterOwnStep]

/-- Own steps leave the encapsulation as it is and the file packed into it. -/
theorem map_ownStep (h : Holds artefacts file member) (hs : Siblings parent artefacts)
    (signals : Signals) (now : Timestamp) :
    Holds (artefacts.map (ownStep artefacts signals now)) file
      (ownStep artefacts signals now member) := by
  have hafter := h.map (continues_ownStep artefacts signals now)
  rwa [ownStep_of_isEncapsulation (h.isEncapsulation hs)] at hafter

theorem of_map_ownStep (hs : Siblings parent artefacts) (hfile : file ∈ artefacts)
    (h : Holds (artefacts.map (ownStep artefacts signals now)) file member) :
    ∃ before, Holds artefacts file before ∧ ownStep artefacts signals now before = member := by
  obtain ⟨other, before, hholds, hother, rfl⟩ := h.of_map (continues_ownStep artefacts signals now)
  have hsame : other = file := by
    apply hs.arranged.eq_of_id hholds.mem_file hfile
    rw [← hother]
    exact (continues_ownStep _ signals now other hholds.mem_file).id.symm
  subst hsame
  exact ⟨before, hholds, rfl⟩

/-- A packed file takes its own step, and then perhaps its encapsulation takes it along. -/
theorem fileStep_depositing (h : Holds artefacts file member) (hs : Siblings parent artefacts)
    (signals : Signals) (now : Timestamp) :
    fileStep .depositing artefacts signals now member =
      if deposits (artefacts.map (ownStep artefacts signals now)) signals now file then
        ((ownStep artefacts signals now member).depositPacked now).1
      else ownStep artefacts signals now member := by
  have hsAfter := hs.map (continues_ownStep artefacts signals now)
  have hafter := h.map_ownStep hs signals now
  rw [Observation.fileStep_depositing]
  exact hsAfter.arranged.settled_of_member hafter.mem_file (h.isEncapsulation hs) hafter.mem_member
    hafter.encapsulation

end Holds

/-- After the own steps of its members, an encapsulation deposits them when it was archived and each
of them waited to be packed, or was further. -/
theorem deposits_ownStep_iff (hs : Siblings parent artefacts) (hfile : file ∈ artefacts)
    (hkind : file.isEncapsulation = true) (signals : Signals) (now : Timestamp) :
    deposits (artefacts.map (ownStep artefacts signals now)) signals now file = true ↔
      file.stage = .archived ∧
        ∀ member, Holds artefacts file member →
          member.state.hasReached .encapsulating = true := by
  have hmem := List.mem_map_of_mem (f := ownStep artefacts signals now) hfile
  rw [ownStep_of_isEncapsulation hkind] at hmem
  refine (deposits_iff (hs.map (continues_ownStep artefacts signals now)) hmem hkind).trans
    (and_congr_right fun hstage => ?_)
  have hprocessed : file.state.hasReached .processed = true := by
    rw [DepositState.hasReached_eq, ((hs.belongs file hfile).of_isEncapsulation hkind).2,
      show file.state.stage = _ from hstage]
    decide
  have hpacked : ∀ member, Holds artefacts file member →
      (ownStep artefacts signals now member).state.hasReached .encapsulated =
        member.state.hasReached .encapsulating := by
    intro member hholds
    have hl := hholds.member_lifecycle hs
    have hlAfter := (hholds.map_ownStep hs signals now).member_lifecycle
      (hs.map (continues_ownStep artefacts signals now))
    rw [DepositState.hasReached_eq, DepositState.hasReached_eq, hl, hlAfter,
      show (ownStep artefacts signals now member).state.stage = _ from
        hholds.stage_ownStep hs signals now, hprocessed]
    exact Lifecycle.reaches_afterOwnStep member.stage
  constructor
  · intro h member hholds
    rw [← hpacked member hholds]
    exact h _ (hholds.map_ownStep hs signals now)
  · intro h member hafter
    obtain ⟨before, hholds, rfl⟩ := hafter.of_map_ownStep hs hfile
    rw [hpacked before hholds]
    exact h before hholds

/-- What an encapsulation takes along in a call is deposited after it. -/
theorem Holds.effectiveStage_fileStep_of_deposits (h : Holds artefacts file member)
    (hs : Siblings parent artefacts)
    (hdeposits : deposits (artefacts.map (ownStep artefacts signals now)) signals now file = true) :
    (fileStep .depositing artefacts signals now member).record.effectiveStage = .deposited := by
  have hsAfter := hs.map (continues_ownStep artefacts signals now)
  have hafter := h.map_ownStep hs signals now
  have hpacked := ((deposits_iff hsAfter hafter.mem_file (h.isEncapsulation hs)).mp hdeposits).2 _
    hafter
  rw [h.fileStep_depositing hs, if_pos hdeposits]
  exact Artefact.effectiveStage_of_isDeposited
    (Artefact.isDeposited_depositPacked (hafter.member_lifecycle hsAfter) hpacked now)

end Encapsulation

namespace Observation

open Encapsulation

variable {o : Observation} {a : Artefact} {signals : Signals} {now : Timestamp}

/-- A packed file is asked for its own step and to be deposited in one call: it waits to be packed,
its encapsulation is archived, and every other file in it waits to be packed or is packed. -/
def StepsTwice (o : Observation) (a : Artefact) : Prop :=
  o.stage = .depositing ∧ a.stage = .encapsulating ∧
    ∃ file, Holds o.artefacts file a ∧ file.stage = .archived ∧
      ∀ member, Holds o.artefacts file member → member.state.hasReached .encapsulating = true

theorem place_childStep_le (artefacts : List Artefact) (inScope : Artefact → Bool)
    (signals : Signals) (now : Timestamp) (a : Artefact) :
    (childStep artefacts inScope signals now a).record.place ≤ a.record.place + 1 := by
  unfold childStep
  split
  · exact a.place_progress_le _ now
  · exact Nat.le_succ _

/-- A file that is packed into none takes at most one step. -/
theorem place_fileStep_le_of_unpacked {artefacts : List Artefact} (ha : a ∈ artefacts)
    (hnone : a.encapsulation = none) (signals : Signals) (now : Timestamp) :
    (fileStep .depositing artefacts signals now a).record.place ≤ a.record.place + 1 := by
  cases hkind : a.isEncapsulation with
  | true =>
      rw [fileStep_depositing_of_isEncapsulation ha hkind]
      exact a.place_progress_le _ now
  | false =>
      rw [fileStep_depositing_of_unpacked ha hkind hnone]
      exact place_childStep_le artefacts _ signals now a

/-- A packed file takes at most one step unless its encapsulation takes it along while it waits to
be packed. -/
theorem place_fileStep_le_iff_of_holds {parent : Parent} {artefacts : List Artefact}
    (hs : Siblings parent artefacts) {file : Artefact} (hholds : Holds artefacts file a)
    (signals : Signals) (now : Timestamp) :
    (fileStep .depositing artefacts signals now a).record.place ≤ a.record.place + 1 ↔
      ¬ (a.stage = .encapsulating ∧
        deposits (artefacts.map (ownStep artefacts signals now)) signals now file = true) := by
  have hl : a.record.state.lifecycle = .encapsulated := hholds.member_lifecycle hs
  by_cases hdeposits :
      deposits (artefacts.map (ownStep artefacts signals now)) signals now file = true
  · have hreached := ((deposits_ownStep_iff hs hholds.mem_file (hholds.isEncapsulation hs) signals
      now).mp hdeposits).2 a hholds
    have hnot : a.record.isFailed = false := DepositState.isFailed_of_hasReached hreached
    rw [DepositState.hasReached_eq, hholds.member_lifecycle hs] at hreached
    have hcont := continues_fileStep .depositing artefacts signals now a
    rw [DepositRecord.place, DepositRecord.place, hcont.record.lifecycle, hl,
      hholds.effectiveStage_fileStep_of_deposits hs hdeposits,
      DepositRecord.effectiveStage_of_not_failed hnot]
    exact (Lifecycle.place_deposited_le_iff a.stage hreached).trans
      (not_congr (and_iff_left hdeposits).symm)
  · rw [hholds.fileStep_depositing hs, if_neg hdeposits]
    exact iff_of_true (place_childStep_le artefacts _ signals now a)
      fun htwice => hdeposits htwice.2

theorem stepsTwice_iff (h : o.WellFormed) (hstage : o.stage = .depositing) {file : Artefact}
    (hholds : Holds o.artefacts file a) (signals : Signals) (now : Timestamp) :
    o.StepsTwice a ↔ a.stage = .encapsulating ∧
      deposits (o.artefacts.map (ownStep o.artefacts signals now)) signals now file = true := by
  rw [deposits_ownStep_iff h.files hholds.mem_file (hholds.isEncapsulation h.files)]
  constructor
  · rintro ⟨_, hwaits, other, hother, hrest⟩
    have hid := Option.some.inj (hholds.encapsulation.symm.trans hother.encapsulation)
    rw [h.files.arranged.eq_of_id hholds.mem_file hother.mem_file hid]
    exact ⟨hwaits, hrest⟩
  · exact fun ⟨hwaits, hrest⟩ => ⟨hstage, hwaits, file, hholds, hrest⟩

/-- A file goes further than one place in a call exactly if it steps twice. -/
theorem place_fileStep_le_iff (h : o.WellFormed) (ha : a ∈ o.artefacts) (signals : Signals)
    (now : Timestamp) :
    (fileStep o.stage o.artefacts signals now a).record.place ≤ a.record.place + 1 ↔
      ¬ o.StepsTwice a := by
  by_cases hstage : o.stage = .depositing
  · rw [hstage]
    cases henc : a.encapsulation with
    | none =>
        refine iff_of_true (place_fileStep_le_of_unpacked ha henc signals now) ?_
        rintro ⟨_, _, file, hholds, _⟩
        cases henc.symm.trans hholds.encapsulation
    | some id =>
        obtain ⟨_, file, hfile, rfl, _⟩ := h.files.packed a ha id henc
        have hholds : Holds o.artefacts file a := ⟨hfile, ha, henc⟩
        rw [stepsTwice_iff h hstage hholds signals now]
        exact place_fileStep_le_iff_of_holds h.files hholds signals now
  · refine iff_of_true ?_ fun htwice => hstage htwice.1
    unfold fileStep
    split
    · exact Nat.le_succ _
    · rw [if_neg hstage]
      exact place_childStep_le ..

/-- What a call reports of the files is the trail of each of them, and of the observation itself
nothing. -/
theorem trail_fileStep (h : o.WellFormed) (signals : Signals) (now : Timestamp) :
    let log := (progressFiles o.stage o.artefacts signals now).2
    transitionsOf (.observation o.sbid) log = [] ∧
      ∀ a ∈ o.artefacts, a.record.Trail .step (transitionsOf a.owner log)
        (fileStep o.stage o.artefacts signals now a).record := by
  intro log
  obtain ⟨f, hfiles⟩ := accounts_progressFiles h o.stage signals now
  have hmap : o.artefacts.map f =
      o.artefacts.map (fileStep o.stage o.artefacts signals now) :=
    hfiles.moves.artefacts.symm.trans (progressFiles_fst h.files.arranged o.stage)
  constructor
  · have hplace := hfiles.own.place
    have hsame : (o.withArtefacts (progressFiles o.stage o.artefacts signals now).1).record =
        o.record := rfl
    rw [hsame] at hplace
    exact List.eq_nil_of_length_eq_zero (Nat.add_eq_left.mp hplace.symm)
  · intro a ha
    rw [← List.map_inj_left.mp hmap a ha]
    exact hfiles.files a ha

/-- What a call reports of a file is as much as the file goes further. -/
theorem length_transitionsOf_progress (h : o.WellFormed) (ha : a ∈ o.artefacts)
    (signals : Signals) (now : Timestamp) :
    (fileStep o.stage o.artefacts signals now a).record.place =
      a.record.place + (transitionsOf a.owner (o.progress signals now).2).length := by
  have hown : transitionsOf a.owner (o.record.replace
      (o.ownNext (progressFiles o.stage o.artefacts signals now).1 signals) now).2.toList = [] := by
    apply transitionsOf_eq_nil
    intro t ht heq
    have howner := (o.trail_ownNext _ signals now).owner_of_mem t ht
    cases (howner.trans h.owner).symm.trans heq
  rw [((trail_fileStep h signals now).2 a ha).place, progress_snd, transitionsOf_append, hown,
    List.append_nil]

/-- What a call reports of the observation itself is at most one transition. -/
theorem length_transitionsOf_progress_own (h : o.WellFormed) (signals : Signals)
    (now : Timestamp) :
    (transitionsOf (.observation o.sbid) (o.progress signals now).2).length ≤ 1 := by
  rw [progress_snd, transitionsOf_append, (trail_fileStep h signals now).1, List.nil_append]
  exact Nat.le_trans (List.length_filter_le _ _) Option.length_toList_le

theorem place_progress_own (h : o.Sound) (signals : Signals) (now : Timestamp) :
    (o.progress signals now).1.record.place ≤ o.record.place + 1 := by
  rw [progress_record, ownNext]
  split
  · have hstays : o.record.Stays (o.record.replace o.state.failed now).1 :=
      o.record.stays_failed now
    rw [DepositRecord.place, hstays.continues.lifecycle, hstays.effectiveStage h.record]
    exact Nat.le_succ _
  · exact Nat.le_trans (Nat.le_of_eq (o.record.trail_progress _ now).place)
      (Nat.add_le_add_left Option.length_toList_le _)

theorem nodup_owners_iff {log : List Transition} :
    (log.map Transition.owner).Nodup ↔ ∀ owner, (transitionsOf owner log).length ≤ 1 := by
  rw [List.nodup_iff_count_le_one]
  refine forall_congr' fun owner => ?_
  rw [List.count, List.countP_map, transitionsOf, ← List.countP_eq_length_filter]
  exact iff_of_eq rfl

/-- In a call each entity goes at most one place further, and is reported at most once. -/
structure StepsOnce (log : List Transition) (o o' : Observation) : Prop where
  owners : (log.map Transition.owner).Nodup
  own : o'.record.place ≤ o.record.place + 1
  files : ∀ (i : Nat) (a b : Artefact), o.artefacts[i]? = some a → o'.artefacts[i]? = some b →
    b.record.place ≤ a.record.place + 1

/-- In every state of every run, a call of progress takes each entity at most one step further
unless a packed file steps twice. -/
theorem progress_stepsOnce_iff {allowed : Observation → Operation → Prop}
    (h : Reachable allowed o) (signals : Signals) (now : Timestamp) :
    StepsOnce (o.progress signals now).2 o (o.progress signals now).1 ↔
      ∀ a ∈ o.artefacts, ¬ o.StepsTwice a := by
  have hsound := h.sound
  have hwf := hsound.wellFormed
  have hplace := fun a (ha : a ∈ o.artefacts) =>
    place_fileStep_le_iff hwf ha signals now
  constructor
  · intro honce a ha
    obtain ⟨i, hi⟩ := List.getElem?_of_mem ha
    refine (hplace a ha).mp (honce.files i a _ hi ?_)
    rw [progress_artefacts hwf.files, List.getElem?_map, hi]
    rfl
  · intro hnone
    refine ⟨nodup_owners_iff.mpr fun owner => ?_, place_progress_own hsound signals now, ?_⟩
    · by_cases hreported : ∃ t ∈ (o.progress signals now).2, t.owner = owner
      · obtain ⟨t, ht, rfl⟩ := hreported
        obtain ⟨f, haccounts⟩ := accounts_progress hwf signals now
        rcases haccounts.owners t ht with hown | ⟨a, ha, howner⟩
        · rw [hown]
          exact length_transitionsOf_progress_own hwf signals now
        · have hle := (hplace a ha).mpr (hnone a ha)
          rw [length_transitionsOf_progress hwf ha signals now] at hle
          rw [howner]
          omega
      · rw [transitionsOf_eq_nil fun t ht howner => hreported ⟨t, ht, howner⟩]
        exact Nat.zero_le 1
    · intro i a b hi hb
      have ha := List.mem_of_getElem? hi
      rw [progress_artefacts hwf.files, List.getElem?_map, hi] at hb
      cases hb
      exact (hplace a ha).mpr (hnone a ha)

/-- A run in which a job reports an encapsulation as archived before its member is packed: the next
call packs the member and deposits it. -/
theorem stepsTwice_early_archive :
    ∃ (o : Observation) (signals : Signals) (now : Timestamp),
      Reachable (fun _ _ => True) o ∧ (∃ a ∈ o.artefacts, o.StepsTwice a) ∧
        ¬ StepsOnce (o.progress signals now).2 o (o.progress signals now).1 := by
  let now := Timestamp.ofUnixSeconds 0
  let o := performEach now (fresh ⟨1⟩)
    [.add .encapsulationFile "e", .addEncapsulated .cubelet "m" ⟨0⟩,
      .progress Signals.autoComplete, .progress Signals.autoComplete,
      .setArtefactStage ⟨0⟩ .archived, .setArtefactStage ⟨1⟩ .encapsulating]
  have hrun : Reachable (fun _ _ => True) o :=
    (Reachable.new (new_standard ⟨1⟩)).performEach
      ⟨trivial, trivial, trivial, trivial, trivial, trivial, trivial⟩
  have htwice : ¬ ((o.progress Signals.autoComplete now).2.map Transition.owner).Nodup := by
    decide +kernel
  have hnot : ¬ StepsOnce (o.progress Signals.autoComplete now).2 o
      (o.progress Signals.autoComplete now).1 := fun honce => htwice honce.owners
  have hfile := (progress_stepsOnce_iff hrun Signals.autoComplete now).not.mp hnot
  exact ⟨o, Signals.autoComplete, now, hrun, by simpa using hfile, hnot⟩

end Observation

end OneStep

end ArchiveDeposit

import Mathlib.Data.List.Forall2
import ArchiveDeposit.Proofs.OneStep
import ArchiveDeposit.Proofs.Precedence

/-!
# More reports never slow a deposit down

Two runs start from one observation on course and tick together.  At every tick all reports that are
in for the first run are in for the second.  Then the second is never behind: after every tick, the
observation and each of its files stand there at the same place as in the first run, or further.

The two runs drift apart.  In the second the observation may have begun to archive while in the
first it still deposits; its files are not asked for steps any more then, but all are deposited.
And a packed file that is deposited in the first run together with its encapsulation may have been
left waiting in the second; but there its encapsulation is deposited as well, and with it all its
members.  For this the invariant of both runs is needed, that they are on course.

**Results.**
* `Observation.Behind.fileStep`: what one call of progress does to a file in the two runs.
* `Observation.Behind.tick`: a tick keeps the second run from falling behind.
* `Observation.OnCourse.tickEach_nowhereAhead`: so it never does.
-/

namespace ArchiveDeposit

section Monotonicity

open Encapsulation

/-- An observation that has begun to deposit still does so, or has begun to archive. -/
theorem Lifecycle.reaches_depositing_cases {s : Stage}
    (h : Lifecycle.observation.reaches s .depositing = true) :
    Lifecycle.observation.reaches s .archiving = true ∨ s = .depositing := by
  revert h
  cases s <;> decide

theorem Lifecycle.reaches_priorityDepositing_cases {s : Stage}
    (h : Lifecycle.observation.reaches s .priorityDepositing = true) :
    Lifecycle.observation.reaches s .archiving = true ∨
      s = .priorityDepositing ∨ s = .depositing := by
  revert h
  cases s <;> decide

/-- Files that are changed one by one in two ways, those with a property in each of two lists. -/
theorem DepositState.allPreceded_images {artefacts before after : List Artefact}
    {f g : Artefact → Artefact} {p : Artefact → Bool}
    (hfiles : ∀ a ∈ artefacts, (f a).state.Precedes (g a).state)
    (hsame : ∀ a ∈ artefacts, p (g a) = p (f a))
    (hbefore : ∀ a ∈ artefacts, p (f a) = true → f a ∈ before)
    (hafter : ∀ b ∈ after, b ∈ artefacts.map g ∧ p b = true) :
    AllPreceded (before.map Artefact.state) (after.map Artefact.state) := by
  intro t ht
  obtain ⟨b, hb, rfl⟩ := List.mem_map.mp ht
  obtain ⟨himage, hp⟩ := hafter b hb
  obtain ⟨a, ha, rfl⟩ := List.mem_map.mp himage
  rw [hsame a ha] at hp
  exact ⟨(f a).state, List.mem_map_of_mem (hbefore a ha hp), hfiles a ha⟩

namespace Observation

/-- Two observations that the files of a third have become, the first nowhere ahead of the second,
and both on course. -/
structure Behind (o : Observation) (p q : Artefact → Artefact) (slow fast : Observation) :
    Prop where
  base : o.WellFormed
  slowMoves : o.Moves p slow
  fastMoves : o.Moves q fast
  slowCourse : slow.OnCourse
  fastCourse : fast.OnCourse
  own : slow.state.Precedes fast.state
  files : ∀ a ∈ o.artefacts, (p a).state.Precedes (q a).state

namespace Behind

variable {o slow fast : Observation} {p q : Artefact → Artefact} {fewer more : Signals}
  {now later : Timestamp} {a : Artefact}

theorem refl (h : o.OnCourse) : Behind o (fun a => a) (fun a => a) o o where
  base := h.wellFormed
  slowMoves := Moves.refl o
  fastMoves := Moves.refl o
  slowCourse := h
  fastCourse := h
  own := .refl h.own
  files a ha := .refl (h.files a ha)

theorem mem_slow (h : Behind o p q slow fast) (ha : a ∈ o.artefacts) : p a ∈ slow.artefacts := by
  rw [h.slowMoves.artefacts]
  exact List.mem_map_of_mem ha

theorem mem_fast (h : Behind o p q slow fast) (ha : a ∈ o.artefacts) : q a ∈ fast.artefacts := by
  rw [h.fastMoves.artefacts]
  exact List.mem_map_of_mem ha

/-- A file of the second run after a change that fails nothing and takes nothing back. -/
theorem trans_fast (h : Behind o p q slow fast) (ha : a ∈ o.artefacts) {s : DepositState}
    (hs : s.Precedes (q a).state) {b : Artefact} (hcont : (q a).Continues b)
    (hadvances : (q a).record.Advances b.record) : s.Precedes b.state :=
  hs.trans (hcont.precedes hadvances (h.fastCourse.files _ (h.mem_fast ha)))

/-- A file that is deposited in the second run. -/
theorem precedes_of_isDeposited (h : Behind o p q slow fast) (ha : a ∈ o.artefacts)
    {b c : Artefact} (hslow : (p a).Continues b) (hadvances : (p a).record.Advances b.record)
    (hfast : (q a).Continues c) (hdeposited : c.isDeposited = true) :
    b.state.Precedes c.state := by
  have hb := (h.slowMoves.files a ha).trans hslow
  have hc := (h.fastMoves.files a ha).trans hfast
  exact .of_isDeposited (hc.record.lifecycle.trans hb.record.lifecycle.symm)
    (hc.record.owner.trans hb.record.owner.symm)
    (hadvances.isFailed.trans (h.slowCourse.files _ (h.mem_slow ha))) hdeposited

/-- What a file sees around it in the two runs. -/
theorem childSurroundings_precedes (h : Behind o p q slow fast) (hsignals : fewer.Within more)
    (ha : a ∈ o.artefacts) :
    (childSurroundings slow.artefacts fewer (p a)).Precedes
      (childSurroundings fast.artefacts more (q a)) where
  signals := hsignals
  children t ht := nomatch ht
  priorityChildren t ht := nomatch ht
  encapsulation s hs := by
    simp only [childSurroundings, (h.slowMoves.files a ha).encapsulation,
      (h.fastMoves.files a ha).encapsulation] at hs ⊢
    cases henc : a.encapsulation with
    | none => simp [henc] at hs
    | some id =>
        obtain ⟨_, file, hfile, rfl, hkind⟩ := h.base.files.packed a ha id henc
        have hslow := encapsulationState?_of_mem h.slowCourse.wellFormed.files.arranged
          (h.mem_slow hfile) ((h.slowMoves.files file hfile).isEncapsulation.trans hkind)
        have hfast := encapsulationState?_of_mem h.fastCourse.wellFormed.files.arranged
          (h.mem_fast hfile) ((h.fastMoves.files file hfile).isEncapsulation.trans hkind)
        rw [(h.slowMoves.files file hfile).id] at hslow
        rw [(h.fastMoves.files file hfile).id] at hfast
        rw [henc, Option.bind_some, hslow] at hs
        rw [Option.bind_some, hfast]
        exact ⟨_, rfl, Option.some.inj hs ▸ h.files file hfile⟩

/-- A file that is asked in the first run is asked in the second, or is ahead there already. -/
theorem childStep (h : Behind o p q slow fast) (hsignals : fewer.Within more)
    (ha : a ∈ o.artefacts) {inScope wider : Artefact → Bool}
    (hscope : inScope (p a) = true → wider (q a) = true) (now later : Timestamp) :
    (childStep slow.artefacts inScope fewer now (p a)).state.Precedes
      (childStep fast.artefacts wider more later (q a)).state := by
  have hkind : (q a).isEncapsulation = (p a).isEncapsulation :=
    (h.fastMoves.files a ha).isEncapsulation.trans (h.slowMoves.files a ha).isEncapsulation.symm
  by_cases hmoves : (inScope (p a) && !(p a).isEncapsulation) = true
  · have hmovesFast : (wider (q a) && !(q a).isEncapsulation) = true := by
      simp only [Bool.and_eq_true, hkind] at hmoves ⊢
      exact hmoves.imp_left hscope
    rw [Observation.childStep, if_pos hmoves, Observation.childStep, if_pos hmovesFast,
      Artefact.state_progress, Artefact.state_progress]
    exact (h.files a ha).progress (h.childSurroundings_precedes hsignals ha)
  · rw [Observation.childStep, if_neg hmoves]
    exact h.trans_fast ha (h.files a ha) (continues_childStep _ _ more later _)
      (advances_childStep _ _ more later _)

/-- A file after its own step in the run of an observation that deposits. -/
theorem ownStep (h : Behind o p q slow fast) (hsignals : fewer.Within more)
    (ha : a ∈ o.artefacts) (now later : Timestamp) :
    (ownStep slow.artefacts fewer now (p a)).state.Precedes
      (ownStep fast.artefacts more later (q a)).state :=
  h.childStep hsignals ha (fun _ => rfl) now later

/-- What an encapsulation sees of its members in the two runs. -/
theorem memberSurroundings_precedes (h : Behind o p q slow fast) (hsignals : fewer.Within more)
    {file : Artefact} (hfile : file ∈ o.artefacts) (now later : Timestamp) :
    Surroundings.Precedes
      { signals := fewer
        children := (members (slow.artefacts.map (Observation.ownStep slow.artefacts fewer now))
          (p file).id).map Artefact.state }
      { signals := more
        children := (members (fast.artefacts.map (Observation.ownStep fast.artefacts more later))
          (q file).id).map Artefact.state } where
  signals := hsignals
  children := by
    have hslow : ∀ a ∈ o.artefacts,
        a.Continues (Observation.ownStep slow.artefacts fewer now (p a)) := fun a ha =>
      (h.slowMoves.files a ha).trans (continues_childStep _ _ fewer now _)
    have hfast : ∀ a ∈ o.artefacts,
        a.Continues (Observation.ownStep fast.artefacts more later (q a)) := fun a ha =>
      (h.fastMoves.files a ha).trans (continues_childStep _ _ more later _)
    rw [(h.slowMoves.files file hfile).id, (h.fastMoves.files file hfile).id]
    refine DepositState.allPreceded_images (p := (·.isMemberOf file.id))
      (fun a ha => h.ownStep hsignals ha now later) (fun a ha => ?_) (fun a ha hmember => ?_)
      fun b hb => ?_
    · rw [(hslow a ha).isMemberOf, (hfast a ha).isMemberOf]
    · rw [members, Artefact.mem_inChildOrder, List.mem_filter]
      exact ⟨List.mem_map_of_mem (h.mem_slow ha), hmember⟩
    · rw [members, Artefact.mem_inChildOrder, List.mem_filter] at hb
      obtain ⟨b, hb', rfl⟩ := List.mem_map.mp hb.1
      rw [h.fastMoves.artefacts] at hb'
      obtain ⟨a, ha, rfl⟩ := List.mem_map.mp hb'
      exact ⟨List.mem_map_of_mem ha, hb.2⟩
  priorityChildren t ht := nomatch ht
  encapsulation s hs := nomatch hs

/-- The step of an encapsulation, whose members have taken theirs. -/
theorem fileStep_of_isEncapsulation (h : Behind o p q slow fast) (hsignals : fewer.Within more)
    {file : Artefact} (hfile : file ∈ o.artefacts) (hkind : file.isEncapsulation = true)
    (now later : Timestamp) :
    (fileStep .depositing slow.artefacts fewer now (p file)).state.Precedes
      (fileStep .depositing fast.artefacts more later (q file)).state := by
  rw [fileStep_depositing_of_isEncapsulation (h.mem_slow hfile)
      ((h.slowMoves.files file hfile).isEncapsulation.trans hkind),
    fileStep_depositing_of_isEncapsulation (h.mem_fast hfile)
      ((h.fastMoves.files file hfile).isEncapsulation.trans hkind),
    step, Artefact.state_progress, step, Artefact.state_progress]
  exact (h.files file hfile).progress (h.memberSurroundings_precedes hsignals hfile now later)

/-- A file of the second run that is taken along after its own step. -/
theorem trans_fileStep (h : Behind o p q slow fast) (ha : a ∈ o.artefacts) {s : DepositState}
    {stage : Stage} {inScope : Artefact → Bool} (hscope : inScope? stage = some inScope)
    (hs : s.Precedes (Observation.childStep fast.artefacts inScope more later (q a)).state) :
    s.Precedes (fileStep stage fast.artefacts more later (q a)).state := by
  have hmem := h.mem_fast ha
  have hnot := (advances_childStep fast.artefacts inScope more later (q a)).isFailed.trans
    (h.fastCourse.files _ hmem)
  exact hs.trans ((continues_fileStep_of_childStep hscope fast.artefacts more later (q a)).precedes
    (advances_fileStep_of_childStep hscope fast.artefacts more later (q a)) hnot)

/-- A member that is deposited together with its encapsulation in the first run.  In the second its
encapsulation is deposited as well, and so, on course, are all its members. -/
theorem fileStep_of_deposits (h : Behind o p q slow fast) (hsignals : fewer.Within more)
    {file member : Artefact} (hholds : Holds o.artefacts file member)
    (hstage : fast.stage = .depositing) (now later : Timestamp)
    (hdeposits : deposits (slow.artefacts.map (Observation.ownStep slow.artefacts fewer now)) fewer
      now (p file) = true) :
    (fileStep .depositing slow.artefacts fewer now (p member)).state.Precedes
      (fileStep .depositing fast.artefacts more later (q member)).state := by
  have hslowFiles := h.slowCourse.wellFormed.files
  have hfile := hholds.mem_file
  have hkind := hholds.isEncapsulation h.base.files
  have hfileSlow :
      (fileStep .depositing slow.artefacts fewer now (p file)).isDeposited = true := by
    rw [fileStep_depositing_of_isEncapsulation (h.mem_slow hfile)
      ((h.slowMoves.files file hfile).isEncapsulation.trans hkind)]
    exact (Bool.and_eq_true_iff.mp hdeposits).2
  have hfileFast :=
    (h.fileStep_of_isEncapsulation hsignals hfile hkind now later).isDeposited hfileSlow
  have hholdsFast : Holds fast.artefacts (q file) (q member) := by
    rw [h.fastMoves.artefacts]
    exact hholds.map h.fastMoves.files
  have hmember := h.fastCourse.members_fileStep hholdsFast (hstage ▸ hfileFast)
  rw [hstage] at hmember
  exact h.precedes_of_isDeposited hholds.mem_member
    (continues_fileStep .depositing slow.artefacts fewer now (p member))
    (advances_fileStep .depositing slow.artefacts fewer now (p member))
    (continues_fileStep .depositing fast.artefacts more later (q member)) hmember

/-- Files, while both observations deposit. -/
theorem fileStep_depositing (h : Behind o p q slow fast) (hsignals : fewer.Within more)
    (ha : a ∈ o.artefacts) (hstage : fast.stage = .depositing) (now later : Timestamp) :
    (fileStep .depositing slow.artefacts fewer now (p a)).state.Precedes
      (fileStep .depositing fast.artefacts more later (q a)).state := by
  have hslow := h.slowMoves.files a ha
  have hown : (Observation.ownStep slow.artefacts fewer now (p a)).state.Precedes
      (fileStep .depositing fast.artefacts more later (q a)).state :=
    h.trans_fileStep ha rfl (h.ownStep hsignals ha now later)
  cases hkind : a.isEncapsulation with
  | true => exact h.fileStep_of_isEncapsulation hsignals ha hkind now later
  | false =>
      cases henc : a.encapsulation with
      | none =>
          rw [fileStep_depositing_of_unpacked (h.mem_slow ha) (hslow.isEncapsulation.trans hkind)
            (hslow.encapsulation.trans henc)]
          exact hown
      | some id =>
          obtain ⟨_, file, hfile, rfl, _⟩ := h.base.files.packed a ha id henc
          have hholds : Holds o.artefacts file a := ⟨hfile, ha, henc⟩
          have hholdsSlow : Holds slow.artefacts (p file) (p a) := by
            rw [h.slowMoves.artefacts]
            exact hholds.map h.slowMoves.files
          by_cases hdeposits : deposits (slow.artefacts.map
              (Observation.ownStep slow.artefacts fewer now)) fewer now (p file) = true
          · exact h.fileStep_of_deposits hsignals hholds hstage now later hdeposits
          · rw [hholdsSlow.fileStep_depositing h.slowCourse.wellFormed.files, if_neg hdeposits]
            exact hown

/-- Where the first observation asks files for steps, the second asks the same ones and perhaps
others, or it is past asking. -/
theorem scope_cases (h : Behind o p q slow fast) {inScope : Artefact → Bool}
    (hscope : inScope? slow.stage = some inScope) :
    fast.state.hasReached .archiving = true ∨
      (slow.stage = .depositing ∧ fast.stage = .depositing) ∨
      (slow.stage = .priorityDepositing ∧ inScope = (fun a => a.kind.isPriority) ∧
        ∃ wider, inScope? fast.stage = some wider ∧
          ∀ a : Artefact, a.kind.isPriority = true → wider a = true) := by
  have hreached := h.own.reached
  rw [DepositState.hasReached_eq, h.fastCourse.wellFormed.lifecycle] at hreached ⊢
  change Lifecycle.observation.reaches fast.stage slow.stage = true at hreached
  change Lifecycle.observation.reaches fast.stage .archiving = true ∨ _
  unfold inScope? at hscope
  split at hscope
  · next hstage =>
      rw [hstage] at hreached
      refine (Lifecycle.reaches_priorityDepositing_cases hreached).imp_right fun hfast => Or.inr ?_
      rcases hfast with hfast | hfast
      · exact ⟨hstage, (Option.some.inj hscope).symm, _, by rw [hfast]; rfl, fun _ ha => ha⟩
      · exact ⟨hstage, (Option.some.inj hscope).symm, _, by rw [hfast]; rfl, fun _ _ => rfl⟩
  · next hstage =>
      rw [hstage] at hreached
      exact (Lifecycle.reaches_depositing_cases hreached).imp_right fun hfast =>
        Or.inl ⟨hstage, hfast⟩
  · cases hscope

/-- What one call of progress does to a file in the two runs. -/
theorem fileStep (h : Behind o p q slow fast) (hsignals : fewer.Within more)
    (ha : a ∈ o.artefacts) (now later : Timestamp) :
    (fileStep slow.stage slow.artefacts fewer now (p a)).state.Precedes
      (fileStep fast.stage fast.artefacts more later (q a)).state := by
  have hslow := continues_fileStep slow.stage slow.artefacts fewer now (p a)
  have hfast := continues_fileStep fast.stage fast.artefacts more later (q a)
  have hadvances := advances_fileStep fast.stage fast.artefacts more later (q a)
  cases hscope : inScope? slow.stage with
  | none =>
      have hstays : Observation.fileStep slow.stage slow.artefacts fewer now (p a) = p a := by
        simp only [Observation.fileStep, hscope]
      rw [hstays]
      exact h.trans_fast ha (h.files a ha) hfast hadvances
  | some inScope =>
      rcases h.scope_cases hscope with
        hlate | ⟨hstage, hstageFast⟩ | ⟨hstage, rfl, wider, hwider, hin⟩
      · have hdeposited := Artefact.isDeposited_of_advances hadvances
          (h.fastCourse.files _ (h.mem_fast ha)) (h.fastCourse.archived hlate _ (h.mem_fast ha))
        exact h.precedes_of_isDeposited ha hslow
          (advances_fileStep slow.stage slow.artefacts fewer now (p a)) hfast hdeposited
      · have hdepositing := h.fileStep_depositing hsignals ha hstageFast now later
        rwa [hstage, hstageFast]
      · have hchild : Observation.fileStep slow.stage slow.artefacts fewer now (p a) =
            Observation.childStep slow.artefacts (fun a => a.kind.isPriority) fewer now (p a) := by
          rw [hstage]
          rfl
        have hkind : (q a).kind = (p a).kind :=
          (h.fastMoves.files a ha).kind.trans (h.slowMoves.files a ha).kind.symm
        rw [hchild]
        refine h.trans_fileStep ha hwider (h.childStep hsignals ha (fun hpriority => ?_) now later)
        exact hin (q a) (by rwa [hkind])

/-- What the observation itself sees around it in the two runs. -/
theorem ownSurroundings_precedes {artefacts : List Artefact} {f g : Artefact → Artefact}
    (hf : ∀ a ∈ artefacts, a.Continues (f a)) (hg : ∀ a ∈ artefacts, a.Continues (g a))
    (hfiles : ∀ a ∈ artefacts, (f a).state.Precedes (g a).state)
    (hsignals : fewer.Within more) :
    (ownSurroundings (artefacts.map f) fewer).Precedes
      (ownSurroundings (artefacts.map g) more) where
  signals := hsignals
  children := DepositState.allPreceded_images (p := fun _ => true) hfiles (fun _ _ => rfl)
    (fun _ ha _ => List.mem_map_of_mem ha) fun _ hb => ⟨hb, rfl⟩
  priorityChildren := by
    refine DepositState.allPreceded_images (p := fun a => a.kind.isPriority) hfiles
      (fun a ha => ?_) (fun a ha hpriority => ?_) fun b hb => List.mem_filter.mp hb
    · rw [(hf a ha).kind, (hg a ha).kind]
    · exact List.mem_filter.mpr ⟨List.mem_map_of_mem ha, hpriority⟩
  encapsulation s hs := nomatch hs

/-- A call of progress in each run. -/
theorem progress (h : Behind o p q slow fast) (hsignals : fewer.Within more)
    (now later : Timestamp) :
    Behind o (Observation.fileStep slow.stage slow.artefacts fewer now ∘ p)
      (Observation.fileStep fast.stage fast.artefacts more later ∘ q)
      (slow.progress fewer now).1 (fast.progress more later).1 := by
  have hslow := h.slowMoves.trans (moves_progress h.slowCourse.wellFormed fewer now)
  have hfast := h.fastMoves.trans (moves_progress h.fastCourse.wellFormed more later)
  have hfiles := fun a (ha : a ∈ o.artefacts) => h.fileStep hsignals ha now later
  refine ⟨h.base, hslow, hfast, h.slowCourse.progress, h.fastCourse.progress, ?_, hfiles⟩
  rw [state, h.slowCourse.record_progress, DepositRecord.state_replace_progress, hslow.artefacts,
    state, h.fastCourse.record_progress, DepositRecord.state_replace_progress, hfast.artefacts]
  exact h.own.progress (ownSurroundings_precedes hslow.files hfast.files hfiles hsignals)

/-- A simulated job on a file in each run. -/
theorem afterJobs (h : Behind o p q slow fast) (ha : a ∈ o.artefacts) (now later : Timestamp) :
    ((p a).afterJobs now).state.Precedes ((q a).afterJobs later).state := by
  have hfiles := h.files a ha
  have hslow := (p a).continues_afterJobs now
  have hfast := (q a).continues_afterJobs later
  have hslowAdvances := (p a).advances_afterJobs now
  have hfastAdvances := (q a).advances_afterJobs later
  refine .of_ahead_le
    ((hfast.record.lifecycle.trans hfiles.lifecycle).trans hslow.record.lifecycle.symm)
    ((hfast.record.owner.trans hfiles.owner).trans hslow.record.owner.symm)
    (hslowAdvances.isFailed.trans hfiles.isFailed.1)
    (hfastAdvances.isFailed.trans hfiles.isFailed.2) ?_
  change ((q a).afterJobs later).ahead ≤ ((p a).afterJobs now).ahead
  have hslowAhead := (p a).ahead_afterJobs now
  have hfastAhead := (q a).ahead_afterJobs later
  rcases hfiles.stage_eq_or_lt with heq | hlt
  · have hpack : (q a).isPackable = (p a).isPackable := by
      rw [Artefact.isPackable, hfiles.lifecycle, show (q a).stage = (p a).stage from heq]
      rfl
    have hle : (q a).ahead ≤ (p a).ahead := hfiles.ahead_le
    rw [hpack] at hfastAhead
    omega
  · have hlt : (q a).ahead < (p a).ahead := hlt
    split at hslowAhead <;> omega

/-- A round of simulated jobs in each run. -/
theorem packed (h : Behind o p q slow fast) (now later : Timestamp) :
    Behind o ((·.afterJobs now) ∘ p) ((·.afterJobs later) ∘ q)
      (slow.withArtefacts (slow.artefacts.map (·.afterJobs now)))
      (fast.withArtefacts (fast.artefacts.map (·.afterJobs later))) where
  base := h.base
  slowMoves := h.slowMoves.trans (moves_withArtefacts fun b _ => b.continues_afterJobs now)
  fastMoves := h.fastMoves.trans (moves_withArtefacts fun b _ => b.continues_afterJobs later)
  slowCourse := h.slowCourse.packed now
  fastCourse := h.fastCourse.packed later
  own := h.own
  files _ ha := h.afterJobs ha now later

end Behind

/-- The observation after ticks, each with the reports that are in then, up to the first that is
refused. -/
def tickEach (jobs : Bool) :
    List (SignalBoard × Timestamp) → Observation → Except DepositError Observation
  | [], o => .ok o
  | (board, now) :: rest, o =>
      match o.tick board.toSignals jobs now with
      | (_, .error e) => .error e
      | (o, .ok _) => tickEach jobs rest o

/-- The observation after a tick on course, with simulated jobs or without. -/
def afterTickWith (jobs : Bool) (o : Observation) (signals : Signals) (now : Timestamp) :
    Observation :=
  if jobs then o.afterTick signals now else (o.progress signals now).1

theorem OnCourse.tick_eq_afterTickWith {o : Observation} (h : o.OnCourse) (signals : Signals)
    (jobs : Bool) (now : Timestamp) :
    ∃ moved, o.tick signals jobs now = (afterTickWith jobs o signals now, .ok moved) := by
  cases jobs with
  | false => exact ⟨_, rfl⟩
  | true =>
      obtain ⟨moved, htick, _⟩ := h.tick signals now
      exact ⟨moved, htick⟩

/-- A tick in each run. -/
theorem Behind.tick {o slow fast : Observation} {p q : Artefact → Artefact} {fewer more : Signals}
    (h : Behind o p q slow fast) (hsignals : fewer.Within more) (jobs : Bool)
    (now later : Timestamp) :
    ∃ p' q', Behind o p' q' (afterTickWith jobs slow fewer now)
      (afterTickWith jobs fast more later) := by
  have hprogress := h.progress hsignals now later
  cases jobs with
  | false => exact ⟨_, _, hprogress⟩
  | true => exact ⟨_, _, hprogress.packed now later⟩

/-- The boards of two runs: at each tick all that is in for the first is in for the second. -/
def BoardsWithin (slow fast : List (SignalBoard × Timestamp)) : Prop :=
  List.Forall₂ (fun first second =>
    ∀ signal, first.1.isComplete signal = true → second.1.isComplete signal = true) slow fast

theorem Behind.tickEach {o : Observation} {jobs : Bool}
    {slowBoards fastBoards : List (SignalBoard × Timestamp)}
    (hboards : BoardsWithin slowBoards fastBoards) :
    ∀ {p q : Artefact → Artefact} {slow fast : Observation}, Behind o p q slow fast →
      ∃ p' q' slow' fast', tickEach jobs slowBoards slow = .ok slow' ∧
        tickEach jobs fastBoards fast = .ok fast' ∧ Behind o p' q' slow' fast' := by
  induction hboards with
  | nil => exact fun {p q slow fast} h => ⟨p, q, slow, fast, rfl, rfl, h⟩
  | @cons first second _ _ hwithin _ ih =>
      intro p q slow fast h
      have hsignals : first.1.toSignals.Within second.1.toSignals := fun owner stage =>
        hwithin ⟨owner, stage⟩
      obtain ⟨p', q', hnext⟩ := h.tick hsignals jobs first.2 second.2
      obtain ⟨_, hslow⟩ := h.slowCourse.tick_eq_afterTickWith first.1.toSignals jobs first.2
      obtain ⟨_, hfast⟩ := h.fastCourse.tick_eq_afterTickWith second.1.toSignals jobs second.2
      simp only [Observation.tickEach, hslow, hfast]
      exact ih hnext

/-- The second observation has the files of the first, and stands with each of them and itself at
the same place or further. -/
structure NowhereAhead (slow fast : Observation) : Prop where
  own : fast.state.lifecycle = slow.state.lifecycle ∧ fast.state.hasReached slow.stage = true
  files : List.Forall₂ (fun a b => b.id = a.id ∧ b.filename = a.filename ∧
    b.state.lifecycle = a.state.lifecycle ∧ b.state.hasReached a.stage = true)
    slow.artefacts fast.artefacts

theorem Behind.nowhereAhead {o slow fast : Observation} {p q : Artefact → Artefact}
    (h : Behind o p q slow fast) : NowhereAhead slow fast where
  own := ⟨h.own.lifecycle, h.own.reached⟩
  files := by
    rw [h.slowMoves.artefacts, h.fastMoves.artefacts, List.forall₂_map_left_iff,
      List.forall₂_map_right_iff, List.forall₂_same]
    intro a ha
    have hslow := h.slowMoves.files a ha
    have hfast := h.fastMoves.files a ha
    exact ⟨hfast.id.trans hslow.id.symm, hfast.filename.trans hslow.filename.symm,
      (h.files a ha).lifecycle, (h.files a ha).reached⟩

/-- Of two runs from one observation on course, the second of which has at every tick all reports
that are in for the first, neither is refused, and the first is nowhere ahead after any tick. -/
theorem OnCourse.tickEach_nowhereAhead {o : Observation} (h : o.OnCourse) (jobs : Bool)
    {slowBoards fastBoards : List (SignalBoard × Timestamp)}
    (hboards : BoardsWithin slowBoards fastBoards) (n : Nat) :
    ∃ slow fast, tickEach jobs (slowBoards.take n) o = .ok slow ∧
      tickEach jobs (fastBoards.take n) o = .ok fast ∧ NowhereAhead slow fast := by
  have hfirst : BoardsWithin (slowBoards.take n) (fastBoards.take n) := List.forall₂_take n hboards
  obtain ⟨_, _, slow, fast, hslow, hfast, hbehind⟩ := Behind.tickEach hfirst (Behind.refl h)
  exact ⟨slow, fast, hslow, hfast, hbehind.nowhereAhead⟩

/-- A cube whose processing is reported in one of two runs only. -/
theorem tickEach_nowhereAhead_reported :
    ∃ (o slow fast : Observation) (slowBoards fastBoards : List (SignalBoard × Timestamp)),
      o.OnCourse ∧ BoardsWithin slowBoards fastBoards ∧
        tickEach true slowBoards o = .ok slow ∧ tickEach true fastBoards o = .ok fast ∧
        slow.artefacts.map Artefact.stage = [.processing] ∧
        fast.artefacts.map Artefact.stage = [.processed] ∧ NowhereAhead slow fast := by
  let m : Manifest := { sbid := 7, entries := [⟨.imageCube, "i", none⟩] }
  let now := Timestamp.ofUnixSeconds 0
  let board : SignalBoard :=
    Ascending.empty.insert ⟨.artefact (some (.observation ⟨7⟩)) "i", .processing⟩
  let slowBoards : List (SignalBoard × Timestamp) := List.replicate 4 (Ascending.empty, now)
  let fastBoards : List (SignalBoard × Timestamp) := List.replicate 4 (board, now)
  have hboards : BoardsWithin slowBoards fastBoards := by
    have hwithin : ∀ signal : Signal,
        SignalBoard.isComplete Ascending.empty signal = true → board.isComplete signal = true :=
      fun signal hnone => Bool.noConfusion (show false = true from hnone)
    exact .cons hwithin (.cons hwithin (.cons hwithin (.cons hwithin .nil)))
  have hbuilt : (m.build .standard).toOption.map (fun o =>
      ((tickEach true slowBoards o).toOption.map (·.artefacts.map Artefact.stage),
        (tickEach true fastBoards o).toOption.map (·.artefacts.map Artefact.stage))) =
      some (some [.processing], some [.processed]) := by
    decide +kernel
  cases hbuild : m.build .standard with
  | error e =>
      rw [hbuild] at hbuilt
      cases hbuilt
  | ok o =>
      rw [hbuild] at hbuilt
      obtain ⟨hslowStages, hfastStages⟩ := Prod.mk.inj (Option.some.inj hbuilt)
      have hcourse := Manifest.onCourse_of_build hbuild
      obtain ⟨slow, fast, hslow, hfast, hnowhere⟩ :=
        hcourse.tickEach_nowhereAhead true hboards 4
      change tickEach true slowBoards o = .ok slow at hslow
      change tickEach true fastBoards o = .ok fast at hfast
      rw [hslow] at hslowStages
      rw [hfast] at hfastStages
      exact ⟨o, slow, fast, slowBoards, fastBoards, hcourse, hboards, hslow, hfast,
        Option.some.inj hslowStages, Option.some.inj hfastStages, hnowhere⟩

end Observation

end Monotonicity

end ArchiveDeposit

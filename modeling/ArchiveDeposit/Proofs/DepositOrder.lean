import ArchiveDeposit.Proofs.OneStep

/-!
# The order of deposits

A packed file is to be deposited with its encapsulation, not before it.  Steps see to that: no step
of its own takes a packed file to its deposit.  So do reports on the encapsulation, which wait for
every packed file and then take it along.  A report that names the packed file itself waits for
nothing.  It alone can break the order, and it does so whenever the encapsulation is not deposited.

**Results.**
* `Observation.takesAlong_afterCommit`, `Observation.takesAlong_fileStep`: what files deposit
  together in the change that a job reports and in a call of progress.
* `Observation.InOrder.perform`: every operation but such a report keeps the order.
* `Observation.inOrder_iff`: the order holds as long as there is no such report, and no longer.
-/

namespace ArchiveDeposit

section DepositOrder

namespace Observation

open Encapsulation

variable {o o' : Observation} {f : Artefact → Artefact} {parent : Parent}
  {artefacts : List Artefact} {now : Timestamp} {operation : Operation}

/-- No packed file is deposited before its encapsulation, both seen through failures. -/
def InOrder (o : Observation) : Prop :=
  ∀ file member, Holds o.artefacts file member →
    member.record.effectiveStage = .deposited → file.record.effectiveStage = .deposited

/-- A report that a packed file is deposited while its encapsulation is not. -/
def DepositsAhead (o : Observation) (operation : Operation) : Prop :=
  ∃ file member, Holds o.artefacts file member ∧
    operation = .setArtefactStage member.id .deposited ∧ member.isFailed = false ∧
      file.record.effectiveStage ≠ .deposited

/-- A change of files that deposits packed files only with their encapsulations. -/
def TakesAlong (artefacts : List Artefact) (f : Artefact → Artefact) : Prop :=
  ∀ file member, Holds artefacts file member →
    (f member).record.effectiveStage = .deposited →
      member.record.effectiveStage = .deposited ∨ (f file).record.effectiveStage = .deposited

theorem InOrder.moves (h : o.InOrder) (hsound : o.Sound) (hm : o.Moves f o')
    (htakes : TakesAlong o.artefacts f) : o'.InOrder := by
  intro file member hholds hdeposited
  rw [hm.artefacts] at hholds
  obtain ⟨a, b, hab, rfl, rfl⟩ := hholds.of_map hm.files
  rcases htakes a b hab hdeposited with hbefore | hnow
  · have hfile := h a b hab hbefore
    exact (hm.files a hab.mem_file).record.deposited (hsound.files a hab.mem_file) hfile
  · exact hnow

theorem InOrder.of_artefacts_eq (h : o.InOrder) (heq : o'.artefacts = o.artefacts) :
    o'.InOrder := by
  intro file member hholds
  rw [heq] at hholds
  exact h file member hholds

/-- The change of one file, and of its packed members with it if it is deposited. -/
theorem takesAlong_afterCommit (hs : Siblings parent artefacts) {a : Artefact}
    (ha : a ∈ artefacts) {change : Artefact × Option Transition} {deposits : Bool}
    (hself : ∀ file, Holds artefacts file a → change.1.record.effectiveStage = .deposited →
      a.record.effectiveStage = .deposited ∨ file.record.effectiveStage = .deposited)
    (hdeposits : deposits = true → change.1.record.effectiveStage = .deposited)
    (now : Timestamp) : TakesAlong artefacts (afterCommit a.id change deposits now) := by
  intro file member hholds hdeposited
  by_cases hmember : member.id = a.id
  · have hsame := hs.arranged.eq_of_id hholds.mem_member ha hmember
    subst hsame
    have hne := (hholds.id_ne hs).symm
    have hnone := ((hs.belongs file hholds.mem_file).of_isEncapsulation
      (hholds.isEncapsulation hs)).1
    rw [show afterCommit member.id change deposits now file = file by
      simp [afterCommit, hne, hnone]]
    rw [show afterCommit member.id change deposits now member = change.1 by
      simp [afterCommit]] at hdeposited
    exact hself file hholds hdeposited
  · rw [afterCommit, if_neg hmember] at hdeposited
    split at hdeposited
    · next htaken =>
        simp only [Bool.and_eq_true, beq_iff_eq] at htaken
        have hid := Option.some.inj (hholds.encapsulation.symm.trans htaken.2)
        right
        rw [afterCommit, if_pos hid]
        exact hdeposits htaken.1.1
    · exact Or.inl hdeposited

/-- A change of an encapsulation, and of its packed members with it if it is deposited. -/
theorem takesAlong_afterCommit_of_isEncapsulation (hs : Siblings parent artefacts)
    {a : Artefact} (ha : a ∈ artefacts) (hkind : a.isEncapsulation = true)
    {change : Artefact × Option Transition} {deposits : Bool}
    (hdeposits : deposits = true → change.1.record.effectiveStage = .deposited)
    (now : Timestamp) : TakesAlong artefacts (afterCommit a.id change deposits now) := by
  refine takesAlong_afterCommit hs ha (fun file hholds => ?_) hdeposits now
  rw [hholds.member_isEncapsulation hs] at hkind
  cases hkind

/-- The own step of a packed file is never its deposit. -/
theorem effectiveStage_childStep (hs : Siblings parent artefacts) {file member : Artefact}
    (hholds : Holds artefacts file member) (inScope : Artefact → Bool) (signals : Signals)
    (now : Timestamp)
    (hdeposited : (childStep artefacts inScope signals now member).record.effectiveStage =
      .deposited) : member.record.effectiveStage = .deposited := by
  unfold childStep at hdeposited
  split at hdeposited
  · rcases member.progress_cases (childSurroundings artefacts signals member) now with
      hsame | ⟨step, hstep, hpermit, _, _, htarget⟩
    · rwa [hsame] at hdeposited
    · have hmem : step ∈ Lifecycle.encapsulated.steps := by
        rw [← hholds.member_lifecycle hs]
        exact List.mem_of_find?_eq_some hstep
      have hgate := (Lifecycle.encapsulated_gates step hmem).2 (htarget.symm.trans hdeposited)
      simp [Surroundings.permits, Surroundings.opens, hgate] at hpermit
  · exact hdeposited

theorem takesAlong_fileStep (hs : Siblings parent artefacts) (stage : Stage) (signals : Signals)
    (now : Timestamp) : TakesAlong artefacts (fileStep stage artefacts signals now) := by
  intro file member hholds hdeposited
  by_cases hstage : stage = .depositing
  · subst hstage
    rw [hholds.fileStep_depositing hs] at hdeposited
    split at hdeposited
    · next hdeposits =>
        right
        simp only [deposits, Bool.and_eq_true, beq_iff_eq] at hdeposits
        rw [fileStep_depositing_of_isEncapsulation hholds.mem_file (hholds.isEncapsulation hs)]
        exact DepositRecord.effectiveStage_of_stage_deposited hdeposits.2
    · exact Or.inl (effectiveStage_childStep hs hholds _ signals now hdeposited)
  · left
    unfold fileStep at hdeposited
    split at hdeposited
    · exact hdeposited
    · rw [if_neg hstage] at hdeposited
      exact effectiveStage_childStep hs hholds _ signals now hdeposited

theorem takesAlong_afterJobs (artefacts : List Artefact) (now : Timestamp) :
    TakesAlong artefacts (·.afterJobs now) := by
  intro file member hholds hdeposited
  left
  simp only [Artefact.afterJobs] at hdeposited
  split at hdeposited
  · next hpack =>
      have hstage : (member.packed now).record.state.stage = .encapsulating :=
        Artefact.stage_packed hpack now
      have hnot : (member.packed now).record.isFailed = false := by
        rw [DepositRecord.isFailed, DepositState.isFailed, hstage]
        decide
      rw [DepositRecord.effectiveStage_of_not_failed hnot, hstage] at hdeposited
      cases hdeposited
  · exact hdeposited

theorem Stays.takesAlong (h : o.Stays f o') (hsound : o.Sound) : TakesAlong o.artefacts f := by
  intro file member hholds hdeposited
  left
  rwa [(h.files member hholds.mem_member).effectiveStage
    (hsound.files member hholds.mem_member)] at hdeposited

theorem InOrder.push (h : o.InOrder) (hsound : o.Sound) {kind : Kind} {filename : String}
    {encapsulation : Option ArtefactId} {id : ArtefactId}
    (hpacked : ∀ id, encapsulation = some id →
      ∃ file ∈ o.artefacts, file.id = id ∧ file.isEncapsulation = true)
    (hok : o.push .standard kind filename encapsulation = .ok (o', id)) : o'.InOrder := by
  intro file member hholds hdeposited
  rcases holds_push_cases hsound hpacked hok hholds with hold | ⟨_, _, owner, hrecord⟩
  · exact h file member hold hdeposited
  · rw [hrecord] at hdeposited
    cases hdeposited

/-- A report on a file keeps the order unless it deposits a packed file ahead. -/
theorem InOrder.setArtefactStage (h : o.InOrder) (hsound : o.Sound) {id : ArtefactId}
    {stage : Stage} {log : List Transition}
    (hallowed : ¬ o.DepositsAhead (.setArtefactStage id stage))
    (hok : o.setArtefactStage id stage now = .ok (o', log)) : o'.InOrder := by
  have hwf := hsound.wellFormed
  obtain ⟨a, ha, rfl, change, hadvance, rfl, _⟩ := setArtefactStage_spec hwf.files hok
  have heffective := Artefact.effectiveStage_advance hadvance
  apply h.moves hsound (moves_afterCommit hwf ha (Artefact.continues_advance hadvance) _ now)
  apply takesAlong_afterCommit hwf.files ha
  · intro file hholds hdeposited
    by_contra hahead
    obtain ⟨hmember, hfile⟩ := not_or.mp hahead
    rw [heffective] at hdeposited
    split at hdeposited
    · exact hmember hdeposited
    · next hnotFailure =>
        subst hdeposited
        obtain ⟨changed, hchanged, rfl⟩ := eq_ok_of_map hadvance
        obtain ⟨next, hnext, rfl⟩ := eq_ok_of_map hchanged
        rcases (DepositRecord.advanceTo_cases hnext).2.2.2 with hsame | hfailure | ⟨hnot, _⟩
        · exact hmember (DepositRecord.effectiveStage_of_stage_deposited hsame.symm)
        · exact hnotFailure hfailure
        · exact hallowed ⟨file, a, hholds, rfl, hnot, hfile⟩
  · intro hdeposits
    simp only [Bool.and_eq_true, beq_iff_eq] at hdeposits
    rw [heffective, hdeposits.2]
    rfl

theorem InOrder.setEncapsulationStage (h : o.InOrder) (hsound : o.Sound) {id : ArtefactId}
    {stage : Stage} {artefacts : List Artefact} {log : List Transition}
    (hok : setStage o.artefacts id stage now = .ok (artefacts, log)) :
    (o.withArtefacts artefacts).InOrder := by
  have hwf := hsound.wellFormed
  cases hfind : find? o.artefacts id with
  | none =>
      simp only [setStage, hfind, Except.ok.injEq, Prod.mk.injEq] at hok
      exact h.of_artefacts_eq hok.1.symm
  | some found =>
      obtain ⟨ha, rfl, _, hkind⟩ := hwf.files.arranged.mem_of_find? hfind
      obtain ⟨change, hadvance, rfl, _⟩ := setStage_spec hwf.files ha hkind hok
      apply h.moves hsound (moves_afterCommit hwf ha (Artefact.continues_advance hadvance) _ now)
      apply takesAlong_afterCommit_of_isEncapsulation hwf.files ha hkind
      intro hdeposits
      rw [Artefact.effectiveStage_advance hadvance, beq_iff_eq.mp hdeposits]
      rfl

theorem InOrder.progressEncapsulation (h : o.InOrder) (hsound : o.Sound) (id : ArtefactId)
    (signals : Signals) (now : Timestamp) :
    (o.withArtefacts (Encapsulation.progress o.artefacts id signals now).1).InOrder := by
  have hwf := hsound.wellFormed
  cases hfind : find? o.artefacts id with
  | none =>
      apply h.of_artefacts_eq
      simp [Encapsulation.progress, hfind, withArtefacts]
  | some found =>
      obtain ⟨ha, rfl, _, hkind⟩ := hwf.files.arranged.mem_of_find? hfind
      rw [hwf.files.arranged.progress_fst ha hkind signals now]
      apply h.moves hsound (moves_afterCommit hwf ha (continues_step ..) _ now)
      apply takesAlong_afterCommit_of_isEncapsulation hwf.files ha hkind
      intro hdeposits
      simp only [deposits, Bool.and_eq_true, beq_iff_eq] at hdeposits
      exact DepositRecord.effectiveStage_of_stage_deposited hdeposits.2

/-- A report on the file of an encapsulation alone deposits no packed file. -/
theorem InOrder.advanceEncapsulation (h : o.InOrder) (hsound : o.Sound) {id : ArtefactId}
    {stage : Stage} {artefacts : List Artefact} {log : List Transition}
    (hok : changeFile o.artefacts id (·.advance stage now) now = .ok (artefacts, log)) :
    (o.withArtefacts artefacts).InOrder := by
  have hwf := hsound.wellFormed
  rcases changeFile_spec hwf.files (Artefact.reports_advance stage now) hok with
    rfl | ⟨a, ha, rfl, hkind, changed, hchanged, rfl⟩
  · exact h
  · apply h.moves hsound
      (moves_afterCommit hwf ha (Artefact.continues_advance hchanged) false now)
    apply takesAlong_afterCommit_of_isEncapsulation hwf.files ha hkind
    intro hfalse
    cases hfalse

/-- Every operation keeps the order unless it deposits a packed file ahead. -/
theorem InOrder.perform (h : o.InOrder) (hsound : o.Sound)
    (hallowed : ¬ o.DepositsAhead operation) (now : Timestamp) :
    (o.perform operation now).1.InOrder := by
  have hwf := hsound.wellFormed
  have hadded : operation.adds = true → (o.perform operation now).1.InOrder := by
    intro hadds
    rcases perform_adds_cases hwf hadds now with hrefused | ⟨_, _, _, _, hpacked, hok⟩
    · rw [hrefused]
      exact h
    · exact h.push hsound hpacked hok
  have hrecovered : operation.recovers = true → (o.perform operation now).1.InOrder := by
    intro hrecovers
    obtain ⟨f, hstays⟩ := perform_stays hsound hrecovers now
    exact h.moves hsound hstays.moves (hstays.takesAlong hsound)
  cases operation with
  | add kind filename | addEncapsulated kind filename encapsulation => exact hadded rfl
  | setArtefactStage id stage =>
      exact orRefused_cases h fun o' log hok => h.setArtefactStage hsound hallowed hok
  | advance stage =>
      exact orOwnRefused_cases h fun o' transition hok => h.of_artefacts_eq (advance_spec hok).2.1
  | progress signals =>
      exact h.moves hsound (moves_progress hwf signals now)
        (takesAlong_fileStep hwf.files o.stage signals now)
  | runJobs =>
      exact h.moves hsound (moves_runJobs hwf now) (takesAlong_afterJobs o.artefacts now)
  | setEncapsulationStage id stage =>
      exact orFilesRefused_cases h fun artefacts log hok => h.setEncapsulationStage hsound hok
  | advanceEncapsulation id stage =>
      exact orFilesRefused_cases h fun artefacts log hok =>
        h.advanceEncapsulation hsound hok
  | progressEncapsulation id signals => exact h.progressEncapsulation hsound id signals now
  | recoverEncapsulation id | recoverArtefact filename | recoverAll | recoverOwn =>
      exact hrecovered rfl

/-- A job may report the deposit of whatever has not failed. -/
theorem advanceTo_deposited {s : DepositState} (hnot : s.isFailed = false) :
    ∃ next, s.advanceTo .deposited = .ok next := by
  have haccept : s.lifecycle.accepts .deposited = true := by
    cases s.lifecycle <;> rfl
  unfold DepositState.advanceTo DepositState.rebind DepositState.ofStage
  rw [dif_pos haccept]
  dsimp only
  split
  · exact ⟨_, rfl⟩
  · next hdiff =>
      have hbefore : s.hasReached .deposited = false := by
        rw [Bool.eq_false_iff, DepositState.hasReached_eq, Ne, Lifecycle.reaches_deposited_iff]
        exact fun hsame => hdiff (Or.inl hsame.symm)
      rw [hnot, hbefore]
      exact ⟨_, rfl⟩

/-- A report on a packed file changes no other file. -/
theorem perform_setArtefactStage_of_holds (hs : Siblings o.parent o.artefacts)
    {file member : Artefact} (hholds : Holds o.artefacts file member) {stage : Stage}
    {change : Artefact × Option Transition} (hadvance : member.advance stage now = .ok change) :
    (o.perform (.setArtefactStage member.id stage) now).1 = o.withArtefacts
      (o.artefacts.map fun a => if a.id = member.id then change.1 else a) := by
  have hfind : o.artefact? member.id = some member :=
    (artefact?_eq_some_iff hs).mpr ⟨hholds.mem_member, rfl⟩
  have hok : o.setArtefactStage member.id stage now =
      .ok (o.withArtefacts (o.artefacts.set member.id.index change.1), change.2.toList) := by
    unfold setArtefactStage
    rw [hfind]
    simp only [hholds.member_isEncapsulation hs, Bool.false_eq_true, if_false, hadvance]
    rfl
  rw [Observation.perform, hok, hs.arranged.set_eq_map hholds.mem_member]
  rfl

/-- A report that deposits a packed file ahead is never refused, and breaks the order. -/
theorem DepositsAhead.not_inOrder (hahead : o.DepositsAhead operation) (hsound : o.Sound)
    (now : Timestamp) : ¬ (o.perform operation now).1.InOrder := by
  obtain ⟨file, member, hholds, rfl, hnot, hfile⟩ := hahead
  have hs := hsound.wellFormed.files
  obtain ⟨next, hnext⟩ := advanceTo_deposited (s := member.record.state) hnot
  have hadvance : member.advance .deposited now =
      .ok (member.withChange (member.record.replace next now)) := by
    rw [Artefact.advance, DepositRecord.advance, hnext]
    rfl
  let f := fun a : Artefact =>
    if a.id = member.id then (member.withChange (member.record.replace next now)).1 else a
  have hf : ∀ a ∈ o.artefacts, a.Continues (f a) := by
    intro a ha
    by_cases hid : a.id = member.id
    · rw [show f a = _ from if_pos hid, hs.arranged.eq_of_id ha hholds.mem_member hid]
      exact Artefact.continues_advance hadvance
    · rw [show f a = _ from if_neg hid]
      exact Artefact.Continues.refl a
  have hfileSame : f file = file := if_neg (hholds.id_ne hs).symm
  have hmemberNow : (f member).record.effectiveStage = .deposited := by
    rw [show f member = _ from if_pos rfl]
    exact Artefact.effectiveStage_advance hadvance
  intro horder
  rw [perform_setArtefactStage_of_holds hs hholds hadvance] at horder
  have hdeposited : (f file).record.effectiveStage = .deposited :=
    horder _ _ (hholds.map hf) hmemberNow
  rw [hfileSame] at hdeposited
  exact hfile hdeposited

theorem Reachable.inOrder (h : Reachable (fun o operation => ¬ o.DepositsAhead operation) o) :
    o.InOrder := by
  induction h with
  | new hnew =>
      intro file member hholds
      have hmem := hholds.mem_file
      rw [(sound_new hnew).2.1] at hmem
      cases hmem
  | perform hbefore operation hallowed now ih => exact ih.perform hbefore.sound hallowed now

/-- In a run in which no packed file is reported as deposited ahead of its encapsulation, the order
holds in every state; and in whatever run, such a report is the only operation that breaks it. -/
theorem inOrder_iff {allowed : Observation → Operation → Prop} (h : Reachable allowed o)
    (operation : Operation) (now : Timestamp) :
    ((∀ o operation, allowed o operation → ¬ o.DepositsAhead operation) → o.InOrder) ∧
      (o.InOrder →
        ((o.perform operation now).1.InOrder ↔ ¬ o.DepositsAhead operation)) := by
  refine ⟨fun hallowed => (h.mono hallowed).inOrder, fun horder => ⟨?_, ?_⟩⟩
  · exact fun hafter hahead => hahead.not_inOrder h.sound now hafter
  · exact fun hkept => horder.perform h.sound hkept now

/-- A run to a packed file that is reported as deposited while its encapsulation has not been
started on. -/
theorem depositsAhead_fresh_member :
    ∃ (o : Observation) (operation : Operation) (now : Timestamp),
      Reachable (fun o operation => ¬ o.DepositsAhead operation) o ∧ o.InOrder ∧
        o.DepositsAhead operation ∧ ¬ (o.perform operation now).1.InOrder := by
  let now := Timestamp.ofUnixSeconds 0
  let o := performEach now (fresh ⟨1⟩)
    [.add .encapsulationFile "e", .addEncapsulated .cubelet "m" ⟨0⟩]
  have hadds : ∀ (o : Observation) (operation : Operation), operation.adds = true →
      ¬ o.DepositsAhead operation := by
    rintro o operation hadds ⟨_, _, _, rfl, _⟩
    cases hadds
  have hrun : Reachable (fun o operation => ¬ o.DepositsAhead operation) o :=
    (Reachable.new (new_standard ⟨1⟩)).performEach ⟨hadds _ _ rfl, hadds _ _ rfl, trivial⟩
  have hahead : o.DepositsAhead (.setArtefactStage ⟨1⟩ .deposited) := by
    have hpair : ∃ file ∈ o.artefacts, ∃ member ∈ o.artefacts,
        member.encapsulation = some file.id ∧ member.id = ⟨1⟩ ∧ member.isFailed = false ∧
          file.record.effectiveStage ≠ .deposited := by
      decide +kernel
    obtain ⟨file, hfile, member, hmember, henc, hid, hnot, hdeposited⟩ := hpair
    exact ⟨file, member, ⟨hfile, hmember, henc⟩, by rw [hid], hnot, hdeposited⟩
  obtain ⟨hkeeps, hbreaks⟩ := inOrder_iff hrun (.setArtefactStage ⟨1⟩ .deposited) now
  have horder := hkeeps fun _ _ hallowed => hallowed
  exact ⟨o, .setArtefactStage ⟨1⟩ .deposited, now, hrun, horder, hahead,
    fun hafter => (hbreaks horder).mp hafter hahead⟩

end Observation

end DepositOrder

end ArchiveDeposit

import ArchiveDeposit.Proofs.Integrity

/-!
# What the report of a job comes to

A stage that a job reports for a file is refused for one of four causes, which are looked for in a
fixed order: no file has the number; the stage is foreign to the lifecycle of the file; it would
take the file back, or out of a failure; a member of the encapsulation that is to be deposited is
not packed yet.  Otherwise the file is in the stage that was reported.  No other file changes, except
that an encapsulation which comes to be deposited takes its packed members along.

All of this is read off one equation: the report is decided by the file and, where an encapsulation
is to be deposited, by its members, and then changes the files one by one.

**Results.**
* `Artefact.advance_eq_error_iff`: when a file refuses a stage.
* `Observation.setArtefactStage_eq`: a report as what becomes of the file and of each other one.
* `Observation.report_exactly`: the causes of a refusal, and all that a report changes.
-/

namespace ArchiveDeposit

section JobReport

theorem map_eq_error_iff {ε α β : Type} {result : Except ε α} {f : α → β} {e : ε} :
    result.map f = .error e ↔ result = .error e := by
  cases result <;> simp [Except.map]

/-- When a state refuses a stage, and why. -/
theorem DepositState.advanceTo_eq_error_iff {s : DepositState} {stage : Stage} {e : DepositError} :
    s.advanceTo stage = .error e ↔
      s.lifecycle.accepts stage = false ∧ e = .foreignStage s.lifecycle stage ∨
        s.lifecycle.accepts stage = true ∧ stage.isFailure = false ∧ stage ≠ s.stage ∧
          (s.isFailed = true ∨ s.hasReached stage = true) ∧
            e = .regression s.owner s.stage stage := by
  unfold advanceTo rebind ofStage
  by_cases haccepts : s.lifecycle.accepts stage = true
  · have hforeign : ¬ s.lifecycle.accepts stage = false := by simp [haccepts]
    rw [dif_pos haccepts]
    dsimp only
    split
    · next hallowed =>
        constructor
        · rintro ⟨⟩
        · rintro (⟨hno, _⟩ | ⟨_, hnot, hne, _⟩)
          · exact absurd hno hforeign
          · rcases hallowed with hsame | hfailure
            · exact absurd hsame hne
            · rw [hnot] at hfailure
              cases hfailure
    · next hallowed =>
        obtain ⟨hne, hnot⟩ := not_or.mp hallowed
        rw [← Bool.or_eq_true]
        split
        · next hback =>
            refine ⟨fun h => Or.inr ⟨haccepts, by simpa using hnot, hne, hback, ?_⟩, ?_⟩
            · exact (Except.error.inj h).symm
            · rintro (⟨hno, _⟩ | ⟨_, _, _, _, rfl⟩)
              · exact absurd hno hforeign
              · rfl
        · next hback =>
            constructor
            · rintro ⟨⟩
            · rintro (⟨hno, _⟩ | ⟨_, _, _, hyes, _⟩)
              · exact absurd hno hforeign
              · exact absurd hyes hback
  · rw [dif_neg haccepts]
    rw [Bool.not_eq_true] at haccepts
    simp only [haccepts, Except.error.injEq, eq_comm (a := e), true_and, Bool.false_eq_true,
      false_and, or_false]

namespace DepositRecord

variable {r : DepositRecord} {next : DepositState}

/-- A sound record has its effective stage as its checkpoint while it is failed. -/
theorem Sound.checkpoint_eq (hr : r.Sound) :
    r.checkpoint = if r.isFailed then some r.effectiveStage else none := by
  have hkept := hr.checkpoint
  cases hcheckpoint : r.checkpoint with
  | none =>
      rw [hcheckpoint, Option.isSome_none] at hkept
      rw [← hkept, if_neg Bool.false_ne_true]
  | some stage =>
      rw [hcheckpoint, Option.isSome_some] at hkept
      rw [← hkept, if_pos rfl, effectiveStage, if_pos hkept.symm, recoveryStage, hcheckpoint,
        Option.getD_some]

/-- The checkpoint after a change: where the owner stood, if it is failed now. -/
theorem Sound.checkpoint_replace (hr : r.Sound) (hl : next.lifecycle = r.state.lifecycle)
    (now : Timestamp) :
    (r.replace next now).1.checkpoint = if next.isFailed then some r.effectiveStage else none := by
  rw [(hr.replace hl now).checkpoint_eq, isFailed, DepositState.isFailed, stage_replace,
    effectiveStage_replace hl]
  exact ite_congr rfl (fun hfail => congrArg some (if_pos hfail)) fun _ => rfl

/-- A failure is counted unless it is the one that the owner is in already. -/
theorem failureCount_replace_eq (r : DepositRecord) (next : DepositState) (now : Timestamp) :
    (r.replace next now).1.failureCount =
      if next.isFailed = true ∧ next.stage ≠ r.state.stage then r.failureCount + 1
      else r.failureCount := by
  by_cases hsame : next.stage = r.state.stage
  · rw [replace_of_stage_eq hsame, if_neg fun h => h.2 hsame]
  · rw [replace_of_stage_ne hsame]
    exact ite_congr (propext (and_iff_left hsame).symm) (fun _ => rfl) fun _ => rfl

end DepositRecord

namespace Artefact

variable {a b : Artefact} {stage : Stage} {now : Timestamp} {e : DepositError}

/-- Why a file refuses a stage that is reported for it. -/
inductive Refuses (a : Artefact) (stage : Stage) : DepositError → Prop
  /-- The stage does not belong to the lifecycle of the file. -/
  | foreign (h : a.state.lifecycle.accepts stage = false) :
      a.Refuses stage (.foreignStage a.state.lifecycle stage)
  /-- It is neither a failure nor the present stage, and the file is failed, or stands there or
  further on. -/
  | regression (haccepts : a.state.lifecycle.accepts stage = true)
      (hnot : stage.isFailure = false) (hne : stage ≠ a.stage)
      (h : a.isFailed = true ∨
        a.state.lifecycle.place stage ≤ a.state.lifecycle.place a.stage) :
      a.Refuses stage (.regression a.state.owner a.stage stage)

/-- Whether a file is short of a stage: it is failed, or stands before it. -/
def isShortOf (a : Artefact) (stage : Stage) : Bool :=
  a.isFailed || decide (a.state.lifecycle.place a.stage < a.state.lifecycle.place stage)

/-- The same file in another stage.  A failure is counted unless the file is in it already, and
notes where the file stood; any other stage leaves no checkpoint. -/
structure Enters (target : Stage) (a b : Artefact) : Prop where
  file : b = a.withRecord b.record
  stage : b.stage = target
  lifecycle : b.state.lifecycle = a.state.lifecycle
  owner : b.state.owner = a.state.owner
  failureCount : b.record.failureCount =
    if target.isFailure = true ∧ target ≠ a.stage then a.record.failureCount + 1
    else a.record.failureCount
  checkpoint : b.record.checkpoint =
    if target.isFailure then some a.record.effectiveStage else none

/-- Whether a report for a file takes another file along: the file is an encapsulation that comes to
be deposited, and the other one of its members, and packed. -/
def TakesAlong (file : Artefact) (stage : Stage) (a : Artefact) : Prop :=
  file.kind = .encapsulationFile ∧ stage = .deposited ∧ file.stage ≠ .deposited ∧
    a.encapsulation = some file.id ∧ a.stage = .encapsulated

instance (file : Artefact) (stage : Stage) (a : Artefact) : Decidable (file.TakesAlong stage a) :=
  inferInstanceAs (Decidable (_ ∧ _))

theorem hasReached_eq_not_isShortOf (hon : a.state.lifecycle.isOnLine stage = true) :
    a.state.hasReached stage = !a.isShortOf stage := by
  cases hfail : a.isFailed with
  | true =>
      have hnot : a.state.hasReached stage = false := by
        cases hreached : a.state.hasReached stage with
        | false => rfl
        | true =>
            have hcontra : a.isFailed = false := DepositState.isFailed_of_hasReached hreached
            rw [hfail] at hcontra
            cases hcontra
      simp [isShortOf, hfail, hnot]
  | false =>
      have hline : a.state.lifecycle.isOnLine a.stage = true := DepositState.isOnLine hfail
      rw [DepositState.hasReached_eq, Bool.eq_iff_iff, Lifecycle.reaches_iff]
      simp only [isShortOf, hfail, Bool.false_or, Bool.not_eq_true', decide_eq_false_iff_not,
        Nat.not_lt]
      exact ⟨fun h => h.2.2, fun h => ⟨hline, hon, h⟩⟩

/-- A file refuses the stages that are foreign to it and those that would take it back or out of a
failure, and no others. -/
theorem advance_eq_error_iff : a.advance stage now = .error e ↔ a.Refuses stage e := by
  rw [advance, map_eq_error_iff, DepositRecord.advance, map_eq_error_iff,
    DepositState.advanceTo_eq_error_iff]
  constructor
  · rintro (⟨haccepts, rfl⟩ | ⟨haccepts, hnot, hne, hback, rfl⟩)
    · exact .foreign haccepts
    · refine .regression haccepts hnot hne (hback.imp_right fun hreached => ?_)
      exact (Lifecycle.reaches_iff.mp hreached).2.2
  · rintro (haccepts | ⟨haccepts, hnot, hne, hback⟩)
    · exact Or.inl ⟨haccepts, rfl⟩
    · refine Or.inr ⟨haccepts, hnot, hne, ?_, rfl⟩
      cases hfail : a.record.state.isFailed with
      | true => exact Or.inl rfl
      | false =>
          have hle := hback.resolve_left fun hyes => by
            rw [isFailed, state, hfail] at hyes
            cases hyes
          exact Or.inr (Lifecycle.reaches_iff.mpr ⟨DepositState.isOnLine hfail,
            Lifecycle.isOnLine_of_accepts haccepts hnot, hle⟩)

/-- What a report makes of the file itself. -/
theorem enters_advance (hr : a.record.Sound) {change : Artefact × Option Transition}
    (h : a.advance stage now = .ok change) :
    a.Enters stage change.1 ∧
      change.2 = if a.stage = stage then none else some ⟨a.state.owner, a.stage, stage, now⟩ := by
  obtain ⟨changed, hadvance, rfl⟩ := eq_ok_of_map h
  obtain ⟨next, hnext, rfl⟩ := eq_ok_of_map hadvance
  obtain ⟨hl, ho, rfl, _⟩ := DepositRecord.advanceTo_cases hnext
  refine ⟨⟨rfl, DepositRecord.stage_replace .., DepositRecord.replace_lifecycle hl now,
    DepositRecord.replace_owner ho now, DepositRecord.failureCount_replace_eq ..,
    hr.checkpoint_replace hl now⟩, ?_⟩
  change (a.record.replace next now).2 = _
  by_cases hsame : next.stage = a.record.state.stage
  · rw [DepositRecord.replace_of_stage_eq hsame, if_pos (show a.stage = _ from hsame.symm)]
  · rw [DepositRecord.replace_of_stage_ne hsame, if_neg fun heq : a.stage = _ => hsame heq.symm, ho]
    rfl

/-- What the deposit of its encapsulation makes of a packed file. -/
theorem enters_depositPacked (hr : a.record.Sound) (hstage : a.stage = .encapsulated)
    (now : Timestamp) :
    a.Enters .deposited (a.depositPacked now).1 ∧
      (a.depositPacked now).2 = some ⟨a.state.owner, .encapsulated, .deposited, now⟩ := by
  have hadvance : a.advance .deposited now = .ok (a.depositPacked now) := by
    rw [depositPacked_eq, if_pos hstage, advance_target (stepFrom?_of_stage_encapsulated hstage)]
    rfl
  obtain ⟨henters, hreport⟩ := enters_advance hr hadvance
  rw [hreport, hstage]
  exact ⟨henters, rfl⟩

end Artefact

namespace Encapsulation

/-- Whether the report of a stage for a file asks its members too: it is an encapsulation, and to be
deposited. -/
def asksMembers (file : Artefact) (stage : Stage) : Bool :=
  file.isEncapsulation && stage == .deposited

/-- The first member that keeps an encapsulation from being deposited. -/
def lagging? (artefacts : List Artefact) (file : Artefact) (stage : Stage) : Option Artefact :=
  if asksMembers file stage then
    (members artefacts file.id).find? fun m => !m.state.hasReached .encapsulated
  else none

/-- What a report makes of the file, or why it is refused. -/
def answer (artefacts : List Artefact) (file : Artefact) (stage : Stage) (now : Timestamp) :
    Except DepositError (Artefact × Option Transition) :=
  match file.advance stage now, lagging? artefacts file stage with
  | .error e, _ => .error e
  | .ok _, some member =>
      .error (.encapsulationNotReady file.filename member.filename member.stage)
  | .ok change, none => .ok change

/-- A report is not refused exactly where the file allows it and no member lags. -/
theorem answer_eq_ok_iff {artefacts : List Artefact} {file : Artefact} {stage : Stage}
    {now : Timestamp} {change : Artefact × Option Transition} :
    answer artefacts file stage now = .ok change ↔
      file.advance stage now = .ok change ∧ lagging? artefacts file stage = none := by
  unfold answer
  cases file.advance stage now with
  | error e => simp
  | ok changed => cases lagging? artefacts file stage <;> simp

/-- The transitions of a change of a file, and of the members that it takes along. -/
def changeLog (artefacts : List Artefact) (file : Artefact) (stage : Stage)
    (change : Artefact × Option Transition) (now : Timestamp) : List Transition :=
  change.2.toList ++
    if asksMembers file stage && change.2.isSome then
      (members artefacts file.id).filterMap fun a => (a.depositPacked now).2
    else []

end Encapsulation

namespace Arranged

open Encapsulation

variable {artefacts : List Artefact} {file : Artefact}

/-- The file of an encapsulation is none of its members, whatever becomes of it. -/
theorem members_set (h : Arranged artefacts) (hfile : file ∈ artefacts) {b : Artefact}
    (hid : b.id = file.id) :
    members (artefacts.set file.id.index b) file.id = members artefacts file.id := by
  rw [h.set_eq_map hfile]
  refine h.members_map (fun a _ => ?_) fun a ha henc => if_neg fun hself => ?_
  · by_cases hself : a.id = file.id
    · simp [Artefact.isMemberOf, hself, hid]
    · rw [if_neg hself]
  · have hmember := (h.isMemberOf_iff ha).mpr henc
    rw [Artefact.isMemberOf, hself, bne_self_eq_false, Bool.false_and] at hmember
    cases hmember

/-- The change of an encapsulation together with its members, and what is reported of it. -/
theorem commit_eq (h : Arranged artefacts) (hfile : file ∈ artefacts)
    {change : Artefact × Option Transition} (hcont : file.Continues change.1)
    (hnone : change.2 = none → change.1 = file) (deposits : Bool) (now : Timestamp) :
    commit artefacts file.id file.id.index change deposits now =
      (artefacts.map (afterCommit file.id change deposits now),
        change.2.toList ++
          if deposits && change.2.isSome then
            (members artefacts file.id).filterMap fun a => (a.depositPacked now).2
          else []) := by
  refine Prod.ext (h.commit_fst hfile hcont hnone deposits now) ?_
  unfold commit
  cases change.2 with
  | none => simp
  | some t =>
      cases deposits with
      | false => rfl
      | true => simp [depositMembers, h.members_set hfile hcont.id]

/-- The report of a stage for an encapsulation is answered for its file, and then committed. -/
theorem setStage_eq (h : Arranged artefacts) (hfile : file ∈ artefacts)
    (hkind : file.isEncapsulation = true) (stage : Stage) (now : Timestamp) :
    setStage artefacts file.id stage now =
      (answer artefacts file stage now).map fun change =>
        commit artefacts file.id file.id.index change (asksMembers file stage) now := by
  have hasks : asksMembers file stage = (stage == .deposited) := by
    rw [asksMembers, hkind, Bool.true_and]
  simp only [setStage, h.find?_of_mem hfile hkind, answer, lagging?, hasks]
  cases file.advance stage now with
  | error e => rfl
  | ok change =>
      cases stage == .deposited with
      | false => rfl
      | true =>
          rw [if_pos rfl]
          cases (members artefacts file.id).find? fun m => !m.state.hasReached .encapsulated <;> rfl

end Arranged

namespace Observation

open Encapsulation

variable {o : Observation} {file : Artefact} {stage : Stage} {now : Timestamp}

/-- What is reported at all is not refused. -/
theorem eq_ok_of_length_reported {result : Except RecoveryError (List Transition)} {n : Nat}
    (h : (reported result).length = n + 1) : ∃ log, result = .ok log ∧ log.length = n + 1 := by
  cases result with
  | ok log => exact ⟨log, rfl, h⟩
  | error e => cases h

/-- A report is decided by the file and, where an encapsulation is to be deposited, by its members;
then each file changes for itself. -/
theorem setArtefactStage_eq {parent : Parent} (h : Siblings parent o.artefacts)
    (hfile : file ∈ o.artefacts) (stage : Stage) (now : Timestamp) :
    o.setArtefactStage file.id stage now =
      (answer o.artefacts file stage now).map fun change =>
        (o.withArtefacts
          (o.artefacts.map (afterCommit file.id change (asksMembers file stage) now)),
          changeLog o.artefacts file stage change now) := by
  have hfound : o.artefact? file.id = some file := (artefact?_eq_some_iff h).mpr ⟨hfile, rfl⟩
  simp only [setArtefactStage, hfound]
  cases hkind : file.isEncapsulation with
  | true =>
      rw [if_pos rfl, h.arranged.setStage_eq hfile hkind]
      cases hanswer : answer o.artefacts file stage now with
      | error e => rfl
      | ok change =>
          have hadvance := (answer_eq_ok_iff.mp hanswer).1
          have hcommit := h.arranged.commit_eq hfile (Artefact.continues_advance hadvance)
            (Artefact.advance_fst_of_snd_eq_none hadvance) (asksMembers file stage) now
          simp only [Except.map, hcommit]
          rfl
  | false =>
      have hasks : asksMembers file stage = false := by rw [asksMembers, hkind, Bool.false_and]
      have hafter : ∀ (change : Artefact × Option Transition) (a : Artefact),
          (if a.id = file.id then change.1 else a) = afterCommit file.id change false now a := by
        intro change a
        simp [afterCommit]
      rw [if_neg Bool.false_ne_true, answer, lagging?, hasks, if_neg Bool.false_ne_true]
      cases file.advance stage now with
      | error e => rfl
      | ok change =>
          simp only [Except.map, h.arranged.set_eq_map hfile, changeLog, hasks, hafter,
            Bool.false_and, Bool.false_eq_true, if_false, List.append_nil]

/-- Why the report of a stage for the file with a number is refused. -/
inductive RefusesReport (o : Observation) (id : ArtefactId) (stage : Stage) : DepositError → Prop
  /-- No file has the number. -/
  | unknown (h : ∀ a ∈ o.artefacts, a.id ≠ id) :
      o.RefusesReport id stage (.unknownArtefact o.parent id)
  /-- The file refuses the stage. -/
  | file {a : Artefact} {e : DepositError} (ha : a ∈ o.artefacts) (hid : a.id = id)
      (h : a.Refuses stage e) : o.RefusesReport id stage e
  /-- The file is an encapsulation that is to be deposited, and members are short of being packed;
  the first of them in child order is named. -/
  | members {a member : Artefact} (ha : a ∈ o.artefacts) (hid : a.id = id)
      (hallowed : ∀ e, ¬ a.Refuses stage e) (hkind : a.kind = .encapsulationFile)
      (hstage : stage = .deposited)
      (hlag : (o.encapsulationMembers id).find? (·.isShortOf .encapsulated) = some member) :
      o.RefusesReport id stage (.encapsulationNotReady a.filename member.filename member.stage)

theorem asksMembers_iff :
    asksMembers file stage = true ↔ file.kind = .encapsulationFile ∧ stage = .deposited := by
  simp [asksMembers, Artefact.isEncapsulation, Kind.isEncapsulation]

/-- The member that keeps an encapsulation from being deposited is the first that is short of being
packed. -/
theorem lagging?_eq_some_iff (h : o.WellFormed) {member : Artefact} :
    lagging? o.artefacts file stage = some member ↔
      (file.kind = .encapsulationFile ∧ stage = .deposited) ∧
        (o.encapsulationMembers file.id).find? (·.isShortOf .encapsulated) = some member := by
  have hview : members o.artefacts file.id = o.encapsulationMembers file.id :=
    h.files.members_eq_filter file.id
  have hshort : ∀ m ∈ o.encapsulationMembers file.id,
      (!m.state.hasReached .encapsulated) = m.isShortOf .encapsulated := by
    intro m hm
    rw [← hview, h.files.arranged.mem_members_iff] at hm
    have hl := ((h.files.belongs m hm.1).of_member (by rw [hm.2, Option.isSome_some])).1
    have hon : m.state.lifecycle.isOnLine .encapsulated = true := by
      rw [hl]
      rfl
    rw [Artefact.hasReached_eq_not_isShortOf hon, Bool.not_not]
  rw [lagging?, ← asksMembers_iff, hview, ← List.head?_filter, ← List.head?_filter,
    List.filter_congr hshort]
  cases asksMembers file stage <;> simp

/-- A report for a file that is there is refused by the file itself, or by its members. -/
theorem answer_eq_error_iff {artefacts : List Artefact} {e : DepositError} :
    answer artefacts file stage now = .error e ↔
      file.Refuses stage e ∨ (∀ e, ¬ file.Refuses stage e) ∧ ∃ member,
        lagging? artefacts file stage = some member ∧
          e = .encapsulationNotReady file.filename member.filename member.stage := by
  have hrefuses : ∀ e, file.Refuses stage e ↔ file.advance stage now = .error e := fun e =>
    Artefact.advance_eq_error_iff.symm
  simp only [answer, hrefuses]
  cases file.advance stage now with
  | error cause => simp
  | ok change =>
      cases lagging? artefacts file stage with
      | none => simp
      | some member => simp [eq_comm]

/-- The causes for which a report is refused, and no others. -/
theorem setArtefactStage_eq_error_iff (h : o.WellFormed) {id : ArtefactId} {e : DepositError} :
    o.setArtefactStage id stage now = .error e ↔ o.RefusesReport id stage e := by
  cases hfound : o.artefact? id with
  | none =>
      have hunknown : ∀ a ∈ o.artefacts, a.id ≠ id := by
        intro a ha hid
        rw [(artefact?_eq_some_iff h.files).mpr ⟨ha, hid⟩] at hfound
        cases hfound
      have hresult : o.setArtefactStage id stage now = .error (.unknownArtefact o.parent id) := by
        simp only [setArtefactStage, hfound]
      rw [hresult]
      constructor
      · rintro ⟨⟩
        exact .unknown hunknown
      · rintro (_ | ⟨ha, hid⟩ | ⟨ha, hid⟩)
        · rfl
        · exact absurd hid (hunknown _ ha)
        · exact absurd hid (hunknown _ ha)
  | some file =>
      obtain ⟨hfile, rfl⟩ := (artefact?_eq_some_iff h.files).mp hfound
      have hself : ∀ a ∈ o.artefacts, a.id = file.id → a = file := fun a ha hid =>
        h.files.arranged.eq_of_id ha hfile hid
      rw [setArtefactStage_eq h.files hfile, map_eq_error_iff, answer_eq_error_iff]
      constructor
      · rintro (hrefuses | ⟨hallowed, member, hlag, rfl⟩)
        · exact .file hfile rfl hrefuses
        · obtain ⟨⟨hkind, hstage⟩, hfirst⟩ := (lagging?_eq_some_iff h).mp hlag
          exact .members hfile rfl hallowed hkind hstage hfirst
      · rintro (hunknown | ⟨ha, hid, hrefuses⟩ | ⟨ha, hid, hallowed, hkind, hstage, hlag⟩)
        · exact absurd rfl (hunknown file hfile)
        · rw [hself _ ha hid] at hrefuses
          exact Or.inl hrefuses
        · rw [hself _ ha hid] at hallowed hkind ⊢
          exact Or.inr ⟨hallowed, _, (lagging?_eq_some_iff h).mpr ⟨⟨hkind, hstage⟩, hlag⟩, rfl⟩

/-- What a report that is not refused makes of an observation, and what it gives back. -/
structure Reported (o : Observation) (file : Artefact) (stage : Stage) (now : Timestamp)
    (o' : Observation) (log : List Transition) : Prop where
  /-- Nothing but the files changes. -/
  own : o' = o.withArtefacts o'.artefacts
  /-- The file is in the stage, the members that it takes along are deposited, and no other file
  changes. -/
  files : List.Forall₂ (fun a b =>
      if a.id = file.id then a.Enters stage b
      else if file.TakesAlong stage a then a.Enters .deposited b
      else b = a) o.artefacts o'.artefacts
  /-- An encapsulation that comes to be deposited is deposited with all its members. -/
  deposits : file.kind = .encapsulationFile → stage = .deposited → file.stage ≠ .deposited →
    ∀ b ∈ o'.artefacts, b.id = file.id ∨ b.encapsulation = some file.id → b.stage = .deposited
  log_eq_nil_iff : log = [] ↔ file.stage = stage
  /-- The file is reported first, and then the members, in child order. -/
  log : file.stage ≠ stage → log = ⟨file.owner, file.stage, stage, now⟩ ::
    ((o.encapsulationMembers file.id).filter fun m => file.TakesAlong stage m).map fun m =>
      ⟨m.owner, .encapsulated, .deposited, now⟩

variable {change : Artefact × Option Transition}

/-- An encapsulation that comes to be deposited, and no other file, takes its members along. -/
theorem opens_iff (hr : file.record.Sound) (hadvance : file.advance stage now = .ok change) :
    (asksMembers file stage && change.2.isSome) = true ↔
      file.kind = .encapsulationFile ∧ stage = .deposited ∧ file.stage ≠ .deposited := by
  rw [Bool.and_eq_true, asksMembers_iff, (Artefact.enters_advance hr hadvance).2, and_assoc]
  refine and_congr_right fun _ => and_congr_right fun hstage => ?_
  rw [hstage]
  split <;> simp_all

/-- What becomes of each file under a report that is not refused. -/
theorem becomes_afterCommit (h : o.Sound) (hfile : file ∈ o.artefacts)
    (hadvance : file.advance stage now = .ok change) {a : Artefact} (ha : a ∈ o.artefacts) :
    let b := afterCommit file.id change (asksMembers file stage) now a
    if a.id = file.id then a.Enters stage b
    else if file.TakesAlong stage a then a.Enters .deposited b
    else b = a := by
  have hr := h.files file hfile
  have hopens := opens_iff hr hadvance
  intro b
  by_cases hself : a.id = file.id
  · have hsame : a = file := h.wellFormed.files.arranged.eq_of_id ha hfile hself
    have hb : b = change.1 := if_pos hself
    rw [if_pos hself, hb, hsame]
    exact (Artefact.enters_advance hr hadvance).1
  · rw [if_neg hself]
    by_cases htakes : file.TakesAlong stage a
    · rw [if_pos htakes]
      obtain ⟨hkind, hstage, hne, henc, hpacked⟩ := htakes
      have hb : b = (a.depositPacked now).1 := by
        simp only [b, afterCommit, if_neg hself, hopens.mpr ⟨hkind, hstage, hne⟩, henc,
          beq_self_eq_true, Bool.and_self, if_true]
      rw [hb]
      exact (Artefact.enters_depositPacked (h.files a ha) hpacked now).1
    · rw [if_neg htakes]
      change (if a.id = file.id then _ else if _ then _ else a) = a
      rw [if_neg hself]
      split
      · next hmember =>
          rw [Bool.and_eq_true, hopens, beq_iff_eq] at hmember
          have hnot : a.stage ≠ .encapsulated := fun hpacked =>
            htakes ⟨hmember.1.1, hmember.1.2.1, hmember.1.2.2, hmember.2, hpacked⟩
          rw [Artefact.depositPacked_eq, if_neg hnot]
      · rfl

/-- The members that are taken along are reported, each once and in child order. -/
theorem filterMap_depositPacked (h : o.Sound) (hkind : file.kind = .encapsulationFile)
    (hstage : stage = .deposited) (hne : file.stage ≠ .deposited) (now : Timestamp) :
    ((members o.artefacts file.id).filterMap fun a => (a.depositPacked now).2) =
      ((o.encapsulationMembers file.id).filter fun m => file.TakesAlong stage m).map fun m =>
        ⟨m.owner, .encapsulated, .deposited, now⟩ := by
  have hview : members o.artefacts file.id = o.encapsulationMembers file.id :=
    h.wellFormed.files.members_eq_filter file.id
  rw [← List.filterMap_eq_map, List.filterMap_filter, ← hview]
  refine List.filterMap_congr fun m hm => ?_
  obtain ⟨hmem, henc⟩ := h.wellFormed.files.arranged.mem_members_iff.mp hm
  have htakes : file.TakesAlong stage m ↔ m.stage = .encapsulated :=
    ⟨fun htakes => htakes.2.2.2.2, fun hpacked => ⟨hkind, hstage, hne, henc, hpacked⟩⟩
  simp only [htakes, decide_eq_true_eq, Function.comp_apply]
  by_cases hpacked : m.stage = .encapsulated
  · rw [(Artefact.enters_depositPacked (h.files m hmem) hpacked now).2, if_pos hpacked,
      (h.wellFormed.files.belongs m hmem).owner]
  · rw [Artefact.depositPacked_eq, if_neg hpacked, if_neg hpacked]

/-- An encapsulation that comes to be deposited leaves no member behind. -/
theorem isDeposited_afterCommit (h : o.Sound) (hfile : file ∈ o.artefacts)
    (hanswer : answer o.artefacts file stage now = .ok change)
    (hkind : file.kind = .encapsulationFile) (hstage : stage = .deposited)
    (hne : file.stage ≠ .deposited) {a : Artefact} (ha : a ∈ o.artefacts)
    (hwithin : a.id = file.id ∨ a.encapsulation = some file.id) :
    (afterCommit file.id change (asksMembers file stage) now a).stage = .deposited := by
  obtain ⟨hadvance, hready⟩ := answer_eq_ok_iff.mp hanswer
  have hopens := (opens_iff (h.files file hfile) hadvance).mpr ⟨hkind, hstage, hne⟩
  by_cases hself : a.id = file.id
  · rw [afterCommit, if_pos hself]
    exact (Artefact.enters_advance (h.files file hfile) hadvance).1.stage.trans hstage
  · have henc := hwithin.resolve_left hself
    have hl := ((h.wellFormed.files.belongs a ha).of_member (by rw [henc, Option.isSome_some])).1
    have hreached : a.state.hasReached .encapsulated = true := by
      rw [lagging?, if_pos (asksMembers_iff.mpr ⟨hkind, hstage⟩), List.find?_eq_none] at hready
      simpa using hready a (h.wellFormed.files.arranged.mem_members_iff.mpr ⟨ha, henc⟩)
    have hdeposited := Artefact.isDeposited_depositPacked hl hreached now
    rw [afterCommit, if_neg hself, hopens, henc, beq_self_eq_true, Bool.and_self, if_pos rfl]
    exact eq_of_beq hdeposited

/-- A report that is not refused changes what it should, and gives back what it changed. -/
theorem reported_of_answer (h : o.Sound) (hfile : file ∈ o.artefacts)
    (hanswer : answer o.artefacts file stage now = .ok change) :
    o.Reported file stage now
      (o.withArtefacts (o.artefacts.map (afterCommit file.id change (asksMembers file stage) now)))
      (changeLog o.artefacts file stage change now) := by
  have hr := h.files file hfile
  have hadvance := (answer_eq_ok_iff.mp hanswer).1
  have hopens := opens_iff hr hadvance
  have hreport := (Artefact.enters_advance hr hadvance).2
  have hlog : file.stage ≠ stage → changeLog o.artefacts file stage change now =
      ⟨file.owner, file.stage, stage, now⟩ ::
        ((o.encapsulationMembers file.id).filter fun m => file.TakesAlong stage m).map fun m =>
          ⟨m.owner, .encapsulated, .deposited, now⟩ := by
    intro hne
    have hhead : change.2.toList = [⟨file.owner, file.stage, stage, now⟩] := by
      rw [hreport, if_neg hne, (h.wellFormed.files.belongs file hfile).owner]
      rfl
    rw [changeLog, hhead]
    refine congrArg (List.cons _) ?_
    by_cases hdeposits : file.kind = .encapsulationFile ∧ stage = .deposited ∧
        file.stage ≠ .deposited
    · rw [if_pos (hopens.mpr hdeposits)]
      exact filterMap_depositPacked h hdeposits.1 hdeposits.2.1 hdeposits.2.2 now
    · rw [if_neg (hopens.not.mpr hdeposits)]
      have hnone : ∀ m ∈ o.encapsulationMembers file.id, ¬ file.TakesAlong stage m :=
        fun m _ htakes => hdeposits ⟨htakes.1, htakes.2.1, htakes.2.2.1⟩
      rw [List.filter_eq_nil_iff.mpr (by simpa using hnone), List.map_nil]
      rfl
  refine ⟨rfl, ?_, ?_, ?_, hlog⟩
  · change List.Forall₂ _ o.artefacts (o.artefacts.map _)
    rw [List.forall₂_map_right_iff, List.forall₂_same]
    exact fun a ha => becomes_afterCommit h hfile hadvance ha
  · intro hkind hstage hne b hb hwithin
    obtain ⟨a, ha, rfl⟩ := List.mem_map.mp hb
    have hcont := h.wellFormed.files.arranged.continues_afterCommit hfile
      (Artefact.continues_advance hadvance) (asksMembers file stage) now a ha
    rw [hcont.id, hcont.encapsulation] at hwithin
    exact isDeposited_afterCommit h hfile hanswer hkind hstage hne ha hwithin
  · constructor
    · intro hnil
      by_contra hne
      rw [hlog hne] at hnil
      cases hnil
    · intro heq
      rw [if_pos heq] at hreport
      simp [changeLog, hreport]

/-- The contract of a report.  It is refused for the causes named, and then changes nothing; it is
granted otherwise, and then changes what it should. -/
theorem report_exactly {allowed : Observation → Operation → Prop} (h : Reachable allowed o)
    (id : ArtefactId) (stage : Stage) (now : Timestamp) :
    (∀ o' e, o.perform (.setArtefactStage id stage) now = (o', .error e) ↔
      o' = o ∧ ∃ cause, e = .refused cause ∧ o.RefusesReport id stage cause) ∧
    ∀ o' log, o.perform (.setArtefactStage id stage) now = (o', .ok log) →
      ∃ file ∈ o.artefacts, file.id = id ∧ o.Reported file stage now o' log := by
  have hsound := h.sound
  have hperform : o.perform (.setArtefactStage id stage) now =
      o.orRefused (o.setArtefactStage id stage now) := rfl
  have hrefused : ∀ cause, o.setArtefactStage id stage now = .error cause ↔
      o.RefusesReport id stage cause := fun cause =>
    setArtefactStage_eq_error_iff hsound.wellFormed
  cases hresult : o.setArtefactStage id stage now with
  | error cause =>
      rw [hperform, hresult]
      refine ⟨fun o' e => ⟨?_, ?_⟩, fun o' log hok => ?_⟩
      · rintro ⟨⟩
        exact ⟨rfl, cause, rfl, (hrefused cause).mp hresult⟩
      · rintro ⟨rfl, other, rfl, hother⟩
        have hsame : cause = other :=
          Except.error.inj (hresult.symm.trans ((hrefused other).mpr hother))
        rw [hsame]
        rfl
      · cases hok
  | ok change =>
      rw [hperform, hresult]
      refine ⟨fun o' e => ⟨?_, ?_⟩, ?_⟩
      · rintro ⟨⟩
      · rintro ⟨_, other, _, hother⟩
        rw [(hrefused other).mpr hother] at hresult
        cases hresult
      · rintro o' log ⟨⟩
        obtain ⟨file, hfile, rfl⟩ : ∃ file ∈ o.artefacts, file.id = id := by
          by_contra hnone
          have hunknown : o.RefusesReport id stage (.unknownArtefact o.parent id) :=
            .unknown fun a ha hid => hnone ⟨a, ha, hid⟩
          rw [(hrefused _).mpr hunknown] at hresult
          cases hresult
        rw [setArtefactStage_eq hsound.wellFormed.files hfile] at hresult
        obtain ⟨changed, hanswer, rfl⟩ := eq_ok_of_map hresult
        exact ⟨file, hfile, rfl, reported_of_answer hsound hfile hanswer⟩

/-- A run in which two encapsulations are reported as deposited: the one whose member is packed takes
it along, and the other is refused for its member. -/
theorem report_deposits_packed :
    ∃ (o o' : Observation) (now : Timestamp) (log : List Transition),
      Reachable (fun _ _ => True) o ∧
      o.perform (.setArtefactStage ⟨0⟩ .deposited) now = (o', .ok log) ∧ log.length = 2 ∧
        (∃ file ∈ o.artefacts, file.id = ⟨0⟩ ∧ o.Reported file .deposited now o' log) ∧
      o.perform (.setArtefactStage ⟨2⟩ .deposited) now =
          (o, .error (.refused (.encapsulationNotReady "f" "n" .undeposited))) ∧
        o.RefusesReport ⟨2⟩ .deposited (.encapsulationNotReady "f" "n" .undeposited) := by
  let now := Timestamp.ofUnixSeconds 0
  let o := performEach now (fresh ⟨1⟩)
    [.add .encapsulationFile "e", .addEncapsulated .cubelet "m" ⟨0⟩, .add .encapsulationFile "f",
      .addEncapsulated .cubelet "n" ⟨2⟩, .setArtefactStage ⟨1⟩ .encapsulated]
  have hrun : Reachable (fun _ _ => True) o :=
    (Reachable.new (new_standard ⟨1⟩)).performEach
      ⟨trivial, trivial, trivial, trivial, trivial, trivial⟩
  have hlog : (reported (o.perform (.setArtefactStage ⟨0⟩ .deposited) now).2).length = 2 := by
    decide +kernel
  have herror : (o.perform (.setArtefactStage ⟨2⟩ .deposited) now).2 =
      .error (.refused (.encapsulationNotReady "f" "n" .undeposited)) := by
    decide +kernel
  clear_value o
  have hgranted := (report_exactly hrun ⟨0⟩ .deposited now).2
  have hrefused := (report_exactly hrun ⟨2⟩ .deposited now).1
  obtain ⟨hsame, cause, hcause, hlagging⟩ := (hrefused _ _).mp (Prod.ext rfl herror)
  cases hcause
  obtain ⟨log, hresult, hlength⟩ := eq_ok_of_length_reported hlog
  exact ⟨o, _, now, log, hrun, Prod.ext rfl hresult, hlength, hgranted _ _ (Prod.ext rfl hresult),
    Prod.ext hsame herror, hlagging⟩

end Observation

end JobReport

end ArchiveDeposit

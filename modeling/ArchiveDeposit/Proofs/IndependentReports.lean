import ArchiveDeposit.Proofs.JobReport

/-!
# Reports of different jobs commute

The jobs on the files of an observation report on their own, and in any order.  Two reports for
different files come to the same, whichever is made first: the observation is the same in the end,
and each job is told the same.  The one exception is an encapsulation that is to be deposited and one
of its own members.

A report touches the file that it is for and, where an encapsulation is to be deposited, its members.
What it does not touch it does not change; and what it does is decided by what it touches.  So two
reports that touch nothing in common are made of the same changes in either order.

**Results.**
* `Observation.perform_report`: a report as one change of each file, whether it is refused or not.
* `Encapsulation.afterReport_of_not_touches` and `Arranged.answer_map`: what a report changes, and
  what it depends on.
* `Observation.reports_commute`: two reports in either order.
-/

namespace ArchiveDeposit

section IndependentReports

namespace Encapsulation

/-- Whether the report of a stage for a file touches another one. -/
def Touches (file : Artefact) (stage : Stage) (a : Artefact) : Prop :=
  a.id = file.id ∨ asksMembers file stage = true ∧ a.encapsulation = some file.id

/-- A file after the report of a stage for one of its siblings or for itself. -/
def afterReport (artefacts : List Artefact) (file : Artefact) (stage : Stage) (now : Timestamp)
    (a : Artefact) : Artefact :=
  match answer artefacts file stage now with
  | .ok change => afterCommit file.id change (asksMembers file stage) now a
  | .error _ => a

/-- What the job is told that reports a stage for a file. -/
def reply (artefacts : List Artefact) (file : Artefact) (stage : Stage) (now : Timestamp) :
    Except RecoveryError (List Transition) :=
  match answer artefacts file stage now with
  | .ok change => .ok (changeLog artefacts file stage change now)
  | .error e => .error (.refused e)

variable {artefacts : List Artefact} {file a : Artefact} {stage : Stage} {now : Timestamp}

/-- A report changes nothing that it does not touch. -/
theorem afterReport_of_not_touches (hnot : ¬ Touches file stage a) :
    afterReport artefacts file stage now a = a := by
  obtain ⟨hself, hmember⟩ := not_or.mp hnot
  unfold afterReport
  split
  · next change _ =>
      rw [afterCommit, if_neg hself]
      split
      · next hboth =>
          rw [Bool.and_eq_true, Bool.and_eq_true, beq_iff_eq] at hboth
          exact absurd ⟨hboth.1.1, hboth.2⟩ hmember
      · rfl
  · rfl

theorem touches_iff_of_continues {b : Artefact} (hcont : a.Continues b) :
    Touches file stage b ↔ Touches file stage a := by
  rw [Touches, Touches, hcont.id, hcont.encapsulation]

end Encapsulation

open Encapsulation

namespace Arranged

variable {artefacts : List Artefact} {file a : Artefact} {stage : Stage} {now : Timestamp}

theorem continues_afterReport (h : Arranged artefacts) (hfile : file ∈ artefacts) (stage : Stage)
    (now : Timestamp) : ∀ a ∈ artefacts, a.Continues (afterReport artefacts file stage now a) := by
  intro a ha
  unfold afterReport
  split
  · next change hanswer =>
      exact h.continues_afterCommit hfile
        (Artefact.continues_advance (answer_eq_ok_iff.mp hanswer).1) _ now a ha
  · exact Artefact.Continues.refl a

section OtherFiles

-- A change of files that a report does not touch.
variable {f : Artefact → Artefact} (h : Arranged artefacts)
  (hcont : ∀ a ∈ artefacts, a.Continues (f a))
  (hfixed : ∀ a ∈ artefacts, Touches file stage a → f a = a)

include h hcont hfixed

/-- A change of other files leaves the members that a report asks as they are. -/
theorem members_map_of_asksMembers (hasks : asksMembers file stage = true) :
    members (artefacts.map f) file.id = members artefacts file.id :=
  h.members_map (fun a ha => (hcont a ha).isMemberOf file.id) fun a ha henc =>
    hfixed a ha (Or.inr ⟨hasks, henc⟩)

/-- A report is decided by the files that it touches. -/
theorem answer_map :
    answer (artefacts.map f) file stage now = answer artefacts file stage now := by
  have hlag : lagging? (artefacts.map f) file stage = lagging? artefacts file stage := by
    unfold lagging?
    cases hasks : asksMembers file stage with
    | false => rfl
    | true => rw [h.members_map_of_asksMembers hcont hfixed hasks]
  rw [answer, hlag, answer]

theorem afterReport_map :
    afterReport (artefacts.map f) file stage now = afterReport artefacts file stage now := by
  funext a
  rw [afterReport, h.answer_map hcont hfixed, afterReport]

theorem reply_map :
    reply (artefacts.map f) file stage now = reply artefacts file stage now := by
  have hlog : ∀ change, changeLog (artefacts.map f) file stage change now =
      changeLog artefacts file stage change now := by
    intro change
    unfold changeLog
    cases hasks : asksMembers file stage with
    | false => rfl
    | true => rw [h.members_map_of_asksMembers hcont hfixed hasks]
  simp only [reply, h.answer_map hcont hfixed, hlog]

end OtherFiles

end Arranged

namespace Observation

variable {o : Observation} {now : Timestamp}

/-- Whether the report of a stage for one file asks for another: the first is an encapsulation that
is to be deposited, and the other one of its members. -/
def AsksFor (o : Observation) (id : ArtefactId) (stage : Stage) (other : ArtefactId) : Prop :=
  stage = .deposited ∧ ∃ file ∈ o.artefacts, file.id = id ∧ file.kind = .encapsulationFile ∧
    ∃ member ∈ o.artefacts, member.id = other ∧ member.encapsulation = some id

instance (o : Observation) (id : ArtefactId) (stage : Stage) (other : ArtefactId) :
    Decidable (o.AsksFor id stage other) :=
  inferInstanceAs (Decidable (_ ∧ _))

/-- A report changes the files one by one, and each but few of them into itself. -/
theorem perform_report {parent : Parent} (h : Siblings parent o.artefacts) {file : Artefact}
    (hfile : file ∈ o.artefacts) (stage : Stage) (now : Timestamp) :
    o.perform (.setArtefactStage file.id stage) now =
      (o.withArtefacts (o.artefacts.map (afterReport o.artefacts file stage now)),
        reply o.artefacts file stage now) := by
  change o.orRefused (o.setArtefactStage file.id stage now) = _
  rw [setArtefactStage_eq h hfile]
  unfold afterReport reply
  cases answer o.artefacts file stage now with
  | error e =>
      simp only [List.map_id']
      rfl
  | ok change => rfl

/-- A report for a file that is not there is refused, and changes nothing. -/
theorem perform_report_unknown {id : ArtefactId} (hnone : o.artefact? id = none) (stage : Stage)
    (now : Timestamp) :
    o.perform (.setArtefactStage id stage) now =
      (o, .error (.refused (.unknownArtefact o.parent id))) := by
  simp only [perform, setArtefactStage, hnone]
  rfl

/-- Reports leave the files under the numbers that they have. -/
theorem artefact?_perform_eq_none (h : o.Sound) {id : ArtefactId} (hnone : o.artefact? id = none)
    {operation : Operation} (hadds : operation.adds = false) (now : Timestamp) :
    (o.perform operation now).1.artefact? id = none := by
  obtain ⟨f, hmoves⟩ := perform_moves h hadds now
  rw [artefact?] at hnone ⊢
  rw [hmoves.artefacts, List.getElem?_map]
  cases hget : o.artefacts[id.index]? with
  | none => rfl
  | some a =>
      rw [hget, Option.filter_some] at hnone
      rw [Option.map_some, Option.filter_some, (hmoves.files a (List.mem_of_getElem? hget)).id]
      split
      · next hid =>
          rw [if_pos hid] at hnone
          cases hnone
      · rfl

/-- What the report for one file touches, the report for another does not, unless one asks for the
other. -/
theorem not_touches_of_touches {file other : Artefact} (hfile : file ∈ o.artefacts)
    (hother : other ∈ o.artefacts) (hne : file.id ≠ other.id) {s t : Stage}
    (hforth : ¬ o.AsksFor file.id s other.id) (hback : ¬ o.AsksFor other.id t file.id) :
    ∀ a ∈ o.artefacts, Touches file s a → ¬ Touches other t a := by
  rintro a ha (hself | ⟨hasks, henc⟩) (hself' | ⟨hasks', henc'⟩)
  · exact hne (hself.symm.trans hself')
  · obtain ⟨hkind, hstage⟩ := asksMembers_iff.mp hasks'
    exact hback ⟨hstage, other, hother, rfl, hkind, a, ha, hself, henc'⟩
  · obtain ⟨hkind, hstage⟩ := asksMembers_iff.mp hasks
    exact hforth ⟨hstage, file, hfile, rfl, hkind, a, ha, hself', henc⟩
  · exact hne (Option.some.inj (henc.symm.trans henc'))

/-- After the report for one file, the report for another does what it would have done before it. -/
theorem perform_report_after (h : o.WellFormed) {file other : Artefact}
    (hfile : file ∈ o.artefacts) (hother : other ∈ o.artefacts) {s t : Stage}
    (hapart : ∀ a ∈ o.artefacts, Touches file s a → ¬ Touches other t a) (now : Timestamp) :
    (o.perform (.setArtefactStage file.id s) now).1.perform (.setArtefactStage other.id t) now =
      (o.withArtefacts ((o.artefacts.map (afterReport o.artefacts file s now)).map
        (afterReport o.artefacts other t now)), reply o.artefacts other t now) := by
  have hcont := h.files.arranged.continues_afterReport hfile s now
  have hfixed : ∀ a ∈ o.artefacts, Touches other t a → afterReport o.artefacts file s now a = a :=
    fun a ha htouched => afterReport_of_not_touches fun hboth => hapart a ha hboth htouched
  have hmem : other ∈ o.artefacts.map (afterReport o.artefacts file s now) :=
    List.mem_map.mpr ⟨other, hother, hfixed other hother (Or.inl rfl)⟩
  have hwf := h.moves (moves_withArtefacts hcont)
  rw [perform_report h.files hfile, perform_report hwf.files hmem]
  change (o.withArtefacts ((o.artefacts.map _).map (afterReport (o.artefacts.map _) other t now)),
    reply (o.artefacts.map _) other t now) = _
  rw [h.files.arranged.afterReport_map hcont hfixed, h.files.arranged.reply_map hcont hfixed]

/-- Changes that touch no file in common are the same in either order. -/
theorem afterReport_comm (h : o.WellFormed) {file other : Artefact} (hfile : file ∈ o.artefacts)
    (hother : other ∈ o.artefacts) {s t : Stage}
    (hapart : ∀ a ∈ o.artefacts, Touches file s a → ¬ Touches other t a) {a : Artefact}
    (ha : a ∈ o.artefacts) (now : Timestamp) :
    afterReport o.artefacts other t now (afterReport o.artefacts file s now a) =
      afterReport o.artefacts file s now (afterReport o.artefacts other t now a) := by
  have hcont := h.files.arranged.continues_afterReport hfile s now a ha
  have hcont' := h.files.arranged.continues_afterReport hother t now a ha
  by_cases htouched : Touches file s a
  · have hnot := hapart a ha htouched
    rw [afterReport_of_not_touches hnot,
      afterReport_of_not_touches ((touches_iff_of_continues hcont).not.mpr hnot)]
  · rw [afterReport_of_not_touches htouched, afterReport_of_not_touches
      ((touches_iff_of_continues hcont').not.mpr htouched)]

/-- A report for a file that is not there is refused after any other report as before it. -/
theorem reports_commute_unknown (h : o.Sound) {a b : ArtefactId} (hnone : o.artefact? a = none)
    (s t : Stage) (now : Timestamp) :
    let first := o.perform (.setArtefactStage a s) now
    let second := o.perform (.setArtefactStage b t) now
    first.1.perform (.setArtefactStage b t) now = (second.1, second.2) ∧
      second.1.perform (.setArtefactStage a s) now = (second.1, first.2) := by
  intro first second
  have hnone' : second.1.artefact? a = none := artefact?_perform_eq_none h hnone rfl now
  obtain ⟨f, hmoves⟩ : ∃ f, o.Moves f second.1 := perform_moves h rfl now
  have hparent : second.1.parent = o.parent := congrArg Parent.observation hmoves.sbid
  have hfirst : first = (o, .error (.refused (.unknownArtefact o.parent a))) :=
    perform_report_unknown hnone s now
  rw [perform_report_unknown hnone' s now, hparent, hfirst]
  exact ⟨rfl, rfl⟩

/-- Two reports for different files, neither of which asks for the other, lead to the same
observation in either order, and each job is told the same. -/
theorem reports_commute {allowed : Observation → Operation → Prop} (h : Reachable allowed o)
    {a b : ArtefactId} (hne : a ≠ b) {s t : Stage} (hforth : ¬ o.AsksFor a s b)
    (hback : ¬ o.AsksFor b t a) (now : Timestamp) :
    let first := o.perform (.setArtefactStage a s) now
    let second := o.perform (.setArtefactStage b t) now
    ∃ o', first.1.perform (.setArtefactStage b t) now = (o', second.2) ∧
      second.1.perform (.setArtefactStage a s) now = (o', first.2) := by
  intro first second
  have hsound := h.sound
  have hwf := hsound.wellFormed
  cases hfoundA : o.artefact? a with
  | none => exact ⟨second.1, reports_commute_unknown hsound hfoundA s t now⟩
  | some file =>
      cases hfoundB : o.artefact? b with
      | none => exact ⟨first.1, (reports_commute_unknown hsound hfoundB t s now).symm⟩
      | some other =>
          obtain ⟨hfile, rfl⟩ := (artefact?_eq_some_iff hwf.files).mp hfoundA
          obtain ⟨hother, rfl⟩ := (artefact?_eq_some_iff hwf.files).mp hfoundB
          have hapart := not_touches_of_touches hfile hother hne hforth hback
          have hapart' := not_touches_of_touches hother hfile hne.symm hback hforth
          have hfirst : first.2 = reply o.artefacts file s now :=
            congrArg Prod.snd (perform_report hwf.files hfile s now)
          have hsecond : second.2 = reply o.artefacts other t now :=
            congrArg Prod.snd (perform_report hwf.files hother t now)
          have hcomm : (o.artefacts.map (afterReport o.artefacts file s now)).map
                (afterReport o.artefacts other t now) =
              (o.artefacts.map (afterReport o.artefacts other t now)).map
                (afterReport o.artefacts file s now) := by
            rw [List.map_map, List.map_map]
            exact List.map_congr_left fun a ha => afterReport_comm hwf hfile hother hapart ha now
          refine ⟨o.withArtefacts ((o.artefacts.map (afterReport o.artefacts file s now)).map
            (afterReport o.artefacts other t now)), ?_, ?_⟩
          · rw [hsecond]
            exact perform_report_after hwf hfile hother hapart now
          · rw [hfirst, hcomm]
            exact perform_report_after hwf hother hfile hapart' now

/-- Two encapsulations, each of which takes a packed member along, are deposited in either order. -/
theorem reports_commute_encapsulations :
    ∃ (o : Observation) (now : Timestamp), Reachable (fun _ _ => True) o ∧
      ¬ o.AsksFor ⟨0⟩ .deposited ⟨2⟩ ∧ ¬ o.AsksFor ⟨2⟩ .deposited ⟨0⟩ ∧
      let first := o.perform (.setArtefactStage ⟨0⟩ .deposited) now
      let second := o.perform (.setArtefactStage ⟨2⟩ .deposited) now
      (reported first.2).length = 2 ∧ (reported second.2).length = 2 ∧
        ∃ o', first.1.perform (.setArtefactStage ⟨2⟩ .deposited) now = (o', second.2) ∧
          second.1.perform (.setArtefactStage ⟨0⟩ .deposited) now = (o', first.2) := by
  let now := Timestamp.ofUnixSeconds 0
  let o := performEach now (fresh ⟨1⟩)
    [.add .encapsulationFile "e", .addEncapsulated .cubelet "m" ⟨0⟩, .add .encapsulationFile "f",
      .addEncapsulated .cubelet "n" ⟨2⟩, .setArtefactStage ⟨1⟩ .encapsulated,
      .setArtefactStage ⟨3⟩ .encapsulated]
  have hrun : Reachable (fun _ _ => True) o :=
    (Reachable.new (new_standard ⟨1⟩)).performEach
      ⟨trivial, trivial, trivial, trivial, trivial, trivial, trivial⟩
  have hforth : ¬ o.AsksFor ⟨0⟩ .deposited ⟨2⟩ := by decide +kernel
  have hback : ¬ o.AsksFor ⟨2⟩ .deposited ⟨0⟩ := by decide +kernel
  have hfirst : (reported (o.perform (.setArtefactStage ⟨0⟩ .deposited) now).2).length = 2 := by
    decide +kernel
  have hsecond : (reported (o.perform (.setArtefactStage ⟨2⟩ .deposited) now).2).length = 2 := by
    decide +kernel
  exact ⟨o, now, hrun, hforth, hback, hfirst, hsecond,
    reports_commute hrun (by decide) hforth hback now⟩

end Observation

end IndependentReports

end ArchiveDeposit

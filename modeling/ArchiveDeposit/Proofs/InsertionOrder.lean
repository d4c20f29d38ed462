import ArchiveDeposit.Observation.Status
import ArchiveDeposit.Proofs.Operation
import ArchiveDeposit.Proofs.Renumbering

/-!
# The order in which files were added

Two observations that differ only in the order in which their files were added, and so in the
numbers of the files, cannot be told apart by driving them: the same calls give the same answers and
leave the same status.  Each phase of a call either treats files one by one, or asks a question of
all files that has one answer in every order, or goes through them in child order, which filenames
decide.

**Results.**
* `Renumbered.progressFiles`: the files in a call of progress.
* `Observation.Reorders.progress`, `Observation.Reorders.setArtefactStage`: the two calls.
* `Observation.callEach_of_reorders`: calls one after the other.
-/

namespace ArchiveDeposit

section InsertionOrder

open Encapsulation Observation

variable {rename : ArtefactId → ArtefactId} {parent : Parent} {artefacts other : List Artefact}
  {signals : Signals} {now : Timestamp}

/-- The same files in two orders after a change, and the same report of it. -/
structure SameOutcome (rename : ArtefactId → ArtefactId) (parent : Parent)
    (outcome other : List Artefact × List Transition) : Prop where
  files : Renumbered rename parent outcome.1 other.1
  log : other.2 = outcome.2

/-- The same refusal of a change, or the same outcome. -/
inductive SameResult (rename : ArtefactId → ArtefactId) (parent : Parent) :
    Except DepositError (List Artefact × List Transition) →
      Except DepositError (List Artefact × List Transition) → Prop
  | refused (e : DepositError) : SameResult rename parent (.error e) (.error e)
  | done {outcome other : List Artefact × List Transition}
      (h : SameOutcome rename parent outcome other) :
      SameResult rename parent (.ok outcome) (.ok other)

/-- One change after another. -/
theorem SameOutcome.append {first first' rest rest' : List Artefact × List Transition}
    (hrest : SameOutcome rename parent rest rest') (hlog : first'.2 = first.2) :
    SameOutcome rename parent (rest.1, first.2 ++ rest.2) (rest'.1, first'.2 ++ rest'.2) where
  files := hrest.files
  log := by rw [hlog, hrest.log]

namespace Renumbered

variable {file : Artefact}

theorem depositMembers (h : Renumbered rename parent artefacts other) (hfile : file ∈ artefacts)
    (now : Timestamp) :
    SameOutcome rename parent (depositMembers artefacts file.id now)
      (depositMembers other (rename file.id) now) where
  files := by
    have hstep : ∀ (id : ArtefactId) (a : Artefact),
        a.Continues (if a.isMemberOf id then (a.depositPacked now).1 else a) := by
      intro id a
      split
      · exact a.continues_depositPacked now
      · exact .refl a
    refine h.map (fun a _ => hstep file.id a) (fun b _ => hstep (rename file.id) b)
      fun a ha => ?_
    have hmember : (a.renumber rename).isMemberOf (rename file.id) = a.isMemberOf file.id := by
      rw [Bool.eq_iff_iff, h.others.arranged.isMemberOf_iff (h.mem_renumber ha),
        h.siblings.arranged.isMemberOf_iff ha]
      exact h.encapsulation_iff ha hfile
    rw [hmember, Artefact.depositPacked_renumber]
    split <;> rfl
  log := by
    simp only [Encapsulation.depositMembers]
    rw [h.members hfile, List.filterMap_map]
    refine List.filterMap_congr fun a _ => ?_
    rw [Function.comp_apply, Artefact.depositPacked_renumber]
    rfl

theorem commit (h : Renumbered rename parent artefacts other) (hfile : file ∈ artefacts)
    {change : Artefact × Option Transition} (hcont : file.Continues change.1) (deposits : Bool)
    (now : Timestamp) :
    SameOutcome rename parent (commit artefacts file.id file.id.index change deposits now)
      (commit other (rename file.id) (rename file.id).index
        (Artefact.renumberChange rename change) deposits now) := by
  unfold Encapsulation.commit
  simp only [Artefact.renumberChange]
  cases change.2 with
  | none => exact ⟨h, rfl⟩
  | some t =>
      have hset := h.set hfile hcont
      cases deposits with
      | false => exact ⟨hset, rfl⟩
      | true =>
          have hmem : change.1 ∈ artefacts.set file.id.index change.1 := by
            have hlt := (List.getElem?_eq_some_iff.mp (h.siblings.arranged.getElem?_of_mem hfile)).1
            exact List.mem_set hlt change.1
          have htaken := hset.depositMembers hmem now
          rw [hcont.id] at htaken
          exact ⟨htaken.files, congrArg (t :: ·) htaken.log⟩

/-- The members of an encapsulation are in the same states, in the same order. -/
theorem memberStates (h : Renumbered rename parent artefacts other) (hfile : file ∈ artefacts) :
    (Encapsulation.members other (rename file.id)).map Artefact.state =
      (Encapsulation.members artefacts file.id).map Artefact.state := by
  rw [h.members hfile, List.map_map]
  rfl

theorem encapsulationProgress (h : Renumbered rename parent artefacts other)
    (hfile : file ∈ artefacts) (hkind : file.isEncapsulation = true) (signals : Signals)
    (now : Timestamp) :
    SameOutcome rename parent (Encapsulation.progress artefacts file.id signals now)
      (Encapsulation.progress other (rename file.id) signals now) := by
  have hother := h.others.arranged.find?_of_mem (h.mem_renumber hfile) hkind
  rw [Artefact.renumber_id] at hother
  unfold Encapsulation.progress
  rw [h.siblings.arranged.find?_of_mem hfile hkind, hother]
  simp only [h.memberStates hfile, Artefact.progress_renumber]
  exact h.commit hfile (file.continues_progress _ now) _ now

theorem progressEach (signals : Signals) (now : Timestamp) (ids : List ArtefactId) :
    ∀ {artefacts other : List Artefact}, Renumbered rename parent artefacts other →
      (∀ id ∈ ids, ∃ file ∈ artefacts, file.id = id ∧ file.isEncapsulation = true) →
        SameOutcome rename parent (progressEach signals now ids artefacts)
          (progressEach signals now (ids.map rename) other) := by
  induction ids with
  | nil => exact fun h _ => ⟨h, rfl⟩
  | cons id ids ih =>
      intro artefacts other h hids
      obtain ⟨file, hfile, rfl, hkind⟩ := hids id List.mem_cons_self
      have hfirst := h.encapsulationProgress hfile hkind signals now
      have hleft : ∀ id ∈ ids, ∃ a ∈ (Encapsulation.progress artefacts file.id signals now).1,
          a.id = id ∧ a.isEncapsulation = true := by
        intro id hid
        obtain ⟨a, ha, rfl, haKind⟩ := hids id (List.mem_cons_of_mem _ hid)
        have hcont := Arranged.continues_afterCommit h.siblings.arranged hfile
          (continues_step artefacts signals now file) (deposits artefacts signals now file) now a ha
        rw [h.siblings.arranged.progress_fst hfile hkind]
        exact ⟨_, List.mem_map_of_mem ha, hcont.id, hcont.isEncapsulation.trans haKind⟩
      exact (ih hfirst.files hleft).append hfirst.log

theorem progressEncapsulations (h : Renumbered rename parent artefacts other) (signals : Signals)
    (now : Timestamp) :
    SameOutcome rename parent (progressEncapsulations artefacts signals now)
      (progressEncapsulations other signals now) := by
  have hids : (Artefact.inChildOrder (other.filter (·.isEncapsulation))).map Artefact.id =
      ((Artefact.inChildOrder (artefacts.filter (·.isEncapsulation))).map Artefact.id).map
        rename := by
    rw [h.inChildOrder_filter (p := (·.isEncapsulation)) fun _ _ => rfl, List.map_map,
      List.map_map]
    rfl
  unfold Observation.progressEncapsulations
  simp only [hids]
  refine h.progressEach signals now _ fun id hid => ?_
  obtain ⟨file, hfile, rfl⟩ := List.mem_map.mp hid
  obtain ⟨hmem, hkind⟩ := List.mem_filter.mp (Artefact.mem_inChildOrder.mp hfile)
  exact ⟨file, hmem, rfl, hkind⟩

theorem progressChildren (h : Renumbered rename parent artefacts other)
    {inScope : Artefact → Bool} (hscope : ∀ a, inScope (a.renumber rename) = inScope a)
    (signals : Signals) (now : Timestamp) :
    SameOutcome rename parent (progressChildren artefacts inScope signals now)
      (progressChildren other inScope signals now) where
  files := by
    refine h.map (fun a _ => continues_childStep artefacts inScope signals now a)
      (fun b _ => continues_childStep other inScope signals now b) fun a ha => ?_
    simp only [h.childSurroundings ha, hscope, Artefact.renumber_isEncapsulation,
      Artefact.progress_renumber]
    split <;> rfl
  log := by
    have hmoves : ∀ a ∈ artefacts,
        (inScope (a.renumber rename) && !(a.renumber rename).isEncapsulation) =
          (inScope a && !a.isEncapsulation) := by
      intro a _
      rw [hscope, Artefact.renumber_isEncapsulation]
    simp only [Observation.progressChildren]
    rw [h.inChildOrder_filter hmoves, List.filterMap_map]
    refine List.filterMap_congr fun a ha => ?_
    have hmem := (List.mem_filter.mp (Artefact.mem_inChildOrder.mp ha)).1
    rw [Function.comp_apply, h.childSurroundings hmem, Artefact.progress_renumber]
    rfl

/-- Whether a file may step does not depend on numbers. -/
theorem inScope_renumber {stage : Stage} {inScope : Artefact → Bool}
    (hscope : inScope? stage = some inScope) (a : Artefact) :
    inScope (a.renumber rename) = inScope a := by
  unfold inScope? at hscope
  split at hscope <;> cases hscope <;> rfl

theorem progressFiles (h : Renumbered rename parent artefacts other) (stage : Stage)
    (signals : Signals) (now : Timestamp) :
    SameOutcome rename parent (progressFiles stage artefacts signals now)
      (progressFiles stage other signals now) := by
  unfold Observation.progressFiles
  cases hscope : inScope? stage with
  | none => exact ⟨h, rfl⟩
  | some inScope =>
      have hchildren := h.progressChildren (inScope_renumber hscope) signals now
      by_cases hstage : stage = .depositing
      · simp only [hstage, if_true]
        exact (hchildren.files.progressEncapsulations signals now).append hchildren.log
      · simp only [hstage, if_false]
        exact hchildren

theorem hasFailedInScope (h : Renumbered rename parent artefacts other) (stage : Stage) :
    hasFailedInScope stage other = hasFailedInScope stage artefacts := by
  unfold Observation.hasFailedInScope
  cases hscope : inScope? stage with
  | none => rfl
  | some inScope =>
      refine h.any_eq fun a => ?_
      rw [inScope_renumber hscope]
      rfl

/-- Gates ask something of all children, so their order makes no difference. -/
theorem opens_ownSurroundings (h : Renumbered rename parent artefacts other) (signals : Signals)
    (gate : Gate) :
    (ownSurroundings other signals).opens gate = (ownSurroundings artefacts signals).opens gate := by
  cases gate with
  | immediate | external | encapsulationReached => rfl
  | childrenReached stage =>
      simp only [Surroundings.opens, ownSurroundings, List.all_map]
      exact h.all_eq fun _ => rfl
  | childrenDeposited =>
      simp only [Surroundings.opens, ownSurroundings, List.all_map]
      exact h.all_eq fun _ => rfl
  | priorityChildrenDeposited =>
      simp only [Surroundings.opens, ownSurroundings, List.all_map, List.all_filter]
      exact h.all_eq fun _ => rfl

theorem setStage (h : Renumbered rename parent artefacts other) (hfile : file ∈ artefacts)
    (hkind : file.isEncapsulation = true) (stage : Stage) (now : Timestamp) :
    SameResult rename parent (setStage artefacts file.id stage now)
      (setStage other (rename file.id) stage now) := by
  have hother := h.others.arranged.find?_of_mem (h.mem_renumber hfile) hkind
  rw [Artefact.renumber_id] at hother
  unfold Encapsulation.setStage
  rw [h.siblings.arranged.find?_of_mem hfile hkind, hother]
  simp only [Artefact.advance_renumber, h.members hfile, List.find?_map]
  cases hadvance : file.advance stage now with
  | error e => exact .refused e
  | ok change =>
      have hcommit := h.commit hfile (Artefact.continues_advance hadvance) (stage == .deposited) now
      have hlagging : (Encapsulation.members artefacts file.id).find?
            ((fun m : Artefact => !m.state.hasReached .encapsulated) ∘ Artefact.renumber rename) =
          (Encapsulation.members artefacts file.id).find? fun m : Artefact =>
            !m.state.hasReached .encapsulated := rfl
      rw [hlagging]
      cases hdeposits : stage == .deposited with
      | false =>
          rw [hdeposits] at hcommit
          exact .done hcommit
      | true =>
          rw [hdeposits] at hcommit
          cases (Encapsulation.members artefacts file.id).find? fun m : Artefact =>
              !m.state.hasReached .encapsulated with
          | none => exact .done hcommit
          | some member => exact .refused _

/-- The change of one file that is no encapsulation. -/
theorem advance (h : Renumbered rename parent artefacts other) (hfile : file ∈ artefacts)
    (stage : Stage) (now : Timestamp) :
    SameResult rename parent
      ((file.advance stage now).map fun change =>
        (artefacts.set file.id.index change.1, change.2.toList))
      (((file.renumber rename).advance stage now).map fun change =>
        (other.set (rename file.id).index change.1, change.2.toList)) := by
  rw [Artefact.advance_renumber]
  cases hadvance : file.advance stage now with
  | error e => exact .refused e
  | ok change => exact .done ⟨h.set hfile (Artefact.continues_advance hadvance), rfl⟩

end Renumbered

namespace Observation

variable {o o' : Observation} {a : Artefact}

/-- The same observation with its files added in another order, and numbered accordingly. -/
structure Reorders (rename : ArtefactId → ArtefactId) (o o' : Observation) : Prop where
  sbid : o'.sbid = o.sbid
  record : o'.record = o.record
  started : o'.started = o.started
  completed : o'.completed = o.completed
  artefacts : o'.artefacts.Perm (o.artefacts.map (Artefact.renumber rename))

/-- The same answer to an operation on both. -/
structure SameAnswer (rename : ArtefactId → ArtefactId)
    (outcome other : Observation × Except RecoveryError (List Transition)) : Prop where
  after : Reorders rename outcome.1 other.1
  answer : other.2 = outcome.2

namespace Reorders

theorem renumbered (h : Reorders rename o o') (hwf : o.WellFormed) (hwf' : o'.WellFormed) :
    Renumbered rename o.parent o.artefacts o'.artefacts where
  siblings := hwf.files
  others := by
    have hfiles := hwf'.files
    rwa [parent, h.sbid] at hfiles
  perm := h.artefacts

theorem withArtefacts (h : Reorders rename o o') (hr : Renumbered rename parent artefacts other) :
    Reorders rename (o.withArtefacts artefacts) (o'.withArtefacts other) :=
  ⟨h.sbid, h.record, h.started, h.completed, hr.perm⟩

theorem apply (h : Reorders rename o o') (next : DepositState) (now : Timestamp) :
    Reorders rename (o.apply next now).1 (o'.apply next now).1 ∧
      (o'.apply next now).2 = (o.apply next now).2 := by
  unfold Observation.apply
  rw [h.record, h.started, h.completed, h.sbid]
  obtain ⟨record, transition⟩ := o.record.replace next now
  cases transition with
  | none => exact ⟨h, rfl⟩
  | some t => exact ⟨⟨rfl, rfl, rfl, rfl, h.artefacts⟩, rfl⟩

/-- The observation itself fails or steps alike. -/
theorem ownNext (h : Reorders rename o o') (hr : Renumbered rename parent artefacts other)
    (signals : Signals) : o'.ownNext other signals = o.ownNext artefacts signals := by
  have hstate : o'.state = o.state := congrArg DepositRecord.state h.record
  have hstage : o'.stage = o.stage := congrArg DepositState.stage hstate
  unfold Observation.ownNext
  rw [hstate, hstage, hr.hasFailedInScope]
  split
  · rfl
  · refine o.state.progress_congr fun step => ?_
    rw [Surroundings.permits, Surroundings.permits, hr.opens_ownSurroundings]
    rfl

theorem progress (h : Reorders rename o o') (hwf : o.WellFormed) (hwf' : o'.WellFormed)
    (signals : Signals) (now : Timestamp) :
    SameAnswer rename (o.perform (.progress signals) now)
      (o'.perform (.progress signals) now) := by
  have hfiles := (h.renumbered hwf hwf').progressFiles o.stage signals now
  have hstage : o'.stage = o.stage := congrArg DepositRecord.stage h.record
  simp only [perform, progress_eq, hstage, h.ownNext hfiles.files]
  obtain ⟨hafter, hown⟩ := (h.withArtefacts hfiles.files).apply (o.ownNext _ signals) now
  exact ⟨hafter, by rw [hfiles.log, hown]⟩

theorem orFilesRefused (h : Reorders rename o o')
    {result result' : Except DepositError (List Artefact × List Transition)}
    (hresult : SameResult rename parent result result') :
    SameAnswer rename (o.orFilesRefused result) (o'.orFilesRefused result') := by
  cases hresult with
  | refused e => exact ⟨h, rfl⟩
  | done houtcome => exact ⟨h.withArtefacts houtcome.files, congrArg Except.ok houtcome.log⟩

end Reorders

/-- The change of an encapsulation that a job reports, as a change of the list of files. -/
theorem perform_setArtefactStage_of_isEncapsulation {parent : Parent}
    (hs : Siblings parent o.artefacts) (ha : a ∈ o.artefacts) (hkind : a.isEncapsulation = true)
    (stage : Stage) (now : Timestamp) :
    o.perform (.setArtefactStage a.id stage) now =
      o.orFilesRefused (setStage o.artefacts a.id stage now) := by
  have hfind : o.artefact? a.id = some a := (artefact?_eq_some_iff hs).mpr ⟨ha, rfl⟩
  unfold perform Observation.setArtefactStage
  simp only [hfind, hkind, if_true]
  rfl

/-- The change of any other file that a job reports, as a change of the list of files. -/
theorem perform_setArtefactStage_of_child {parent : Parent} (hs : Siblings parent o.artefacts)
    (ha : a ∈ o.artefacts) (hkind : a.isEncapsulation = false) (stage : Stage) (now : Timestamp) :
    o.perform (.setArtefactStage a.id stage) now =
      o.orFilesRefused ((a.advance stage now).map fun change =>
        (o.artefacts.set a.id.index change.1, change.2.toList)) := by
  have hfind : o.artefact? a.id = some a := (artefact?_eq_some_iff hs).mpr ⟨ha, rfl⟩
  unfold perform Observation.setArtefactStage
  simp only [hfind, hkind, Bool.false_eq_true, if_false]
  cases a.advance stage now <;> rfl

theorem Reorders.setArtefactStage (h : Reorders rename o o') (hwf : o.WellFormed)
    (hwf' : o'.WellFormed) (ha : a ∈ o.artefacts) (stage : Stage) (now : Timestamp) :
    SameAnswer rename (o.perform (.setArtefactStage a.id stage) now)
      (o'.perform (.setArtefactStage (rename a.id) stage) now) := by
  have hr := h.renumbered hwf hwf'
  have hmem := hr.mem_renumber ha
  cases hkind : a.isEncapsulation with
  | true =>
      have hother := perform_setArtefactStage_of_isEncapsulation hr.others hmem hkind stage now
      rw [Artefact.renumber_id] at hother
      rw [perform_setArtefactStage_of_isEncapsulation hr.siblings ha hkind, hother]
      exact h.orFilesRefused (hr.setStage ha hkind stage now)
  | false =>
      have hother := perform_setArtefactStage_of_child hr.others hmem hkind stage now
      rw [Artefact.renumber_id] at hother
      rw [perform_setArtefactStage_of_child hr.siblings ha hkind, hother]
      exact h.orFilesRefused (hr.advance ha stage now)

/-- A call that names a file by its filename. -/
inductive Call where
  | progress (signals : Signals)
  | setArtefactStage (filename : String) (stage : Stage)

/-- The operation that a call asks for, none where there is no such file. -/
def Call.operation? (o : Observation) : Call → Option Operation
  | .progress signals => some (.progress signals)
  | .setArtefactStage filename stage =>
      (o.named? filename).map fun a => .setArtefactStage a.id stage

/-- The observation after a call, and the answer. -/
def call (o : Observation) (call : Call) (now : Timestamp) :
    Observation × Option (Except RecoveryError (List Transition)) :=
  match call.operation? o with
  | none => (o, none)
  | some operation =>
      let (o, answer) := o.perform operation now
      (o, some answer)

/-- The observation after calls, each at its time, and all answers. -/
def callEach : Observation → List (Call × Timestamp) →
    Observation × List (Option (Except RecoveryError (List Transition)))
  | o, [] => (o, [])
  | o, (call, now) :: calls =>
      let (o, answer) := o.call call now
      let (o, answers) := o.callEach calls
      (o, answer :: answers)

theorem answers_cons (o : Observation) (first : Call × Timestamp)
    (calls : List (Call × Timestamp)) :
    (o.callEach (first :: calls)).2 =
      (o.call first.1 first.2).2 :: ((o.call first.1 first.2).1.callEach calls).2 := rfl

/-- A filename names the same file in both. -/
theorem Reorders.named? (h : Reorders rename o o') (hwf : o.WellFormed) (hwf' : o'.WellFormed)
    (filename : String) :
    o'.named? filename = (o.named? filename).map (Artefact.renumber rename) := by
  have hr := h.renumbered hwf hwf'
  cases hfind : o.named? filename with
  | some a =>
      obtain ⟨ha, hname⟩ := (named?_eq_some_iff hwf).mp hfind
      exact (named?_eq_some_iff hwf').mpr ⟨hr.mem_renumber ha, hname⟩
  | none =>
      refine List.find?_eq_none.mpr fun b hb => ?_
      obtain ⟨a, ha, rfl⟩ := hr.exists_of_mem hb
      exact List.find?_eq_none.mp hfind a ha

theorem Reorders.call (h : Reorders rename o o') (hwf : o.WellFormed) (hwf' : o'.WellFormed)
    (call : Call) (now : Timestamp) :
    Reorders rename (o.call call now).1 (o'.call call now).1 ∧
      (o'.call call now).2 = (o.call call now).2 := by
  cases call with
  | progress signals =>
      have hsame := h.progress hwf hwf' signals now
      exact ⟨hsame.after, congrArg some hsame.answer⟩
  | setArtefactStage filename stage =>
      simp only [Observation.call, Call.operation?, h.named? hwf hwf']
      cases hfind : o.named? filename with
      | none => exact ⟨h, rfl⟩
      | some a =>
          have ha := ((named?_eq_some_iff hwf).mp hfind).1
          have hsame := h.setArtefactStage hwf hwf' ha stage now
          exact ⟨hsame.after, congrArg some hsame.answer⟩

theorem Reachable.call (h : Reachable (fun _ _ => True) o) (call : Call) (now : Timestamp) :
    Reachable (fun _ _ => True) (o.call call now).1 := by
  unfold Observation.call
  split
  · exact h
  · next operation _ => exact h.perform operation trivial now

/-- Reports show filenames, not numbers. -/
theorem Reorders.status (h : Reorders rename o o') (hwf : o.WellFormed) (hwf' : o'.WellFormed) :
    ObservationStatus.ofObservation o' = ObservationStatus.ofObservation o := by
  have hr := h.renumbered hwf hwf'
  have hfiles : o'.children.map (ArtefactStatus.ofArtefact o') =
      o.children.map (ArtefactStatus.ofArtefact o) := by
    unfold children
    rw [hr.inChildOrder, List.map_map]
    refine List.map_congr_left fun a ha => ?_
    have hholder : (a.encapsulation.map rename).bind o'.artefact? =
        (a.encapsulation.bind o.artefact?).map (Artefact.renumber rename) := by
      cases henc : a.encapsulation with
      | none => rfl
      | some id =>
          obtain ⟨_, file, hfile, rfl, _⟩ :=
            hr.siblings.packed a (Artefact.mem_inChildOrder.mp ha) id henc
          have hleft := (artefact?_eq_some_iff hr.siblings).mpr ⟨hfile, rfl⟩
          have hright := (artefact?_eq_some_iff hr.others).mpr ⟨hr.mem_renumber hfile, rfl⟩
          rw [Option.map_some, Option.bind_some, Option.bind_some, hleft]
          exact hright
    rw [Function.comp_apply, ArtefactStatus.ofArtefact, ArtefactStatus.ofArtefact,
      Artefact.renumber_encapsulation, hholder, Option.map_map]
    rfl
  unfold ObservationStatus.ofObservation
  rw [hfiles, h.sbid, h.started, h.completed, h.record]
  simp only [stage, isDeposited, isFailed, state, h.record]

/-- Two observations that differ in the order in which their files were added answer all calls
alike, whatever calls these are and in whatever order.  They are left as they were, different only
in this order, and with the same status. -/
theorem callEach_of_reorders (calls : List (Call × Timestamp)) :
    ∀ {o o' : Observation}, Reachable (fun _ _ => True) o → Reachable (fun _ _ => True) o' →
      Reorders rename o o' →
        (o'.callEach calls).2 = (o.callEach calls).2 ∧
          Reorders rename (o.callEach calls).1 (o'.callEach calls).1 ∧
            ObservationStatus.ofObservation (o'.callEach calls).1 =
              ObservationStatus.ofObservation (o.callEach calls).1 := by
  induction calls with
  | nil =>
      intro o o' hrun hrun' h
      exact ⟨rfl, h, h.status hrun.sound.wellFormed hrun'.sound.wellFormed⟩
  | cons first calls ih =>
      intro o o' hrun hrun' h
      obtain ⟨hafter, hanswer⟩ :=
        h.call hrun.sound.wellFormed hrun'.sound.wellFormed first.1 first.2
      obtain ⟨hanswers, hrest⟩ :=
        ih (hrun.call first.1 first.2) (hrun'.call first.1 first.2) hafter
      refine ⟨?_, hrest⟩
      rw [answers_cons, answers_cons, hanswer, hanswers]

/-- A catalogue that was added before or after an encapsulation and its member, which then have other
numbers. -/
theorem callEach_catalogue_first :
    ∃ (o o' : Observation) (rename : ArtefactId → ArtefactId) (calls : List (Call × Timestamp)),
      Reachable (fun _ _ => True) o ∧ Reachable (fun _ _ => True) o' ∧ Reorders rename o o' ∧
        o'.artefacts ≠ o.artefacts ∧ (o'.callEach calls).2 = (o.callEach calls).2 ∧
          Reorders rename (o.callEach calls).1 (o'.callEach calls).1 ∧
            ObservationStatus.ofObservation (o'.callEach calls).1 =
              ObservationStatus.ofObservation (o.callEach calls).1 := by
  let now := Timestamp.ofUnixSeconds 0
  let o := performEach now (fresh ⟨1⟩)
    [.add .encapsulationFile "e", .addEncapsulated .cubelet "m" ⟨0⟩, .add .catalogue "c"]
  let o' := performEach now (fresh ⟨1⟩)
    [.add .catalogue "c", .add .encapsulationFile "e", .addEncapsulated .cubelet "m" ⟨1⟩]
  let rename : ArtefactId → ArtefactId := fun id => ⟨(id.index + 1) % 3⟩
  let calls : List (Call × Timestamp) :=
    [(.progress Signals.autoComplete, now), (.progress Signals.autoComplete, now),
      (.setArtefactStage "m" .encapsulating, now), (.setArtefactStage "e" .deposited, now),
      (.progress Signals.autoComplete, now), (.setArtefactStage "c" .undeposited, now)]
  have hrun : Reachable (fun _ _ => True) o :=
    (Reachable.new (new_standard ⟨1⟩)).performEach ⟨trivial, trivial, trivial, trivial⟩
  have hrun' : Reachable (fun _ _ => True) o' :=
    (Reachable.new (new_standard ⟨1⟩)).performEach ⟨trivial, trivial, trivial, trivial⟩
  have hreorders : Reorders rename o o' := by
    refine ⟨by decide +kernel, by decide +kernel, by decide +kernel, by decide +kernel, ?_⟩
    decide +kernel
  have hother : o'.artefacts ≠ o.artefacts := by decide +kernel
  exact ⟨o, o', rename, calls, hrun, hrun', hreorders, hother,
    callEach_of_reorders calls hrun hrun' hreorders⟩

end Observation

end InsertionOrder

end ArchiveDeposit

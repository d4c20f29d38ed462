import ArchiveDeposit.Collection
import ArchiveDeposit.Proofs.Accounting

/-!
# Runs of a level 7 collection

A collection changes through its operations only, one after the other, each at its own time, and
each of which may be refused.  A run starts from a new collection under the standard factory.  What
may be asked in a run depends on the claim that is made about it, and so is a parameter: a condition
on the operation and the collection that it meets.

No operation removes a catalogue or puts another one in its place.  What becomes of a catalogue is
told by its place: it takes a step, a job reports a stage of it, or it stays as it is.  Recoveries
are of the collection's own record and reach no catalogue.

**Results.**
* `Collection.progress_catalogues` and `Collection.progress_record`: a call of progress.
* `Collection.becomes_perform`: what an operation comes to, one case for each.
* `Collection.Becomes.catalogue`: what one operation does to a catalogue.
* `Collection.catalogue_performEach`: what any operations do to it.
-/

namespace ArchiveDeposit

section CollectionRun

/-- An operation on a collection. -/
inductive CollectionOperation where
  | add (filename : String)
  | setCatalogueStage (id : ArtefactId) (stage : Stage)
  | advance (stage : Stage)
  | progress (signals : Signals)
  | recoverOwn

/-- An operation on a collection, and when it is asked. -/
abbrev CollectionCall := CollectionOperation × Timestamp

namespace Collection

/-- A change that leaves the collection as it is where it is refused. -/
def orRefused (c : Collection) (result : Except DepositError (Collection × List Transition)) :
    Collection × Except DepositError (List Transition) :=
  match result with
  | .ok (c, transitions) => (c, .ok transitions)
  | .error e => (c, .error e)

/-- The collection after an operation, and what the operation reports or why it is refused. -/
def perform (c : Collection) (operation : CollectionOperation) (now : Timestamp) :
    Collection × Except DepositError (List Transition) :=
  match operation with
  | .add filename => c.orRefused ((c.add .standard filename).map fun (c, _) => (c, []))
  | .setCatalogueStage id stage =>
      c.orRefused ((c.setCatalogueStage id stage now).map fun (c, transition) =>
        (c, transition.toList))
  | .advance stage =>
      c.orRefused ((c.advance stage now).map fun (c, transition) => (c, transition.toList))
  | .progress signals =>
      let (c, transitions) := c.progress signals now
      (c, .ok transitions)
  | .recoverOwn =>
      c.orRefused ((c.recoverOwn now).map fun (c, transition) => (c, transition.toList))

/-- A collection that a run leads to, from a new one, in which every operation is allowed where it
is asked. -/
inductive Reachable (allowed : Collection → CollectionOperation → Prop) : Collection → Prop where
  | new {id : CollectionId} {c : Collection} (h : new id .standard = .ok c) : Reachable allowed c
  | perform {c : Collection} (h : Reachable allowed c) (operation : CollectionOperation)
      (hallowed : allowed c operation) (now : Timestamp) :
      Reachable allowed (c.perform operation now).1

/-- The collection that every run under the standard factory starts from. -/
def fresh (id : CollectionId) : Collection :=
  ⟨id, .new (.initial .level7Collection (.level7Collection id)), none, []⟩

theorem new_standard (id : CollectionId) : new id .standard = .ok (fresh id) := rfl

/-- The collection after some calls, one after the other. -/
def performEach : Collection → List CollectionCall → Collection
  | c, [] => c
  | c, (operation, now) :: rest => performEach (c.perform operation now).1 rest

/-- Whether each of some calls is allowed where it is asked, one after the other. -/
def AllowsEach (allowed : Collection → CollectionOperation → Prop) :
    Collection → List CollectionCall → Prop
  | _, [] => True
  | c, (operation, now) :: rest =>
      allowed c operation ∧ AllowsEach allowed (c.perform operation now).1 rest

variable {c c' : Collection} {now : Timestamp}

/-- A run goes on with calls that are allowed. -/
theorem Reachable.performEach {allowed : Collection → CollectionOperation → Prop}
    {calls : List CollectionCall} (h : Reachable allowed c)
    (hallowed : AllowsEach allowed c calls) : Reachable allowed (performEach c calls) := by
  induction calls generalizing c with
  | nil => exact h
  | cons call rest ih => exact ih (h.perform call.1 hallowed.1 call.2) hallowed.2

/-- What holds of the collection and of what it becomes where nothing is refused, holds after a
change that may be refused. -/
theorem orRefused_cases {P : Collection → Prop} (hrefused : P c) {α : Type}
    (report : α → List Transition) {result : Except DepositError (Collection × α)}
    (hok : ∀ c' a, result = .ok (c', a) → P c') :
    P (c.orRefused (result.map fun (c, a) => (c, report a))).1 := by
  cases result with
  | error e => exact hrefused
  | ok change => exact hok change.1 change.2 rfl

/-- A catalogue is added at the end, at the first stage of its lifecycle. -/
theorem add_spec {filename : String} {id : ArtefactId}
    (hok : c.add .standard filename = .ok (c', id)) :
    c' = c.withCatalogues (c.catalogues ++ [⟨id, .catalogue, filename, some c.parent, none,
      .new (.initial .standard (.artefact (some c.parent) filename))⟩]) := by
  unfold add at hok
  split at hok
  · cases hok
  · cases hok
    rfl

/-- A job reports a stage of the catalogue at one place. -/
theorem setCatalogueStage_spec {id : ArtefactId} {stage : Stage} {transition : Option Transition}
    (hok : c.setCatalogueStage id stage now = .ok (c', transition)) :
    ∃ file change, c.catalogues[id.index]? = some file ∧ file.advance stage now = .ok change ∧
      c' = c.withCatalogues (c.catalogues.set id.index change.1) := by
  unfold setCatalogueStage at hok
  split at hok
  · cases hok
  · next file hfile =>
      obtain ⟨change, hchange, hpair⟩ := eq_ok_of_map hok
      cases hpair
      exact ⟨file, change, (Option.filter_eq_some_iff.mp hfile).1, hchange, rfl⟩

theorem apply_of_stage_eq {next : DepositState} (h : next.stage = c.stage) (now : Timestamp) :
    c.apply next now = (c, none) := by
  rw [apply, DepositRecord.replace_of_stage_eq h]

@[simp] theorem apply_record (c : Collection) (next : DepositState) (now : Timestamp) :
    (c.apply next now).1.record = (c.record.replace next now).1 := by
  unfold apply
  cases h : (c.record.replace next now).2 with
  | none => simp [h, DepositRecord.replace_fst_of_snd_eq_none h]
  | some t => simp [h]

@[simp] theorem apply_catalogues (c : Collection) (next : DepositState) (now : Timestamp) :
    (c.apply next now).1.catalogues = c.catalogues := by
  unfold apply
  cases h : (c.record.replace next now).2 <;> simp [h]

/-- The time of completion is noted when the collection comes to be deposited. -/
theorem apply_completed (c : Collection) (next : DepositState) (now : Timestamp) :
    (c.apply next now).1.completed =
      if next.stage ≠ c.stage ∧ next.stage = .deposited then some now else c.completed := by
  by_cases hsame : next.stage = c.record.state.stage
  · simp [apply, DepositRecord.replace_of_stage_eq hsame, stage, hsame]
  · simp [apply, DepositRecord.replace_of_stage_ne hsame, stage, hsame]

theorem advance_spec {stage : Stage} {transition : Option Transition}
    (hok : c.advance stage now = .ok (c', transition)) :
    ∃ next, c.state.advanceTo stage = .ok next ∧ c' = (c.apply next now).1 := by
  obtain ⟨next, hnext, hpair⟩ := eq_ok_of_map hok
  exact ⟨next, hnext, by rw [hpair]⟩

/-- A recovery takes back the own record and nothing else. -/
theorem recoverOwn_spec {transition : Option Transition}
    (hok : c.recoverOwn now = .ok (c', transition)) :
    c.record.Stays c'.record ∧ c'.completed = c.completed ∧ c'.catalogues = c.catalogues := by
  obtain ⟨change, hrecover, hpair⟩ := eq_ok_of_map hok
  cases hpair
  exact ⟨DepositRecord.stays_recover hrecover, rfl, rfl⟩

/-- A catalogue after a step; it waits for nothing around it. -/
def catalogueStep (signals : Signals) (now : Timestamp) (a : Artefact) : Artefact :=
  (a.progress { signals := signals } now).1

/-- The catalogues after a call of progress. -/
def nextCatalogues (c : Collection) (signals : Signals) (now : Timestamp) : List Artefact :=
  if c.stage = .depositing then c.catalogues.map (catalogueStep signals now) else c.catalogues

/-- The collection's own state after a call of progress that leaves it with these catalogues. -/
def ownNext (c : Collection) (catalogues : List Artefact) (signals : Signals) : DepositState :=
  if c.stage == .depositing && catalogues.any (·.isFailed) then c.state.failed
  else c.state.progress { signals := signals, children := catalogues.map Artefact.state }

/-- In a stage in which progress stops at once, no catalogue is asked to step and no step leaves. -/
theorem stepFrom?_of_stopped (h : (c.isFailed || c.state.isTerminal) = true) :
    c.stage ≠ .depositing ∧ c.state.lifecycle.stepFrom? c.stage = none := by
  have hstopped : ∀ (s : Stage) (l : Lifecycle), (s.isFailure || s.isIn .terminal) = true →
      s ≠ .depositing ∧ l.stepFrom? s = none := by
    intro s l
    cases s <;> cases l <;> decide
  exact hstopped c.stage _ h

theorem progress_fst (c : Collection) (signals : Signals) (now : Timestamp) :
    (c.progress signals now).1 =
      ((c.withCatalogues (c.nextCatalogues signals now)).apply
        (c.ownNext (c.nextCatalogues signals now) signals) now).1 := by
  unfold progress
  split
  · next hstopped =>
      obtain ⟨hnot, hstep⟩ := stepFrom?_of_stopped hstopped
      have hsame : c.nextCatalogues signals now = c.catalogues := if_neg hnot
      have hnext : c.ownNext c.catalogues signals = c.state := by
        rcases DepositState.progress_cases c.state
            { signals := signals, children := c.catalogues.map Artefact.state } with
          heq | ⟨step, hsome, _⟩
        · simp only [ownNext, beq_eq_false_iff_ne.mpr hnot, Bool.false_and, Bool.false_eq_true,
            if_false, heq]
        · rw [show c.state.stage = c.stage from rfl, hstep] at hsome
          cases hsome
      rw [hsame, hnext]
      exact congrArg Prod.fst (apply_of_stage_eq (c := c) rfl now).symm
  · by_cases hstage : c.stage = .depositing
    · simp only [nextCatalogues, hstage, if_true]
      rfl
    · simp only [nextCatalogues, hstage, if_false]
      rfl

/-- The catalogues step while the collection deposits. -/
theorem progress_catalogues (c : Collection) (signals : Signals) (now : Timestamp) :
    (c.progress signals now).1.catalogues =
      if c.stage = .depositing then c.catalogues.map (catalogueStep signals now)
      else c.catalogues := by
  rw [progress_fst, apply_catalogues]
  rfl

/-- The collection's own record after a call of progress: it fails or steps as its catalogues are
then. -/
theorem progress_record (c : Collection) (signals : Signals) (now : Timestamp) :
    (c.progress signals now).1.record =
      (c.record.replace (c.ownNext (c.progress signals now).1.catalogues signals) now).1 := by
  rw [progress_fst, apply_record, apply_catalogues]
  rfl

theorem progress_completed (c : Collection) (signals : Signals) (now : Timestamp) :
    (c.progress signals now).1.completed =
      if (c.progress signals now).1.stage ≠ c.stage ∧
          (c.progress signals now).1.stage = .deposited then some now
      else c.completed := by
  have hstage : (c.progress signals now).1.stage =
      (c.ownNext (c.nextCatalogues signals now) signals).stage := by
    rw [stage, progress_fst, apply_record, DepositRecord.stage_replace]
  rw [hstage, progress_fst, apply_completed]
  rfl

/-- What a collection may be after an operation. -/
inductive Becomes (c : Collection) (now : Timestamp) : CollectionOperation → Collection → Prop where
  | refused (operation : CollectionOperation) : Becomes c now operation c
  | added (filename : String) (id : ArtefactId) : Becomes c now (.add filename)
      (c.withCatalogues (c.catalogues ++ [⟨id, .catalogue, filename, some c.parent, none,
        .new (.initial .standard (.artefact (some c.parent) filename))⟩]))
  | reported {id : ArtefactId} {stage : Stage} {file : Artefact}
      {change : Artefact × Option Transition} (hfile : c.catalogues[id.index]? = some file)
      (hadvance : file.advance stage now = .ok change) :
      Becomes c now (.setCatalogueStage id stage)
        (c.withCatalogues (c.catalogues.set id.index change.1))
  | advanced {stage : Stage} {next : DepositState} (hnext : c.state.advanceTo stage = .ok next) :
      Becomes c now (.advance stage) (c.apply next now).1
  | progressed (signals : Signals) : Becomes c now (.progress signals) (c.progress signals now).1
  | recovered {c' : Collection} (hrecord : c.record.Stays c'.record)
      (hcompleted : c'.completed = c.completed) (hcatalogues : c'.catalogues = c.catalogues) :
      Becomes c now .recoverOwn c'

theorem becomes_perform (c : Collection) (operation : CollectionOperation) (now : Timestamp) :
    c.Becomes now operation (c.perform operation now).1 := by
  have hrefused : c.Becomes now operation c := .refused operation
  cases operation with
  | add filename =>
      refine orRefused_cases (P := c.Becomes now _) hrefused (fun _ => []) fun c' id hok => ?_
      rw [add_spec hok]
      exact .added filename id
  | setCatalogueStage id stage =>
      refine orRefused_cases (P := c.Becomes now _) hrefused Option.toList fun c' _ hok => ?_
      obtain ⟨file, change, hfile, hadvance, rfl⟩ := setCatalogueStage_spec hok
      exact .reported hfile hadvance
  | advance stage =>
      refine orRefused_cases (P := c.Becomes now _) hrefused Option.toList fun c' _ hok => ?_
      obtain ⟨next, hnext, rfl⟩ := advance_spec hok
      exact .advanced hnext
  | progress signals => exact .progressed signals
  | recoverOwn =>
      refine orRefused_cases (P := c.Becomes now _) hrefused Option.toList fun c' _ hok => ?_
      obtain ⟨hrecord, hcompleted, hcatalogues⟩ := recoverOwn_spec hok
      exact .recovered hrecord hcompleted hcatalogues

/-- A catalogue stays at its place, and what becomes of it there is what steps and reports of jobs
make of it. -/
theorem Becomes.catalogue {operation : CollectionOperation} (h : c.Becomes now operation c')
    {i : Nat} {a : Artefact} (ha : c.catalogues[i]? = some a) :
    ∃ b log, c'.catalogues[i]? = some b ∧ a.Accounts .report log b := by
  have hsame : ∀ c' : Collection, c'.catalogues[i]? = some a →
      ∃ b log, c'.catalogues[i]? = some b ∧ a.Accounts .report log b := fun c' ha' =>
    ⟨a, [], ha', Artefact.Continues.refl a, .refl⟩
  have hlt := (List.getElem?_eq_some_iff.mp ha).1
  cases h with
  | refused => exact hsame c ha
  | added filename id => exact hsame _ ((List.getElem?_append_left hlt).trans ha)
  | @reported id _ _ change hfile hadvance =>
      by_cases hplace : id.index = i
      · subst hplace
        rw [ha] at hfile
        cases hfile
        exact ⟨change.1, _, by simp [withCatalogues, hlt], Artefact.accounts_advance hadvance⟩
      · exact hsame _ (by simpa [withCatalogues, List.getElem?_set, hplace] using ha)
  | advanced hnext => exact hsame _ (by rwa [apply_catalogues])
  | progressed signals =>
      by_cases hstage : c.stage = .depositing
      · have hstep := a.accounts_progress { signals := signals } now
        refine ⟨catalogueStep signals now a, _, ?_, hstep.continues,
          hstep.trail.mono fun _ _ => Way.report_of_step⟩
        rw [progress_catalogues, if_pos hstage, List.getElem?_map, ha]
        rfl
      · exact hsame _ (by rwa [progress_catalogues, if_neg hstage])
  | recovered _ _ hcatalogues => exact hsame _ (by rwa [hcatalogues])

theorem catalogue_performEach (calls : List CollectionCall) {i : Nat} {a : Artefact}
    (ha : c.catalogues[i]? = some a) :
    ∃ b log, (performEach c calls).catalogues[i]? = some b ∧ a.Accounts .report log b := by
  induction calls generalizing c a with
  | nil => exact ⟨a, [], ha, Artefact.Continues.refl a, .refl⟩
  | cons call rest ih =>
      obtain ⟨b, first, hb, hab⟩ := (c.becomes_perform call.1 call.2).catalogue ha
      obtain ⟨d, more, hd, hbd⟩ := ih hb
      exact ⟨d, first ++ more, hd, hab.continues.trans hbd.continues, hab.trail.trans hbd.trail⟩

end Collection

end CollectionRun

end ArchiveDeposit

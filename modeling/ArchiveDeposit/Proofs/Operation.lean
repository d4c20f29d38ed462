import ArchiveDeposit.Proofs.Accounting

/-!
# Runs of operations

An observation changes through its operations only, one after the other, each of which may be
refused.  A run starts from a new observation under the standard factory.  What may be asked in a
run depends on the claim that is made about it, and so is a parameter: a condition on the operation
and the observation that it meets.

An operation adds one file, or it changes files one by one and none of them goes back.

**Results.**
* `Observation.perform_add_cases`, `Observation.perform_addEncapsulated_cases` and
  `Observation.perform_accounts`: what one operation does.
* `Observation.perform_stays`: recoveries leave every effective stage where it is.
* `Observation.stays_perform_record`: so do most operations to that of the observation itself.
* `Observation.Reachable.sound`: in every state of every run the observation is sound.
* `Observation.WellFormed.tick_spec`: a tick is never refused, and where it reports nothing the
  observation stays as it is.
-/

namespace ArchiveDeposit

section Operation

/-- An operation on an observation. -/
inductive Operation where
  | add (kind : Kind) (filename : String)
  | addEncapsulated (kind : Kind) (filename : String) (encapsulation : ArtefactId)
  | setArtefactStage (id : ArtefactId) (stage : Stage)
  | advance (stage : Stage)
  | progress (signals : Signals)
  | runJobs
  /-- On the view of an encapsulation, as are the three that follow. -/
  | setEncapsulationStage (id : ArtefactId) (stage : Stage)
  | advanceEncapsulation (id : ArtefactId) (stage : Stage)
  | progressEncapsulation (id : ArtefactId) (signals : Signals)
  | recoverEncapsulation (id : ArtefactId)
  | recoverArtefact (filename : String)
  | recoverAll
  | recoverOwn

/-- Whether an operation adds a file. -/
def Operation.adds : Operation → Bool
  | .add _ _ | .addEncapsulated _ _ _ => true
  | _ => false

/-- Whether an operation takes back what has failed. -/
def Operation.recovers : Operation → Bool
  | .recoverEncapsulation _ | .recoverArtefact _ | .recoverAll | .recoverOwn => true
  | _ => false

theorem Operation.adds_of_recovers {operation : Operation} (h : operation.recovers = true) :
    operation.adds = false := by
  cases operation with
  | add kind filename | addEncapsulated kind filename encapsulation => cases h
  | _ => rfl

/-- How an operation that adds no file may change a record. -/
def Operation.way (operation : Operation) : Way :=
  if operation.recovers then .recovery else .report

namespace Observation

/-- A change that leaves the observation as it is where it is refused. -/
def orRefused (o : Observation) (result : Except DepositError (Observation × List Transition)) :
    Observation × Except RecoveryError (List Transition) :=
  match result with
  | .ok (o, transitions) => (o, .ok transitions)
  | .error e => (o, .error (.refused e))

/-- A change of the files that leaves them as they are where it is refused. -/
def orFilesRefused (o : Observation)
    (result : Except DepositError (List Artefact × List Transition)) :
    Observation × Except RecoveryError (List Transition) :=
  o.orRefused (result.map fun (artefacts, transitions) => (o.withArtefacts artefacts, transitions))

/-- The observation after an operation, and what the operation reports or why it is refused. -/
def perform (o : Observation) (operation : Operation) (now : Timestamp) :
    Observation × Except RecoveryError (List Transition) :=
  match operation with
  | .add kind filename =>
      o.orRefused ((o.add .standard kind filename).map fun (o, _) => (o, []))
  | .addEncapsulated kind filename encapsulation =>
      o.orRefused ((o.addEncapsulated .standard kind filename encapsulation).map fun (o, _) =>
        (o, []))
  | .setArtefactStage id stage => o.orRefused (o.setArtefactStage id stage now)
  | .advance stage =>
      o.orRefused ((o.advance stage now).map fun (o, transition) => (o, transition.toList))
  | .progress signals =>
      let (o, transitions) := o.progress signals now
      (o, .ok transitions)
  | .runJobs =>
      let (o, result) := o.runJobs now
      (o, result.mapError .refused)
  | .setEncapsulationStage id stage =>
      o.orFilesRefused (Encapsulation.setStage o.artefacts id stage now)
  | .advanceEncapsulation id stage =>
      o.orFilesRefused (Encapsulation.changeFile o.artefacts id (·.advance stage now) now)
  | .progressEncapsulation id signals =>
      o.orFilesRefused (.ok (Encapsulation.progress o.artefacts id signals now))
  | .recoverEncapsulation id =>
      o.orFilesRefused (Encapsulation.changeFile o.artefacts id (·.recover now) now)
  | .recoverArtefact filename => o.recoverArtefact filename now
  | .recoverAll => o.recoverAll now
  | .recoverOwn =>
      o.orRefused ((o.recoverOwn now).map fun (o, transition) => (o, transition.toList))

/-- An observation that a run leads to, from a new one, in which every operation is allowed where it
is asked. -/
inductive Reachable (allowed : Observation → Operation → Prop) : Observation → Prop where
  | new {sbid : Sbid} {o : Observation} (h : new sbid .standard = .ok o) : Reachable allowed o
  | perform {o : Observation} (h : Reachable allowed o) (operation : Operation)
      (hallowed : allowed o operation) (now : Timestamp) :
      Reachable allowed (o.perform operation now).1

/-- The observation that every run under the standard factory starts from. -/
def fresh (sbid : Sbid) : Observation :=
  ⟨sbid, .new (.initial .observation (.observation sbid)), none, none, []⟩

theorem new_standard (sbid : Sbid) : new sbid .standard = .ok (fresh sbid) := rfl

/-- The observation after some operations, one after the other. -/
def performEach (now : Timestamp) : Observation → List Operation → Observation
  | o, [] => o
  | o, operation :: rest => performEach now (o.perform operation now).1 rest

/-- Whether each of some operations is allowed where it is asked, one after the other. -/
def AllowsEach (allowed : Observation → Operation → Prop) (now : Timestamp) :
    Observation → List Operation → Prop
  | _, [] => True
  | o, operation :: rest =>
      allowed o operation ∧ AllowsEach allowed now (o.perform operation now).1 rest

variable {o o' : Observation} {operation : Operation} {now : Timestamp}

/-- A run goes on with operations that are allowed. -/
theorem Reachable.performEach {allowed : Observation → Operation → Prop}
    {operations : List Operation} (h : Reachable allowed o)
    (hallowed : AllowsEach allowed now o operations) :
    Reachable allowed (performEach now o operations) := by
  induction operations generalizing o with
  | nil => exact h
  | cons operation rest ih => exact ih (h.perform operation hallowed.1 now) hallowed.2

/-- A run in which less is allowed is a run in which more is. -/
theorem Reachable.mono {allowed permitted : Observation → Operation → Prop}
    (hmono : ∀ o operation, allowed o operation → permitted o operation)
    (h : Reachable allowed o) : Reachable permitted o := by
  induction h with
  | new hnew => exact Reachable.new hnew
  | perform _ operation hallowed now ih =>
      exact ih.perform operation (hmono _ operation hallowed) now

/-- What holds of the observation and of what it becomes where nothing is refused, holds after a
change that may be refused. -/
theorem orRefused_cases {P : Observation → Prop} (hrefused : P o)
    {result : Except DepositError (Observation × List Transition)}
    (hok : ∀ o' transitions, result = .ok (o', transitions) → P o') :
    P (o.orRefused result).1 := by
  cases result with
  | error e => exact hrefused
  | ok change => exact hok change.1 change.2 rfl

theorem orFilesRefused_cases {P : Observation → Prop} (hrefused : P o)
    {result : Except DepositError (List Artefact × List Transition)}
    (hok : ∀ artefacts transitions, result = .ok (artefacts, transitions) →
      P (o.withArtefacts artefacts)) :
    P (o.orFilesRefused result).1 := by
  cases result with
  | error e => exact hrefused
  | ok change => exact hok change.1 change.2 rfl

theorem orOwnRefused_cases {P : Observation → Prop} (hrefused : P o)
    {result : Except DepositError (Observation × Option Transition)}
    (hok : ∀ o' transition, result = .ok (o', transition) → P o') :
    P (o.orRefused (result.map fun (o, transition) => (o, transition.toList))).1 := by
  cases result with
  | error e => exact hrefused
  | ok change => exact hok change.1 change.2 rfl

theorem orRefused_added (o : Observation)
    (result : Except DepositError (Observation × ArtefactId)) :
    let after := (o.orRefused (result.map fun (o, _) => (o, []))).1
    after = o ∨ ∃ id, result = .ok (after, id) := by
  cases result with
  | error e => exact Or.inl rfl
  | ok change => exact Or.inr ⟨change.2, rfl⟩

theorem perform_add_cases (o : Observation) (kind : Kind) (filename : String) (now : Timestamp) :
    (o.perform (.add kind filename) now).1 = o ∨
      ∃ id, o.push .standard kind filename none =
        .ok ((o.perform (.add kind filename) now).1, id) :=
  o.orRefused_added (o.add .standard kind filename)

/-- A file is packed only into an encapsulation that is there. -/
theorem addEncapsulated_spec (h : o.WellFormed) {factory : Factory} {kind : Kind}
    {filename : String} {encapsulation id : ArtefactId}
    (hok : o.addEncapsulated factory kind filename encapsulation = .ok (o', id)) :
    (∃ file ∈ o.artefacts, file.id = encapsulation ∧ file.isEncapsulation = true) ∧
      o.push factory kind filename (some encapsulation) = .ok (o', id) := by
  unfold addEncapsulated at hok
  cases hfind : o.artefact? encapsulation with
  | none => simp [hfind] at hok
  | some file =>
      obtain ⟨hmem, hid⟩ := (artefact?_eq_some_iff h.files).mp hfind
      cases hkind : file.isEncapsulation with
      | false => simp [hfind, hkind] at hok
      | true =>
          rw [hfind, Option.any_some, hkind, if_pos rfl] at hok
          exact ⟨⟨file, hmem, hid, hkind⟩, hok⟩

/-- A file is added to an encapsulation that is there, or nothing changes. -/
theorem perform_addEncapsulated_cases (h : o.WellFormed) (kind : Kind) (filename : String)
    (encapsulation : ArtefactId) (now : Timestamp) :
    (o.perform (.addEncapsulated kind filename encapsulation) now).1 = o ∨
      (∃ file ∈ o.artefacts, file.id = encapsulation ∧ file.isEncapsulation = true) ∧
        ∃ id, o.push .standard kind filename (some encapsulation) =
          .ok ((o.perform (.addEncapsulated kind filename encapsulation) now).1, id) := by
  rcases o.orRefused_added (o.addEncapsulated .standard kind filename encapsulation) with
    hsame | ⟨id, hok⟩
  · exact Or.inl hsame
  · obtain ⟨hfile, hpush⟩ := addEncapsulated_spec h hok
    exact Or.inr ⟨hfile, id, hpush⟩

/-- An operation that adds a file, to an encapsulation that is there if to any, adds it or changes
nothing. -/
theorem perform_adds_cases (h : o.WellFormed) (hadds : operation.adds = true) (now : Timestamp) :
    (o.perform operation now).1 = o ∨
      ∃ kind filename encapsulation id,
        (∀ packed, encapsulation = some packed →
          ∃ file ∈ o.artefacts, file.id = packed ∧ file.isEncapsulation = true) ∧
        o.push .standard kind filename encapsulation = .ok ((o.perform operation now).1, id) := by
  cases operation with
  | add kind filename =>
      refine (perform_add_cases o kind filename now).imp_right fun ⟨id, hok⟩ => ?_
      exact ⟨kind, filename, none, id, fun packed hnone => (nomatch hnone), hok⟩
  | addEncapsulated kind filename encapsulation =>
      refine (perform_addEncapsulated_cases h kind filename encapsulation now).imp_right
        fun ⟨hfile, id, hok⟩ => ?_
      refine ⟨kind, filename, some encapsulation, id, fun packed hsome => ?_, hok⟩
      rw [← Option.some.inj hsome]
      exact hfile
  | _ => cases hadds

/-- Files are added without a report. -/
theorem reported_of_adds (o : Observation) (hadds : operation.adds = true) (now : Timestamp) :
    reported (o.perform operation now).2 = [] := by
  have hsilent : ∀ result : Except DepositError (Observation × ArtefactId),
      reported (o.orRefused (result.map fun (o, _) => (o, []))).2 = [] := by
    intro result
    cases result <;> rfl
  cases operation with
  | add kind filename => exact hsilent _
  | addEncapsulated kind filename encapsulation => exact hsilent _
  | _ => cases hadds

theorem moves_afterCommit (h : o.WellFormed) {file : Artefact} (hfile : file ∈ o.artefacts)
    {change : Artefact × Option Transition} (hcont : file.Continues change.1) (deposits : Bool)
    (now : Timestamp) :
    o.Moves (Encapsulation.afterCommit file.id change deposits now)
      (o.withArtefacts (o.artefacts.map
        (Encapsulation.afterCommit file.id change deposits now))) :=
  moves_withArtefacts (h.files.arranged.continues_afterCommit hfile hcont deposits now)

theorem moves_progress (h : o.WellFormed) (signals : Signals) (now : Timestamp) :
    o.Moves (fileStep o.stage o.artefacts signals now) (o.progress signals now).1 where
  sbid := progress_sbid o signals now
  record := continues_progress_record o signals now
  artefacts := progress_artefacts h.files
  files a _ := continues_fileStep o.stage o.artefacts signals now a

theorem moves_runJobs (h : o.WellFormed) (now : Timestamp) :
    o.Moves (·.afterJobs now) (o.runJobs now).1 := by
  rw [runJobs_eq h.files now]
  exact moves_withArtefacts fun a _ => a.continues_afterJobs now

/-- A change that the own record continues moves no file. -/
theorem advance_spec {stage : Stage} {transition : Option Transition}
    (hok : o.advance stage now = .ok (o', transition)) :
    o'.sbid = o.sbid ∧ o'.artefacts = o.artefacts ∧ o.record.Continues o'.record ∧
      (stage.isFailure = true → o.record.Stays o'.record) := by
  obtain ⟨next, hnext, hafter⟩ := eq_ok_of_map hok
  obtain ⟨hl, ho, hstage, _⟩ := DepositRecord.advanceTo_cases hnext
  have hafter : o' = (o.apply next now).1 := by rw [hafter]
  refine ⟨by rw [hafter, apply_sbid], by rw [hafter, apply_artefacts], ?_, ?_⟩
  · rw [hafter, apply_record]
    exact DepositRecord.continues_replace_advanceTo hnext now
  · intro hfail
    rw [hafter, apply_record]
    exact DepositRecord.Stays.replace hl ho (by rw [DepositState.isFailed, hstage]; exact hfail) now

/-- What is reported where nothing is refused accounts for a change; where it is refused, nothing
changes. -/
theorem accounts_orRefused {way : Way}
    {result : Except DepositError (Observation × List Transition)}
    (hok : ∀ o' log, result = .ok (o', log) → ∃ f, o.Accounts way f log o') :
    ∃ f, o.Accounts way f (reported (o.orRefused result).2) (o.orRefused result).1 := by
  cases result with
  | error e => exact ⟨_, Accounts.refl o⟩
  | ok change => exact hok change.1 change.2 rfl

theorem accounts_orFilesRefused {way : Way}
    {result : Except DepositError (List Artefact × List Transition)}
    (hok : ∀ artefacts log, result = .ok (artefacts, log) →
      ∃ f, o.Accounts way f log (o.withArtefacts artefacts)) :
    ∃ f, o.Accounts way f (reported (o.orFilesRefused result).2) (o.orFilesRefused result).1 := by
  refine accounts_orRefused fun o' log hresult => ?_
  obtain ⟨change, hchange, hpair⟩ := eq_ok_of_map hresult
  cases hpair
  exact hok change.1 change.2 hchange

theorem accounts_orOwnRefused {way : Way}
    {result : Except DepositError (Observation × Option Transition)}
    (hok : ∀ o' transition, result = .ok (o', transition) →
      o.Accounts way (fun a => a) transition.toList o') :
    let after := o.orRefused (result.map fun (o, transition) => (o, transition.toList))
    ∃ f, o.Accounts way f (reported after.2) after.1 := by
  refine accounts_orRefused fun o' log hresult => ?_
  obtain ⟨change, hchange, hpair⟩ := eq_ok_of_map hresult
  cases hpair
  exact ⟨_, hok change.1 change.2 hchange⟩

/-- What an operation that adds no file reports accounts for all that it changes. -/
theorem perform_accounts (h : o.Sound) (hadds : operation.adds = false) (now : Timestamp) :
    let after := o.perform operation now
    ∃ f, o.Accounts operation.way f (reported after.2) after.1 := by
  have hwf := h.wellFormed
  cases operation with
  | add kind filename => cases hadds
  | addEncapsulated kind filename encapsulation => cases hadds
  | setArtefactStage id stage =>
      exact accounts_orRefused fun _ _ hok => accounts_setArtefactStage hwf hok
  | advance stage => exact accounts_orOwnRefused fun _ _ hok => accounts_advance hwf hok
  | progress signals => exact accounts_progress hwf signals now
  | runJobs =>
      obtain ⟨f, hjobs⟩ := accounts_runJobs hwf now
      refine ⟨f, ?_⟩
      simp only [perform, runJobs_eq hwf.files now]
      exact hjobs.mono fun _ _ => Way.report_of_step
  | setEncapsulationStage id stage =>
      exact accounts_orFilesRefused fun _ _ hok => accounts_setStage hwf hok
  | advanceEncapsulation id stage =>
      exact accounts_orFilesRefused fun _ _ hok =>
        accounts_changeFile hwf (fun _ _ hchange => Artefact.accounts_advance hchange) hok
  | progressEncapsulation id signals =>
      obtain ⟨f, hstep⟩ := accounts_progressEncapsulation hwf id signals now
      exact ⟨f, hstep.mono fun _ _ => Way.report_of_step⟩
  | recoverEncapsulation id =>
      exact accounts_orFilesRefused fun _ _ hok =>
        accounts_changeFile hwf (fun _ _ hchange => Artefact.accounts_recover hchange) hok
  | recoverArtefact filename => exact (recovers_recoverArtefact h filename now).accounts
  | recoverAll => exact (recovers_recoverAll h now).accounts
  | recoverOwn => exact accounts_orOwnRefused fun _ _ hok => accounts_recoverOwn hwf hok

/-- An operation that adds no file changes files one by one, and none of them goes back. -/
theorem perform_moves (h : o.Sound) (hadds : operation.adds = false) (now : Timestamp) :
    ∃ f, o.Moves f (o.perform operation now).1 := by
  obtain ⟨f, haccounts⟩ := perform_accounts h hadds now
  exact ⟨f, haccounts.moves⟩

/-- Recoveries leave every effective stage where it is. -/
theorem perform_stays (h : o.Sound) (hrecovers : operation.recovers = true) (now : Timestamp) :
    ∃ f, o.Stays f (o.perform operation now).1 := by
  obtain ⟨f, haccounts⟩ := perform_accounts h (Operation.adds_of_recovers hrecovers) now
  rw [Operation.way, if_pos hrecovers] at haccounts
  exact ⟨f, haccounts.stays⟩

/-- Only progress and a stage that is reported for the observation itself move its effective
stage. -/
theorem stays_perform_record (h : o.Sound) (hprogress : ∀ signals, operation ≠ .progress signals)
    (hadvance : ∀ stage, operation = .advance stage → stage.isFailure = true) (now : Timestamp) :
    o.record.Stays (o.perform operation now).1.record := by
  let P := fun o' : Observation => o.record.Stays o'.record
  have hsame : P o := DepositRecord.Stays.refl _
  have hadded : operation.adds = true → P (o.perform operation now).1 := by
    intro hadds
    rcases perform_adds_cases h.wellFormed hadds now with hrefused | ⟨_, _, _, _, _, hok⟩
    · rw [hrefused]
      exact hsame
    · obtain ⟨_, _, _, l, _, hpushed⟩ := push_spec hok
      rw [hpushed]
      exact hsame
  have hrecovered : operation.recovers = true → P (o.perform operation now).1 := by
    intro hrecovers
    obtain ⟨f, hstays⟩ := perform_stays h hrecovers now
    exact hstays.record
  cases operation with
  | add kind filename | addEncapsulated kind filename encapsulation => exact hadded rfl
  | setArtefactStage id stage =>
      refine orRefused_cases (P := P) hsame fun o' transitions hok => ?_
      obtain ⟨file, _, _, change, _, rfl, _⟩ := setArtefactStage_spec h.wellFormed.files hok
      exact hsame
  | advance stage =>
      exact orOwnRefused_cases (P := P) hsame fun o' transition hok =>
        (advance_spec hok).2.2.2 (hadvance stage rfl)
  | progress signals => exact absurd rfl (hprogress signals)
  | runJobs =>
      change P (o.runJobs now).1
      rw [runJobs_eq h.wellFormed.files now]
      exact hsame
  | setEncapsulationStage id stage | advanceEncapsulation id stage =>
      exact orFilesRefused_cases (P := P) hsame fun artefacts transitions hok => hsame
  | progressEncapsulation id signals => exact hsame
  | recoverEncapsulation id | recoverArtefact filename | recoverAll | recoverOwn =>
      exact hrecovered rfl

theorem Sound.perform (h : o.Sound) (operation : Operation) (now : Timestamp) :
    (o.perform operation now).1.Sound := by
  cases hadds : operation.adds with
  | false =>
      obtain ⟨f, hmoves⟩ := perform_moves h hadds now
      exact h.moves hmoves
  | true =>
      rcases perform_adds_cases h.wellFormed hadds now with
        hrefused | ⟨kind, filename, encapsulation, id, hpacked, hok⟩
      · rw [hrefused]
        exact h
      · exact h.push hpacked hok

/-- In every state of every run the observation is sound. -/
theorem Reachable.sound {allowed : Observation → Operation → Prop} (h : Reachable allowed o) :
    o.Sound := by
  induction h with
  | new hnew => exact (sound_new hnew).1
  | perform _ operation _ now ih => exact ih.perform operation now

/-- A tick of a well-formed observation is never refused.  It leaves a well-formed observation, and
the same one where it reports nothing. -/
theorem WellFormed.tick_spec (h : o.WellFormed) (signals : Signals) (jobs : Bool)
    (now : Timestamp) :
    ∃ o' moved, o.tick signals jobs now = (o', .ok moved) ∧ o'.WellFormed ∧ o'.sbid = o.sbid ∧
      (moved = [] → o' = o) := by
  have hmoves := moves_progress h signals now
  have hsame : (o.progress signals now).2 = [] → (o.progress signals now).1 = o :=
    progress_eq_of_nil h
  have hwf := h.moves hmoves
  unfold tick
  generalize o.progress signals now = progressed at hmoves hsame hwf
  obtain ⟨o', first⟩ := progressed
  cases hjobs : jobs && !o'.isFailed with
  | false =>
      refine ⟨o', first, ?_, hwf, hmoves.sbid, hsame⟩
      simp only [hjobs, Bool.false_eq_true, if_false]
  | true =>
      let packed := (o'.artefacts.filter Artefact.isPackable).map (packedReport now)
      have hrun := runJobs_eq hwf.files now
      have hpacks := moves_withArtefacts (o := o') fun a _ => a.continues_afterJobs now
      refine ⟨_, first ++ packed, ?_, hwf.moves hpacks, hmoves.sbid, ?_⟩
      · simp only [hjobs, if_true, hrun, Except.map]
        rfl
      · intro hnil
        obtain ⟨hfirst, hpacked⟩ := List.append_eq_nil_iff.mp hnil
        rw [afterJobs_eq_of_nil hwf hpacked]
        exact hsame hfirst

end Observation

end Operation

end ArchiveDeposit

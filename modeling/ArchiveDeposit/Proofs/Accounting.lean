import Mathlib.Data.List.Nodup
import ArchiveDeposit.Proofs.Trail
import ArchiveDeposit.Proofs.WellFormed

/-!
# What operations report

An operation gives back the transitions that it made, of several owners in one list.  Read for one
owner at a time, they account for all that became of it: they are the trail from its record before
the operation to its record after.  This holds of each phase of an operation, where files change at
once or one after the other, and phases are put together without loss.

**Results.**
* `Observation.Accounts.trans`: the lists of two operations, one behind the other, account for both.
* `Observation.accounts_each`: so does the list of a phase in which files change at once.
* `Observation.accounts_progress`: so does what a call of progress reports.
* `Observation.recovers_recoverArtefact`, `Observation.recovers_recoverAll`: so does what recoveries
  report, and one that is refused has changed nothing.
* `Observation.Accounts.stays`: recoveries leave every effective stage where it is.
-/

namespace ArchiveDeposit

section Accounting

/-- The transitions of one owner. -/
def transitionsOf (owner : Owner) (log : List Transition) : List Transition :=
  log.filter fun t => t.owner = owner

theorem transitionsOf_append (owner : Owner) (log more : List Transition) :
    transitionsOf owner (log ++ more) = transitionsOf owner log ++ transitionsOf owner more :=
  List.filter_append log more

theorem transitionsOf_eq_self {owner : Owner} {log : List Transition}
    (h : ∀ t ∈ log, t.owner = owner) : transitionsOf owner log = log :=
  List.filter_eq_self.mpr fun t ht => by simpa using h t ht

theorem transitionsOf_eq_nil {owner : Owner} {log : List Transition}
    (h : ∀ t ∈ log, t.owner ≠ owner) : transitionsOf owner log = [] :=
  List.filter_eq_nil_iff.mpr fun t ht => by simpa using h t ht

namespace Artefact

/-- The transitions of a change of one file, and the file after it. -/
structure Accounts (way : Way) (log : List Transition) (a b : Artefact) : Prop where
  continues : a.Continues b
  trail : a.record.Trail way log b.record

variable {way : Way} {a : Artefact} {now : Timestamp}

theorem Continues.owner_eq {b : Artefact} (h : a.Continues b) : b.owner = a.owner := by
  rw [owner, owner, h.parent, h.filename]

theorem accounts_progress (a : Artefact) (around : Surroundings) (now : Timestamp) :
    a.Accounts .step (a.progress around now).2.toList (a.progress around now).1 :=
  ⟨a.continues_progress around now, a.record.trail_progress around now⟩

theorem accounts_advance {stage : Stage} {change : Artefact × Option Transition}
    (h : a.advance stage now = .ok change) : a.Accounts .report change.2.toList change.1 := by
  refine ⟨continues_advance h, ?_⟩
  obtain ⟨changed, hadvance, rfl⟩ := eq_ok_of_map h
  exact DepositRecord.trail_advance hadvance

theorem accounts_recover {change : Artefact × Option Transition}
    (h : a.recover now = .ok change) : a.Accounts .recovery change.2.toList change.1 := by
  refine ⟨(stays_recover h).2, ?_⟩
  obtain ⟨changed, hrecover, rfl⟩ := eq_ok_of_map h
  exact DepositRecord.trail_recover hrecover

/-- The deposit with an encapsulation is the last step of the lifecycle of packed files. -/
theorem accounts_depositPacked (a : Artefact) (now : Timestamp) :
    a.Accounts .step (a.depositPacked now).2.toList (a.depositPacked now).1 := by
  refine ⟨a.continues_depositPacked now, ?_⟩
  rw [depositPacked_eq]
  split
  · next hstage =>
      exact DepositRecord.trail_target (stepFrom?_of_stage_encapsulated hstage) a.state.deposited
        rfl rfl rfl now
  · exact .refl

/-- A simulated job makes a step that the lifecycle leaves to jobs. -/
theorem accounts_packed (h : a.isPackable = true) (now : Timestamp) :
    a.Accounts .step [Observation.packedReport now a] (a.packed now) := by
  have hstep := stepFrom?_of_isPackable h
  let next : DepositState :=
    ⟨.encapsulating, a.state.lifecycle, a.state.owner, Lifecycle.accepts_target hstep⟩
  have hchange : (a.packed now, some (Observation.packedReport now a)) =
      a.withChange (a.record.replace next now) :=
    Except.ok.inj ((advance_of_isPackable h now).symm.trans (advance_target hstep now))
  obtain ⟨hfile, hreport⟩ := Prod.mk.inj hchange
  refine ⟨continues_packed h now, ?_⟩
  have htrail := DepositRecord.trail_target hstep next rfl rfl rfl now
  rw [← show some _ = (a.record.replace next now).2 from hreport] at htrail
  rw [hfile]
  exact htrail

end Artefact

/-- Different files of one parent are different owners. -/
theorem Siblings.eq_of_owner {parent : Parent} {artefacts : List Artefact}
    (h : Siblings parent artefacts) {a b : Artefact} (ha : a ∈ artefacts) (hb : b ∈ artefacts)
    (howner : a.owner = b.owner) : a = b :=
  List.inj_on_of_nodup_map h.distinct ha hb (Owner.artefact.inj howner).2

/-- Files of a parent that report at most one transition each, of their own. -/
theorem transitionsOf_filterMap {files : List Artefact} {report : Artefact → Option Transition}
    (hreport : ∀ b ∈ files, ∀ t ∈ report b, t.owner = b.owner)
    (hdistinct : (files.map Artefact.owner).Nodup) {a : Artefact} (ha : a ∈ files) :
    transitionsOf a.owner (files.filterMap report) = (report a).toList := by
  induction files with
  | nil => cases ha
  | cons b rest ih =>
      obtain ⟨hnew, hrest⟩ := List.nodup_cons.mp hdistinct
      have hreportRest : ∀ c ∈ rest, ∀ t ∈ report c, t.owner = c.owner := fun c hc =>
        hreport c (List.mem_cons_of_mem _ hc)
      have hhead : (b :: rest).filterMap report =
          (report b).toList ++ rest.filterMap report := by
        cases hb : report b <;> simp [hb]
      rw [hhead, transitionsOf_append]
      rcases List.mem_cons.mp ha with rfl | hmem
      · rw [transitionsOf_eq_self, transitionsOf_eq_nil, List.append_nil]
        · intro t ht
          obtain ⟨c, hc, htc⟩ := List.mem_filterMap.mp ht
          rw [hreportRest c hc t htc]
          exact fun heq => hnew (heq ▸ List.mem_map_of_mem hc)
        · exact fun t ht => hreport _ List.mem_cons_self t (by simpa using ht)
      · rw [transitionsOf_eq_nil, List.nil_append]
        · exact ih hreportRest hrest hmem
        · intro t ht
          rw [hreport b List.mem_cons_self t (by simpa using ht)]
          exact fun heq => hnew (heq ▸ List.mem_map_of_mem hmem)

namespace Observation

variable {o o' o'' : Observation} {f g : Artefact → Artefact} {way : Way}
  {log more : List Transition} {signals : Signals} {now : Timestamp}

/-- The owners of an observation are the observation itself and its files. -/
def Owns (o : Observation) (owner : Owner) : Prop :=
  owner = .observation o.sbid ∨ ∃ a ∈ o.artefacts, owner = a.owner

theorem Moves.owns_iff (h : o.Moves f o') {owner : Owner} : o'.Owns owner ↔ o.Owns owner := by
  have hfiles : (∃ b ∈ o'.artefacts, owner = b.owner) ↔ ∃ a ∈ o.artefacts, owner = a.owner := by
    rw [h.artefacts]
    constructor
    · rintro ⟨b, hb, howner⟩
      obtain ⟨a, ha, rfl⟩ := List.mem_map.mp hb
      exact ⟨a, ha, howner.trans (h.files a ha).owner_eq⟩
    · rintro ⟨a, ha, howner⟩
      exact ⟨f a, List.mem_map_of_mem ha, howner.trans (h.files a ha).owner_eq.symm⟩
  rw [Owns, Owns, h.sbid, hfiles]

/-- Transitions that account for a change of an observation: those of each owner are the trail of
its record, and there are no others. -/
structure Accounts (way : Way) (f : Artefact → Artefact) (log : List Transition)
    (o o' : Observation) : Prop where
  moves : o.Moves f o'
  own : o.record.Trail way (transitionsOf (.observation o.sbid) log) o'.record
  files : ∀ a ∈ o.artefacts, a.record.Trail way (transitionsOf a.owner log) (f a).record
  owners : ∀ t ∈ log, o.Owns t.owner

theorem Accounts.mono {other : Way} (h : o.Accounts way f log o')
    (hmono : ∀ r next, way r next → other r next) : o.Accounts other f log o' where
  moves := h.moves
  own := h.own.mono hmono
  files a ha := (h.files a ha).mono hmono
  owners := h.owners

theorem Accounts.refl (o : Observation) : o.Accounts way (fun a => a) [] o where
  moves := Moves.refl o
  own := .refl
  files _ _ := .refl
  owners _ ht := nomatch ht

/-- What two changes report, one behind the other, accounts for both. -/
theorem Accounts.trans (h : o.Accounts way f log o') (h' : o'.Accounts way g more o'') :
    o.Accounts way (g ∘ f) (log ++ more) o'' where
  moves := h.moves.trans h'.moves
  own := by
    have hown := h'.own
    rw [h.moves.sbid] at hown
    rw [transitionsOf_append]
    exact h.own.trans hown
  files a ha := by
    have hfile := h'.files (f a) (by rw [h.moves.artefacts]; exact List.mem_map_of_mem ha)
    rw [(h.moves.files a ha).owner_eq] at hfile
    rw [transitionsOf_append]
    exact (h.files a ha).trans hfile
  owners t ht := (List.mem_append.mp ht).elim (h.owners t) fun hsecond =>
    h.moves.owns_iff.mp (h'.owners t hsecond)

/-- Where nothing is reported nothing has changed. -/
theorem Accounts.eq_of_nil (h : o.Accounts way f [] o') :
    o'.record = o.record ∧ o'.artefacts = o.artefacts := by
  refine ⟨h.own.eq_of_nil, ?_⟩
  rw [h.moves.artefacts, List.map_congr_left (g := id), List.map_id]
  exact fun a ha => (h.moves.files a ha).eq_of_record (h.files a ha).eq_of_nil

/-- Transitions of files that account for what becomes of each of them. -/
theorem accounts_withArtefacts
    (hfiles : ∀ a ∈ o.artefacts, a.Accounts way (transitionsOf a.owner log) (f a))
    (howners : ∀ t ∈ log, ∃ a ∈ o.artefacts, t.owner = a.owner) :
    o.Accounts way f log (o.withArtefacts (o.artefacts.map f)) where
  moves := moves_withArtefacts fun a ha => (hfiles a ha).continues
  own := by
    rw [transitionsOf_eq_nil]
    · exact .refl
    · intro t ht heq
      obtain ⟨a, _, howner⟩ := howners t ht
      cases howner.symm.trans heq
  files a ha := (hfiles a ha).trail
  owners t ht := Or.inr (howners t ht)

/-- A transition of a file of a well-formed observation carries the file as its owner. -/
theorem WellFormed.owner_of_mem (h : o.WellFormed) {a b : Artefact} (ha : a ∈ o.artefacts)
    (haccounts : a.Accounts way log b) : ∀ t ∈ log, t.owner = a.owner := fun t ht =>
  (haccounts.trail.owner_of_mem t ht).trans (h.files.belongs a ha).owner

/-- The files that are asked change at once, each reporting for itself, in whatever order. -/
theorem accounts_each (h : o.WellFormed) (asked : Artefact → Bool)
    (change : Artefact → Artefact × Option Transition) {files : List Artefact}
    (hfiles : files.Perm (o.artefacts.filter asked))
    (hchange : ∀ a ∈ o.artefacts, asked a = true →
      a.Accounts way (change a).2.toList (change a).1) :
    o.Accounts way (fun a => if asked a then (change a).1 else a)
      (files.filterMap fun a => (change a).2)
      (o.withArtefacts (o.artefacts.map fun a => if asked a then (change a).1 else a)) := by
  have hmem : ∀ a, a ∈ files ↔ a ∈ o.artefacts ∧ asked a = true := fun a =>
    hfiles.mem_iff.trans List.mem_filter
  have hreport : ∀ b ∈ files, ∀ t ∈ (change b).2, t.owner = b.owner := by
    intro b hb t ht
    obtain ⟨hold, hasked⟩ := (hmem b).mp hb
    exact h.owner_of_mem hold (hchange b hold hasked) t (by simpa using ht)
  have hdistinct : (files.map Artefact.owner).Nodup := by
    have hnames : ((o.artefacts.map Artefact.owner).map Owner.filename).Nodup := by
      rw [List.map_map]
      exact h.files.distinct
    exact (hfiles.map _).nodup_iff.mpr
      ((List.Nodup.of_map _ hnames).sublist (List.filter_sublist.map _))
  apply accounts_withArtefacts
  · intro a ha
    by_cases hasked : asked a = true
    · rw [if_pos hasked, transitionsOf_filterMap hreport hdistinct ((hmem a).mpr ⟨ha, hasked⟩)]
      exact hchange a ha hasked
    · rw [if_neg hasked, transitionsOf_eq_nil]
      · exact ⟨Artefact.Continues.refl a, .refl⟩
      · intro t ht heq
        obtain ⟨b, hb, htb⟩ := List.mem_filterMap.mp ht
        obtain ⟨hold, haskedB⟩ := (hmem b).mp hb
        have hsame := h.files.eq_of_owner ha hold (heq.symm.trans (hreport b hb t htb))
        exact hasked (hsame ▸ haskedB)
  · intro t ht
    obtain ⟨b, hb, htb⟩ := List.mem_filterMap.mp ht
    exact ⟨b, ((hmem b).mp hb).1, hreport b hb t htb⟩

/-- One file changes in its place. -/
theorem accounts_set (h : o.WellFormed) {file b : Artefact} (hfile : file ∈ o.artefacts)
    (hchange : file.Accounts way log b) :
    o.Accounts way (fun a => if a.id = file.id then b else a) log
      (o.withArtefacts (o.artefacts.set file.id.index b)) := by
  have howner := h.owner_of_mem hfile hchange
  rw [h.files.arranged.set_eq_map hfile]
  apply accounts_withArtefacts
  · intro a ha
    by_cases hid : a.id = file.id
    · rw [if_pos hid, h.files.arranged.eq_of_id ha hfile hid, transitionsOf_eq_self howner]
      exact hchange
    · rw [if_neg hid, transitionsOf_eq_nil]
      · exact ⟨Artefact.Continues.refl a, .refl⟩
      · intro t ht heq
        exact hid (congrArg Artefact.id
          (h.files.eq_of_owner ha hfile (heq.symm.trans (howner t ht))))
  · exact fun t ht => ⟨file, hfile, howner t ht⟩

theorem accounts_depositMembers (h : o.WellFormed) (id : ArtefactId) (now : Timestamp) :
    ∃ f, o.Accounts .step f (Encapsulation.depositMembers o.artefacts id now).2
      (o.withArtefacts (Encapsulation.depositMembers o.artefacts id now).1) := by
  refine ⟨_, accounts_each h (·.isMemberOf id) (·.depositPacked now) (stableSort_perm _ _) ?_⟩
  exact fun a _ _ => a.accounts_depositPacked now

/-- The change of the file of an encapsulation, and the deposit of its members behind it. -/
theorem accounts_commit (h : o.WellFormed) {file : Artefact} (hfile : file ∈ o.artefacts)
    {change : Artefact × Option Transition} (hchange : file.Accounts way change.2.toList change.1)
    (deposits : Bool) (hdeposits : deposits = true → ∀ r next, Way.step r next → way r next)
    (now : Timestamp) :
    let commit := Encapsulation.commit o.artefacts file.id file.id.index change deposits now
    ∃ f, o.Accounts way f commit.2 (o.withArtefacts commit.1) := by
  have hset := accounts_set h hfile hchange
  unfold Encapsulation.commit
  cases hreport : change.2 with
  | none => exact ⟨_, Accounts.refl o⟩
  | some t =>
      rw [hreport] at hset
      cases deposits with
      | false => exact ⟨_, hset⟩
      | true =>
          obtain ⟨g, hmembers⟩ := accounts_depositMembers (h.moves hset.moves) file.id now
          exact ⟨_, hset.trans (hmembers.mono (hdeposits rfl))⟩

theorem accounts_progressEncapsulation (h : o.WellFormed) (id : ArtefactId) (signals : Signals)
    (now : Timestamp) :
    let step := Encapsulation.progress o.artefacts id signals now
    ∃ f, o.Accounts .step f step.2 (o.withArtefacts step.1) := by
  unfold Encapsulation.progress
  split
  · exact ⟨_, Accounts.refl o⟩
  · next place file hfind =>
      obtain ⟨hfile, rfl, rfl, _⟩ := h.files.arranged.mem_of_find? hfind
      exact accounts_commit h hfile (file.accounts_progress _ now) _ (fun _ _ _ hstep => hstep)
        now

/-- The report of a job for an encapsulation changes its file and what is deposited with it, or there
is no such encapsulation. -/
theorem commit_of_setStage (h : o.WellFormed) {id : ArtefactId} {stage : Stage}
    {artefacts : List Artefact}
    (hok : Encapsulation.setStage o.artefacts id stage now = .ok (artefacts, log)) :
    (artefacts, log) = (o.artefacts, []) ∨
      ∃ file ∈ o.artefacts, ∃ change deposits, file.advance stage now = .ok change ∧
        (artefacts, log) =
          Encapsulation.commit o.artefacts file.id file.id.index change deposits now := by
  unfold Encapsulation.setStage at hok
  split at hok
  · exact Or.inl (Except.ok.inj hok).symm
  · next place file hfind =>
      obtain ⟨hfile, rfl, rfl, _⟩ := h.files.arranged.mem_of_find? hfind
      split at hok
      · cases hok
      · next change hadvance =>
          dsimp only at hok
          split at hok
          · cases hok
          · exact Or.inr ⟨file, hfile, change, _, hadvance, (Except.ok.inj hok).symm⟩

/-- A change of the file of an encapsulation alone. -/
theorem commit_of_changeFile (h : o.WellFormed) {id : ArtefactId}
    {change : Artefact → Except DepositError (Artefact × Option Transition)}
    {artefacts : List Artefact}
    (hok : Encapsulation.changeFile o.artefacts id change now = .ok (artefacts, log)) :
    (artefacts, log) = (o.artefacts, []) ∨
      ∃ file ∈ o.artefacts, ∃ changed, change file = .ok changed ∧
        (artefacts, log) =
          Encapsulation.commit o.artefacts file.id file.id.index changed false now := by
  unfold Encapsulation.changeFile at hok
  split at hok
  · exact Or.inl (Except.ok.inj hok).symm
  · next place file hfind =>
      obtain ⟨hfile, rfl, rfl, _⟩ := h.files.arranged.mem_of_find? hfind
      obtain ⟨changed, hchanged, hpair⟩ := eq_ok_of_map hok
      exact Or.inr ⟨file, hfile, changed, hchanged, hpair.symm⟩

theorem accounts_setStage (h : o.WellFormed) {id : ArtefactId} {stage : Stage}
    {artefacts : List Artefact}
    (hok : Encapsulation.setStage o.artefacts id stage now = .ok (artefacts, log)) :
    ∃ f, o.Accounts .report f log (o.withArtefacts artefacts) := by
  rcases commit_of_setStage h hok with hnone | ⟨file, hfile, change, deposits, hadvance, hcommit⟩
  · cases hnone
    exact ⟨_, Accounts.refl o⟩
  · have haccounts := accounts_commit h hfile (Artefact.accounts_advance hadvance) deposits
      (fun _ _ _ => Way.report_of_step) now
    rw [← hcommit] at haccounts
    exact haccounts

theorem accounts_changeFile (h : o.WellFormed) {id : ArtefactId}
    {change : Artefact → Except DepositError (Artefact × Option Transition)}
    (hchange : ∀ a changed, change a = .ok changed → a.Accounts way changed.2.toList changed.1)
    {artefacts : List Artefact}
    (hok : Encapsulation.changeFile o.artefacts id change now = .ok (artefacts, log)) :
    ∃ f, o.Accounts way f log (o.withArtefacts artefacts) := by
  rcases commit_of_changeFile h hok with hnone | ⟨file, hfile, changed, hchanged, hcommit⟩
  · cases hnone
    exact ⟨_, Accounts.refl o⟩
  · have haccounts := accounts_commit h hfile (hchange file changed hchanged) false
      (fun hfalse => nomatch hfalse) now
    rw [← hcommit] at haccounts
    exact haccounts

theorem accounts_progressEach (ids : List ArtefactId) (signals : Signals) (now : Timestamp) :
    ∀ {o : Observation}, o.WellFormed →
      ∃ f, o.Accounts .step f (progressEach signals now ids o.artefacts).2
        (o.withArtefacts (progressEach signals now ids o.artefacts).1) := by
  induction ids with
  | nil => exact fun {o} _ => ⟨_, Accounts.refl o⟩
  | cons id rest ih =>
      intro o h
      obtain ⟨f, hfirst⟩ := accounts_progressEncapsulation h id signals now
      obtain ⟨g, hrest⟩ := ih (h.moves hfirst.moves)
      exact ⟨_, hfirst.trans hrest⟩

/-- The steps of the files in a call of progress. -/
theorem accounts_progressFiles (h : o.WellFormed) (stage : Stage) (signals : Signals)
    (now : Timestamp) :
    ∃ f, o.Accounts .step f (progressFiles stage o.artefacts signals now).2
      (o.withArtefacts (progressFiles stage o.artefacts signals now).1) := by
  unfold progressFiles
  cases inScope? stage with
  | none => exact ⟨_, Accounts.refl o⟩
  | some inScope =>
      have hchildren := accounts_each h (fun a => inScope a && !a.isEncapsulation)
        (fun a => a.progress (childSurroundings o.artefacts signals a) now)
        (stableSort_perm Artefact.compareChildren _)
        fun a _ _ => a.accounts_progress (childSurroundings o.artefacts signals a) now
      by_cases hstage : stage = .depositing
      · simp only [hstage, if_true]
        obtain ⟨g, hfiles⟩ := accounts_progressEach _ signals now (h.moves hchildren.moves)
        exact ⟨_, hchildren.trans hfiles⟩
      · simp only [hstage, if_false]
        exact ⟨_, hchildren⟩

/-- A change of the own record. -/
theorem accounts_record (h : o.WellFormed) (hsbid : o'.sbid = o.sbid)
    (hfiles : o'.artefacts = o.artefacts) (hrecord : o.record.Continues o'.record)
    (htrail : o.record.Trail way log o'.record) : o.Accounts way (fun a => a) log o' := by
  have howner : ∀ t ∈ log, t.owner = .observation o.sbid := fun t ht =>
    (htrail.owner_of_mem t ht).trans h.owner
  refine ⟨moves_record hsbid hrecord hfiles, ?_, fun a _ => ?_, fun t ht => Or.inl (howner t ht)⟩
  · rw [transitionsOf_eq_self howner]
    exact htrail
  · rw [transitionsOf_eq_nil]
    · exact .refl
    · intro t ht heq
      cases (howner t ht).symm.trans heq

theorem accounts_apply (h : o.WellFormed) {next : DepositState}
    (htrail : o.record.Trail .report (o.record.replace next now).2.toList
      (o.record.replace next now).1) :
    o.Accounts .report (fun a => a) (o.apply next now).2.toList (o.apply next now).1 := by
  apply accounts_record h (by simp) (by simp)
  · simpa using htrail.continues
  · simpa using htrail

theorem trail_ownNext (o : Observation) (artefacts : List Artefact) (signals : Signals)
    (now : Timestamp) :
    o.record.Trail .report (o.record.replace (o.ownNext artefacts signals) now).2.toList
      (o.record.replace (o.ownNext artefacts signals) now).1 := by
  unfold ownNext
  split
  · exact o.record.trail_failed now
  · exact (o.record.trail_progress _ now).mono fun _ _ => Way.report_of_step

theorem accounts_progress (h : o.WellFormed) (signals : Signals) (now : Timestamp) :
    ∃ f, o.Accounts .report f (o.progress signals now).2 (o.progress signals now).1 := by
  obtain ⟨f, hfiles⟩ := accounts_progressFiles h o.stage signals now
  have hown := accounts_apply (h.moves hfiles.moves) (o.trail_ownNext
    (progressFiles o.stage o.artefacts signals now).1 signals now)
  rw [progress_eq]
  exact ⟨_, (hfiles.mono fun _ _ => Way.report_of_step).trans hown⟩

/-- A call of progress that reports nothing changes nothing, the times noted included. -/
theorem progress_eq_of_nil (h : o.WellFormed) (hnone : (o.progress signals now).2 = []) :
    (o.progress signals now).1 = o := by
  rw [progress_eq] at hnone ⊢
  obtain ⟨hfiles, hown⟩ := List.append_eq_nil_iff.mp hnone
  obtain ⟨f, haccounts⟩ := accounts_progressFiles h o.stage signals now
  rw [hfiles] at haccounts
  have hsame : (progressFiles o.stage o.artefacts signals now).1 = o.artefacts :=
    haccounts.eq_of_nil.2
  have happly : ∀ (o : Observation) (next : DepositState),
      (o.apply next now).2 = none → (o.apply next now).1 = o := by
    intro o next hsnd
    rw [apply_snd] at hsnd
    simp only [apply, hsnd]
  exact (happly _ _ (Option.toList_eq_nil_iff.mp hown)).trans (by rw [hsame]; rfl)

theorem accounts_runJobs (h : o.WellFormed) (now : Timestamp) :
    ∃ f, o.Accounts .step f ((o.artefacts.filter Artefact.isPackable).map (packedReport now))
      (o.withArtefacts (o.artefacts.map (·.afterJobs now))) := by
  have hjobs := accounts_each h Artefact.isPackable
    (fun a => (a.packed now, some (packedReport now a))) (List.Perm.refl _)
    fun a _ hpack => a.accounts_packed hpack now
  rw [List.filterMap_eq_map'] at hjobs
  exact ⟨_, hjobs⟩

/-- Simulated jobs that report nothing change nothing. -/
theorem afterJobs_eq_of_nil (h : o.WellFormed)
    (hnone : (o.artefacts.filter Artefact.isPackable).map (packedReport now) = []) :
    o.artefacts.map (·.afterJobs now) = o.artefacts := by
  obtain ⟨f, haccounts⟩ := accounts_runJobs h now
  rw [hnone] at haccounts
  exact haccounts.eq_of_nil.2

/-- The report of a job for a file is one for an encapsulation, or it changes the file alone. -/
theorem setArtefactStage_cases (h : o.WellFormed) {id : ArtefactId} {stage : Stage}
    (hok : o.setArtefactStage id stage now = .ok (o', log)) :
    (∃ artefacts, Encapsulation.setStage o.artefacts id stage now = .ok (artefacts, log) ∧
        o' = o.withArtefacts artefacts) ∨
      ∃ file ∈ o.artefacts, ∃ change, file.advance stage now = .ok change ∧
        log = change.2.toList ∧
          o' = o.withArtefacts (o.artefacts.set file.id.index change.1) := by
  unfold setArtefactStage at hok
  split at hok
  · cases hok
  · next file hfind =>
      obtain ⟨hfile, rfl⟩ := (artefact?_eq_some_iff h.files).mp hfind
      split at hok
      · obtain ⟨changed, hset, hpair⟩ := eq_ok_of_map hok
        cases hpair
        exact Or.inl ⟨_, hset, rfl⟩
      · obtain ⟨change, hadvance, hpair⟩ := eq_ok_of_map hok
        cases hpair
        exact Or.inr ⟨file, hfile, change, hadvance, rfl, rfl⟩

theorem accounts_setArtefactStage (h : o.WellFormed) {id : ArtefactId} {stage : Stage}
    (hok : o.setArtefactStage id stage now = .ok (o', log)) :
    ∃ f, o.Accounts .report f log o' := by
  rcases setArtefactStage_cases h hok with
    ⟨artefacts, hset, rfl⟩ | ⟨file, hfile, change, hadvance, rfl, rfl⟩
  · exact accounts_setStage h hset
  · exact ⟨_, accounts_set h hfile (Artefact.accounts_advance hadvance)⟩

theorem accounts_advance (h : o.WellFormed) {stage : Stage} {transition : Option Transition}
    (hok : o.advance stage now = .ok (o', transition)) :
    o.Accounts .report (fun a => a) transition.toList o' := by
  obtain ⟨next, hnext, hpair⟩ := eq_ok_of_map hok
  have happly := accounts_apply h (DepositRecord.trail_replace_advanceTo hnext now)
  rw [hpair] at happly
  exact happly

theorem accounts_recoverOwn (h : o.WellFormed) {transition : Option Transition}
    (hok : o.recoverOwn now = .ok (o', transition)) :
    o.Accounts .recovery (fun a => a) transition.toList o' := by
  obtain ⟨hsbid, hfiles, hrecord⟩ := recoverOwn_spec hok
  obtain ⟨change, hrecover, hpair⟩ := eq_ok_of_map hok
  cases hpair
  exact accounts_record h hsbid hfiles hrecord.continues (DepositRecord.trail_recover hrecover)

/-- What is reported; nothing where it is refused. -/
def reported : Except RecoveryError (List Transition) → List Transition
  | .ok log => log
  | .error _ => []

/-- Recoveries leave every effective stage where it is. -/
theorem Accounts.stays (h : o.Accounts .recovery f log o') : o.Stays f o' where
  moves := h.moves
  record := ⟨h.moves.record, fun _ => h.own.effectiveStage⟩
  files a ha := ⟨(h.moves.files a ha).record, fun _ => (h.files a ha).effectiveStage⟩

theorem recoverOwn_of_isFailed (hr : o.record.Sound) (hfail : o.isFailed = true)
    (now : Timestamp) : ∃ o' transition, o.recoverOwn now = .ok (o', transition) := by
  obtain ⟨next, hrecover, _⟩ := DepositRecord.recover_of_isFailed hr hfail now
  rw [recoverOwn, hrecover]
  exact ⟨_, _, rfl⟩

/-- A recovery that is refused before it changes anything, or that reports all it changes. -/
def Recovers (o : Observation) (after : Observation × Except RecoveryError (List Transition)) :
    Prop :=
  (∃ e, after = (o, .error e)) ∨
    ∃ o' log f, after = (o', .ok log) ∧ o.Accounts .recovery f log o'

namespace Recovers

variable {after : Observation × Except RecoveryError (List Transition)}

theorem accounts (h : o.Recovers after) :
    ∃ f, o.Accounts .recovery f (reported after.2) after.1 := by
  obtain ⟨e, rfl⟩ | ⟨o', log, f, rfl, haccounts⟩ := h
  · exact ⟨_, Accounts.refl o⟩
  · exact ⟨f, haccounts⟩

theorem eq_of_error (h : o.Recovers after) {e : RecoveryError} (herror : after.2 = .error e) :
    after.1 = o := by
  obtain ⟨e', rfl⟩ | ⟨o', log, f, rfl, _⟩ := h
  · rfl
  · cases herror

end Recovers

/-- Taking one file back, and the observation with it if nothing else keeps it failed. -/
theorem recovers_recoverArtefact (h : o.Sound) (filename : String) (now : Timestamp) :
    o.Recovers (o.recoverArtefact filename now) := by
  unfold recoverArtefact
  split
  · next place file hplace hfile =>
      obtain ⟨hmem, _, rfl⟩ := findIdx?_named? h.wellFormed hplace hfile
      split
      · exact Or.inl ⟨_, rfl⟩
      · next hfailed =>
          have hfail : file.isFailed = true := by simpa using hfailed
          have hrecover := Artefact.recover_of_isFailed (h.files file hmem) hfail now
          have hset := accounts_set h.wellFormed hmem (Artefact.accounts_recover hrecover)
          have hafter := h.moves hset.moves
          simp only [hrecover]
          split
          · next hback =>
              obtain ⟨o', own, hown⟩ :=
                recoverOwn_of_isFailed hafter.record (Bool.and_eq_true_iff.mp hback).1 now
              simp only [hown]
              exact Or.inr ⟨_, _, _, rfl, hset.trans (accounts_recoverOwn hafter.wellFormed hown)⟩
          · exact Or.inr ⟨_, _, _, rfl, hset⟩
  · exact Or.inl ⟨_, rfl⟩

/-- Taking back every failed file of a list whose records are sound is never refused. -/
theorem recoverEach_eq (now : Timestamp) {artefacts : List Artefact}
    (h : ∀ a ∈ artefacts, a.record.Sound) :
    recoverEach now artefacts =
      (artefacts.map fun a => if a.isFailed then a.recovered now else a,
        .ok ((artefacts.filter Artefact.isFailed).filterMap (·.recoveryReport now))) := by
  induction artefacts with
  | nil => rfl
  | cons a rest ih =>
      have hrest := ih fun b hb => h b (List.mem_cons_of_mem _ hb)
      by_cases hfail : a.isFailed = true
      · have hrecover := Artefact.recover_of_isFailed (h a List.mem_cons_self) hfail now
        cases hreport : a.recoveryReport now <;>
          simp [recoverEach, hfail, hrecover, hrest, hreport, Except.map]
      · simp [recoverEach, hfail, hrest]

/-- Taking an observation and all its failed files back. -/
theorem recovers_recoverAll (h : o.Sound) (now : Timestamp) : o.Recovers (o.recoverAll now) := by
  unfold recoverAll
  split
  · exact Or.inl ⟨_, rfl⟩
  · next hfailed =>
      have hfiles := accounts_each h.wellFormed Artefact.isFailed
        (fun a => (a.recovered now, a.recoveryReport now)) (List.Perm.refl _)
        fun a ha hfail => Artefact.accounts_recover
          (Artefact.recover_of_isFailed (h.files a ha) hfail now)
      have hafter := h.moves hfiles.moves
      obtain ⟨o', own, hown⟩ := recoverOwn_of_isFailed hafter.record
        (show o.isFailed = true by simpa using hfailed) now
      simp only [recoverEach_eq now h.files, hown]
      exact Or.inr ⟨_, _, _, rfl, hfiles.trans (accounts_recoverOwn hafter.wellFormed hown)⟩

end Observation

end Accounting

end ArchiveDeposit

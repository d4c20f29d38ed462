import ArchiveDeposit.Proofs.Operation

/-!
# The audit log

All that the operations of a run report, one behind the other, is a log of the run.  Read for one
owner it is the trail of its record from the first state on, and so everything that a record knows
of its past can be told from the log: the stage it stands at, how often it failed, and where its
failure came from.

A file is added under a name that no file bears yet, so nothing in the log before carries its owner.

**Results.**
* `DepositRecord.Trail.audited`: what a trail from a new record tells of the record it leads to.
* `Observation.Told.perform`: every operation, adding files or not, keeps the log complete.
* `Observation.audited_of_logged`: in every state of every run the log tells every record.
-/

namespace ArchiveDeposit

section AuditLog

namespace DepositRecord

variable {r s : DepositRecord} {next : DepositState} {log : List Transition}

/-- While the owner is failed, the last transitions stay among the failures from an entry on, and
the checkpoint is the stage that the entry left; otherwise there is no checkpoint. -/
structure KeepsEntry (r : DepositRecord) (log : List Transition) : Prop where
  failed : r.isFailed = true → ∃ before entry after, log = before ++ entry :: after ∧
    entry.source.isFailure = false ∧ (∀ t ∈ entry :: after, t.target.isFailure = true) ∧
      r.checkpoint = some entry.source
  notFailed : r.isFailed = false → r.checkpoint = none

/-- A record as the transitions of its owner tell it. -/
structure Audited (r : DepositRecord) (log : List Transition) : Prop where
  leads : Leads r.state.lifecycle.initial log r.state.stage
  failureCount : failuresIn log < UInt32.size → r.failureCount.toNat = failuresIn log
  entry : r.KeepsEntry log

theorem keepsEntry_new (l : Lifecycle) (owner : Owner) :
    (new (.initial l owner)).KeepsEntry [] where
  failed hfail := by
    have hnot : (new (.initial l owner)).isFailed = false :=
      Lifecycle.isFailure_of_isOnLine l.isOnLine_initial
    rw [hnot] at hfail
    cases hfail
  notFailed _ := rfl

theorem KeepsEntry.replace (h : r.KeepsEntry log) (next : DepositState) (now : Timestamp) :
    (r.replace next now).1.KeepsEntry (log ++ (r.replace next now).2.toList) := by
  by_cases hsame : next.stage = r.state.stage
  · rw [replace_of_stage_eq hsame]
    simpa using h
  · rw [replace_of_stage_ne hsame, Option.toList_some]
    constructor
    · intro hfail
      have hnext : next.stage.isFailure = true := hfail
      have hcount : next.isFailed = true := hfail
      cases hbefore : r.isFailed with
      | false => exact ⟨log, _, [], rfl, hbefore, by simpa using hnext, by simp [hcount]⟩
      | true =>
          -- one failure after another: the entry stays where it was
          obtain ⟨before, entry, after, rfl, hsource, htargets, hcheckpoint⟩ := h.failed hbefore
          refine ⟨before, entry, after ++ [⟨next.owner, r.state.stage, next.stage, now⟩], by simp,
            hsource, fun t ht => ?_, by simp [hcount, hcheckpoint]⟩
          rw [← List.cons_append] at ht
          rcases List.mem_append.mp ht with hold | hlast
          · exact htargets t hold
          · rw [List.mem_singleton.mp hlast]
            exact hnext
    · intro hnot
      have hnext : next.isFailed = false := hnot
      cases hbefore : r.isFailed with
      | false => simp [hnext, h.notFailed hbefore]
      | true => simp [hnext]

theorem Trail.keepsEntry {way : Way} (h : Trail way r log s) (hr : r.KeepsEntry []) :
    s.KeepsEntry log := by
  induction h with
  | refl => exact hr
  | change _ _ _ _ now ih => exact ih.replace _ now

/-- The transitions from a new record on tell the record that they lead to. -/
theorem Trail.audited {way : Way} {l : Lifecycle} {owner : Owner}
    (h : Trail way (new (.initial l owner)) log s) : s.Audited log where
  leads := by
    rw [h.lifecycle]
    exact h.leads
  failureCount hlt := by
    have hzero : (new (.initial l owner)).failureCount = 0 := rfl
    rw [h.failureCount, hzero, UInt32.zero_add, UInt32.toNat_ofNat_of_lt' hlt]
  entry := h.keepsEntry (keepsEntry_new l owner)

end DepositRecord

namespace Observation

variable {o o' : Observation} {log more : List Transition}

/-- A log that tells the records of an observation and of its files from their first states on, and
nothing else. -/
structure Told (log : List Transition) (o : Observation) : Prop where
  own : DepositRecord.Trail .any (.new (.initial .observation (.observation o.sbid)))
    (transitionsOf (.observation o.sbid) log) o.record
  files : ∀ a ∈ o.artefacts, DepositRecord.Trail .any (.new (.initial a.state.lifecycle a.owner))
    (transitionsOf a.owner log) a.record
  owners : ∀ t ∈ log, o.Owns t.owner

theorem told_fresh (sbid : Sbid) : Told [] (fresh sbid) where
  own := .refl
  files _ ha := nomatch ha
  owners _ ht := nomatch ht

/-- A log goes on with transitions that account for a change. -/
theorem Told.append {way : Way} {f : Artefact → Artefact} (h : Told log o)
    (hchange : o.Accounts way f more o') : Told (log ++ more) o' where
  own := by
    rw [hchange.moves.sbid, transitionsOf_append]
    exact h.own.trans (hchange.own.mono fun _ _ _ => trivial)
  files b hb := by
    rw [hchange.moves.artefacts] at hb
    obtain ⟨a, ha, rfl⟩ := List.mem_map.mp hb
    have hcont := hchange.moves.files a ha
    rw [hcont.owner_eq, show (f a).state.lifecycle = a.state.lifecycle from hcont.record.lifecycle,
      transitionsOf_append]
    exact (h.files a ha).trans ((hchange.files a ha).mono fun _ _ _ => trivial)
  owners t ht := by
    rcases List.mem_append.mp ht with hold | hnew
    · exact hchange.moves.owns_iff.mpr (h.owners t hold)
    · exact hchange.moves.owns_iff.mpr (hchange.owners t hnew)

/-- Nothing that was reported carries the owner of a file that is added. -/
theorem Told.push (h : Told log o) {kind : Kind} {filename : String}
    {encapsulation : Option ArtefactId} {id : ArtefactId}
    (hok : o.push .standard kind filename encapsulation = .ok (o', id)) : Told log o' := by
  obtain ⟨_, hname, _, l, _, rfl⟩ := push_spec hok
  refine ⟨h.own, fun a ha => ?_, fun t ht => ?_⟩
  · rcases List.mem_append.mp ha with hold | hnew
    · exact h.files a hold
    · rw [List.mem_singleton.mp hnew, transitionsOf_eq_nil]
      · exact .refl
      · intro t ht heq
        rcases h.owners t ht with hown | ⟨b, hb, howner⟩
        · cases hown.symm.trans heq
        · have hsame : b.filename = filename :=
            (Owner.artefact.inj (howner.symm.trans heq)).2
          rw [named?, List.find?_eq_none] at hname
          exact hname b hb (by simpa using hsame)
  · rcases h.owners t ht with hown | ⟨b, hb, howner⟩
    · exact Or.inl hown
    · exact Or.inr ⟨b, List.mem_append_left _ hb, howner⟩

/-- Every operation keeps the log complete, whether it is refused or not. -/
theorem Told.perform (h : Told log o) (hsound : o.Sound) (operation : Operation)
    (now : Timestamp) :
    Told (log ++ reported (o.perform operation now).2) (o.perform operation now).1 := by
  cases hadds : operation.adds with
  | false =>
      obtain ⟨f, hchange⟩ := perform_accounts hsound hadds now
      exact h.append hchange
  | true =>
      rw [reported_of_adds o hadds now, List.append_nil]
      rcases perform_adds_cases hsound.wellFormed hadds now with
        hrefused | ⟨_, _, _, _, _, hok⟩
      · rw [hrefused]
        exact h
      · exact h.push hok

/-- An observation that a run leads to, from a new one, of whatever operations in whatever order,
and all that the operations report, one behind the other. -/
inductive Logged : List Transition → Observation → Prop where
  | new {sbid : Sbid} {o : Observation} (h : new sbid .standard = .ok o) : Logged [] o
  | perform {log : List Transition} {o : Observation} (h : Logged log o) (operation : Operation)
      (now : Timestamp) :
      Logged (log ++ reported (o.perform operation now).2) (o.perform operation now).1

theorem Logged.sound (h : Logged log o) : o.Sound := by
  induction h with
  | new hnew => exact (sound_new hnew).1
  | perform _ operation now ih => exact ih.perform operation now

theorem Logged.told (h : Logged log o) : Told log o := by
  induction h with
  | new hnew =>
      cases hnew
      exact told_fresh _
  | perform hbefore operation now ih => exact ih.perform hbefore.sound operation now

/-- In every state of every run the log tells every record, and carries no owner but the
observation and its files. -/
theorem audited_of_logged (h : Logged log o) :
    o.record.Audited (transitionsOf (.observation o.sbid) log) ∧
      (∀ a ∈ o.artefacts, a.record.Audited (transitionsOf a.owner log)) ∧
      ∀ t ∈ log, o.Owns t.owner :=
  ⟨h.told.own.audited, fun a ha => (h.told.files a ha).audited, h.told.owners⟩

/-- A file that fails and is then reported as invalid has failed twice. -/
theorem audited_failed_then_invalid :
    ∃ log, ∃ o : Observation, Logged log o ∧ ∃ a ∈ o.artefacts, a.stage = .invalid ∧
      failuresIn (transitionsOf a.owner log) = 2 ∧
        a.record.Audited (transitionsOf a.owner log) := by
  let now := Timestamp.ofUnixSeconds 0
  have hrun := (((Logged.new (new_standard ⟨1⟩)).perform (.add .catalogue "c") now).perform
    (.setArtefactStage ⟨0⟩ .failed) now).perform (.setArtefactStage ⟨0⟩ .invalid) now
  refine ⟨_, _, hrun, ?_⟩
  have hfile : ∃ a ∈ (performEach now (fresh ⟨1⟩) [.add .catalogue "c",
      .setArtefactStage ⟨0⟩ .failed, .setArtefactStage ⟨0⟩ .invalid]).artefacts,
      a.stage = .invalid ∧ a.owner = .artefact (some (.observation ⟨1⟩)) "c" := by
    decide +kernel
  obtain ⟨a, ha, hstage, howner⟩ := hfile
  refine ⟨a, ha, hstage, ?_, (audited_of_logged hrun).2.1 a ha⟩
  rw [howner]
  decide +kernel

end Observation

end AuditLog

end ArchiveDeposit

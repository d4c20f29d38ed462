import ArchiveDeposit.Proofs.Advance
import ArchiveDeposit.Proofs.Operation

/-!
# Reported transitions and steps that lie ahead

While nothing fails, every transition that is reported is one step of one entity, and every step is
reported once.  So a call takes exactly as many steps off those that lie ahead, of the observation
and all its files together, as it reports transitions.

**Results.**
* `Observation.totalAhead_progressEncapsulations`: a round of encapsulations.
* `Observation.stepsAhead_progress`: a call of progress.
* `Observation.stepsAhead_tick`: a tick.
-/

namespace ArchiveDeposit

section Counting

namespace Artefact

/-- The steps that lie ahead of the files of a list, together. -/
def totalAhead : List Artefact → Nat
  | [] => 0
  | a :: rest => a.ahead + totalAhead rest

/-- When each file that changes reports its steps, the list reports all of them. -/
theorem totalAhead_map (artefacts : List Artefact) (p : Artefact → Bool)
    (step : Artefact → Artefact × Option Transition)
    (h : ∀ a ∈ artefacts, p a = true → a.ahead = (step a).1.ahead + (step a).2.toList.length) :
    totalAhead artefacts = totalAhead (artefacts.map fun a => if p a then (step a).1 else a) +
      ((artefacts.filter p).filterMap fun a => (step a).2).length := by
  induction artefacts with
  | nil => rfl
  | cons a rest ih =>
      have hrest := ih fun b hb => h b (List.mem_cons_of_mem _ hb)
      simp only [totalAhead, List.map_cons]
      cases hp : p a with
      | false =>
          simp only [List.filter_cons, hp, Bool.false_eq_true, if_false]
          omega
      | true =>
          have hself := h a List.mem_cons_self hp
          simp only [List.filter_cons, hp, if_true, List.filterMap_cons]
          cases hreport : (step a).2 with
          | none =>
              simp only [hreport, Option.toList_none, List.length_nil] at hself
              simp only
              omega
          | some transition =>
              simp only [hreport, Option.toList_some, List.length_singleton] at hself
              simp only [List.length_cons]
              omega

theorem length_filterMap_inChildOrder (artefacts : List Artefact)
    (report : Artefact → Option Transition) :
    ((inChildOrder artefacts).filterMap report).length = (artefacts.filterMap report).length :=
  ((stableSort_perm compareChildren artefacts).filterMap report).length_eq

theorem totalAhead_set {artefacts : List Artefact} {i : Nat} {a : Artefact}
    (h : artefacts[i]? = some a) (b : Artefact) :
    totalAhead artefacts + b.ahead = totalAhead (artefacts.set i b) + a.ahead := by
  induction artefacts generalizing i with
  | nil => simp at h
  | cons c rest ih =>
      cases i with
      | zero =>
          simp only [List.getElem?_cons_zero, Option.some.injEq] at h
          subst h
          simp only [totalAhead, List.set_cons_zero]
          omega
      | succ i =>
          have hrest := ih (by simpa using h)
          simp only [totalAhead, List.set_cons_succ]
          omega

theorem totalAhead_map_le {artefacts : List Artefact} {f : Artefact → Artefact}
    (h : ∀ a ∈ artefacts, (f a).ahead ≤ a.ahead) :
    totalAhead (artefacts.map f) ≤ totalAhead artefacts := by
  induction artefacts with
  | nil => exact Nat.le_refl _
  | cons a rest ih =>
      have hrest := ih fun b hb => h b (List.mem_cons_of_mem _ hb)
      have hself := h a List.mem_cons_self
      simp only [totalAhead, List.map_cons]
      omega

theorem totalAhead_eq_zero {artefacts : List Artefact} (h : ∀ a ∈ artefacts, a.ahead = 0) :
    totalAhead artefacts = 0 := by
  induction artefacts with
  | nil => rfl
  | cons a rest ih =>
      rw [totalAhead, h a List.mem_cons_self, ih fun b hb => h b (List.mem_cons_of_mem _ hb)]

/-- Where the files together have as much ahead as before, and none has more, each has as much. -/
theorem ahead_eq_of_totalAhead {artefacts : List Artefact} {f : Artefact → Artefact}
    (h : ∀ a ∈ artefacts, (f a).ahead ≤ a.ahead)
    (hsame : totalAhead artefacts ≤ totalAhead (artefacts.map f)) :
    ∀ a ∈ artefacts, (f a).ahead = a.ahead := by
  induction artefacts with
  | nil => exact fun a ha => nomatch ha
  | cons a rest ih =>
      have hrestLe : ∀ b ∈ rest, (f b).ahead ≤ b.ahead := fun b hb =>
        h b (List.mem_cons_of_mem _ hb)
      have hrest := totalAhead_map_le hrestLe
      have hself := h a List.mem_cons_self
      simp only [totalAhead, List.map_cons] at hsame
      intro b hb
      rcases List.mem_cons.mp hb with rfl | hb
      · omega
      · exact ih hrestLe (by omega) b hb

theorem ahead_progress (a : Artefact) (around : Surroundings) (now : Timestamp) :
    a.ahead = (a.progress around now).1.ahead + (a.progress around now).2.toList.length :=
  a.record.ahead_progress around now

theorem ahead_depositPacked (a : Artefact) (now : Timestamp) :
    a.ahead = (a.depositPacked now).1.ahead + (a.depositPacked now).2.toList.length := by
  rw [depositPacked_eq]
  split
  · next hstage =>
      exact DepositRecord.ahead_replace_target (stepFrom?_of_stage_encapsulated hstage)
        (by rfl) (by rfl) now
  · rfl

theorem ahead_packed {a : Artefact} (h : a.isPackable = true) (now : Timestamp) :
    a.ahead = (a.packed now).ahead + 1 := by
  have hstep := stepFrom?_of_isPackable h
  have hahead := Lifecycle.ahead_stepFrom? hstep
  have hl := (advances_packed h now).lifecycle
  have hstage : (a.packed now).record.state.stage = .encapsulating := stage_packed h now
  rw [ahead, ahead, DepositRecord.ahead, DepositRecord.ahead, hl, hstage]
  exact hahead

theorem ahead_afterJobs (a : Artefact) (now : Timestamp) :
    a.ahead = (a.afterJobs now).ahead + if a.isPackable then 1 else 0 := by
  unfold afterJobs
  split
  · next hpack => exact ahead_packed hpack now
  · rfl

end Artefact

namespace Encapsulation

open Artefact

variable {artefacts : List Artefact} {file : Artefact}

theorem totalAhead_depositMembers (artefacts : List Artefact) (id : ArtefactId)
    (now : Timestamp) :
    totalAhead artefacts = totalAhead (depositMembers artefacts id now).1 +
      (depositMembers artefacts id now).2.length := by
  have hmap := totalAhead_map artefacts (·.isMemberOf id) (·.depositPacked now)
    fun a _ _ => a.ahead_depositPacked now
  rw [hmap, depositMembers, members, length_filterMap_inChildOrder]

theorem totalAhead_commit {place : Nat} (hplace : artefacts[place]? = some file)
    {change : Artefact × Option Transition}
    (hchange : file.ahead = change.1.ahead + change.2.toList.length) (id : ArtefactId)
    (deposits : Bool) (now : Timestamp) :
    totalAhead artefacts =
      totalAhead (commit artefacts id place change deposits now).1 +
        (commit artefacts id place change deposits now).2.length := by
  have hset := totalAhead_set hplace change.1
  unfold commit
  cases hreport : change.2 with
  | none => rfl
  | some transition =>
      simp only [hreport, Option.toList_some, List.length_singleton] at hchange
      cases deposits with
      | false =>
          simp only [Bool.false_eq_true, if_false, List.length_singleton]
          omega
      | true =>
          have hmembers := totalAhead_depositMembers (artefacts.set place change.1) id now
          simp only [if_true, List.length_cons]
          omega

theorem totalAhead_progress (artefacts : List Artefact) (id : ArtefactId) (signals : Signals)
    (now : Timestamp) :
    totalAhead artefacts = totalAhead (progress artefacts id signals now).1 +
      (progress artefacts id signals now).2.length := by
  unfold progress
  split
  · rfl
  · next place file hfind =>
      exact totalAhead_commit (getElem?_of_find? hfind) (file.ahead_progress _ now) id _ now

end Encapsulation

namespace Observation

open Artefact

variable {o : Observation} {signals : Signals} {now : Timestamp}

/-- The steps that lie ahead of an observation and all its files, together. -/
def stepsAhead (o : Observation) : Nat := o.record.ahead + totalAhead o.artefacts

theorem totalAhead_progressEach (signals : Signals) (now : Timestamp) (ids : List ArtefactId)
    (artefacts : List Artefact) :
    totalAhead artefacts = totalAhead (progressEach signals now ids artefacts).1 +
      (progressEach signals now ids artefacts).2.length := by
  induction ids generalizing artefacts with
  | nil => rfl
  | cons id rest ih =>
      have hfirst := Encapsulation.totalAhead_progress artefacts id signals now
      have hrest := ih (Encapsulation.progress artefacts id signals now).1
      simp only [progressEach, List.length_append]
      omega

/-- A round of encapsulations takes one step off for each transition that it reports. -/
theorem totalAhead_progressEncapsulations (artefacts : List Artefact) (signals : Signals)
    (now : Timestamp) :
    totalAhead artefacts = totalAhead (progressEncapsulations artefacts signals now).1 +
      (progressEncapsulations artefacts signals now).2.length :=
  totalAhead_progressEach signals now _ artefacts

theorem totalAhead_progressChildren (artefacts : List Artefact) (inScope : Artefact → Bool)
    (signals : Signals) (now : Timestamp) :
    totalAhead artefacts = totalAhead (progressChildren artefacts inScope signals now).1 +
      (progressChildren artefacts inScope signals now).2.length := by
  have hmap := totalAhead_map artefacts (fun a => inScope a && !a.isEncapsulation)
    (fun a => a.progress (childSurroundings artefacts signals a) now)
    fun a _ _ => a.ahead_progress _ now
  rw [hmap, progressChildren, length_filterMap_inChildOrder]

theorem totalAhead_progressFiles (stage : Stage) (artefacts : List Artefact)
    (signals : Signals) (now : Timestamp) :
    totalAhead artefacts = totalAhead (progressFiles stage artefacts signals now).1 +
      (progressFiles stage artefacts signals now).2.length := by
  unfold progressFiles
  cases inScope? stage with
  | none => rfl
  | some inScope =>
      have hchildren := totalAhead_progressChildren artefacts inScope signals now
      have hrounds := totalAhead_progressEncapsulations
        (progressChildren artefacts inScope signals now).1 signals now
      by_cases hstage : stage = .depositing
      · simp only [hstage, if_true, List.length_append]
        omega
      · simp only [hstage, if_false]
        exact hchildren

/-- A call of progress that fails nothing takes one step off for each transition that it reports. -/
theorem stepsAhead_progress
    (hnot : hasFailedInScope o.stage (o.progress signals now).1.artefacts = false) :
    o.stepsAhead = (o.progress signals now).1.stepsAhead + (o.progress signals now).2.length := by
  have hfiles := totalAhead_progressFiles o.stage o.artefacts signals now
  rw [progress_fst, apply_artefacts] at hnot
  change hasFailedInScope o.stage (progressFiles o.stage o.artefacts signals now).1 = false at hnot
  have hown := o.record.ahead_progress
    (ownSurroundings (progressFiles o.stage o.artefacts signals now).1 signals) now
  have hnext : o.ownNext (progressFiles o.stage o.artefacts signals now).1 signals =
      o.record.state.progress
        (ownSurroundings (progressFiles o.stage o.artefacts signals now).1 signals) := by
    rw [ownNext, hnot]
    rfl
  rw [progress_eq]
  simp only [stepsAhead, apply_record, apply_artefacts, apply_snd, hnext, List.length_append]
  simp only [withArtefacts]
  omega

theorem totalAhead_packed (artefacts : List Artefact) (now : Timestamp) :
    totalAhead artefacts =
      totalAhead (artefacts.map (·.afterJobs now)) +
        ((artefacts.filter Artefact.isPackable).map (packedReport now)).length := by
  have hmap := totalAhead_map artefacts Artefact.isPackable
    (fun a => (a.packed now, some (packedReport now a)))
    fun a _ hpack => ahead_packed hpack now
  rw [hmap, List.filterMap_eq_map', List.length_map]
  rfl

/-- A tick that leaves the observation unfailed, with its jobs. -/
theorem tick_eq (h : o.WellFormed) (hnot : (o.progress signals now).1.isFailed = false) :
    o.tick signals true now =
      let (o, moved) := o.progress signals now
      (o.withArtefacts (o.artefacts.map (·.afterJobs now)),
        .ok (moved ++ (o.artefacts.filter Artefact.isPackable).map (packedReport now))) := by
  have hafter := h.moves (moves_progress h signals now)
  have hjobs := runJobs_eq hafter.files now
  simp only [tick, hnot, Bool.not_false, Bool.and_self, if_true, hjobs, Except.map]

/-- A tick that fails nothing takes one step off for each transition that it reports. -/
theorem stepsAhead_tick (h : o.WellFormed)
    (hfiles : hasFailedInScope o.stage (o.progress signals now).1.artefacts = false)
    (hnot : (o.progress signals now).1.isFailed = false) {moved : List Transition}
    (hok : (o.tick signals true now).2 = .ok moved) :
    o.stepsAhead = (o.tick signals true now).1.stepsAhead + moved.length := by
  have hprogress := stepsAhead_progress hfiles
  have hpacked := totalAhead_packed (o.progress signals now).1.artefacts now
  rw [tick_eq h hnot] at hok ⊢
  have hmoved := Except.ok.inj hok
  rw [← hmoved, List.length_append]
  simp only [stepsAhead, withArtefacts] at hprogress ⊢
  omega

end Observation

end Counting

end ArchiveDeposit

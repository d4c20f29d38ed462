import ArchiveDeposit.Observation.Progress
import ArchiveDeposit.Proofs.Siblings

/-!
# Encapsulations one by one and all at once

Encapsulations change one after the other, each with its members.  A change of one touches its own
file and its packed members, and no other encapsulation sees it.  So a round of steps can be told
file by file: every encapsulation steps as if it stepped first, and the packed members of those that
are deposited are deposited with them.

**Results.**
* `Arranged.commit_fst`: the change of one encapsulation, file by file.
* `Arranged.progressEach_fst_of_perm`: a round of steps, in any order, file by file.
* `Arranged.settled_of_member`: what a round does to a member of an encapsulation.
-/

namespace ArchiveDeposit

section EncapsulationStep

variable {artefacts : List Artefact}

namespace Encapsulation

/-- The step of an encapsulation as its members stand. -/
def step (artefacts : List Artefact) (signals : Signals) (now : Timestamp) (file : Artefact) :
    Artefact × Option Transition :=
  file.progress
    { signals := signals, children := (members artefacts file.id).map Artefact.state } now

/-- Whether the step of an encapsulation is the one that deposits its members. -/
def deposits (artefacts : List Artefact) (signals : Signals) (now : Timestamp)
    (file : Artefact) : Bool :=
  file.stage == .archived && (step artefacts signals now file).1.stage == .deposited

/-- A file after the change of one encapsulation. -/
def afterCommit (id : ArtefactId) (change : Artefact × Option Transition) (deposits : Bool)
    (now : Timestamp) (a : Artefact) : Artefact :=
  if a.id = id then change.1
  else if (deposits && change.2.isSome && a.encapsulation == some id) then (a.depositPacked now).1
  else a

/-- A file after the steps of some encapsulations. -/
def settledBy (files artefacts : List Artefact) (signals : Signals) (now : Timestamp)
    (a : Artefact) : Artefact :=
  if a.isEncapsulation then
    if a ∈ files then (step artefacts signals now a).1 else a
  else if files.any fun file =>
      a.encapsulation == some file.id && deposits artefacts signals now file then
    (a.depositPacked now).1
  else a

/-- A file after the steps of all encapsulations. -/
def settled (artefacts : List Artefact) (signals : Signals) (now : Timestamp) (a : Artefact) :
    Artefact :=
  settledBy (artefacts.filter (·.isEncapsulation)) artefacts signals now a

theorem continues_step (artefacts : List Artefact) (signals : Signals) (now : Timestamp)
    (file : Artefact) : file.Continues (step artefacts signals now file).1 :=
  file.continues_progress _ now

theorem continues_settledBy (files artefacts : List Artefact) (signals : Signals)
    (now : Timestamp) (a : Artefact) : a.Continues (settledBy files artefacts signals now a) := by
  unfold settledBy
  split
  · split
    · exact continues_step artefacts signals now a
    · exact Artefact.Continues.refl a
  · split
    · exact a.continues_depositPacked now
    · exact Artefact.Continues.refl a

end Encapsulation

namespace Arranged

open Encapsulation

variable {file : Artefact}

/-- The change of an encapsulation together with its members, file by file. -/
theorem commit_fst (h : Arranged artefacts) (hfile : file ∈ artefacts)
    {change : Artefact × Option Transition}
    (hcont : file.Continues change.1) (hnone : change.2 = none → change.1 = file)
    (deposits : Bool) (now : Timestamp) :
    (commit artefacts file.id file.id.index change deposits now).1 =
      artefacts.map (afterCommit file.id change deposits now) := by
  have hself : ∀ a ∈ artefacts, a.id = file.id → a = file := fun a ha hid => h.eq_of_id ha hfile hid
  unfold commit
  cases hchange : change.2 with
  | none =>
      rw [List.map_congr_left (g := id), List.map_id]
      intro a ha
      by_cases hid : a.id = file.id
      · simp [afterCommit, hnone hchange, hself a ha hid]
      · simp [afterCommit, hid, hchange]
  | some t =>
      have hset := h.set_eq_map hfile change.1
      cases deposits with
      | false =>
          simp only [hset, Bool.false_eq_true, if_false]
          apply List.map_congr_left
          intro a ha
          simp [afterCommit]
      | true =>
          simp only [hset, if_true, depositMembers, List.map_map]
          apply List.map_congr_left
          intro a ha
          by_cases hid : a.id = file.id
          · have hmember : change.1.isMemberOf file.id = false := by
              simp [Artefact.isMemberOf, hcont.id]
            simp [afterCommit, hid, hmember]
          · have hiff : a.isMemberOf file.id = true ↔ a.encapsulation = some file.id :=
              h.isMemberOf_iff ha
            cases hmember : a.isMemberOf file.id with
            | false =>
                have henc : a.encapsulation ≠ some file.id := by
                  rw [hmember] at hiff
                  simpa using hiff
                simp [afterCommit, hid, hmember, henc]
            | true => simp [afterCommit, hid, hmember, hiff.mp hmember, hchange]

theorem progress_fst (h : Arranged artefacts) (hfile : file ∈ artefacts)
    (hkind : file.isEncapsulation = true) (signals : Signals) (now : Timestamp) :
    (Encapsulation.progress artefacts file.id signals now).1 =
      artefacts.map (afterCommit file.id (step artefacts signals now file)
        (deposits artefacts signals now file) now) := by
  unfold Encapsulation.progress
  rw [h.find?_of_mem hfile hkind]
  exact h.commit_fst hfile (continues_step artefacts signals now file)
    Artefact.progress_fst_of_snd_eq_none _ now

theorem isSome_of_deposits {signals : Signals} {now : Timestamp}
    (h : deposits artefacts signals now file = true) :
    (step artefacts signals now file).2.isSome = true := by
  simp only [deposits, Bool.and_eq_true, beq_iff_eq] at h
  cases hnone : (step artefacts signals now file).2 with
  | some t => rfl
  | none =>
      have hsame : (step artefacts signals now file).1 = file :=
        Artefact.progress_fst_of_snd_eq_none hnone
      rw [hsame, h.1] at h
      cases h.2

theorem afterCommit_of_ne {change : Artefact × Option Transition} {deposits : Bool}
    {now : Timestamp} {a : Artefact} (hid : a.id ≠ file.id)
    (henc : a.encapsulation ≠ some file.id) :
    afterCommit file.id change deposits now a = a := by
  simp [afterCommit, hid, henc]

theorem continues_afterCommit (h : Arranged artefacts) (hfile : file ∈ artefacts)
    {change : Artefact × Option Transition} (hcont : file.Continues change.1) (deposits : Bool)
    (now : Timestamp) : ∀ a ∈ artefacts,
      a.Continues (afterCommit file.id change deposits now a) := by
  intro a ha
  unfold afterCommit
  split
  · next hself =>
      rw [h.eq_of_id ha hfile hself]
      exact hcont
  · split
    · exact a.continues_depositPacked now
    · exact Artefact.Continues.refl a

/-- The members of an encapsulation do not see the change of another one. -/
theorem members_map_afterCommit (h : Arranged artefacts) (hfile : file ∈ artefacts)
    (hkind : file.isEncapsulation = true) {change : Artefact × Option Transition}
    (hcont : file.Continues change.1) (deposits : Bool) (now : Timestamp) {id : ArtefactId}
    (hid : id ≠ file.id) :
    members (artefacts.map (afterCommit file.id change deposits now)) id =
      members artefacts id := by
  refine h.members_map (fun a ha =>
    (h.continues_afterCommit hfile hcont deposits now a ha).isMemberOf id) fun a ha henc => ?_
  have hnot := h.isEncapsulation_of_member ha henc
  apply afterCommit_of_ne
  · intro hself
    rw [h.eq_of_id ha hfile hself, hkind] at hnot
    cases hnot
  · rw [henc]
    exact fun heq => hid (Option.some.inj heq)

variable {signals : Signals} {now : Timestamp}

theorem step_map_afterCommit (h : Arranged artefacts) (hfile : file ∈ artefacts)
    (hkind : file.isEncapsulation = true) {other : Artefact} (hne : other.id ≠ file.id) :
    step (artefacts.map (afterCommit file.id (step artefacts signals now file)
        (deposits artefacts signals now file) now)) signals now other =
      step artefacts signals now other := by
  unfold step
  rw [h.members_map_afterCommit hfile hkind (file.continues_progress _ now) _ now hne]

/-- A file that is packed into another encapsulation is deposited with none of these. -/
theorem any_deposits_of_encapsulation {rest : List Artefact}
    (hnew : ∀ other ∈ rest, other.id ≠ file.id) {a : Artefact}
    (henc : a.encapsulation = some file.id) (p : Artefact → Bool) :
    (rest.any fun other => a.encapsulation == some other.id && p other) = false := by
  rw [List.any_eq_false]
  intro other hother
  have hne : ¬ file.id = other.id := fun heq => hnew other hother heq.symm
  simp [henc, hne]

/-- One encapsulation stepping before others gives an encapsulation what it gets when all step at
once. -/
theorem settledBy_cons_encapsulation (h : Arranged artefacts) (hfile : file ∈ artefacts)
    (hkind : file.isEncapsulation = true) {rest : List Artefact}
    (hnew : ∀ other ∈ rest, other.id ≠ file.id) {a : Artefact} (ha : a ∈ artefacts)
    (hkindA : a.isEncapsulation = true) :
    let after := afterCommit file.id (step artefacts signals now file)
      (deposits artefacts signals now file) now
    settledBy rest (artefacts.map after) signals now (after a) =
      settledBy (file :: rest) artefacts signals now a := by
  intro after
  have hcont : a.Continues (after a) :=
    h.continues_afterCommit hfile (continues_step artefacts signals now file) _ now a ha
  have hnone := h.unpacked a ha hkindA
  unfold settledBy
  rw [hcont.isEncapsulation, hkindA]
  by_cases hself : a = file
  · subst hself
    have hafter : after a = (step artefacts signals now a).1 := by simp [after, afterCommit]
    have hnot : after a ∉ rest := fun hmem => hnew _ hmem hcont.id
    rw [hafter] at hnot ⊢
    simp [hnot]
  · have hid : a.id ≠ file.id := fun heq => hself (h.eq_of_id ha hfile heq)
    have hafter : after a = a := afterCommit_of_ne hid (by simp [hnone])
    by_cases hmem : a ∈ rest
    · have hstep : step (artefacts.map after) signals now a = step artefacts signals now a :=
        h.step_map_afterCommit hfile hkind (hnew a hmem)
      simp [hafter, hmem, hstep]
    · simp [hafter, hmem, hself]

/-- One encapsulation stepping before others gives each file what it gets when all step at once. -/
theorem settledBy_cons (h : Arranged artefacts) (hfile : file ∈ artefacts)
    (hkind : file.isEncapsulation = true) {rest : List Artefact}
    (hnew : ∀ other ∈ rest, other.id ≠ file.id) {a : Artefact} (ha : a ∈ artefacts) :
    let after := afterCommit file.id (step artefacts signals now file)
      (deposits artefacts signals now file) now
    settledBy rest (artefacts.map after) signals now (after a) =
      settledBy (file :: rest) artefacts signals now a := by
  intro after
  have hcont : a.Continues (after a) :=
    h.continues_afterCommit hfile (continues_step artefacts signals now file) _ now a ha
  cases hkindA : a.isEncapsulation with
  | true => exact h.settledBy_cons_encapsulation hfile hkind hnew ha hkindA
  | false =>
      have hid : a.id ≠ file.id := by
        intro heq
        rw [h.eq_of_id ha hfile heq, hkind] at hkindA
        cases hkindA
      unfold settledBy
      rw [hcont.isEncapsulation, hkindA]
      by_cases henc : a.encapsulation = some file.id
      · have hencAfter := hcont.encapsulation.trans henc
        rw [any_deposits_of_encapsulation hnew hencAfter, List.any_cons,
          any_deposits_of_encapsulation hnew henc]
        cases hdep : deposits artefacts signals now file with
        | false => simp [after, afterCommit, hid, henc, hdep]
        | true => simp [after, afterCommit, hid, henc, hdep, isSome_of_deposits hdep]
      · have hafter : after a = a := afterCommit_of_ne hid henc
        have hdeposits : ∀ other ∈ rest, deposits (artefacts.map after) signals now other =
            deposits artefacts signals now other := by
          intro other hother
          have hstep : step (artefacts.map after) signals now other =
              step artefacts signals now other :=
            h.step_map_afterCommit hfile hkind (hnew other hother)
          rw [deposits, hstep, deposits]
        have hany : (rest.any fun other => a.encapsulation == some other.id &&
            deposits (artefacts.map after) signals now other) =
              rest.any fun other => a.encapsulation == some other.id &&
                deposits artefacts signals now other := by
          apply Bool.eq_iff_iff.mpr
          simp only [List.any_eq_true]
          constructor
          · rintro ⟨other, hother, htrue⟩
            exact ⟨other, hother, by rwa [hdeposits other hother] at htrue⟩
          · rintro ⟨other, hother, htrue⟩
            exact ⟨other, hother, by rwa [hdeposits other hother]⟩
        rw [hafter, hany, List.any_cons]
        simp [henc]

/-- The encapsulations of a list step one after the other as if each stepped first. -/
theorem progressEach_fst (signals : Signals) (now : Timestamp) (files : List Artefact) :
    ∀ {artefacts : List Artefact}, Arranged artefacts →
      (∀ file ∈ files, file ∈ artefacts ∧ file.isEncapsulation = true) →
      (files.map Artefact.id).Nodup →
      (Observation.progressEach signals now (files.map Artefact.id) artefacts).1 =
        artefacts.map (settledBy files artefacts signals now) := by
  induction files with
  | nil =>
      intro artefacts _ _ _
      have hsame : ∀ a ∈ artefacts, settledBy [] artefacts signals now a = a := by
        intro a _
        simp [settledBy]
      rw [List.map_congr_left hsame, List.map_id']
      rfl
  | cons file rest ih =>
      intro artefacts h hfiles hnodup
      obtain ⟨hfile, hkind⟩ := hfiles file List.mem_cons_self
      obtain ⟨hnew, hrest⟩ := List.nodup_cons.mp hnodup
      have hother : ∀ other ∈ rest, other.id ≠ file.id := fun other hmem heq =>
        hnew (heq ▸ List.mem_map_of_mem hmem)
      let after := afterCommit file.id (step artefacts signals now file)
        (deposits artefacts signals now file) now
      have hcont := h.continues_afterCommit hfile (continues_step artefacts signals now file)
        (deposits artefacts signals now file) now
      have hrestFiles : ∀ other ∈ rest,
          other ∈ artefacts.map after ∧ other.isEncapsulation = true := by
        intro other hmem
        obtain ⟨hmemOld, hkindOther⟩ := hfiles other (List.mem_cons_of_mem _ hmem)
        have hnone := h.unpacked other hmemOld hkindOther
        have hafter : after other = other := afterCommit_of_ne (hother other hmem) (by simp [hnone])
        exact ⟨List.mem_map.mpr ⟨other, hmemOld, hafter⟩, hkindOther⟩
      calc (Observation.progressEach signals now ((file :: rest).map Artefact.id) artefacts).1
          = (Observation.progressEach signals now (rest.map Artefact.id)
              (artefacts.map after)).1 := by
            rw [List.map_cons, Observation.progressEach, ← h.progress_fst hfile hkind signals now]
        _ = (artefacts.map after).map (settledBy rest (artefacts.map after) signals now) :=
            ih (h.map hcont) hrestFiles hrest
        _ = artefacts.map (settledBy (file :: rest) artefacts signals now) := by
            rw [List.map_map]
            exact List.map_congr_left fun a ha => h.settledBy_cons hfile hkind hother ha

/-- The encapsulations of a list, each once and in any order, step as if each stepped first. -/
theorem progressEach_fst_of_perm (h : Arranged artefacts) {files : List Artefact}
    (hperm : files.Perm (artefacts.filter (·.isEncapsulation))) :
    (Observation.progressEach signals now (files.map Artefact.id) artefacts).1 =
      artefacts.map (settled artefacts signals now) := by
  have hnodup : (files.map Artefact.id).Nodup :=
    (hperm.map Artefact.id).nodup_iff.mpr (h.nodup_ids.sublist (List.filter_sublist.map _))
  rw [h.progressEach_fst signals now files
    (fun file hfile => List.mem_filter.mp (hperm.mem_iff.mp hfile)) hnodup]
  apply List.map_congr_left
  intro a _
  have hany : ∀ p : Artefact → Bool,
      files.any p = (artefacts.filter (·.isEncapsulation)).any p := fun _ => hperm.any_eq
  unfold settled settledBy
  rw [hany]
  simp only [hperm.mem_iff]

/-- A round of steps of all encapsulations, file by file. -/
theorem progressEncapsulations_fst (h : Arranged artefacts) :
    (Observation.progressEncapsulations artefacts signals now).1 =
      artefacts.map (settled artefacts signals now) :=
  h.progressEach_fst_of_perm (stableSort_perm Artefact.compareChildren _)

theorem settled_of_isEncapsulation (hfile : file ∈ artefacts)
    (hkind : file.isEncapsulation = true) :
    settled artefacts signals now file = (step artefacts signals now file).1 := by
  simp [settled, settledBy, hkind, hfile]

/-- A member of an encapsulation is deposited with it if it is packed, and otherwise untouched. -/
theorem settled_of_member (h : Arranged artefacts) (hfile : file ∈ artefacts)
    (hkind : file.isEncapsulation = true) {member : Artefact} (hmember : member ∈ artefacts)
    (henc : member.encapsulation = some file.id) :
    settled artefacts signals now member =
      if deposits artefacts signals now file then (member.depositPacked now).1 else member := by
  have hnot := h.isEncapsulation_of_member hmember henc
  have hany : ((artefacts.filter (·.isEncapsulation)).any fun other =>
      member.encapsulation == some other.id && deposits artefacts signals now other) =
        deposits artefacts signals now file := by
    apply Bool.eq_iff_iff.mpr
    simp only [List.any_eq_true, List.mem_filter, henc, Bool.and_eq_true, beq_iff_eq,
      Option.some.injEq]
    constructor
    · rintro ⟨other, ⟨hother, _⟩, hid, hdep⟩
      rwa [h.eq_of_id hfile hother hid]
    · intro hdep
      exact ⟨file, ⟨hfile, hkind⟩, rfl, hdep⟩
  unfold settled settledBy
  rw [hany]
  simp [hnot]

end Arranged

end EncapsulationStep

end ArchiveDeposit

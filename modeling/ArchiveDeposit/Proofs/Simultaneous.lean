import ArchiveDeposit.Proofs.Operation

/-!
# A call of progress, all files at once

A call of progress changes the files where they stand, one after the other.  What a file reads is
nevertheless never half changed: the files that are no encapsulations read the encapsulations, which
step after them; the encapsulations read their own members, which no other encapsulation touches.
So the call can be told in four phases, in each of which all files change at once and see only what
the phase before has left, and it does not matter in which order the files are visited.

**Results.**
* `getElem?_visitEach`: what changing files one after the other, each where it stands, comes to.
* `Arranged.map_memberPhase_filePhase`: the phases of the encapsulations and of their members.
* `Observation.progress_eq_atOnce`: a call of progress is the four phases, in every order of visits.
-/

namespace ArchiveDeposit

section Simultaneous

/-- The state of the file with a number. -/
def stateAt? (artefacts : List Artefact) (id : ArtefactId) : Option DepositState :=
  artefacts[id.index]?.map Artefact.state

/-- The stage of the file with a number. -/
def stageAt? (artefacts : List Artefact) (id : ArtefactId) : Option Stage :=
  artefacts[id.index]?.map Artefact.stage

/-- The file with another state put in place of its own. -/
def Artefact.becomes (a : Artefact) (next : DepositState) (now : Timestamp) : Artefact :=
  a.withRecord (a.record.replace next now).1

namespace Observation

/-- Whether the observation asks a file to step: a priority file while it deposits these, and any
file while it deposits all. -/
def asks (o : Observation) (a : Artefact) : Bool :=
  match o.stage with
  | .priorityDepositing => a.kind.isPriority
  | .depositing => true
  | _ => false

/-- Whether the observation asks a file to step that is no encapsulation. -/
def asksFirst (o : Observation) (a : Artefact) : Bool := o.asks a && !a.isEncapsulation

/-- First the files step that are no encapsulations; a member sees its encapsulation as it is before
the call. -/
def childPhase (o : Observation) (signals : Signals) (now : Timestamp) (a : Artefact) : Artefact :=
  if o.asksFirst a then
    let around : Surroundings :=
      { signals := signals, encapsulation := a.encapsulation.bind (stateAt? o.artefacts) }
    a.becomes (a.state.progress around) now
  else a

/-- Then the encapsulations step; each sees its members as they are after the first phase. -/
def filePhase (first : List Artefact) (signals : Signals) (now : Timestamp) (a : Artefact) :
    Artefact :=
  if a.isEncapsulation then
    let members := first.filter fun b => b.encapsulation == some a.id
    let around : Surroundings := { signals := signals, children := members.map Artefact.state }
    a.becomes (a.state.progress around) now
  else a

/-- Whether the encapsulation of a file has gone from its archive to its deposit. -/
def takenAlong (first second : List Artefact) (a : Artefact) : Bool :=
  a.encapsulation.any fun id =>
    stageAt? first id == some .archived && stageAt? second id == some .deposited

/-- Then packed members are deposited with the encapsulations that have just been. -/
def memberPhase (first second : List Artefact) (now : Timestamp) (a : Artefact) : Artefact :=
  if a.stage = .encapsulated ∧ takenAlong first second a = true then
    a.becomes a.state.deposited now
  else a

theorem memberPhase_of_unpacked {a : Artefact} (h : a.encapsulation = none)
    (first second : List Artefact) (now : Timestamp) : memberPhase first second now a = a := by
  have halone : takenAlong first second a = false := by rw [takenAlong, h, Option.any_none]
  rw [memberPhase, halone, if_neg fun hboth => Bool.false_ne_true hboth.2]

/-- The files after these phases; while the observation does not deposit all its files, the first
phase is the only one. -/
def filesAtOnce (o : Observation) (signals : Signals) (now : Timestamp) : List Artefact :=
  let first := o.artefacts.map (o.childPhase signals now)
  if o.stage = .depositing then
    let second := first.map (filePhase first signals now)
    second.map (memberPhase first second now)
  else first

/-- A call of progress in phases: at last the observation itself fails with a file that it asks to
step, or steps as its files are then. -/
def atOnce (o : Observation) (signals : Signals) (now : Timestamp) : Observation :=
  let files := o.filesAtOnce signals now
  let next :=
    if files.any fun a => o.asks a && a.isFailed then o.state.failed
    else o.state.progress (ownSurroundings files signals)
  ((o.withArtefacts files).apply next now).1

end Observation

/-- Changes some files one after the other, each where it stands. -/
def visitEach (step : Artefact → Artefact) : List ArtefactId → List Artefact → List Artefact
  | [], artefacts => artefacts
  | id :: ids, artefacts => visitEach step ids (artefacts.modify id.index step)

/-- Visiting places at most once each changes what stands there as it was at first. -/
theorem getElem?_visitEach (step : Artefact → Artefact) {ids : List ArtefactId} (hids : ids.Nodup)
    (artefacts : List Artefact) (i : Nat) :
    (visitEach step ids artefacts)[i]? =
      artefacts[i]?.map fun a => if ⟨i⟩ ∈ ids then step a else a := by
  induction ids generalizing artefacts with
  | nil => simp [visitEach]
  | cons id ids ih =>
      obtain ⟨hnew, hrest⟩ := List.nodup_cons.mp hids
      rw [visitEach, ih hrest, List.getElem?_modify]
      by_cases hid : id.index = i
      · subst hid
        cases artefacts[id.index]? <;> simp [hnew]
      · have hne : (⟨i⟩ : ArtefactId) ≠ id := fun heq => hid (by rw [← heq])
        simp [hid, hne]

namespace Observation

/-- A call of progress that visits the files in the order of two lists: first files that are no
encapsulations, then encapsulations. -/
def progressInOrder (o : Observation) (children files : List Artefact) (signals : Signals)
    (now : Timestamp) : Observation :=
  let step := fun a : Artefact => (a.progress (childSurroundings o.artefacts signals a) now).1
  let first := visitEach step (children.map Artefact.id) o.artefacts
  let after :=
    if o.stage = .depositing then (progressEach signals now (files.map Artefact.id) first).1
    else first
  ((o.withArtefacts after).apply (o.ownNext after signals) now).1

end Observation

theorem Surroundings.permits_of_perm {children children' : List DepositState}
    (h : children'.Perm children) (signals : Signals) (step : Step) (owner : Owner) :
    permits { signals := signals, children := children' } step owner =
      permits { signals := signals, children := children } step owner := by
  unfold permits opens
  cases step.gate <;> simp [h.all_eq]

namespace Arranged

variable {artefacts : List Artefact} {a file : Artefact}

theorem stateAt?_of_mem (h : Arranged artefacts) (hfile : file ∈ artefacts) :
    stateAt? artefacts file.id = some file.state := by
  rw [stateAt?, h.getElem?_of_mem hfile, Option.map_some]

/-- The stage of a file after changing files one by one. -/
theorem stageAt?_map (h : Arranged artefacts) (hfile : file ∈ artefacts)
    (f : Artefact → Artefact) : stageAt? (artefacts.map f) file.id = some (f file).stage := by
  rw [stageAt?, List.getElem?_map, h.getElem?_of_mem hfile, Option.map_some, Option.map_some]

theorem stageAt?_of_mem (h : Arranged artefacts) (hfile : file ∈ artefacts) :
    stageAt? artefacts file.id = some file.stage := by
  simpa using h.stageAt?_map hfile id

/-- A member sees what stands where its encapsulation does. -/
theorem childSurroundings_eq (h : Arranged artefacts) (ha : a ∈ artefacts) (signals : Signals) :
    Observation.childSurroundings artefacts signals a =
      { signals := signals, encapsulation := a.encapsulation.bind (stateAt? artefacts) } := by
  unfold Observation.childSurroundings
  cases henc : a.encapsulation with
  | none => rfl
  | some id =>
      obtain ⟨file, hfile, rfl, hkind⟩ := h.packed a ha id henc
      rw [Option.bind_some, Option.bind_some, h.stateAt?_of_mem hfile,
        Observation.encapsulationState?_of_mem h hfile hkind]

/-- An encapsulation sees the files that name it, in whatever order. -/
theorem filePhase_of_isEncapsulation (h : Arranged artefacts) (hkind : file.isEncapsulation = true)
    (signals : Signals) (now : Timestamp) :
    Observation.filePhase artefacts signals now file =
      (Encapsulation.step artefacts signals now file).1 := by
  have hsame : artefacts.filter (·.isMemberOf file.id) =
      artefacts.filter fun b => b.encapsulation == some file.id :=
    List.filter_congr fun b hb => by rw [Bool.eq_iff_iff, h.isMemberOf_iff hb, beq_iff_eq]
  have hmembers : (Encapsulation.members artefacts file.id).Perm
      (artefacts.filter fun b => b.encapsulation == some file.id) := by
    rw [← hsame]
    exact stableSort_perm Artefact.compareChildren _
  have hnext := DepositState.progress_congr file.state fun step =>
    Surroundings.permits_of_perm (hmembers.map Artefact.state) signals step file.state.owner
  rw [Observation.filePhase, if_pos hkind]
  exact congrArg (fun next => file.becomes next now) hnext.symm

/-- A member is taken along exactly when the step of its encapsulation is one that deposits. -/
theorem takenAlong_of_member (h : Arranged artefacts) (hfile : file ∈ artefacts)
    (hkind : file.isEncapsulation = true) (henc : a.encapsulation = some file.id)
    (signals : Signals) (now : Timestamp) :
    Observation.takenAlong artefacts
        (artefacts.map (Observation.filePhase artefacts signals now)) a =
      Encapsulation.deposits artefacts signals now file := by
  rw [Observation.takenAlong, henc, Option.any_some, h.stageAt?_of_mem hfile,
    h.stageAt?_map hfile, h.filePhase_of_isEncapsulation hkind]
  rfl

/-- The steps of the encapsulations one after the other are the two phases after the first. -/
theorem map_memberPhase_filePhase (h : Arranged artefacts) (signals : Signals) (now : Timestamp) :
    let second := artefacts.map (Observation.filePhase artefacts signals now)
    second.map (Observation.memberPhase artefacts second now) =
      artefacts.map (Encapsulation.settled artefacts signals now) := by
  intro second
  rw [List.map_map]
  apply List.map_congr_left
  intro a ha
  rw [Function.comp_apply]
  cases hkind : a.isEncapsulation with
  | true =>
      -- an encapsulation is packed into none, so the last phase leaves it
      have hafter := h.filePhase_of_isEncapsulation hkind signals now
      have hnone : (Observation.filePhase artefacts signals now a).encapsulation = none := by
        rw [hafter, (Encapsulation.continues_step artefacts signals now a).encapsulation]
        exact h.unpacked a ha hkind
      rw [Observation.memberPhase_of_unpacked hnone, hafter, settled_of_isEncapsulation ha hkind]
  | false =>
      have hsame : Observation.filePhase artefacts signals now a = a := by
        rw [Observation.filePhase, hkind, if_neg Bool.false_ne_true]
      rw [hsame]
      cases henc : a.encapsulation with
      | none =>
          rw [Observation.memberPhase_of_unpacked henc]
          simp [Encapsulation.settled, Encapsulation.settledBy, hkind, henc]
      | some id =>
          obtain ⟨file, hfile, rfl, hkindFile⟩ := h.packed a ha id henc
          rw [h.settled_of_member hfile hkindFile ha henc, Artefact.depositPacked_eq,
            Observation.memberPhase, h.takenAlong_of_member hfile hkindFile henc]
          by_cases hstage : a.stage = .encapsulated
          · simp only [hstage, true_and, if_true]
            rfl
          · simp [hstage]

end Arranged

namespace Observation

variable {o : Observation} {inScope : Artefact → Bool} {signals : Signals} {now : Timestamp}

theorem asks_eq (o : Observation) (a : Artefact) : o.asks a = (inScope? o.stage).any (· a) := by
  unfold asks inScope?
  cases o.stage <;> rfl

theorem childPhase_of_isEncapsulation {a : Artefact} (hkind : a.isEncapsulation = true) :
    o.childPhase signals now a = a := by
  rw [childPhase, asksFirst, hkind, Bool.not_true, Bool.and_false, if_neg Bool.false_ne_true]

theorem map_childPhase (h : Arranged o.artefacts) (hscope : inScope? o.stage = some inScope) :
    o.artefacts.map (o.childPhase signals now) =
      (progressChildren o.artefacts inScope signals now).1 := by
  apply List.map_congr_left
  intro a ha
  rw [childPhase, asksFirst, asks_eq, hscope, Option.any_some, ← h.childSurroundings_eq ha]
  rfl

theorem continues_childPhase (a : Artefact) : a.Continues (o.childPhase signals now a) := by
  unfold childPhase
  split
  · exact a.continues_progress _ now
  · exact Artefact.Continues.refl a

theorem arranged_childPhase (h : Arranged o.artefacts) (signals : Signals) (now : Timestamp) :
    Arranged (o.artefacts.map (o.childPhase signals now)) :=
  h.map fun a _ => continues_childPhase a

/-- The steps of the files, one after the other, are their phases. -/
theorem progressFiles_fst_eq_filesAtOnce (h : Arranged o.artefacts) :
    (progressFiles o.stage o.artefacts signals now).1 = o.filesAtOnce signals now := by
  have hfirst := arranged_childPhase h signals now
  unfold progressFiles filesAtOnce
  cases hscope : inScope? o.stage with
  | none =>
      have hstage : o.stage ≠ .depositing := by
        intro heq
        rw [heq] at hscope
        cases hscope
      have hsame : ∀ a ∈ o.artefacts, o.childPhase signals now a = a := by
        intro a _
        rw [childPhase, asksFirst, asks_eq, hscope]
        rfl
      rw [if_neg hstage, List.map_congr_left hsame, List.map_id']
  | some inScope =>
      simp only [← map_childPhase h hscope]
      split
      · exact hfirst.progressEncapsulations_fst.trans
          (hfirst.map_memberPhase_filePhase signals now).symm
      · rfl

/-- The files that are no encapsulations may be visited in any order. -/
theorem visitEach_of_perm (h : Arranged o.artefacts) {children : List Artefact}
    (hperm : children.Perm (o.artefacts.filter o.asksFirst)) :
    visitEach (fun a => (a.progress (childSurroundings o.artefacts signals a) now).1)
        (children.map Artefact.id) o.artefacts =
      o.artefacts.map (o.childPhase signals now) := by
  have hnodup : (children.map Artefact.id).Nodup :=
    (hperm.map Artefact.id).nodup_iff.mpr (h.nodup_ids.sublist (List.filter_sublist.map _))
  apply List.ext_getElem?
  intro i
  rw [getElem?_visitEach _ hnodup, List.getElem?_map]
  cases hget : o.artefacts[i]? with
  | none => rfl
  | some a =>
      have ha := List.mem_of_getElem? hget
      have hvisited : (⟨i⟩ : ArtefactId) ∈ children.map Artefact.id ↔ o.asksFirst a = true := by
        rw [← h.numbered i a hget, List.mem_map]
        constructor
        · rintro ⟨b, hb, hid⟩
          obtain ⟨hmem, hasks⟩ := List.mem_filter.mp (hperm.mem_iff.mp hb)
          rwa [← h.eq_of_id hmem ha hid]
        · intro hasks
          exact ⟨a, hperm.mem_iff.mpr (List.mem_filter.mpr ⟨ha, hasks⟩), rfl⟩
      rw [Option.map_some, Option.map_some, childPhase, ← h.childSurroundings_eq ha]
      simp only [hvisited]
      rfl

/-- The first phase leaves the encapsulations as they are. -/
theorem filter_isEncapsulation_childPhase (o : Observation) (signals : Signals) (now : Timestamp) :
    (o.artefacts.map (o.childPhase signals now)).filter (·.isEncapsulation) =
      o.artefacts.filter (·.isEncapsulation) := by
  have hpred : (fun a : Artefact => a.isEncapsulation) ∘ o.childPhase signals now =
      fun a => a.isEncapsulation := by
    funext a
    exact (continues_childPhase a).isEncapsulation
  rw [List.filter_map, hpred]
  conv_rhs => rw [← List.map_id' (o.artefacts.filter _)]
  exact List.map_congr_left fun a ha =>
    childPhase_of_isEncapsulation (List.mem_filter.mp ha).2

theorem atOnce_eq (o : Observation) (signals : Signals) (now : Timestamp) :
    o.atOnce signals now =
      ((o.withArtefacts (o.filesAtOnce signals now)).apply
        (o.ownNext (o.filesAtOnce signals now) signals) now).1 := by
  have hfailed : ∀ files : List Artefact,
      (files.any fun a => o.asks a && a.isFailed) = hasFailedInScope o.stage files := by
    intro files
    simp only [asks_eq, hasFailedInScope]
    cases inScope? o.stage <;> simp
  simp only [atOnce, ownNext, hfailed]

/-- The files may be visited in any order. -/
theorem progressInOrder_of_perm (h : Arranged o.artefacts) {children files : List Artefact}
    (hchildren : children.Perm (o.artefacts.filter o.asksFirst))
    (hfiles : files.Perm (o.artefacts.filter (·.isEncapsulation))) :
    o.progressInOrder children files signals now = o.atOnce signals now := by
  have hfirst := arranged_childPhase h signals now
  rw [← filter_isEncapsulation_childPhase o signals now] at hfiles
  have hafter : (if o.stage = .depositing then
      (progressEach signals now (files.map Artefact.id)
        (o.artefacts.map (o.childPhase signals now))).1
      else o.artefacts.map (o.childPhase signals now)) = o.filesAtOnce signals now := by
    rw [hfirst.progressEach_fst_of_perm hfiles, ← hfirst.map_memberPhase_filePhase signals now]
    rfl
  rw [progressInOrder, visitEach_of_perm h hchildren, hafter, atOnce_eq]

/-- A call of progress does in four phases what it does to the files one after the other, and does
the same in whatever order it visits them. -/
theorem progress_eq_atOnce (h : Arranged o.artefacts) (signals : Signals) (now : Timestamp) :
    (o.progress signals now).1 = o.atOnce signals now ∧
      ∀ children files : List Artefact,
        children.Perm (o.artefacts.filter o.asksFirst) →
        files.Perm (o.artefacts.filter (·.isEncapsulation)) →
          o.progressInOrder children files signals now = o.atOnce signals now := by
  refine ⟨?_, fun children files hchildren hfiles => progressInOrder_of_perm h hchildren hfiles⟩
  rw [progress_fst, progressFiles_fst_eq_filesAtOnce h, atOnce_eq]

/-- Two encapsulations are archived before their members are packed.  In one call the members are
packed, the encapsulations deposited and the members with them, and the observation goes on; the
visits may as well go from the last file to the first. -/
theorem progress_eq_atOnce_packed_last :
    ∃ (o : Observation) (now : Timestamp), Reachable (fun _ _ => True) o ∧ Arranged o.artefacts ∧
      o.stage = .depositing ∧
      o.artefacts.map Artefact.stage = [.archived, .archived, .encapsulating, .encapsulating] ∧
      o.progressInOrder (o.artefacts.filter o.asksFirst).reverse
        (o.artefacts.filter (·.isEncapsulation)).reverse .autoComplete now =
          (o.progress .autoComplete now).1 ∧
      (o.atOnce .autoComplete now).artefacts.map Artefact.stage =
        [.deposited, .deposited, .deposited, .deposited] ∧
      (o.progress .autoComplete now).1.stage = .archiving := by
  let now := Timestamp.ofUnixSeconds 0
  let o := performEach now (fresh ⟨1⟩)
    [.add .encapsulationFile "e", .add .encapsulationFile "f", .addEncapsulated .cubelet "m" ⟨0⟩,
      .addEncapsulated .cubelet "n" ⟨1⟩, .progress .autoComplete, .progress .autoComplete,
      .setArtefactStage ⟨2⟩ .encapsulating, .setArtefactStage ⟨3⟩ .encapsulating,
      .setArtefactStage ⟨0⟩ .archived, .setArtefactStage ⟨1⟩ .archived]
  have hrun : Reachable (fun _ _ => True) o :=
    (Reachable.new (new_standard ⟨1⟩)).performEach
      ⟨trivial, trivial, trivial, trivial, trivial, trivial, trivial, trivial, trivial, trivial,
        trivial⟩
  have harranged : Arranged o.artefacts := hrun.sound.wellFormed.files.arranged
  obtain ⟨hphases, horder⟩ := progress_eq_atOnce harranged .autoComplete now
  have hbackwards := horder _ _ (List.reverse_perm _) (List.reverse_perm _)
  exact ⟨o, now, hrun, harranged, by decide +kernel, by decide +kernel,
    hbackwards.trans hphases.symm, by decide +kernel, by decide +kernel⟩

end Observation

end Simultaneous

end ArchiveDeposit

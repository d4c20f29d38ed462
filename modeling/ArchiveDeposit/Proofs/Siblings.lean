import ArchiveDeposit.Observation.Basic
import ArchiveDeposit.Proofs.RecordChange

/-!
# The files of one parent

The operations of the library build a list of files in which a file's number is its place, names
differ, every file is on the lifecycle that the standard factory gives it, and a packed file names
an encapsulation added before it.  They change files only in ways that keep all of this.

What one file sees of the others depends on numbers and memberships alone: `Arranged` is that part.

**Results.**
* `Artefact.Continues`: what every change of a file keeps, one lemma for each way to change one.
* `Arranged.map`, `Siblings.map`: changing files in such ways keeps the list in order.
* `Arranged.find?_of_mem`: an encapsulation is found by its number, at its place.
-/

namespace ArchiveDeposit

section Siblings

namespace Artefact

/-- The same file, its record where it was or further on. -/
structure Continues (a b : Artefact) : Prop where
  id : b.id = a.id
  kind : b.kind = a.kind
  filename : b.filename = a.filename
  parent : b.parent = a.parent
  encapsulation : b.encapsulation = a.encapsulation
  record : a.record.Continues b.record

namespace Continues

theorem refl (a : Artefact) : a.Continues a :=
  ⟨rfl, rfl, rfl, rfl, rfl, DepositRecord.Continues.refl _⟩

theorem trans {a b c : Artefact} (hab : a.Continues b) (hbc : b.Continues c) : a.Continues c where
  id := hbc.id.trans hab.id
  kind := hbc.kind.trans hab.kind
  filename := hbc.filename.trans hab.filename
  parent := hbc.parent.trans hab.parent
  encapsulation := hbc.encapsulation.trans hab.encapsulation
  record := hab.record.trans hbc.record

theorem withRecord {a : Artefact} {r : DepositRecord} (h : a.record.Continues r) :
    a.Continues (a.withRecord r) :=
  ⟨rfl, rfl, rfl, rfl, rfl, h⟩

/-- The record is the whole difference that a change makes. -/
theorem eq_of_record {a b : Artefact} (h : a.Continues b) (hrecord : b.record = a.record) :
    b = a := by
  obtain ⟨hid, hkind, hfilename, hparent, hencapsulation, _⟩ := h
  cases a
  cases b
  simp_all

theorem isEncapsulation {a b : Artefact} (h : a.Continues b) :
    b.isEncapsulation = a.isEncapsulation := by
  simp [Artefact.isEncapsulation, h.kind]

theorem isMemberOf {a b : Artefact} (h : a.Continues b) (id : ArtefactId) :
    b.isMemberOf id = a.isMemberOf id := by
  simp [Artefact.isMemberOf, h.id, h.encapsulation]

end Continues

theorem continues_progress (a : Artefact) (around : Surroundings) (now : Timestamp) :
    a.Continues (a.progress around now).1 :=
  Continues.withRecord (a.record.continues_progress around now)

theorem continues_advance {a : Artefact} {stage : Stage} {now : Timestamp}
    {change : Artefact × Option Transition} (h : a.advance stage now = .ok change) :
    a.Continues change.1 := by
  obtain ⟨changed, hr, rfl⟩ := eq_ok_of_map h
  exact Continues.withRecord (DepositRecord.continues_advance hr)

theorem stays_advance {a : Artefact} {stage : Stage} (hfail : stage.isFailure = true)
    {now : Timestamp} {change : Artefact × Option Transition}
    (h : a.advance stage now = .ok change) : a.record.Stays change.1.record := by
  obtain ⟨changed, hr, rfl⟩ := eq_ok_of_map h
  exact DepositRecord.stays_advance hfail hr

theorem effectiveStage_advance {a : Artefact} {stage : Stage} {now : Timestamp}
    {change : Artefact × Option Transition} (h : a.advance stage now = .ok change) :
    change.1.record.effectiveStage =
      if stage.isFailure then a.record.effectiveStage else stage := by
  obtain ⟨changed, hr, rfl⟩ := eq_ok_of_map h
  exact DepositRecord.effectiveStage_advance hr

theorem continues_depositPacked (a : Artefact) (now : Timestamp) :
    a.Continues (a.depositPacked now).1 := by
  unfold depositPacked
  split
  · cases h : a.advance .deposited now with
    | error e => exact Continues.refl a
    | ok change => exact continues_advance h
  · exact Continues.refl a

/-- A change of which nothing is reported leaves the file as it is. -/
theorem advance_fst_of_snd_eq_none {a : Artefact} {stage : Stage} {now : Timestamp}
    {change : Artefact × Option Transition} (h : a.advance stage now = .ok change)
    (hnone : change.2 = none) : change.1 = a := by
  obtain ⟨changed, hr, rfl⟩ := eq_ok_of_map h
  obtain ⟨next, _, rfl⟩ := eq_ok_of_map hr
  exact congrArg a.withRecord (DepositRecord.replace_fst_of_snd_eq_none hnone)

/-- A change of files that goes back with none of them, and tells what it changes. -/
def Reports (change : Artefact → Except DepositError (Artefact × Option Transition)) : Prop :=
  ∀ a changed, change a = .ok changed →
    a.Continues changed.1 ∧ (changed.2 = none → changed.1 = a)

theorem reports_advance (stage : Stage) (now : Timestamp) : Reports (·.advance stage now) :=
  fun _ _ h => ⟨continues_advance h, advance_fst_of_snd_eq_none h⟩

theorem progress_fst_of_snd_eq_none {a : Artefact} {around : Surroundings} {now : Timestamp}
    (h : (a.progress around now).2 = none) : (a.progress around now).1 = a :=
  congrArg a.withRecord (DepositRecord.replace_fst_of_snd_eq_none h)

/-- The stage after a step is that of the state. -/
@[simp] theorem stage_progress (a : Artefact) (around : Surroundings) (now : Timestamp) :
    (a.progress around now).1.stage = (a.state.progress around).stage :=
  DepositRecord.stage_replace a.record _ now

/-- A file stays as it is, or takes the step that the surroundings permit. -/
theorem progress_cases (a : Artefact) (around : Surroundings) (now : Timestamp) :
    (a.progress around now).1 = a ∨
      ∃ step, a.state.lifecycle.stepFrom? a.stage = some step ∧
        around.permits step a.state.owner = true ∧ a.record.effectiveStage = step.source ∧
          (a.progress around now).1.stage = step.target ∧
            (a.progress around now).1.record.effectiveStage = step.target := by
  rcases a.record.replace_progress_cases around now with
    hsame | ⟨step, hstep, hpermit, hsource, htarget⟩
  · exact Or.inl (congrArg a.withRecord hsame)
  · refine Or.inr ⟨step, hstep, hpermit, hsource, ?_, htarget⟩
    rw [stage_progress]
    exact DepositState.stage_progress hstep hpermit

theorem effectiveStage_of_isDeposited {a : Artefact} (h : a.isDeposited = true) :
    a.record.effectiveStage = .deposited :=
  DepositRecord.effectiveStage_of_stage_deposited (eq_of_beq h)

/-- The files of a list in child order are those of the list. -/
@[simp] theorem mem_inChildOrder {a : Artefact} {artefacts : List Artefact} :
    a ∈ inChildOrder artefacts ↔ a ∈ artefacts := mem_stableSort

/-- A file that a parent keeps, on the lifecycle of its kind. -/
structure BelongsTo (a : Artefact) (parent : Parent) : Prop where
  parent : a.parent = some parent
  owner : a.state.owner = a.owner
  kind : a.kind.isChild = true
  lifecycle : Factory.standard.lifecycleFor a.kind a.isEncapsulated = .ok a.state.lifecycle

namespace BelongsTo

variable {a : Artefact} {parent : Parent}

theorem continues {b : Artefact} (h : a.BelongsTo parent) (hab : a.Continues b) :
    b.BelongsTo parent where
  parent := hab.parent.trans h.parent
  owner := by
    have howner := hab.record.owner
    simp only [state, Artefact.owner, hab.parent, hab.filename] at howner ⊢
    exact howner.trans h.owner
  kind := by
    rw [hab.kind]
    exact h.kind
  lifecycle := by
    have hl := hab.record.lifecycle
    have henc : b.isEncapsulated = a.isEncapsulated := by simp [isEncapsulated, hab.encapsulation]
    simp only [state] at hl ⊢
    rw [hab.kind, henc, hl]
    exact h.lifecycle

theorem of_member (h : a.BelongsTo parent) (hsome : a.encapsulation.isSome = true) :
    a.state.lifecycle = .encapsulated ∧ a.kind.isEncapsulatable = true := by
  have hl := h.lifecycle
  simp only [isEncapsulated, hsome, Factory.lifecycleFor, if_true] at hl
  split at hl
  · next hkind => exact ⟨(Except.ok.inj hl).symm, hkind⟩
  · cases hl

theorem of_unpacked (h : a.BelongsTo parent) (hnone : a.encapsulation = none) :
    Factory.standard.lifecycle? a.kind = some a.state.lifecycle := by
  have hl := h.lifecycle
  simp only [isEncapsulated, hnone, Option.isSome_none, Factory.lifecycleFor] at hl
  split at hl
  · contradiction
  · split at hl
    · next hkind => rw [hkind, Except.ok.inj hl]
    · cases hl

theorem of_isEncapsulation (h : a.BelongsTo parent) (hkind : a.isEncapsulation = true) :
    a.encapsulation = none ∧ a.state.lifecycle = .encapsulation := by
  have henc : a.kind = .encapsulationFile := by
    simpa [isEncapsulation, Kind.isEncapsulation] using hkind
  have hnone : a.encapsulation = none := by
    cases hsome : a.encapsulation with
    | none => rfl
    | some id =>
        have hpack := (h.of_member (by simp [hsome])).2
        rw [henc] at hpack
        cases hpack
  refine ⟨hnone, ?_⟩
  have hl := h.of_unpacked hnone
  rw [henc] at hl
  exact (Option.some.inj hl).symm

theorem isEncapsulation_of_member (h : a.BelongsTo parent) (hsome : a.encapsulation.isSome = true) :
    a.isEncapsulation = false := by
  cases hkind : a.isEncapsulation with
  | false => rfl
  | true =>
      rw [(h.of_isEncapsulation hkind).1] at hsome
      cases hsome

theorem isSome_of_lifecycle (h : a.BelongsTo parent)
    (hl : a.state.lifecycle = .encapsulated) : a.encapsulation.isSome = true := by
  cases hnone : a.encapsulation with
  | some id => rfl
  | none =>
      have hkind := h.of_unpacked hnone
      rw [hl] at hkind
      cases hk : a.kind <;> rw [hk] at hkind <;> cases hkind

/-- A file that is neither packed nor an encapsulation needs nobody for its steps. -/
theorem lifecycle_of_single (h : a.BelongsTo parent) (hnone : a.encapsulation = none)
    (hkind : a.isEncapsulation = false) :
    a.state.lifecycle = .standard ∨ a.state.lifecycle = .archived := by
  have hchild := h.kind
  have hl := h.of_unpacked hnone
  unfold isEncapsulation at hkind
  revert hl hchild hkind
  cases a.kind <;> simp [Factory.standard, Kind.isChild, Kind.isEncapsulation] <;> intro hl <;>
    simp [← hl]

theorem of_isPriority (h : a.BelongsTo parent) (hkind : a.kind.isPriority = true) :
    a.encapsulation = none ∧ a.isEncapsulation = false ∧ a.state.lifecycle = .standard := by
  have hmeta : a.kind = .observationMetadataFile := by simpa [Kind.isPriority] using hkind
  have hnone : a.encapsulation = none := by
    cases hsome : a.encapsulation with
    | none => rfl
    | some id =>
        have hpack := (h.of_member (by simp [hsome])).2
        rw [hmeta] at hpack
        cases hpack
  refine ⟨hnone, by simp [isEncapsulation, hmeta, Kind.isEncapsulation], ?_⟩
  have hl := h.of_unpacked hnone
  rw [hmeta] at hl
  exact (Option.some.inj hl).symm

end BelongsTo

end Artefact

/-- A list in which a file's number is its place, and in which every packed file names an
encapsulation of the list, itself packed into none. -/
structure Arranged (artefacts : List Artefact) : Prop where
  numbered : ∀ (i : Nat) (a : Artefact), artefacts[i]? = some a → a.id = ⟨i⟩
  packed : ∀ a ∈ artefacts, ∀ id, a.encapsulation = some id →
    ∃ file ∈ artefacts, file.id = id ∧ file.isEncapsulation = true
  unpacked : ∀ a ∈ artefacts, a.isEncapsulation = true → a.encapsulation = none

namespace Arranged

variable {artefacts : List Artefact} {a b file : Artefact}

/-- Changing files one by one keeps the list in order. -/
theorem map (h : Arranged artefacts) {f : Artefact → Artefact}
    (hf : ∀ a ∈ artefacts, a.Continues (f a)) : Arranged (artefacts.map f) where
  numbered i b hb := by
    rw [List.getElem?_map] at hb
    obtain ⟨a, ha, rfl⟩ := Option.map_eq_some_iff.mp hb
    rw [(hf a (List.mem_of_getElem? ha)).id]
    exact h.numbered i a ha
  packed b hb id hid := by
    obtain ⟨a, ha, rfl⟩ := List.mem_map.mp hb
    rw [(hf a ha).encapsulation] at hid
    obtain ⟨file, hfile, hfileId, hkind⟩ := h.packed a ha id hid
    refine ⟨f file, List.mem_map_of_mem hfile, ?_, ?_⟩
    · rw [(hf file hfile).id]
      exact hfileId
    · rw [(hf file hfile).isEncapsulation]
      exact hkind
  unpacked b hb hkind := by
    obtain ⟨a, ha, rfl⟩ := List.mem_map.mp hb
    rw [(hf a ha).isEncapsulation] at hkind
    rw [(hf a ha).encapsulation]
    exact h.unpacked a ha hkind

theorem getElem?_of_mem (h : Arranged artefacts) (ha : a ∈ artefacts) :
    artefacts[a.id.index]? = some a := by
  obtain ⟨i, hi⟩ := List.mem_iff_getElem?.mp ha
  rw [h.numbered i a hi]
  exact hi

theorem eq_of_id (h : Arranged artefacts) (ha : a ∈ artefacts) (hb : b ∈ artefacts)
    (hid : a.id = b.id) : a = b := by
  have hget := h.getElem?_of_mem ha
  rw [hid, h.getElem?_of_mem hb] at hget
  exact (Option.some.inj hget).symm

theorem nodup_ids (h : Arranged artefacts) : (artefacts.map Artefact.id).Nodup := by
  rw [List.Nodup, List.pairwise_map, List.pairwise_iff_getElem]
  intro i j hi hj hlt hid
  rw [h.numbered i _ (List.getElem?_eq_getElem hi),
    h.numbered j _ (List.getElem?_eq_getElem hj)] at hid
  exact absurd (congrArg ArtefactId.index hid) (Nat.ne_of_lt hlt)

/-- Putting a file in its place changes that file and no other. -/
theorem set_eq_map (h : Arranged artefacts) (ha : a ∈ artefacts) (b : Artefact) :
    artefacts.set a.id.index b = artefacts.map fun x => if x.id = a.id then b else x := by
  apply List.ext_getElem?
  intro i
  rw [List.getElem?_map, List.getElem?_set]
  have hget := h.getElem?_of_mem ha
  have hlt : a.id.index < artefacts.length := (List.getElem?_eq_some_iff.mp hget).1
  by_cases hi : a.id.index = i
  · subst hi
    rw [hget]
    simp [hlt]
  · simp only [hi, if_false]
    cases hx : artefacts[i]? with
    | none => rfl
    | some x =>
        have hne : x.id ≠ a.id := by
          rw [h.numbered i x hx]
          intro heq
          exact hi (by rw [← heq])
        simp [hne]

theorem isEncapsulation_of_member (h : Arranged artefacts) (ha : a ∈ artefacts)
    {id : ArtefactId} (henc : a.encapsulation = some id) : a.isEncapsulation = false := by
  cases hkind : a.isEncapsulation with
  | false => rfl
  | true =>
      rw [h.unpacked a ha hkind] at henc
      cases henc

theorem isMemberOf_iff (h : Arranged artefacts) (ha : a ∈ artefacts) {id : ArtefactId} :
    a.isMemberOf id = true ↔ a.encapsulation = some id := by
  simp only [Artefact.isMemberOf, Bool.and_eq_true, bne_iff_ne, ne_eq, beq_iff_eq]
  constructor
  · exact fun hmem => hmem.2
  · intro henc
    refine ⟨?_, henc⟩
    rintro rfl
    obtain ⟨file, hfile, hid, hkind⟩ := h.packed a ha _ henc
    rw [h.eq_of_id hfile ha hid, h.isEncapsulation_of_member ha henc] at hkind
    cases hkind

theorem mem_members_iff (h : Arranged artefacts) {id : ArtefactId} :
    a ∈ Encapsulation.members artefacts id ↔ a ∈ artefacts ∧ a.encapsulation = some id := by
  simp only [Encapsulation.members, Artefact.mem_inChildOrder, List.mem_filter]
  constructor
  · rintro ⟨ha, hmem⟩
    exact ⟨ha, (h.isMemberOf_iff ha).mp hmem⟩
  · rintro ⟨ha, henc⟩
    exact ⟨ha, (h.isMemberOf_iff ha).mpr henc⟩

/-- A change of files that takes none into an encapsulation or out of it, and changes no member,
leaves the members as they are. -/
theorem members_map (h : Arranged artefacts) {f : Artefact → Artefact} {id : ArtefactId}
    (hwithin : ∀ a ∈ artefacts, (f a).isMemberOf id = a.isMemberOf id)
    (hfixed : ∀ a ∈ artefacts, a.encapsulation = some id → f a = a) :
    Encapsulation.members (artefacts.map f) id = Encapsulation.members artefacts id := by
  have hpred : artefacts.filter ((·.isMemberOf id) ∘ f) = artefacts.filter (·.isMemberOf id) :=
    List.filter_congr hwithin
  have hsame : ∀ a ∈ artefacts.filter (·.isMemberOf id), f a = a := by
    intro a ha
    obtain ⟨hmem, hmember⟩ := List.mem_filter.mp ha
    exact hfixed a hmem ((h.isMemberOf_iff hmem).mp hmember)
  rw [Encapsulation.members, List.filter_map, hpred, List.map_congr_left hsame, List.map_id',
    Encapsulation.members]

end Arranged

theorem lastIdx?_eq_none {α : Type} {p : α → Bool} {l : List α} (h : ∀ x ∈ l, p x = false) :
    lastIdx? p l = none := by
  induction l with
  | nil => rfl
  | cons x xs ih =>
      simp [lastIdx?, ih fun y hy => h y (List.mem_cons_of_mem _ hy), h x List.mem_cons_self]

/-- An entry with the property that no later entry has is the last one. -/
theorem lastIdx?_eq_some {α : Type} {p : α → Bool} {l : List α} {i : Nat} {x : α}
    (hx : l[i]? = some x) (hp : p x = true)
    (hlast : ∀ j y, l[j]? = some y → p y = true → j ≤ i) : lastIdx? p l = some i := by
  induction l generalizing i with
  | nil => simp at hx
  | cons y ys ih =>
      cases i with
      | zero =>
          have hnone : lastIdx? p ys = none := by
            apply lastIdx?_eq_none
            intro z hz
            obtain ⟨j, hj⟩ := List.mem_iff_getElem?.mp hz
            cases hpz : p z with
            | false => rfl
            | true => exact absurd (hlast (j + 1) z (by simpa using hj) hpz) (by omega)
          simp only [List.getElem?_cons_zero, Option.some.injEq] at hx
          subst hx
          simp [lastIdx?, hnone, hp]
      | succ i =>
          have hsome : lastIdx? p ys = some i := by
            apply ih (by simpa using hx)
            intro j z hz hpz
            have := hlast (j + 1) z (by simpa using hz) hpz
            omega
          simp [lastIdx?, hsome]

/-- The last place with a property holds an entry that has it. -/
theorem getElem?_of_lastIdx? {α : Type} {p : α → Bool} {l : List α} {i : Nat}
    (h : lastIdx? p l = some i) : ∃ x, l[i]? = some x ∧ p x = true := by
  induction l generalizing i with
  | nil => cases h
  | cons y ys ih =>
      unfold lastIdx? at h
      split at h
      · next j hj =>
          cases h
          simpa using ih hj
      · split at h
        · next hy =>
            cases h
            exact ⟨y, rfl, hy⟩
        · cases h

theorem Encapsulation.getElem?_of_find? {artefacts : List Artefact} {id : ArtefactId}
    {place : Nat} {file : Artefact} (h : find? artefacts id = some (place, file)) :
    artefacts[place]? = some file := by
  unfold find? at h
  simp only [Option.bind_eq_bind, Option.bind_eq_some_iff] at h
  obtain ⟨i, _, x, hx, hkind⟩ := h
  split at hkind
  · cases hkind
    exact hx
  · cases hkind

namespace Arranged

variable {artefacts : List Artefact} {file : Artefact}

/-- An encapsulation is found by its number, at its place. -/
theorem find?_of_mem (h : Arranged artefacts) (hfile : file ∈ artefacts)
    (hkind : file.isEncapsulation = true) :
    Encapsulation.find? artefacts file.id = some (file.id.index, file) := by
  have hlast : lastIdx? (fun a : Artefact => a.id == file.id) artefacts = some file.id.index := by
    apply lastIdx?_eq_some (h.getElem?_of_mem hfile) (by simp)
    intro j y hy hid
    rw [h.numbered j y hy] at hid
    have hj : (⟨j⟩ : ArtefactId) = file.id := by simpa using hid
    exact Nat.le_of_eq (congrArg ArtefactId.index hj)
  simp [Encapsulation.find?, hlast, h.getElem?_of_mem hfile, hkind]

/-- What is found by a number is the encapsulation with this number, and its place. -/
theorem mem_of_find? (h : Arranged artefacts) {id : ArtefactId} {place : Nat}
    (hfind : Encapsulation.find? artefacts id = some (place, file)) :
    file ∈ artefacts ∧ file.id = id ∧ place = file.id.index ∧ file.isEncapsulation = true := by
  unfold Encapsulation.find? at hfind
  simp only [Option.bind_eq_bind, Option.bind_eq_some_iff] at hfind
  obtain ⟨i, hlast, x, hx, hkind⟩ := hfind
  obtain ⟨y, hy, hid⟩ := getElem?_of_lastIdx? hlast
  rw [hx] at hy
  cases hy
  split at hkind
  · next henc =>
      cases hkind
      refine ⟨List.mem_of_getElem? hx, by simpa using hid, ?_, henc⟩
      rw [h.numbered place file hx]
  · cases hkind

end Arranged

/-- The files of a parent as its operations build them. -/
structure Siblings (parent : Parent) (artefacts : List Artefact) : Prop where
  numbered : ∀ (i : Nat) (a : Artefact), artefacts[i]? = some a → a.id = ⟨i⟩
  distinct : (artefacts.map Artefact.filename).Nodup
  belongs : ∀ a ∈ artefacts, a.BelongsTo parent
  packed : ∀ a ∈ artefacts, ∀ id, a.encapsulation = some id →
    id.index < a.id.index ∧ ∃ file ∈ artefacts, file.id = id ∧ file.isEncapsulation = true

namespace Siblings

variable {parent : Parent} {artefacts : List Artefact}

theorem nil (parent : Parent) : Siblings parent [] where
  numbered i a h := by simp at h
  distinct := List.nodup_nil
  belongs a h := by simp at h
  packed a h := by simp at h

theorem arranged (h : Siblings parent artefacts) : Arranged artefacts where
  numbered := h.numbered
  packed a ha id henc := (h.packed a ha id henc).2
  unpacked a ha hkind := ((h.belongs a ha).of_isEncapsulation hkind).1

/-- Changing files one by one keeps the list in order. -/
theorem map (h : Siblings parent artefacts) {f : Artefact → Artefact}
    (hf : ∀ a ∈ artefacts, a.Continues (f a)) : Siblings parent (artefacts.map f) where
  numbered := (h.arranged.map hf).numbered
  distinct := by
    have hnames : (artefacts.map f).map Artefact.filename = artefacts.map Artefact.filename := by
      rw [List.map_map]
      exact List.map_congr_left fun a ha => (hf a ha).filename
    rw [hnames]
    exact h.distinct
  belongs b hb := by
    obtain ⟨a, ha, rfl⟩ := List.mem_map.mp hb
    exact (h.belongs a ha).continues (hf a ha)
  packed b hb id hid := by
    refine ⟨?_, (h.arranged.map hf).packed b hb id hid⟩
    obtain ⟨a, ha, rfl⟩ := List.mem_map.mp hb
    rw [(hf a ha).encapsulation] at hid
    rw [(hf a ha).id]
    exact (h.packed a ha id hid).1

end Siblings

theorem Observation.artefact?_eq_some_iff {o : Observation} {parent : Parent}
    (h : Siblings parent o.artefacts) {id : ArtefactId} {a : Artefact} :
    o.artefact? id = some a ↔ a ∈ o.artefacts ∧ a.id = id := by
  unfold Observation.artefact?
  rw [Option.filter_eq_some_iff]
  constructor
  · rintro ⟨hget, hid⟩
    exact ⟨List.mem_of_getElem? hget, by simpa using hid⟩
  · rintro ⟨ha, rfl⟩
    exact ⟨h.arranged.getElem?_of_mem ha, by simp⟩

end Siblings

end ArchiveDeposit

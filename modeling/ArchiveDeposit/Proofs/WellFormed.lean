import ArchiveDeposit.Observation.Recovery
import ArchiveDeposit.Proofs.Snapshot
import Mathlib.Data.List.Nodup

/-!
# Well-formed observations

An observation is well-formed when it is on its lifecycle and its files are built by its operations;
it is sound when, besides, every record keeps a checkpoint exactly while it is failed, and one that
its lifecycle accepts.  New observations are sound, files are added soundly, and every operation
that changes files one by one keeps an observation sound.

**Results.**
* `Observation.Sound.moves`: changing files one by one keeps an observation sound.
* `Observation.Sound.push`: so does adding a file.
* `Observation.Moves.trans`: changes of files one by one are put together.
-/

namespace ArchiveDeposit

section WellFormed

namespace Observation

/-- On the lifecycle of observations, with the files that its operations build. -/
structure WellFormed (o : Observation) : Prop where
  lifecycle : o.state.lifecycle = .observation
  owner : o.state.owner = .observation o.sbid
  files : Siblings o.parent o.artefacts

/-- Well-formed, and every record sound. -/
structure Sound (o : Observation) : Prop where
  wellFormed : o.WellFormed
  record : o.record.Sound
  files : ∀ a ∈ o.artefacts, a.record.Sound

/-- A change of the own record and of the files one by one, none of which goes back. -/
structure Moves (f : Artefact → Artefact) (o o' : Observation) : Prop where
  sbid : o'.sbid = o.sbid
  record : o.record.Continues o'.record
  artefacts : o'.artefacts = o.artefacts.map f
  files : ∀ a ∈ o.artefacts, a.Continues (f a)

variable {o o' : Observation} {f : Artefact → Artefact} {now : Timestamp}

theorem Moves.refl (o : Observation) : o.Moves (fun a => a) o where
  sbid := rfl
  record := DepositRecord.Continues.refl _
  artefacts := (List.map_id' _).symm
  files a _ := Artefact.Continues.refl a

theorem Moves.trans {g : Artefact → Artefact} {o'' : Observation} (h : o.Moves f o')
    (h' : o'.Moves g o'') : o.Moves (g ∘ f) o'' where
  sbid := h'.sbid.trans h.sbid
  record := h.record.trans h'.record
  artefacts := by rw [h'.artefacts, h.artefacts, List.map_map]
  files a ha := (h.files a ha).trans
    (h'.files (f a) (by rw [h.artefacts]; exact List.mem_map_of_mem ha))

theorem moves_withArtefacts (hf : ∀ a ∈ o.artefacts, a.Continues (f a)) :
    o.Moves f (o.withArtefacts (o.artefacts.map f)) where
  sbid := rfl
  record := DepositRecord.Continues.refl _
  artefacts := rfl
  files := hf

theorem moves_record (hsbid : o'.sbid = o.sbid) (hrecord : o.record.Continues o'.record)
    (hfiles : o'.artefacts = o.artefacts) : o.Moves (fun a => a) o' where
  sbid := hsbid
  record := hrecord
  artefacts := hfiles.trans (List.map_id' _).symm
  files a _ := Artefact.Continues.refl a

theorem WellFormed.moves (h : o.WellFormed) (hm : o.Moves f o') : o'.WellFormed where
  lifecycle := hm.record.lifecycle.trans h.lifecycle
  owner := by
    rw [hm.sbid]
    exact hm.record.owner.trans h.owner
  files := by
    have hparent : o'.parent = o.parent := congrArg Parent.observation hm.sbid
    rw [hm.artefacts, hparent]
    exact h.files.map hm.files

theorem Sound.moves (h : o.Sound) (hm : o.Moves f o') : o'.Sound where
  wellFormed := h.wellFormed.moves hm
  record := hm.record.sound h.record
  files b hb := by
    rw [hm.artefacts] at hb
    obtain ⟨a, ha, rfl⟩ := List.mem_map.mp hb
    exact (hm.files a ha).record.sound (h.files a ha)

theorem sound_new {sbid : Sbid} (h : new sbid .standard = .ok o) :
    o.Sound ∧ o.artefacts = [] ∧ o.stage = .undeposited := by
  cases h
  exact ⟨⟨⟨rfl, rfl, Siblings.nil _⟩, DepositRecord.sound_new .observation _,
    fun a ha => nomatch ha⟩, rfl, rfl⟩

/-- A file that is added goes to the end of the list, at the first stage of its lifecycle. -/
theorem push_spec {factory : Factory} {kind : Kind} {filename : String}
    {encapsulation : Option ArtefactId} {id : ArtefactId}
    (h : o.push factory kind filename encapsulation = .ok (o', id)) :
    kind.isChild = true ∧ o.named? filename = none ∧ id = ⟨o.artefacts.length⟩ ∧
      ∃ l, factory.lifecycleFor kind encapsulation.isSome = .ok l ∧
        o' = o.withArtefacts (o.artefacts ++ [⟨id, kind, filename, some o.parent, encapsulation,
          .new (.initial l (.artefact (some o.parent) filename))⟩]) := by
  unfold push at h
  split at h
  · cases h
  · next hkind =>
      split at h
      · cases h
      · next hname =>
          unfold Factory.initialState at h
          cases hl : factory.lifecycleFor kind encapsulation.isSome with
          | error e => simp [hl, Except.map] at h
          | ok l =>
              simp only [hl, Except.map, Except.ok.injEq, Prod.mk.injEq] at h
              obtain ⟨rfl, rfl⟩ := h
              exact ⟨by simpa using hkind, by simpa using hname, rfl, l, rfl, rfl⟩

theorem Sound.push (h : o.Sound) {kind : Kind} {filename : String}
    {encapsulation : Option ArtefactId} {id : ArtefactId}
    (hpacked : ∀ id, encapsulation = some id →
      ∃ file ∈ o.artefacts, file.id = id ∧ file.isEncapsulation = true)
    (hok : o.push .standard kind filename encapsulation = .ok (o', id)) : o'.Sound := by
  obtain ⟨hkind, hname, rfl, l, hl, rfl⟩ := push_spec hok
  have hsiblings := h.wellFormed.files
  refine ⟨⟨h.wellFormed.lifecycle, h.wellFormed.owner, ?_, ?_, ?_, ?_⟩, h.record, ?_⟩
  · intro i a ha
    rw [withArtefacts, List.getElem?_append] at ha
    split at ha
    · exact hsiblings.numbered i a ha
    · next hi =>
        obtain ⟨hlast, rfl⟩ := by simpa [List.getElem?_singleton] using ha
        have hi' : i = o.artefacts.length := by omega
        rw [hi']
  · have hfresh : filename ∉ o.artefacts.map Artefact.filename := by
      intro hmem
      obtain ⟨a, ha, hfilename⟩ := List.mem_map.mp hmem
      rw [named?, List.find?_eq_none] at hname
      exact hname a ha (by simpa using hfilename)
    simp only [withArtefacts, List.map_append, List.map_cons, List.map_nil]
    rw [List.nodup_append]
    refine ⟨hsiblings.distinct, by simp, ?_⟩
    rintro name hold other hnew rfl
    exact hfresh (by simpa [← List.mem_singleton.mp hnew] using hold)
  · intro a ha
    rcases List.mem_append.mp ha with hold | hnew
    · exact hsiblings.belongs a hold
    · rw [List.mem_singleton.mp hnew]
      exact ⟨rfl, rfl, hkind, hl⟩
  · intro a ha id hid
    rcases List.mem_append.mp ha with hold | hnew
    · obtain ⟨hlt, file, hfile, hrest⟩ := hsiblings.packed a hold id hid
      exact ⟨hlt, file, List.mem_append_left _ hfile, hrest⟩
    · rw [List.mem_singleton.mp hnew] at hid ⊢
      obtain ⟨file, hfile, hfileId, hfileKind⟩ := hpacked id hid
      refine ⟨?_, file, List.mem_append_left _ hfile, hfileId, hfileKind⟩
      rw [← hfileId]
      exact (List.getElem?_eq_some_iff.mp (hsiblings.arranged.getElem?_of_mem hfile)).1
  · intro a ha
    rcases List.mem_append.mp ha with hold | hnew
    · exact h.files a hold
    · rw [List.mem_singleton.mp hnew]
      exact DepositRecord.sound_new l _

end Observation

namespace Artefact

variable {now : Timestamp}

/-- The file taken back if it is failed; where that is refused, as it is. -/
def recovered (a : Artefact) (now : Timestamp) : Artefact :=
  match a.recover now with
  | .ok change => change.1
  | .error _ => a

/-- What is reported when the file is taken back; where that is refused, nothing. -/
def recoveryReport (a : Artefact) (now : Timestamp) : Option Transition :=
  match a.recover now with
  | .ok change => change.2
  | .error _ => none

theorem stays_recover {a : Artefact} {change : Artefact × Option Transition}
    (h : a.recover now = .ok change) : a.record.Stays change.1.record ∧ a.Continues change.1 := by
  obtain ⟨changed, hrecover, rfl⟩ := eq_ok_of_map h
  have hstays := DepositRecord.stays_recover hrecover
  exact ⟨hstays, Continues.withRecord hstays.continues⟩

/-- A failed file with a sound record is always taken back. -/
theorem recover_of_isFailed {a : Artefact} (hr : a.record.Sound) (hfail : a.isFailed = true)
    (now : Timestamp) : a.recover now = .ok (a.recovered now, a.recoveryReport now) := by
  obtain ⟨next, hrecover, _⟩ := DepositRecord.recover_of_isFailed hr hfail now
  simp only [recovered, recoveryReport, recover, hrecover]
  rfl

end Artefact

namespace Observation

variable {o o' : Observation} {now : Timestamp}

/-- A change of the own record and of the files one by one that leaves every effective stage where
it is. -/
structure Stays (f : Artefact → Artefact) (o o' : Observation) : Prop where
  moves : o.Moves f o'
  record : o.record.Stays o'.record
  files : ∀ a ∈ o.artefacts, a.record.Stays (f a).record

/-- Taking the own record back. -/
theorem recoverOwn_spec {transition : Option Transition}
    (h : o.recoverOwn now = .ok (o', transition)) :
    o'.sbid = o.sbid ∧ o'.artefacts = o.artefacts ∧ o.record.Stays o'.record := by
  obtain ⟨change, hrecover, hpair⟩ := eq_ok_of_map h
  cases hpair
  exact ⟨rfl, rfl, DepositRecord.stays_recover hrecover⟩

/-- A file is found under its name, which no other has. -/
theorem named?_eq_some_iff {a : Artefact} (h : o.WellFormed) {filename : String} :
    o.named? filename = some a ↔ a ∈ o.artefacts ∧ a.filename = filename := by
  constructor
  · intro hfind
    exact ⟨List.mem_of_find?_eq_some hfind, by simpa using List.find?_some hfind⟩
  · rintro ⟨ha, rfl⟩
    cases hfind : o.named? a.filename with
    | none => simpa using List.find?_eq_none.mp hfind a ha
    | some b =>
        have hb := List.mem_of_find?_eq_some hfind
        have hname : b.filename = a.filename := by simpa using List.find?_some hfind
        rw [List.inj_on_of_nodup_map h.files.distinct hb ha hname]

/-- A file is found under its name at its place. -/
theorem findIdx?_named? (h : o.WellFormed) {filename : String} {place : Nat} {file : Artefact}
    (hplace : o.artefacts.findIdx? (fun a => a.filename == filename) = some place)
    (hfile : o.named? filename = some file) :
    file ∈ o.artefacts ∧ file.filename = filename ∧ place = file.id.index := by
  obtain ⟨hlt, hname, _⟩ := List.findIdx?_eq_some_iff_getElem.mp hplace
  have hmem := List.mem_of_find?_eq_some hfile
  have hfilename : file.filename = filename := by simpa using List.find?_some hfile
  refine ⟨hmem, hfilename, ?_⟩
  have hnames : (o.artefacts.map Artefact.filename)[place]? =
      (o.artefacts.map Artefact.filename)[file.id.index]? := by
    rw [List.getElem?_map, List.getElem?_map, h.files.arranged.getElem?_of_mem hmem,
      List.getElem?_eq_getElem hlt, Option.map_some, Option.map_some, hfilename]
    simpa using hname
  exact (List.getElem?_inj (by simpa using hlt) h.files.distinct).mp hnames

end Observation

end WellFormed

end ArchiveDeposit

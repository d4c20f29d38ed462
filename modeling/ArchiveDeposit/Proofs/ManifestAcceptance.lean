import ArchiveDeposit.Proofs.InsertionOrder
import ArchiveDeposit.Proofs.OnCourse

/-!
# Which manifests are accepted

Building goes through a manifest twice, first for the encapsulations and then for all other files,
and asks of each file what the files added so far permit.  Nevertheless whether a manifest is built
depends only on which entries it has, not on their order: an entry is asked only for encapsulations,
and of those all are there before any entry asks.

The observation that is built has one file for each entry, encapsulations first, as the entry
describes it.  Manifests with the same entries build observations that differ only in the numbers of
their files, which no report shows.

**Results.**
* `Manifest.addFile_eq_ok_iff`: what adding one file asks.
* `Manifest.Entered.addEach_iff`: what adding files one after the other asks of all of them.
* `Manifest.build_iff_acceptable`: the manifests that are accepted.
* `Manifest.entered_of_build`: what is built.
* `Manifest.reorders_of_build`: the observations of manifests with the same entries.
-/

namespace ArchiveDeposit

section ManifestAcceptance

open Observation

variable {o o' : Observation} {e : ManifestEntry} {entries : List ManifestEntry} {sbid : Sbid}

namespace Observation

/-- The number of the encapsulation with a name, where one is named. -/
inductive Resolves (o : Observation) : Option String → Option ArtefactId → Prop
  | unpacked : Resolves o none none
  | packed {name : String} {file : Artefact} (hfile : file ∈ o.artefacts)
      (hname : file.filename = name) (hkind : file.isEncapsulation = true) :
      Resolves o (some name) (some file.id)

theorem Resolves.isSome_eq {named : Option String} {id : Option ArtefactId}
    (h : o.Resolves named id) : id.isSome = named.isSome := by
  cases h <;> rfl

/-- What is found is found among more files too. -/
theorem Resolves.mono {named : Option String} {id : Option ArtefactId} (h : o.Resolves named id)
    (hfiles : ∀ a ∈ o.artefacts, a ∈ o'.artefacts) : o'.Resolves named id := by
  cases h with
  | unpacked => exact .unpacked
  | packed hfile hname hkind => exact .packed (hfiles _ hfile) hname hkind

/-- A file is added unless its kind is that of a parent, its name is taken, or it is packed though
its kind is never. -/
theorem push_isOk_iff {kind : Kind} {filename : String} {encapsulation : Option ArtefactId} :
    (∃ after, o.push .standard kind filename encapsulation = .ok after) ↔
      kind.isChild = true ∧ o.named? filename = none ∧
        (encapsulation.isSome = true → kind.isEncapsulatable = true) := by
  constructor
  · rintro ⟨after, hok⟩
    obtain ⟨hchild, hname, _, l, hl, _⟩ := push_spec hok
    refine ⟨hchild, hname, fun hsome => ?_⟩
    rw [hsome, Factory.lifecycleFor, if_pos rfl] at hl
    split at hl
    · assumption
    · cases hl
  · rintro ⟨hchild, hname, hpack⟩
    have hl : ∃ l, Factory.standard.lifecycleFor kind encapsulation.isSome = .ok l := by
      cases hsome : encapsulation.isSome with
      | true => exact ⟨.encapsulated, by rw [Factory.lifecycleFor, if_pos rfl, if_pos (hpack hsome)]⟩
      | false => cases kind <;> exact ⟨_, rfl⟩
    obtain ⟨l, hl⟩ := hl
    simp only [push, hchild, hname, Factory.initialState, hl]
    exact ⟨_, rfl⟩

theorem addEncapsulated_eq_ok_iff (h : o.WellFormed) {factory : Factory} {kind : Kind}
    {filename : String} {encapsulation : ArtefactId} {after : Observation × ArtefactId} :
    o.addEncapsulated factory kind filename encapsulation = .ok after ↔
      (∃ file ∈ o.artefacts, file.id = encapsulation ∧ file.isEncapsulation = true) ∧
        o.push factory kind filename (some encapsulation) = .ok after := by
  refine ⟨fun hok => addEncapsulated_spec h hok, ?_⟩
  rintro ⟨⟨file, hfile, hid, hkind⟩, hpush⟩
  have hfind : o.artefact? encapsulation = some file :=
    (artefact?_eq_some_iff h.files).mpr ⟨hfile, hid⟩
  rw [addEncapsulated, hfind, Option.any_some, hkind, if_pos rfl, hpush]

end Observation

namespace Manifest

theorem refuse_eq_ok_iff {result : Except DepositError (Observation × ArtefactId)} :
    refuse e result = .ok o' ↔ ∃ id, result = .ok (o', id) := by
  cases result with
  | error cause => simp [refuse]
  | ok after =>
      obtain ⟨after, id⟩ := after
      simp [refuse]

/-- An entry is added as a file that is packed into the encapsulation it names. -/
theorem addFile_eq_ok_iff (h : o.WellFormed) :
    addFile .standard o e = .ok o' ↔ ∃ encapsulation id,
      o.Resolves e.encapsulation encapsulation ∧
        o.push .standard e.kind e.filename encapsulation = .ok (o', id) := by
  unfold addFile
  cases hnamed : e.encapsulation with
  | none =>
      refine refuse_eq_ok_iff.trans ?_
      constructor
      · rintro ⟨id, hpush⟩
        exact ⟨none, id, .unpacked, hpush⟩
      · rintro ⟨_, id, ⟨⟩, hpush⟩
        exact ⟨id, hpush⟩
  | some name =>
      cases hfind : o.named? name with
      | none =>
          simp only [hfind]
          constructor
          · intro herror
            cases herror
          · rintro ⟨_, _, hresolves, _⟩
            cases hresolves with
            | packed hfile hname _ =>
                exact absurd hname (by simpa using List.find?_eq_none.mp hfind _ hfile)
      | some file =>
          obtain ⟨hfile, hname⟩ := (named?_eq_some_iff h).mp hfind
          simp only [hfind]
          refine refuse_eq_ok_iff.trans ?_
          constructor
          · rintro ⟨id, hadd⟩
            obtain ⟨⟨other, hother, hid, hkind⟩, hpush⟩ := (addEncapsulated_eq_ok_iff h).mp hadd
            rw [h.files.arranged.eq_of_id hother hfile hid] at hkind
            exact ⟨_, id, .packed hfile hname hkind, hpush⟩
          · rintro ⟨_, id, hresolves, hpush⟩
            cases hresolves with
            | @packed _ other hother hsame hkind =>
                have hfound := (named?_eq_some_iff h).mpr ⟨hother, hsame⟩
                obtain rfl : file = other := Option.some.inj (hfind.symm.trans hfound)
                exact ⟨id, (addEncapsulated_eq_ok_iff h).mpr ⟨⟨file, hfile, rfl, hkind⟩, hpush⟩⟩

end Manifest

namespace ManifestEntry

/-- The file that an entry describes: of its kind and name, packed into the encapsulation that it
names or into none, in the first stage of its lifecycle, and never failed. -/
structure Describes (e : ManifestEntry) (o : Observation) (a : Artefact) : Prop where
  kind : a.kind = e.kind
  filename : a.filename = e.filename
  parent : a.parent = some o.parent
  packing : o.Resolves e.encapsulation a.encapsulation
  lifecycle : Factory.standard.lifecycleFor e.kind e.encapsulation.isSome = .ok a.state.lifecycle
  record : a.record = .new (.initial a.state.lifecycle a.owner)

/-- What the entries before it leave to an entry: a kind that has a parent, a name of its own, and
no encapsulation but one of theirs, and that only for a kind that may be packed. -/
structure Fits (before : List ManifestEntry) (e : ManifestEntry) : Prop where
  child : e.kind.isChild = true
  fresh : e.filename ∉ before.map filename
  packed : ∀ name, e.encapsulation = some name → e.kind.isEncapsulatable = true ∧
    ∃ file ∈ before, file.kind = .encapsulationFile ∧ file.filename = name

end ManifestEntry

namespace Manifest

open ManifestEntry

/-- The new observation with the files that some entries describe, and nothing else. -/
structure Entered (sbid : Sbid) (before : List ManifestEntry) (o : Observation) : Prop where
  unstarted : o.Unstarted
  own : o.withArtefacts [] = fresh sbid
  files : List.Forall₂ (fun e a => e.Describes o a) before o.artefacts

theorem entered_fresh (sbid : Sbid) : Entered sbid [] (fresh sbid) := by
  obtain ⟨hsound, _, hstage⟩ := sound_new (new_standard sbid)
  exact ⟨⟨hsound, hstage, fun a ha => nomatch ha⟩, rfl, .nil⟩

namespace Entered

variable {before : List ManifestEntry}

theorem labels (h : Entered sbid before o) :
    before.map (fun e => (e.kind, e.filename)) =
      o.artefacts.map fun a => (a.kind, a.filename) := by
  rw [← List.forall₂_eq_eq_eq, List.forall₂_map_left_iff, List.forall₂_map_right_iff]
  exact h.files.imp fun e a ha => by rw [ha.kind, ha.filename]

theorem named?_eq_none_iff (h : Entered sbid before o) (filename : String) :
    o.named? filename = none ↔ filename ∉ before.map ManifestEntry.filename := by
  have hnames : before.map ManifestEntry.filename = o.artefacts.map Artefact.filename := by
    have hlabels := congrArg (List.map Prod.snd) h.labels
    rwa [List.map_map, List.map_map] at hlabels
  rw [hnames, named?, List.find?_eq_none, List.mem_map]
  simp

/-- A name is that of an encapsulation if an entry for an encapsulation has it. -/
theorem exists_resolves_iff (h : Entered sbid before o) (named : Option String) :
    (∃ id, o.Resolves named id) ↔ ∀ name, named = some name →
      ∃ file ∈ before, file.kind = .encapsulationFile ∧ file.filename = name := by
  have hlabel (name : String) :
      (∃ file ∈ before, file.kind = .encapsulationFile ∧ file.filename = name) ↔
        ∃ a ∈ o.artefacts, a.filename = name ∧ a.isEncapsulation = true := by
    have hmem : (Kind.encapsulationFile, name) ∈ before.map (fun e => (e.kind, e.filename)) ↔
        (Kind.encapsulationFile, name) ∈ o.artefacts.map fun a => (a.kind, a.filename) := by
      rw [h.labels]
    simpa [Artefact.isEncapsulation, Kind.isEncapsulation, and_comm] using hmem
  constructor
  · rintro ⟨_, hresolves⟩ name rfl
    cases hresolves with
    | packed hfile hname hkind => exact (hlabel name).mpr ⟨_, hfile, hname, hkind⟩
  · intro hfound
    cases named with
    | none => exact ⟨none, .unpacked⟩
    | some name =>
        obtain ⟨a, ha, hname, hkind⟩ := (hlabel name).mp (hfound name rfl)
        exact ⟨some a.id, .packed ha hname hkind⟩

/-- An entry is added exactly if it fits the entries before it. -/
theorem addFile_iff (h : Entered sbid before o) :
    (∃ o', addFile .standard o e = .ok o') ↔ e.Fits before := by
  have hwf := h.unstarted.sound.wellFormed
  constructor
  · rintro ⟨o', hok⟩
    obtain ⟨id, _, hresolves, hpush⟩ := (addFile_eq_ok_iff hwf).mp hok
    obtain ⟨hchild, hname, hpack⟩ := push_isOk_iff.mp ⟨_, hpush⟩
    refine ⟨hchild, (h.named?_eq_none_iff e.filename).mp hname, fun name hnamed => ⟨?_, ?_⟩⟩
    · refine hpack ?_
      rw [hresolves.isSome_eq, hnamed, Option.isSome_some]
    · exact (h.exists_resolves_iff e.encapsulation).mp ⟨id, hresolves⟩ name hnamed
  · intro hfits
    obtain ⟨id, hresolves⟩ := (h.exists_resolves_iff e.encapsulation).mpr
      fun name hnamed => (hfits.packed name hnamed).2
    have hpack : id.isSome = true → e.kind.isEncapsulatable = true := by
      intro hsome
      rw [hresolves.isSome_eq] at hsome
      obtain ⟨name, hnamed⟩ := Option.isSome_iff_exists.mp hsome
      exact (hfits.packed name hnamed).1
    obtain ⟨⟨o', number⟩, hpush⟩ := push_isOk_iff.mpr
      ⟨hfits.child, (h.named?_eq_none_iff e.filename).mpr hfits.fresh, hpack⟩
    exact ⟨o', (addFile_eq_ok_iff hwf).mpr ⟨id, number, hresolves, hpush⟩⟩

/-- An entry that is added is described by the last file. -/
theorem addFile (h : Entered sbid before o) (hok : addFile .standard o e = .ok o') :
    Entered sbid (before ++ [e]) o' := by
  obtain ⟨id, number, hresolves, hpush⟩ := (addFile_eq_ok_iff h.unstarted.sound.wellFormed).mp hok
  have hunstarted := unstarted_addFile h.unstarted hok
  obtain ⟨_, _, _, l, hl, rfl⟩ := push_spec hpush
  let file : Artefact := ⟨number, e.kind, e.filename, some o.parent, id,
    .new (.initial l (.artefact (some o.parent) e.filename))⟩
  have hfiles : ∀ a ∈ o.artefacts, a ∈ (o.withArtefacts (o.artefacts ++ [file])).artefacts :=
    fun a ha => List.mem_append_left _ ha
  refine ⟨hunstarted, h.own, List.rel_append ?_ (.cons ?_ .nil)⟩
  · exact h.files.imp fun e a ha => ⟨ha.kind, ha.filename, ha.parent, ha.packing.mono hfiles,
      ha.lifecycle, ha.record⟩
  · refine ⟨rfl, rfl, rfl, hresolves.mono hfiles, ?_, rfl⟩
    rw [← hresolves.isSome_eq]
    exact hl

end Entered

theorem addEach_cons_eq_ok_iff {rest : List ManifestEntry}
    {add : Observation → ManifestEntry → Except ManifestError Observation} :
    addEach add o (e :: rest) = .ok o' ↔
      ∃ after, add o e = .ok after ∧ addEach add after rest = .ok o' := by
  rw [addEach]
  cases add o e with
  | error cause => simp
  | ok after => simp

/-- Entries of which none may be packed into another. -/
def Apart (entries : List ManifestEntry) : Prop :=
  ∀ file ∈ entries, file.kind = .encapsulationFile → ∀ e ∈ entries, e.kind.isEncapsulatable = false

/-- What an entry asks that cannot be packed into the one before it. -/
theorem fits_concat_iff {before : List ManifestEntry} {first : ManifestEntry}
    (hapart : first.kind = .encapsulationFile → e.kind.isEncapsulatable = false) :
    e.Fits (before ++ [first]) ↔ e.Fits before ∧ e.filename ≠ first.filename := by
  have hnames : e.filename ∉ (before ++ [first]).map filename ↔
      e.filename ∉ before.map filename ∧ e.filename ≠ first.filename := by
    rw [List.map_append, List.mem_append, not_or]
    simp
  constructor
  · intro hfits
    obtain ⟨hfresh, hne⟩ := hnames.mp hfits.fresh
    refine ⟨⟨hfits.child, hfresh, fun name hnamed => ?_⟩, hne⟩
    obtain ⟨hpack, file, hfile, hkind, hname⟩ := hfits.packed name hnamed
    refine ⟨hpack, file, (List.mem_append.mp hfile).resolve_right fun hlast => ?_, hkind, hname⟩
    rw [List.mem_singleton.mp hlast] at hkind
    rw [hapart hkind] at hpack
    cases hpack
  · rintro ⟨hfits, hne⟩
    refine ⟨hfits.child, hnames.mpr ⟨hfits.fresh, hne⟩, fun name hnamed => ?_⟩
    obtain ⟨hpack, file, hfile, hfound⟩ := hfits.packed name hnamed
    exact ⟨hpack, file, List.mem_append_left _ hfile, hfound⟩

namespace Entered

/-- Entries of which none may be packed into another are all added exactly if their names differ and
each of them fits the entries before all. -/
theorem addEach_iff (hapart : Apart entries) :
    ∀ {before : List ManifestEntry} {o : Observation}, Entered sbid before o →
      ((∃ o', addEach (Manifest.addFile .standard) o entries = .ok o') ↔
        (entries.map filename).Nodup ∧ ∀ e ∈ entries, e.Fits before) := by
  induction entries with
  | nil => exact fun _ => ⟨fun _ => ⟨List.nodup_nil, nofun⟩, fun _ => ⟨_, rfl⟩⟩
  | cons first rest ih =>
      intro before o h
      have hrest : Apart rest := fun file hfile hkind e he =>
        hapart file (List.mem_cons_of_mem _ hfile) hkind e (List.mem_cons_of_mem _ he)
      have hlater (e : ManifestEntry) (he : e ∈ rest) :
          e.Fits (before ++ [first]) ↔ e.Fits before ∧ e.filename ≠ first.filename :=
        fits_concat_iff fun hkind =>
          hapart first List.mem_cons_self hkind e (List.mem_cons_of_mem _ he)
      rw [List.map_cons, List.nodup_cons, List.forall_mem_cons]
      constructor
      · rintro ⟨o', hok⟩
        obtain ⟨after, hfirst, hok⟩ := addEach_cons_eq_ok_iff.mp hok
        obtain ⟨hdistinct, hfits⟩ := (ih hrest (h.addFile hfirst)).mp ⟨o', hok⟩
        refine ⟨⟨fun hmem => ?_, hdistinct⟩, h.addFile_iff.mp ⟨after, hfirst⟩, fun e he =>
          ((hlater e he).mp (hfits e he)).1⟩
        obtain ⟨e, he, hname⟩ := List.mem_map.mp hmem
        exact ((hlater e he).mp (hfits e he)).2 hname
      · rintro ⟨⟨hnew, hdistinct⟩, hfirst, hfits⟩
        obtain ⟨after, hafter⟩ := h.addFile_iff.mpr hfirst
        have hfits : ∀ e ∈ rest, e.Fits (before ++ [first]) := fun e he =>
          (hlater e he).mpr ⟨hfits e he, fun hname => hnew (List.mem_map.mpr ⟨e, he, hname⟩)⟩
        obtain ⟨o', hok⟩ := (ih hrest (h.addFile hafter)).mpr ⟨hdistinct, hfits⟩
        exact ⟨o', addEach_cons_eq_ok_iff.mpr ⟨after, hafter, hok⟩⟩

/-- The files of an observation after entries were added. -/
theorem addEach (entries : List ManifestEntry) :
    ∀ {before : List ManifestEntry} {o : Observation}, Entered sbid before o →
      Manifest.addEach (Manifest.addFile .standard) o entries = .ok o' →
        Entered sbid (before ++ entries) o' := by
  induction entries with
  | nil =>
      intro before o h hok
      cases hok
      rwa [List.append_nil]
  | cons first rest ih =>
      intro before o h hok
      obtain ⟨after, hfirst, hok⟩ := addEach_cons_eq_ok_iff.mp hok
      have hrest := ih (h.addFile hfirst) hok
      rwa [List.append_assoc, List.singleton_append] at hrest

/-- Of an encapsulation the first pass asks what the second one would ask. -/
theorem addEncapsulation_eq_ok_iff {before : List ManifestEntry} (h : Entered sbid before o)
    (hkind : e.kind = .encapsulationFile) :
    addEncapsulation .standard o e = .ok o' ↔ Manifest.addFile .standard o e = .ok o' := by
  cases hnamed : e.encapsulation with
  | none =>
      rw [addEncapsulation, Manifest.addFile, hnamed, Option.isSome_none,
        if_neg Bool.false_ne_true]
  | some name =>
      rw [addEncapsulation, hnamed, Option.isSome_some, if_pos rfl]
      refine ⟨fun herror => (nomatch herror), fun hok => ?_⟩
      have hpack := ((h.addFile_iff.mp ⟨o', hok⟩).packed name hnamed).1
      rw [hkind] at hpack
      cases hpack

theorem addEncapsulations_eq_ok_iff (hkind : ∀ e ∈ entries, e.kind = .encapsulationFile) :
    ∀ {before : List ManifestEntry} {o : Observation}, Entered sbid before o →
      (Manifest.addEach (addEncapsulation .standard) o entries = .ok o' ↔
        Manifest.addEach (Manifest.addFile .standard) o entries = .ok o') := by
  induction entries with
  | nil => exact fun _ => Iff.rfl
  | cons first rest ih =>
      intro before o h
      rw [addEach_cons_eq_ok_iff, addEach_cons_eq_ok_iff]
      refine exists_congr fun after => ?_
      rw [h.addEncapsulation_eq_ok_iff (hkind first List.mem_cons_self), and_congr_right_iff]
      intro hfirst
      exact ih (fun e he => hkind e (List.mem_cons_of_mem _ he)) (h.addFile hfirst)

end Entered

variable {m m' : Manifest}

theorem isEncapsulation_iff {e : ManifestEntry} :
    e.kind.isEncapsulation = true ↔ e.kind = .encapsulationFile := beq_iff_eq

theorem mem_encapsulations {e : ManifestEntry} :
    e ∈ m.encapsulations ↔ e ∈ m.entries ∧ e.kind = .encapsulationFile := by
  rw [encapsulations, List.mem_filter, isEncapsulation_iff]

theorem mem_files {e : ManifestEntry} :
    e ∈ m.files ↔ e ∈ m.entries ∧ e.kind ≠ .encapsulationFile := by
  rw [files, List.mem_filter, Bool.not_eq_true', ← Bool.not_eq_true, isEncapsulation_iff]

/-- Building adds all entries, the encapsulations first. -/
theorem build_eq_ok_iff :
    m.build .standard = .ok o ↔ m.sbid ≠ 0 ∧ ∃ packed,
      addEach (addFile .standard) (fresh ⟨m.sbid⟩) m.encapsulations = .ok packed ∧
        addEach (addFile .standard) packed m.files = .ok o := by
  have hpass (packed : Observation) :
      addEach (addEncapsulation .standard) (fresh ⟨m.sbid⟩) m.encapsulations = .ok packed ↔
        addEach (addFile .standard) (fresh ⟨m.sbid⟩) m.encapsulations = .ok packed :=
    (entered_fresh ⟨m.sbid⟩).addEncapsulations_eq_ok_iff fun e he => (mem_encapsulations.mp he).2
  unfold build Sbid.ofValue
  by_cases hsbid : m.sbid = 0
  · simp [hsbid]
  · simp only [if_neg hsbid, new_standard, ← hpass]
    cases addEach (addEncapsulation .standard) (fresh ⟨m.sbid⟩) m.encapsulations with
    | error cause => simp
    | ok packed => simp [hsbid]

/-- What is asked of the entries of a manifest, in whatever order they stand. -/
structure Acceptable (m : Manifest) : Prop where
  sbid : m.sbid ≠ 0
  distinct : (m.entries.map filename).Nodup
  children : ∀ e ∈ m.entries, e.kind.isChild = true
  unnested : ∀ e ∈ m.entries, e.kind = .encapsulationFile → e.encapsulation = none
  packed : ∀ e ∈ m.entries, e.kind ≠ .encapsulationFile → ∀ name, e.encapsulation = some name →
    e.kind.isEncapsulatable = true ∧
      ∃ file ∈ m.entries, file.kind = .encapsulationFile ∧ file.filename = name

theorem Acceptable.of_perm (h : m.Acceptable) (hsbid : m'.sbid = m.sbid)
    (hperm : m'.entries.Perm m.entries) : m'.Acceptable where
  sbid := by
    rw [hsbid]
    exact h.sbid
  distinct := (hperm.map filename).nodup_iff.mpr h.distinct
  children e he := h.children e (hperm.mem_iff.mp he)
  unnested e he := h.unnested e (hperm.mem_iff.mp he)
  packed e he hkind name hnamed := by
    obtain ⟨hpack, file, hfile, hfound⟩ := h.packed e (hperm.mem_iff.mp he) hkind name hnamed
    exact ⟨hpack, file, hperm.mem_iff.mpr hfile, hfound⟩

/-- Each pass asks of its entries what they ask of the encapsulations. -/
theorem exists_build_iff :
    (∃ o, m.build .standard = .ok o) ↔ m.sbid ≠ 0 ∧
      ((m.encapsulations.map filename).Nodup ∧ ∀ e ∈ m.encapsulations, e.Fits []) ∧
        (m.files.map filename).Nodup ∧ ∀ e ∈ m.files, e.Fits m.encapsulations := by
  have hencapsulations : Apart m.encapsulations := fun _ _ _ e he => by
    rw [(mem_encapsulations.mp he).2]
    rfl
  have hfiles : Apart m.files := fun file hfile hkind _ _ =>
    absurd hkind (mem_files.mp hfile).2
  have hfirst := (entered_fresh ⟨m.sbid⟩).addEach_iff hencapsulations
  have hsecond {packed : Observation} (hpacked :
      addEach (addFile .standard) (fresh ⟨m.sbid⟩) m.encapsulations = .ok packed) :=
    ((entered_fresh ⟨m.sbid⟩).addEach m.encapsulations hpacked).addEach_iff hfiles
  rw [← hfirst]
  constructor
  · rintro ⟨o, hok⟩
    obtain ⟨hsbid, packed, hpacked, hbuilt⟩ := build_eq_ok_iff.mp hok
    exact ⟨hsbid, ⟨packed, hpacked⟩, (hsecond hpacked).mp ⟨o, hbuilt⟩⟩
  · rintro ⟨hsbid, ⟨packed, hpacked⟩, hfits⟩
    obtain ⟨o, hbuilt⟩ := (hsecond hpacked).mpr hfits
    exact ⟨o, build_eq_ok_iff.mpr ⟨hsbid, packed, hpacked, hbuilt⟩⟩

/-- A manifest is built exactly if it is acceptable. -/
theorem build_iff_acceptable : (∃ o, m.build .standard = .ok o) ↔ m.Acceptable := by
  have hperm : (m.encapsulations ++ m.files).Perm m.entries := List.filter_append_perm _ _
  have hnames : (m.entries.map filename).Nodup ↔ (m.encapsulations.map filename).Nodup ∧
      (m.files.map filename).Nodup ∧
        ∀ e ∈ m.files, e.filename ∉ m.encapsulations.map filename := by
    rw [← (hperm.map filename).nodup_iff, List.map_append, List.nodup_append']
    refine and_congr_right fun _ => and_congr_right fun _ => ?_
    rw [List.disjoint_comm]
    exact List.forall_mem_map
  rw [exists_build_iff]
  constructor
  · rintro ⟨hsbid, ⟨hencapsulations, hfirst⟩, hfiles, hsecond⟩
    refine ⟨hsbid, hnames.mpr ⟨hencapsulations, hfiles, fun e he => (hsecond e he).fresh⟩, ?_, ?_,
      ?_⟩
    · intro e he
      by_cases hkind : e.kind = .encapsulationFile
      · exact (hfirst e (mem_encapsulations.mpr ⟨he, hkind⟩)).child
      · exact (hsecond e (mem_files.mpr ⟨he, hkind⟩)).child
    · intro e he hkind
      refine Option.eq_none_iff_forall_ne_some.mpr fun name hnamed => ?_
      have hpack := ((hfirst e (mem_encapsulations.mpr ⟨he, hkind⟩)).packed name hnamed).1
      rw [hkind] at hpack
      cases hpack
    · intro e he hkind name hnamed
      obtain ⟨hpack, file, hfile, hfound⟩ :=
        (hsecond e (mem_files.mpr ⟨he, hkind⟩)).packed name hnamed
      exact ⟨hpack, file, (mem_encapsulations.mp hfile).1, hfound⟩
  · intro h
    obtain ⟨hencapsulations, hfiles, hfresh⟩ := hnames.mp h.distinct
    refine ⟨h.sbid, ⟨hencapsulations, fun e he => ?_⟩, hfiles, fun e he => ?_⟩
    · obtain ⟨hmem, hkind⟩ := mem_encapsulations.mp he
      refine ⟨h.children e hmem, nofun, fun name hnamed => ?_⟩
      rw [h.unnested e hmem hkind] at hnamed
      cases hnamed
    · obtain ⟨hmem, hkind⟩ := mem_files.mp he
      refine ⟨h.children e hmem, hfresh e he, fun name hnamed => ?_⟩
      obtain ⟨hpack, file, hfile, hfileKind, hname⟩ := h.packed e hmem hkind name hnamed
      exact ⟨hpack, file, mem_encapsulations.mpr ⟨hfile, hfileKind⟩, hfileKind, hname⟩

/-- What is built has one file for each entry, the encapsulations first. -/
theorem entered_of_build (hok : m.build .standard = .ok o) :
    Entered ⟨m.sbid⟩ (m.encapsulations ++ m.files) o := by
  obtain ⟨_, packed, hpacked, hbuilt⟩ := build_eq_ok_iff.mp hok
  exact ((entered_fresh ⟨m.sbid⟩).addEach m.encapsulations hpacked).addEach m.files hbuilt

end Manifest

namespace Observation

variable {a b : Artefact}

/-- For the number of a file of one observation, that of the file of the same name in another. -/
def renumbering (o o' : Observation) (id : ArtefactId) : ArtefactId :=
  (((o.artefact? id).bind fun a => o'.named? a.filename).map Artefact.id).getD id

theorem renumbering_eq (h : o.WellFormed) (h' : o'.WellFormed) (ha : a ∈ o.artefacts)
    (hb : b ∈ o'.artefacts) (hname : b.filename = a.filename) :
    o.renumbering o' a.id = b.id := by
  have hleft : o.artefact? a.id = some a := (artefact?_eq_some_iff h.files).mpr ⟨ha, rfl⟩
  have hright : o'.named? a.filename = some b := (named?_eq_some_iff h').mpr ⟨hb, hname⟩
  rw [renumbering, hleft, Option.bind_some, hright, Option.map_some, Option.getD_some]

theorem Resolves.map_renumbering (h : o.WellFormed) (h' : o'.WellFormed) {named : Option String}
    {id id' : Option ArtefactId} (hid : o.Resolves named id) (hid' : o'.Resolves named id') :
    id.map (o.renumbering o') = id' := by
  cases hid with
  | unpacked =>
      cases hid'
      rfl
  | packed hfile hname _ =>
      cases hid' with
      | packed hfile' hname' _ =>
          exact congrArg some (renumbering_eq h h' hfile hfile' (hname'.trans hname.symm))

/-- The files that one entry describes are one file up to the numbers. -/
theorem renumber_of_describes (h : o.WellFormed) (h' : o'.WellFormed) (hparent : o'.parent = o.parent)
    (ha : a ∈ o.artefacts) (hb : b ∈ o'.artefacts) (hentry : e.Describes o a)
    (hentry' : e.Describes o' b) : a.renumber (o.renumbering o') = b := by
  have hkind : a.kind = b.kind := hentry.kind.trans hentry'.kind.symm
  have hname : a.filename = b.filename := hentry.filename.trans hentry'.filename.symm
  have hparents : a.parent = b.parent := by rw [hentry.parent, hentry'.parent, hparent]
  have hlifecycle : a.state.lifecycle = b.state.lifecycle :=
    Except.ok.inj (hentry.lifecycle.symm.trans hentry'.lifecycle)
  have hrecord : a.record = b.record := by
    rw [hentry.record, hentry'.record, hlifecycle, Artefact.owner, Artefact.owner, hparents, hname]
  have hid := renumbering_eq h h' ha hb hname.symm
  have hpacking := hentry.packing.map_renumbering h h' hentry'.packing
  rw [Artefact.renumber, hid, hkind, hname, hparents, hpacking, hrecord]

end Observation

theorem exists_of_forall₂ {α β : Type} {R : α → β → Prop} {l : List α} {l' : List β}
    (h : List.Forall₂ R l l') : (∀ x ∈ l, ∃ y ∈ l', R x y) ∧ ∀ y ∈ l', ∃ x ∈ l, R x y := by
  induction h with
  | nil => exact ⟨nofun, nofun⟩
  | cons hfirst _ ih =>
      simp only [List.forall_mem_cons, List.exists_mem_cons_iff]
      exact ⟨⟨Or.inl hfirst, fun x hx => Or.inr (ih.1 x hx)⟩,
        Or.inl hfirst, fun y hy => Or.inr (ih.2 y hy)⟩

namespace Manifest

variable {m m' : Manifest}

/-- Manifests with the same entries build observations that differ in the order of their files. -/
theorem reorders_of_build (hsbid : m'.sbid = m.sbid) (hperm : m'.entries.Perm m.entries)
    (hok : m.build .standard = .ok o) (hok' : m'.build .standard = .ok o') :
    Reorders (o.renumbering o') o o' := by
  have h := entered_of_build hok
  have h' := entered_of_build hok'
  have hwf := h.unstarted.sound.wellFormed
  have hwf' := h'.unstarted.sound.wellFormed
  have hown : o'.withArtefacts [] = o.withArtefacts [] := by rw [h'.own, h.own, hsbid]
  obtain ⟨hsbids, hrecord, hstarted, hcompleted, _⟩ := Observation.mk.inj hown
  have hparent : o'.parent = o.parent := congrArg Parent.observation hsbids
  have hentries {e : ManifestEntry} :
      e ∈ m'.encapsulations ++ m'.files ↔ e ∈ m.encapsulations ++ m.files := by
    have hall (m : Manifest) : (m.encapsulations ++ m.files).Perm m.entries :=
      List.filter_append_perm _ _
    rw [(hall m').mem_iff, (hall m).mem_iff, hperm.mem_iff]
  refine ⟨hsbids, hrecord, hstarted, hcompleted, ?_⟩
  have hdistinct : (o.artefacts.map (Artefact.renumber (o.renumbering o'))).Nodup := by
    refine List.Nodup.of_map Artefact.filename ?_
    rw [List.map_map]
    exact hwf.files.distinct
  refine (List.perm_ext_iff_of_nodup (hwf'.files.distinct.of_map _) hdistinct).mpr fun b => ?_
  rw [List.mem_map]
  constructor
  · intro hb
    obtain ⟨e, he, hentry'⟩ := (exists_of_forall₂ h'.files).2 b hb
    obtain ⟨a, ha, hentry⟩ := (exists_of_forall₂ h.files).1 e (hentries.mp he)
    exact ⟨a, ha, renumber_of_describes hwf hwf' hparent ha hb hentry hentry'⟩
  · rintro ⟨a, ha, rfl⟩
    obtain ⟨e, he, hentry⟩ := (exists_of_forall₂ h.files).2 a ha
    obtain ⟨b, hb, hentry'⟩ := (exists_of_forall₂ h'.files).1 e (hentries.mpr he)
    rwa [renumber_of_describes hwf hwf' hparent ha hb hentry hentry']

/-- Which manifests are built depends only on which entries they have.  What is built is a new
observation with one file for each entry, as the entry describes it, the encapsulations first and
otherwise in the order of the manifest; and manifests with the same entries, in whatever order,
build observations with the same status. -/
theorem build_spec :
    (∀ m : Manifest, (∃ o, m.build .standard = .ok o) ↔ m.Acceptable) ∧
    (∀ m m' : Manifest, m'.sbid = m.sbid → m'.entries.Perm m.entries →
      ((∃ o, m'.build .standard = .ok o) ↔ ∃ o, m.build .standard = .ok o)) ∧
    (∀ (m : Manifest) (o : Observation), m.build .standard = .ok o →
      o.sbid = ⟨m.sbid⟩ ∧ o.stage = .undeposited ∧ o.record.failureCount = 0 ∧
        List.Forall₂ (fun e a => e.Describes o a) (m.encapsulations ++ m.files) o.artefacts) ∧
    ∀ (m m' : Manifest) (o o' : Observation), m'.sbid = m.sbid → m'.entries.Perm m.entries →
      m.build .standard = .ok o → m'.build .standard = .ok o' →
        ObservationStatus.ofObservation o' = ObservationStatus.ofObservation o := by
  refine ⟨fun m => build_iff_acceptable, fun m m' hsbid hperm => ?_, fun m o hok => ?_, ?_⟩
  · rw [build_iff_acceptable, build_iff_acceptable]
    exact ⟨fun h => h.of_perm hsbid.symm hperm.symm, fun h => h.of_perm hsbid hperm⟩
  · have h := entered_of_build hok
    exact ⟨congrArg Observation.sbid h.own, h.unstarted.own,
      congrArg (fun o => o.record.failureCount) h.own, h.files⟩
  · intro m m' o o' hsbid hperm hok hok'
    have hwf := (entered_of_build hok).unstarted.sound.wellFormed
    have hwf' := (entered_of_build hok').unstarted.sound.wellFormed
    exact (reorders_of_build hsbid hperm hok hok').status hwf hwf'

/-- A spectrum that names an encapsulation further down the list, and the same entries backwards. -/
theorem build_spec_forward_reference :
    ∃ (m m' : Manifest) (o o' : Observation), m'.entries.Perm m.entries ∧ m.Acceptable ∧
      m.build .standard = .ok o ∧ m'.build .standard = .ok o' ∧
      o.artefacts.map Artefact.filename = ["e", "s", "m", "i"] ∧
      o'.artefacts.map Artefact.filename = ["e", "i", "m", "s"] ∧
      o.stage = .undeposited ∧
      List.Forall₂ (fun e a => e.Describes o a) (m.encapsulations ++ m.files) o.artefacts ∧
      ObservationStatus.ofObservation o' = ObservationStatus.ofObservation o := by
  let entries : List ManifestEntry :=
    [⟨.spectrum, "s", some "e"⟩, ⟨.observationMetadataFile, "m", none⟩, ⟨.imageCube, "i", none⟩,
      ⟨.encapsulationFile, "e", none⟩]
  let m : Manifest := ⟨7, entries⟩
  let m' : Manifest := ⟨7, entries.reverse⟩
  have hnames : (m.build .standard).toOption.map (fun o => o.artefacts.map Artefact.filename) =
      some ["e", "s", "m", "i"] := by
    decide +kernel
  have hnames' : (m'.build .standard).toOption.map (fun o => o.artefacts.map Artefact.filename) =
      some ["e", "i", "m", "s"] := by
    decide +kernel
  have hperm : m'.entries.Perm m.entries := entries.reverse_perm
  obtain ⟨haccepts, halike, hdescribes, hstatus⟩ := build_spec
  cases hok : m.build .standard with
  | error cause =>
      rw [hok] at hnames
      cases hnames
  | ok o =>
      rw [hok] at hnames
      obtain ⟨o', hok'⟩ := (halike m m' rfl hperm).mpr ⟨o, hok⟩
      rw [hok'] at hnames'
      obtain ⟨_, hstage, _, hfiles⟩ := hdescribes m o hok
      exact ⟨m, m', o, o', hperm, (haccepts m).mp ⟨o, hok⟩, hok, hok', Option.some.inj hnames,
        Option.some.inj hnames', hstage, hfiles, hstatus m m' o o' rfl hperm hok hok'⟩

end Manifest

end ManifestAcceptance

end ArchiveDeposit

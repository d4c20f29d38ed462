import ArchiveDeposit.Proofs.FileNumbers
import ArchiveDeposit.Proofs.StateFiles

/-!
# What a state directory is stocked with

The files in a state directory that are named for observations are those of the observations in a
store in memory, and each holds its observation.  Then these are loaded and listed, and no others.

**Results.**
* `StateDirectory.Stocked.load_eq`, `StateDirectory.Stocked.list_eq`,
  `StateDirectory.Stocked.loadAll_eq`: what is loaded and listed.
* `StateDirectory.list_eq`: what listing a directory gives.
* `ObservationStore.loadEach_of_load`, `Repository.loadAll_eq`: loading all is loading each.
-/

namespace ArchiveDeposit

open FileTree

section StockedDirectory

theorem ObservationStore.loadEach_of_load {Store Fault : Type} [ObservationStore Store Fault]
    {store : Store} {l : List Observation} (h : ∀ o ∈ l, load store o.sbid = .ok (some o)) :
    loadEach store (l.map Observation.sbid) = .ok l := by
  induction l with
  | nil => rfl
  | cons o rest ih =>
      have hrest := ih fun x hx => h x (List.mem_cons_of_mem o hx)
      simp only [List.map_cons, loadEach, h o List.mem_cons_self, hrest]
      rfl

namespace Repository

variable {r : Repository} {o : Observation} {sbid : Sbid}

theorem load_eq_some_iff : r.load sbid = some o ↔ o ∈ r.toList ∧ o.sbid = sbid :=
  Ascending.find?_eq_some_iff

theorem pairwise_list (r : Repository) :
    r.list.Pairwise fun a b => (compare a b).isLE = true :=
  List.pairwise_map.mpr (r.ascending.imp fun hlt => by rw [hlt]; rfl)

theorem nodup_list (r : Repository) : r.list.Nodup :=
  List.pairwise_map.mpr <| r.ascending.imp fun hlt heq => by
    rw [heq, Std.compare_self] at hlt
    cases hlt

/-- The store in memory loads all that it holds. -/
theorem loadAll_eq (r : Repository) : ObservationStore.loadAll r = .ok r.toList :=
  ObservationStore.loadEach_of_load fun _ ho => congrArg Except.ok (load_eq_some_iff.mpr ⟨ho, rfl⟩)

end Repository

namespace StateDirectory

/-- The names in a directory, of which there are none if it is not there. -/
def fileNames (d : StateDirectory) : List String := (d.tree.names d.root).toOption.getD []

/-- The observations that names are listed for, ascending. -/
def listed (d : StateDirectory) : List Sbid :=
  stableSort compare (d.fileNames.filterMap sbidOfName?)

variable {d : StateDirectory}

theorem fileNames_of_look (h : d.tree.look d.root = .ok .directory) :
    d.fileNames = d.tree.namesAt (baseOf d.root) := by
  rw [fileNames, names_eq_ok_iff.mpr ⟨h, rfl⟩, baseOf_of_look h]
  rfl

theorem fileNames_of_not_look (h : d.tree.look d.root ≠ .ok .directory) : d.fileNames = [] := by
  cases hnames : d.tree.names d.root with
  | error fault => simp [fileNames, hnames, Except.toOption]
  | ok names => exact absurd (names_eq_ok_iff.mp hnames).1 h

/-- Listing never fails. -/
theorem list_eq (d : StateDirectory) : d.list = .ok d.listed := by
  by_cases hlook : d.tree.look d.root = .ok .directory
  · rw [list, isDirectory_of_directory hlook, names_eq_ok_iff.mpr ⟨hlook, rfl⟩, listed,
      fileNames_of_look hlook, baseOf_of_look hlook]
    rfl
  · have hdirectory : d.tree.isDirectory d.root = false :=
      Bool.eq_false_iff.mpr fun h => hlook (look_of_isDirectory h)
    rw [list, hdirectory, listed, fileNames_of_not_look hlook]
    rfl

end StateDirectory

namespace Observation

/-- An observation that a program can have made: operations lead to it that have numbers for the
files that they add, its identifier is one that can be asked for, and its times are of the
calendar. -/
structure Genuine (o : Observation) : Prop where
  reachable : o.Reachable HasNumberFor
  sbid : o.sbid.value ≠ 0
  times : o.InCalendar

theorem Genuine.storable {o : Observation} (h : o.Genuine) : o.Storable :=
  ⟨h.reachable.sound.wellFormed.files.hasWords (reachable_hasNumberFor_iff.mp h.reachable).2,
    h.times⟩

end Observation

namespace StateDirectory

variable {d : StateDirectory} {r : Repository} {o : Observation} {name : String} {sbid : Sbid}

/-- A directory in which the observations of a store in memory stand, each in its file, and no other
file is named for an observation. -/
structure Stocked (d : StateDirectory) (r : Repository) : Prop where
  wellFormed : d.tree.WellFormed
  directory : d.tree.look d.root = .ok .directory
  genuine : ∀ o ∈ r.toList, o.Genuine
  file : ∀ o ∈ r.toList, d.tree.node? (d.placeIn (o.sbid.digits ++ observationSuffix)) =
    some (.file o.toJson.pretty)
  filePath : ∀ o ∈ r.toList, d.tree.resolve (d.observationFile o.sbid) =
    .ok (d.placeIn (o.sbid.digits ++ observationSuffix))
  only : ∀ name node sbid, d.tree.node? (d.placeIn name) = some node →
    sbidOfName? name = some sbid → ∃ o ∈ r.toList, name = o.sbid.digits ++ observationSuffix

namespace Stocked

theorem load_eq (h : d.Stocked r) (ho : o ∈ r.toList) : d.load o.sbid = .ok (some o) :=
  load_of_node (h.genuine o ho).storable (h.filePath o ho) (h.file o ho)

/-- A name that is listed is that of the file of an observation in stock. -/
theorem name_eq_of_listed (h : d.Stocked r) (hname : name ∈ d.tree.namesAt (baseOf d.root))
    (hsbid : sbidOfName? name = some sbid) :
    name = sbid.digits ++ observationSuffix ∧ sbid ∈ r.list := by
  obtain ⟨node, hnode⟩ := h.wellFormed.mem_namesAt.mp hname
  obtain ⟨o, ho, rfl⟩ := h.only name node sbid hnode hsbid
  rw [sbidOfName?_observation (h.genuine o ho).sbid] at hsbid
  obtain rfl := Option.some.inj hsbid
  exact ⟨rfl, List.mem_map_of_mem ho⟩

/-- The observations that are listed are those in stock, each once. -/
theorem listed_perm (h : d.Stocked r) :
    ((d.tree.namesAt (baseOf d.root)).filterMap sbidOfName?).Perm r.list := by
  have hnodup : ((d.tree.namesAt (baseOf d.root)).filterMap sbidOfName?).Nodup := by
    refine List.Pairwise.filterMap _ (fun name other hne a ha b hb heq => ?_)
      (List.Pairwise.and_mem.mp (h.wellFormed.nodup_namesAt (baseOf d.root)))
    obtain ⟨hname, hother, hne⟩ := hne
    refine hne ?_
    rw [(h.name_eq_of_listed hname ha).1, (h.name_eq_of_listed hother hb).1, heq]
  refine (List.perm_ext_iff_of_nodup hnodup r.nodup_list).mpr fun sbid => ?_
  rw [List.mem_filterMap]
  refine ⟨fun ⟨name, hname, hsbid⟩ => (h.name_eq_of_listed hname hsbid).2, fun hmem => ?_⟩
  obtain ⟨o, ho, rfl⟩ := List.mem_map.mp hmem
  exact ⟨_, h.wellFormed.mem_namesAt.mpr ⟨.file o.toJson.pretty, h.file o ho⟩,
    sbidOfName?_observation (h.genuine o ho).sbid⟩

theorem list_eq (h : d.Stocked r) : d.list = .ok r.list := by
  rw [StateDirectory.list_eq, listed, fileNames_of_look h.directory]
  refine congrArg Except.ok (((stableSort_perm _ _).trans h.listed_perm).eq_of_pairwise ?_
    (pairwise_stableSort _ _) r.pairwise_list)
  intro a b _ _ hab hba
  exact Std.LawfulEqOrd.eq_of_compare (Std.OrientedCmp.isLE_antisymm hab hba)

/-- All that is in stock is loaded, by ascending identifiers. -/
theorem loadAll_eq (h : d.Stocked r) : ObservationStore.loadAll d = .ok r.toList := by
  have hlist : ObservationStore.list d = .ok r.list := h.list_eq
  rw [ObservationStore.loadAll, hlist]
  exact ObservationStore.loadEach_of_load fun o ho => h.load_eq ho

end Stocked

end StateDirectory

end StockedDirectory

end ArchiveDeposit

import ArchiveDeposit.Proofs.StoreProgress
import Mathlib.Data.List.Perm.Subperm

/-!
# Listing a state directory

Listing goes from names to numbers, and every name counts that spells a number: with zeros or a plus
sign in front of it, or with blanks around it.  Loading goes from numbers to names, and to one name
for each number, that of its digits.  The two are inverse to each other only in a directory where
every name that spells a number is that of its digits.  In others an observation is listed once for
every name that spells its number, and is loaded, found and driven as often; and a number that is
only spelled in other ways is listed though there is no file to load.

**Results.**
* `StateDirectory.contains_iff`: which observations have a file.
* `StateDirectory.count_listed`: how often an observation is listed.
* `StateDirectory.HoldsFiles.listsOnce_iff`: the directories that list what has a file, each once.
* `StateDirectory.HoldsFiles.seesOnce_iff`: the directories that show what is stored, each once.
* `StateDirectory.lists_spellings`: the whole of it.
-/

namespace ArchiveDeposit

open FileTree

section DirectoryListing

/-- An ascending sequence ascends strictly if nothing in it is repeated. -/
theorem Sbid.pairwise_lt_iff {l : List Sbid}
    (h : l.Pairwise fun a b => (compare a b).isLE = true) :
    (l.Pairwise fun a b => compare a b = .lt) ↔ l.Nodup := by
  constructor
  · intro hlt
    refine hlt.imp fun hab heq => ?_
    rw [heq, Std.compare_self] at hab
    cases hab
  · intro hnodup
    refine (h.and hnodup).imp fun {a b} ⟨hle, hne⟩ => ?_
    cases hab : compare a b with
    | lt => rfl
    | eq => exact absurd (Std.LawfulEqOrd.eq_of_compare hab) hne
    | gt =>
        rw [hab] at hle
        cases hle

/-- Observations are loaded one by one. -/
theorem ObservationStore.loadEach_eq {Store Fault : Type} [ObservationStore Store Fault]
    {store : Store} {found : Sbid → Option Observation} {sbids : List Sbid}
    (h : ∀ sbid ∈ sbids, load store sbid = .ok (found sbid)) :
    loadEach store sbids = .ok (sbids.filterMap found) := by
  induction sbids with
  | nil => rfl
  | cons sbid rest ih =>
      have hrest := ih fun s hs => h s (List.mem_cons_of_mem sbid hs)
      simp only [loadEach, h sbid List.mem_cons_self, hrest, List.filterMap_cons]
      cases found sbid <;> rfl

namespace StateDirectory

variable {d : StateDirectory} {sbid : Sbid} {name : String} {o : Observation}

/-- A directory that has a name and holds nothing but files. -/
structure HoldsFiles (d : StateDirectory) : Prop where
  wellFormed : d.tree.WellFormed
  named : d.root.text ≠ ""
  files : ∀ name, d.tree.node? (d.placeIn name) ≠ some .directory

/-- One more file is held, whatever its name. -/
theorem HoldsFiles.put (h : d.HoldsFiles) (hname : IsName name)
    (hdirectory : d.tree.node? (baseOf d.root) = some .directory) (text : String) :
    (d.withTree (d.tree.put (d.placeIn name) (.file text))).HoldsFiles where
  wellFormed := h.wellFormed.put (d.placeIn_ne_nil name)
    (.inl (d.dropLast_placeIn name ▸ hdirectory)) (.inr ⟨concat_ne_root hname _, h.files name⟩)
  named := h.named
  files other hother := by
    have hnode := (node?_put d.tree (d.placeIn_ne_nil name) (.file text) _).symm.trans hother
    split at hnode
    · cases hnode
    · exact h.files other hnode

/-- The name of the file of an observation. -/
def fileName (sbid : Sbid) : String := sbid.digits ++ observationSuffix

/-- The names that an observation is listed for. -/
def namesOf (d : StateDirectory) (sbid : Sbid) : List String :=
  d.fileNames.filter fun name => sbidOfName? name == some sbid

theorem isName_fileName (sbid : Sbid) : IsName (fileName sbid) :=
  isName_of_mem_endings (by decide) sbid

/-- The name of a file is no longer than names may be. -/
theorem utf8ByteSize_fileName_le (sbid : Sbid) : (fileName sbid).utf8ByteSize ≤ maxNameBytes := by
  have hbytes (cs : List Char) : (String.ofList cs).utf8ByteSize ≤ 4 * cs.length := by
    induction cs with
    | nil => exact Nat.zero_le _
    | cons c cs ih =>
        have hc := c.utf8Size_le_four
        rw [← List.singleton_append, String.ofList_append, String.utf8ByteSize_append,
          ← String.singleton_eq_ofList, String.utf8ByteSize_singleton, List.length_append,
          List.length_singleton]
        omega
  have hdigits : sbid.digits.toList.length ≤ 10 := by
    rw [sbid.toList_digits]
    exact Nat.toDigits_length 10 _ 10 (by decide) (sbid.value.toNat_lt.trans (by decide))
  have hsize := hbytes sbid.digits.toList
  have hsuffix : observationSuffix.utf8ByteSize = 5 := by decide
  rw [String.ofList_toList] at hsize
  rw [fileName, String.utf8ByteSize_append, hsuffix, maxNameBytes]
  omega

theorem isFile_iff {path : Path} :
    d.tree.isFile path = true ↔ ∃ node, d.tree.look path = .ok node ∧ node ≠ .directory := by
  unfold isFile
  split
  · next hlook => simp [hlook]
  · next node hkind hlook => simpa [hlook] using hkind
  · next hlook => simp [hlook]

theorem mem_fileNames (h : d.tree.WellFormed) :
    name ∈ d.fileNames ↔
      d.tree.look d.root = .ok .directory ∧ ∃ node, d.tree.node? (d.placeIn name) = some node := by
  by_cases hlook : d.tree.look d.root = .ok .directory
  · rw [fileNames_of_look hlook, h.mem_namesAt, placeIn, and_iff_right hlook]
  · simp [fileNames_of_not_look hlook, hlook]

theorem nodup_fileNames (h : d.tree.WellFormed) : d.fileNames.Nodup := by
  by_cases hlook : d.tree.look d.root = .ok .directory
  · rw [fileNames_of_look hlook]
    exact h.nodup_namesAt _
  · rw [fileNames_of_not_look hlook]
    exact List.nodup_nil

/-- An observation has a file if the name of its digits is there, and its path can be followed. -/
theorem contains_iff (h : d.HoldsFiles) :
    d.contains sbid = true ↔
      fileName sbid ∈ d.fileNames ∧ pathFault? (d.observationFile sbid) = none := by
  have hname := isName_fileName sbid
  rw [contains, isFile_iff, mem_fileNames h.wellFormed]
  constructor
  · rintro ⟨node, hlook, -⟩
    obtain ⟨hresolve, hnode⟩ := look_eq_ok_iff.mp hlook
    refine ⟨⟨look_of_resolve_join h.named hname hresolve, node, ?_⟩,
      (resolve_eq_ok_iff.mp hresolve).2.1⟩
    rwa [observationFile, ← fileName, placeOf_join d.root hname] at hnode
  · rintro ⟨⟨hroot, node, hnode⟩, hfault⟩
    have hresolve := resolve_join_of_look hname hroot (utf8ByteSize_fileName_le sbid) hfault
    refine ⟨node, look_eq_ok_iff.mpr ⟨?_, ?_⟩, ?_⟩
    · rw [observationFile, ← fileName, hresolve, placeOf_join d.root hname, baseOf_of_look hroot]
    · rw [observationFile, ← fileName, placeOf_join d.root hname]
      exact hnode
    · rintro rfl
      exact h.files _ hnode

theorem pairwise_listed (d : StateDirectory) :
    d.listed.Pairwise fun a b => (compare a b).isLE = true :=
  pairwise_stableSort _ _

/-- An observation is listed once for each of its names. -/
theorem count_listed (d : StateDirectory) (sbid : Sbid) :
    d.listed.count sbid = (d.namesOf sbid).length := by
  rw [listed, (stableSort_perm _ _).count_eq, List.count_filterMap, List.countP_eq_length_filter]
  rfl

theorem mem_listed_iff : sbid ∈ d.listed ↔ ∃ name, name ∈ d.namesOf sbid := by
  rw [← List.count_pos_iff, count_listed, List.length_pos_iff_exists_mem]

/-- The names of an observation are those that spell its number. -/
theorem mem_namesOf :
    name ∈ d.namesOf sbid ↔ name ∈ d.fileNames ∧ Spells sbid name ∧ sbid.value ≠ 0 := by
  rw [namesOf, List.mem_filter, beq_iff_eq, sbidOfName?_eq_some_iff]

theorem fileName_mem_namesOf (hsbid : sbid.value ≠ 0) :
    fileName sbid ∈ d.namesOf sbid ↔ fileName sbid ∈ d.fileNames := by
  rw [mem_namesOf, fileName]
  simp [Spells.intro sbid.shows_digits, hsbid]

theorem namesOf_eq_singleton (hmem : fileName sbid ∈ d.namesOf sbid)
    (hlength : (d.namesOf sbid).length ≤ 1) : d.namesOf sbid = [fileName sbid] := by
  have hone : (d.namesOf sbid).length = 1 :=
    Nat.le_antisymm hlength (List.length_pos_of_mem hmem)
  obtain ⟨name, hname⟩ := List.length_eq_one_iff.mp hone
  rw [hname] at hmem ⊢
  rw [List.mem_singleton.mp hmem]

/-- Listing a directory gives a strictly ascending sequence of the observations that have a file. -/
def ListsOnce (d : StateDirectory) : Prop :=
  ∃ sbids, d.list = .ok sbids ∧ (sbids.Pairwise fun a b => compare a b = .lt) ∧
    ∀ sbid : Sbid, sbid.value ≠ 0 → (sbid ∈ sbids ↔ d.contains sbid = true)

/-- An observation with a file is listed. -/
theorem HoldsFiles.fileName_mem (h : d.HoldsFiles) (hsbid : sbid.value ≠ 0)
    (hcontains : d.contains sbid = true) : fileName sbid ∈ d.namesOf sbid :=
  (fileName_mem_namesOf hsbid).mpr ((contains_iff h).mp hcontains).1

/-- A directory lists what has a file, each once, exactly if every name that spells a number is that
of its digits, and its path is not too long. -/
theorem HoldsFiles.listsOnce_iff (h : d.HoldsFiles) :
    d.ListsOnce ↔ ∀ sbid, ∀ name ∈ d.namesOf sbid,
      name = fileName sbid ∧ pathFault? (d.observationFile sbid) = none := by
  constructor
  · rintro ⟨sbids, hlist, hlt, hmem⟩ sbid name hname
    obtain rfl : d.listed = sbids := Except.ok.inj (d.list_eq.symm.trans hlist)
    have hsbid := (mem_namesOf.mp hname).2.2
    have hcontains := (hmem sbid hsbid).mp (mem_listed_iff.mpr ⟨name, hname⟩)
    -- The name of its digits is one of its names, and it is listed once for each of them.
    have hcount := List.nodup_iff_count_le_one.mp
      ((Sbid.pairwise_lt_iff d.pairwise_listed).mp hlt) sbid
    rw [count_listed] at hcount
    rw [namesOf_eq_singleton (h.fileName_mem hsbid hcontains) hcount, List.mem_singleton] at hname
    exact ⟨hname, ((contains_iff h).mp hcontains).2⟩
  · intro hnames
    refine ⟨d.listed, d.list_eq, ?_, fun sbid hsbid => ?_⟩
    · refine (Sbid.pairwise_lt_iff d.pairwise_listed).mpr
        (List.nodup_iff_count_le_one.mpr fun sbid => ?_)
      have honly : d.namesOf sbid ⊆ [fileName sbid] := fun name hname =>
        List.mem_singleton.mpr (hnames sbid name hname).1
      rw [count_listed]
      exact (List.subperm_of_subset ((nodup_fileNames h.wellFormed).filter _) honly).length_le
    · rw [mem_listed_iff]
      refine ⟨fun ⟨name, hname⟩ => ?_, fun hcontains => ⟨_, h.fileName_mem hsbid hcontains⟩⟩
      obtain ⟨rfl, hfault⟩ := hnames sbid name hname
      exact (contains_iff h).mpr ⟨(mem_namesOf.mp hname).1, hfault⟩

/-- An observation that is stored: it has an identifier that can be asked for, and it is loaded. -/
def Stores (d : StateDirectory) (o : Observation) : Prop :=
  o.sbid.value ≠ 0 ∧ d.load o.sbid = .ok (some o)

/-- Whether nothing that is listed fails to load.  A number without a file loads too, as nothing. -/
def ListedLoad (d : StateDirectory) : Prop :=
  ∀ sbids, d.list = .ok sbids → ∀ sbid ∈ sbids, ∃ found, d.load sbid = .ok found

/-- The observation that is loaded, if one is. -/
def stored? (d : StateDirectory) (sbid : Sbid) : Option Observation := (d.load sbid).toOption.join

/-- The observations that are loaded of those that are listed. -/
def loaded (d : StateDirectory) : List Observation := d.listed.filterMap d.stored?

theorem stored?_eq_some_iff : d.stored? sbid = some o ↔ d.load sbid = .ok (some o) := by
  unfold stored?
  cases d.load sbid with
  | error e => exact iff_of_false nofun nofun
  | ok found => exact ⟨fun h => congrArg Except.ok h, fun h => Except.ok.inj h⟩

theorem sbid_of_load (h : d.load sbid = .ok (some o)) : o.sbid = sbid := by
  unfold load at h
  split at h
  · cases h
  · cases h
  · split at h
    · next heq =>
        obtain rfl := Option.some.inj (Except.ok.inj h)
        exact heq
    · cases h

/-- What is loaded has a file. -/
theorem contains_of_load (h : d.load sbid = .ok (some o)) : d.contains sbid = true := by
  rw [contains, isFile_iff]
  unfold load readValue at h
  cases hlook : d.tree.look (d.observationFile sbid) with
  | error fault => simp [exists?, hlook, Except.toOption] at h
  | ok node =>
      refine ⟨node, rfl, ?_⟩
      rintro rfl
      simp [exists?, FileTree.read, hlook, Except.toOption] at h

theorem Stores.fileName_mem (ho : d.Stores o) (h : d.HoldsFiles) :
    fileName o.sbid ∈ d.namesOf o.sbid :=
  h.fileName_mem ho.1 (contains_of_load ho.2)

theorem loadAll_eq (h : d.ListedLoad) : ObservationStore.loadAll d = .ok d.loaded := by
  have hlist : ObservationStore.list d = .ok d.listed := d.list_eq
  rw [ObservationStore.loadAll, hlist]
  refine ObservationStore.loadEach_eq fun sbid hsbid => ?_
  obtain ⟨found, hfound⟩ := h _ d.list_eq sbid hsbid
  have hload : ObservationStore.load d sbid = .ok found := hfound
  rw [hload, stored?, hfound]
  rfl

theorem mem_loaded_iff (h : d.HoldsFiles) : o ∈ d.loaded ↔ d.Stores o := by
  rw [loaded, List.mem_filterMap]
  constructor
  · rintro ⟨sbid, hsbid, hstored⟩
    have hload := stored?_eq_some_iff.mp hstored
    obtain rfl := sbid_of_load hload
    obtain ⟨name, hname⟩ := mem_listed_iff.mp hsbid
    exact ⟨(mem_namesOf.mp hname).2.2, hload⟩
  · intro ho
    exact ⟨o.sbid, mem_listed_iff.mpr ⟨_, ho.fileName_mem h⟩, stored?_eq_some_iff.mpr ho.2⟩

/-- An observation is loaded once for each of its names. -/
theorem count_loaded (ho : d.Stores o) : d.loaded.count o = (d.namesOf o.sbid).length := by
  rw [loaded, List.count_filterMap, ← count_listed, List.count]
  refine List.countP_congr fun sbid _ => ?_
  rw [beq_iff_eq, beq_iff_eq, stored?_eq_some_iff]
  exact ⟨fun hload => (sbid_of_load hload).symm, fun heq => heq ▸ ho.2⟩

theorem pairwise_loaded (d : StateDirectory) :
    (d.loaded.map Observation.sbid).Pairwise fun a b => (compare a b).isLE = true := by
  refine List.pairwise_map.mpr (d.pairwise_listed.filterMap _ ?_)
  intro a b hle x hx y hy
  rwa [sbid_of_load (stored?_eq_some_iff.mp hx), sbid_of_load (stored?_eq_some_iff.mp hy)]

/-- Whether a list shows the stored observations that pass a test, each once and by ascending
identifiers. -/
def ShowsOnce (d : StateDirectory) (test : Observation → Bool) (shown : List Observation) : Prop :=
  (shown.Pairwise fun a b => compare a.sbid b.sbid = .lt) ∧
    ∀ o, o ∈ shown ↔ d.Stores o ∧ test o = true

theorem ShowsOnce.filter {shown : List Observation} (h : d.ShowsOnce (fun _ => true) shown)
    (test : Observation → Bool) : d.ShowsOnce test (shown.filter test) := by
  refine ⟨h.1.filter test, fun o => ?_⟩
  rw [List.mem_filter, h.2 o, and_iff_left rfl]

/-- Loading all, looking for stages and progress of all come to each stored observation once:
progress drives those that are not settled, and logs the others. -/
structure SeesOnce (d : StateDirectory) : Prop where
  loaded : ∃ all, ObservationStore.loadAll d = .ok all ∧ d.ShowsOnce (fun _ => true) all
  found : ∀ stages, ∃ found, ObservationStore.findByStages d stages = .ok found ∧
    d.ShowsOnce (fun o => stages.contains o.stage) found
  driven : ∀ c once, ∃ pending settled, d.ShowsOnce (fun o => !Command.isSettled o) pending ∧
    d.ShowsOnce Command.isSettled settled ∧
    Command.runProgress d c none once =
      (if pending = [] then .done d ["No observations to progress."]
        else Command.driveEach c (Command.tickLimit c once) d
          (pending.map Observation.sbid)).behind
        (d.skippedEntries ++ settled.map LogEntry.settled)

theorem SeesOnce.of_loaded {all : List Observation} (hall : ObservationStore.loadAll d = .ok all)
    (h : d.ShowsOnce (fun _ => true) all) : d.SeesOnce where
  loaded := ⟨all, hall, h⟩
  found stages := by
    refine ⟨_, ?_, h.filter fun o => stages.contains o.stage⟩
    rw [ObservationStore.findByStages, hall]
    rfl
  driven c once := ⟨_, _, h.filter fun o => !Command.isSettled o, h.filter Command.isSettled,
    Command.runProgress_of_loadAll hall c once⟩

/-- A directory in which everything loads shows what is stored, each once, exactly if the number of
nothing that is stored is spelled in other ways than by its digits. -/
theorem HoldsFiles.seesOnce_iff (h : d.HoldsFiles) (hload : d.ListedLoad) :
    d.SeesOnce ↔ ∀ o, d.Stores o → d.namesOf o.sbid = [fileName o.sbid] := by
  have hall := loadAll_eq hload
  constructor
  · intro hsees o ho
    obtain ⟨all, hloaded, hlt, -⟩ := hsees.loaded
    obtain rfl : d.loaded = all := Except.ok.inj (hall.symm.trans hloaded)
    have hnodup : d.loaded.Nodup := hlt.imp fun hab heq => by
      rw [heq, Std.compare_self] at hab
      cases hab
    have hcount := List.nodup_iff_count_le_one.mp hnodup o
    rw [count_loaded ho] at hcount
    exact namesOf_eq_singleton (ho.fileName_mem h) hcount
  · intro hnames
    refine .of_loaded hall ⟨?_, fun o => by rw [mem_loaded_iff h, and_iff_left rfl]⟩
    have hnodup : d.loaded.Nodup := List.nodup_iff_count_le_one.mpr fun o => by
      by_cases ho : d.Stores o
      · rw [count_loaded ho, hnames o ho, List.length_singleton]
      · rw [List.count_eq_zero.mpr fun hmem => ho ((mem_loaded_iff h).mp hmem)]
        exact Nat.zero_le 1
    -- What is loaded under one number is one observation, so that no number is repeated either.
    have hinj : ∀ a ∈ d.loaded, ∀ b ∈ d.loaded, a.sbid = b.sbid → a = b := by
      intro a ha b hb heq
      have hsame := ((mem_loaded_iff h).mp ha).2
      rw [heq, ((mem_loaded_iff h).mp hb).2] at hsame
      exact (Option.some.inj (Except.ok.inj hsame)).symm
    exact List.pairwise_map.mp
      ((Sbid.pairwise_lt_iff d.pairwise_loaded).mpr (hnodup.map_on hinj))

/-- What listing a directory comes to.  It never fails, and lists the observations by ascending
identifiers, each once for every name that spells its number, those with a file among them.  So a
directory lists what has a file, each once, exactly if no name spells a number but that of its
digits, whose path is not too long; and then, where all that is listed loads, each stored
observation is seen once. -/
structure ListsSpellings (d : StateDirectory) : Prop where
  listed : ∃ sbids, d.list = .ok sbids ∧
    (sbids.Pairwise fun a b => (compare a b).isLE = true) ∧
    ∀ sbid, sbids.count sbid = (d.namesOf sbid).length
  spelled : ∀ sbid name, name ∈ d.namesOf sbid ↔
    name ∈ d.fileNames ∧ Spells sbid name ∧ sbid.value ≠ 0
  kept : ∀ sbid : Sbid, sbid.value ≠ 0 → d.contains sbid = true → fileName sbid ∈ d.namesOf sbid
  once : d.ListsOnce ↔ ∀ sbid, ∀ name ∈ d.namesOf sbid,
    name = fileName sbid ∧ pathFault? (d.observationFile sbid) = none
  loaded : d.ListedLoad → ∃ all, ObservationStore.loadAll d = .ok all ∧ (∀ o ∈ all, d.Stores o) ∧
    ∀ o, d.Stores o → all.count o = (d.namesOf o.sbid).length
  seen : d.ListedLoad →
    (d.SeesOnce ↔ ∀ o, d.Stores o → d.namesOf o.sbid = [fileName o.sbid])
  seenIfListed : d.ListsOnce → d.ListedLoad → d.SeesOnce

/-- A directory lists an observation once for every name that spells its number. -/
theorem lists_spellings (h : d.HoldsFiles) : d.ListsSpellings where
  listed := ⟨d.listed, d.list_eq, d.pairwise_listed, d.count_listed⟩
  spelled _ _ := mem_namesOf
  kept _ := h.fileName_mem
  once := h.listsOnce_iff
  loaded hload := ⟨d.loaded, loadAll_eq hload, fun _ => (mem_loaded_iff h).mp,
    fun _ => count_loaded⟩
  seen := h.seesOnce_iff
  seenIfListed := by
    rintro ⟨sbids, hlist, hlt, -⟩ hload
    obtain rfl : d.listed = sbids := Except.ok.inj (d.list_eq.symm.trans hlist)
    refine (h.seesOnce_iff hload).mpr fun o ho => namesOf_eq_singleton (ho.fileName_mem h) ?_
    rw [← count_listed]
    exact List.nodup_iff_count_le_one.mp ((Sbid.pairwise_lt_iff d.pairwise_listed).mp hlt) _

/-- The number 12 spelled in two ways, one of them that of the file, and 7 spelled in a way that is
not that of its file. -/
theorem lists_spellings_two_forms :
    ∃ (d : StateDirectory) (o : Observation), d.HoldsFiles ∧
      d.list = .ok [⟨7⟩, ⟨12⟩, ⟨12⟩] ∧ d.contains ⟨7⟩ = false ∧ d.contains ⟨12⟩ = true ∧
        d.Stores o ∧ d.ListedLoad ∧ ¬d.ListsOnce ∧ ¬d.SeesOnce ∧
          ∃ all, ObservationStore.loadAll d = .ok all ∧ all.count o = 2 := by
  let o := Observation.fresh ⟨12⟩
  have hgenuine : o.Genuine := ⟨.new rfl, by decide, by decide⟩
  let bare : StateDirectory := ⟨FileTree.put Ascending.empty ["state"] .directory, ⟨"state"⟩⟩
  let put (d : StateDirectory) (name text : String) : StateDirectory :=
    d.withTree (d.tree.put (d.placeIn name) (.file text))
  let d := put (put (put bare "12.json" o.toJson.pretty) " +12.json" "") "007.json" ""
  have hbase : baseOf bare.root = ["state"] := by decide +kernel
  have hbare : bare.HoldsFiles := by
    refine ⟨wellFormed_empty.put (by decide) (.inl rfl) (.inl rfl), by decide, fun name hnode => ?_⟩
    rw [node?_put _ (by decide)] at hnode
    split at hnode
    · next heq => exact absurd (hbase.trans heq.symm) (bare.baseOf_ne_placeIn name)
    · rw [node?_of_ne_nil _ (placeIn_ne_nil _ name)] at hnode
      cases hnode
  have h : d.HoldsFiles :=
    ((hbare.put ⟨by decide, by decide, by decide, by decide⟩ (by decide +kernel) _).put
      ⟨by decide, by decide, by decide, by decide⟩ (by decide +kernel) _).put
        ⟨by decide, by decide, by decide, by decide⟩ (by decide +kernel) _
  have hlist : d.list = .ok [⟨7⟩, ⟨12⟩, ⟨12⟩] := by decide +kernel
  have hnames : d.namesOf ⟨12⟩ = [" +12.json", "12.json"] := by decide +kernel
  have hload : d.load o.sbid = .ok (some o) :=
    load_of_node hgenuine.storable (by decide +kernel) (by decide +kernel)
  have hnone : d.load ⟨7⟩ = .ok none := load_of_none (by decide +kernel)
  have hstores : d.Stores o := ⟨by decide, hload⟩
  have hlisted : d.ListedLoad := by
    intro sbids hsbids sbid hsbid
    obtain rfl := Except.ok.inj (hlist.symm.trans hsbids)
    have hcases : sbid = ⟨7⟩ ∨ sbid = ⟨12⟩ := by simpa using hsbid
    rcases hcases with rfl | rfl
    · exact ⟨none, hnone⟩
    · exact ⟨some o, hload⟩
  have hspellings := lists_spellings h
  obtain ⟨all, hall, -, hcount⟩ := hspellings.loaded hlisted
  refine ⟨d, o, h, hlist, by decide +kernel, by decide +kernel, hstores, hlisted, fun honce => ?_,
    fun hsees => ?_, all, hall, ?_⟩
  · have hname := (hspellings.once.mp honce ⟨12⟩ " +12.json" (by rw [hnames]; decide)).1
    exact absurd hname (by decide +kernel)
  · have hname := (hspellings.seen hlisted).mp hsees o hstores
    exact absurd (hnames.symm.trans hname) (by decide +kernel)
  · rw [hcount o hstores]
    exact congrArg List.length hnames

end StateDirectory

end DirectoryListing

end ArchiveDeposit

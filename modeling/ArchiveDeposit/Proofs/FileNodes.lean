import ArchiveDeposit.FileTree.Basic
import Mathlib.Data.List.Induction

/-!
# What stands in a tree of files

A tree is known by what stands at its places.  It is well-formed if it is one that a file system can
have: whatever stands in it stands in a directory, so that nothing is below a file.  The root need
not be among the entries of a tree of which only relative paths are used.

**Results.**
* `FileTree.node?_put`, `FileTree.node?_remove`: a change at one place changes nothing elsewhere.
* `FileTree.WellFormed.eq_of_node?`: trees in which the same stands everywhere are equal.
* `FileTree.WellFormed.move_of_file`: moving a file takes it from one place and puts it at another.
* `FileTree.WellFormed.mem_namesAt`, `FileTree.WellFormed.nodup_namesAt`: what listing a directory
  gives.
-/

namespace ArchiveDeposit

section FileNodes

instance : Std.LawfulEqOrd PlaceKey where
  eq_of_compare {s t} h := by
    obtain ⟨hdepth, hplace⟩ := compareLex_eq_eq.mp h
    have hsame : s.depth = t.depth ∧ s.place = t.place :=
      ⟨Std.LawfulEqOrd.eq_of_compare hdepth, Std.LawfulEqOrd.eq_of_compare hplace⟩
    cases s
    cases t
    simp_all

theorem PlaceKey.ofPlace_inj {place other : Place} :
    PlaceKey.ofPlace place = .ofPlace other ↔ place = other :=
  ⟨congrArg PlaceKey.place, congrArg PlaceKey.ofPlace⟩

namespace FileTree

variable {t u : FileTree} {place other source target : Place} {node : FileNode}

/-- The tree without what stands at a place. -/
def remove (t : FileTree) (place : Place) : FileTree := t.erase (.ofPlace place)

theorem node?_of_ne_nil (t : FileTree) (hne : place ≠ []) :
    t.node? place = (t.find? (.ofPlace place)).map FileEntry.node :=
  if_neg (by simpa using hne)

theorem node?_put (t : FileTree) (hne : place ≠ []) (node : FileNode) (other : Place) :
    (t.put place node).node? other = if other = place then some node else t.node? other := by
  by_cases hnil : other = []
  · rw [hnil, if_neg fun h => hne h.symm]
    rfl
  · rw [node?_of_ne_nil _ hnil, node?_of_ne_nil _ hnil, put, Ascending.find?_insert]
    simp only [Std.compare_eq_iff_eq, PlaceKey.ofPlace_inj, eq_comm (a := place)]
    split <;> rfl

theorem node?_remove (t : FileTree) (hne : place ≠ []) (other : Place) :
    (t.remove place).node? other = if other = place then none else t.node? other := by
  by_cases hnil : other = []
  · rw [hnil, if_neg fun h => hne h.symm]
    rfl
  · rw [node?_of_ne_nil _ hnil, node?_of_ne_nil _ hnil, remove, Ascending.find?_erase]
    simp only [Std.compare_eq_iff_eq, PlaceKey.ofPlace_inj, eq_comm (a := place)]
    split <;> rfl

/-- Whether something may stand in the directory at a place: it is there, or it is the root and not
an entry of its own. -/
def HasRoom (t : FileTree) (place : Place) : Prop :=
  t.node? place = some .directory ∨ place = [rootName] ∧ t.node? place = none

/-- A tree that a file system can have. -/
structure WellFormed (t : FileTree) : Prop where
  root : t.HasRoom [rootName]
  keyed : ∀ e ∈ t.toList, e.key = .ofPlace e.place ∧ e.place ≠ []
  below : ∀ place node, place ≠ [] → t.node? place = some node → t.HasRoom place.dropLast

/-- A tree in which nothing stands is well-formed. -/
theorem wellFormed_empty : WellFormed Ascending.empty where
  root := .inr ⟨rfl, rfl⟩
  keyed _ he := nomatch he
  below place node hne hnode := by
    rw [node?_of_ne_nil _ hne] at hnode
    cases hnode

namespace WellFormed

/-- The entries of a tree are what stands at their places. -/
theorem mem_toList (h : t.WellFormed) {e : FileEntry} :
    e ∈ t.toList ↔ e.key = .ofPlace e.place ∧ e.place ≠ [] ∧ t.node? e.place = some e.node := by
  refine ⟨fun he => ?_, fun ⟨hkey, hne, hnode⟩ => ?_⟩
  · obtain ⟨hkey, hne⟩ := h.keyed e he
    refine ⟨hkey, hne, ?_⟩
    rw [node?_of_ne_nil t hne, ← hkey, Ascending.find?_eq_some_iff.mpr ⟨he, rfl⟩, Option.map_some]
  · rw [node?_of_ne_nil t hne, ← hkey] at hnode
    obtain ⟨found, hfound, hsame⟩ := Option.map_eq_some_iff.mp hnode
    obtain ⟨hmem, hfoundKey⟩ := Ascending.find?_eq_some_iff.mp hfound
    have heq : found = e :=
      show FileEntry.mk found.key found.node = ⟨e.key, e.node⟩ by rw [hfoundKey, hsame]
    exact heq ▸ hmem

/-- Trees in which the same stands everywhere are equal. -/
theorem eq_of_node? (h : t.WellFormed) (hu : u.WellFormed)
    (hsame : ∀ place, t.node? place = u.node? place) : t = u := by
  refine Ascending.ext_of_find? fun k => Option.ext fun e => ?_
  rw [Ascending.find?_eq_some_iff, Ascending.find?_eq_some_iff, h.mem_toList, hu.mem_toList, hsame]

/-- Nothing stands below a file. -/
theorem node?_below_file (h : t.WellFormed) {file : FileNode} (hfile : t.node? target = some file)
    (hkind : file ≠ .directory) {more : Place} (hmore : more ≠ []) :
    t.node? (target ++ more) = none := by
  have htarget : target ≠ [] := by
    rintro rfl
    exact hkind (Option.some.inj hfile).symm
  induction more using List.reverseRecOn with
  | nil => exact absurd rfl hmore
  | append_singleton more name ih =>
      refine Option.eq_none_iff_forall_ne_some.mpr fun node hnode => ?_
      have hroom := h.below _ node (by simp) hnode
      rw [← List.append_assoc, List.dropLast_concat] at hroom
      by_cases hlast : more = []
      · rw [hlast, List.append_nil, HasRoom, hfile] at hroom
        rcases hroom with hdirectory | ⟨_, hnone⟩
        · exact hkind (Option.some.inj hdirectory)
        · cases hnone
      · rcases hroom with hdirectory | ⟨hroot, _⟩
        · rw [ih hlast] at hdirectory
          cases hdirectory
        · rcases List.append_eq_singleton_iff.mp hroot with ⟨hnil, _⟩ | ⟨_, hnil⟩
          · exact htarget hnil
          · exact hlast hnil

theorem put (h : t.WellFormed) (hne : place ≠ []) (hroom : t.HasRoom place.dropLast)
    (hfit : node = .directory ∨ place ≠ [rootName] ∧ t.node? place ≠ some .directory) :
    (t.put place node).WellFormed where
  root := by
    unfold HasRoom
    rw [node?_put t hne]
    split
    · next hsame =>
        rcases hfit with hdirectory | ⟨hroot, _⟩
        · exact .inl (congrArg some hdirectory)
        · exact absurd hsame.symm hroot
    · exact h.root
  keyed e he := by
    rcases Ascending.mem_of_mem_place he with rfl | hold
    · exact ⟨rfl, hne⟩
    · exact h.keyed e hold
  below other held hother hheld := by
    have hparent : place.dropLast ≠ place := fun heq => by
      have hlength := congrArg List.length heq
      have hpos := List.length_pos_iff.mpr hne
      rw [List.length_dropLast] at hlength
      omega
    unfold HasRoom
    rw [node?_put t hne] at hheld ⊢
    by_cases hsame : other = place
    · rw [hsame, if_neg hparent]
      exact hroom
    · rw [if_neg hsame] at hheld
      have hold := h.below other held hother hheld
      by_cases hinside : other.dropLast = place
      · rw [hinside] at hold ⊢
        rcases hfit with hdirectory | ⟨hroot, hfile⟩
        · exact .inl ((if_pos rfl).trans (congrArg some hdirectory))
        · exact absurd (hold.resolve_left hfile).1 hroot
      · rw [if_neg hinside]
        exact hold

theorem remove (h : t.WellFormed) (hne : place ≠ []) (hfile : t.node? place ≠ some .directory) :
    (t.remove place).WellFormed where
  root := by
    unfold HasRoom
    rw [node?_remove t hne]
    split
    · exact .inr ⟨rfl, rfl⟩
    · exact h.root
  keyed e he := h.keyed e (List.mem_filter.mp he).1
  below other held hother hheld := by
    unfold HasRoom
    rw [node?_remove t hne] at hheld ⊢
    by_cases hsame : other = place
    · rw [if_pos hsame] at hheld
      cases hheld
    · rw [if_neg hsame] at hheld
      have hold := h.below other held hother hheld
      by_cases hinside : other.dropLast = place
      · rw [hinside] at hold ⊢
        exact .inr ⟨(hold.resolve_left hfile).1, if_pos rfl⟩
      · rw [if_neg hinside]
        exact hold

/-- Moving a file takes it from one place and puts it at another. -/
theorem move_of_file (h : t.WellFormed) (hne : source ≠ []) (hnode : t.node? source = some node)
    (hkind : node ≠ .directory) (target : Place) :
    t.move source target = (t.remove source).put target node := by
  let entry : FileEntry := ⟨.ofPlace source, node⟩
  have hentry : entry ∈ t.toList := h.mem_toList.mpr ⟨rfl, hne, hnode⟩
  have honly (e : FileEntry) :
      e ∈ t.toList.filter (fun e => isBelow e.place source) ↔ e = entry := by
    rw [List.mem_filter]
    refine ⟨fun ⟨he, hbelow⟩ => ?_, fun heq => ?_⟩
    · obtain ⟨hkey, _, hheld⟩ := h.mem_toList.mp he
      obtain ⟨more, hmore⟩ := List.isPrefixOf_iff_prefix.mp hbelow
      have hplace : e.place = source := by
        by_contra hother
        have hnil : more ≠ [] := by
          rintro rfl
          exact hother (hmore.symm.trans (List.append_nil source))
        rw [← hmore, h.node?_below_file hnode hkind hnil] at hheld
        cases hheld
      exact Ascending.eq_of_key he hentry (by rw [hkey, hplace])
    · rw [heq]
      exact ⟨hentry, List.isPrefixOf_iff_prefix.mpr (List.prefix_refl source)⟩
  have hmoved : t.toList.filter (fun e => isBelow e.place source) = [entry] :=
    List.perm_singleton.mp <| (List.perm_ext_iff_of_nodup (t.nodup_toList.filter _)
      (List.pairwise_singleton _ entry)).mpr fun e => (honly e).trans List.mem_singleton.symm
  simp only [move, hmoved, List.foldl_cons, List.foldl_nil]
  show (t.remove source).put (target ++ source.drop source.length) node = _
  rw [List.drop_length, List.append_nil]

/-- An entry is listed in a directory by the name that its place adds to that of the directory. -/
theorem name_eq_some_iff {held : Place} {name : String} :
    (match held.getLast? with
      | some name => if held.dropLast = place then some name else none
      | none => none) = some name ↔ held = place ++ [name] := by
  rcases List.eq_nil_or_concat held with rfl | ⟨above, last, rfl⟩
  · simp
  · simp

/-- What listing a directory gives is what stands in it. -/
theorem mem_namesAt (h : t.WellFormed) {name : String} :
    name ∈ t.namesAt place ↔ ∃ node, t.node? (place ++ [name]) = some node := by
  refine List.mem_filterMap.trans ⟨fun ⟨e, he, hname⟩ => ?_, fun ⟨node, hnode⟩ => ?_⟩
  · exact ⟨e.node, name_eq_some_iff.mp hname ▸ (h.mem_toList.mp he).2.2⟩
  · exact ⟨⟨.ofPlace (place ++ [name]), node⟩,
      h.mem_toList.mpr ⟨rfl, List.concat_ne_nil name place, hnode⟩, name_eq_some_iff.mpr rfl⟩

/-- Every name is listed once. -/
theorem nodup_namesAt (h : t.WellFormed) (place : Place) : (t.namesAt place).Nodup := by
  have hplaces : t.toList.Pairwise fun e e' => e.place ≠ e'.place :=
    t.nodup_toList.imp_of_mem fun he he' hne hplace => hne <| Ascending.eq_of_key he he' <| by
      rw [(h.keyed _ he).1, (h.keyed _ he').1, hplace]
  refine List.Pairwise.filterMap _ (fun e e' hne name hname name' hname' heq => hne ?_) hplaces
  rw [name_eq_some_iff.mp hname, name_eq_some_iff.mp hname', heq]

end WellFormed

end FileTree

end FileNodes

end ArchiveDeposit

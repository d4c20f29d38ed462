import ArchiveDeposit.Proofs.FileNodes

/-!
# Where paths lead

A path that can be followed leads to a place that its text alone decides; the tree decides only
whether it can be followed, and more directories never stop it.  The path of a name in a directory
leads to that name in the place of the directory, however the path of the directory is written.

Making directories adds directories and nothing else.

**Results.**
* `FileTree.eq_placeOf_of_resolve`, `FileTree.resolve_of_keeps`: what a path leads to.
* `FileTree.placeOf_join`, `FileTree.resolve_join_of_look`: the path of a name in a directory.
* `FileTree.makeDirectories_spec`: directories are made, and nothing else.
* `FileTree.makeDirectories_of_look`: a directory that is there is not made again.
-/

namespace ArchiveDeposit

section FilePaths

/-- Whether a text is a part of a path that goes one step down. -/
structure IsName (name : String) : Prop where
  slash : '/' ∉ name.toList
  ne_empty : name ≠ ""
  ne_dot : name ≠ "."
  ne_dots : name ≠ ".."

namespace Path

theorem toList_ne_nil {root : Path} (hroot : root.text ≠ "") : root.text.toList ≠ [] :=
  fun h => hroot (String.toList_eq_nil_iff.mp h)

/-- The path of a name in a directory goes on where the path of the directory ends. -/
theorem toList_join {root : Path} (hroot : root.text ≠ "") (name : String) :
    ∃ front, (root.join name).text.toList = front ++ '/' :: name.toList ∧
      (root.text.toList = front ∧ front ≠ [] ∨ root.text.toList = front ++ ['/']) := by
  have hempty : root.text.isEmpty = false := by
    simpa using hroot
  unfold join
  rw [hempty, Bool.false_or]
  split
  · next hslash =>
      obtain ⟨front, hfront⟩ := List.getLast?_eq_some_iff.mp (eq_of_beq hslash)
      refine ⟨front, ?_, .inr hfront⟩
      rw [String.toList_append, hfront, List.append_assoc, List.singleton_append]
  · refine ⟨root.text.toList, ?_, .inl ⟨rfl, toList_ne_nil hroot⟩⟩
    simp only [String.toList_append]
    rw [List.append_assoc]
    rfl

/-- What stands between the path of a directory and a name does not depend on the name. -/
theorem exists_text_join (root : Path) :
    ∃ separator, ∀ name, (root.join name).text = root.text ++ separator ++ name := by
  by_cases hplain : (root.text.isEmpty || root.text.toList.getLast? == some '/') = true
  · exact ⟨"", fun name => by rw [join, if_pos hplain, String.append_empty]⟩
  · exact ⟨"/", fun name => by rw [join, if_neg hplain]⟩

/-- Its parts are those of the directory, without the empty one behind a last slash, and the
name. -/
theorem parts_join {root : Path} (hroot : root.text ≠ "") {name : String}
    (hname : '/' ∉ name.toList) :
    ∃ front ≠ [], (root.join name).parts = front ++ [name] ∧
      (root.parts = front ∨ root.parts = front ++ [""]) := by
  obtain ⟨front, hjoin, hfront⟩ := toList_join hroot name
  refine ⟨(split front).map String.ofList, by simpa using split_ne_nil front, ?_, ?_⟩
  · rw [parts, hjoin, split_append_slash, split_eq_singleton hname, List.map_append,
      List.map_singleton, String.ofList_toList]
  · rcases hfront with ⟨hsame, _⟩ | hslash
    · exact .inl (congrArg (fun cs => (split cs).map String.ofList) hsame)
    · refine .inr ?_
      rw [parts, hslash, split_append_slash, List.map_append]
      rfl

/-- A name that is joined to no text is a path of one part. -/
theorem join_of_empty {root : Path} (hroot : root.text = "") (name : String) :
    root.join name = ⟨name⟩ := by
  rw [join, hroot]
  exact congrArg Path.mk String.empty_append

theorem parts_name {name : String} (hname : '/' ∉ name.toList) : parts ⟨name⟩ = [name] := by
  rw [parts, split_eq_singleton hname, List.map_singleton, String.ofList_toList]

/-- The last part of the path of a name is the name. -/
theorem exists_parts_join (root : Path) {name : String} (hname : '/' ∉ name.toList) :
    ∃ front, (root.join name).parts = front ++ [name] := by
  by_cases hroot : root.text = ""
  · exact ⟨[], by rw [join_of_empty hroot, parts_name hname, List.nil_append]⟩
  · obtain ⟨front, _, hparts, _⟩ := parts_join hroot hname
    exact ⟨front, hparts⟩

/-- The path of a name ends in the name. -/
theorem trimEnd_join (root : Path) {name : String} (hname : IsName name) :
    (root.join name).trimEnd = root.join name := by
  obtain ⟨separator, htext⟩ := exists_text_join root
  obtain ⟨init, last, hlast⟩ := (List.eq_nil_or_concat name.toList).resolve_left fun h =>
    hname.ne_empty (String.toList_eq_nil_iff.mp h)
  rw [List.concat_eq_append] at hlast
  have hslash : last ≠ '/' := fun h => hname.slash (by rw [hlast, h]; simp)
  have hreverse : (root.join name).text.toList.reverse.dropWhile (· == '/') =
      (root.join name).text.toList.reverse := by
    rw [htext, String.toList_append, hlast]
    simp [hslash]
  rw [trimEnd, hreverse, List.reverse_reverse, String.ofList_toList]

theorem endsInDots_join (root : Path) {name : String} (hname : IsName name) :
    (root.join name).endsInDots = false := by
  obtain ⟨front, hparts⟩ := exists_parts_join root hname.slash
  rw [endsInDots, trimEnd_join root hname, hparts, List.getLast?_concat]
  simp [hname.ne_dot, hname.ne_dots]

end Path

namespace FileTree

variable {t u : FileTree} {place goal : Place} {path root : Path} {parts : List String}
  {name : String}

/-- Where parts begin, and the parts after that. -/
def startOf (parts : List String) : Place × List String :=
  match parts with
  | "" :: rest => ([rootName], rest)
  | parts => ([], parts)

theorem start_eq (path : Path) : start path = startOf path.parts := rfl

theorem startOf_append {front : List String} (hne : front ≠ []) (more : List String) :
    startOf (front ++ more) = ((startOf front).1, (startOf front).2 ++ more) := by
  obtain ⟨part, rest, rfl⟩ := List.exists_cons_of_ne_nil hne
  by_cases hpart : part = ""
  · subst hpart
    rfl
  · simp [startOf, hpart]

/-- The place that a path leads to, if it can be followed. -/
def placeOf (path : Path) : Place := (start path).2.foldl enter (start path).1

/-- One part is followed from a directory. -/
theorem follow_cons_iff {part : String} {rest : List String} :
    t.follow place (part :: rest) = .ok goal ↔
      t.node? place = some .directory ∧ part.utf8ByteSize ≤ maxNameBytes ∧
        t.follow (enter place part) rest = .ok goal := by
  rw [follow]
  split
  · next hnode => simp [hnode]
  · next hnode =>
      split
      · next hlong => simp [hnode, Nat.not_le_of_lt hlong]
      · next hshort => simp [hnode, Nat.le_of_not_lt hshort]
  · next hother hnode =>
      have hfile : t.node? place ≠ some .directory := fun hdirectory =>
        hother (Option.some.inj (hnode.symm.trans hdirectory))
      simp [hfile]

theorem follow_append_iff {front back : List String} :
    t.follow place (front ++ back) = .ok goal ↔
      ∃ middle, t.follow place front = .ok middle ∧ t.follow middle back = .ok goal := by
  induction front generalizing place with
  | nil => exact ⟨fun h => ⟨place, rfl, h⟩, fun ⟨middle, hmiddle, h⟩ => Except.ok.inj hmiddle ▸ h⟩
  | cons part rest ih =>
      rw [List.cons_append, follow_cons_iff, ih]
      simp only [follow_cons_iff, and_assoc, exists_and_left]

/-- Whether directories stay where they are. -/
def KeepsDirectories (t u : FileTree) : Prop :=
  ∀ place, t.node? place = some .directory → u.node? place = some .directory

theorem follow_eq_foldl (h : t.follow place parts = .ok goal) : goal = parts.foldl enter place := by
  induction parts generalizing place with
  | nil => exact (Except.ok.inj h).symm
  | cons part rest ih => exact ih (follow_cons_iff.mp h).2.2

/-- More directories never stop a path. -/
theorem follow_of_keeps (hkeeps : t.KeepsDirectories u) (h : t.follow place parts = .ok goal) :
    u.follow place parts = .ok goal := by
  induction parts generalizing place with
  | nil => exact h
  | cons part rest ih =>
      obtain ⟨hnode, hshort, hrest⟩ := follow_cons_iff.mp h
      exact follow_cons_iff.mpr ⟨hkeeps place hnode, hshort, ih hrest⟩

/-- What it takes to resolve a path. -/
theorem resolve_eq_ok_iff :
    t.resolve path = .ok goal ↔ path.text ≠ "" ∧ pathFault? path = none ∧
      t.follow (start path).1 (start path).2 = .ok goal := by
  by_cases hempty : path.text = ""
  · simp [resolve, hempty]
  · cases hfault : pathFault? path with
    | none => simp [resolve, hempty, hfault]
    | some fault => simp [resolve, hempty, hfault]

/-- A path leads to the place that its text says. -/
theorem eq_placeOf_of_resolve (h : t.resolve path = .ok goal) : goal = placeOf path :=
  follow_eq_foldl (resolve_eq_ok_iff.mp h).2.2

theorem resolve_of_keeps (hkeeps : t.KeepsDirectories u) (h : t.resolve path = .ok goal) :
    u.resolve path = .ok goal := by
  obtain ⟨hempty, hfault, hfollow⟩ := resolve_eq_ok_iff.mp h
  exact resolve_eq_ok_iff.mpr ⟨hempty, hfault, follow_of_keeps hkeeps hfollow⟩

theorem look_eq_ok_iff {node : FileNode} :
    t.look path = .ok node ↔
      t.resolve path = .ok (placeOf path) ∧ t.node? (placeOf path) = some node := by
  unfold look
  cases hresolve : t.resolve path with
  | error fault => simp [bind, Except.bind]
  | ok goal =>
      rw [← eq_placeOf_of_resolve hresolve]
      cases hnode : t.node? goal <;> simp [bind, Except.bind, hnode]

theorem isDirectory_of_directory (h : t.look path = .ok .directory) :
    t.isDirectory path = true := by
  rw [isDirectory, h]

theorem look_of_isDirectory (h : t.isDirectory path = true) : t.look path = .ok .directory := by
  unfold isDirectory at h
  split at h
  · next hlook => exact hlook
  · cases h

/-- The names in a directory are listed if its path leads to it. -/
theorem names_eq_ok_iff {l : List String} :
    t.names path = .ok l ↔ t.look path = .ok .directory ∧ t.namesAt (placeOf path) = l := by
  unfold names
  cases hresolve : t.resolve path with
  | error fault => simp [bind, Except.bind, look, hresolve]
  | ok place =>
      rw [look_eq_ok_iff, hresolve, ← eq_placeOf_of_resolve hresolve]
      cases hnode : t.node? place with
      | none => simp [bind, Except.bind, hnode]
      | some node => cases node <;> simp [bind, Except.bind, hnode]

theorem look_of_keeps (hkeeps : t.KeepsDirectories u) (h : t.look path = .ok .directory) :
    u.look path = .ok .directory := by
  obtain ⟨hresolve, hnode⟩ := look_eq_ok_iff.mp h
  exact look_eq_ok_iff.mpr ⟨resolve_of_keeps hkeeps hresolve, hkeeps _ hnode⟩

theorem enter_name (hname : IsName name) (place : Place) : enter place name = place ++ [name] := by
  unfold enter
  rw [if_neg (not_or.mpr ⟨hname.ne_empty, hname.ne_dot⟩), if_neg hname.ne_dots]

theorem enter_empty (place : Place) : enter place "" = place := if_pos (.inl rfl)

/-- The path of a name in a directory follows the path of the directory. -/
theorem start_join (hroot : root.text ≠ "") (hname : '/' ∉ name.toList) :
    ∃ place front, start (root.join name) = (place, front ++ [name]) ∧
      (start root = (place, front) ∨ start root = (place, front ++ [""])) := by
  obtain ⟨front, hne, hjoin, hdirectory⟩ := Path.parts_join hroot hname
  refine ⟨(startOf front).1, (startOf front).2, ?_, ?_⟩
  · rw [start_eq, hjoin, startOf_append hne]
  · rcases hdirectory with hsame | hslash
    · exact .inl (by rw [start_eq, hsame])
    · exact .inr (by rw [start_eq, hslash, startOf_append hne])

/-- The place of the directory that names are joined to.  To a path without a text they are joined
where relative paths begin, though such a path itself leads nowhere. -/
def baseOf (root : Path) : Place := if root.text = "" then [] else placeOf root

theorem baseOf_of_ne (hroot : root.text ≠ "") : baseOf root = placeOf root := if_neg hroot

theorem baseOf_of_look {node : FileNode} (h : t.look root = .ok node) :
    baseOf root = placeOf root :=
  baseOf_of_ne (resolve_eq_ok_iff.mp (look_eq_ok_iff.mp h).1).1

theorem placeOf_join (root : Path) (hname : IsName name) :
    placeOf (root.join name) = baseOf root ++ [name] := by
  by_cases hroot : root.text = ""
  · have hstart : start ⟨name⟩ = ([], [name]) := by
      rw [start_eq, Path.parts_name hname.slash]
      simp [startOf, hname.ne_empty]
    rw [Path.join_of_empty hroot, baseOf, if_pos hroot, placeOf, hstart]
    exact enter_name hname []
  rw [baseOf_of_ne hroot]
  obtain ⟨place, front, hjoin, hdirectory⟩ := start_join hroot hname.slash
  have hplace : placeOf root = front.foldl enter place := by
    rcases hdirectory with hsame | hslash
    · rw [placeOf, hsame]
    · rw [placeOf, hslash, List.foldl_append, List.foldl_cons, List.foldl_nil, enter_empty]
  rw [placeOf, hjoin, List.foldl_append, List.foldl_cons, List.foldl_nil, enter_name hname, hplace]

theorem pathFault?_eq_none_iff :
    pathFault? path = none ↔
      '\x00' ∉ path.text.toList ∧ path.text.utf8ByteSize < pathBytesLimit := by
  unfold pathFault?
  by_cases hnul : '\x00' ∈ path.text.toList
  · simp [hnul]
  · by_cases hlong : pathBytesLimit ≤ path.text.utf8ByteSize
    · simp [hnul, hlong, Nat.not_lt_of_le hlong]
    · simp [hnul, hlong, Nat.lt_of_not_le hlong]

/-- The path of a name has all characters of the path of the directory. -/
theorem pathFault?_of_join (h : pathFault? (root.join name) = none) : pathFault? root = none := by
  obtain ⟨separator, htext⟩ := Path.exists_text_join root
  obtain ⟨hnul, hshort⟩ := pathFault?_eq_none_iff.mp h
  rw [htext, String.toList_append, String.toList_append, List.mem_append, List.mem_append] at hnul
  rw [htext, String.utf8ByteSize_append, String.utf8ByteSize_append] at hshort
  exact pathFault?_eq_none_iff.mpr ⟨fun hmem => hnul (.inl (.inl hmem)), by omega⟩

/-- The path of a name that is not longer is not too long either. -/
theorem pathFault?_join_of_le {other : String} (h : pathFault? (root.join name) = none)
    (hother : '\x00' ∉ other.toList) (hle : other.utf8ByteSize ≤ name.utf8ByteSize) :
    pathFault? (root.join other) = none := by
  obtain ⟨separator, htext⟩ := Path.exists_text_join root
  obtain ⟨hnul, hshort⟩ := pathFault?_eq_none_iff.mp h
  rw [htext, String.toList_append, List.mem_append] at hnul
  rw [htext, String.utf8ByteSize_append] at hshort
  refine pathFault?_eq_none_iff.mpr ⟨?_, ?_⟩
  · rw [htext, String.toList_append, List.mem_append]
    exact not_or.mpr ⟨fun hmem => hnul (.inl hmem), hother⟩
  · rw [htext, String.utf8ByteSize_append]
    omega

/-- The path of a name leads into a directory, to which the path of the directory leads. -/
theorem look_of_resolve_join (hroot : root.text ≠ "") (hname : IsName name)
    (h : t.resolve (root.join name) = .ok goal) : t.look root = .ok .directory := by
  obtain ⟨_, hfault, hfollow⟩ := resolve_eq_ok_iff.mp h
  obtain ⟨place, front, hjoin, hdirectory⟩ := start_join hroot hname.slash
  rw [hjoin] at hfollow
  obtain ⟨middle, hfront, hlast⟩ := follow_append_iff.mp hfollow
  have hnode := (follow_cons_iff.mp hlast).1
  have hresolve : t.resolve root = .ok middle := by
    refine resolve_eq_ok_iff.mpr ⟨hroot, pathFault?_of_join hfault, ?_⟩
    rcases hdirectory with hsame | hslash
    · rw [hsame]
      exact hfront
    · rw [hslash]
      exact follow_append_iff.mpr ⟨middle, hfront,
        follow_cons_iff.mpr ⟨hnode, Nat.zero_le _, congrArg Except.ok (enter_empty middle)⟩⟩
  rw [eq_placeOf_of_resolve hresolve] at hnode hresolve
  exact look_eq_ok_iff.mpr ⟨hresolve, hnode⟩

/-- Names are joined to a directory that is there, if their paths lead anywhere. -/
theorem node?_base_of_resolve (hname : IsName name) (h : t.resolve (root.join name) = .ok goal) :
    t.node? (baseOf root) = some .directory := by
  by_cases hroot : root.text = ""
  · rw [baseOf, if_pos hroot]
    rfl
  · rw [baseOf_of_ne hroot]
    exact (look_eq_ok_iff.mp (look_of_resolve_join hroot hname h)).2

/-- A name in a directory that is there can be resolved, if it and the whole path are short. -/
theorem resolve_join_of_look (hname : IsName name) (hlook : t.look root = .ok .directory)
    (hshort : name.utf8ByteSize ≤ maxNameBytes) (hfault : pathFault? (root.join name) = none) :
    t.resolve (root.join name) = .ok (placeOf root ++ [name]) := by
  obtain ⟨hresolve, hnode⟩ := look_eq_ok_iff.mp hlook
  obtain ⟨hroot, _, hfollow⟩ := resolve_eq_ok_iff.mp hresolve
  obtain ⟨place, front, hjoin, hdirectory⟩ := start_join hroot hname.slash
  have hfront : t.follow place front = .ok (placeOf root) := by
    rcases hdirectory with hsame | hslash
    · rwa [hsame] at hfollow
    · rw [hslash] at hfollow
      obtain ⟨middle, hfront, hlast⟩ := follow_append_iff.mp hfollow
      have hmiddle : enter middle "" = placeOf root :=
        Except.ok.inj (follow_cons_iff.mp hlast).2.2
      rwa [← hmiddle, enter_empty]
  have hne : (root.join name).text ≠ "" := by
    obtain ⟨chars, htext, _⟩ := Path.toList_join hroot name
    intro hempty
    rw [hempty] at htext
    simp at htext
  refine resolve_eq_ok_iff.mpr ⟨hne, hfault, ?_⟩
  rw [hjoin]
  exact follow_append_iff.mpr ⟨_, hfront,
    follow_cons_iff.mpr ⟨hnode, hshort, congrArg Except.ok (enter_name hname _)⟩⟩

/-- A shorter name can be resolved where a longer one can. -/
theorem resolve_join_of_le {other : String} (hroot : root.text ≠ "") (hname : IsName name)
    (hother : IsName other) (h : t.resolve (root.join name) = .ok goal)
    (hnul : '\x00' ∉ other.toList) (hle : other.utf8ByteSize ≤ name.utf8ByteSize) :
    t.resolve (root.join other) = .ok (placeOf root ++ [other]) := by
  obtain ⟨_, hfault, hfollow⟩ := resolve_eq_ok_iff.mp h
  obtain ⟨place, front, hjoin, _⟩ := start_join hroot hname.slash
  rw [hjoin] at hfollow
  obtain ⟨_, _, hlast⟩ := follow_append_iff.mp hfollow
  exact resolve_join_of_look hother (look_of_resolve_join hroot hname h)
    (Nat.le_trans hle (follow_cons_iff.mp hlast).2.1) (pathFault?_join_of_le hfault hnul hle)

/-- Whether a tree has more directories than another, and nothing else that is different. -/
def AddsDirectories (t u : FileTree) : Prop :=
  ∀ place, u.node? place = t.node? place ∨
    t.node? place = none ∧ u.node? place = some .directory

namespace AddsDirectories

theorem refl (t : FileTree) : t.AddsDirectories t := fun _ => .inl rfl

theorem node? (h : t.AddsDirectories u) {node : FileNode} (hnode : t.node? place = some node) :
    u.node? place = some node := by
  rcases h place with hsame | ⟨hnone, _⟩
  · rw [hsame, hnode]
  · rw [hnone] at hnode
    cases hnode

theorem trans {v : FileTree} (h : t.AddsDirectories u) (k : u.AddsDirectories v) :
    t.AddsDirectories v := by
  intro place
  rcases h place with hsame | ⟨hnone, hmade⟩
  · rw [← hsame]
    exact k place
  · exact .inr ⟨hnone, k.node? hmade⟩

theorem put (hne : place ≠ []) (hnone : t.node? place = none) :
    t.AddsDirectories (t.put place .directory) := by
  intro other
  rw [node?_put t hne]
  split
  · next hsame => exact .inr ⟨hsame ▸ hnone, rfl⟩
  · exact .inl rfl

end AddsDirectories

/-- Only the root has room without being there, and it stands in no directory. -/
theorem HasRoom.dropLast (h : t.HasRoom place) (hnone : t.node? place = none) :
    t.HasRoom place.dropLast := by
  rcases h with hdirectory | ⟨rfl, _⟩
  · rw [hnone] at hdirectory
    cases hdirectory
  · exact .inl rfl

/-- Where a path goes on from a place that has room to one that is not there, there is room for
it. -/
theorem WellFormed.hasRoom_enter (h : t.WellFormed) (hroom : t.HasRoom place) (part : String)
    (hnone : t.node? (enter place part) = none) : t.HasRoom (enter place part).dropLast := by
  unfold enter at hnone ⊢
  split
  · next hstay =>
      rw [if_pos hstay] at hnone
      exact hroom.dropLast hnone
  split
  · next hstay hup =>
      rw [if_neg hstay, if_pos hup] at hnone
      unfold parentOf at hnone ⊢
      split
      · exact .inl rfl
      · rw [List.dropLast_concat]
        exact hroom
      · next name hlast =>
          simp only [hlast] at hnone
          split
          · next hroot =>
              rw [if_pos hroot] at hnone
              exact hroom.dropLast hnone
          · next hroot =>
              rw [if_neg hroot] at hnone
              have hne : place ≠ [] := by
                rintro rfl
                cases hlast
              rcases hroom with hdirectory | ⟨rfl, _⟩
              · exact (h.below place _ hne hdirectory).dropLast hnone
              · exact absurd (Option.some.inj hlast).symm hroot
  · rw [List.dropLast_concat]
    exact hroom

theorem makeFrom_spec (h : t.WellFormed) (hroom : t.HasRoom place) (made : Bool) :
    (t.makeFrom made place parts).1.WellFormed ∧
      t.AddsDirectories (t.makeFrom made place parts).1 := by
  induction parts generalizing t made place with
  | nil => exact ⟨h, .refl t⟩
  | cons part rest ih =>
      simp only [makeFrom]
      split
      · exact ⟨h, .refl t⟩
      · split
        · next hnode => exact ih h (.inl hnode) made
        · exact ⟨h, .refl t⟩
        · next hnone =>
            split
            · exact ⟨h, .refl t⟩
            · have hne : enter place part ≠ [] := by
                intro hnil
                rw [hnil] at hnone
                cases hnone
              have hmade : (t.put (enter place part) .directory).WellFormed :=
                h.put hne (h.hasRoom_enter hroom part hnone) (.inl rfl)
              have hthere : (t.put (enter place part) .directory).node? (enter place part) =
                  some .directory := (node?_put t hne _ _).trans (if_pos rfl)
              obtain ⟨hwell, hadds⟩ := ih hmade (.inl hthere) true
              exact ⟨hwell, (AddsDirectories.put hne hnone).trans hadds⟩

theorem makeDirectories_spec (h : t.WellFormed) (path : Path) :
    (t.makeDirectories path).1.WellFormed ∧ t.AddsDirectories (t.makeDirectories path).1 := by
  have hroom : t.HasRoom (start path).1 := by
    rw [start_eq]
    unfold startOf
    split
    · exact h.root
    · exact .inl rfl
  unfold makeDirectories
  split
  · exact ⟨h, .refl t⟩
  · split
    · exact ⟨h, .refl t⟩
    · exact makeFrom_spec h hroom false

/-- Directories that are there are not made again. -/
theorem makeFrom_of_follow (h : t.follow place parts = .ok goal)
    (hgoal : t.node? goal = some .directory) (made : Bool) :
    t.makeFrom made place parts = (t, .ok ()) := by
  induction parts generalizing place with
  | nil => rfl
  | cons part rest ih =>
      obtain ⟨_, hshort, hrest⟩ := follow_cons_iff.mp h
      have hnext : t.node? (enter place part) = some .directory := by
        cases rest with
        | nil => rw [Except.ok.inj hrest, hgoal]
        | cons _ _ => exact (follow_cons_iff.mp hrest).1
      rw [makeFrom, if_neg (Nat.not_lt_of_le hshort)]
      simp only [hnext]
      exact ih hrest

theorem makeDirectories_of_look (h : t.look path = .ok .directory) :
    t.makeDirectories path = (t, .ok ()) := by
  obtain ⟨hresolve, hnode⟩ := look_eq_ok_iff.mp h
  obtain ⟨hne, hfault, hfollow⟩ := resolve_eq_ok_iff.mp hresolve
  have hempty : path.text.isEmpty = false := by
    simpa using hne
  rw [makeDirectories, hempty]
  simp only [hfault, Bool.false_eq_true, if_false]
  exact makeFrom_of_follow hfollow hnode false

end FileTree

end FilePaths

end ArchiveDeposit

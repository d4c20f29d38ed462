import ArchiveDeposit.Proofs.FilePaths
import ArchiveDeposit.StateDirectory

/-!
# Replacing a file

A state directory replaces a file by writing a draft and renaming it.  Where that succeeds the file
has the new text, the draft is gone, and nothing else has changed but that the directory itself may
have been made; and it succeeds wherever the directory is there and neither name is that of a
directory in it.

**Results.**
* `StateDirectory.replaceFile_eq`: a file is replaced wherever it can be.
* `StateDirectory.exists_of_replaceFile`: what a replacement that succeeded has done.
* `StateDirectory.node?_replaced`, `StateDirectory.Ready.wellFormed`: what stands in the directory
  after it.
-/

namespace ArchiveDeposit

section FileReplacement

namespace FileTree

variable {t : FileTree} {root : Path} {draft place other : Place} {name : String}

/-- The tree in which a file has a text and its draft is gone. -/
def replaced (t : FileTree) (draft place : Place) (text : String) : FileTree :=
  (t.remove draft).put place (.file text)

theorem node?_replaced (t : FileTree) (hdraft : draft ≠ []) (hplace : place ≠ []) (text : String)
    (other : Place) :
    (t.replaced draft place text).node? other =
      if other = place then some (.file text) else if other = draft then none
        else t.node? other := by
  rw [replaced, node?_put _ hplace, node?_remove _ hdraft]

/-- A name in a directory is not the root. -/
theorem concat_ne_root (hname : IsName name) (above : Place) : above ++ [name] ≠ [rootName] := by
  intro heq
  have hroot : name = rootName := by
    simpa using congrArg List.getLast? heq
  exact hname.slash (by rw [hroot]; decide)

theorem WellFormed.replaced (h : t.WellFormed) {above : Place} {draft name : String}
    (hname : IsName name) (habove : t.node? above = some .directory)
    (hdraft : t.node? (above ++ [draft]) ≠ some .directory)
    (hplace : t.node? (above ++ [name]) ≠ some .directory) (text : String) :
    (t.replaced (above ++ [draft]) (above ++ [name]) text).WellFormed := by
  have hdraftNe : above ++ [draft] ≠ [] := List.concat_ne_nil draft above
  refine (h.remove hdraftNe hdraft).put (List.concat_ne_nil name above) (.inl ?_)
    (.inr ⟨concat_ne_root hname above, ?_⟩)
  · rw [List.dropLast_concat, node?_remove t hdraftNe, if_neg (by simp), habove]
  · rw [node?_remove t hdraftNe]
    split
    · exact nofun
    · exact hplace

/-- Writing to a name in a directory that is there. -/
theorem write_eq {path : Path} {text : String} (hresolve : t.resolve path = .ok place)
    (habove : t.node? place.dropLast = some .directory)
    (hplace : t.node? place ≠ some .directory) :
    t.write path text = .ok (t.put place (.file text)) := by
  simp only [write, hresolve, bind, Except.bind]
  cases hnode : t.node? place with
  | none => simp only [habove]
  | some node =>
      cases node with
      | directory => exact absurd hnode hplace
      | file _ | binary => rfl

/-- What can be written to is no directory. -/
theorem exists_of_write {u : FileTree} {path : Path} {text : String}
    (h : t.write path text = .ok u) :
    ∃ place, t.resolve path = .ok place ∧ t.node? place ≠ some .directory := by
  cases hresolve : t.resolve path with
  | error fault =>
      simp only [write, hresolve, bind, Except.bind] at h
      cases h
  | ok place =>
      refine ⟨place, rfl, fun hnode => ?_⟩
      simp only [write, hresolve, bind, Except.bind, hnode] at h
      cases h

/-- A file takes the place of another, or a place that was free. -/
theorem WellFormed.renameAt_eq (h : t.WellFormed) {source target : Place} {node : FileNode}
    (hsource : t.node? source = some node) (hkind : node ≠ .directory)
    (habove : t.node? target.dropLast = some .directory) (hbelow : isBelow target source = false)
    (htarget : t.node? target ≠ some .directory) :
    t.renameAt source target = .ok ((t.remove source).put target node) := by
  have hne : source ≠ [] := by
    rintro rfl
    exact hkind (Option.some.inj hsource).symm
  rw [← h.move_of_file hne hsource hkind target]
  cases node with
  | directory => exact absurd rfl hkind
  | file _ | binary =>
      cases hnode : t.node? target with
      | none => simp [renameAt, hsource, hnode, hbelow, habove]
      | some there =>
          cases there with
          | directory => exact absurd hnode htarget
          | file _ | binary => simp only [renameAt, hsource, hnode]

/-- No directory takes the place of a file, nor the other way round. -/
theorem node?_of_renameAt {u : FileTree} {source target : Place} {node : FileNode}
    (hsource : t.node? source = some node) (hkind : node ≠ .directory)
    (h : t.renameAt source target = .ok u) : t.node? target ≠ some .directory := by
  intro hnode
  cases node with
  | directory => exact hkind rfl
  | file _ | binary =>
      simp only [renameAt, hsource, hnode] at h
      cases h

theorem isDirectory_of_file {path : Path} {node : FileNode} (hlook : t.look path = .ok node)
    (hkind : node ≠ .directory) : t.isDirectory path = false := by
  rw [isDirectory, hlook]
  cases node with
  | directory => exact absurd rfl hkind
  | file _ | binary => rfl

/-- What is renamed and what it becomes are places that the paths lead to. -/
theorem exists_of_rename {u : FileTree} {source target : Path}
    (hfile : t.isDirectory source = false) (h : t.rename source target = .ok u) :
    ∃ place goal, t.resolve source = .ok place ∧ t.resolve target = .ok goal ∧
      t.renameAt place goal = .ok u := by
  cases hsource : t.resolve source with
  | error fault =>
      simp only [rename, hsource, bind, Except.bind] at h
      cases h
  | ok place =>
      simp only [rename, hsource, hfile, bind, Except.bind, Bool.false_eq_true, if_false] at h
      cases htarget : t.resolve target with
      | error fault =>
          simp only [htarget] at h
          cases h
      | ok goal =>
          simp only [htarget] at h
          split at h
          · cases h
          · exact ⟨place, goal, rfl, rfl, h⟩

/-- Renaming a file within a directory. -/
theorem rename_join {draft name : String} {node : FileNode} (hdraft : IsName draft)
    (hname : IsName name) (hsource : t.resolve (root.join draft) = .ok (baseOf root ++ [draft]))
    (hnode : t.node? (baseOf root ++ [draft]) = some node) (hkind : node ≠ .directory)
    (htarget : t.resolve (root.join name) = .ok place) :
    t.rename (root.join draft) (root.join name) =
      t.renameAt (baseOf root ++ [draft]) place := by
  have hlook : t.look (root.join draft) = .ok node :=
    look_eq_ok_iff.mpr (by rw [placeOf_join root hdraft]; exact ⟨hsource, hnode⟩)
  have hfile := isDirectory_of_file hlook hkind
  simp only [rename, hsource, hfile, htarget, Path.endsInDots_join root hdraft,
    Path.endsInDots_join root hname, bind, Except.bind, Bool.false_eq_true, if_false,
    Bool.or_self]

end FileTree

namespace StateDirectory

open FileTree

variable {d d' : StateDirectory} {draft name text : String} {made : FileTree}

/-- The place of a name in a state directory. -/
def placeIn (d : StateDirectory) (name : String) : Place := baseOf d.root ++ [name]

/-- The directory in which a file has a text and its draft is gone. -/
def replaced (d : StateDirectory) (draft name text : String) : StateDirectory :=
  d.withTree (d.tree.replaced (d.placeIn draft) (d.placeIn name) text)

theorem placeIn_ne_nil (d : StateDirectory) (name : String) : d.placeIn name ≠ [] :=
  List.concat_ne_nil _ _

theorem dropLast_placeIn (d : StateDirectory) (name : String) :
    (d.placeIn name).dropLast = baseOf d.root := List.dropLast_concat

theorem placeIn_inj {d : StateDirectory} {name other : String} :
    d.placeIn name = d.placeIn other ↔ name = other := by
  simp [placeIn]

theorem baseOf_ne_placeIn (d : StateDirectory) (name : String) : baseOf d.root ≠ d.placeIn name :=
  fun heq => by simpa [placeIn] using congrArg List.length heq

/-- Files of one directory are not below one another. -/
theorem isBelow_placeIn (d : StateDirectory) (hne : draft ≠ name) :
    isBelow (d.placeIn name) (d.placeIn draft) = false := by
  refine Bool.eq_false_iff.mpr fun hbelow => hne ?_
  have hsame := (List.isPrefixOf_iff_prefix.mp hbelow).eq_of_length (by simp [placeIn])
  exact placeIn_inj.mp hsame

/-- What it takes to replace a file: its directory is there, the paths are not too long, and neither
name is that of a directory. -/
structure Ready (d : StateDirectory) (draft name : String) : Prop where
  directory : d.tree.node? (baseOf d.root) = some .directory
  draftPath : d.tree.resolve (d.root.join draft) = .ok (d.placeIn draft)
  filePath : d.tree.resolve (d.root.join name) = .ok (d.placeIn name)
  draft_ne : d.tree.node? (d.placeIn draft) ≠ some .directory
  file_ne : d.tree.node? (d.placeIn name) ≠ some .directory

/-- The directory with a draft in it. -/
def drafted (d : StateDirectory) (draft text : String) : FileTree :=
  d.tree.put (d.placeIn draft) (.file text)

theorem node?_drafted (d : StateDirectory) (draft text : String) (place : Place) :
    (d.drafted draft text).node? place =
      if place = d.placeIn draft then some (.file text) else d.tree.node? place :=
  node?_put _ (d.placeIn_ne_nil draft) _ _

namespace Ready

variable (h : d.Ready draft name)
include h

theorem wellFormed_drafted (hwell : d.tree.WellFormed) (hdraft : IsName draft) (text : String) :
    (d.drafted draft text).WellFormed :=
  hwell.put (d.placeIn_ne_nil draft) (.inl (d.dropLast_placeIn draft ▸ h.directory))
    (.inr ⟨concat_ne_root hdraft _, h.draft_ne⟩)

theorem keeps_drafted (text : String) : d.tree.KeepsDirectories (d.drafted draft text) := by
  intro place hplace
  have hother : place ≠ d.placeIn draft := by
    rintro rfl
    exact h.draft_ne hplace
  rw [node?_drafted, if_neg hother]
  exact hplace

/-- What is renamed into the place of a file is the draft that was written before. -/
theorem rename_drafted (hdraft : IsName draft) (hname : IsName name) (text : String) :
    (d.drafted draft text).rename (d.root.join draft) (d.root.join name) =
      (d.drafted draft text).renameAt (d.placeIn draft) (d.placeIn name) := by
  have hkeeps := h.keeps_drafted text
  exact rename_join hdraft hname (resolve_of_keeps hkeeps h.draftPath)
    ((d.node?_drafted draft text _).trans (if_pos rfl)) nofun
    (resolve_of_keeps hkeeps h.filePath)

theorem renameAt_drafted (hwell : d.tree.WellFormed) (hne : draft ≠ name) (hdraft : IsName draft)
    (text : String) :
    (d.drafted draft text).renameAt (d.placeIn draft) (d.placeIn name) =
      .ok (d.replaced draft name text).tree := by
  have hwrote := h.wellFormed_drafted hwell hdraft text
  have hdirectory : (d.drafted draft text).node? (d.placeIn name).dropLast = some .directory := by
    rw [dropLast_placeIn, node?_drafted, if_neg (d.baseOf_ne_placeIn draft), h.directory]
  have hfree : (d.drafted draft text).node? (d.placeIn name) ≠ some .directory := by
    rw [node?_drafted, if_neg fun heq => hne (placeIn_inj.mp heq).symm]
    exact h.file_ne
  have hremove : (d.drafted draft text).remove (d.placeIn draft) =
      d.tree.remove (d.placeIn draft) := by
    refine (hwrote.remove (d.placeIn_ne_nil draft) (by simp [node?_drafted])).eq_of_node?
      (hwell.remove (d.placeIn_ne_nil draft) h.draft_ne) fun place => ?_
    rw [node?_remove _ (d.placeIn_ne_nil draft), node?_remove _ (d.placeIn_ne_nil draft),
      node?_drafted]
    split <;> rfl
  rw [hwrote.renameAt_eq ((d.node?_drafted draft text _).trans (if_pos rfl)) nofun hdirectory
    (d.isBelow_placeIn hne) hfree, hremove]
  rfl

end Ready

/-- A file is replaced where it can be, in a directory that is made if it is not there. -/
theorem replaceFile_eq (hmade : d.tree.makeDirectories d.root = (made, .ok ()))
    (hwell : made.WellFormed) (h : (d.withTree made).Ready draft name) (hne : draft ≠ name)
    (hdraft : IsName draft) (hname : IsName name) :
    d.replaceFile (d.root.join draft) (d.root.join name) text =
      ((d.withTree made).replaced draft name text, .ok ()) := by
  have hwrite : made.write (d.root.join draft) text = .ok ((d.withTree made).drafted draft text) :=
    write_eq h.draftPath ((d.withTree made).dropLast_placeIn draft ▸ h.directory) h.draft_ne
  have hrename := h.rename_drafted hdraft hname text
  rw [h.renameAt_drafted hwell hne hdraft] at hrename
  have hpath : (d.withTree made).root = d.root := rfl
  rw [hpath] at hrename
  simp only [replaceFile, hmade, hwrite, hrename]
  rfl

/-- Where a draft was written and renamed, a file could be replaced. -/
theorem ready_of_rename (hne : draft ≠ name) (hdraft : IsName draft)
    (hname : IsName name) {wrote tree : FileTree}
    (hwrite : d.tree.write (d.root.join draft) text = .ok wrote)
    (hrename : wrote.rename (d.root.join draft) (d.root.join name) = .ok tree) :
    d.Ready draft name := by
  have hplace {t : FileTree} {goal : Place} {name : String} (hname : IsName name)
      (hresolve : t.resolve (d.root.join name) = .ok goal) : goal = d.placeIn name :=
    (eq_placeOf_of_resolve hresolve).trans (placeOf_join d.root hname)
  obtain ⟨place, hsource, hdraftNode⟩ := exists_of_write hwrite
  have hdirectory := node?_base_of_resolve hdraft hsource
  obtain rfl := hplace hdraft hsource
  have habove : d.tree.node? (d.placeIn draft).dropLast = some .directory := by
    rw [dropLast_placeIn]
    exact hdirectory
  obtain rfl : wrote = d.drafted draft text :=
    Except.ok.inj (hwrite.symm.trans (write_eq hsource habove hdraftNode))
  have hdrafted := d.node?_drafted draft text
  -- The draft makes no directory and covers none, so both trees resolve the same paths.
  have hkeeps : (d.drafted draft text).KeepsDirectories d.tree := by
    intro place hdirectory
    rw [hdrafted] at hdirectory
    split at hdirectory
    · cases hdirectory
    · exact hdirectory
  have hkept : d.tree.KeepsDirectories (d.drafted draft text) := by
    intro place hdirectory
    have hother : place ≠ d.placeIn draft := by
      rintro rfl
      exact hdraftNode hdirectory
    rw [hdrafted, if_neg hother]
    exact hdirectory
  have hnode := (hdrafted (d.placeIn draft)).trans (if_pos rfl)
  have hfile : (d.drafted draft text).isDirectory (d.root.join draft) = false := by
    refine isDirectory_of_file (look_eq_ok_iff.mpr ?_) (nofun : FileNode.file text ≠ .directory)
    rw [placeOf_join d.root hdraft]
    exact ⟨resolve_of_keeps hkept hsource, hnode⟩
  obtain ⟨source, goal, hsourceLater, htarget, hrenameAt⟩ := exists_of_rename hfile hrename
  obtain rfl := hplace hdraft hsourceLater
  obtain rfl := hplace hname htarget
  have hfree := node?_of_renameAt hnode nofun hrenameAt
  rw [hdrafted, if_neg fun heq => hne (placeIn_inj.mp heq).symm] at hfree
  exact ⟨hdirectory, hsource, resolve_of_keeps hkeeps htarget, hdraftNode, hfree⟩

/-- What a replacement that succeeded has done. -/
theorem exists_of_replaceFile (hwell : d.tree.WellFormed) (hne : draft ≠ name)
    (hdraft : IsName draft) (hname : IsName name)
    (hok : d.replaceFile (d.root.join draft) (d.root.join name) text = (d', .ok ())) :
    ∃ made, d.tree.makeDirectories d.root = (made, .ok ()) ∧ made.WellFormed ∧
      d.tree.AddsDirectories made ∧ (d.withTree made).Ready draft name ∧
      d' = (d.withTree made).replaced draft name text := by
  obtain ⟨hmadeWell, hadds⟩ := makeDirectories_spec hwell d.root
  have hdone := hok
  unfold replaceFile at hok
  split at hok
  · cases hok
  next made _ hmade =>
  rw [hmade] at hmadeWell hadds
  split at hok
  · cases hok
  next wrote hwrite =>
  split at hok
  · cases hok
  next tree hrename =>
  have hready : (d.withTree made).Ready draft name :=
    ready_of_rename hne hdraft hname hwrite hrename
  rw [replaceFile_eq hmade hmadeWell hready hne hdraft hname] at hdone
  exact ⟨made, hmade, hmadeWell, hadds, hready, (congrArg Prod.fst hdone).symm⟩

theorem node?_replaced (d : StateDirectory) (draft name text : String) (place : Place) :
    (d.replaced draft name text).tree.node? place =
      if place = d.placeIn name then some (.file text)
      else if place = d.placeIn draft then none else d.tree.node? place :=
  FileTree.node?_replaced _ (d.placeIn_ne_nil draft) (d.placeIn_ne_nil name) _ _

theorem Ready.wellFormed (h : d.Ready draft name) (hwell : d.tree.WellFormed)
    (hname : IsName name) (text : String) : (d.replaced draft name text).tree.WellFormed :=
  hwell.replaced hname h.directory h.draft_ne h.file_ne text

theorem Ready.keeps (h : d.Ready draft name) (text : String) :
    d.tree.KeepsDirectories (d.replaced draft name text).tree := by
  intro place hplace
  have hfile : place ≠ d.placeIn name := by
    rintro rfl
    exact h.file_ne hplace
  have hdraft : place ≠ d.placeIn draft := by
    rintro rfl
    exact h.draft_ne hplace
  rw [node?_replaced, if_neg hfile, if_neg hdraft]
  exact hplace

/-- Nothing else becomes a directory. -/
theorem kept_of_replaced (d : StateDirectory) (draft name text : String) :
    (d.replaced draft name text).tree.KeepsDirectories d.tree := by
  intro place hplace
  rw [node?_replaced] at hplace
  split at hplace
  · cases hplace
  split at hplace
  · cases hplace
  · exact hplace

/-- After a file was replaced, all can be replaced that could be before. -/
theorem Ready.replaced (h : d.Ready draft name) (text : String) {draft' name' : String}
    (h' : d.Ready draft' name') : (d.replaced draft name text).Ready draft' name' where
  directory := h.keeps text _ h'.directory
  draftPath := resolve_of_keeps (h.keeps text) h'.draftPath
  filePath := resolve_of_keeps (h.keeps text) h'.filePath
  draft_ne hdirectory := h'.draft_ne (d.kept_of_replaced draft name text _ hdirectory)
  file_ne hdirectory := h'.file_ne (d.kept_of_replaced draft name text _ hdirectory)

/-- A directory in which files can be replaced is not made again. -/
theorem Ready.makeDirectories (h : d.Ready draft name) (hname : IsName name) :
    d.tree.makeDirectories d.root = (d.tree, .ok ()) := by
  by_cases hroot : d.root.text = ""
  · rw [FileTree.makeDirectories, hroot]
    rfl
  · exact makeDirectories_of_look (look_of_resolve_join hroot hname h.filePath)

/-- A file is replaced wherever it can be. -/
theorem Ready.replaceFile_eq (h : d.Ready draft name) (hwell : d.tree.WellFormed)
    (hne : draft ≠ name) (hdraft : IsName draft) (hname : IsName name) (text : String) :
    d.replaceFile (d.root.join draft) (d.root.join name) text =
      (d.replaced draft name text, .ok ()) :=
  StateDirectory.replaceFile_eq (h.makeDirectories hname) hwell h hne hdraft hname

end StateDirectory

end FileReplacement

end ArchiveDeposit

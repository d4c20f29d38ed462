import ArchiveDeposit.DepositRecord
import ArchiveDeposit.Kind
import ArchiveDeposit.Order.StableSort

/-!
# Artefacts

An artefact is a file that is deposited with its parent.  It has a number among the files of the
parent, a filename, and its own deposit record; a file that is packed into an encapsulation names
it by its number.

Children of one parent have a fixed order: the metadata file of an observation first, then by the
name of the kind, then by filename.  Files of different parents, and files that have none, are
ordered by parent before all else.  The files of a list can be gone through in this order by their
places as well: `map_orderedPlaces` says that the same files are met.
-/

namespace ArchiveDeposit

section Artefact

/-- What the order of children depends on. -/
structure ChildKey where
  parent : Option Parent
  kind : Kind
  filename : String
deriving DecidableEq, Repr

namespace ChildKey

/-- The name of the type and the number determine a parent, and whether there is one. -/
theorem eq_of_sortKey {p q : Option Parent}
    (htype : p.map (fun p => p.sortKey.1) = q.map fun p => p.sortKey.1)
    (hnumber : p.map (fun p => p.sortKey.2) = q.map fun p => p.sortKey.2) : p = q := by
  cases p with
  | none => cases q <;> first | rfl | cases htype
  | some p =>
      cases q with
      | none => cases htype
      | some q =>
          exact congrArg some (Parent.sortKey_injective
            (Prod.ext (Option.some.inj htype) (Option.some.inj hnumber)))

/-- By parent, files without one first; then priority files; then by kind and filename. -/
instance : Ord ChildKey where
  compare :=
    compareLex (compareOn fun k => k.parent.map fun p => p.sortKey.1) <|
    compareLex (compareOn fun k => k.parent.map fun p => p.sortKey.2) <|
    compareLex (compareOn fun k => !k.kind.isPriority) <|
    compareLex (compareOn fun k => k.kind.typeName) (compareOn filename)

instance : Std.TransOrd ChildKey :=
  inferInstanceAs (Std.TransCmp
    (compareLex (compareOn fun k : ChildKey => k.parent.map fun p => p.sortKey.1) <|
    compareLex (compareOn fun k : ChildKey => k.parent.map fun p => p.sortKey.2) <|
    compareLex (compareOn fun k : ChildKey => !k.kind.isPriority) <|
    compareLex (compareOn fun k : ChildKey => k.kind.typeName) (compareOn filename)))

/-- Keys that the order does not tell apart are the same. -/
instance : Std.LawfulEqOrd ChildKey where
  eq_of_compare {a b} h := by
    obtain ⟨htype, h⟩ := compareLex_eq_eq.mp h
    obtain ⟨hnumber, h⟩ := compareLex_eq_eq.mp h
    obtain ⟨_, h⟩ := compareLex_eq_eq.mp h
    obtain ⟨hkind, hfilename⟩ := compareLex_eq_eq.mp h
    have hparent : a.parent = b.parent :=
      eq_of_sortKey (Std.LawfulEqOrd.eq_of_compare htype) (Std.LawfulEqOrd.eq_of_compare hnumber)
    have hkind : a.kind = b.kind := Kind.typeName_injective (Std.LawfulEqOrd.eq_of_compare hkind)
    have hfilename : a.filename = b.filename := Std.LawfulEqOrd.eq_of_compare hfilename
    cases a
    cases b
    simp_all

/-- The order of children that may be absent; an absent one comes first. -/
def compareOptional (a b : Option ChildKey) : Ordering := compare a b

end ChildKey

/-- A file that is deposited with its parent. -/
structure Artefact where
  id : ArtefactId
  kind : Kind
  filename : String
  parent : Option Parent
  /-- The encapsulation that the file is packed into. -/
  encapsulation : Option ArtefactId
  record : DepositRecord
deriving DecidableEq

namespace Artefact

/-- The file as an owner of states. -/
def owner (a : Artefact) : Owner := .artefact a.parent a.filename

/-- The place of the file among children. -/
def childKey (a : Artefact) : ChildKey := ⟨a.parent, a.kind, a.filename⟩

/-- The order of children. -/
def compareChildren (a b : Artefact) : Ordering := compare a.childKey b.childKey

instance : Std.TransCmp compareChildren where
  eq_swap {a b} := by
    change compare a.childKey b.childKey = (compare b.childKey a.childKey).swap
    exact Std.OrientedOrd.eq_swap
  isLE_trans {a b c} hab hbc := by
    change (compare a.childKey c.childKey).isLE = true
    exact Std.TransOrd.isLE_trans hab hbc

/-- Children that are not told apart have one key. -/
theorem childKey_eq_of_compare {a b : Artefact} (h : compareChildren a b = .eq) :
    a.childKey = b.childKey :=
  Std.LawfulEqOrd.eq_of_compare h

/-- The files of a list, in child order. -/
def inChildOrder (artefacts : List Artefact) : List Artefact := stableSort compareChildren artefacts

/-- The order of children that may be absent. -/
def compareOptional (a b : Option Artefact) : Ordering :=
  ChildKey.compareOptional (a.map childKey) (b.map childKey)

/-- The places of the files of a list that have a property. -/
def places (artefacts : List Artefact) (included : Artefact → Bool) : List Nat :=
  (List.range artefacts.length).filter fun i => artefacts[i]?.any included

/-- The same places, in the child order of what is at them. -/
def orderedPlaces (artefacts : List Artefact) (included : Artefact → Bool) : List Nat :=
  stableSort (fun i j => compareOptional artefacts[i]? artefacts[j]?) (places artefacts included)

theorem map_places (artefacts : List Artefact) (included : Artefact → Bool) :
    (places artefacts included).map (fun i => artefacts[i]?) =
      (artefacts.filter included).map some := by
  have hall : (List.range artefacts.length).map (fun i => artefacts[i]?) = artefacts.map some := by
    refine List.ext_getElem (by simp) fun i hi _ => ?_
    have hlt : i < artefacts.length := by simpa using hi
    simp [hlt]
  calc (places artefacts included).map (fun i => artefacts[i]?)
      = ((List.range artefacts.length).map fun i => artefacts[i]?).filter (·.any included) := by
        rw [List.filter_map]
        rfl
    _ = (artefacts.map some).filter (·.any included) := by rw [hall]
    _ = (artefacts.filter included).map some := List.filter_map

/-- At the sorted places are the sorted files. -/
theorem map_orderedPlaces (artefacts : List Artefact) (included : Artefact → Bool) :
    (orderedPlaces artefacts included).map (fun i => artefacts[i]?) =
      (inChildOrder (artefacts.filter included)).map some := by
  have hplaces : stableSort compareOptional
        ((places artefacts included).map fun i => artefacts[i]?) =
      (orderedPlaces artefacts included).map fun i => artefacts[i]? :=
    stableSort_map (fun _ _ => rfl) _
  have hfiles : stableSort compareOptional ((artefacts.filter included).map some) =
      (inChildOrder (artefacts.filter included)).map some :=
    stableSort_map (fun _ _ => rfl) _
  rw [← hplaces, map_places, hfiles]

/-- The present state. -/
def state (a : Artefact) : DepositState := a.record.state

/-- The present stage. -/
def stage (a : Artefact) : Stage := a.record.state.stage

/-- Whether the file is failed. -/
def isFailed (a : Artefact) : Bool := a.state.isFailed

/-- Whether the file is deposited. -/
def isDeposited (a : Artefact) : Bool := a.state.isDeposited

/-- Whether the file is an encapsulation. -/
def isEncapsulation (a : Artefact) : Bool := a.kind.isEncapsulation

/-- Whether the file is packed into an encapsulation. -/
def isEncapsulated (a : Artefact) : Bool := a.encapsulation.isSome

/-- The file with another record. -/
def withRecord (a : Artefact) (record : DepositRecord) : Artefact :=
  ⟨a.id, a.kind, a.filename, a.parent, a.encapsulation, record⟩

/-- The file after a change of its record, and the transition that the change made. -/
def withChange (a : Artefact) (change : DepositRecord × Option Transition) :
    Artefact × Option Transition :=
  (a.withRecord change.1, change.2)

/-- One step further if the surroundings permit it. -/
def progress (a : Artefact) (around : Surroundings) (now : Timestamp) :
    Artefact × Option Transition :=
  a.withChange (a.record.replace (a.state.progress around) now)

/-- The change that a job reports. -/
def advance (a : Artefact) (stage : Stage) (now : Timestamp) :
    Except DepositError (Artefact × Option Transition) :=
  (a.record.advance stage now).map a.withChange

/-- Takes a failed file back to its checkpoint. -/
def recover (a : Artefact) (now : Timestamp) :
    Except DepositError (Artefact × Option Transition) :=
  (a.record.recover now).map a.withChange

end Artefact

end Artefact

end ArchiveDeposit

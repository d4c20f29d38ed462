import ArchiveDeposit.Artefact
import Mathlib.Data.List.Nodup

/-!
# The order of children

Children are ordered by parent, then priority files before others, then by the name of the kind and
by the filename; a child that is absent comes first.  This is a total order, and it tells apart all
that parent, kind and filename tell apart: no two kinds have one name, and no two parents one name
of type and one number.

Hence child order lists the same children in one way, in whatever order they were given, and the
metadata file of an observation before its siblings.  It does so also where the places of the
children in their list are sorted instead of the children.

**Results.**
* `Artefact.compareOptional_eq_iff`: which children are not told apart.
* `Artefact.metadataFirst_of_ascending`: what stands before a metadata file among its siblings.
* `Artefact.childOrder_total`: child order as a total order, and what it makes of a list.
-/

namespace ArchiveDeposit

section ChildOrder

namespace Artefact

/-- Both are absent, or both have the same parent, kind and filename. -/
inductive SameChild : Option Artefact → Option Artefact → Prop
  | absent : SameChild none none
  | present {a b : Artefact} (hparent : a.parent = b.parent) (hkind : a.kind = b.kind)
      (hfilename : a.filename = b.filename) : SameChild (some a) (some b)

instance : Std.TransCmp compareOptional where
  eq_swap {a b} := by
    change compare (a.map childKey) (b.map childKey) =
      (compare (b.map childKey) (a.map childKey)).swap
    exact Std.OrientedOrd.eq_swap
  isLE_trans {a b c} hab hbc := by
    change (compare (a.map childKey) (c.map childKey)).isLE = true
    exact Std.TransOrd.isLE_trans hab hbc

theorem sameChild_iff {a b : Option Artefact} :
    SameChild a b ↔ a.map childKey = b.map childKey := by
  constructor
  · intro h
    cases h with
    | absent => rfl
    | present hparent hkind hfilename =>
        simp only [Option.map_some, childKey, hparent, hkind, hfilename]
  · intro h
    cases a with
    | none =>
        cases b with
        | none => exact .absent
        | some b => cases h
    | some a =>
        cases b with
        | none => cases h
        | some b =>
            have hkey : a.childKey = b.childKey := Option.some.inj h
            exact .present (congrArg ChildKey.parent hkey) (congrArg ChildKey.kind hkey)
              (congrArg ChildKey.filename hkey)

/-- Children are not told apart only where nothing tells them apart. -/
theorem compareOptional_eq_iff {a b : Option Artefact} :
    compareOptional a b = .eq ↔ SameChild a b := by
  rw [sameChild_iff]
  exact Std.compare_eq_iff_eq

/-- Siblings are ordered by priority, kind and filename. -/
theorem compareChildren_of_parent {a b : Artefact} (h : a.parent = b.parent) :
    compareChildren a b = (compare (!a.kind.isPriority) (!b.kind.isPriority)).then
      ((compare a.kind.typeName b.kind.typeName).then (compare a.filename b.filename)) := by
  have hchain : compareChildren a b =
      (compare (a.parent.map fun p => p.sortKey.1) (b.parent.map fun p => p.sortKey.1)).then
        ((compare (a.parent.map fun p => p.sortKey.2) (b.parent.map fun p => p.sortKey.2)).then
          ((compare (!a.kind.isPriority) (!b.kind.isPriority)).then
            ((compare a.kind.typeName b.kind.typeName).then (compare a.filename b.filename)))) :=
    rfl
  rw [hchain, h, Std.compare_self, Std.compare_self]
  rfl

/-- Before a metadata file stand none of its siblings but other metadata files, by filename. -/
def MetadataFirst (artefacts : List Artefact) : Prop :=
  artefacts.Pairwise fun a b => a.parent = b.parent → b.kind = .observationMetadataFile →
    a.kind = .observationMetadataFile ∧ (compare a.filename b.filename).isLE = true

theorem metadataFirst_of_ascending {artefacts : List Artefact}
    (h : artefacts.Pairwise fun a b => (compareChildren a b).isLE = true) :
    MetadataFirst artefacts := by
  refine h.imp fun {a b} hle hparent hkind => ?_
  rw [compareChildren_of_parent hparent, hkind] at hle
  have hpriority : a.kind.isPriority = true := by
    cases hnot : a.kind.isPriority with
    | true => rfl
    | false =>
        rw [hnot] at hle
        cases hle
  have hmetadata : a.kind = .observationMetadataFile := eq_of_beq hpriority
  rw [hmetadata, Std.compare_self, Std.compare_self] at hle
  exact ⟨hmetadata, hle⟩

/-- A list in child order: its entries stand for children, which may be absent. -/
structure Lists {α : Type} (child : α → Option Artefact) (given sorted : List α) : Prop where
  perm : sorted.Perm given
  ascending : sorted.Pairwise fun x y => (compareOptional (child x) (child y)).isLE = true

theorem lists_inChildOrder (artefacts : List Artefact) :
    Lists some artefacts (inChildOrder artefacts) :=
  ⟨stableSort_perm compareChildren artefacts, pairwise_stableSort compareChildren artefacts⟩

variable {artefacts other : List Artefact} {included : Artefact → Bool}

theorem lists_orderedPlaces (artefacts : List Artefact) (included : Artefact → Bool) :
    Lists (fun i => artefacts[i]?) (places artefacts included)
      (orderedPlaces artefacts included) where
  perm := stableSort_perm _ _
  ascending := by
    have hfiles := (pairwise_stableSort compareChildren (artefacts.filter included)).map some
      (S := fun a b => (compareOptional a b).isLE = true) fun _ _ h => h
    have hplaces : ((orderedPlaces artefacts included).map fun i => artefacts[i]?).Pairwise
        fun a b => (compareOptional a b).isLE = true := by
      rw [map_orderedPlaces]
      exact hfiles
    exact List.pairwise_map.mp hplaces

/-- Children that differ in parent, kind or filename are listed in one way, whatever order they were
given in. -/
theorem inChildOrder_of_perm (hperm : artefacts.Perm other)
    (hdistinct : (artefacts.map childKey).Nodup) : inChildOrder artefacts = inChildOrder other :=
  stableSort_eq_of_perm hperm fun _ ha _ hb heq =>
    List.inj_on_of_nodup_map hdistinct ha hb (childKey_eq_of_compare heq)

/-- The order of children is total and tells apart what differs.  In it every list of children, and
every list of the places of some of them, is sorted; with the metadata files before their siblings;
and where all children differ, in one way for all orders that the list may be given in. -/
theorem childOrder_total :
    (∀ a b : Option Artefact, compareOptional a b = (compareOptional b a).swap) ∧
    (∀ a b c : Option Artefact, (compareOptional a b).isLE = true →
      (compareOptional b c).isLE = true → (compareOptional a c).isLE = true) ∧
    (∀ a b : Option Artefact, compareOptional a b = .eq ↔ SameChild a b) ∧
    (∀ artefacts : List Artefact, Lists some artefacts (inChildOrder artefacts) ∧
      MetadataFirst (inChildOrder artefacts)) ∧
    (∀ (artefacts : List Artefact) (included : Artefact → Bool),
      Lists (fun i => artefacts[i]?) (places artefacts included)
        (orderedPlaces artefacts included) ∧
      (orderedPlaces artefacts included).map (fun i => artefacts[i]?) =
        (inChildOrder (artefacts.filter included)).map some) ∧
    ∀ artefacts other : List Artefact, artefacts.Perm other →
      (artefacts.map childKey).Nodup → inChildOrder artefacts = inChildOrder other ∧
        ∀ included : Artefact → Bool,
          (orderedPlaces artefacts included).map (fun i => artefacts[i]?) =
            (orderedPlaces other included).map fun i => other[i]? := by
  refine ⟨fun a b => Std.OrientedCmp.eq_swap, fun a b c => Std.TransCmp.isLE_trans,
    fun a b => compareOptional_eq_iff, fun artefacts => ?_, fun artefacts included => ?_, ?_⟩
  · exact ⟨lists_inChildOrder artefacts,
      metadataFirst_of_ascending (pairwise_stableSort compareChildren artefacts)⟩
  · exact ⟨lists_orderedPlaces artefacts included, map_orderedPlaces artefacts included⟩
  · intro artefacts other hperm hdistinct
    refine ⟨inChildOrder_of_perm hperm hdistinct, fun included => ?_⟩
    have hincluded : ((artefacts.filter included).map childKey).Nodup :=
      hdistinct.sublist (List.filter_sublist.map childKey)
    rw [map_orderedPlaces, map_orderedPlaces,
      inChildOrder_of_perm (hperm.filter included) hincluded]

/-- A catalogue, a metadata file whose filename is later, and a file without a parent. -/
theorem childOrder_total_metadata_file :
    ∃ catalogue metadata detached : Artefact,
      [catalogue, metadata, detached].Perm [detached, catalogue, metadata] ∧
      ([catalogue, metadata, detached].map childKey).Nodup ∧
      (compareOptional (some detached) (some metadata)).isLE = true ∧
      (compareOptional (some metadata) (some catalogue)).isLE = true ∧
      (compareOptional (some detached) (some catalogue)).isLE = true ∧
      inChildOrder [catalogue, metadata, detached] = [detached, metadata, catalogue] ∧
      inChildOrder [catalogue, metadata, detached] =
        inChildOrder [detached, catalogue, metadata] ∧
      (orderedPlaces [catalogue, metadata, detached] (·.parent.isSome)).map
          (fun i => [catalogue, metadata, detached][i]?) =
        (orderedPlaces [detached, catalogue, metadata] (·.parent.isSome)).map
          fun i => [detached, catalogue, metadata][i]? := by
  let file (index : Nat) (kind : Kind) (filename : String) (parent : Option Parent) : Artefact :=
    ⟨⟨index⟩, kind, filename, parent, none,
      .new (.initial .standard (.artefact parent filename))⟩
  let catalogue := file 0 .catalogue "a.xml" (some (.observation ⟨1⟩))
  let metadata := file 1 .observationMetadataFile "z.xml" (some (.observation ⟨1⟩))
  let detached := file 2 .thumbnail "t.png" none
  have hperm : [catalogue, metadata, detached].Perm [detached, catalogue, metadata] := by
    decide +kernel
  have hdistinct : ([catalogue, metadata, detached].map childKey).Nodup := by decide +kernel
  obtain ⟨_, htrans, _, _, _, honce⟩ := childOrder_total
  have hfirst : (compareOptional (some detached) (some metadata)).isLE = true := by decide +kernel
  have hsecond : (compareOptional (some metadata) (some catalogue)).isLE = true := by
    decide +kernel
  obtain ⟨hlist, hplaces⟩ := honce _ _ hperm hdistinct
  exact ⟨catalogue, metadata, detached, hperm, hdistinct, hfirst, hsecond,
    htrans _ _ _ hfirst hsecond, by decide +kernel, hlist, hplaces _⟩

end Artefact

end ChildOrder

end ArchiveDeposit

import ArchiveDeposit.Proofs.EncapsulationStep
import ArchiveDeposit.Proofs.Snapshot
import Mathlib.Data.List.Nodup

/-!
# Files in another order

Files are numbered in the order in which they were added, and a packed file names its encapsulation
by number.  Two lists hold the same files in different orders when one is a permutation of the other
after the numbers are exchanged.  This module shows that whatever is looked up among the files, and
whatever is listed in child order, is found to be the same in both lists up to the numbers.

A filename belongs to one file, so child order leaves no two files undecided, and the number of a
file determines its number in the other list.

**Results.**
* `Renumbered.inChildOrder_filter`: child order lists the same files in both lists.
* `Renumbered.members`, `Renumbered.childSurroundings`: what encapsulations and their members see.
* `Renumbered.map`: changes that agree file by file keep the lists the same.
-/

namespace ArchiveDeposit

section Renumbering

variable {rename : ArtefactId → ArtefactId} {parent : Parent} {artefacts other : List Artefact}

namespace Artefact

/-- The same file where the numbers are others. -/
def renumber (rename : ArtefactId → ArtefactId) (a : Artefact) : Artefact :=
  ⟨rename a.id, a.kind, a.filename, a.parent, a.encapsulation.map rename, a.record⟩

/-- A changed file where the numbers are others, with the same transition. -/
def renumberChange (rename : ArtefactId → ArtefactId) (change : Artefact × Option Transition) :
    Artefact × Option Transition :=
  (change.1.renumber rename, change.2)

@[simp] theorem renumber_id (a : Artefact) : (a.renumber rename).id = rename a.id := rfl

@[simp] theorem renumber_encapsulation (a : Artefact) :
    (a.renumber rename).encapsulation = a.encapsulation.map rename := rfl

@[simp] theorem renumber_filename (a : Artefact) : (a.renumber rename).filename = a.filename := rfl

@[simp] theorem renumber_isEncapsulation (a : Artefact) :
    (a.renumber rename).isEncapsulation = a.isEncapsulation := rfl

@[simp] theorem renumber_state (a : Artefact) : (a.renumber rename).state = a.state := rfl

/-- Child order does not depend on numbers. -/
theorem compareChildren_renumber (a b : Artefact) :
    compareChildren (a.renumber rename) (b.renumber rename) = compareChildren a b := rfl

theorem progress_renumber (a : Artefact) (around : Surroundings) (now : Timestamp) :
    (a.renumber rename).progress around now = renumberChange rename (a.progress around now) := rfl

theorem advance_renumber (a : Artefact) (stage : Stage) (now : Timestamp) :
    (a.renumber rename).advance stage now =
      (a.advance stage now).map (renumberChange rename) := by
  change (a.record.advance stage now).map _ = ((a.record.advance stage now).map _).map _
  cases a.record.advance stage now <;> rfl

theorem depositPacked_renumber (a : Artefact) (now : Timestamp) :
    (a.renumber rename).depositPacked now = renumberChange rename (a.depositPacked now) := by
  unfold depositPacked
  rw [advance_renumber, show (a.renumber rename).stage = a.stage from rfl]
  split
  · cases a.advance .deposited now <;> rfl
  · rfl

end Artefact

/-- The files of one parent in two orders, numbered accordingly. -/
structure Renumbered (rename : ArtefactId → ArtefactId) (parent : Parent)
    (artefacts other : List Artefact) : Prop where
  siblings : Siblings parent artefacts
  others : Siblings parent other
  perm : other.Perm (artefacts.map (Artefact.renumber rename))

namespace Renumbered

variable {a b file : Artefact}

theorem mem_renumber (h : Renumbered rename parent artefacts other) (ha : a ∈ artefacts) :
    a.renumber rename ∈ other :=
  h.perm.mem_iff.mpr (List.mem_map_of_mem ha)

theorem exists_of_mem (h : Renumbered rename parent artefacts other) (hb : b ∈ other) :
    ∃ a ∈ artefacts, a.renumber rename = b :=
  List.mem_map.mp (h.perm.mem_iff.mp hb)

/-- Different files have different numbers in the other list too. -/
theorem eq_of_rename (h : Renumbered rename parent artefacts other) (ha : a ∈ artefacts)
    (hb : b ∈ artefacts) (heq : rename a.id = rename b.id) : a = b := by
  have hsame := h.others.arranged.eq_of_id (h.mem_renumber ha) (h.mem_renumber hb) heq
  have hname : (a.renumber rename).filename = (b.renumber rename).filename :=
    congrArg Artefact.filename hsame
  exact List.inj_on_of_nodup_map h.siblings.distinct ha hb hname

/-- A file is packed into the same encapsulation in both lists. -/
theorem encapsulation_iff (h : Renumbered rename parent artefacts other) (ha : a ∈ artefacts)
    (hfile : file ∈ artefacts) :
    (a.renumber rename).encapsulation = some (rename file.id) ↔
      a.encapsulation = some file.id := by
  rw [Artefact.renumber_encapsulation, Option.map_eq_some_iff]
  constructor
  · rintro ⟨id, henc, hid⟩
    obtain ⟨_, holder, hholder, rfl, _⟩ := h.siblings.packed a ha id henc
    rwa [h.eq_of_rename hholder hfile hid] at henc
  · exact fun henc => ⟨file.id, henc, rfl⟩

/-- Changes that agree file by file keep the lists the same. -/
theorem map (h : Renumbered rename parent artefacts other) {f g : Artefact → Artefact}
    (hf : ∀ a ∈ artefacts, a.Continues (f a)) (hg : ∀ b ∈ other, b.Continues (g b))
    (hagree : ∀ a ∈ artefacts, g (a.renumber rename) = (f a).renumber rename) :
    Renumbered rename parent (artefacts.map f) (other.map g) where
  siblings := h.siblings.map hf
  others := h.others.map hg
  perm := by
    have hboth : (artefacts.map (Artefact.renumber rename)).map g =
        (artefacts.map f).map (Artefact.renumber rename) := by
      rw [List.map_map, List.map_map]
      exact List.map_congr_left hagree
    rw [← hboth]
    exact h.perm.map g

/-- Changing one file, found by its number, keeps the lists the same. -/
theorem set (h : Renumbered rename parent artefacts other) (ha : a ∈ artefacts)
    (hcont : a.Continues b) :
    Renumbered rename parent (artefacts.set a.id.index b)
      (other.set (rename a.id).index (b.renumber rename)) := by
  have hset := h.others.arranged.set_eq_map (h.mem_renumber ha) (b.renumber rename)
  rw [Artefact.renumber_id] at hset
  rw [h.siblings.arranged.set_eq_map ha, hset]
  refine h.map (fun x hx => ?_) (fun y hy => ?_) (fun x hx => ?_)
  · split
    · next hid =>
        rw [h.siblings.arranged.eq_of_id hx ha hid]
        exact hcont
    · exact .refl x
  · split
    · next hid =>
        rw [h.others.arranged.eq_of_id hy (h.mem_renumber ha) hid]
        exact ⟨congrArg rename hcont.id, hcont.kind, hcont.filename, hcont.parent,
          congrArg (Option.map rename) hcont.encapsulation, hcont.record⟩
    · exact .refl y
  · rw [Artefact.renumber_id]
    by_cases hid : x.id = a.id
    · rw [if_pos hid, if_pos (congrArg rename hid)]
    · rw [if_neg hid, if_neg fun heq => hid (congrArg Artefact.id (h.eq_of_rename hx ha heq))]

variable {p q : Artefact → Bool}

theorem any_eq (h : Renumbered rename parent artefacts other)
    (hpq : ∀ a, q (a.renumber rename) = p a) : other.any q = artefacts.any p := by
  rw [h.perm.any_eq, List.any_map]
  exact congrArg artefacts.any (funext hpq)

theorem all_eq (h : Renumbered rename parent artefacts other)
    (hpq : ∀ a, q (a.renumber rename) = p a) : other.all q = artefacts.all p := by
  rw [h.perm.all_eq, List.all_map]
  exact congrArg artefacts.all (funext hpq)

/-- In child order the same files are listed. -/
theorem inChildOrder_filter (h : Renumbered rename parent artefacts other)
    (hpq : ∀ a ∈ artefacts, q (a.renumber rename) = p a) :
    Artefact.inChildOrder (other.filter q) =
      (Artefact.inChildOrder (artefacts.filter p)).map (Artefact.renumber rename) := by
  have hfiltered : (artefacts.map (Artefact.renumber rename)).filter q =
      (artefacts.filter p).map (Artefact.renumber rename) := by
    rw [List.filter_map]
    exact congrArg _ (List.filter_congr hpq)
  have hperm : (other.filter q).Perm ((artefacts.filter p).map (Artefact.renumber rename)) := by
    rw [← hfiltered]
    exact h.perm.filter q
  unfold Artefact.inChildOrder
  rw [← stableSort_map Artefact.compareChildren_renumber]
  refine stableSort_eq_of_perm hperm fun x hx y hy heq => ?_
  exact List.inj_on_of_nodup_map h.others.distinct (List.mem_filter.mp hx).1
    (List.mem_filter.mp hy).1 (congrArg ChildKey.filename (Artefact.childKey_eq_of_compare heq))

theorem inChildOrder (h : Renumbered rename parent artefacts other) :
    Artefact.inChildOrder other =
      (Artefact.inChildOrder artefacts).map (Artefact.renumber rename) := by
  have hall := h.inChildOrder_filter (p := fun _ => true) (q := fun _ => true) fun _ _ => rfl
  simpa using hall

/-- An encapsulation has the same members, in the same order. -/
theorem members (h : Renumbered rename parent artefacts other) (hfile : file ∈ artefacts) :
    Encapsulation.members other (rename file.id) =
      (Encapsulation.members artefacts file.id).map (Artefact.renumber rename) := by
  refine h.inChildOrder_filter fun a ha => ?_
  rw [Bool.eq_iff_iff, h.others.arranged.isMemberOf_iff (h.mem_renumber ha),
    h.siblings.arranged.isMemberOf_iff ha]
  exact h.encapsulation_iff ha hfile

/-- A file sees its encapsulation in the same state. -/
theorem childSurroundings (h : Renumbered rename parent artefacts other) (ha : a ∈ artefacts)
    (signals : Signals) :
    Observation.childSurroundings other signals (a.renumber rename) =
      Observation.childSurroundings artefacts signals a := by
  unfold Observation.childSurroundings
  congr 1
  rw [Artefact.renumber_encapsulation]
  cases henc : a.encapsulation with
  | none => rfl
  | some id =>
      obtain ⟨_, file, hfile, rfl, hkind⟩ := h.siblings.packed a ha id henc
      have hleft := Observation.encapsulationState?_of_mem h.siblings.arranged hfile hkind
      have hright :=
        Observation.encapsulationState?_of_mem h.others.arranged (h.mem_renumber hfile) hkind
      exact hright.trans hleft.symm

end Renumbered

end Renumbering

end ArchiveDeposit

import ArchiveDeposit.Identifier

/-!
# Owners of deposit states

A state, a report and a transition belong to an owner: an observation, a level 7 collection, or a
file of one of them.  Owners are named, not pointed at: a file by its parent and its filename.

Owners have an order, in which signal boards list them.
-/

namespace ArchiveDeposit

section Owner

/-- The parent of a file. -/
inductive Parent where
  | observation (sbid : Sbid)
  | level7Collection (id : CollectionId)
deriving DecidableEq, Repr

/-- The owner of a state. -/
inductive Owner where
  | observation (sbid : Sbid)
  | level7Collection (id : CollectionId)
  /-- A file, which may have no parent. -/
  | artefact (parent : Option Parent) (filename : String)
deriving DecidableEq, Repr

/-- The place of a file among the files of its parent.  It is written as a word, so there are numbers
for `UInt32.size` files, and runs that are stored add no more than these. -/
structure ArtefactId where
  index : Nat
deriving DecidableEq, Repr

/-- A file's number as messages show it. -/
def ArtefactId.text (id : ArtefactId) : String := "#" ++ toString id.index

namespace Parent

/-- A parent as messages show it. -/
def text : Parent → String
  | .observation sbid => "observation:" ++ sbid.digits
  | .level7Collection id => "level7:" ++ id.digits

/-- A parent as an owner of states. -/
def toOwner : Parent → Owner
  | .observation sbid => .observation sbid
  | .level7Collection id => .level7Collection id

/-- The name of the type of a parent, and its number; files are sorted by this. -/
def sortKey : Parent → String × Nat
  | .observation sbid => ("Observation", sbid.value.toNat)
  | .level7Collection id => ("Level7Collection", id.value.toNat)

theorem sortKey_injective {p q : Parent} (h : p.sortKey = q.sortKey) : p = q := by
  cases p <;> cases q <;> simp only [sortKey, Prod.mk.injEq] at h
  · exact congrArg Parent.observation (congrArg Sbid.mk (UInt32.toNat_inj.mp h.2))
  · exact absurd h.1 (by decide)
  · exact absurd h.1 (by decide)
  · exact congrArg Parent.level7Collection (congrArg CollectionId.mk (UInt64.toNat_inj.mp h.2))

/-- Observations before collections, and by number. -/
def rank : Parent → Nat × Nat
  | .observation sbid => (0, sbid.value.toNat)
  | .level7Collection id => (1, id.value.toNat)

end Parent

namespace Owner

/-- An owner as messages show it. -/
def text : Owner → String
  | .observation sbid => "observation:" ++ sbid.digits
  | .level7Collection id => "level7:" ++ id.digits
  | .artefact (some parent) filename => parent.text ++ "/" ++ filename
  | .artefact none filename => "(detached)/" ++ filename

/-- The numbers by which owners are ordered before filenames: observations, then collections, then
files; of files those without a parent first. -/
def rank : Owner → List Nat
  | .observation sbid => [0, sbid.value.toNat]
  | .level7Collection id => [1, id.value.toNat]
  | .artefact none _ => [2]
  | .artefact (some parent) _ => [2, parent.rank.1, parent.rank.2]

/-- The filename of a file. -/
def filename : Owner → String
  | .artefact _ filename => filename
  | _ => ""

/-- By rank, then by filename. -/
instance : Ord Owner := ⟨compareLex (compareOn rank) (compareOn filename)⟩

instance : Std.TransOrd Owner :=
  inferInstanceAs (Std.TransCmp (compareLex (compareOn rank) (compareOn filename)))

/-- Owners of one rank and one filename are the same. -/
theorem eq_of_rank_of_filename {a b : Owner} (hr : a.rank = b.rank)
    (hf : a.filename = b.filename) : a = b := by
  cases a with
  | observation s =>
      cases b with
      | observation t =>
          simp only [rank, List.cons.injEq, and_true, true_and] at hr
          exact congrArg Owner.observation (congrArg Sbid.mk (UInt32.toNat_inj.mp hr))
      | level7Collection t => simp [rank] at hr
      | artefact p g => cases p <;> simp [rank] at hr
  | level7Collection s =>
      cases b with
      | observation t => simp [rank] at hr
      | level7Collection t =>
          simp only [rank, List.cons.injEq, and_true, true_and] at hr
          exact congrArg Owner.level7Collection (congrArg CollectionId.mk (UInt64.toNat_inj.mp hr))
      | artefact p g => cases p <;> simp [rank] at hr
  | artefact p f =>
      cases b with
      | observation t => cases p <;> simp [rank] at hr
      | level7Collection t => cases p <;> simp [rank] at hr
      | artefact q g =>
          simp only [filename] at hf
          subst hf
          cases p with
          | none => cases q <;> simp_all [rank]
          | some p =>
              cases q with
              | none => simp [rank] at hr
              | some q =>
                  cases p <;> cases q <;> simp [rank, Parent.rank] at hr ⊢
                  · exact congrArg Sbid.mk (UInt32.toNat_inj.mp hr)
                  · exact congrArg CollectionId.mk (UInt64.toNat_inj.mp hr)

instance : Std.LawfulEqOrd Owner where
  eq_of_compare {a b} h := by
    obtain ⟨hrank, hfilename⟩ := compareLex_eq_eq.mp h
    exact eq_of_rank_of_filename (Std.LawfulEqOrd.eq_of_compare hrank)
      (Std.LawfulEqOrd.eq_of_compare hfilename)

end Owner

end Owner

end ArchiveDeposit

/-!
# Stable sorting by insertion

Sorting by a comparison that may call different entries equal: such entries keep the order that
they had.  Insertion is by recursion on the list, so that sorted lists of closed terms evaluate in
the kernel; the lists sorted here are the children of one parent.

Where a comparison tells the entries of a list apart, the sorted list depends only on which entries
there are: `stableSort_eq_of_perm`.
-/

namespace ArchiveDeposit

section StableSort

variable {α : Type}

/-- Puts an entry in front of the first entry that it does not come after. -/
def insertOrdered (cmp : α → α → Ordering) (x : α) : List α → List α
  | [] => [x]
  | y :: ys => if cmp x y = .gt then y :: insertOrdered cmp x ys else x :: y :: ys

/-- The list in ascending order, equal entries in the order that they had. -/
def stableSort (cmp : α → α → Ordering) : List α → List α
  | [] => []
  | x :: xs => insertOrdered cmp x (stableSort cmp xs)

theorem insertOrdered_perm (cmp : α → α → Ordering) (x : α) (l : List α) :
    (insertOrdered cmp x l).Perm (x :: l) := by
  induction l with
  | nil => exact List.Perm.refl _
  | cons y ys ih =>
      simp only [insertOrdered]
      split
      · exact (ih.cons y).trans (List.Perm.swap x y ys)
      · exact List.Perm.refl _

/-- Sorting loses and invents nothing. -/
theorem stableSort_perm (cmp : α → α → Ordering) (l : List α) : (stableSort cmp l).Perm l := by
  induction l with
  | nil => exact List.Perm.refl _
  | cons x xs ih =>
      exact (insertOrdered_perm cmp x (stableSort cmp xs)).trans (ih.cons x)

@[simp] theorem mem_stableSort {cmp : α → α → Ordering} {l : List α} {x : α} :
    x ∈ stableSort cmp l ↔ x ∈ l :=
  (stableSort_perm cmp l).mem_iff

@[simp] theorem length_stableSort (cmp : α → α → Ordering) (l : List α) :
    (stableSort cmp l).length = l.length :=
  (stableSort_perm cmp l).length_eq

variable {β : Type}

theorem insertOrdered_map {cmp : α → α → Ordering} {cmp' : β → β → Ordering} {f : β → α}
    (h : ∀ a b, cmp (f a) (f b) = cmp' a b) (x : β) (l : List β) :
    insertOrdered cmp (f x) (l.map f) = (insertOrdered cmp' x l).map f := by
  induction l with
  | nil => rfl
  | cons y ys ih =>
      simp only [insertOrdered, List.map_cons, h]
      split
      · rw [ih, List.map_cons]
      · rfl

/-- Sorting goes by the comparison alone. -/
theorem stableSort_map {cmp : α → α → Ordering} {cmp' : β → β → Ordering} {f : β → α}
    (h : ∀ a b, cmp (f a) (f b) = cmp' a b) (l : List β) :
    stableSort cmp (l.map f) = (stableSort cmp' l).map f := by
  induction l with
  | nil => rfl
  | cons x xs ih => rw [List.map_cons, stableSort, ih, insertOrdered_map h, stableSort]

variable {cmp : α → α → Ordering} [Std.TransCmp cmp]

theorem pairwise_insertOrdered {x : α} {l : List α}
    (h : l.Pairwise fun a b => (cmp a b).isLE = true) :
    (insertOrdered cmp x l).Pairwise fun a b => (cmp a b).isLE = true := by
  induction l with
  | nil => exact List.pairwise_singleton _ x
  | cons y ys ih =>
      obtain ⟨hy, hys⟩ := List.pairwise_cons.mp h
      unfold insertOrdered
      split
      · next hgt =>
          have hswap : cmp y x = (cmp x y).swap := Std.OrientedCmp.eq_swap
          have hyx : (cmp y x).isLE = true := by
            rw [hswap, hgt]
            rfl
          refine List.pairwise_cons.mpr ⟨fun z hz => ?_, ih hys⟩
          rcases List.mem_cons.mp ((insertOrdered_perm cmp x ys).mem_iff.mp hz) with rfl | hmem
          · exact hyx
          · exact hy z hmem
      · next hle =>
          have hxy : (cmp x y).isLE = true := Ordering.isLE_iff_ne_gt.mpr hle
          refine List.pairwise_cons.mpr ⟨fun z hz => ?_, h⟩
          rcases List.mem_cons.mp hz with rfl | hmem
          · exact hxy
          · exact Std.TransCmp.isLE_trans hxy (hy z hmem)

/-- Sorting leaves the list in ascending order. -/
theorem pairwise_stableSort (cmp : α → α → Ordering) [Std.TransCmp cmp] (l : List α) :
    (stableSort cmp l).Pairwise fun a b => (cmp a b).isLE = true := by
  induction l with
  | nil => exact List.Pairwise.nil
  | cons x xs ih => exact pairwise_insertOrdered ih

/-- The order that different entries had makes no difference to the sorted list. -/
theorem stableSort_eq_of_perm {l l' : List α} (hperm : l.Perm l')
    (hdistinct : ∀ a ∈ l, ∀ b ∈ l, cmp a b = .eq → a = b) :
    stableSort cmp l = stableSort cmp l' := by
  have hsorted : (stableSort cmp l).Perm (stableSort cmp l') :=
    (stableSort_perm cmp l).trans (hperm.trans (stableSort_perm cmp l').symm)
  refine hsorted.eq_of_pairwise ?_ (pairwise_stableSort cmp l) (pairwise_stableSort cmp l')
  intro a b ha hb hab hba
  rw [mem_stableSort] at ha hb
  exact hdistinct a ha b (hperm.mem_iff.mpr hb)
    (Std.OrientedCmp.isLE_antisymm hab hba)

end StableSort

end ArchiveDeposit

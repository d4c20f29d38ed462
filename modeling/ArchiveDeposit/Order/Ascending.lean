/-!
# Ascending lists

A finite collection whose entries have keys, kept as the list of its entries with strictly
ascending keys.  The list is the collection: two collections with the same entries are equal, and
listing the entries needs no sorting.

Signal boards, the repository of observations and the tree of files are collections of this kind.
-/

namespace ArchiveDeposit

section Ascending

variable {β κ : Type} [Ord κ]

/-- Entries in strictly ascending order of their keys. -/
structure Ascending (key : β → κ) where
  /-- The entries, smallest key first. -/
  toList : List β
  /-- Every entry comes before all that follow it. -/
  ascending : toList.Pairwise fun a b => compare (key a) (key b) = .lt

namespace Ascending

variable {key : β → κ}

theorem ext {s t : Ascending key} (h : s.toList = t.toList) : s = t := by
  cases s
  cases t
  cases h
  rfl

instance [DecidableEq β] : DecidableEq (Ascending key) := fun s t =>
  if h : s.toList = t.toList then isTrue (ext h)
  else isFalse fun e => h (congrArg toList e)

/-- No entries. -/
def empty : Ascending key := ⟨[], List.Pairwise.nil⟩

instance : Inhabited (Ascending key) := ⟨empty⟩

/-- The number of entries. -/
def size (s : Ascending key) : Nat := s.toList.length

/-- Whether there are no entries. -/
def isEmpty (s : Ascending key) : Bool := s.toList.isEmpty

/-- The entry with a key. -/
def find? (s : Ascending key) (k : κ) : Option β :=
  s.toList.find? fun x => compare (key x) k == .eq

/-- Whether some entry has a key. -/
def contains (s : Ascending key) (k : κ) : Bool :=
  s.toList.any fun x => compare (key x) k == .eq

theorem contains_eq_isSome_find? (s : Ascending key) (k : κ) :
    s.contains k = (s.find? k).isSome := by
  simp [contains, find?, List.isSome_find?]

/-- Puts an entry at its place in an ascending list, over the entry of the same key if there is one. -/
def place (key : β → κ) (x : β) : List β → List β
  | [] => [x]
  | y :: ys =>
      match compare (key x) (key y) with
      | .lt => x :: y :: ys
      | .eq => x :: ys
      | .gt => y :: place key x ys

theorem mem_of_mem_place {x z : β} {l : List β} (h : z ∈ place key x l) : z = x ∨ z ∈ l := by
  induction l with
  | nil => simpa [place] using h
  | cons y ys ih =>
      simp only [place] at h
      split at h
      · simpa using h
      · rcases List.mem_cons.mp h with h | h
        · exact Or.inl h
        · exact Or.inr (List.mem_cons_of_mem _ h)
      · rcases List.mem_cons.mp h with h | h
        · exact Or.inr (by simp [h])
        · rcases ih h with h | h
          · exact Or.inl h
          · exact Or.inr (List.mem_cons_of_mem _ h)

variable [Std.TransOrd κ]

theorem pairwise_place {x : β} {l : List β}
    (h : l.Pairwise fun a b => compare (key a) (key b) = .lt) :
    (place key x l).Pairwise fun a b => compare (key a) (key b) = .lt := by
  induction l with
  | nil => simp [place]
  | cons y ys ih =>
      obtain ⟨hy, hys⟩ := List.pairwise_cons.mp h
      simp only [place]
      split
      · next hxy =>
          refine List.pairwise_cons.mpr ⟨fun z hz => ?_, h⟩
          rcases List.mem_cons.mp hz with rfl | hz
          · exact hxy
          · exact Std.TransCmp.lt_trans hxy (hy z hz)
      · next hxy =>
          refine List.pairwise_cons.mpr ⟨fun z hz => ?_, hys⟩
          exact Std.TransCmp.lt_of_eq_of_lt hxy (hy z hz)
      · next hxy =>
          refine List.pairwise_cons.mpr ⟨fun z hz => ?_, ih hys⟩
          rcases mem_of_mem_place hz with rfl | hz
          · exact Std.OrientedCmp.lt_of_gt hxy
          · exact hy z hz

/-- Adds an entry, in place of the entry of the same key if there is one. -/
def insert (s : Ascending key) (x : β) : Ascending key :=
  ⟨place key x s.toList, pairwise_place s.ascending⟩

theorem find?_place (x : β) (l : List β) (k : κ) :
    (place key x l).find? (fun y => compare (key y) k == .eq) =
      if compare (key x) k = .eq then some x
      else l.find? fun y => compare (key y) k == .eq := by
  induction l with
  | nil => by_cases hk : compare (key x) k = .eq <;> simp [place, hk]
  | cons y ys ih =>
      by_cases hk : compare (key x) k = .eq
      · have hfound : ∀ rest : List β,
            (x :: rest).find? (fun y => compare (key y) k == .eq) = some x := by
          intro rest
          simp [hk]
        rw [if_pos hk] at ih ⊢
        simp only [place]
        split
        · exact hfound _
        · exact hfound _
        · next hgt =>
            have hy : compare (key y) k ≠ .eq := by
              intro heq
              rw [Std.TransCmp.congr_right heq, hk] at hgt
              cases hgt
            simpa [hy] using ih
      · rw [if_neg hk] at ih ⊢
        simp only [place]
        split
        · simp [hk]
        · next hxy =>
            have hy : compare (key y) k ≠ .eq := by
              rwa [← Std.TransCmp.congr_left hxy]
            simp [hk, hy]
        · simp only [List.find?_cons, ih]

/-- An entry is found under its own key, and under any other what was there before. -/
theorem find?_insert (s : Ascending key) (x : β) (k : κ) :
    (s.insert x).find? k = if compare (key x) k = .eq then some x else s.find? k :=
  find?_place x s.toList k

theorem contains_insert (s : Ascending key) (x : β) (k : κ) :
    (s.insert x).contains k = true ↔ compare (key x) k = .eq ∨ s.contains k = true := by
  rw [contains_eq_isSome_find?, contains_eq_isSome_find?, find?_insert]
  by_cases hk : compare (key x) k = .eq <;> simp [hk]

omit [Std.TransOrd κ] in
/-- Removes the entry with a key. -/
def erase (s : Ascending key) (k : κ) : Ascending key :=
  ⟨s.toList.filter fun x => compare (key x) k != .eq, s.ascending.filter _⟩

/-- The collection of the entries of a list; of entries with one key the last stays. -/
def ofList (l : List β) : Ascending key := l.foldl insert empty

theorem contains_foldl_insert (s : Ascending key) (l : List β) (k : κ) :
    (l.foldl insert s).contains k = true ↔
      (∃ x ∈ l, compare (key x) k = .eq) ∨ s.contains k = true := by
  induction l generalizing s with
  | nil => simp
  | cons x xs ih =>
      rw [List.foldl_cons, ih, contains_insert]
      simp only [List.mem_cons, exists_eq_or_imp, or_assoc, or_left_comm]

/-- The entries of a list are those of the collection, in whatever order they stand. -/
theorem contains_ofList (l : List β) (k : κ) :
    (ofList l : Ascending key).contains k = true ↔ ∃ x ∈ l, compare (key x) k = .eq :=
  (contains_foldl_insert empty l k).trans (or_iff_left Bool.false_ne_true)

omit [Std.TransOrd κ] in
theorem place_eq_append {x : β} {l : List β} (h : ∀ y ∈ l, compare (key x) (key y) = .gt) :
    place key x l = l ++ [x] := by
  induction l with
  | nil => rfl
  | cons y ys ih =>
      have hys := ih fun z hz => h z (List.mem_cons_of_mem y hz)
      simp only [place, h y List.mem_cons_self, hys, List.cons_append]

/-- Entries that follow all others, in their order, are added behind them. -/
theorem toList_foldl_insert {s : Ascending key} {l : List β}
    (h : (s.toList ++ l).Pairwise fun a b => compare (key a) (key b) = .lt) :
    (l.foldl insert s).toList = s.toList ++ l := by
  induction l generalizing s with
  | nil => rw [List.foldl_nil, List.append_nil]
  | cons x xs ih =>
      have hbehind : ∀ y ∈ s.toList, compare (key x) (key y) = .gt := fun y hy =>
        Std.OrientedCmp.gt_of_lt ((List.pairwise_append.mp h).2.2 y hy x List.mem_cons_self)
      have hinsert : (s.insert x).toList = s.toList ++ [x] := place_eq_append hbehind
      have hrest : (s.insert x).toList ++ xs = s.toList ++ x :: xs := by
        rw [hinsert, List.append_assoc, List.singleton_append]
      rw [List.foldl_cons, ih (by rwa [hrest]), hrest]

/-- A collection is that of its entries. -/
theorem ofList_toList (s : Ascending key) : ofList s.toList = s :=
  ext (toList_foldl_insert s.ascending)

variable [Std.LawfulEqOrd κ]

omit [Std.TransOrd κ] in
/-- No two entries have the same key. -/
theorem eq_of_key {s : Ascending key} {x y : β} (hx : x ∈ s.toList) (hy : y ∈ s.toList)
    (h : key x = key y) : x = y := by
  have hkeys : s.toList.Pairwise fun a b => key a = key b → a = b :=
    s.ascending.imp fun hlt heq => by
      rw [Std.compare_eq_iff_eq.mpr heq] at hlt
      cases hlt
  exact hkeys.forall_of_forall_of_flip (fun _ _ _ => rfl)
    (hkeys.imp fun hab hba => (hab hba.symm).symm) hx hy h

omit [Std.TransOrd κ] in
theorem nodup_toList (s : Ascending key) : s.toList.Nodup :=
  s.ascending.imp fun hlt heq => by
    rw [heq, Std.compare_self] at hlt
    cases hlt

omit [Std.TransOrd κ] in
/-- What is found under a key is the entry that has it. -/
theorem find?_eq_some_iff {s : Ascending key} {k : κ} {x : β} :
    s.find? k = some x ↔ x ∈ s.toList ∧ key x = k := by
  have hkey {y : β} (hy : s.find? k = some y) : key y = k := by
    unfold find? at hy
    simpa using List.find?_some hy
  refine ⟨fun h => ⟨List.mem_of_find?_eq_some h, hkey h⟩, fun ⟨hx, hk⟩ => ?_⟩
  have hfound : (s.find? k).isSome = true :=
    List.find?_isSome.mpr ⟨x, hx, beq_iff_eq.mpr (Std.compare_eq_iff_eq.mpr hk)⟩
  obtain ⟨y, hy⟩ := Option.isSome_iff_exists.mp hfound
  rw [hy, eq_of_key hx (List.mem_of_find?_eq_some hy) (hk.trans (hkey hy).symm)]

omit [Std.TransOrd κ] in
/-- Nothing is found under a key that was removed, and under any other what was there before. -/
theorem find?_erase (s : Ascending key) (k k' : κ) :
    (s.erase k).find? k' = if compare k k' = .eq then none else s.find? k' := by
  ext x
  have hmem : x ∈ (s.erase k).toList ↔ x ∈ s.toList ∧ key x ≠ k := by
    simp [erase]
  rw [find?_eq_some_iff, hmem]
  split
  · next heq =>
      rw [Std.compare_eq_iff_eq.mp heq]
      simp
  · next hne =>
      rw [find?_eq_some_iff, and_assoc, and_congr_right_iff]
      refine fun _ => ⟨And.right, fun hkey => ⟨fun hk => ?_, hkey⟩⟩
      exact hne (Std.compare_eq_iff_eq.mpr (hk.symm.trans hkey))

/-- Collections in which the same is found are equal. -/
theorem ext_of_find? {s t : Ascending key} (h : ∀ k, s.find? k = t.find? k) : s = t := by
  have hmem (x : β) : x ∈ s.toList ↔ x ∈ t.toList := by
    have hs := find?_eq_some_iff (s := s) (k := key x) (x := x)
    have ht := find?_eq_some_iff (s := t) (k := key x) (x := x)
    rw [h] at hs
    simpa using hs.symm.trans ht
  have hperm := (List.perm_ext_iff_of_nodup s.nodup_toList t.nodup_toList).mpr hmem
  refine ext (hperm.eq_of_pairwise ?_ s.ascending t.ascending)
  intro a b _ _ hab hba
  rw [Std.OrientedCmp.gt_of_lt hba] at hab
  cases hab

end Ascending

end Ascending

end ArchiveDeposit

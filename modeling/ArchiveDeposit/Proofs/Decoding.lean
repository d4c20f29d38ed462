import ArchiveDeposit.Persisted.Decoder
import ArchiveDeposit.Proofs.RecordChange

/-!
# Decoding what was written

Encoding leaves out the fields that are absent, and decoding takes a missing field for an absent
one.  Of what is written, every field is known and none stands twice, so each is found again; and a
value that is not absent is not written as null, so it is not mistaken for an absent one.

Of a value that is read nothing is known but that its parts were read, each from some part of the
stored form.

**Results.**
* `Json.field?_of_lookup`, `Json.field?_of_lookup_eq_map`: fields that are written are found.
* `Json.decodeObject_of_written`: an object is made of the fields that are written.
* `Json.eq_ok_of_decodeObject`: whatever is made of an object is made of its parts.
-/

namespace ArchiveDeposit

section Decoding

namespace Json

variable {α β : Type} {decode : Decoder α} {encode : α → Json} {name : String}
  {fields : List (String × Json)} {known : List String}

theorem source_object (fields : List (String × Json)) :
    source (.object fields) = .object (sourceFields fields) := rfl

/-- Among fields of other names none has the name, wherever they are counted from. -/
theorem filter_zipIdx_eq_nil (h : ∀ f ∈ fields, f.1 ≠ name) (start : Nat) :
    ((sourceFields fields).zipIdx start).filter (fun f => f.1.1 == some name) = [] := by
  refine List.filter_eq_nil_iff.mpr fun f hf => ?_
  have hmem := List.fst_mem_of_mem_zipIdx hf
  rw [sourceFields_eq_map] at hmem
  obtain ⟨g, hg, heq⟩ := List.mem_map.mp hmem
  rw [← heq, beq_iff_eq, Option.some.injEq]
  exact h g hg

theorem named_eq_nil (h : ∀ f ∈ fields, f.1 ≠ name) : named (sourceFields fields) name = [] :=
  List.map_eq_nil_iff.mpr (filter_zipIdx_eq_nil h 0)

/-- A field of names that do not repeat is the only one with its name. -/
theorem named_eq_singleton (hdistinct : (fields.map Prod.fst).Nodup) {j : Json}
    (h : (name, j) ∈ fields) : ∃ i, named (sourceFields fields) name = [(source j, i)] := by
  obtain ⟨front, back, rfl⟩ := List.append_of_mem h
  rw [List.map_append, List.map_cons, List.nodup_append] at hdistinct
  obtain ⟨_, hback, hbetween⟩ := hdistinct
  have hfrontNames : ∀ f ∈ front, f.1 ≠ name := fun f hf =>
    hbetween f.1 (List.mem_map_of_mem hf) name List.mem_cons_self
  have hbackNames : ∀ f ∈ back, f.1 ≠ name := by
    intro f hf hname
    have hmem : f.1 ∈ back.map Prod.fst := List.mem_map_of_mem hf
    exact (List.nodup_cons.mp hback).1 (hname ▸ hmem)
  refine ⟨front.length, ?_⟩
  have hsplit : sourceFields (front ++ (name, j) :: back) =
      sourceFields front ++ (some name, source j) :: sourceFields back := by
    simp only [sourceFields_eq_map, List.map_append, List.map_cons]
  have hlength : (sourceFields front).length = front.length := by
    rw [sourceFields_eq_map, List.length_map]
  rw [named, hsplit, List.zipIdx_append, List.zipIdx_cons, List.filter_append,
    filter_zipIdx_eq_nil hfrontNames, List.nil_append, List.filter_cons_of_pos (by simp),
    filter_zipIdx_eq_nil hbackNames, hlength, Nat.zero_add]
  rfl

/-- A field that was written is read if its value is. -/
theorem field?_of_lookup (hdistinct : (fields.map Prod.fst).Nodup) {j : Json}
    (hlookup : fields.lookup name = some j) {x : α} (hdecode : decode j = .ok x) :
    field? name decode (sourceFields fields) = .ok (some x) := by
  obtain ⟨front, back, hfields, _⟩ := List.lookup_eq_some_iff.mp hlookup
  have hmem : (name, j) ∈ fields := by simp [hfields]
  obtain ⟨i, hnamed⟩ := named_eq_singleton hdistinct hmem
  simp only [field?, hnamed, hdecode]

theorem field?_of_lookup_eq_none (hlookup : fields.lookup name = none) :
    field? name decode (sourceFields fields) = .ok none := by
  have habsent : ∀ f ∈ fields, f.1 ≠ name := fun f hf hname => by
    have hne := List.lookup_eq_none_iff.mp hlookup f hf
    simp [hname] at hne
  simp only [field?, named_eq_nil habsent]

/-- A value that is not absent is not read as an absent one. -/
theorem decodeOptional_of_ok {j : Source} {x : α} (hnull : ∀ y, decode .null ≠ .ok y)
    (hdecode : decode j = .ok x) : decodeOptional decode j = .ok (some x) := by
  cases j with
  | null => exact absurd hdecode (hnull x)
  | _ => simp only [decodeOptional, hdecode, Except.map]

/-- A value that is written as null where it is absent. -/
theorem decodeOptional_ofOption (hnull : ∀ y, decode .null ≠ .ok y)
    (hdecode : ∀ x, decode (encode x) = .ok x) (value : Option α) :
    decodeOptional decode (ofOption encode value) = .ok value := by
  cases value with
  | none => rfl
  | some x => exact decodeOptional_of_ok hnull (hdecode x)

@[simp] theorem lookup_optionalField (key : String) (value : Option α) :
    (optionalField name encode value).lookup key =
      if key = name then value.map encode else none := by
  cases value with
  | none => simp [optionalField]
  | some x =>
      by_cases hkey : key = name
      · simp [optionalField, hkey]
      · have hbeq : (key == name) = false := beq_eq_false_iff_ne.mpr hkey
        simp [optionalField, List.lookup_cons, hbeq, hkey]

/-- A field that is left out where its value is absent. -/
theorem field?_of_lookup_eq_map (value : Option α) (hdistinct : (fields.map Prod.fst).Nodup)
    (hlookup : fields.lookup name = value.map encode) (hnull : ∀ y, decode .null ≠ .ok y)
    (hdecode : ∀ x ∈ value, decode (encode x) = .ok x) :
    field? name (decodeOptional decode) (sourceFields fields) = .ok (value.map some) := by
  cases value with
  | none => exact field?_of_lookup_eq_none hlookup
  | some x => exact field?_of_lookup hdistinct hlookup (decodeOptional_of_ok hnull (hdecode x rfl))

theorem join_map_some (value : Option α) : (value.map some).join = value := by
  cases value <;> rfl

theorem names_optionalField (value : Option α) :
    ((optionalField name encode value).map Prod.fst).Sublist [name] := by
  cases value with
  | none => exact List.nil_sublist _
  | some x => exact List.Sublist.refl _

theorem others_of_known {skip : Bool} (h : ∀ f ∈ fields, f.1 ∈ known) :
    others known skip (sourceFields fields) = .ok () := by
  unfold others
  dsimp only
  rw [List.find?_eq_none.mpr]
  intro f hf
  have hmem := List.fst_mem_of_mem_zipIdx hf
  rw [sourceFields_eq_map] at hmem
  obtain ⟨g, hg, heq⟩ := List.mem_map.mp hmem
  simp [← heq, h g hg]

theorem Fields.and_of_ok {a : Fields α} {b : Fields β} {x : α} {y : β} (ha : a = .ok x)
    (hb : b = .ok y) : a.and b = .ok (x, y) := by
  rw [ha, hb]
  rfl

/-- Of an object whose fields are among the known ones, in their order, all parts are read. -/
theorem decodeObject_of_written {parts : SourceFields → Fields α} {make : α → Decoded β} {x : α}
    (hwritten : (fields.map Prod.fst).Sublist known)
    (hparts : parts (sourceFields fields) = .ok x) :
    decodeObject known true parts make (source (.object fields)) = make x := by
  have hknown : ∀ f ∈ fields, f.1 ∈ known := fun f hf =>
    hwritten.subset (List.mem_map_of_mem hf)
  simp only [decodeObject, source_object, fields?,
    Fields.and_of_ok hparts (others_of_known hknown)]

theorem decodeList_ofList {l : List α} (h : ∀ x ∈ l, decode (encode x) = .ok x) :
    decodeList decode (ofList encode l) = .ok l := by
  change decodeItems decode (sourceItems (l.map encode)) = .ok l
  rw [sourceItems_eq_map]
  exact decodeItems_map l h

theorem decodeBelow_natCast {bound n : Nat} (h : n < bound) :
    decodeBelow bound (.integer n) = .ok n := by
  have hrange : (0 : Int) ≤ n ∧ (n : Int) < bound := ⟨Int.natCast_nonneg n, Int.ofNat_lt.mpr h⟩
  simp only [decodeBelow, if_pos hrange, Int.toNat_natCast]

theorem decodeVariant_name {ofName? : String → Option α} {x : α} (h : ofName? name = some x) :
    decodeVariant ofName? (source (.string name)) = .ok x := by
  simp only [source, decodeVariant, Option.bind_some, h, present]

theorem Fields.eq_ok_of_and {a : Fields α} {b : Fields β} {x : α} {y : β}
    (h : a.and b = .ok (x, y)) : a = .ok x ∧ b = .ok y := by
  cases a with
  | error e => cases b <;> cases h
  | ok x' =>
      cases b with
      | error e => cases h
      | ok y' =>
          cases h
          exact ⟨rfl, rfl⟩

/-- What is made of an object is made of its parts. -/
theorem eq_ok_of_decodeObject {skip : Bool} {parts : SourceFields → Fields α}
    {make : α → Decoded β} {j : Source} {y : β}
    (h : decodeObject known skip parts make j = .ok y) :
    ∃ fields x, parts fields = .ok x ∧ make x = .ok y := by
  unfold decodeObject at h
  split at h
  · cases h
  · next fields _ =>
      split at h
      · cases h
      · next x _ hparts => exact ⟨fields, x, (Fields.eq_ok_of_and hparts).1, h⟩

theorem exists_of_field? {fields : SourceFields} {x : α}
    (h : field? name decode fields = .ok (some x)) : ∃ j, decode j = .ok x := by
  unfold field? at h
  split at h
  · cases h
  · next j _ _ _ =>
      split at h
      · cases h
      · next y hdecode _ =>
          cases h
          exact ⟨j, hdecode⟩
      · cases h

theorem eq_ok_of_decodeOptional {j : Source} {x : α} (h : decodeOptional decode j = .ok (some x)) :
    decode j = .ok x := by
  unfold decodeOptional at h
  split at h
  · cases h
  · obtain ⟨y, hdecode, hsome⟩ := eq_ok_of_map h
    rwa [Option.some.inj hsome] at hdecode

theorem exists_of_mem_decodeItems {items : List Source} {l : List α}
    (h : decodeItems decode items = .ok l) : ∀ x ∈ l, ∃ j, decode j = .ok x := by
  induction items generalizing l with
  | nil =>
      cases h
      exact fun x hx => (nomatch hx)
  | cons j rest ih =>
      rw [decodeItems] at h
      cases hdecode : decode j with
      | error e =>
          rw [hdecode] at h
          cases h
      | ok y =>
          rw [hdecode] at h
          obtain ⟨ys, hrest, rfl⟩ := eq_ok_of_map h
          intro x hx
          rcases List.mem_cons.mp hx with rfl | hx
          · exact ⟨j, hdecode⟩
          · exact ih hrest x hx

theorem exists_of_mem_decodeList {j : Source} {l : List α} (h : decodeList decode j = .ok l) :
    ∀ x ∈ l, ∃ i, decode i = .ok x := by
  cases j with
  | array items => exact exists_of_mem_decodeItems h
  | _ => cases h

theorem eq_ok_of_present {value : Option α} {make : α → Decoded β} {y : β}
    (h : (present value >>= make) = .ok y) : ∃ x, value = some x ∧ make x = .ok y := by
  cases value with
  | none => cases h
  | some x => exact ⟨x, rfl, h⟩

theorem lt_of_decodeBelow {bound n : Nat} {j : Source} (h : decodeBelow bound j = .ok n) :
    n < bound := by
  unfold decodeBelow at h
  split at h
  · split at h
    · next m hrange =>
        cases h
        omega
    · cases h
  · cases h

end Json

end Decoding

end ArchiveDeposit

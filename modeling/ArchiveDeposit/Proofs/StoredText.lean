import ArchiveDeposit.Proofs.JsonText
import ArchiveDeposit.Proofs.StoredObservation

/-!
# Observations and boards as texts

What is stored of an observation and of a board of reports is plain: its only numbers are
identifiers, numbers of files and counts, which are words.  So the text that is stored is read as
the observation or the board that it was printed from.

**Results.**
* `Observation.Storable.decodeText_toJson`: the text of an observation holds the observation.
* `SignalBoard.decodeText_toJson`: the text of a board holds the board.
-/

namespace ArchiveDeposit

open Json

section StoredText

namespace Json

/-- A number of at most 64 bits is kept. -/
theorem Plain.natCast {n : Nat} (h : n < UInt64.size) : Plain (.integer n) := by
  refine .integer (Int.le_trans (by decide) (Int.natCast_nonneg n)) ?_
  have hsize : (UInt64.size : Int) - 1 = integerRange.2 := by decide
  omega

theorem Plain.word (n : UInt32) : Plain (.integer n.toNat) :=
  .natCast (Nat.lt_trans n.toNat_lt (by decide))

theorem Plain.ofList {α : Type} {encode : α → Json} {l : List α} (h : ∀ x ∈ l, Plain (encode x)) :
    Plain (ofList encode l) :=
  .array fun j hj => by
    obtain ⟨x, hx, rfl⟩ := List.mem_map.mp hj
    exact h x hx

theorem Plain.ofOption {α : Type} {encode : α → Json} {value : Option α}
    (h : ∀ x ∈ value, Plain (encode x)) : Plain (ofOption encode value) := by
  cases value with
  | none => exact .null
  | some x => exact h x rfl

/-- Fields whose values are all plain. -/
def PlainFields (fields : List (String × Json)) : Prop := ∀ f ∈ fields, Plain f.2

theorem Plain.fields {fields : List (String × Json)} (h : PlainFields fields) :
    Plain (.object fields) := .object h

theorem PlainFields.nil : PlainFields [] := fun _ hf => nomatch hf

theorem PlainFields.cons {name : String} {value : Json} {fields : List (String × Json)}
    (hvalue : Plain value) (hfields : PlainFields fields) :
    PlainFields ((name, value) :: fields) :=
  List.forall_mem_cons.mpr ⟨hvalue, hfields⟩

theorem PlainFields.append {front back : List (String × Json)} (hfront : PlainFields front)
    (hback : PlainFields back) : PlainFields (front ++ back) :=
  List.forall_mem_append.mpr ⟨hfront, hback⟩

theorem PlainFields.optionalField {α : Type} {name : String} {encode : α → Json}
    {value : Option α} (h : ∀ x ∈ value, Plain (encode x)) :
    PlainFields (optionalField name encode value) := by
  cases value with
  | none => exact .nil
  | some x => exact .cons (h x rfl) .nil

end Json

theorem Parent.plain_toJson (p : Parent) : Plain p.toJson := by
  cases p with
  | observation sbid => exact .fields (.cons (.word _) .nil)
  | level7Collection id => exact .fields (.cons (.natCast id.value.toNat_lt) .nil)

theorem Owner.plain_toJson (owner : Owner) : Plain owner.toJson := by
  cases owner with
  | observation sbid => exact .fields (.cons (.word _) .nil)
  | level7Collection id => exact .fields (.cons (.natCast id.value.toNat_lt) .nil)
  | artefact parent filename =>
      refine .fields (.cons (.fields (.cons ?_ (.cons (.string _) .nil))) .nil)
      exact .ofOption fun p _ => p.plain_toJson

theorem DepositState.plain_toJson (s : DepositState) : Plain s.toJson :=
  .fields (.cons (.string _) (.cons (.string _) (.cons s.owner.plain_toJson .nil)))

theorem DepositRecord.plain_toJson (r : DepositRecord) : Plain r.toJson :=
  .fields (.append (.cons r.state.plain_toJson (.cons (.word _) .nil))
    (.optionalField fun _ _ => .string _))

theorem ArtefactId.plain_toJson {id : ArtefactId} (h : id.IsWord) : Plain id.toJson :=
  .natCast (Nat.lt_trans h (by decide))

theorem Artefact.plain_toJson {a : Artefact} (h : a.HasWords) : Plain a.toJson :=
  .fields <| .append
    (.append
      (.cons (ArtefactId.plain_toJson h.id) <| .cons (.string _) <| .cons (.string _) <|
        .cons (.ofOption fun p _ => p.plain_toJson) .nil)
      (.optionalField fun id hid => ArtefactId.plain_toJson (h.encapsulation id hid)))
    (.cons a.record.plain_toJson .nil)

/-- The files of a parent, as few as there are words, have words for numbers. -/
theorem Siblings.hasWords {parent : Parent} {artefacts : List Artefact}
    (h : Siblings parent artefacts) (hfew : artefacts.length ≤ UInt32.size) :
    ∀ a ∈ artefacts, a.HasWords := by
  have hid (a : Artefact) (ha : a ∈ artefacts) : a.id.index < artefacts.length := by
    obtain ⟨i, hi⟩ := List.mem_iff_getElem?.mp ha
    rw [h.numbered i a hi]
    exact (List.getElem?_eq_some_iff.mp hi).1
  intro a ha
  have hlt := hid a ha
  refine ⟨Nat.lt_of_lt_of_le hlt hfew, fun packed hpacked => ?_⟩
  exact Nat.lt_of_lt_of_le (Nat.lt_trans (h.packed a ha packed hpacked).1 hlt) hfew

namespace Observation

variable {o : Observation}

/-- Whether all of the observation is stored: its numbers are words, and its times are of the
calendar. -/
structure Storable (o : Observation) : Prop where
  words : ∀ a ∈ o.artefacts, a.HasWords
  times : o.InCalendar

theorem plain_toJson (h : ∀ a ∈ o.artefacts, a.HasWords) : Plain o.toJson :=
  .fields <| .append
    (.append
      (.append
        (.cons (.word _) <| .cons o.record.plain_toJson .nil)
        (.optionalField fun _ _ => .string _))
      (.optionalField fun _ _ => .string _))
    (.cons (.ofList fun a ha => Artefact.plain_toJson (h a ha)) .nil)

/-- The text of an observation holds the observation. -/
theorem Storable.decodeText_toJson (h : o.Storable) :
    decodeText ofJson o.toJson.pretty = .ok o := by
  rw [decodeText_pretty ofJson (plain_toJson h.words)]
  exact ofJson_toJson_of_inCalendar h.words h.times

end Observation

namespace SignalBoard

theorem plain_reports (reports : List Signal) :
    Plain (.object [("completed", Json.ofList Signal.toJson reports)]) := by
  have hsignal (s : Signal) : Plain s.toJson :=
    .array <| List.forall_mem_cons.mpr ⟨s.owner.plain_toJson,
      List.forall_mem_singleton.mpr (.string s.stage.name)⟩
  exact .fields (.cons (.ofList fun s _ => hsignal s) .nil)

/-- A text that lists reports, in any order and repeated or not, holds the board of them. -/
theorem decodeText_reports (reports : List Signal) :
    decodeText ofJson (Json.object [("completed", Json.ofList Signal.toJson reports)]).pretty =
      .ok (Ascending.ofList reports) := by
  rw [decodeText_pretty ofJson (plain_reports reports)]
  exact ofJson_ofList reports

/-- The text of a board holds the board. -/
theorem decodeText_toJson (board : SignalBoard) :
    decodeText ofJson board.toJson.pretty = .ok board :=
  (decodeText_reports board.toList).trans (congrArg Except.ok board.ofList_toList)

end SignalBoard

end StoredText

end ArchiveDeposit

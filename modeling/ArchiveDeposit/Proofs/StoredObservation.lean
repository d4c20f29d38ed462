import ArchiveDeposit.Persisted.Observation
import ArchiveDeposit.Proofs.FileNumbers
import ArchiveDeposit.Proofs.StoredForm

/-!
# Observations and collections are loaded as they were stored

What is stored of an observation or of a collection is all of it, as long as its numbers are words
and the years of its times have four digits.  The numbers are words because operations give them in
order, while there are any left, and because stored ones are read as words; the years are for the
clock to keep.

Whatever is loaded can be stored again, and is loaded the same from then on: loading has put the
forms that stored data may take into the one that storing writes.

**Results.**
* `Observation.ofJson_toJson`, `Collection.ofJson_toJson`: nothing of them is lost.
* `Observation.hasWords_of_ofJson`, `Collection.hasWords_of_ofJson`: the numbers that are loaded are
  words.
* `loads_as_stored`: both ways, for observations, collections, records and boards.
-/

namespace ArchiveDeposit

open Json

section StoredObservation

/-- Files that are numbered have words for numbers. -/
theorem Artefact.Numbered.hasWords {artefacts : List Artefact} (h : Numbered artefacts) :
    ∀ a ∈ artefacts, a.HasWords := fun a ha =>
  ⟨Nat.lt_of_lt_of_le (h.below a ha).1 h.few,
    fun id hid => Nat.lt_of_lt_of_le ((h.below a ha).2 id hid) h.few⟩

/-- The stored form of a list of files. -/
theorem Artefact.decodeList_toJson {artefacts : List Artefact}
    (hwords : ∀ a ∈ artefacts, a.HasWords) :
    decodeList Artefact.ofJson (ofList Artefact.toJson artefacts) = .ok artefacts :=
  decodeList_ofList fun a ha => Artefact.ofJson_toJson (hwords a ha)

/-- A list of files that was read, or left out. -/
theorem Artefact.hasWords_of_field? {name : String} {fields : SourceFields}
    {artefacts : Option (List Artefact)}
    (h : field? name (decodeList Artefact.ofJson) fields = .ok artefacts) :
    ∀ a ∈ artefacts.getD [], a.HasWords := by
  cases artefacts with
  | none => exact fun a ha => (nomatch ha)
  | some artefacts =>
      intro a ha
      obtain ⟨j, hj⟩ := exists_of_field? h
      obtain ⟨i, hi⟩ := exists_of_mem_decodeList hj a ha
      exact Artefact.hasWords_of_ofJson hi

namespace Observation

variable {o : Observation}

/-- The times of the observation are of years that have four digits and no sign. -/
def HasStoredYears (o : Observation) : Prop :=
  (∀ t ∈ o.started, t.HasStoredYear) ∧ ∀ t ∈ o.completed, t.HasStoredYear

instance (o : Observation) : Decidable o.HasStoredYears := inferInstanceAs (Decidable (_ ∧ _))

/-- The times of the observation are of the calendar of stored data. -/
def InCalendar (o : Observation) : Prop :=
  (∀ t ∈ o.started, t.InCalendar) ∧ ∀ t ∈ o.completed, t.InCalendar

instance (o : Observation) : Decidable o.InCalendar := inferInstanceAs (Decidable (_ ∧ _))

theorem HasStoredYears.inCalendar (h : o.HasStoredYears) : o.InCalendar :=
  ⟨fun t ht => (h.1 t ht).inCalendar, fun t ht => (h.2 t ht).inCalendar⟩

/-- An observation that was stored is read again, as long as its years are of the calendar. -/
theorem ofJson_toJson_of_inCalendar (hwords : ∀ a ∈ o.artefacts, a.HasWords)
    (hyears : o.InCalendar) : ofJson o.toJson = .ok o := by
  have hwritten : (([("sbid", o.sbid.toJson), ("record", o.record.toJson)] ++
    optionalField "deposit_started" Timestamp.toJson o.started ++
    optionalField "deposit_completed" Timestamp.toJson o.completed ++
    [("artefacts", ofList Artefact.toJson o.artefacts)]).map Prod.fst).Sublist
      ["sbid", "record", "deposit_started", "deposit_completed", "artefacts"] := by
    simp only [List.map_append]
    exact (((List.Sublist.refl ["sbid", "record"]).append (names_optionalField _)).append
      (names_optionalField _)).append (List.Sublist.refl ["artefacts"])
  have hdistinct := hwritten.nodup (by decide)
  refine (decodeObject_of_written hwritten
    (Fields.and_of_ok
      (field?_of_lookup hdistinct (by simp) o.sbid.ofJson_toJson) <|
    Fields.and_of_ok
      (field?_of_lookup hdistinct (by simp [List.lookup_cons]) o.record.ofJson_toJson) <|
    Fields.and_of_ok
      (field?_of_lookup_eq_map o.started hdistinct
        (by simp [List.lookup_cons, List.lookup_append]) Timestamp.ofJson_null
        fun t ht => Timestamp.ofJson_toJson (hyears.1 t ht)) <|
    Fields.and_of_ok
      (field?_of_lookup_eq_map o.completed hdistinct
        (by simp [List.lookup_cons, List.lookup_append]) Timestamp.ofJson_null
        fun t ht => Timestamp.ofJson_toJson (hyears.2 t ht))
      (field?_of_lookup hdistinct (by simp [List.lookup_cons, List.lookup_append])
        (Artefact.decodeList_toJson hwords)))).trans ?_
  simp only [join_map_some]
  rfl

theorem ofJson_toJson (hwords : ∀ a ∈ o.artefacts, a.HasWords) (hyears : o.HasStoredYears) :
    ofJson o.toJson = .ok o :=
  ofJson_toJson_of_inCalendar hwords hyears.inCalendar

theorem hasWords_of_ofJson {j : Source} (h : ofJson j = .ok o) :
    ∀ a ∈ o.artefacts, a.HasWords := by
  obtain ⟨fields, ⟨sbid?, record?, started, completed, artefacts⟩, hparts, hmake⟩ :=
    eq_ok_of_decodeObject h
  obtain ⟨sbid, _, hmake⟩ := eq_ok_of_present hmake
  obtain ⟨record, _, hmake⟩ := eq_ok_of_present hmake
  cases hmake
  obtain ⟨_, hparts⟩ := Fields.eq_ok_of_and hparts
  obtain ⟨_, hparts⟩ := Fields.eq_ok_of_and hparts
  obtain ⟨_, hparts⟩ := Fields.eq_ok_of_and hparts
  obtain ⟨_, hartefacts⟩ := Fields.eq_ok_of_and hparts
  exact Artefact.hasWords_of_field? hartefacts

/-- The states of the observation and of its files. -/
def states (o : Observation) : List DepositState := o.state :: o.artefacts.map Artefact.state

end Observation

namespace Collection

variable {c : Collection}

/-- The time of the collection is of a year that has four digits and no sign. -/
def HasStoredYear (c : Collection) : Prop := ∀ t ∈ c.completed, t.HasStoredYear

theorem ofJson_toJson (hwords : ∀ a ∈ c.catalogues, a.HasWords) (hyear : c.HasStoredYear) :
    ofJson c.toJson = .ok c := by
  have hwritten : (([("id", c.id.toJson), ("record", c.record.toJson)] ++
    optionalField "deposit_completed" Timestamp.toJson c.completed ++
    [("catalogues", ofList Artefact.toJson c.catalogues)]).map Prod.fst).Sublist
      ["id", "record", "deposit_completed", "catalogues"] := by
    simp only [List.map_append]
    exact ((List.Sublist.refl ["id", "record"]).append (names_optionalField _)).append
      (List.Sublist.refl ["catalogues"])
  have hdistinct := hwritten.nodup (by decide)
  refine (decodeObject_of_written hwritten
    (Fields.and_of_ok
      (field?_of_lookup hdistinct (by simp) c.id.ofJson_toJson) <|
    Fields.and_of_ok
      (field?_of_lookup hdistinct (by simp [List.lookup_cons]) c.record.ofJson_toJson) <|
    Fields.and_of_ok
      (field?_of_lookup_eq_map c.completed hdistinct
        (by simp [List.lookup_cons, List.lookup_append]) Timestamp.ofJson_null
        fun t ht => Timestamp.ofJson_toJson (hyear t ht).inCalendar)
      (field?_of_lookup hdistinct (by simp [List.lookup_cons, List.lookup_append])
        (Artefact.decodeList_toJson hwords)))).trans ?_
  simp only [join_map_some]
  rfl

theorem hasWords_of_ofJson {j : Source} (h : ofJson j = .ok c) :
    ∀ a ∈ c.catalogues, a.HasWords := by
  obtain ⟨fields, ⟨id?, record?, completed, catalogues⟩, hparts, hmake⟩ :=
    eq_ok_of_decodeObject h
  obtain ⟨id, _, hmake⟩ := eq_ok_of_present hmake
  obtain ⟨record, _, hmake⟩ := eq_ok_of_present hmake
  cases hmake
  obtain ⟨_, hparts⟩ := Fields.eq_ok_of_and hparts
  obtain ⟨_, hparts⟩ := Fields.eq_ok_of_and hparts
  obtain ⟨_, hcatalogues⟩ := Fields.eq_ok_of_and hparts
  exact Artefact.hasWords_of_field? hcatalogues

/-- The states of the collection and of its catalogues. -/
def states (c : Collection) : List DepositState := c.state :: c.catalogues.map Artefact.state

end Collection

/-- What is stored is loaded as it was: every observation and every collection that operations lead to,
with any factories, whose times are of the years 0 to 9999, every record and every signal board.
And whatever is loaded from a stored form, in which fields may be missing, unknown or in another
order, holds states of their lifecycles only, and is loaded again as it was. -/
theorem loads_as_stored :
    (∀ o : Observation, o.Assembled → o.HasStoredYears → Observation.ofJson o.toJson = .ok o) ∧
    (∀ c : Collection, c.Assembled → c.HasStoredYear → Collection.ofJson c.toJson = .ok c) ∧
    (∀ r : DepositRecord, DepositRecord.ofJson r.toJson = .ok r) ∧
    (∀ board : SignalBoard, SignalBoard.ofJson board.toJson = .ok board) ∧
    (∀ (j : Source) (o : Observation), Observation.ofJson j = .ok o → o.HasStoredYears →
      (∀ s ∈ o.states, s.lifecycle.accepts s.stage = true) ∧
        Observation.ofJson o.toJson = .ok o) ∧
    (∀ (j : Source) (c : Collection), Collection.ofJson j = .ok c → c.HasStoredYear →
      (∀ s ∈ c.states, s.lifecycle.accepts s.stage = true) ∧
        Collection.ofJson c.toJson = .ok c) ∧
    (∀ (j : Source) (r : DepositRecord), DepositRecord.ofJson j = .ok r →
      r.state.lifecycle.accepts r.state.stage = true ∧ DepositRecord.ofJson r.toJson = .ok r) ∧
    (∀ (j : Source) (board : SignalBoard), SignalBoard.ofJson j = .ok board →
      SignalBoard.ofJson board.toJson = .ok board) := by
  refine ⟨?_, ?_, DepositRecord.ofJson_toJson, SignalBoard.ofJson_toJson, ?_, ?_, ?_, ?_⟩
  · intro o hassembled hyears
    exact Observation.ofJson_toJson hassembled.numbered.hasWords hyears
  · intro c hassembled hyear
    exact Collection.ofJson_toJson hassembled.numbered.hasWords hyear
  · intro j o hloaded hyears
    exact ⟨fun s _ => s.accepted,
      Observation.ofJson_toJson (Observation.hasWords_of_ofJson hloaded) hyears⟩
  · intro j c hloaded hyear
    exact ⟨fun s _ => s.accepted,
      Collection.ofJson_toJson (Collection.hasWords_of_ofJson hloaded) hyear⟩
  · intro j r _
    exact ⟨r.state.accepted, r.ofJson_toJson⟩
  · intro j board _
    exact board.ofJson_toJson

/-- An observation on the lifecycle of files, with a spectrum on that of collections, both of which
have failed, the observation in the last second that can be stored; and another that is loaded from
a form without its usual order, with a checkpoint of no use, a time in another zone, and a file that
has neither a parent nor the number of its place. -/
theorem loads_as_stored_unusual :
    ∃ (built loaded : Observation) (j : Source),
      built.Assembled ∧ built.HasStoredYears ∧
        built.record.checkpoint = some .processing ∧
        Observation.ofJson built.toJson = .ok built ∧
      Observation.ofJson j = .ok loaded ∧ loaded.HasStoredYears ∧
        (∀ s ∈ loaded.states, s.lifecycle.accepts s.stage = true) ∧
        Observation.ofJson loaded.toJson = .ok loaded := by
  let factory := (Factory.empty.register .observation .standard).register .spectrum .level7Collection
  let now : Timestamp := ⟨⟨9999, 12, 31, by decide⟩, 86399, 1999999999, by decide, by decide⟩
  let spectrum : Artefact :=
    ⟨⟨0⟩, .spectrum, "spéctre ☉", some (.observation ⟨7⟩), none,
      .new (.initial .level7Collection (.artefact (some (.observation ⟨7⟩)) "spéctre ☉"))⟩
  let empty : Observation := ⟨⟨7⟩, .new (.initial .standard (.observation ⟨7⟩)), none, none, []⟩
  let operations : List Operation :=
    [.setArtefactStage ⟨0⟩ .invalid, .advance .processing, .advance .failed]
  let built := Observation.performEach now (empty.withArtefacts [spectrum]) operations
  let loaded : Observation :=
    ⟨⟨7⟩, ⟨⟨.failed, .observation, .observation ⟨7⟩, by decide⟩, 3, some .valid⟩,
      some ⟨⟨2024, 3, 1, by decide⟩, 3600, 500000000, by decide, by decide⟩, none,
      [⟨⟨41⟩, .imageCube, "données", none, none,
        ⟨⟨.staged, .archived, .artefact none "données", by decide⟩, 0, none⟩⟩]⟩
  let owner := Json.object [("artefact", .object [("filename", .string "données")])]
  let file := Json.object
    [("record", .object [("checkpoint", .null), ("state", .object [("owner", owner),
        ("type", .string "STAGED"), ("lifecycle", .string "archived")])]),
      ("filename", .string "données"), ("kind", .string "image_cube"), ("id", .integer 41)]
  let j := Json.object
    [("artefacts", .array [file]),
      ("record", .object [("failure_count", .integer 3), ("state", .object
        [("lifecycle", .string "observation"), ("type", .string "FAILED"),
          ("owner", .object [("observation", .integer 7)])]), ("checkpoint", .string "VALID")]),
      ("remark", .array [.null]), ("sbid", .integer 7),
      ("deposit_started", .string "2024-02-29T23:30:00.5-01:30")]
  have hnew : Observation.new ⟨7⟩ factory = .ok empty := rfl
  have hadd : empty.add factory .spectrum "spéctre ☉" =
      .ok (empty.withArtefacts [spectrum], ⟨0⟩) := rfl
  have hassembled : built.Assembled :=
    (((Observation.Assembled.new hnew).add (by decide) hadd).perform rfl now).perform rfl now
      |>.perform rfl now
  have hyears : built.HasStoredYears := by decide +kernel
  have hcheckpoint : built.record.checkpoint = some .processing := by decide +kernel
  have hloaded : Observation.ofJson j = .ok loaded := by rfl
  have hloadedYears : loaded.HasStoredYears := by decide
  obtain ⟨hbuilt, _, _, _, hreloaded, _⟩ := loads_as_stored
  obtain ⟨haccepted, hagain⟩ := hreloaded j loaded hloaded hloadedYears
  exact ⟨built, loaded, j, hassembled, hyears, hcheckpoint, hbuilt built hassembled hyears, hloaded,
    hloadedYears, haccepted, hagain⟩

end StoredObservation

end ArchiveDeposit

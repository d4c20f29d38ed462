import ArchiveDeposit.Persisted.Record
import ArchiveDeposit.Proofs.Decoding
import ArchiveDeposit.Proofs.StoredTime

/-!
# The parts of stored data are read back

Owners, states, records, files and signal boards are read as they were written.  A file has numbers
of its own, which have to be words for that.

Reading takes more than is written, and whatever it takes can be written again: a stage is checked
against its lifecycle, a number is a word, and the reports of a board are put in order.

**Results.**
* `Owner.ofJson_toJson`, `DepositRecord.ofJson_toJson`, `SignalBoard.ofJson_toJson`: nothing that
  these hold is lost.
* `DepositState.ofJson_foreign`: a stage of another lifecycle is refused.
* `SignalBoard.ofJson_ofList`, `SignalBoard.isComplete_ofList`: reports may be stored in any order.
* `Artefact.ofJson_toJson`, `Artefact.hasWords_of_ofJson`: files are read back if their numbers are
  words, and those of a file that was read are.
-/

namespace ArchiveDeposit

section StoredForm

open Json

theorem Stage.ofJson_toJson (s : Stage) : ofJson s.toJson = .ok s :=
  decodeVariant_name s.ofName?_name

theorem Stage.ofJson_null (s : Stage) : ofJson .null ≠ .ok s := nofun

theorem Lifecycle.ofJson_toJson (l : Lifecycle) : ofJson l.toJson = .ok l :=
  decodeVariant_name l.ofName?_name

theorem Kind.ofJson_toJson (k : Kind) : ofJson k.toJson = .ok k :=
  decodeVariant_name k.ofName?_name

theorem Timestamp.ofJson_toJson {t : Timestamp} (h : t.InCalendar) : ofJson t.toJson = .ok t := by
  simp only [toJson, source, ofJson, decodeName, Option.bind_some, ofStored?_storedText h, present]

theorem Timestamp.ofJson_null (t : Timestamp) : ofJson .null ≠ .ok t := nofun

theorem Sbid.ofJson_toJson (id : Sbid) : ofJson id.toJson = .ok id := by
  have hvalue : decodeWord id.toJson = .ok id.value.toNat :=
    decodeBelow_natCast id.value.toNat_lt_size
  rw [ofJson, hvalue, Except.map, UInt32.ofNat_toNat]

theorem CollectionId.ofJson_toJson (id : CollectionId) : ofJson id.toJson = .ok id := by
  have hvalue : decodeBelow UInt64.size id.toJson = .ok id.value.toNat :=
    decodeBelow_natCast id.value.toNat_lt_size
  rw [ofJson, hvalue, Except.map, UInt64.ofNat_toNat]

/-- A number of 32 bits. -/
def ArtefactId.IsWord (id : ArtefactId) : Prop := id.index < UInt32.size

theorem ArtefactId.ofJson_toJson {id : ArtefactId} (h : id.IsWord) : ofJson id.toJson = .ok id := by
  have hvalue : decodeWord id.toJson = .ok id.index := decodeBelow_natCast h
  rw [ofJson, hvalue, Except.map]

theorem ArtefactId.ofJson_null (id : ArtefactId) : ofJson .null ≠ .ok id := nofun

theorem ArtefactId.isWord_of_ofJson {j : Source} {id : ArtefactId} (h : ofJson j = .ok id) :
    id.IsWord := by
  obtain ⟨n, hvalue, rfl⟩ := eq_ok_of_map h
  exact lt_of_decodeBelow hvalue

theorem Parent.ofJson_toJson (parent : Parent) : ofJson parent.toJson = .ok parent := by
  cases parent with
  | observation sbid =>
      have hread : ofJson (toJson (.observation sbid)) =
          (Sbid.ofJson sbid.toJson).map Parent.observation := rfl
      rw [hread, sbid.ofJson_toJson, Except.map]
  | level7Collection id =>
      have hread : ofJson (toJson (.level7Collection id)) =
          (CollectionId.ofJson id.toJson).map Parent.level7Collection := rfl
      rw [hread, id.ofJson_toJson, Except.map]

theorem Parent.ofJson_null (parent : Parent) : ofJson .null ≠ .ok parent := nofun

/-- The stored form of a parent that may be absent. -/
theorem Parent.decodeOptional_toJson (parent : Option Parent) :
    decodeOptional Parent.ofJson (ofOption Parent.toJson parent) = .ok parent :=
  decodeOptional_ofOption Parent.ofJson_null Parent.ofJson_toJson parent

theorem Owner.fileOfJson_of_artefact (parent : Option Parent) (filename : String) :
    fileOfJson (Json.object [("parent", ofOption Parent.toJson parent),
      ("filename", .string filename)]) = .ok (.artefact parent filename) := by
  have hwritten : ([("parent", ofOption Parent.toJson parent),
      ("filename", Json.string filename)].map Prod.fst).Sublist ["parent", "filename"] :=
    List.Sublist.refl _
  have hdistinct := hwritten.nodup (by decide)
  have hfilename : decodeString (Json.string filename) = .ok filename := rfl
  refine (decodeObject_of_written hwritten
    (Fields.and_of_ok
      (field?_of_lookup hdistinct (by simp) (Parent.decodeOptional_toJson parent))
      (field?_of_lookup hdistinct (by simp [List.lookup_cons]) hfilename))).trans ?_
  rfl

theorem Owner.ofJson_toJson (owner : Owner) : ofJson owner.toJson = .ok owner := by
  cases owner with
  | observation sbid =>
      have hread : ofJson (toJson (.observation sbid)) =
          (Sbid.ofJson sbid.toJson).map Owner.observation := rfl
      rw [hread, sbid.ofJson_toJson, Except.map]
  | level7Collection id =>
      have hread : ofJson (toJson (.level7Collection id)) =
          (CollectionId.ofJson id.toJson).map Owner.level7Collection := rfl
      rw [hread, id.ofJson_toJson, Except.map]
  | artefact parent filename => exact fileOfJson_of_artefact parent filename

/-- A state is made of the parts that are stored. -/
theorem DepositState.ofJson_parts (stage : Stage) (lifecycle : Lifecycle) (owner : Owner) :
    ofJson (Json.object [("type", stage.toJson), ("lifecycle", lifecycle.toJson),
      ("owner", owner.toJson)]) = ofParts stage lifecycle owner := by
  have hwritten : ([("type", stage.toJson), ("lifecycle", lifecycle.toJson),
      ("owner", owner.toJson)].map Prod.fst).Sublist ["type", "lifecycle", "owner"] :=
    List.Sublist.refl _
  have hdistinct := hwritten.nodup (by decide)
  refine (decodeObject_of_written hwritten
    (Fields.and_of_ok
      (field?_of_lookup hdistinct (by simp) stage.ofJson_toJson) <|
    Fields.and_of_ok
      (field?_of_lookup hdistinct (by simp [List.lookup_cons]) lifecycle.ofJson_toJson)
      (field?_of_lookup hdistinct (by simp [List.lookup_cons]) owner.ofJson_toJson))).trans ?_
  rfl

theorem DepositState.ofJson_toJson (s : DepositState) : ofJson s.toJson = .ok s := by
  have hparts : ofParts s.stage s.lifecycle s.owner = .ok s := by
    rw [ofParts, ofStage, dif_pos s.accepted]
    rfl
  exact (ofJson_parts s.stage s.lifecycle s.owner).trans hparts

/-- A stored stage of another lifecycle makes no state, and the failure says so. -/
theorem DepositState.ofJson_foreign {stage : Stage} {lifecycle : Lifecycle}
    (hforeign : lifecycle.accepts stage = false) (owner : Owner) :
    ofJson (Json.object [("type", stage.toJson), ("lifecycle", lifecycle.toJson),
      ("owner", owner.toJson)]) = .error (.refused (.foreignStage lifecycle stage)) := by
  rw [ofJson_parts, ofParts, ofStage, dif_neg (by simp [hforeign])]
  rfl

theorem DepositRecord.ofJson_toJson (r : DepositRecord) : ofJson r.toJson = .ok r := by
  have hwritten : (([("state", r.state.toJson), ("failure_count", .ofNat r.failureCount.toNat)] ++
      optionalField "checkpoint" Stage.toJson r.checkpoint).map Prod.fst).Sublist
        ["state", "failure_count", "checkpoint"] := by
    rw [List.map_append]
    exact (List.Sublist.refl ["state", "failure_count"]).append (names_optionalField _)
  have hdistinct := hwritten.nodup (by decide)
  have hcount : decodeWord (Json.ofNat r.failureCount.toNat) = .ok r.failureCount.toNat :=
    decodeBelow_natCast r.failureCount.toNat_lt_size
  refine (decodeObject_of_written hwritten
    (Fields.and_of_ok
      (field?_of_lookup hdistinct (by simp) r.state.ofJson_toJson) <|
    Fields.and_of_ok
      (field?_of_lookup hdistinct (by simp [List.lookup_cons]) hcount)
      (field?_of_lookup_eq_map r.checkpoint hdistinct (by simp [List.lookup_cons])
        Stage.ofJson_null fun s _ => s.ofJson_toJson))).trans ?_
  simp only [Option.getD_some, UInt32.ofNat_toNat, join_map_some]
  rfl

namespace Artefact

/-- The numbers of the file and of its encapsulation are of 32 bits. -/
structure HasWords (a : Artefact) : Prop where
  id : a.id.IsWord
  encapsulation : ∀ id ∈ a.encapsulation, id.IsWord

theorem ofJson_toJson {a : Artefact} (h : a.HasWords) : ofJson a.toJson = .ok a := by
  have hwritten : (([("id", a.id.toJson), ("kind", a.kind.toJson), ("filename", .string a.filename),
      ("parent", ofOption Parent.toJson a.parent)] ++
    optionalField "encapsulation" ArtefactId.toJson a.encapsulation ++
    [("record", a.record.toJson)]).map Prod.fst).Sublist
      ["id", "kind", "filename", "parent", "encapsulation", "record"] := by
    rw [List.map_append, List.map_append]
    exact ((List.Sublist.refl ["id", "kind", "filename", "parent"]).append
      (names_optionalField _)).append (List.Sublist.refl ["record"])
  have hdistinct := hwritten.nodup (by decide)
  have hfilename : decodeString (Json.string a.filename) = .ok a.filename := rfl
  refine (decodeObject_of_written hwritten
    (Fields.and_of_ok
      (field?_of_lookup hdistinct (by simp) (ArtefactId.ofJson_toJson h.id)) <|
    Fields.and_of_ok
      (field?_of_lookup hdistinct (by simp [List.lookup_cons]) a.kind.ofJson_toJson) <|
    Fields.and_of_ok
      (field?_of_lookup hdistinct (by simp [List.lookup_cons]) hfilename) <|
    Fields.and_of_ok
      (field?_of_lookup hdistinct (by simp [List.lookup_cons])
        (Parent.decodeOptional_toJson a.parent)) <|
    Fields.and_of_ok
      (field?_of_lookup_eq_map a.encapsulation hdistinct
        (by simp [List.lookup_cons, List.lookup_append]) ArtefactId.ofJson_null
        fun id hid => ArtefactId.ofJson_toJson (h.encapsulation id hid))
      (field?_of_lookup hdistinct (by simp [List.lookup_cons, List.lookup_append])
        a.record.ofJson_toJson))).trans ?_
  simp only [Option.join_some, join_map_some]
  rfl

/-- The numbers that are read with a file are of 32 bits. -/
theorem hasWords_of_ofJson {j : Source} {a : Artefact} (h : ofJson j = .ok a) : a.HasWords := by
  obtain ⟨fields, ⟨id?, kind?, filename?, parent, encapsulation, record?⟩, hparts, hmake⟩ :=
    eq_ok_of_decodeObject h
  obtain ⟨id, hid, hmake⟩ := eq_ok_of_present hmake
  obtain ⟨kind, _, hmake⟩ := eq_ok_of_present hmake
  obtain ⟨filename, _, hmake⟩ := eq_ok_of_present hmake
  obtain ⟨record, _, hmake⟩ := eq_ok_of_present hmake
  cases hmake
  obtain ⟨hidRead, hparts⟩ := Fields.eq_ok_of_and hparts
  obtain ⟨_, hparts⟩ := Fields.eq_ok_of_and hparts
  obtain ⟨_, hparts⟩ := Fields.eq_ok_of_and hparts
  obtain ⟨_, hparts⟩ := Fields.eq_ok_of_and hparts
  obtain ⟨hencapsulationRead, _⟩ := Fields.eq_ok_of_and hparts
  obtain ⟨i, hi⟩ := exists_of_field? (hid ▸ hidRead)
  refine ⟨ArtefactId.isWord_of_ofJson hi, fun packed hpacked => ?_⟩
  rw [Option.mem_def, Option.join_eq_some_iff] at hpacked
  obtain ⟨k, hk⟩ := exists_of_field? (hpacked ▸ hencapsulationRead)
  exact ArtefactId.isWord_of_ofJson (eq_ok_of_decodeOptional hk)

end Artefact

theorem Signal.ofJson_toJson (s : Signal) : ofJson s.toJson = .ok s := by
  have hread : ofJson s.toJson = (do
      let owner ← Owner.ofJson s.owner.toJson
      let stage ← Stage.ofJson s.stage.toJson
      return ⟨owner, stage⟩) := rfl
  rw [hread, s.owner.ofJson_toJson, s.stage.ofJson_toJson]
  rfl

/-- Reports are read as a board in whatever order they stand, also if some are repeated. -/
theorem SignalBoard.ofJson_ofList (reports : List Signal) :
    ofJson (Json.object [("completed", ofList Signal.toJson reports)]) =
      .ok (Ascending.ofList reports) := by
  have hwritten : ([("completed", ofList Signal.toJson reports)].map Prod.fst).Sublist
      ["completed"] := List.Sublist.refl _
  have hcompleted : decodeList Signal.ofJson (ofList Signal.toJson reports) = .ok reports :=
    decodeList_ofList fun s _ => s.ofJson_toJson
  refine (decodeObject_of_written hwritten
    (field?_of_lookup (hwritten.nodup (by decide)) (by simp) hcompleted)).trans ?_
  rfl

/-- The board that is read holds these reports and no others. -/
theorem SignalBoard.isComplete_ofList (reports : List Signal) (s : Signal) :
    isComplete (Ascending.ofList reports) s = true ↔ s ∈ reports := by
  refine (Ascending.contains_ofList reports s).trans ⟨fun ⟨t, ht, heq⟩ => ?_, fun hs => ?_⟩
  · rwa [← Std.compare_eq_iff_eq.mp heq]
  · exact ⟨s, hs, Std.compare_eq_iff_eq.mpr rfl⟩

theorem SignalBoard.ofJson_toJson (board : SignalBoard) : ofJson board.toJson = .ok board :=
  (ofJson_ofList board.toList).trans (congrArg Except.ok board.ofList_toList)

end StoredForm

end ArchiveDeposit

import ArchiveDeposit.Proofs.FileReplacement
import ArchiveDeposit.Proofs.IdentifierText
import ArchiveDeposit.Proofs.StoredText

/-!
# The files of a state directory

The name of a file in a state directory is the number of an observation and an ending.  The number
ends where the ending begins, so that no two observations share a name, nor do the two files of one,
nor does a draft have the name of a file.

**Results.**
* `Sbid.digits_append_inj`: a name says which observation it is of, and which file.
* `StateDirectory.sbidOfName?_eq_some_iff`, `StateDirectory.sbidOfName?_signals`: how names are
  read.
* `StateDirectory.readValue_of_node`, `StateDirectory.readValue_of_none`: how files are read.
-/

namespace ArchiveDeposit

open FileTree

section StateFiles

namespace Text

/-- What shows a number has nothing but blanks, digits and a sign in it. -/
theorem Shows.mem {n : Nat} {cs : List Char} (h : Shows n cs) :
    ∀ c ∈ cs, isBlank c = true ∨ isDigit c = true ∨ c = '+' := by
  intro c hc
  obtain ⟨hfront, hnumeral, hback⟩ := h
  rcases List.mem_append.mp hc with hc | hc
  · rcases List.mem_append.mp hc with hc | hc
    · exact .inl (hfront c hc)
    · cases hnumeral with
      | plain h => exact .inr (.inl (h.isDigit c hc))
      | signed h =>
          rcases List.mem_cons.mp hc with hsign | hc
          · exact .inr (.inr hsign)
          · exact .inr (.inl (h.isDigit c hc))
  · exact .inl (hback c hc)

end Text

namespace Sbid

variable {a b : Sbid} {ending other : String}

theorem toList_digits (a : Sbid) : a.digits.toList = Nat.toDigits 10 a.value.toNat :=
  Nat.toList_repr

theorem isDigit_of_mem_digits (a : Sbid) : ∀ c ∈ a.digits.toList, Text.isDigit c = true := by
  rw [toList_digits]
  exact Text.isDigit_of_mem_toDigits _

theorem digits_inj : a.digits = b.digits ↔ a = b := by
  refine ⟨fun h => ?_, congrArg digits⟩
  have hvalue := congrArg (Text.decimalValue 0) (congrArg String.toList h)
  rw [toList_digits, toList_digits, Text.decimalValue_toDigits,
    Text.decimalValue_toDigits] at hvalue
  exact congrArg Sbid.mk (UInt32.toNat_inj.mp hvalue)

/-- A name says which observation it is of, and which file. -/
theorem digits_append_inj (he : Text.EndsDigits ending.toList) (ho : Text.EndsDigits other.toList) :
    a.digits ++ ending = b.digits ++ other ↔ a = b ∧ ending = other := by
  refine ⟨fun h => ?_, fun ⟨hab, heq⟩ => hab ▸ heq ▸ rfl⟩
  have hchars := congrArg String.toList h
  rw [String.toList_append, String.toList_append] at hchars
  have hfront := congrArg (List.takeWhile Text.isDigit) hchars
  have hback := congrArg (List.dropWhile Text.isDigit) hchars
  rw [Text.takeWhile_isDigit_append a.isDigit_of_mem_digits he,
    Text.takeWhile_isDigit_append b.isDigit_of_mem_digits ho] at hfront
  rw [Text.dropWhile_isDigit_append a.isDigit_of_mem_digits he,
    Text.dropWhile_isDigit_append b.isDigit_of_mem_digits ho] at hback
  exact ⟨digits_inj.mp (String.toList_inj.mp hfront), String.toList_inj.mp hback⟩

/-- An identifier is shown by its digits. -/
theorem shows_digits (a : Sbid) : Text.Shows a.value.toNat a.digits.toList := by
  have hshows := @Text.shows_toString [] [] a.value.toNat nofun nofun
  rwa [List.nil_append, List.append_nil] at hshows

/-- The names of files are parts of paths. -/
theorem isName_digits_append (a : Sbid) (hslash : '/' ∉ ending.toList) :
    IsName (a.digits ++ ending) := by
  obtain ⟨c, cs, hcs⟩ := List.exists_cons_of_ne_nil (@Nat.toDigits_ne_nil a.value.toNat 10)
  have hc : Text.isDigit c = true := Text.isDigit_of_mem_toDigits _ c (hcs ▸ List.mem_cons_self)
  have hchars : (a.digits ++ ending).toList = c :: (cs ++ ending.toList) := by
    rw [String.toList_append, toList_digits, hcs, List.cons_append]
  have hne (text : String) (htext : text.toList.head?.any Text.isDigit = false) :
      a.digits ++ ending ≠ text := by
    intro heq
    rw [heq] at hchars
    rw [Text.endsDigits_iff.mpr htext c (by rw [hchars]; rfl)] at hc
    cases hc
  refine ⟨fun hmem => ?_, hne "" (by decide), hne "." (by decide), hne ".." (by decide)⟩
  rw [String.toList_append] at hmem
  rcases List.mem_append.mp hmem with hdigit | hending
  · exact absurd (a.isDigit_of_mem_digits _ hdigit) (by decide)
  · exact hslash hending

end Sbid

namespace StateDirectory

/-- What follows the number in the names of the files of an observation and of their drafts. -/
def endings : List String := [observationSuffix, ".tmp", signalsSuffix, ".signals.tmp"]

theorem endsDigits_of_mem_endings {ending : String} (h : ending ∈ endings) :
    Text.EndsDigits ending.toList := by
  have hall : ∀ e ∈ endings, e.toList.head?.any Text.isDigit = false := by decide
  exact Text.endsDigits_iff.mpr (hall ending h)

/-- The names of files and drafts tell which observation they are of, and which they are. -/
theorem name_inj {a b : Sbid} {ending other : String} (he : ending ∈ endings)
    (ho : other ∈ endings) :
    a.digits ++ ending = b.digits ++ other ↔ a = b ∧ ending = other :=
  Sbid.digits_append_inj (endsDigits_of_mem_endings he) (endsDigits_of_mem_endings ho)

theorem name_ne_of_ending {a b : Sbid} {ending other : String} (hne : ending ≠ other)
    (he : ending ∈ endings) (ho : other ∈ endings) : a.digits ++ ending ≠ b.digits ++ other :=
  fun heq => hne ((name_inj he ho).mp heq).2

theorem isName_of_mem_endings {ending : String} (h : ending ∈ endings) (a : Sbid) :
    IsName (a.digits ++ ending) := by
  have hall : ∀ e ∈ endings, '/' ∉ e.toList := by decide
  exact a.isName_digits_append (hall ending h)

/-- A file of an observation is replaced, in a directory that is made if it is not there. -/
theorem exists_of_replaces {d d' : StateDirectory} {a : Sbid} {draft ending text : String}
    (hwell : d.tree.WellFormed) (hdraft : draft ∈ endings) (hending : ending ∈ endings)
    (hne : draft ≠ ending)
    (hok : d.replaceFile (d.root.join (a.digits ++ draft)) (d.root.join (a.digits ++ ending)) text =
      (d', .ok ())) :
    ∃ made, d.tree.makeDirectories d.root = (made, .ok ()) ∧ made.WellFormed ∧
      d.tree.AddsDirectories made ∧
      (d.withTree made).Ready (a.digits ++ draft) (a.digits ++ ending) ∧
      d' = (d.withTree made).replaced (a.digits ++ draft) (a.digits ++ ending) text :=
  exists_of_replaceFile hwell (name_ne_of_ending hne hdraft hending)
    (isName_of_mem_endings hdraft a) (isName_of_mem_endings hending a) hok

/-- The names that spell the number of an observation: a text that shows it, and the ending of the
file of an observation. -/
inductive Spells (a : Sbid) : String → Prop where
  | intro {stem : String} (h : Text.Shows a.value.toNat stem.toList) :
      Spells a (stem ++ observationSuffix)

theorem dropEnding?_eq_some_iff {ending cs stem : List Char} :
    dropEnding? ending cs = some stem ↔ cs = stem ++ ending := by
  unfold dropEnding?
  constructor
  · intro h
    split at h
    · next hsuffix =>
        obtain ⟨front, rfl⟩ := List.isSuffixOf_iff_suffix.mp hsuffix
        rw [List.length_append, Nat.add_sub_cancel, List.take_left] at h
        rw [Option.some.inj h]
    · cases h
  · rintro rfl
    rw [if_pos (List.isSuffixOf_iff_suffix.mpr (List.suffix_append _ _)), List.length_append,
      Nat.add_sub_cancel, List.take_left]

/-- The name of a file of reports spells no number. -/
theorem Spells.isSuffixOf_eq_false {a : Sbid} {name : String} (h : Spells a name) :
    signalsSuffix.toList.isSuffixOf name.toList = false := by
  refine Bool.eq_false_iff.mpr fun hsuffix => ?_
  obtain ⟨hshows⟩ := h
  obtain ⟨front, hfront⟩ := List.isSuffixOf_iff_suffix.mp hsuffix
  have hsplit : signalsSuffix.toList = ".signals".toList ++ observationSuffix.toList := by decide
  rw [String.toList_append, hsplit, ← List.append_assoc] at hfront
  have hstem := List.append_cancel_right hfront
  have hmem : 's' ∈ front ++ ".signals".toList := List.mem_append_right _ (by decide)
  rcases hshows.mem 's' (hstem ▸ hmem) with hblank | hdigit | hsign
  · exact absurd hblank (by decide)
  · exact absurd hdigit (by decide)
  · cases hsign

/-- A name is listed under the number that it spells, unless that is zero. -/
theorem sbidOfName?_eq_some_iff {a : Sbid} {name : String} :
    sbidOfName? name = some a ↔ Spells a name ∧ a.value ≠ 0 := by
  constructor
  · intro h
    unfold sbidOfName? at h
    split at h
    · cases h
    · obtain ⟨stem, hstem, hread⟩ := Option.bind_eq_some_iff.mp h
      have hok : Sbid.ofText (String.ofList stem) = .ok a := by
        cases hresult : Sbid.ofText (String.ofList stem) with
        | error fault =>
            rw [hresult] at hread
            cases hread
        | ok id =>
            rw [hresult] at hread
            rw [Option.some.inj hread]
      obtain ⟨hshows, hne⟩ := Sbid.ofText_eq_ok_iff.mp hok
      have hname : name = String.ofList stem ++ observationSuffix := by
        rw [← String.toList_inj, String.toList_append, String.toList_ofList]
        exact dropEnding?_eq_some_iff.mp hstem
      exact ⟨hname ▸ .intro hshows, hne⟩
  · rintro ⟨hspells, hne⟩
    have hsignals := hspells.isSuffixOf_eq_false
    obtain @⟨stem, hshows⟩ := hspells
    have hstem : dropEnding? observationSuffix.toList (stem ++ observationSuffix).toList =
        some stem.toList := dropEnding?_eq_some_iff.mpr String.toList_append
    rw [sbidOfName?, hsignals, hstem]
    simp only [Bool.false_eq_true, if_false, Option.bind_eq_bind, Option.bind_some,
      String.ofList_toList, Sbid.ofText_eq_ok_iff.mpr ⟨hshows, hne⟩]
    rfl

/-- The file of an observation is listed under its number. -/
theorem sbidOfName?_observation {a : Sbid} (h : a.value ≠ 0) :
    sbidOfName? (a.digits ++ observationSuffix) = some a :=
  sbidOfName?_eq_some_iff.mpr ⟨.intro a.shows_digits, h⟩

/-- The file of reports is not listed. -/
theorem sbidOfName?_signals (a : Sbid) : sbidOfName? (a.digits ++ signalsSuffix) = none := by
  rw [sbidOfName?, if_pos]
  rw [String.toList_append]
  exact List.isSuffixOf_iff_suffix.mpr (List.suffix_append _ _)

variable {d : StateDirectory} {sbid : Sbid} {name text : String}

/-- A file that is there is read. -/
theorem readValue_of_node {α : Type} (decode : Decoder α) {x : α}
    (hresolve : d.tree.resolve (d.root.join name) = .ok (d.placeIn name))
    (hnode : d.tree.node? (d.placeIn name) = some (.file text))
    (hdecode : Json.decodeText decode text = .ok x) :
    d.readValue (d.root.join name) decode = .ok (some x) := by
  have hlook : d.tree.look (d.root.join name) = .ok (.file text) := by
    rw [look_eq_ok_iff, ← eq_placeOf_of_resolve hresolve]
    exact ⟨hresolve, hnode⟩
  have hthere : d.tree.exists? (d.root.join name) = true := by
    rw [exists?, hlook]
    rfl
  have hread : d.tree.read (d.root.join name) = .ok text := by
    rw [FileTree.read, hlook]
  rw [readValue, hthere, hread]
  simp only [Bool.not_true, Bool.false_eq_true, if_false, hdecode]

/-- A file that is not there holds nothing. -/
theorem readValue_of_none {α : Type} (decode : Decoder α)
    (hname : IsName name) (hnone : d.tree.node? (d.placeIn name) = none) :
    d.readValue (d.root.join name) decode = .ok none := by
  have habsent : d.tree.exists? (d.root.join name) = false := by
    cases hlook : d.tree.look (d.root.join name) with
    | error fault =>
        rw [exists?, hlook]
        rfl
    | ok node =>
        have hnode := (look_eq_ok_iff.mp hlook).2
        rw [placeOf_join d.root hname] at hnode
        exact absurd (hnode.symm.trans hnone) nofun
  rw [readValue, habsent]
  rfl

/-- An observation is loaded from the file that holds it. -/
theorem load_of_node {o : Observation} (hstorable : o.Storable)
    (hresolve : d.tree.resolve (d.observationFile o.sbid) =
      .ok (d.placeIn (o.sbid.digits ++ observationSuffix)))
    (hnode : d.tree.node? (d.placeIn (o.sbid.digits ++ observationSuffix)) =
      some (.file o.toJson.pretty)) :
    d.load o.sbid = .ok (some o) := by
  rw [load, observationFile,
    readValue_of_node Observation.ofJson hresolve hnode hstorable.decodeText_toJson]
  exact if_pos rfl

theorem load_of_none
    (hnone : d.tree.node? (d.placeIn (sbid.digits ++ observationSuffix)) = none) :
    d.load sbid = .ok none := by
  rw [load, observationFile,
    readValue_of_none _ (isName_of_mem_endings (by decide) sbid) hnone]

/-- Reports are loaded from the file that holds them. -/
theorem loadSignals_of_node {board : SignalBoard}
    (hresolve : d.tree.resolve (d.signalsFile sbid) =
      .ok (d.placeIn (sbid.digits ++ signalsSuffix)))
    (hnode : d.tree.node? (d.placeIn (sbid.digits ++ signalsSuffix)) =
      some (.file board.toJson.pretty)) :
    d.loadSignals sbid = .ok board := by
  rw [loadSignals, signalsFile,
    readValue_of_node SignalBoard.ofJson hresolve hnode board.decodeText_toJson]
  rfl

theorem loadSignals_of_none
    (hnone : d.tree.node? (d.placeIn (sbid.digits ++ signalsSuffix)) = none) :
    d.loadSignals sbid = .ok Ascending.empty := by
  rw [loadSignals, signalsFile,
    readValue_of_none _ (isName_of_mem_endings (by decide) sbid) hnone]
  rfl

end StateDirectory

end StateFiles

end ArchiveDeposit

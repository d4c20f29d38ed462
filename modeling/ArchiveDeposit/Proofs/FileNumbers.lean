import ArchiveDeposit.Proofs.CollectionRun
import ArchiveDeposit.Proofs.Operation

/-!
# The numbers of files

A file has a number, and a packed file has that of its encapsulation besides.  An operation gives a
file its numbers when it adds the file, and no operation changes them, whatever lifecycles a factory
gives and whatever record is put in place of another.  So the numbers in an observation and in a
collection stay below the number of files.

A number is written as a word, so a file is added only while there is a number left: that is a
condition on runs, and what it leads to has words for numbers.

Nothing else is asked of the files here: under a factory of its own an observation need not be
well-formed.

**Results.**
* `Observation.numbers_perform`: operations that add no file leave all numbers as they are.
* `Observation.reachable_hasNumberFor_iff`: the runs in which there is a number for every file.
* `Observation.Assembled.numbered`, `Collection.Assembled.numbered`: whatever operations lead to is
  numbered below its length, of which there are numbers.
-/

namespace ArchiveDeposit

section FileNumbers

namespace Artefact

/-- The number of a file and that of the encapsulation that it is packed into. -/
def numbers (a : Artefact) : ArtefactId × Option ArtefactId := (a.id, a.encapsulation)

theorem Continues.numbers_eq {a b : Artefact} (h : a.Continues b) : b.numbers = a.numbers :=
  Prod.ext h.id h.encapsulation

theorem numbers_recover {a : Artefact} {now : Timestamp} {change : Artefact × Option Transition}
    (h : a.recover now = .ok change) : change.1.numbers = a.numbers := by
  obtain ⟨_, _, rfl⟩ := eq_ok_of_map h
  rfl

/-- Changes of files one by one leave the numbers as they are. -/
theorem numbers_map {artefacts : List Artefact} {f : Artefact → Artefact}
    (h : ∀ a, (f a).numbers = a.numbers) :
    (artefacts.map f).map numbers = artefacts.map numbers := by
  rw [List.map_map]
  exact List.map_congr_left fun a _ => h a

/-- So does a change of the file at one place. -/
theorem numbers_set {artefacts : List Artefact} {place : Nat} {a b : Artefact}
    (hplace : artefacts[place]? = some a) (h : b.numbers = a.numbers) :
    (artefacts.set place b).map numbers = artefacts.map numbers := by
  have hsame : (artefacts.map numbers)[place]? = some b.numbers := by
    rw [List.getElem?_map, hplace, Option.map_some, h]
  obtain ⟨hlt, hget⟩ := List.getElem?_eq_some_iff.mp hsame
  rw [List.map_set, ← hget, List.set_getElem_self]

theorem length_of_numbers_eq {artefacts after : List Artefact}
    (h : after.map numbers = artefacts.map numbers) : after.length = artefacts.length := by
  simpa using congrArg List.length h

/-- Every number in a list of files is below its length, and there are words for all of them. -/
structure Numbered (artefacts : List Artefact) : Prop where
  below : ∀ a ∈ artefacts, a.id.index < artefacts.length ∧
    ∀ id ∈ a.encapsulation, id.index < artefacts.length
  few : artefacts.length ≤ UInt32.size

theorem Numbered.of_numbers_eq {artefacts after : List Artefact} (h : Numbered artefacts)
    (heq : after.map numbers = artefacts.map numbers) : Numbered after := by
  have hlength := length_of_numbers_eq heq
  refine ⟨fun a ha => ?_, hlength ▸ h.few⟩
  have hmem : a.numbers ∈ artefacts.map numbers := heq ▸ List.mem_map_of_mem ha
  obtain ⟨b, hb, hsame⟩ := List.mem_map.mp hmem
  obtain ⟨hid, hencapsulation⟩ := Prod.mk.inj hsame
  rw [hlength, ← hid, ← hencapsulation]
  exact h.below b hb

/-- A file is added under the next number, packed into a file that is there if into any. -/
theorem Numbered.concat {artefacts : List Artefact} (h : Numbered artefacts) {a : Artefact}
    (hroom : artefacts.length < UInt32.size) (hid : a.id.index = artefacts.length)
    (hencapsulation : ∀ id ∈ a.encapsulation, id.index < artefacts.length) :
    Numbered (artefacts ++ [a]) := by
  have hlength : (artefacts ++ [a]).length = artefacts.length + 1 := List.length_append
  refine ⟨fun b hb => ?_, hlength ▸ hroom⟩
  rw [hlength]
  rcases List.mem_append.mp hb with hold | hnew
  · obtain ⟨hlt, hpacked⟩ := h.below b hold
    exact ⟨Nat.lt_succ_of_lt hlt, fun id hmem => Nat.lt_succ_of_lt (hpacked id hmem)⟩
  · rw [List.mem_singleton.mp hnew]
    refine ⟨?_, fun id hmem => Nat.lt_succ_of_lt (hencapsulation id hmem)⟩
    rw [hid]
    exact Nat.lt_succ_self _

theorem numbered_nil : Numbered [] := ⟨fun _ ha => (nomatch ha), Nat.zero_le _⟩

end Artefact

open Artefact

namespace Encapsulation

variable {artefacts : List Artefact} {id : ArtefactId} {place : Nat} {file : Artefact}
  {signals : Signals} {now : Timestamp}

theorem numbers_depositMembers (artefacts : List Artefact) (id : ArtefactId) (now : Timestamp) :
    (depositMembers artefacts id now).1.map numbers = artefacts.map numbers := by
  refine numbers_map fun a => ?_
  split
  · exact (a.continues_depositPacked now).numbers_eq
  · rfl

theorem numbers_commit (hplace : artefacts[place]? = some file)
    {change : Artefact × Option Transition} (hchange : change.1.numbers = file.numbers)
    (id : ArtefactId) (deposits : Bool) (now : Timestamp) :
    (commit artefacts id place change deposits now).1.map numbers = artefacts.map numbers := by
  have hset := numbers_set hplace hchange
  unfold commit
  split
  · rfl
  · cases deposits with
    | false => exact hset
    | true => exact (numbers_depositMembers _ id now).trans hset

theorem numbers_progress (artefacts : List Artefact) (id : ArtefactId) (signals : Signals)
    (now : Timestamp) :
    (progress artefacts id signals now).1.map numbers = artefacts.map numbers := by
  unfold progress
  split
  · rfl
  · next place file hfind =>
      exact numbers_commit (getElem?_of_find? hfind) (file.continues_progress _ now).numbers_eq id _
        now

theorem numbers_setStage {stage : Stage} {after : List Artefact} {transitions : List Transition}
    (h : setStage artefacts id stage now = .ok (after, transitions)) :
    after.map numbers = artefacts.map numbers := by
  unfold setStage at h
  split at h
  · cases h
    rfl
  · next place file hfind =>
      split at h
      · cases h
      · next change hadvance =>
          have hcommit := numbers_commit (getElem?_of_find? hfind)
            (continues_advance hadvance).numbers_eq id (stage == .deposited) now
          dsimp only at h
          split at h
          · cases h
          · rwa [Except.ok.inj h] at hcommit

theorem numbers_changeFile
    {change : Artefact → Except DepositError (Artefact × Option Transition)}
    (hchange : ∀ a changed, change a = .ok changed → changed.1.numbers = a.numbers)
    {after : List Artefact} {transitions : List Transition}
    (h : changeFile artefacts id change now = .ok (after, transitions)) :
    after.map numbers = artefacts.map numbers := by
  unfold changeFile at h
  split at h
  · cases h
    rfl
  · next place file hfind =>
      obtain ⟨changed, hchanged, hpair⟩ := eq_ok_of_map h
      have hcommit := numbers_commit (getElem?_of_find? hfind) (hchange file changed hchanged)
        id false now
      rwa [hpair] at hcommit

end Encapsulation

namespace Observation

variable {o o' : Observation} {now : Timestamp}

theorem numbers_progressEach (signals : Signals) (now : Timestamp) (ids : List ArtefactId)
    (artefacts : List Artefact) :
    (progressEach signals now ids artefacts).1.map numbers = artefacts.map numbers := by
  induction ids generalizing artefacts with
  | nil => rfl
  | cons id ids ih => exact (ih _).trans (Encapsulation.numbers_progress artefacts id signals now)

theorem numbers_progressChildren (artefacts : List Artefact) (inScope : Artefact → Bool)
    (signals : Signals) (now : Timestamp) :
    (progressChildren artefacts inScope signals now).1.map numbers = artefacts.map numbers := by
  refine numbers_map fun a => ?_
  split
  · exact (a.continues_progress _ now).numbers_eq
  · rfl

theorem numbers_progressFiles (stage : Stage) (artefacts : List Artefact) (signals : Signals)
    (now : Timestamp) :
    (progressFiles stage artefacts signals now).1.map numbers = artefacts.map numbers := by
  unfold progressFiles
  split
  · rfl
  · next inScope _ =>
      have hchildren := numbers_progressChildren artefacts inScope signals now
      dsimp only
      split
      · exact (numbers_progressEach signals now _ _).trans hchildren
      · exact hchildren

theorem numbers_progress (o : Observation) (signals : Signals) (now : Timestamp) :
    (o.progress signals now).1.artefacts.map numbers = o.artefacts.map numbers := by
  rw [progress_fst, apply_artefacts]
  exact numbers_progressFiles o.stage o.artefacts signals now

theorem getElem?_of_artefact? {id : ArtefactId} {file : Artefact}
    (h : o.artefact? id = some file) : o.artefacts[id.index]? = some file :=
  (Option.filter_eq_some_iff.mp h).1

theorem numbers_setArtefactStage {id : ArtefactId} {stage : Stage}
    {transitions : List Transition}
    (h : o.setArtefactStage id stage now = .ok (o', transitions)) :
    o'.artefacts.map numbers = o.artefacts.map numbers := by
  unfold setArtefactStage at h
  split at h
  · cases h
  · next file hfile =>
      split at h
      · obtain ⟨change, hchange, hpair⟩ := eq_ok_of_map h
        cases hpair
        exact Encapsulation.numbers_setStage hchange
      · obtain ⟨change, hchange, hpair⟩ := eq_ok_of_map h
        cases hpair
        exact numbers_set (getElem?_of_artefact? hfile) (continues_advance hchange).numbers_eq

theorem numbers_packEach (now : Timestamp) (ids : List ArtefactId) (o : Observation) :
    (packEach now ids o).1.artefacts.map numbers = o.artefacts.map numbers := by
  induction ids generalizing o with
  | nil => rfl
  | cons id ids ih =>
      unfold packEach
      split
      · rfl
      · next o' first hset => exact (ih o').trans (numbers_setArtefactStage hset)

theorem numbers_recoverEach (now : Timestamp) (artefacts : List Artefact) :
    (recoverEach now artefacts).1.map numbers = artefacts.map numbers := by
  induction artefacts with
  | nil => rfl
  | cons a rest ih =>
      unfold recoverEach
      split
      · split
        · rfl
        · next a' transition hrecover =>
            exact congrArg₂ List.cons (numbers_recover hrecover) ih
      · exact congrArg₂ List.cons rfl ih

theorem artefacts_recoverOwn {transition : Option Transition}
    (h : o.recoverOwn now = .ok (o', transition)) : o'.artefacts = o.artefacts := by
  obtain ⟨change, _, hpair⟩ := eq_ok_of_map h
  cases hpair
  rfl

theorem numbers_recoverArtefact (o : Observation) (filename : String) (now : Timestamp) :
    (o.recoverArtefact filename now).1.artefacts.map numbers = o.artefacts.map numbers := by
  unfold recoverArtefact
  split
  · next place file hplace hfile =>
      split
      · rfl
      · split
        · rfl
        · next file' transition hrecover =>
            have hget : o.artefacts[place]? = some file := by
              rwa [named?, List.find?_eq_bind_findIdx?_getElem?, hplace] at hfile
            have hset := numbers_set hget (numbers_recover hrecover)
            dsimp only
            split
            · split
              · exact hset
              · next o' own hown => rw [artefacts_recoverOwn hown]; exact hset
            · exact hset
  · rfl

theorem numbers_recoverAll (o : Observation) (now : Timestamp) :
    (o.recoverAll now).1.artefacts.map numbers = o.artefacts.map numbers := by
  have heach := numbers_recoverEach now o.artefacts
  unfold recoverAll
  split
  · rfl
  · dsimp only
    split
    · exact heach
    · split
      · exact heach
      · next o' own hown => rw [artefacts_recoverOwn hown]; exact heach

/-- Only operations that add a file give numbers. -/
theorem numbers_perform (o : Observation) {operation : Operation} (hadds : operation.adds = false)
    (now : Timestamp) :
    (o.perform operation now).1.artefacts.map numbers = o.artefacts.map numbers := by
  let P := fun o' : Observation => o'.artefacts.map numbers = o.artefacts.map numbers
  have hsame : P o := rfl
  cases operation with
  | add kind filename | addEncapsulated kind filename encapsulation => cases hadds
  | setArtefactStage id stage =>
      exact orRefused_cases (P := P) hsame fun _ _ hok => numbers_setArtefactStage hok
  | advance stage =>
      refine orOwnRefused_cases (P := P) hsame fun o' transition hok => ?_
      exact congrArg (List.map numbers) (advance_spec hok).2.1
  | progress signals => exact numbers_progress o signals now
  | runJobs => exact numbers_packEach now o.packable o
  | setEncapsulationStage id stage =>
      exact orFilesRefused_cases (P := P) hsame fun _ _ hok => Encapsulation.numbers_setStage hok
  | advanceEncapsulation id stage =>
      refine orFilesRefused_cases (P := P) hsame fun _ _ hok => ?_
      exact Encapsulation.numbers_changeFile
        (fun _ _ hchange => (continues_advance hchange).numbers_eq) hok
  | progressEncapsulation id signals =>
      exact Encapsulation.numbers_progress o.artefacts id signals now
  | recoverEncapsulation id =>
      refine orFilesRefused_cases (P := P) hsame fun _ _ hok => ?_
      exact Encapsulation.numbers_changeFile (fun _ _ hchange => numbers_recover hchange) hok
  | recoverArtefact filename => exact numbers_recoverArtefact o filename now
  | recoverAll => exact numbers_recoverAll o now
  | recoverOwn =>
      refine orOwnRefused_cases (P := P) hsame fun o' transition hok => ?_
      exact congrArg (List.map numbers) (artefacts_recoverOwn hok)

/-- Whether there is a number for the file that an operation adds. -/
def HasNumberFor (o : Observation) (operation : Operation) : Prop :=
  operation.adds = true → o.artefacts.length < UInt32.size

theorem length_push {factory : Factory} {kind : Kind} {filename : String}
    {encapsulation : Option ArtefactId} {id : ArtefactId}
    (hok : o.push factory kind filename encapsulation = .ok (o', id)) :
    o'.artefacts.length = o.artefacts.length + 1 := by
  obtain ⟨_, _, _, l, _, rfl⟩ := push_spec hok
  exact List.length_append

/-- The runs in which there is a number for every file that is added lead to what all runs lead to
that has no more files than there are numbers. -/
theorem reachable_hasNumberFor_iff :
    Reachable HasNumberFor o ↔
      Reachable (fun _ _ => True) o ∧ o.artefacts.length ≤ UInt32.size := by
  constructor
  · intro h
    refine ⟨h.mono fun _ _ _ => trivial, ?_⟩
    induction h with
    | new hnew =>
        obtain ⟨state, _, rfl⟩ := eq_ok_of_map hnew
        exact Nat.zero_le _
    | perform h operation hroom now ih =>
        cases hadds : operation.adds with
        | false => rwa [length_of_numbers_eq (numbers_perform _ hadds now)]
        | true =>
            rcases perform_adds_cases h.sound.wellFormed hadds now with
              hsame | ⟨_, _, _, _, _, hok⟩
            · rwa [hsame]
            · rw [length_push hok]
              exact hroom hadds
  · rintro ⟨h, hfew⟩
    induction h with
    | new hnew => exact .new hnew
    | perform h operation _ now ih =>
        cases hadds : operation.adds with
        | false =>
            rw [length_of_numbers_eq (numbers_perform _ hadds now)] at hfew
            exact (ih hfew).perform operation (by simp [HasNumberFor, hadds]) now
        | true =>
            rcases perform_adds_cases h.sound.wellFormed hadds now with
              hsame | ⟨_, _, _, _, _, hok⟩
            · rw [hsame] at hfew ⊢
              exact ih hfew
            · rw [length_push hok] at hfew
              exact (ih (Nat.le_of_succ_le hfew)).perform operation (fun _ => hfew) now

/-- An observation that operations lead to from a new one.  Every file may be added with a factory of
its own, while there is a number for it; and the records of the observation and of its
encapsulations, which are there to be written, may be replaced. -/
inductive Assembled : Observation → Prop where
  | new {sbid : Sbid} {factory : Factory} {o : Observation} (h : new sbid factory = .ok o) :
      Assembled o
  | add {o o' : Observation} (h : Assembled o) (hroom : o.artefacts.length < UInt32.size)
      {factory : Factory} {kind : Kind} {filename : String} {id : ArtefactId}
      (hok : o.add factory kind filename = .ok (o', id)) : Assembled o'
  | addEncapsulated {o o' : Observation} (h : Assembled o)
      (hroom : o.artefacts.length < UInt32.size) {factory : Factory} {kind : Kind}
      {filename : String} {encapsulation id : ArtefactId}
      (hok : o.addEncapsulated factory kind filename encapsulation = .ok (o', id)) : Assembled o'
  | perform {o : Observation} (h : Assembled o) {operation : Operation}
      (hadds : operation.adds = false) (now : Timestamp) : Assembled (o.perform operation now).1
  | replaceOwn {o : Observation} (h : Assembled o) (record : DepositRecord) :
      Assembled ⟨o.sbid, record, o.started, o.completed, o.artefacts⟩
  | replaceFile {o : Observation} (h : Assembled o) {id : ArtefactId} {place : Nat}
      {file : Artefact} (hfile : Encapsulation.find? o.artefacts id = some (place, file))
      (record : DepositRecord) :
      Assembled (o.withArtefacts (o.artefacts.set place (file.withRecord record)))

theorem numbered_push (h : Numbered o.artefacts) (hroom : o.artefacts.length < UInt32.size)
    {factory : Factory} {kind : Kind} {filename : String} {encapsulation : Option ArtefactId}
    {id : ArtefactId}
    (hencapsulation : ∀ packed ∈ encapsulation, packed.index < o.artefacts.length)
    (hok : o.push factory kind filename encapsulation = .ok (o', id)) : Numbered o'.artefacts := by
  obtain ⟨_, _, hid, l, _, rfl⟩ := push_spec hok
  exact h.concat hroom (congrArg ArtefactId.index hid) hencapsulation

/-- A file is packed only under a number that is given. -/
theorem numbered_addEncapsulated (h : Numbered o.artefacts)
    (hroom : o.artefacts.length < UInt32.size) {factory : Factory} {kind : Kind}
    {filename : String} {encapsulation id : ArtefactId}
    (hok : o.addEncapsulated factory kind filename encapsulation = .ok (o', id)) :
    Numbered o'.artefacts := by
  unfold addEncapsulated at hok
  cases hfile : o.artefact? encapsulation with
  | none => simp [hfile] at hok
  | some file =>
      have hlt := (List.getElem?_eq_some_iff.mp (getElem?_of_artefact? hfile)).1
      split at hok
      · refine numbered_push h hroom (fun packed hpacked => ?_) hok
        rwa [← Option.some.inj hpacked]
      · cases hok

/-- Whatever operations lead to is numbered below its length, of which there are numbers. -/
theorem Assembled.numbered (h : Assembled o) : Numbered o.artefacts := by
  induction h with
  | new hnew =>
      obtain ⟨state, _, rfl⟩ := eq_ok_of_map hnew
      exact numbered_nil
  | add _ hroom hok ih =>
      refine numbered_push ih hroom (fun packed hnone => ?_) hok
      cases hnone
  | addEncapsulated _ hroom hok ih => exact numbered_addEncapsulated ih hroom hok
  | perform _ hadds now ih => exact ih.of_numbers_eq (numbers_perform _ hadds now)
  | replaceOwn _ record ih => exact ih
  | replaceFile _ hfile record ih =>
      exact ih.of_numbers_eq (numbers_set (Encapsulation.getElem?_of_find? hfile) rfl)

end Observation

namespace Collection

variable {c c' : Collection} {now : Timestamp}

/-- A collection that operations lead to from a new one, in the same way. -/
inductive Assembled : Collection → Prop where
  | new {id : CollectionId} {factory : Factory} {c : Collection} (h : new id factory = .ok c) :
      Assembled c
  | add {c c' : Collection} (h : Assembled c) (hroom : c.catalogues.length < UInt32.size)
      {factory : Factory} {filename : String} {id : ArtefactId}
      (hok : c.add factory filename = .ok (c', id)) : Assembled c'
  | advance {c c' : Collection} (h : Assembled c) {stage : Stage} {now : Timestamp}
      {transition : Option Transition} (hok : c.advance stage now = .ok (c', transition)) :
      Assembled c'
  | setCatalogueStage {c c' : Collection} (h : Assembled c) {id : ArtefactId} {stage : Stage}
      {now : Timestamp} {transition : Option Transition}
      (hok : c.setCatalogueStage id stage now = .ok (c', transition)) : Assembled c'
  | progress {c : Collection} (h : Assembled c) (signals : Signals) (now : Timestamp) :
      Assembled (c.progress signals now).1
  | recoverOwn {c c' : Collection} (h : Assembled c) {now : Timestamp}
      {transition : Option Transition} (hok : c.recoverOwn now = .ok (c', transition)) :
      Assembled c'
  | replaceOwn {c : Collection} (h : Assembled c) (record : DepositRecord) :
      Assembled ⟨c.id, record, c.completed, c.catalogues⟩

theorem catalogues_advance {stage : Stage} {transition : Option Transition}
    (hok : c.advance stage now = .ok (c', transition)) : c'.catalogues = c.catalogues := by
  obtain ⟨next, _, rfl⟩ := advance_spec hok
  exact c.apply_catalogues next now

theorem numbered_add (h : Numbered c.catalogues) (hroom : c.catalogues.length < UInt32.size)
    {factory : Factory} {filename : String} {id : ArtefactId}
    (hok : c.add factory filename = .ok (c', id)) : Numbered c'.catalogues := by
  unfold add at hok
  split at hok
  · cases hok
  · obtain ⟨state, _, hpair⟩ := eq_ok_of_map hok
    cases hpair
    exact h.concat hroom rfl fun _ hnone => (nomatch hnone)

theorem numbers_setCatalogueStage {id : ArtefactId} {stage : Stage}
    {transition : Option Transition}
    (hok : c.setCatalogueStage id stage now = .ok (c', transition)) :
    c'.catalogues.map numbers = c.catalogues.map numbers := by
  obtain ⟨file, change, hfile, hchange, rfl⟩ := setCatalogueStage_spec hok
  exact numbers_set hfile (continues_advance hchange).numbers_eq

theorem numbers_progress (c : Collection) (signals : Signals) (now : Timestamp) :
    (c.progress signals now).1.catalogues.map numbers = c.catalogues.map numbers := by
  rw [progress_catalogues]
  split
  · exact numbers_map fun a => (a.continues_progress _ now).numbers_eq
  · rfl

theorem Assembled.numbered (h : Assembled c) : Numbered c.catalogues := by
  induction h with
  | new hnew =>
      obtain ⟨state, _, rfl⟩ := eq_ok_of_map hnew
      exact numbered_nil
  | add _ hroom hok ih => exact numbered_add ih hroom hok
  | advance _ hok ih => exact catalogues_advance hok ▸ ih
  | setCatalogueStage _ hok ih => exact ih.of_numbers_eq (numbers_setCatalogueStage hok)
  | progress _ signals now ih => exact ih.of_numbers_eq (numbers_progress _ signals now)
  | recoverOwn _ hok ih => exact (recoverOwn_spec hok).2.2 ▸ ih
  | replaceOwn _ record ih => exact ih

end Collection

end FileNumbers

end ArchiveDeposit

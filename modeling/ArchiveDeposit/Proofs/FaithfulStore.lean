import ArchiveDeposit.Proofs.StockedDirectory
import Mathlib.Logic.Function.Basic

/-!
# The state directory is a faithful store

A state directory answers as the store in memory does, after whatever was saved in both, and keeps
beside it the boards of reports that were saved.  What carries this from one save to the next is
what stands in the directory: for every observation that was saved its text, for every board that
was saved its text, and nothing else, drafts included.

A directory that is not there yet holds nothing, and is made by the first save.

**Results.**
* `Repository.answers_eq`: loading and listing decide every answer.
* `StateDirectory.Mirrors.save`, `StateDirectory.Mirrors.saveSignals`: what one save leaves.
* `StateDirectory.Mirrors.stocked`, `StateDirectory.Mirrors.load_eq`: what stands in the directory
  decides what is listed and loaded.
* `StateDirectory.faithful_of_written`: every answer, after any saves.
-/

namespace ArchiveDeposit

open FileTree

section FaithfulStore

namespace ObservationStore

/-- What a store answers to each question that it can be asked. -/
structure Answers (Fault : Type) where
  load : Sbid → Except Fault (Option Observation)
  list : Except Fault (List Sbid)
  loadAll : Except Fault (List Observation)
  findByStages : List Stage → Except Fault (List Observation)
  findCompletedBetween : Timestamp → Timestamp → Except Fault (List Observation)
  findArtefactsByStages : List Stage → Except Fault (List (Sbid × Artefact))

/-- The answers of a store. -/
def answers {Store Fault : Type} [ObservationStore Store Fault] (store : Store) :
    Answers Fault where
  load := ObservationStore.load store
  list := ObservationStore.list store
  loadAll := ObservationStore.loadAll store
  findByStages := ObservationStore.findByStages store
  findCompletedBetween := ObservationStore.findCompletedBetween store
  findArtefactsByStages := ObservationStore.findArtefactsByStages store

/-- The answers of a store that does not fail, as those of one that may. -/
def Answers.unfailing {Fault : Type} (a : Answers NoFault) : Answers Fault where
  load sbid := .ok (NoFault.get (a.load sbid))
  list := .ok (NoFault.get a.list)
  loadAll := .ok (NoFault.get a.loadAll)
  findByStages stages := .ok (NoFault.get (a.findByStages stages))
  findCompletedBetween first last := .ok (NoFault.get (a.findCompletedBetween first last))
  findArtefactsByStages stages := .ok (NoFault.get (a.findArtefactsByStages stages))

end ObservationStore

namespace Repository

variable {r : Repository}

/-- A store that loads and lists as the store in memory does gives all its answers. -/
theorem answers_eq {Store Fault : Type} [ObservationStore Store Fault] {store : Store}
    (hload : ∀ sbid, ObservationStore.load store sbid = .ok (r.load sbid))
    (hlist : ObservationStore.list store = .ok r.list) :
    ObservationStore.answers store = (ObservationStore.answers r).unfailing := by
  have hall : ObservationStore.loadAll store = .ok r.toList := by
    rw [ObservationStore.loadAll, hlist]
    exact ObservationStore.loadEach_of_load fun o ho =>
      (hload o.sbid).trans (congrArg Except.ok (load_eq_some_iff.mpr ⟨ho, rfl⟩))
  have hmemory := r.loadAll_eq
  simp only [ObservationStore.answers, ObservationStore.Answers.unfailing,
    ObservationStore.Answers.mk.injEq]
  refine ⟨funext hload, hlist, ?_, funext fun stages => ?_, funext₂ fun first last => ?_,
    funext fun stages => ?_⟩
  · rw [hall, hmemory]
    rfl
  · rw [ObservationStore.findByStages, ObservationStore.findByStages, hall, hmemory]
    rfl
  · rw [ObservationStore.findCompletedBetween, ObservationStore.findCompletedBetween, hall, hmemory]
    rfl
  · rw [ObservationStore.findArtefactsByStages, ObservationStore.findArtefactsByStages, hall,
      hmemory]
    rfl

end Repository

namespace StateDirectory

variable {d d' start : StateDirectory} {r : Repository} {boards : Sbid → Option SignalBoard}

/-- A directory in which the observations of a store in memory stand, and boards of reports, and
nothing else. -/
structure Mirrors (d : StateDirectory) (r : Repository) (boards : Sbid → Option SignalBoard) :
    Prop where
  wellFormed : d.tree.WellFormed
  directory : d.tree.look d.root = .ok .directory
  genuine : ∀ o ∈ r.toList, o.Genuine
  observation : ∀ sbid, d.tree.node? (d.placeIn (sbid.digits ++ observationSuffix)) =
    (r.load sbid).map fun o => .file o.toJson.pretty
  signals : ∀ sbid, d.tree.node? (d.placeIn (sbid.digits ++ signalsSuffix)) =
    (boards sbid).map fun board => .file board.toJson.pretty
  observationPath : ∀ sbid, (r.load sbid).isSome = true →
    d.tree.resolve (d.observationFile sbid) = .ok (d.placeIn (sbid.digits ++ observationSuffix))
  signalsPath : ∀ sbid, (boards sbid).isSome = true →
    d.tree.resolve (d.signalsFile sbid) = .ok (d.placeIn (sbid.digits ++ signalsSuffix))
  only : ∀ name node, d.tree.node? (d.placeIn name) = some node →
    ∃ sbid : Sbid, name = sbid.digits ++ observationSuffix ∨ name = sbid.digits ++ signalsSuffix

/-- What stands under a name after another file was replaced. -/
theorem node?_replaced_name (d : StateDirectory) (a b : Sbid) {draft name ending : String}
    (hdraft : draft ∈ endings) (hname : name ∈ endings) (hending : ending ∈ endings)
    (text : String) :
    (d.replaced (a.digits ++ draft) (a.digits ++ name) text).tree.node?
        (d.placeIn (b.digits ++ ending)) =
      if b = a ∧ ending = name then some (.file text)
      else if b = a ∧ ending = draft then none
      else d.tree.node? (d.placeIn (b.digits ++ ending)) := by
  rw [node?_replaced]
  simp only [placeIn_inj, name_inj hending hname, name_inj hending hdraft]

namespace Mirrors

/-- Replacing a file adds no name but its own. -/
theorem name_of_replaced (h : d.Mirrors r boards) {draft file text name : String} {node : FileNode}
    (hnode : (d.replaced draft file text).tree.node? (d.placeIn name) = some node) :
    name = file ∨ ∃ sbid : Sbid,
      name = sbid.digits ++ observationSuffix ∨ name = sbid.digits ++ signalsSuffix := by
  rw [node?_replaced] at hnode
  split at hnode
  · next hplace => exact .inl (placeIn_inj.mp hplace)
  split at hnode
  · cases hnode
  · exact .inr (h.only name node hnode)

/-- An observation is saved, over what was saved of it before. -/
theorem save (h : d.Mirrors r boards) {o : Observation}
    (hready : d.Ready (o.sbid.digits ++ ".tmp") (o.sbid.digits ++ observationSuffix))
    (hgenuine : o.Genuine) :
    (d.replaced (o.sbid.digits ++ ".tmp") (o.sbid.digits ++ observationSuffix)
      o.toJson.pretty).Mirrors (r.save o) boards := by
  have hkeeps := hready.keeps o.toJson.pretty
  have hload := r.load_save o
  have hdraft : ".tmp" ∈ endings := by decide
  have hfile : observationSuffix ∈ endings := by decide
  have hreports : signalsSuffix ∈ endings := by decide
  refine ⟨hready.wellFormed h.wellFormed (isName_of_mem_endings hfile _) _,
    look_of_keeps hkeeps h.directory, fun x hx => ?_, fun sbid => ?_, fun sbid => ?_,
    fun sbid hsaved => ?_, fun sbid hsaved => ?_, fun name node hnode => ?_⟩
  · rcases Ascending.mem_of_mem_place hx with rfl | hold
    · exact hgenuine
    · exact h.genuine x hold
  · refine (d.node?_replaced_name o.sbid sbid hdraft hfile hfile _).trans ?_
    by_cases hsame : sbid = o.sbid
    · subst hsame
      rw [if_pos ⟨rfl, rfl⟩, hload, if_pos rfl]
      rfl
    · rw [if_neg fun heq => hsame heq.1, if_neg fun heq => hsame heq.1, hload,
        if_neg (Ne.symm hsame), h.observation sbid]
  · refine (d.node?_replaced_name o.sbid sbid hdraft hfile hreports _).trans ?_
    rw [if_neg fun heq => absurd heq.2 (by decide), if_neg fun heq => absurd heq.2 (by decide),
      h.signals sbid]
  · by_cases hsame : sbid = o.sbid
    · subst hsame
      exact resolve_of_keeps hkeeps hready.filePath
    · rw [hload, if_neg (Ne.symm hsame)] at hsaved
      exact resolve_of_keeps hkeeps (h.observationPath sbid hsaved)
  · exact resolve_of_keeps hkeeps (h.signalsPath sbid hsaved)
  · rcases h.name_of_replaced hnode with rfl | hname
    · exact ⟨o.sbid, .inl rfl⟩
    · exact hname

/-- A board is saved, over what was saved of it before. -/
theorem saveSignals (h : d.Mirrors r boards) {sbid : Sbid} (board : SignalBoard)
    (hready : d.Ready (sbid.digits ++ ".signals.tmp") (sbid.digits ++ signalsSuffix)) :
    (d.replaced (sbid.digits ++ ".signals.tmp") (sbid.digits ++ signalsSuffix)
      board.toJson.pretty).Mirrors r (Function.update boards sbid (some board)) := by
  have hkeeps := hready.keeps board.toJson.pretty
  have hdraft : ".signals.tmp" ∈ endings := by decide
  have hfile : observationSuffix ∈ endings := by decide
  have hreports : signalsSuffix ∈ endings := by decide
  refine ⟨hready.wellFormed h.wellFormed (isName_of_mem_endings hreports _) _,
    look_of_keeps hkeeps h.directory, h.genuine, fun other => ?_, fun other => ?_,
    fun other hsaved => ?_, fun other hsaved => ?_, fun name node hnode => ?_⟩
  · refine (d.node?_replaced_name sbid other hdraft hreports hfile _).trans ?_
    rw [if_neg fun heq => absurd heq.2 (by decide), if_neg fun heq => absurd heq.2 (by decide),
      h.observation other]
  · refine (d.node?_replaced_name sbid other hdraft hreports hreports _).trans ?_
    by_cases hsame : other = sbid
    · subst hsame
      rw [if_pos ⟨rfl, rfl⟩, Function.update_self]
      rfl
    · rw [if_neg fun heq => hsame heq.1, if_neg fun heq => hsame heq.1,
        Function.update_of_ne hsame, h.signals other]
  · exact resolve_of_keeps hkeeps (h.observationPath other hsaved)
  · by_cases hsame : other = sbid
    · subst hsame
      exact resolve_of_keeps hkeeps hready.filePath
    · rw [Function.update_of_ne hsame] at hsaved
      exact resolve_of_keeps hkeeps (h.signalsPath other hsaved)
  · rcases h.name_of_replaced hnode with rfl | hname
    · exact ⟨sbid, .inr rfl⟩
    · exact hname

theorem stocked (h : d.Mirrors r boards) : d.Stocked r where
  wellFormed := h.wellFormed
  directory := h.directory
  genuine := h.genuine
  file o ho := by
    refine (h.observation o.sbid).trans ?_
    rw [Repository.load_eq_some_iff.mpr ⟨ho, rfl⟩]
    rfl
  filePath o ho := h.observationPath o.sbid (by rw [Repository.load_eq_some_iff.mpr ⟨ho, rfl⟩]; rfl)
  only name node sbid hnode hsbid := by
    obtain ⟨other, rfl | rfl⟩ := h.only name node hnode
    · obtain ⟨o, hload, _⟩ := Option.map_eq_some_iff.mp ((h.observation other).symm.trans hnode)
      obtain ⟨hmem, rfl⟩ := Repository.load_eq_some_iff.mp hload
      exact ⟨o, hmem, rfl⟩
    · rw [sbidOfName?_signals] at hsbid
      cases hsbid

theorem load_eq (h : d.Mirrors r boards) (sbid : Sbid) : d.load sbid = .ok (r.load sbid) := by
  cases hload : r.load sbid with
  | none =>
      refine load_of_none ?_
      rw [h.observation sbid, hload]
      rfl
  | some o =>
      obtain ⟨hmem, rfl⟩ := Repository.load_eq_some_iff.mp hload
      exact h.stocked.load_eq hmem

theorem loadSignals_eq (h : d.Mirrors r boards) (sbid : Sbid) :
    d.loadSignals sbid = .ok ((boards sbid).getD Ascending.empty) := by
  have hnode := h.signals sbid
  cases hboard : boards sbid with
  | none =>
      rw [hboard] at hnode
      exact loadSignals_of_none hnode
  | some board =>
      rw [hboard] at hnode
      exact loadSignals_of_node (h.signalsPath sbid (by rw [hboard]; rfl)) hnode

theorem answers_eq (h : d.Mirrors r boards) :
    ObservationStore.answers d = (ObservationStore.answers r).unfailing :=
  Repository.answers_eq h.load_eq h.stocked.list_eq

end Mirrors

/-- A directory that holds nothing once it is made, which it may be already. -/
def IsBare (d : StateDirectory) : Prop :=
  ∃ made, d.tree.makeDirectories d.root = (made, .ok ()) ∧ made.names d.root = .ok []

/-- Nothing stands in a directory that holds nothing, whether it is made or not. -/
theorem IsBare.exists_made (h : d.IsBare) (hwell : d.tree.WellFormed) :
    ∃ made, d.tree.makeDirectories d.root = (made, .ok ()) ∧ made.WellFormed ∧
      d.tree.AddsDirectories made ∧ made.look d.root = .ok .directory ∧
      ∀ name, made.node? (d.placeIn name) = none := by
  obtain ⟨made, hmade, hnames⟩ := h
  obtain ⟨hmadeWell, hadds⟩ := makeDirectories_spec hwell d.root
  rw [hmade] at hmadeWell hadds
  obtain ⟨hdirectory, hlisted⟩ := names_eq_ok_iff.mp hnames
  refine ⟨made, hmade, hmadeWell, hadds, hdirectory, fun name => ?_⟩
  refine Option.eq_none_iff_forall_ne_some.mpr fun node hnode => ?_
  have hmem := hmadeWell.mem_namesAt.mpr ⟨node, hnode⟩
  rw [baseOf_of_look hdirectory, hlisted] at hmem
  cases hmem

theorem mirrors_empty (hwell : d.tree.WellFormed) (hdirectory : d.tree.look d.root = .ok .directory)
    (hempty : ∀ name, d.tree.node? (d.placeIn name) = none) :
    d.Mirrors Ascending.empty fun _ => none where
  wellFormed := hwell
  directory := hdirectory
  genuine _ ho := nomatch ho
  observation _ := hempty _
  signals _ := hempty _
  observationPath _ hsaved := nomatch hsaved
  signalsPath _ hsaved := nomatch hsaved
  only name node hnode := by
    rw [hempty name] at hnode
    cases hnode

/-- A directory in which the observations and boards stand that were saved, or one to which none was
saved yet. -/
inductive Holds (d : StateDirectory) : Repository → (Sbid → Option SignalBoard) → Prop where
  | saved {r : Repository} {boards : Sbid → Option SignalBoard} (h : d.Mirrors r boards) :
      Holds d r boards
  | bare (hwell : d.tree.WellFormed) (hbare : d.IsBare) : Holds d Ascending.empty fun _ => none

namespace Holds

/-- When the directory is made, what stands in it is what was saved. -/
theorem made (h : d.Holds r boards) {made : FileTree}
    (hmade : d.tree.makeDirectories d.root = (made, .ok ())) :
    (d.withTree made).Mirrors r boards := by
  cases h with
  | saved h =>
      rw [makeDirectories_of_look h.directory] at hmade
      obtain rfl := congrArg Prod.fst hmade
      exact h
  | bare hwell hbare =>
      obtain ⟨other, hother, hotherWell, _, hdirectory, hempty⟩ := hbare.exists_made hwell
      obtain rfl : other = made := congrArg Prod.fst (hother.symm.trans hmade)
      exact mirrors_empty hotherWell hdirectory hempty

theorem wellFormed (h : d.Holds r boards) : d.tree.WellFormed := by
  cases h with
  | saved h => exact h.wellFormed
  | bare hwell _ => exact hwell

/-- A directory to which nothing was saved yet answers as an empty one does. -/
theorem answers_of_isBare (hwell : d.tree.WellFormed) (hbare : d.IsBare) :
    ObservationStore.answers d =
        (ObservationStore.answers (Ascending.empty : Repository)).unfailing ∧
      ∀ sbid, d.loadSignals sbid = .ok Ascending.empty := by
  obtain ⟨made, hmade, hmadeWell, hadds, hdirectory, hempty⟩ := hbare.exists_made hwell
  have hnone (name : String) : d.tree.node? (d.placeIn name) = none := by
    rcases hadds (d.placeIn name) with hsame | ⟨hnone, _⟩
    · rw [← hsame, hempty]
    · exact hnone
  refine ⟨Repository.answers_eq (fun sbid => load_of_none (hnone _)) ?_,
    fun sbid => loadSignals_of_none (hnone _)⟩
  cases hthere : d.tree.isDirectory d.root with
  | false =>
      show d.list = .ok []
      rw [list, hthere]
      rfl
  | true =>
      exact (mirrors_empty hwell (look_of_isDirectory hthere) hnone).stocked.list_eq

theorem answers_eq (h : d.Holds r boards) :
    ObservationStore.answers d = (ObservationStore.answers r).unfailing ∧
      ∀ sbid, d.loadSignals sbid = .ok ((boards sbid).getD Ascending.empty) := by
  cases h with
  | saved h => exact ⟨h.answers_eq, h.loadSignals_eq⟩
  | bare hwell hbare => exact answers_of_isBare hwell hbare

/-- A save that succeeds. -/
theorem save (h : d.Holds r boards) {o : Observation} (hgenuine : o.Genuine)
    (hsaved : d.save o = (d', .ok ())) :
    d'.Mirrors (r.save o) boards := by
  obtain ⟨made, hmade, _, _, hready, rfl⟩ :=
    exists_of_replaces h.wellFormed (by decide) (by decide) (by decide) hsaved
  exact (h.made hmade).save hready hgenuine

theorem saveSignals (h : d.Holds r boards) {sbid : Sbid} {board : SignalBoard}
    (hsaved : d.saveSignals sbid board = (d', .ok ())) :
    d'.Mirrors r (Function.update boards sbid (some board)) := by
  obtain ⟨made, hmade, _, _, hready, rfl⟩ :=
    exists_of_replaces h.wellFormed (by decide) (by decide) (by decide) hsaved
  exact (h.made hmade).saveSignals board hready

end Holds

/-- What saves lead to, one after the other, each of which succeeds: the directory, the store in
memory to which the same observations were saved, and the board last saved for each identifier. -/
inductive Written (start : StateDirectory) :
    StateDirectory → Repository → (Sbid → Option SignalBoard) → Prop where
  | start : Written start start Ascending.empty fun _ => none
  | save {d d' : StateDirectory} {r : Repository} {boards : Sbid → Option SignalBoard}
      (h : Written start d r boards) {o : Observation} (ho : o.Genuine)
      (hsaved : d.save o = (d', .ok ())) : Written start d' (r.save o) boards
  | saveSignals {d d' : StateDirectory} {r : Repository} {boards : Sbid → Option SignalBoard}
      (h : Written start d r boards) {sbid : Sbid} {board : SignalBoard}
      (hsaved : d.saveSignals sbid board = (d', .ok ())) :
      Written start d' r (Function.update boards sbid (some board))

theorem Written.holds (hwell : start.tree.WellFormed) (hbare : start.IsBare)
    (h : Written start d r boards) : d.Holds r boards := by
  induction h with
  | start => exact .bare hwell hbare
  | save _ ho hsaved ih => exact .saved (ih.save ho hsaved)
  | saveSignals _ hsaved ih => exact .saved (ih.saveSignals hsaved)

/-- After any saves to a directory that held nothing, it answers every question as the store in
memory does to which the same observations were saved, and has for every identifier the board last
saved.  No board that is saved changes an answer, and no observation that is saved a board. -/
theorem faithful_of_written (hwell : start.tree.WellFormed) (hbare : start.IsBare)
    (h : Written start d r boards) :
    ObservationStore.answers d = (ObservationStore.answers r).unfailing ∧
      ObservationStore.loadAll r = .ok r.toList ∧
      (∀ sbid, d.loadSignals sbid = .ok ((boards sbid).getD Ascending.empty)) ∧
      (∀ (sbid : Sbid) (board : SignalBoard) (d' : StateDirectory),
        d.saveSignals sbid board = (d', .ok ()) →
          ObservationStore.answers d' = ObservationStore.answers d) ∧
      ∀ (o : Observation) (d' : StateDirectory), o.Genuine → d.save o = (d', .ok ()) →
        d'.loadSignals = d.loadSignals := by
  have hholds := h.holds hwell hbare
  obtain ⟨hanswers, hboards⟩ := hholds.answers_eq
  refine ⟨hanswers, r.loadAll_eq, hboards, fun sbid board d' hsaved => ?_,
    fun o d' ho hsaved => funext fun sbid => ?_⟩
  · rw [(hholds.saveSignals hsaved).answers_eq, hanswers]
  · rw [(hholds.save ho hsaved).loadSignals_eq, hboards]

/-- A directory that is not there yet, to which an observation with a failed file is saved, then a
board, then another observation, and the first one once more. -/
theorem faithful_of_written_twice :
    ∃ (start d : StateDirectory) (r : Repository) (boards : Sbid → Option SignalBoard),
      start.tree.WellFormed ∧ start.IsBare ∧ Written start d r boards ∧
        r.list = [⟨7⟩, ⟨12⟩] ∧ (boards ⟨7⟩).isSome = true ∧ boards ⟨12⟩ = none ∧
        ObservationStore.answers d = (ObservationStore.answers r).unfailing ∧
        d.loadSignals ⟨7⟩ = .ok ((boards ⟨7⟩).getD Ascending.empty) ∧
        d.loadSignals ⟨12⟩ = .ok Ascending.empty := by
  obtain ⟨start, failed, other, again, board, hwell, hbare, hfailed, hother, hagain, hlist,
      hsaves⟩ :
      ∃ (start : StateDirectory) (failed other again : Observation) (board : SignalBoard),
        start.tree.WellFormed ∧ start.IsBare ∧ failed.Genuine ∧ other.Genuine ∧ again.Genuine ∧
          Repository.list (((Repository.save Ascending.empty failed).save other).save again) =
            [⟨7⟩, ⟨12⟩] ∧
          (start.save failed).2 = .ok () ∧
          ((start.save failed).1.saveSignals ⟨7⟩ board).2 = .ok () ∧
          (((start.save failed).1.saveSignals ⟨7⟩ board).1.save other).2 = .ok () ∧
          ((((start.save failed).1.saveSignals ⟨7⟩ board).1.save other).1.save again).2 =
            .ok () := by
    let now : Timestamp := ⟨⟨2024, 3, 1, by decide⟩, 3600, 500000000, by decide, by decide⟩
    let failed := Observation.performEach now (Observation.fresh ⟨7⟩)
      [.add .catalogue "données", .setArtefactStage ⟨0⟩ .failed]
    have hfailed : failed.Reachable Observation.HasNumberFor :=
      .performEach (.new rfl) ⟨fun _ => by decide, nofun, trivial⟩
    refine ⟨⟨Ascending.empty, ⟨"state"⟩⟩, failed, Observation.fresh ⟨12⟩,
      Observation.performEach now failed [.recoverArtefact "données"],
      Ascending.empty.insert ⟨.observation ⟨7⟩, .processing⟩, wellFormed_empty,
      ⟨FileTree.put Ascending.empty ["state"] .directory, by decide +kernel, by decide +kernel⟩,
      ⟨hfailed, by decide, by decide⟩, ⟨.new rfl, by decide, by decide⟩,
      ⟨hfailed.performEach ⟨nofun, trivial⟩, by decide, by decide⟩, ?_⟩
    decide +kernel
  obtain ⟨hfirst, hsecond, hthird, hfourth⟩ := hsaves
  have hsaved {result : StateDirectory × Except StateError Unit} (h : result.2 = .ok ()) :
      result = (result.1, .ok ()) := Prod.ext rfl h
  have hwritten := (((Written.start.save hfailed (hsaved hfirst)).saveSignals
    (hsaved hsecond)).save hother (hsaved hthird)).save hagain (hsaved hfourth)
  obtain ⟨hanswers, _, hboards, _⟩ := faithful_of_written hwell hbare hwritten
  exact ⟨start, _, _, _, hwell, hbare, hwritten, hlist, by simp, by simp, hanswers,
    hboards ⟨7⟩, hboards ⟨12⟩⟩

end StateDirectory

end FaithfulStore

end ArchiveDeposit

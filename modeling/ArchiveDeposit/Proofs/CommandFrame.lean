import ArchiveDeposit.CommandLine.Run
import ArchiveDeposit.Proofs.Operation
import ArchiveDeposit.Proofs.StateFiles

/-!
# What commands leave alone

A command that changes one observation, or its reports, reads all that it needs before it writes,
and writes once.  So a command that is refused leaves every file as it was, whatever it read: a file
that does not load, or a recovery that is refused after some files were taken back.  A command that
is not refused changes the file that it is named for and no other; its draft is gone again.

**Results.**
* `Command.stores`: a command stores what it comes to, and is refused where it comes to nothing.
* `Change.frame`: storing a change leaves all else as it was.
* `Command.run_frame`: what a command leaves alone.
-/

namespace ArchiveDeposit

open FileTree

section CommandFrame

namespace Observation

variable {o o' : Observation} {now : Timestamp} {stage : Stage} {transitions : List Transition}

theorem setArtefactStage_sbid {id : ArtefactId}
    (h : o.setArtefactStage id stage now = .ok (o', transitions)) : o'.sbid = o.sbid := by
  unfold setArtefactStage at h
  split at h
  · cases h
  · split at h
    · obtain ⟨_, _, hafter⟩ := eq_ok_of_map h
      cases hafter
      rfl
    · obtain ⟨_, _, hafter⟩ := eq_ok_of_map h
      cases hafter
      rfl

theorem recoverArtefact_sbid {filename : String}
    (h : o.recoverArtefact filename now = (o', .ok transitions)) : o'.sbid = o.sbid := by
  unfold recoverArtefact at h
  split at h
  · split at h
    · cases h
    · split at h
      · cases h
      · dsimp only at h
        split at h
        · split at h
          · cases h
          · next hown =>
              cases h
              exact (recoverOwn_spec hown).1
        · cases h
          rfl
  · cases h

theorem recoverAll_sbid (h : o.recoverAll now = (o', .ok transitions)) : o'.sbid = o.sbid := by
  unfold recoverAll at h
  split at h
  · cases h
  · dsimp only at h
    split at h
    · cases h
    · split at h
      · cases h
      · next hown =>
          cases h
          exact (recoverOwn_spec hown).1

end Observation

/-- What a command stores: an observation, or the reports for one. -/
inductive Change where
  | observation (o : Observation)
  | signals (sbid : Sbid) (board : SignalBoard)

namespace Change

/-- The name of the file in which a change is stored. -/
def name : Change → String
  | .observation o => o.sbid.digits ++ StateDirectory.observationSuffix
  | .signals sbid _ => sbid.digits ++ StateDirectory.signalsSuffix

/-- The name of its draft. -/
def draft : Change → String
  | .observation o => o.sbid.digits ++ ".tmp"
  | .signals sbid _ => sbid.digits ++ ".signals.tmp"

/-- The text that is stored. -/
def text : Change → String
  | .observation o => o.toJson.pretty
  | .signals _ board => board.toJson.pretty

/-- Stores a change. -/
def apply (change : Change) (d : StateDirectory) : StateDirectory × Except StateError Unit :=
  match change with
  | .observation o => d.save o
  | .signals sbid board => d.saveSignals sbid board

end Change

namespace Command

/-- Whether a command only shows what is stored. -/
def isReport : Command → Bool
  | .status _ _ | .list _ => true
  | _ => false

/-- Whether a command changes one observation, or its reports, and takes nothing back unasked. -/
def isCautious : Command → Bool
  | .importManifest _ force => !force
  | .setState _ _ _ | .signal _ _ _ _ | .recover _ _ => true
  | _ => false

/-- What an import comes to, unless the observation is there already. -/
def imported? (d : StateDirectory) (path : Path) : Option Change :=
  match buildManifest d.tree path with
  | .error _ => none
  | .ok o => if d.contains o.sbid then none else some (.observation o)

/-- What the change of a stage comes to. -/
def staged? (d : StateDirectory) (sbid : Sbid) (file : Option String) (stage : Stage)
    (now : Timestamp) : Option Change :=
  match ObservationStore.fetch d sbid with
  | .error _ => none
  | .ok o =>
      match changeStage o file stage now with
      | .error _ => none
      | .ok (o, _) => some (.observation o)

/-- What a report comes to that is taken in or back. -/
def reported? (d : StateDirectory) (sbid : Sbid) (file : Option String) (stage : Stage)
    (withdraw : Bool) : Option Change :=
  match ObservationStore.fetch d sbid with
  | .error _ => none
  | .ok o =>
      match ownerOf o file, d.loadSignals sbid with
      | .ok owner, .ok board =>
          let signal : Signal := ⟨owner, stage⟩
          some (.signals sbid (if withdraw then board.withdraw signal else board.signal signal).1)
      | _, _ => none

/-- What a recovery comes to. -/
def recovered? (d : StateDirectory) (sbid : Sbid) (file : Option String) (now : Timestamp) :
    Option Change :=
  match ObservationStore.fetch d sbid with
  | .error _ => none
  | .ok o =>
      match recoverIn file now o with
      | (_, .error _) => none
      | (o, .ok _) => some (.observation o)

/-- What a command that changes one observation comes to, unless it is refused before. -/
def change? (c : Circumstances) (d : StateDirectory) : Command → Option Change
  | .importManifest path _ => imported? d path
  | .setState sbid file stage => staged? d sbid file stage c.now
  | .signal sbid file stage withdraw => reported? d sbid file stage withdraw
  | .recover sbid file => recovered? d sbid file c.now
  | _ => none

/-- The name of the file that a command is for. -/
def target? (d : StateDirectory) : Command → Option String
  | .importManifest path _ => (buildManifest d.tree path).toOption.map fun o =>
      o.sbid.digits ++ StateDirectory.observationSuffix
  | .setState sbid _ _ | .recover sbid _ => some (sbid.digits ++ StateDirectory.observationSuffix)
  | .signal sbid _ _ _ => some (sbid.digits ++ StateDirectory.signalsSuffix)
  | _ => none

end Command

/-- Whether a command was refused and wrote nothing, where there is no change, or stored the
change. -/
inductive Outcome.Stores (outcome : Outcome) (d : StateDirectory) : Option Change → Prop where
  | refused (htree : outcome.tree = d.tree) (hcode : outcome.code = 1) : Stores outcome d none
  | stored {change : Change} (htree : outcome.tree = (change.apply d).1.tree)
      (hcode : (change.apply d).2 = .ok () → outcome.code = 0) : Stores outcome d (some change)

/-- A command that ends with the attempt to store a change. -/
theorem Outcome.Stores.of_apply {outcome : Outcome} {d d' : StateDirectory} {change : Change}
    {result : Except StateError Unit} (happly : change.apply d = (d', result))
    (htree : outcome.tree = d'.tree) (hcode : result = .ok () → outcome.code = 0) :
    outcome.Stores d (some change) :=
  .stored (by rw [happly, htree]) (by rwa [happly])

namespace Command

variable {c : Circumstances} {d : StateDirectory} {sbid : Sbid} {file : Option String}
  {stage : Stage}

theorem stores_import (path : Path) :
    (runImport d path false).Stores d (imported? d path) := by
  unfold runImport imported?
  cases buildManifest d.tree path with
  | error e => exact .refused rfl rfl
  | ok o =>
      cases hthere : d.contains o.sbid with
      | true =>
          simp only [hthere]
          exact .refused rfl rfl
      | false =>
          simp only [hthere, saveImported]
          cases hsave : d.save o with
          | mk d' result =>
              cases result with
              | error e => exact .of_apply hsave rfl nofun
              | ok _ => exact .of_apply hsave rfl fun _ => rfl

theorem stores_setState :
    (runSetState d c sbid file stage).Stores d (staged? d sbid file stage c.now) := by
  unfold runSetState staged?
  cases ObservationStore.fetch d sbid with
  | error e => exact .refused rfl rfl
  | ok o =>
      cases hchange : changeStage o file stage c.now with
      | error e =>
          simp only [hchange]
          exact .refused rfl rfl
      | ok changed =>
          obtain ⟨after, target, transitions⟩ := changed
          simp only [hchange]
          cases hsave : d.save after with
          | mk d' result =>
              cases result with
              | error e => exact .of_apply hsave rfl nofun
              | ok _ => exact .of_apply hsave rfl fun _ => rfl

theorem stores_signal (withdraw : Bool) :
    (runSignal d c sbid file stage withdraw).Stores d
      (reported? d sbid file stage withdraw) := by
  unfold runSignal reported?
  cases ObservationStore.fetch d sbid with
  | error e => exact .refused rfl rfl
  | ok o =>
      cases howner : ownerOf o file with
      | error e =>
          simp only [howner]
          exact .refused rfl rfl
      | ok owner =>
          simp only [howner]
          -- its equation, which `unfold` derives first, is slow to derive
          delta recordSignal
          cases d.loadSignals sbid with
          | error e => exact .refused rfl rfl
          | ok board =>
              dsimp only
              generalize (if withdraw then board.withdraw ⟨owner, stage⟩
                else board.signal ⟨owner, stage⟩) = recorded
              obtain ⟨after, changed⟩ := recorded
              dsimp only
              cases hsave : d.saveSignals sbid after with
              | mk d' result =>
                  cases result with
                  | error e => exact .of_apply hsave rfl nofun
                  | ok _ => exact .of_apply hsave rfl fun _ => rfl

/-- Files and observations are recovered in one way. -/
theorem runRecover_eq :
    runRecover d c sbid file =
      let recovered := ObservationStore.recoverWith d sbid (recoverIn file c.now)
      match recovered.2 with
      | .error e =>
          (Outcome.refused recovered.1 (.recovery e)).behind (recoveryEntries d sbid file c.now)
      | .ok transitions =>
          (Outcome.done recovered.1
            (transitions.map transitionLine ++ [recoveryLine sbid file transitions])).behind
            (recoveryEntries d sbid file c.now ++ [recovered.1.savedEntry sbid]) := by
  cases file <;> rfl

theorem stores_recover :
    (runRecover d c sbid file).Stores d (recovered? d sbid file c.now) := by
  rw [runRecover_eq]
  dsimp only [recovered?, ObservationStore.recoverWith, ObservationStore.fetch]
  cases ObservationStore.load d sbid with
  | error e => exact .refused rfl rfl
  | ok found =>
      cases found with
      | none => exact .refused rfl rfl
      | some o =>
          dsimp only
          cases recoverIn file c.now o with
          | mk after result =>
              cases result with
              | error e => exact .refused rfl rfl
              | ok transitions =>
                  dsimp only
                  cases hsave : ObservationStore.save d after with
                  | mk d' result =>
                      cases result with
                      | error e => exact .of_apply hsave rfl nofun
                      | ok _ => exact .of_apply hsave rfl fun _ => rfl

/-- A command that changes one observation stores what it comes to, and is refused and writes
nothing where it comes to nothing. -/
theorem stores (command : Command) (hcautious : command.isCautious = true) (c : Circumstances)
    (tree : FileTree) :
    (command.run c tree).Stores (c.settings.stateDirectoryIn tree)
      (command.change? c (c.settings.stateDirectoryIn tree)) := by
  cases command with
  | importManifest path force =>
      cases force with
      | true => cases hcautious
      | false => exact stores_import path
  | setState sbid file stage => exact stores_setState
  | signal sbid file stage withdraw => exact stores_signal withdraw
  | recover sbid file => exact stores_recover
  | progress _ _ | status _ _ | list _ => cases hcautious

/-- A command that only shows what is stored leaves every file as it was. -/
theorem tree_of_isReport (command : Command) (hreport : command.isReport = true)
    (c : Circumstances) (tree : FileTree) : (command.run c tree).tree = tree := by
  cases command with
  | status sbid json =>
      dsimp only [run, runStatus]
      split <;> rfl
  | list selection =>
      dsimp only [run, runList]
      split
      · rfl
      split
      · dsimp only [listing]
        split <;> rfl
      split
      · rfl
      · dsimp only [listing]
        split <;> rfl
  | importManifest _ _ | progress _ _ | setState _ _ _ | signal _ _ _ _ | recover _ _ =>
      cases hreport

/-- Nothing is reported where the reports that are in do not load. -/
theorem reported_of_error {e : StateError} (hboard : d.loadSignals sbid = .error e)
    {withdraw : Bool} : reported? d sbid file stage withdraw = none := by
  unfold reported?
  rw [hboard]
  split
  · rfl
  · split
    · next hnone => cases hnone
    · rfl

theorem recovered_of_ok {o after : Observation} {transitions : List Transition} {now : Timestamp}
    (hfetch : ObservationStore.fetch d sbid = .ok o)
    (hrecover : recoverIn file now o = (after, .ok transitions)) :
    recovered? d sbid file now = some (.observation after) := by
  unfold recovered?
  rw [hfetch]
  dsimp only
  rw [hrecover]

theorem fetch_sbid {o : Observation} (h : ObservationStore.fetch d sbid = .ok o) :
    o.sbid = sbid := by
  have hload : d.load sbid = .ok (some o) := by
    unfold ObservationStore.fetch at h
    split at h
    · cases h
    · cases h
    · next hload =>
        cases h
        exact hload
  unfold StateDirectory.load at hload
  split at hload
  · cases hload
  · cases hload
  · split at hload
    · next hsbid =>
        cases hload
        exact hsbid
    · cases hload

theorem changeStage_sbid {o after : Observation} {target : String}
    {transitions : List Transition} {now : Timestamp}
    (h : changeStage o file stage now = .ok (after, target, transitions)) :
    after.sbid = o.sbid := by
  unfold changeStage at h
  split at h
  · cases hadvance : o.advance stage now with
    | error e =>
        rw [hadvance] at h
        cases h
    | ok changed =>
        rw [hadvance] at h
        cases h
        exact (Observation.advance_spec hadvance).1
  · split at h
    · cases h
    · next a _ =>
        cases hset : o.setArtefactStage a.id stage now with
        | error e =>
            rw [hset] at h
            cases h
        | ok changed =>
            rw [hset] at h
            cases h
            exact Observation.setArtefactStage_sbid hset

theorem recoverIn_sbid {o after : Observation} {transitions : List Transition} {now : Timestamp}
    (h : recoverIn file now o = (after, .ok transitions)) : after.sbid = o.sbid := by
  cases file with
  | none => exact Observation.recoverAll_sbid h
  | some filename => exact Observation.recoverArtefact_sbid h

/-- What a command comes to is stored in the file that it is for. -/
theorem target_of_change {command : Command} {change : Change}
    (h : command.change? c d = some change) : command.target? d = some change.name := by
  cases command with
  | importManifest path force =>
      dsimp only [change?, imported?, target?] at h ⊢
      split at h
      · cases h
      · next o hbuild =>
          split at h
          · cases h
          · cases h
            rw [hbuild]
            rfl
  | setState sbid file stage =>
      dsimp only [change?, staged?, target?] at h ⊢
      split at h
      · cases h
      · next o hfetch =>
          split at h
          · cases h
          · next after _ hchange =>
              cases h
              rw [Change.name, changeStage_sbid hchange, fetch_sbid hfetch]
  | signal sbid file stage withdraw =>
      dsimp only [change?, reported?, target?] at h ⊢
      split at h
      · cases h
      · split at h
        · cases h
          rfl
        · cases h
  | recover sbid file =>
      dsimp only [change?, recovered?, target?] at h ⊢
      split at h
      · cases h
      · next o hfetch =>
          split at h
          · cases h
          · next after _ hrecover =>
              cases h
              rw [Change.name, recoverIn_sbid hrecover, fetch_sbid hfetch]
  | progress _ _ | status _ _ | list _ => cases h

end Command

/-- Whether no draft is left over in a directory. -/
def StateDirectory.HasNoDrafts (d : StateDirectory) : Prop :=
  ∀ name : String, ".tmp".toList <:+ name.toList → d.tree.node? (d.placeIn name) = none

theorem StateDirectory.hasNoDrafts_of_names {d : StateDirectory} (hwell : d.tree.WellFormed)
    (h : ∀ name ∈ d.tree.namesAt (baseOf d.root), ¬ ".tmp".toList <:+ name.toList) :
    d.HasNoDrafts := by
  refine fun name hsuffix => Option.eq_none_iff_forall_ne_some.mpr fun node hnode => ?_
  exact h name (hwell.mem_namesAt.mpr ⟨node, hnode⟩) hsuffix

namespace Change

variable {d : StateDirectory} {change : Change}

theorem suffix_draft (change : Change) : ".tmp".toList <:+ change.draft.toList := by
  cases change with
  | observation o =>
      rw [draft, String.toList_append]
      exact List.suffix_append _ _
  | signals sbid board =>
      have hending : ".signals.tmp".toList = ".signals".toList ++ ".tmp".toList := by decide
      rw [draft, String.toList_append, hending, ← List.append_assoc]
      exact List.suffix_append _ _

/-- Storing a change replaces its file. -/
theorem exists_of_apply (hwell : d.tree.WellFormed) (hok : (change.apply d).2 = .ok ()) :
    ∃ made, d.tree.makeDirectories d.root = (made, .ok ()) ∧ d.tree.AddsDirectories made ∧
      (d.withTree made).Ready change.draft change.name ∧
      (change.apply d).1 = (d.withTree made).replaced change.draft change.name change.text := by
  have happly : change.apply d = ((change.apply d).1, .ok ()) := Prod.ext rfl hok
  cases change with
  | observation o =>
      obtain ⟨made, hmade, _, hadds, hready, hafter⟩ :=
        StateDirectory.exists_of_replaces hwell (by decide) (by decide) (by decide) happly
      exact ⟨made, hmade, hadds, hready, hafter⟩
  | signals sbid board =>
      obtain ⟨made, hmade, _, hadds, hready, hafter⟩ :=
        StateDirectory.exists_of_replaces hwell (by decide) (by decide) (by decide) happly
      exact ⟨made, hmade, hadds, hready, hafter⟩

/-- Storing a change leaves all but its file as it was, in a directory that is made if it is not
there. -/
theorem frame (hwell : d.tree.WellFormed) (hdrafts : d.HasNoDrafts)
    (hok : (change.apply d).2 = .ok ()) :
    ∃ made, d.tree.AddsDirectories made ∧ (d.tree.isDirectory d.root = true → made = d.tree) ∧
      ∀ place, place ≠ d.placeIn change.name →
        (change.apply d).1.tree.node? place = made.node? place := by
  obtain ⟨made, hmade, hadds, hready, hafter⟩ := exists_of_apply hwell hok
  refine ⟨made, hadds, fun hthere => ?_, fun place hplace => ?_⟩
  · rw [makeDirectories_of_look (look_of_isDirectory hthere)] at hmade
    exact (congrArg Prod.fst hmade).symm
  have hroot : (d.withTree made).placeIn = d.placeIn := rfl
  rw [hafter, StateDirectory.node?_replaced, hroot, if_neg hplace]
  split
  · next hdraft =>
      -- A directory that was made in the place of the draft could not have been written to.
      have hfree : made.node? (d.placeIn change.draft) ≠ some .directory := hready.draft_ne
      rcases hadds (d.placeIn change.draft) with hsame | ⟨_, hdirectory⟩
      · rw [hdraft, hsame, hdrafts change.draft change.suffix_draft]
      · exact absurd hdirectory hfree
  · rfl

end Change

/-- A directory with the two files of an observation in it. -/
theorem wellFormed_files (observation reports : FileNode) :
    WellFormed (((put Ascending.empty ["state"] .directory).put ["state", "7.json"] observation).put
      ["state", "7.signals.json"] reports) := by
  have hdirectory : WellFormed (put Ascending.empty ["state"] .directory) :=
    wellFormed_empty.put (by decide) (.inl rfl) (.inl rfl)
  have hstored : WellFormed
      ((put Ascending.empty ["state"] .directory).put ["state", "7.json"] observation) :=
    hdirectory.put (by decide) (.inl rfl) (.inr ⟨by decide, nofun⟩)
  exact hstored.put (by decide) (.inl rfl) (.inr ⟨by decide, nofun⟩)

/-- Reports that do not load refuse another report, and do not keep the observation from being
recovered. -/
theorem Command.exists_unreadable_reports :
    ∃ (c : Circumstances) (tree : FileTree) (recovered : Observation),
      tree.WellFormed ∧ (c.settings.stateDirectoryIn tree).HasNoDrafts ∧
        (Command.signal ⟨7⟩ none .processing false).change? c
          (c.settings.stateDirectoryIn tree) = none ∧
        (Command.recover ⟨7⟩ none).change? c (c.settings.stateDirectoryIn tree) =
          some (.observation recovered) ∧
        ((c.settings.stateDirectoryIn tree).save recovered).2 = .ok () := by
  obtain ⟨c, tree, failed, recovered, transitions, cause, hwell, hnames, hstorable, hsbid, hpath,
      hnode, hreports, hrecover, hsave, hroot⟩ :
      ∃ (c : Circumstances) (tree : FileTree) (failed recovered : Observation)
        (transitions : List Transition) (cause : StateError),
        tree.WellFormed ∧
        (∀ name ∈ tree.namesAt ["state"], ¬ ".tmp".toList <:+ name.toList) ∧
        failed.Storable ∧ failed.sbid = ⟨7⟩ ∧
        tree.resolve ((⟨"state"⟩ : Path).join "7.json") = .ok ["state", "7.json"] ∧
        tree.node? ["state", "7.json"] = some (.file failed.toJson.pretty) ∧
        (c.settings.stateDirectoryIn tree).loadSignals ⟨7⟩ = .error cause ∧
        recoverIn none c.now failed = (recovered, .ok transitions) ∧
        ((c.settings.stateDirectoryIn tree).save recovered).2 = .ok () ∧
        c.settings.stateDirectory = ⟨"state"⟩ := by
    let now : Timestamp := ⟨⟨2024, 3, 1, by decide⟩, 3600, 500000000, by decide, by decide⟩
    let failed := Observation.performEach now (Observation.fresh ⟨7⟩)
      [.add .catalogue "données", .setArtefactStage ⟨0⟩ .failed, .advance .failed]
    have hreachable : failed.Reachable fun _ _ => True :=
      .performEach (.new rfl) ⟨trivial, trivial, trivial, trivial⟩
    exact ⟨⟨Settings.standard.withStateDirectory ⟨"state"⟩, now⟩, _, failed, _, _,
      .undecodable ⟨"state/7.signals.json"⟩ none,
      wellFormed_files (.file failed.toJson.pretty) (.file ""), by decide +kernel,
      ⟨hreachable.sound.wellFormed.files.hasWords (by decide), by decide⟩, rfl,
      by decide +kernel, by decide +kernel, by decide +kernel, by rfl, by decide +kernel, rfl⟩
  have hd : c.settings.stateDirectoryIn tree = ⟨tree, ⟨"state"⟩⟩ := by
    rw [Settings.stateDirectoryIn, hroot]
  have hbase : baseOf ⟨"state"⟩ = ["state"] := by decide
  have hfile : (⟨7⟩ : Sbid).digits ++ StateDirectory.observationSuffix = "7.json" := by decide
  have hplace : (⟨tree, ⟨"state"⟩⟩ : StateDirectory).placeIn "7.json" = ["state", "7.json"] := by
    rw [StateDirectory.placeIn, hbase]
    rfl
  have hdrafts : (c.settings.stateDirectoryIn tree).HasNoDrafts := by
    rw [hd]
    exact StateDirectory.hasNoDrafts_of_names hwell (by rwa [hbase])
  have hload : ObservationStore.load (c.settings.stateDirectoryIn tree) ⟨7⟩ =
      .ok (some failed) := by
    rw [hd, ← hsbid]
    refine StateDirectory.load_of_node hstorable ?_ ?_
    · rw [hsbid, hfile, hplace, StateDirectory.observationFile, hfile]
      exact hpath
    · rw [hsbid, hfile, hplace]
      exact hnode
  have hfetch : ObservationStore.fetch (c.settings.stateDirectoryIn tree) ⟨7⟩ = .ok failed := by
    rw [ObservationStore.fetch, hload]
  exact ⟨c, tree, recovered, hwell, hdrafts, reported_of_error hreports,
    recovered_of_ok hfetch hrecover, hsave⟩

/-- A command that only shows what is stored leaves every file as it was.  A command that changes
one observation or its reports, without force, ends with the code 1 and leaves everything as it was,
or with the code 0 and leaves everything as it was but the file that it is for; the state directory
is made if it was not there.  Here no draft is left over from before, and where a change is stored,
its file is written. -/
theorem Command.run_frame (command : Command) (c : Circumstances) (tree : FileTree) :
    (command.isReport = true → (command.run c tree).tree = tree) ∧
      (command.isCautious = true → tree.WellFormed →
        (c.settings.stateDirectoryIn tree).HasNoDrafts →
        (∀ change, command.change? c (c.settings.stateDirectoryIn tree) = some change →
          (change.apply (c.settings.stateDirectoryIn tree)).2 = .ok ()) →
        (command.run c tree).code = 1 ∧ (command.run c tree).tree = tree ∨
          (command.run c tree).code = 0 ∧
            ∃ name made, command.target? (c.settings.stateDirectoryIn tree) = some name ∧
              tree.AddsDirectories made ∧
              (tree.isDirectory c.settings.stateDirectory = true → made = tree) ∧
              ∀ place, place ≠ (c.settings.stateDirectoryIn tree).placeIn name →
                (command.run c tree).tree.node? place = made.node? place) := by
  refine ⟨fun hreport => command.tree_of_isReport hreport c tree,
    fun hcautious hwell hdrafts hwrites => ?_⟩
  have hstores := command.stores hcautious c tree
  cases hchange : command.change? c (c.settings.stateDirectoryIn tree) with
  | none =>
      rw [hchange] at hstores
      obtain ⟨htree, hcode⟩ | _ := hstores
      exact .inl ⟨hcode, htree⟩
  | some change =>
      rw [hchange] at hstores
      obtain _ | ⟨htree, hcode⟩ := hstores
      have hok := hwrites change hchange
      obtain ⟨made, hadds, hthere, hframe⟩ := change.frame hwell hdrafts hok
      refine .inr ⟨hcode hok, change.name, made, target_of_change hchange, hadds, hthere, ?_⟩
      rw [htree]
      exact hframe

/-- A directory with an observation that has failed with its file, and with reports that do not
load: the status is shown, a report is refused, and the observation is recovered. -/
theorem Command.run_frame_unreadable_reports :
    ∃ (c : Circumstances) (tree : FileTree) (made : FileTree),
      tree.WellFormed ∧ (c.settings.stateDirectoryIn tree).HasNoDrafts ∧
        ((Command.status ⟨7⟩ true).run c tree).tree = tree ∧
        ((Command.signal ⟨7⟩ none .processing false).run c tree).code = 1 ∧
        ((Command.signal ⟨7⟩ none .processing false).run c tree).tree = tree ∧
        ((Command.recover ⟨7⟩ none).run c tree).code = 0 ∧
        tree.AddsDirectories made ∧
        ∀ place, place ≠ (c.settings.stateDirectoryIn tree).placeIn "7.json" →
          ((Command.recover ⟨7⟩ none).run c tree).tree.node? place = made.node? place := by
  obtain ⟨c, tree, recovered, hwell, hdrafts, hrefused, hrecovered, hsave⟩ :=
    exists_unreadable_reports
  have hnever : ∀ change, (Command.signal ⟨7⟩ none .processing false).change? c
      (c.settings.stateDirectoryIn tree) = some change →
        (change.apply (c.settings.stateDirectoryIn tree)).2 = .ok () := by
    intro change hchange
    rw [hrefused] at hchange
    cases hchange
  have hwrites : ∀ change, (Command.recover ⟨7⟩ none).change? c
      (c.settings.stateDirectoryIn tree) = some change →
        (change.apply (c.settings.stateDirectoryIn tree)).2 = .ok () := by
    intro change hchange
    obtain rfl := Option.some.inj (hrecovered.symm.trans hchange)
    exact hsave
  have hstatus := (Command.run_frame (.status ⟨7⟩ true) c tree).1 rfl
  have hsignal := (Command.run_frame (.signal ⟨7⟩ none .processing false) c tree).2 rfl hwell
    hdrafts hnever
  have hrecover := (Command.run_frame (.recover ⟨7⟩ none) c tree).2 rfl hwell hdrafts hwrites
  have hunsaid := Command.stores (.signal ⟨7⟩ none .processing false) rfl c tree
  have hstored := Command.stores (.recover ⟨7⟩ none) rfl c tree
  rw [hrefused] at hunsaid
  rw [hrecovered] at hstored
  obtain ⟨_, hone⟩ | _ := hunsaid
  obtain _ | ⟨_, hcode⟩ := hstored
  have hzero := hcode (hwrites _ hrecovered)
  obtain ⟨_, htree⟩ | ⟨hunrefused, _⟩ := hsignal
  · obtain ⟨hrefused', _⟩ | ⟨_, name, made, hname, hadds, _, hframe⟩ := hrecover
    · rw [hzero] at hrefused'
      cases hrefused'
    · obtain rfl : "7.json" = name := Option.some.inj hname
      exact ⟨c, tree, made, hwell, hdrafts, hstatus, hone, htree, hzero, hadds, hframe⟩
  · rw [hone] at hunrefused
    cases hunrefused

end CommandFrame

end ArchiveDeposit

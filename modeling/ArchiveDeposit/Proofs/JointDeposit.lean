import ArchiveDeposit.Proofs.DepositOrder
import ArchiveDeposit.Proofs.OnCourse

/-!
# Nobody is left behind by a deposit

Packed files are deposited with their encapsulation, once, when it is deposited.  A packed file that
is left behind then would wait for ever.  Steps and reports leave nobody behind: they deposit an
encapsulation only over packed files, and take these along.  What can leave a file behind is that it
comes late, into an encapsulation that is deposited already; nothing refuses this.

**Results.**
* `Observation.takesMembers_afterCommit`, `Observation.takesMembers_fileStep`: the members that an
  encapsulation takes along in the change that a job reports and in a call of progress.
* `Observation.NoneBehind.perform`: every operation keeps everybody together unless it packs a file
  late, or deposits the file of an encapsulation alone.
* `Observation.noneBehind_iff`: nobody is left behind as long as no file is packed late, and no
  longer.
-/

namespace ArchiveDeposit

section JointDeposit

/-- Whether an operation deposits the file of an encapsulation alone, whatever its members are. -/
def Operation.passesMembers : Operation → Bool
  | .advanceEncapsulation _ stage => stage == .deposited
  | _ => false

namespace Observation

open Encapsulation

variable {o o' : Observation} {f : Artefact → Artefact} {parent : Parent}
  {artefacts : List Artefact} {now : Timestamp} {operation : Operation}

/-- The members of an encapsulation that is deposited are deposited, both seen through failures. -/
def NoneBehind (o : Observation) : Prop :=
  ∀ file member, Holds o.artefacts file member →
    file.record.effectiveStage = .deposited → member.record.effectiveStage = .deposited

/-- The operation packs a file, which nothing else keeps from being added, into an encapsulation that
is deposited. -/
def PacksLate (o : Observation) (operation : Operation) : Prop :=
  ∃ kind filename, ∃ file ∈ o.artefacts,
    operation = .addEncapsulated kind filename file.id ∧ file.isEncapsulation = true ∧
      kind.isEncapsulatable = true ∧ o.named? filename = none ∧
        file.record.effectiveStage = .deposited

/-- A change of files that deposits encapsulations only with their members. -/
def TakesMembers (artefacts : List Artefact) (f : Artefact → Artefact) : Prop :=
  ∀ file member, Holds artefacts file member → (f file).record.effectiveStage = .deposited →
    file.record.effectiveStage = .deposited ∨ (f member).record.effectiveStage = .deposited

/-- A member of an encapsulation that is deposited is deposited itself, or it failed after it was. -/
theorem NoneBehind.member_cases (h : o.NoneBehind) {file member : Artefact}
    (hholds : Holds o.artefacts file member) (hdeposited : file.isDeposited = true) :
    member.isDeposited = true ∨
      member.isFailed = true ∧ member.record.checkpoint = some .deposited := by
  have heffective := h file member hholds (Artefact.effectiveStage_of_isDeposited hdeposited)
  unfold DepositRecord.effectiveStage DepositRecord.recoveryStage at heffective
  split at heffective
  · next hfailed =>
      refine Or.inr ⟨hfailed, ?_⟩
      cases hcheckpoint : member.record.checkpoint with
      | none =>
          -- No lifecycle begins where it ends.
          rw [hcheckpoint, Option.getD_none] at heffective
          revert heffective
          cases member.record.state.lifecycle <;> decide
      | some stage =>
          rw [hcheckpoint, Option.getD_some] at heffective
          rw [heffective]
  · exact Or.inl (beq_of_eq heffective)

theorem NoneBehind.moves (h : o.NoneBehind) (hsound : o.Sound) (hm : o.Moves f o')
    (htakes : TakesMembers o.artefacts f) : o'.NoneBehind := by
  intro file member hholds hdeposited
  rw [hm.artefacts] at hholds
  obtain ⟨a, b, hab, rfl, rfl⟩ := hholds.of_map hm.files
  rcases htakes a b hab hdeposited with hbefore | hnow
  · have hmember := h a b hab hbefore
    exact (hm.files b hab.mem_member).record.deposited (hsound.files b hab.mem_member) hmember
  · exact hnow

theorem NoneBehind.of_artefacts_eq (h : o.NoneBehind) (heq : o'.artefacts = o.artefacts) :
    o'.NoneBehind := by
  intro file member hholds
  rw [heq] at hholds
  exact h file member hholds

/-- The change of one file.  If that is an encapsulation which is deposited by it, the change has to
be reported, its members have to be packed, and they have to be taken along. -/
theorem takesMembers_afterCommit (hs : Siblings parent artefacts) {a : Artefact}
    (ha : a ∈ artefacts) {change : Artefact × Option Transition} {deposits : Bool}
    (hself : a.isEncapsulation = true → change.1.record.effectiveStage = .deposited →
      a.record.effectiveStage = .deposited ∨
        deposits = true ∧ change.2.isSome = true ∧
          ∀ member, Holds artefacts a member → member.state.hasReached .encapsulated = true)
    (now : Timestamp) : TakesMembers artefacts (afterCommit a.id change deposits now) := by
  intro file member hholds hdeposited
  by_cases hfile : file.id = a.id
  · have hsame := hs.arranged.eq_of_id hholds.mem_file ha hfile
    subst hsame
    rw [afterCommit, if_pos rfl] at hdeposited
    rcases hself (hholds.isEncapsulation hs) hdeposited with hbefore | ⟨hdep, hreported, hall⟩
    · exact Or.inl hbefore
    · right
      have htaken : afterCommit file.id change deposits now member =
          (member.depositPacked now).1 := by
        simp [afterCommit, hholds.id_ne hs, hdep, hreported, hholds.encapsulation]
      rw [htaken]
      exact Artefact.effectiveStage_of_isDeposited
        (Artefact.isDeposited_depositPacked (hholds.member_lifecycle hs) (hall member hholds) now)
  · have hnone := ((hs.belongs file hholds.mem_file).of_isEncapsulation
      (hholds.isEncapsulation hs)).1
    rw [show afterCommit a.id change deposits now file = file by
      simp [afterCommit, hfile, hnone]] at hdeposited
    exact Or.inl hdeposited

/-- A change that a job reports deposits an encapsulation only over packed members. -/
theorem takesMembers_of_advance (hs : Siblings parent artefacts) {a : Artefact}
    (ha : a ∈ artefacts) {stage : Stage} {change : Artefact × Option Transition} {deposits : Bool}
    (hadvance : a.advance stage now = .ok change)
    (hdeposits : a.isEncapsulation = true → stage = .deposited → deposits = true)
    (hready : a.isEncapsulation = true → stage = .deposited → ∀ member ∈ artefacts,
      member.encapsulation = some a.id → member.state.hasReached .encapsulated = true) :
    TakesMembers artefacts (afterCommit a.id change deposits now) := by
  refine takesMembers_afterCommit hs ha (fun hkind hdeposited => ?_) now
  rw [Artefact.effectiveStage_advance hadvance] at hdeposited
  split at hdeposited
  · exact Or.inl hdeposited
  · subst hdeposited
    cases hreported : change.2 with
    | none =>
        left
        have hsame := Artefact.effectiveStage_advance hadvance
        rwa [Artefact.advance_fst_of_snd_eq_none hadvance hreported] at hsame
    | some transition =>
        exact Or.inr ⟨hdeposits hkind rfl, rfl, fun member hholds =>
          hready hkind rfl member hholds.mem_member hholds.encapsulation⟩

/-- The own step of an encapsulation reaches its deposit only from where it takes the members
along. -/
theorem deposits_of_effectiveStage_step (hs : Siblings parent artefacts) {file : Artefact}
    (hfile : file ∈ artefacts) (hkind : file.isEncapsulation = true) {signals : Signals}
    (hdeposited : (step artefacts signals now file).1.record.effectiveStage = .deposited) :
    file.record.effectiveStage = .deposited ∨ deposits artefacts signals now file = true := by
  rcases file.progress_cases
    { signals := signals, children := (members artefacts file.id).map Artefact.state } now with
    hsame | ⟨taken, hstep, _, _, htarget, heffective⟩
  · left
    rwa [show (step artefacts signals now file).1 = file from hsame] at hdeposited
  · right
    have hmem : taken ∈ Lifecycle.encapsulation.steps := by
      rw [← ((hs.belongs file hfile).of_isEncapsulation hkind).2]
      exact List.mem_of_find?_eq_some hstep
    have hend : taken.target = .deposited := heffective.symm.trans hdeposited
    have harchived := ((Lifecycle.encapsulation_gates taken hmem).2 hend).1
    rw [Lifecycle.source_of_stepFrom? hstep] at harchived
    have hafter : (step artefacts signals now file).1.stage = .deposited := htarget.trans hend
    simp [deposits, harchived, hafter]

theorem takesMembers_fileStep (hs : Siblings parent artefacts) (stage : Stage) (signals : Signals)
    (now : Timestamp) : TakesMembers artefacts (fileStep stage artefacts signals now) := by
  intro file member hholds hdeposited
  have hkind := hholds.isEncapsulation hs
  by_cases hstage : stage = .depositing
  · subst hstage
    rw [fileStep_depositing_of_isEncapsulation hholds.mem_file hkind] at hdeposited
    have hafter := hholds.map_ownStep hs signals now
    exact (deposits_of_effectiveStage_step (hs.map (continues_ownStep artefacts signals now))
      hafter.mem_file hkind hdeposited).imp_right (hholds.effectiveStage_fileStep_of_deposits hs)
  · rw [fileStep_of_isEncapsulation hkind hstage] at hdeposited
    exact Or.inl hdeposited

theorem takesMembers_afterJobs (hs : Siblings parent artefacts) (now : Timestamp) :
    TakesMembers artefacts (·.afterJobs now) := by
  intro file member hholds hdeposited
  left
  simp only [Artefact.afterJobs] at hdeposited
  split at hdeposited
  · next hpack =>
      have hkind := not_isEncapsulation_of_isPackable hs hholds.mem_file hpack
      rw [hholds.isEncapsulation hs] at hkind
      cases hkind
  · exact hdeposited

theorem Stays.takesMembers (h : o.Stays f o') (hsound : o.Sound) : TakesMembers o.artefacts f := by
  intro file member hholds hdeposited
  left
  rwa [(h.files file hholds.mem_file).effectiveStage
    (hsound.files file hholds.mem_file)] at hdeposited

/-- A file that is added leaves nobody behind unless its encapsulation is deposited. -/
theorem NoneBehind.push (h : o.NoneBehind) (hsound : o.Sound) {kind : Kind} {filename : String}
    {encapsulation : Option ArtefactId} {id : ArtefactId}
    (hpacked : ∀ id, encapsulation = some id →
      ∃ file ∈ o.artefacts, file.id = id ∧ file.isEncapsulation = true)
    (hopen : ∀ file ∈ o.artefacts, encapsulation = some file.id →
      file.record.effectiveStage ≠ .deposited)
    (hok : o.push .standard kind filename encapsulation = .ok (o', id)) : o'.NoneBehind := by
  intro file member hholds hdeposited
  rcases holds_push_cases hsound hpacked hok hholds with hold | ⟨hfile, henc, _⟩
  · exact h file member hold hdeposited
  · exact absurd hdeposited (hopen file hfile henc)

theorem NoneBehind.setEncapsulationStage (h : o.NoneBehind) (hsound : o.Sound) {id : ArtefactId}
    {stage : Stage} {artefacts : List Artefact} {log : List Transition}
    (hok : setStage o.artefacts id stage now = .ok (artefacts, log)) :
    (o.withArtefacts artefacts).NoneBehind := by
  have hwf := hsound.wellFormed
  cases hfind : find? o.artefacts id with
  | none =>
      simp only [setStage, hfind, Except.ok.injEq, Prod.mk.injEq] at hok
      exact h.of_artefacts_eq hok.1.symm
  | some found =>
      obtain ⟨ha, rfl, _, hkind⟩ := hwf.files.arranged.mem_of_find? hfind
      obtain ⟨change, hadvance, rfl, hready⟩ := setStage_spec hwf.files ha hkind hok
      apply h.moves hsound (moves_afterCommit hwf ha (Artefact.continues_advance hadvance) _ now)
      exact takesMembers_of_advance hwf.files ha hadvance (fun _ => beq_of_eq) fun _ => hready

theorem NoneBehind.progressEncapsulation (h : o.NoneBehind) (hsound : o.Sound) (id : ArtefactId)
    (signals : Signals) (now : Timestamp) :
    (o.withArtefacts (Encapsulation.progress o.artefacts id signals now).1).NoneBehind := by
  have hwf := hsound.wellFormed
  cases hfind : find? o.artefacts id with
  | none =>
      apply h.of_artefacts_eq
      simp [Encapsulation.progress, hfind, withArtefacts]
  | some found =>
      obtain ⟨ha, rfl, _, hkind⟩ := hwf.files.arranged.mem_of_find? hfind
      rw [hwf.files.arranged.progress_fst ha hkind signals now]
      apply h.moves hsound (moves_afterCommit hwf ha (continues_step ..) _ now)
      refine takesMembers_afterCommit hwf.files ha (fun _ hdeposited => ?_) now
      refine (deposits_of_effectiveStage_step hwf.files ha hkind hdeposited).imp_right
        fun hdeposits => ?_
      exact ⟨hdeposits, Arranged.isSome_of_deposits hdeposits,
        ((deposits_iff hwf.files ha hkind).mp hdeposits).2⟩

/-- A report on the file of an encapsulation alone leaves nobody behind unless it is its deposit. -/
theorem NoneBehind.advanceEncapsulation (h : o.NoneBehind) (hsound : o.Sound) {id : ArtefactId}
    {stage : Stage} (hstage : stage ≠ .deposited) {artefacts : List Artefact}
    {log : List Transition}
    (hok : changeFile o.artefacts id (·.advance stage now) now = .ok (artefacts, log)) :
    (o.withArtefacts artefacts).NoneBehind := by
  have hwf := hsound.wellFormed
  rcases changeFile_spec hwf.files (Artefact.reports_advance stage now) hok with
    rfl | ⟨a, ha, rfl, _, changed, hchanged, rfl⟩
  · exact h
  · apply h.moves hsound
      (moves_afterCommit hwf ha (Artefact.continues_advance hchanged) false now)
    exact takesMembers_of_advance hwf.files ha hchanged (fun _ hend => absurd hend hstage)
      fun _ hend => absurd hend hstage

/-- Every operation leaves nobody behind unless it packs a file late or deposits the file of an
encapsulation alone. -/
theorem NoneBehind.perform (h : o.NoneBehind) (hsound : o.Sound)
    (hpasses : operation.passesMembers = false) (hlate : ¬ o.PacksLate operation)
    (now : Timestamp) : (o.perform operation now).1.NoneBehind := by
  have hwf := hsound.wellFormed
  have hrecovered : operation.recovers = true → (o.perform operation now).1.NoneBehind := by
    intro hrecovers
    obtain ⟨f, hstays⟩ := perform_stays hsound hrecovers now
    exact h.moves hsound hstays.moves (hstays.takesMembers hsound)
  cases operation with
  | add kind filename =>
      rcases perform_add_cases o kind filename now with hrefused | ⟨id, hok⟩
      · rw [hrefused]
        exact h
      · refine h.push hsound (fun packed hnone => ?_) (fun file _ hnone => ?_) hok
        · cases hnone
        · cases hnone
  | addEncapsulated kind filename encapsulation =>
      rcases perform_addEncapsulated_cases hwf kind filename encapsulation now with
        hrefused | ⟨hfile, id, hok⟩
      · rw [hrefused]
        exact h
      · obtain ⟨_, hname, _, l, hl, _⟩ := push_spec hok
        have hkind : kind.isEncapsulatable = true := by
          simp only [Factory.lifecycleFor, Option.isSome_some, if_true] at hl
          split at hl
          · next hpack => exact hpack
          · cases hl
        refine h.push hsound (fun packed hsome => ?_) (fun file hmem hsome hdeposited => ?_) hok
        · rw [← Option.some.inj hsome]
          exact hfile
        · obtain ⟨other, hother, hid, hotherKind⟩ := hfile
          have hsame := hwf.files.arranged.eq_of_id hother hmem (hid.trans (Option.some.inj hsome))
          subst hsame
          exact hlate ⟨kind, filename, other, hother, by rw [hid], hotherKind, hkind, hname,
            hdeposited⟩
  | setArtefactStage id stage =>
      refine orRefused_cases h fun o' log hok => ?_
      obtain ⟨a, ha, rfl, change, hadvance, rfl, hready⟩ := setArtefactStage_spec hwf.files hok
      apply h.moves hsound (moves_afterCommit hwf ha (Artefact.continues_advance hadvance) _ now)
      refine takesMembers_of_advance hwf.files ha hadvance (fun hkind hend => ?_) hready
      rw [hkind, hend]
      rfl
  | advance stage =>
      exact orOwnRefused_cases h fun o' transition hok => h.of_artefacts_eq (advance_spec hok).2.1
  | progress signals =>
      exact h.moves hsound (moves_progress hwf signals now)
        (takesMembers_fileStep hwf.files o.stage signals now)
  | runJobs =>
      exact h.moves hsound (moves_runJobs hwf now) (takesMembers_afterJobs hwf.files now)
  | setEncapsulationStage id stage =>
      exact orFilesRefused_cases h fun artefacts log hok => h.setEncapsulationStage hsound hok
  | advanceEncapsulation id stage =>
      have hstage : stage ≠ .deposited := by
        rintro rfl
        cases hpasses
      exact orFilesRefused_cases h fun artefacts log hok =>
        h.advanceEncapsulation hsound hstage hok
  | progressEncapsulation id signals => exact h.progressEncapsulation hsound id signals now
  | recoverEncapsulation id | recoverArtefact filename | recoverAll | recoverOwn =>
      exact hrecovered rfl

/-- A file that is packed late is never refused, and is left behind. -/
theorem PacksLate.not_noneBehind (hlate : o.PacksLate operation) (hsound : o.Sound)
    (now : Timestamp) : ¬ (o.perform operation now).1.NoneBehind := by
  obtain ⟨kind, filename, file, hfile, rfl, hkind, hpack, hname, hdeposited⟩ := hlate
  have hfind : o.artefact? file.id = some file :=
    (artefact?_eq_some_iff hsound.wellFormed.files).mpr ⟨hfile, rfl⟩
  have hchild : kind.isChild = true := by
    revert hpack
    cases kind <;> decide
  let member : Artefact :=
    ⟨⟨o.artefacts.length⟩, kind, filename, some o.parent, some file.id,
      .new (.initial .encapsulated (.artefact (some o.parent) filename))⟩
  have hafter : (o.perform (.addEncapsulated kind filename file.id) now).1 =
      o.withArtefacts (o.artefacts ++ [member]) := by
    simp [Observation.perform, addEncapsulated, hfind, hkind, push, hchild, hname,
      Factory.initialState, Factory.lifecycleFor, hpack, Except.map, orRefused, member]
  intro hnone
  rw [hafter] at hnone
  have hholds : Holds (o.artefacts ++ [member]) file member :=
    ⟨List.mem_append_left _ hfile, List.mem_append_right _ List.mem_cons_self, rfl⟩
  have hmember : member.record.effectiveStage = .deposited := hnone file member hholds hdeposited
  cases hmember

theorem Reachable.noneBehind {allowed : Observation → Operation → Prop}
    (h : Reachable allowed o)
    (hallowed : ∀ o operation, allowed o operation →
      operation.passesMembers = false ∧ ¬ o.PacksLate operation) : o.NoneBehind := by
  induction h with
  | new hnew =>
      intro file member hholds
      have hmem := hholds.mem_file
      rw [(sound_new hnew).2.1] at hmem
      cases hmem
  | perform hbefore operation hnow now ih =>
      obtain ⟨hpasses, hlate⟩ := hallowed _ operation hnow
      exact ih.perform hbefore.sound hpasses hlate now

/-- In a run in which no file is packed late, each member of an encapsulation that is deposited is
deposited, or failed after it was; and in whatever run, packing a file late is the only operation
that leaves one behind.  Excluded is the deposit of the file of an encapsulation alone. -/
theorem noneBehind_iff {allowed : Observation → Operation → Prop} (h : Reachable allowed o)
    (operation : Operation) (hpasses : operation.passesMembers = false) (now : Timestamp) :
    ((∀ o operation, allowed o operation →
        operation.passesMembers = false ∧ ¬ o.PacksLate operation) → o.NoneBehind) ∧
      (o.NoneBehind →
        (∀ file member, Holds o.artefacts file member → file.isDeposited = true →
          member.isDeposited = true ∨
            member.isFailed = true ∧ member.record.checkpoint = some .deposited) ∧
        ((o.perform operation now).1.NoneBehind ↔ ¬ o.PacksLate operation)) := by
  refine ⟨h.noneBehind, fun hnone => ⟨fun _ _ => hnone.member_cases, ?_, ?_⟩⟩
  · exact fun hafter hlate => hlate.not_noneBehind h.sound now hafter
  · exact fun hlate => hnone.perform h.sound hpasses hlate now

/-- A run to an encapsulation that is deposited empty, and a file that is packed into it then. -/
theorem packsLate_into_deposited :
    ∃ (o : Observation) (operation : Operation) (now : Timestamp),
      Reachable (fun o operation => operation.passesMembers = false ∧ ¬ o.PacksLate operation) o ∧
        operation.passesMembers = false ∧ o.NoneBehind ∧ o.PacksLate operation ∧
          ¬ (o.perform operation now).1.NoneBehind := by
  let now := Timestamp.ofUnixSeconds 0
  let operation : Operation := .addEncapsulated .cubelet "m" ⟨0⟩
  let o := performEach now (fresh ⟨1⟩)
    [.add .encapsulationFile "e", .setArtefactStage ⟨0⟩ .deposited]
  have hrun : Reachable
      (fun o operation => operation.passesMembers = false ∧ ¬ o.PacksLate operation) o := by
    refine (Reachable.new (new_standard ⟨1⟩)).performEach ⟨⟨rfl, ?_⟩, ⟨rfl, ?_⟩, trivial⟩
    · rintro ⟨_, _, _, _, hadd, _⟩
      cases hadd
    · rintro ⟨_, _, _, _, hadd, _⟩
      cases hadd
  have hlate : o.PacksLate operation := by
    have hfile : ∃ file ∈ o.artefacts, file.id = ⟨0⟩ ∧ file.isEncapsulation = true ∧
        o.named? "m" = none ∧ file.record.effectiveStage = .deposited := by
      decide +kernel
    obtain ⟨file, hmem, hid, hkind, hname, hdeposited⟩ := hfile
    exact ⟨.cubelet, "m", file, hmem, by rw [hid], hkind, rfl, hname, hdeposited⟩
  obtain ⟨hkeeps, hbreaks⟩ := noneBehind_iff hrun operation rfl now
  have hnone := hkeeps fun _ _ hallowed => hallowed
  exact ⟨o, operation, now, hrun, rfl, hnone, hlate,
    fun hafter => (hbreaks hnone).2.mp hafter hlate⟩

end Observation

end JointDeposit

end ArchiveDeposit

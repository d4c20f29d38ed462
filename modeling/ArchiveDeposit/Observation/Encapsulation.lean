import ArchiveDeposit.Artefact

/-!
# Encapsulations among the files of a parent

An encapsulation is a file and, at the same time, the parent of the small files that are packed
into it: its members name it by its number.  It cannot leave processing before every member waits to
be packed, and it cannot be deposited before every member is packed.  When it is deposited, every
packed member is deposited with it in the same call; members are not deposited in any other way by
a step.

The functions here work on the list of all files of one parent.
-/

namespace ArchiveDeposit

section Encapsulation

/-- The place of the last entry with a property. -/
def lastIdx? {α : Type} (p : α → Bool) : List α → Option Nat
  | [] => none
  | x :: xs =>
      match lastIdx? p xs with
      | some i => some (i + 1)
      | none => if p x then some 0 else none

namespace Artefact

/-- Whether a file is packed into the encapsulation with a number. -/
def isMemberOf (a : Artefact) (id : ArtefactId) : Bool :=
  a.id != id && a.encapsulation == some id

/-- A member that is packed, deposited; any other file as it is. -/
def depositPacked (a : Artefact) (now : Timestamp) : Artefact × Option Transition :=
  if a.stage = .encapsulated then
    match a.advance .deposited now with
    | .ok change => change
    | .error _ => (a, none)
  else (a, none)

end Artefact

namespace Encapsulation

/-- The place and the file of the encapsulation with a number.  Where several files have the
number, the last one counts. -/
def find? (artefacts : List Artefact) (id : ArtefactId) : Option (Nat × Artefact) := do
  let i ← lastIdx? (fun a : Artefact => a.id == id) artefacts
  let file ← artefacts[i]?
  if file.isEncapsulation then some (i, file) else none

/-- The members of an encapsulation, in child order. -/
def members (artefacts : List Artefact) (id : ArtefactId) : List Artefact :=
  Artefact.inChildOrder (artefacts.filter (·.isMemberOf id))

/-- Deposits the packed members of an encapsulation. -/
def depositMembers (artefacts : List Artefact) (id : ArtefactId) (now : Timestamp) :
    List Artefact × List Transition :=
  (artefacts.map fun a => if a.isMemberOf id then (a.depositPacked now).1 else a,
    (members artefacts id).filterMap fun a => (a.depositPacked now).2)

/-- Puts the changed file of an encapsulation in its place and, if `deposits`, deposits the packed
members with it. -/
def commit (artefacts : List Artefact) (id : ArtefactId) (place : Nat)
    (change : Artefact × Option Transition) (deposits : Bool) (now : Timestamp) :
    List Artefact × List Transition :=
  match change.2 with
  | none => (artefacts, [])
  | some t =>
      let artefacts := artefacts.set place change.1
      if deposits then
        let (artefacts, rest) := depositMembers artefacts id now
        (artefacts, t :: rest)
      else (artefacts, [t])

/-- One step of an encapsulation if its members and the reports permit it. -/
def progress (artefacts : List Artefact) (id : ArtefactId) (signals : Signals)
    (now : Timestamp) : List Artefact × List Transition :=
  match find? artefacts id with
  | none => (artefacts, [])
  | some (place, file) =>
      let around : Surroundings :=
        { signals := signals, children := (members artefacts id).map Artefact.state }
      let change := file.progress around now
      let deposits := file.stage == .archived && change.1.stage == .deposited
      commit artefacts id place change deposits now

/-- The change of an encapsulation that a job reports.  It is deposited only when every member is
packed or further, and then the packed members with it. -/
def setStage (artefacts : List Artefact) (id : ArtefactId) (stage : Stage) (now : Timestamp) :
    Except DepositError (List Artefact × List Transition) :=
  match find? artefacts id with
  | none => .ok (artefacts, [])
  | some (place, file) =>
      match file.advance stage now with
      | .error e => .error e
      | .ok change =>
          let deposits := stage == .deposited
          let lagging :=
            (members artefacts id).find? fun m => !m.state.hasReached .encapsulated
          match deposits, lagging with
          | true, some member =>
              .error (.encapsulationNotReady file.filename member.filename member.stage)
          | _, _ => .ok (commit artefacts id place change deposits now)

/-- A change of the file of an encapsulation alone, its members left as they are. -/
def changeFile (artefacts : List Artefact) (id : ArtefactId)
    (change : Artefact → Except DepositError (Artefact × Option Transition)) (now : Timestamp) :
    Except DepositError (List Artefact × List Transition) :=
  match find? artefacts id with
  | none => .ok (artefacts, [])
  | some (place, file) =>
      (change file).map fun changed => commit artefacts id place changed false now

end Encapsulation

end Encapsulation

end ArchiveDeposit

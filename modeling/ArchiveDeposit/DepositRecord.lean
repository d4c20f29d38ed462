import ArchiveDeposit.DepositState
import ArchiveDeposit.Time.Timestamp

/-!
# Deposit records

A record holds the present state of an owner, the number of times it failed, and, while it is
failed, the stage from which it failed: its checkpoint.  Every change of a state goes through
`DepositRecord.replace`, which keeps the count and the checkpoint and gives the transition that is
reported.

A recovery takes a failed owner back to its checkpoint; the count stays.

The count is a word, and a failure for which it has no number stops the program in the middle of a
call.  Changes are functions all the same: what a call comes to, and whether it comes to its end, is
said by `returned?`, which looks for a count that has passed the largest word.
-/

namespace ArchiveDeposit

section DepositRecord

/-- A change of the stage of an owner. -/
structure Transition where
  owner : Owner
  source : Stage
  target : Stage
  time : Timestamp
deriving DecidableEq

/-- A transition as reports show it. -/
def Transition.text (t : Transition) : String :=
  t.owner.text ++ ": " ++ t.source.name ++ " -> " ++ t.target.name

/-- The present state of an owner and what is known of its failures. -/
structure DepositRecord where
  state : DepositState
  /-- How often the owner failed. -/
  failureCount : UInt32
  checkpoint : Option Stage
deriving DecidableEq

namespace DepositRecord

/-- The record of an owner that never failed. -/
def new (state : DepositState) : DepositRecord := ⟨state, 0, none⟩

/-- The present stage. -/
def stage (r : DepositRecord) : Stage := r.state.stage

/-- Whether the owner is failed. -/
def isFailed (r : DepositRecord) : Bool := r.state.isFailed

/-- The stage that a recovery goes to: the checkpoint, or without one the initial stage. -/
def recoveryStage (r : DepositRecord) : Stage := r.checkpoint.getD r.state.lifecycle.initial

/-- The stage that the owner stands at, looking through a failure to where it came from. -/
def effectiveStage (r : DepositRecord) : Stage := if r.isFailed then r.recoveryStage else r.stage

/-- Puts a state in place of the present one.  A state in the same stage changes nothing.  A
failure is counted, and the stage before the first of several becomes the checkpoint; leaving the
failures clears it.  A call that counts past the largest word has no result (`returned?`). -/
def replace (r : DepositRecord) (next : DepositState) (now : Timestamp) :
    DepositRecord × Option Transition :=
  let source := r.state.stage
  let target := next.stage
  if source = target then (r, none)
  else
    let failureCount := if target.isFailure then r.failureCount + 1 else r.failureCount
    let checkpoint :=
      if target.isFailure then (if source.isFailure then r.checkpoint else some source)
      else if source.isFailure then none
      else r.checkpoint
    (⟨next, failureCount, checkpoint⟩, some ⟨next.owner, source, target, now⟩)

/-- The change that a job reports. -/
def advance (r : DepositRecord) (stage : Stage) (now : Timestamp) :
    Except DepositError (DepositRecord × Option Transition) :=
  (r.state.advanceTo stage).map fun next => r.replace next now

/-- Takes a failed owner back; one that is not failed stays as it is. -/
def recover (r : DepositRecord) (now : Timestamp) :
    Except DepositError (DepositRecord × Option Transition) :=
  if r.isFailed then (r.state.rebind r.recoveryStage).map fun next => r.replace next now
  else .ok (r, none)

/-- Whether the count of failures has passed the largest word from one record to another, which is
where it starts again. -/
def hasWrapped (before after : DepositRecord) : Bool := after.failureCount < before.failureCount

end DepositRecord

/-- What holds records: an owner with the owners below it. -/
class HoldsRecords (α : Type) where
  /-- The records, in an order that changes of them keep; what is added comes last. -/
  records : α → List DepositRecord

instance : HoldsRecords DepositRecord where
  records r := [r]

/-- What comes of a call that takes `before` to what `call` says, with an answer.  There is nothing
if a failure could not be counted, because the program stops there. -/
def returned? {α β : Type} [HoldsRecords α] (before : α) (call : α × β) : Option (α × β) :=
  let pairs := (HoldsRecords.records before).zip (HoldsRecords.records call.1)
  if pairs.any fun (r, s) => r.hasWrapped s then none else some call

end DepositRecord

end ArchiveDeposit

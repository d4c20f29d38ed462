import ArchiveDeposit.Order.Ascending
import ArchiveDeposit.Owner
import ArchiveDeposit.Stage

/-!
# Reports that the work of a stage is complete

Jobs outside report, for an owner and a stage, that the work of that stage is complete.  A step
that awaits such a report asks for it here.  Where no reports are kept, every stage counts as
complete.

A signal board is a set of reports, listed in the order of owners and then of stages.
-/

namespace ArchiveDeposit

section Signals

/-- Which reports are in, for each owner and stage. -/
abbrev Signals := Owner → Stage → Bool

/-- Every stage counts as complete. -/
def Signals.autoComplete : Signals := fun _ _ => true

/-- The report that the work of a stage of an owner is complete. -/
structure Signal where
  owner : Owner
  stage : Stage
deriving DecidableEq, Repr

namespace Signal

/-- By owner, then by stage. -/
instance : Ord Signal := ⟨compareLex (compareOn owner) (compareOn stage)⟩

instance : Std.TransOrd Signal :=
  inferInstanceAs (Std.TransCmp (compareLex (compareOn owner) (compareOn stage)))

instance : Std.LawfulEqOrd Signal where
  eq_of_compare {s t} h := by
    obtain ⟨howner, hstage⟩ := compareLex_eq_eq.mp h
    have hsame : s.owner = t.owner ∧ s.stage = t.stage :=
      ⟨Std.LawfulEqOrd.eq_of_compare howner, Std.LawfulEqOrd.eq_of_compare hstage⟩
    cases s
    cases t
    simp_all

end Signal

/-- The reports that are in, in ascending order. -/
abbrev SignalBoard := Ascending (id : Signal → Signal)

namespace SignalBoard

/-- Whether a report is in. -/
def isComplete (board : SignalBoard) (signal : Signal) : Bool := board.contains signal

/-- A board as a source of reports. -/
def toSignals (board : SignalBoard) : Signals := fun owner stage => board.isComplete ⟨owner, stage⟩

/-- Takes a report in; also whether it was not in before. -/
def signal (board : SignalBoard) (signal : Signal) : SignalBoard × Bool :=
  if board.isComplete signal then (board, false) else (board.insert signal, true)

/-- A report that is taken in is in from then on, with all that were. -/
theorem isComplete_signal (board : SignalBoard) (s t : Signal) :
    (board.signal s).1.isComplete t = true ↔ s = t ∨ board.isComplete t = true := by
  unfold signal
  split
  · next hin =>
      refine ⟨Or.inr, ?_⟩
      rintro (rfl | hold)
      · exact hin
      · exact hold
  · exact (board.contains_insert s t).trans (or_congr_left Std.compare_eq_iff_eq)

/-- Takes a report back; also whether it was in. -/
def withdraw (board : SignalBoard) (signal : Signal) : SignalBoard × Bool :=
  if board.isComplete signal then (board.erase signal, true) else (board, false)

end SignalBoard

end Signals

end ArchiveDeposit

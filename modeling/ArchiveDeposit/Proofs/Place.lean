import ArchiveDeposit.DepositState

/-!
# Places on the line of a lifecycle

The stages of a lifecycle stand on a line.  This module turns the tables of steps into facts about
places: which stages have one, when a stage has reached another, and how many steps lie ahead.

**Results.**
* `reaches_of_place_le`: going forward on the line never loses a stage that was reached.
* `ahead_stepFrom?`: a step takes exactly one off the steps that lie ahead.
-/

namespace ArchiveDeposit

section Place

namespace Lifecycle

/-- Whether a stage stands on the line. -/
def isOnLine (l : Lifecycle) (s : Stage) : Bool := (l.position? s).isSome

/-- The place of a stage on the line; a stage that has none counts as the first. -/
def place (l : Lifecycle) (s : Stage) : Nat := (l.position? s).getD 0

/-- Whether a stage stands at or after another, both of them on the line. -/
def reaches (l : Lifecycle) (current wanted : Stage) : Bool :=
  match l.position? current, l.position? wanted with
  | some current, some wanted => wanted ≤ current
  | _, _ => false

/-- The number of steps from a stage to the end of the line. -/
def ahead (l : Lifecycle) (s : Stage) : Nat := (l.position? s).elim 0 fun n => l.steps.length - n

theorem position?_of_isOnLine {l : Lifecycle} {s : Stage} (h : l.isOnLine s = true) :
    l.position? s = some (l.place s) := by
  obtain ⟨n, hn⟩ := Option.isSome_iff_exists.mp h
  simp [place, hn]

theorem isOnLine_of_position? {l : Lifecycle} {s : Stage} {n : Nat}
    (h : l.position? s = some n) : l.isOnLine s = true ∧ l.place s = n := by
  simp [isOnLine, place, h]

/-- A stage that is accepted stands on the line unless it is a failure. -/
theorem isOnLine_of_accepts {l : Lifecycle} {s : Stage} (h : l.accepts s = true)
    (hs : s.isFailure = false) : l.isOnLine s = true := by
  simpa [accepts, isOnLine, hs] using h

theorem accepts_of_isOnLine {l : Lifecycle} {s : Stage} (h : l.isOnLine s = true) :
    l.accepts s = true := by
  simp only [isOnLine] at h
  simp [accepts, h]

theorem isFailure_of_isOnLine {l : Lifecycle} {s : Stage} (h : l.isOnLine s = true) :
    s.isFailure = false := by
  revert h
  cases l <;> cases s <;> decide

theorem isOnLine_initial (l : Lifecycle) : l.isOnLine l.initial = true := by
  cases l <;> decide

/-- A stage that another one has reached, and the one that reached it, stand on the line. -/
theorem reaches_iff {l : Lifecycle} {s t : Stage} :
    l.reaches s t = true ↔
      l.isOnLine s = true ∧ l.isOnLine t = true ∧ l.place t ≤ l.place s := by
  unfold reaches isOnLine place
  cases hs : l.position? s <;> cases ht : l.position? t <;> simp

/-- Going forward on the line keeps every stage that was reached. -/
theorem reaches_of_place_le {l : Lifecycle} {s t u : Stage} (ht : l.isOnLine t = true)
    (hle : l.place s ≤ l.place t) (h : l.reaches s u = true) : l.reaches t u = true := by
  obtain ⟨_, hu, hus⟩ := reaches_iff.mp h
  exact reaches_iff.mpr ⟨ht, hu, Nat.le_trans hus hle⟩

theorem reaches_trans {l : Lifecycle} {s t u : Stage} (hst : l.reaches s t = true)
    (htu : l.reaches t u = true) : l.reaches s u = true :=
  reaches_of_place_le (reaches_iff.mp hst).1 (reaches_iff.mp hst).2.2 htu

/-- Every line ends with the terminal stage. -/
theorem reaches_deposited_iff {l : Lifecycle} {s : Stage} :
    l.reaches s .deposited = true ↔ s = .deposited := by
  cases l <;> cases s <;> decide

theorem getElem?_place {l : Lifecycle} {s : Stage} (h : l.isOnLine s = true) :
    l.sequence[l.place s]? = some s := by
  obtain ⟨hlt, hget, _⟩ :=
    List.findIdx?_eq_some_iff_getElem.mp (position?_of_isOnLine h)
  rw [List.getElem?_eq_getElem hlt]
  exact congrArg some (by simpa using hget)

/-- A step goes from one place to the next, both of them on the line. -/
theorem place_stepFrom? {l : Lifecycle} {s : Stage} {step : Step} (h : l.stepFrom? s = some step) :
    l.isOnLine s = true ∧ l.isOnLine step.target = true ∧
      l.place step.target = l.place s + 1 := by
  obtain ⟨n, hs, ht⟩ := position?_target h
  obtain ⟨hsOn, hsPlace⟩ := isOnLine_of_position? hs
  obtain ⟨htOn, htPlace⟩ := isOnLine_of_position? ht
  exact ⟨hsOn, htOn, by omega⟩

theorem ne_target_of_stepFrom? {l : Lifecycle} {s : Stage} {step : Step}
    (h : l.stepFrom? s = some step) : s ≠ step.target := by
  intro heq
  have hplace := (place_stepFrom? h).2.2
  rw [← heq] at hplace
  omega

/-- Nothing lies ahead of a stage of the line exactly at its end. -/
theorem ahead_eq_zero_iff {l : Lifecycle} {s : Stage} (h : l.isOnLine s = true) :
    l.ahead s = 0 ↔ s = .deposited := by
  revert h
  cases l <;> cases s <;> decide

theorem ahead_stepFrom? {l : Lifecycle} {s : Stage} {step : Step}
    (h : l.stepFrom? s = some step) : l.ahead s = l.ahead step.target + 1 := by
  have hmem : ∀ step ∈ l.steps, l.ahead step.source = l.ahead step.target + 1 := by
    cases l <;> decide
  rw [← source_of_stepFrom? h]
  exact hmem step (List.mem_of_find?_eq_some h)

theorem stepFrom?_isSome {l : Lifecycle} {s : Stage} (h : l.isOnLine s = true)
    (hs : s ≠ .deposited) : ∃ step, l.stepFrom? s = some step := by
  apply Option.isSome_iff_exists.mp
  revert h hs
  cases l <;> cases s <;> decide

end Lifecycle

theorem DepositState.hasReached_eq (s : DepositState) (stage : Stage) :
    s.hasReached stage = s.lifecycle.reaches s.stage stage := rfl

theorem DepositState.isFailed_of_hasReached {s : DepositState} {stage : Stage}
    (h : s.hasReached stage = true) : s.isFailed = false := by
  rw [hasReached_eq, Lifecycle.reaches_iff] at h
  exact Lifecycle.isFailure_of_isOnLine h.1

theorem DepositState.isOnLine {s : DepositState} (h : s.isFailed = false) :
    s.lifecycle.isOnLine s.stage = true :=
  Lifecycle.isOnLine_of_accepts s.accepted h

end Place

end ArchiveDeposit

import ArchiveDeposit.Proofs.OnCourse

/-!
# States at the same place or further

Of two states of one owner, one precedes the other when the other stands at its place on the line or
further.  What an owner sees around it precedes what it sees elsewhere when, there, every report is
in and everybody else stands at the same place or further.  The second then opens every gate that
the first opens, so a step leaves the order of two states as it was: the one behind is ahead by at
most one step less, and where the two stand at one place, the other takes the step as well.

**Results.**
* `DepositState.Precedes.of_ahead_le`: the order is that of the steps that lie ahead.
* `Surroundings.Precedes.permits`: what permits a step permits it with more reports and others
  further on.
* `DepositState.Precedes.progress`: a step keeps the order.
-/

namespace ArchiveDeposit

section Precedence

theorem Lifecycle.eq_of_ahead {l : Lifecycle} {s t : Stage} (hs : l.isOnLine s = true)
    (ht : l.isOnLine t = true) (h : l.ahead s = l.ahead t) : s = t := by
  obtain ⟨hsAhead, hsPlace⟩ := ahead_eq hs
  obtain ⟨htAhead, htPlace⟩ := ahead_eq ht
  have hplace : l.place s = l.place t := by omega
  have hget := getElem?_place hs
  rw [hplace, getElem?_place ht] at hget
  exact (Option.some.inj hget).symm

namespace DepositState

/-- Two states of one owner, the second at the place of the first or further. -/
structure Precedes (s t : DepositState) : Prop where
  lifecycle : t.lifecycle = s.lifecycle
  owner : t.owner = s.owner
  reached : t.hasReached s.stage = true

namespace Precedes

variable {s t u : DepositState}

theorem refl (h : s.isFailed = false) : s.Precedes s where
  lifecycle := rfl
  owner := rfl
  reached := Lifecycle.reaches_iff.mpr ⟨isOnLine h, isOnLine h, Nat.le_refl _⟩

/-- Neither of the two is failed. -/
theorem isFailed (h : s.Precedes t) : s.isFailed = false ∧ t.isFailed = false :=
  ⟨Lifecycle.isFailure_of_isOnLine (Lifecycle.reaches_iff.mp h.reached).2.1,
    isFailed_of_hasReached h.reached⟩

/-- What the first state has reached, the second has. -/
theorem hasReached (h : s.Precedes t) {stage : Stage} (hs : s.hasReached stage = true) :
    t.hasReached stage = true := by
  have ht := h.reached
  rw [hasReached_eq] at hs ht ⊢
  rw [← h.lifecycle] at hs
  exact Lifecycle.reaches_trans ht hs

theorem trans (hst : s.Precedes t) (htu : t.Precedes u) : s.Precedes u where
  lifecycle := htu.lifecycle.trans hst.lifecycle
  owner := htu.owner.trans hst.owner
  reached := htu.hasReached hst.reached

theorem isDeposited (h : s.Precedes t) (hs : s.isDeposited = true) : t.isDeposited = true := by
  have hreached := h.reached
  rw [eq_of_beq hs, hasReached_eq, Lifecycle.reaches_deposited_iff] at hreached
  exact beq_of_eq hreached

theorem ahead_le (h : s.Precedes t) :
    t.lifecycle.ahead t.stage ≤ s.lifecycle.ahead s.stage := by
  have hs := isOnLine h.isFailed.1
  rw [← h.lifecycle] at hs ⊢
  exact (hasReached_iff_ahead h.isFailed.2 hs).mp h.reached

/-- The second state is the one with no more steps ahead. -/
theorem of_ahead_le (hl : t.lifecycle = s.lifecycle) (ho : t.owner = s.owner)
    (hs : s.isFailed = false) (ht : t.isFailed = false)
    (hle : t.lifecycle.ahead t.stage ≤ s.lifecycle.ahead s.stage) : s.Precedes t where
  lifecycle := hl
  owner := ho
  reached := by
    have hon := isOnLine hs
    rw [← hl] at hon hle
    exact (hasReached_iff_ahead ht hon).mpr hle

/-- A deposited state is preceded by every other state of its owner that is not failed. -/
theorem of_isDeposited (hl : t.lifecycle = s.lifecycle) (ho : t.owner = s.owner)
    (hs : s.isFailed = false) (ht : t.isDeposited = true) : s.Precedes t := by
  have hstage : t.stage = .deposited := eq_of_beq ht
  have hnot : t.isFailed = false := by
    rw [DepositState.isFailed, hstage]
    rfl
  refine of_ahead_le hl ho hs hnot ?_
  rw [(Lifecycle.ahead_eq_zero_iff (isOnLine hnot)).mpr hstage]
  exact Nat.zero_le _

/-- The two stand at one place, or there are fewer steps ahead of the second. -/
theorem stage_eq_or_lt (h : s.Precedes t) :
    t.stage = s.stage ∨ t.lifecycle.ahead t.stage < s.lifecycle.ahead s.stage := by
  rcases Nat.eq_or_lt_of_le h.ahead_le with heq | hlt
  · left
    have hs := isOnLine h.isFailed.1
    rw [← h.lifecycle] at hs heq
    exact Lifecycle.eq_of_ahead (isOnLine h.isFailed.2) hs heq
  · exact Or.inr hlt

end Precedes

end DepositState

/-- Every report that is in for the first is in for the second. -/
def Signals.Within (fewer more : Signals) : Prop :=
  ∀ owner stage, fewer owner stage = true → more owner stage = true

/-- Of every state of the second list there is one in the first that precedes it. -/
def DepositState.AllPreceded (first second : List DepositState) : Prop :=
  ∀ t ∈ second, ∃ s ∈ first, s.Precedes t

/-- What an owner sees in two places: in the second every report that is in the first is in, and
everybody stands at the same place or further. -/
structure Surroundings.Precedes (first second : Surroundings) : Prop where
  signals : first.signals.Within second.signals
  children : DepositState.AllPreceded first.children second.children
  priorityChildren : DepositState.AllPreceded first.priorityChildren second.priorityChildren
  encapsulation : ∀ s, first.encapsulation = some s →
    ∃ t, second.encapsulation = some t ∧ s.Precedes t

namespace Surroundings.Precedes

variable {first second : Surroundings}

theorem opens (h : first.Precedes second) {gate : Gate} (hopens : first.opens gate = true) :
    second.opens gate = true := by
  have hall : ∀ {before after : List DepositState} {p : DepositState → Bool},
      DepositState.AllPreceded before after →
      (∀ s t : DepositState, s.Precedes t → p s = true → p t = true) →
      before.all p = true → after.all p = true := by
    intro before after p hpreceded hp hbefore
    rw [List.all_eq_true] at hbefore ⊢
    intro t ht
    obtain ⟨s, hs, hst⟩ := hpreceded t ht
    exact hp s t hst (hbefore s hs)
  cases gate with
  | immediate => rfl
  | external => cases hopens
  | childrenReached stage =>
      exact hall h.children (fun _ _ hst => hst.hasReached) hopens
  | encapsulationReached stage =>
      obtain ⟨s, hs, hreached⟩ := (Option.any_eq_true ..).mp hopens
      obtain ⟨t, ht, hst⟩ := h.encapsulation s hs
      exact (Option.any_eq_true ..).mpr ⟨t, ht, hst.hasReached hreached⟩
  | priorityChildrenDeposited =>
      exact hall h.priorityChildren (fun _ _ hst => hst.isDeposited) hopens
  | childrenDeposited => exact hall h.children (fun _ _ hst => hst.isDeposited) hopens

/-- A step that is permitted is permitted with more reports and others further on. -/
theorem permits (h : first.Precedes second) {step : Step} {owner : Owner}
    (hpermit : first.permits step owner = true) : second.permits step owner = true := by
  simp only [Surroundings.permits, Bool.and_eq_true, Bool.or_eq_true] at hpermit ⊢
  exact ⟨h.opens hpermit.1, hpermit.2.imp_right (h.signals owner step.source)⟩

end Surroundings.Precedes

namespace DepositState

theorem ahead_progress_le (s : DepositState) (around : Surroundings) :
    (s.progress around).lifecycle.ahead (s.progress around).stage ≤ s.lifecycle.ahead s.stage := by
  rcases progress_cases s around with hsame | ⟨step, hstep, _, hstage⟩
  · exact Nat.le_of_eq (by rw [hsame])
  · rw [progress_lifecycle, hstage, Lifecycle.ahead_stepFrom? hstep]
    exact Nat.le_succ _

/-- Steps keep the order of two states, the second of which sees no less around it. -/
theorem Precedes.progress {s t : DepositState} (h : s.Precedes t) {first second : Surroundings}
    (haround : first.Precedes second) : (s.progress first).Precedes (t.progress second) := by
  have hl : (t.progress second).lifecycle = (s.progress first).lifecycle := by
    simpa using h.lifecycle
  have ho : (t.progress second).owner = (s.progress first).owner := by simpa using h.owner
  refine of_ahead_le hl ho ((s.isFailed_progress first).trans h.isFailed.1)
    ((t.isFailed_progress second).trans h.isFailed.2) ?_
  have hle := t.ahead_progress_le second
  rcases progress_cases s first with hsame | ⟨step, hstep, hpermit, hstage⟩
  · rw [hsame]
    exact Nat.le_trans hle h.ahead_le
  · have hahead := Lifecycle.ahead_stepFrom? hstep
    have hnext : (s.progress first).lifecycle.ahead (s.progress first).stage =
        s.lifecycle.ahead step.target := by rw [progress_lifecycle, hstage]
    rcases h.stage_eq_or_lt with heq | hlt
    · have hstep' : t.lifecycle.stepFrom? t.stage = some step := by
        rw [h.lifecycle, heq]
        exact hstep
      have hpermit' := haround.permits hpermit
      rw [← h.owner] at hpermit'
      refine Nat.le_of_eq ?_
      rw [hnext, progress_lifecycle, h.lifecycle, stage_progress hstep' hpermit']
    · omega

end DepositState

theorem DepositRecord.state_replace_progress (r : DepositRecord) (around : Surroundings)
    (now : Timestamp) :
    (r.replace (r.state.progress around) now).1.state = r.state.progress around :=
  DepositState.eq_of_stage (stage_replace r _ now)
    ((replace_lifecycle (by simp) now).trans (by simp))
    ((replace_owner (by simp) now).trans (by simp))

@[simp] theorem Artefact.state_progress (a : Artefact) (around : Surroundings) (now : Timestamp) :
    (a.progress around now).1.state = a.state.progress around :=
  a.record.state_replace_progress around now

/-- What only takes steps off those ahead leaves a file at its place or further. -/
theorem Artefact.Continues.precedes {a b : Artefact} (h : a.Continues b)
    (hadvances : a.record.Advances b.record) (hnot : a.isFailed = false) :
    a.state.Precedes b.state :=
  DepositState.Precedes.of_ahead_le h.record.lifecycle h.record.owner hnot
    (hadvances.isFailed.trans hnot) hadvances.ahead_le

end Precedence

end ArchiveDeposit

import ArchiveDeposit.Proofs.StoredText
import Mathlib.Data.Set.Card
import Mathlib.Data.String.Basic

/-!
# Signal boards as sets of reports

A signal board is the set of the reports that are in: taking a report in or back answers whether
that changes anything, and what is in after any such calls is decided, for each report, by the last
call for it.  The stored list of a board is the reports in strictly ascending order, and this order
is a strict total order, so that a board has one stored form; a stored list in any other order, or
with repetitions, gives the same board.

**Results.**
* `Signal.compare_eq_lt_iff`, `Signal.strictTotalOrder`: reports are compared by a strict total
  order.
* `SignalBoard.isComplete_callEach`: the last call for a report decides.
* `SignalBoard.ext_of_isComplete`: boards with the same reports are equal.
* `SignalBoard.canonical_set`: the whole of it.
-/

namespace ArchiveDeposit

section SignalSet

/-- Observations come before collections, and both stand by their numbers. -/
inductive Parent.Before : Parent → Parent → Prop where
  | observations {a b : Sbid} (h : a.value.toNat < b.value.toNat) :
      Before (.observation a) (.observation b)
  | kinds (a : Sbid) (b : CollectionId) : Before (.observation a) (.level7Collection b)
  | collections {a b : CollectionId} (h : a.value.toNat < b.value.toNat) :
      Before (.level7Collection a) (.level7Collection b)

/-- Observations and collections come before files.  Files without a parent come first; then files
stand by their parents, and those of one parent by their names. -/
inductive Owner.Before : Owner → Owner → Prop where
  | tops {p q : Parent} (h : p.Before q) : Before p.toOwner q.toOwner
  | files (top : Parent) (parent : Option Parent) (filename : String) :
      Before top.toOwner (.artefact parent filename)
  | detached (parent : Parent) (filename other : String) :
      Before (.artefact none filename) (.artefact (some parent) other)
  | parents {p q : Parent} (h : p.Before q) (filename other : String) :
      Before (.artefact (some p) filename) (.artefact (some q) other)
  | filenames (parent : Option Parent) {filename other : String} (h : filename < other) :
      Before (.artefact parent filename) (.artefact parent other)

/-- Reports stand by their owners, and those of one owner by their stages. -/
inductive Signal.Before : Signal → Signal → Prop where
  | owners {a b : Owner} (h : a.Before b) (s t : Stage) : Before ⟨a, s⟩ ⟨b, t⟩
  | stages (owner : Owner) {s t : Stage} (h : s.rank < t.rank) : Before ⟨owner, s⟩ ⟨owner, t⟩

namespace Parent

variable {p q : Parent}

theorem before_trichotomous (p q : Parent) : p.Before q ∨ p = q ∨ q.Before p := by
  cases p with
  | observation a =>
      cases q with
      | observation b =>
          rcases lt_trichotomy a.value.toNat b.value.toNat with h | h | h
          · exact .inl (.observations h)
          · have hab : a = b := congrArg Sbid.mk (UInt32.toNat_inj.mp h)
            exact .inr (.inl (congrArg Parent.observation hab))
          · exact .inr (.inr (.observations h))
      | level7Collection b => exact .inl (.kinds a b)
  | level7Collection a =>
      cases q with
      | observation b => exact .inr (.inr (.kinds b a))
      | level7Collection b =>
          rcases lt_trichotomy a.value.toNat b.value.toNat with h | h | h
          · exact .inl (.collections h)
          · have hab : a = b := congrArg CollectionId.mk (UInt64.toNat_inj.mp h)
            exact .inr (.inl (congrArg Parent.level7Collection hab))
          · exact .inr (.inr (.collections h))

/-- The kind and the number of a parent, by which owners are ordered. -/
def ranks (p : Parent) : List Nat := [p.rank.1, p.rank.2]

theorem rank_toOwner (p : Parent) : p.toOwner.rank = p.ranks := by
  cases p <;> rfl

theorem compare_ranks (h : p.Before q) : compare p.ranks q.ranks = .lt := by
  cases h with
  | observations h =>
      simp only [ranks, rank, List.compare_cons_cons, Std.compare_self, Ordering.eq_then,
        Nat.compare_eq_lt.mpr h, Ordering.lt_then]
  | kinds a b => rfl
  | collections h =>
      simp only [ranks, rank, List.compare_cons_cons, Std.compare_self, Ordering.eq_then,
        Nat.compare_eq_lt.mpr h, Ordering.lt_then]

end Parent

namespace Owner

variable {a b : Owner}

theorem before_trichotomous (a b : Owner) : a.Before b ∨ a = b ∨ b.Before a := by
  -- An owner is a parent as an owner, or a file.
  have hkinds (owner : Owner) :
      (∃ p : Parent, owner = p.toOwner) ∨ ∃ parent filename, owner = .artefact parent filename := by
    cases owner with
    | observation sbid => exact .inl ⟨.observation sbid, rfl⟩
    | level7Collection id => exact .inl ⟨.level7Collection id, rfl⟩
    | artefact parent filename => exact .inr ⟨parent, filename, rfl⟩
  rcases hkinds a with ⟨p, rfl⟩ | ⟨parent, filename, rfl⟩
  · rcases hkinds b with ⟨q, rfl⟩ | ⟨parent, filename, rfl⟩
    · rcases p.before_trichotomous q with h | rfl | h
      · exact .inl (.tops h)
      · exact .inr (.inl rfl)
      · exact .inr (.inr (.tops h))
    · exact .inl (.files p parent filename)
  · rcases hkinds b with ⟨q, rfl⟩ | ⟨parent', filename', rfl⟩
    · exact .inr (.inr (.files q parent filename))
    · have hparents : parent = parent' ∨
          (Owner.artefact parent filename).Before (.artefact parent' filename') ∨
          (Owner.artefact parent' filename').Before (.artefact parent filename) := by
        cases parent with
        | none =>
            cases parent' with
            | none => exact .inl rfl
            | some q => exact .inr (.inl (.detached q filename filename'))
        | some p =>
            cases parent' with
            | none => exact .inr (.inr (.detached p filename' filename))
            | some q =>
                rcases p.before_trichotomous q with h | rfl | h
                · exact .inr (.inl (.parents h filename filename'))
                · exact .inl rfl
                · exact .inr (.inr (.parents h filename' filename))
      rcases hparents with rfl | h | h
      · rcases lt_trichotomy filename filename' with h | rfl | h
        · exact .inl (.filenames parent h)
        · exact .inr (.inl rfl)
        · exact .inr (.inr (.filenames parent h))
      · exact .inl h
      · exact .inr (.inr h)

theorem compare_eq (a b : Owner) :
    compare a b = (compare a.rank b.rank).then (compare a.filename b.filename) := rfl

theorem rank_artefact (parent : Option Parent) (name : String) :
    (artefact parent name).rank = 2 :: (parent.map Parent.ranks).getD [] := by
  cases parent <;> rfl

theorem compare_of_before (h : a.Before b) : compare a b = .lt := by
  rw [compare_eq]
  cases h with
  | tops h =>
      rw [Parent.rank_toOwner, Parent.rank_toOwner, Parent.compare_ranks h, Ordering.lt_then]
  | files top parent name => cases top <;> cases parent <;> rfl
  | detached parent name other => rfl
  | parents h name other =>
      rw [rank_artefact, rank_artefact, List.compare_cons_cons, Std.compare_self, Ordering.eq_then,
        Option.map_some, Option.map_some, Option.getD_some, Option.getD_some,
        Parent.compare_ranks h, Ordering.lt_then]
  | filenames parent h =>
      rw [rank_artefact, rank_artefact, Std.compare_self, Ordering.eq_then]
      exact compare_lt_iff_lt.mpr h

end Owner

/-- Where a relation leaves no third and goes the way of a comparison, it is that of the smaller. -/
theorem compare_eq_lt_iff_of_trichotomous {α : Type} [Ord α] [Std.TransOrd α] [Std.LawfulEqOrd α]
    {before : α → α → Prop} (htrichotomous : ∀ a b, before a b ∨ a = b ∨ before b a)
    (hcompare : ∀ a b, before a b → compare a b = .lt) {a b : α} :
    compare a b = .lt ↔ before a b := by
  refine ⟨fun hlt => ?_, hcompare a b⟩
  rcases htrichotomous a b with h | rfl | h
  · exact h
  · rw [Std.compare_self] at hlt
    cases hlt
  · rw [Std.OrientedCmp.gt_of_lt (hcompare b a h)] at hlt
    cases hlt

namespace Signal

variable {s t : Signal}

theorem before_trichotomous (s t : Signal) : s.Before t ∨ s = t ∨ t.Before s := by
  obtain ⟨a, x⟩ := s
  obtain ⟨b, y⟩ := t
  rcases a.before_trichotomous b with h | rfl | h
  · exact .inl (.owners h x y)
  · rcases lt_trichotomy x.rank y.rank with h | h | h
    · exact .inl (.stages a h)
    · exact .inr (.inl (congrArg (Signal.mk a) (Stage.rank_injective h)))
    · exact .inr (.inr (.stages a h))
  · exact .inr (.inr (.owners h y x))

theorem compare_of_before (h : s.Before t) : compare s t = .lt := by
  have hcompare : compare s t = (compare s.owner t.owner).then (compare s.stage t.stage) := rfl
  rw [hcompare]
  cases h with
  | owners h x y => rw [Owner.compare_of_before h, Ordering.lt_then]
  | stages owner h =>
      rw [Std.compare_self, Ordering.eq_then]
      exact Nat.compare_eq_lt.mpr h

/-- Reports are compared by the order in which they stand. -/
theorem compare_eq_lt_iff : compare s t = .lt ↔ s.Before t :=
  compare_eq_lt_iff_of_trichotomous before_trichotomous fun _ _ => compare_of_before

instance strictTotalOrder : IsStrictTotalOrder Signal Before where
  trichotomous s t hst hts := ((before_trichotomous s t).resolve_left hst).resolve_right hts
  irrefl s h := by
    have hlt := compare_of_before h
    rw [Std.compare_self] at hlt
    cases hlt
  trans s t u hst htu := compare_eq_lt_iff.mp <|
    Std.TransCmp.lt_trans (compare_of_before hst) (compare_of_before htu)

end Signal

namespace SignalBoard

/-- A report that is taken in or back. -/
inductive Call where
  | signal (s : Signal)
  | withdraw (s : Signal)
deriving DecidableEq

namespace Call

/-- The report that a call is for. -/
def report : Call → Signal
  | signal s => s
  | withdraw s => s

/-- Whether a call takes its report in. -/
def takesIn : Call → Bool
  | signal _ => true
  | withdraw _ => false

/-- What a call makes of a board, and what it answers. -/
def perform (call : Call) (board : SignalBoard) : SignalBoard × Bool :=
  match call with
  | signal s => board.signal s
  | withdraw s => board.withdraw s

end Call

/-- The board after calls, one after the other. -/
def callEach (board : SignalBoard) (calls : List Call) : SignalBoard :=
  calls.foldl (fun board call => (call.perform board).1) board

/-- The last of some calls for a report. -/
def lastCall? (calls : List Call) (s : Signal) : Option Call :=
  (calls.filter fun call => call.report == s).getLast?

variable {board other : SignalBoard} {s t : Signal} {call : Call} {calls : List Call}

theorem isComplete_iff_mem : board.isComplete s = true ↔ s ∈ board.toList := by
  simp [isComplete, Ascending.contains]

/-- Boards with the same reports are equal. -/
theorem ext_of_isComplete (h : ∀ s, board.isComplete s = other.isComplete s) : board = other := by
  refine Ascending.ext_of_find? fun s => Option.ext fun t => ?_
  rw [Ascending.find?_eq_some_iff, Ascending.find?_eq_some_iff, ← isComplete_iff_mem,
    ← isComplete_iff_mem, h]

theorem isComplete_withdraw (board : SignalBoard) (s t : Signal) :
    (board.withdraw s).1.isComplete t = true ↔ s ≠ t ∧ board.isComplete t = true := by
  unfold withdraw
  split
  · have herase : isComplete (board.erase s) t = true ↔ t ∈ board.toList ∧ t ≠ s := by
      rw [isComplete_iff_mem]
      simp [Ascending.erase]
    rw [herase, isComplete_iff_mem, and_comm, ne_comm]
  · next hout =>
      refine ⟨fun hin => ⟨?_, hin⟩, And.right⟩
      rintro rfl
      exact hout hin

/-- A call decides whether its own report is in, and leaves every other one as it was. -/
theorem isComplete_perform (call : Call) (board : SignalBoard) (t : Signal) :
    (call.perform board).1.isComplete t =
      if call.report = t then call.takesIn else board.isComplete t := by
  rw [Bool.eq_iff_iff]
  cases call with
  | signal s =>
      refine (isComplete_signal board s t).trans ?_
      by_cases hst : s = t <;> simp [Call.report, Call.takesIn, hst]
  | withdraw s =>
      refine (isComplete_withdraw board s t).trans ?_
      by_cases hst : s = t <;> simp [Call.report, Call.takesIn, hst]

/-- A call answers whether its report was not where the call puts it. -/
theorem perform_snd (call : Call) (board : SignalBoard) :
    (call.perform board).2 = (call.takesIn != board.isComplete call.report) := by
  cases call with
  | signal s =>
      simp only [Call.perform, signal, Call.takesIn, Call.report]
      split <;> simp_all
  | withdraw s =>
      simp only [Call.perform, withdraw, Call.takesIn, Call.report]
      split <;> simp_all

theorem lastCall?_concat (calls : List Call) (call : Call) (s : Signal) :
    lastCall? (calls ++ [call]) s = if call.report = s then some call else lastCall? calls s := by
  unfold lastCall?
  rw [List.filter_append]
  by_cases hs : call.report = s <;> simp [hs]

/-- The last call for a report decides whether it is in; without one it is in if it was. -/
theorem isComplete_callEach (board : SignalBoard) (calls : List Call) (s : Signal) :
    (board.callEach calls).isComplete s =
      ((lastCall? calls s).map Call.takesIn).getD (board.isComplete s) := by
  induction calls using List.reverseRecOn with
  | nil => rfl
  | append_singleton calls call ih =>
      have hlast : board.callEach (calls ++ [call]) =
          (call.perform (board.callEach calls)).1 := by
        rw [callEach, List.foldl_concat]
        rfl
      rw [hlast, isComplete_perform, lastCall?_concat, ih]
      split <;> rfl

/-- Calls for different reports do not interfere. -/
theorem perform_comm {a b : Call} (h : a.report ≠ b.report) (board : SignalBoard) :
    (b.perform (a.perform board).1).1 = (a.perform (b.perform board).1).1 := by
  refine ext_of_isComplete fun s => ?_
  simp only [isComplete_perform]
  by_cases ha : a.report = s
  · have hb : b.report ≠ s := fun hb => h (ha.trans hb.symm)
    simp [ha, hb]
  · simp [ha]

theorem perform_snd_of_ne {a b : Call} (h : a.report ≠ b.report) (board : SignalBoard) :
    (b.perform (a.perform board).1).2 = (b.perform board).2 := by
  rw [perform_snd, perform_snd, isComplete_perform, if_neg h]

/-- A board has as many reports as are in. -/
theorem encard_isComplete (board : SignalBoard) :
    Set.encard {s | board.isComplete s = true} = board.size := by
  have hset : {s | board.isComplete s = true} = (board.toList.toFinset : Set Signal) := by
    ext s
    simp [isComplete_iff_mem]
  rw [hset, Set.encard_coe_eq_coe_finsetCard,
    List.toFinset_card_of_nodup board.nodup_toList]
  rfl

/-- The stored form of a list of reports. -/
def listed (reports : List Signal) : Json :=
  .object [("completed", Json.ofList Signal.toJson reports)]

/-- A board is what a list of its reports makes, in whatever order they stand, also if some are
repeated. -/
theorem ofList_eq {reports : List Signal} (h : ∀ s, s ∈ reports ↔ s ∈ board.toList) :
    Ascending.ofList reports = board := by
  refine ext_of_isComplete fun s => Bool.eq_iff_iff.mpr ?_
  rw [isComplete_ofList, h, isComplete_iff_mem]

/-- A board is the set of the reports that are in, and it has one stored form.  After any calls a
report is in exactly if the last call for it took it in, or there was none and it was in before; a
call answers whether it changes what is in; the size is the number of reports; and calls for
different reports do not interfere.  The stored list is in strictly ascending order, boards are
equal exactly if they hold the same reports and exactly if they are stored alike, and a list of the
same reports in any other order, repeated or not, is read as the same board. -/
structure CanonicalSet (board : SignalBoard) : Prop where
  last : ∀ calls s, (board.callEach calls).isComplete s = true ↔
    (∃ call, lastCall? calls s = some call ∧ call.takesIn = true) ∨
      lastCall? calls s = none ∧ board.isComplete s = true
  answer : ∀ call : Call, (call.perform board).2 = true ↔
    (call.perform board).1.isComplete call.report ≠ board.isComplete call.report
  size : Set.encard {s | board.isComplete s = true} = board.size
  commute : ∀ a b : Call, a.report ≠ b.report →
    (b.perform (a.perform board).1).1 = (a.perform (b.perform board).1).1 ∧
      (b.perform (a.perform board).1).2 = (b.perform board).2 ∧
      (a.perform (b.perform board).1).2 = (a.perform board).2
  order : IsStrictTotalOrder Signal Signal.Before
  stored : ∃ reports, board.toJson = listed reports ∧ reports.Pairwise Signal.Before ∧
    ∀ s, s ∈ reports ↔ board.isComplete s = true
  sameReports : ∀ other : SignalBoard,
    board = other ↔ ∀ s, board.isComplete s = other.isComplete s
  sameStored : ∀ other : SignalBoard, board = other ↔ board.toJson = other.toJson
  sameText : ∀ other : SignalBoard, board = other ↔ board.toJson.pretty = other.toJson.pretty
  reads : ∀ reports, (∀ s, s ∈ reports ↔ board.isComplete s = true) →
    ofJson (listed reports) = .ok board ∧
      Json.decodeText ofJson (listed reports).pretty = .ok board

/-- Every board is the set of the reports that are in, and has one stored form. -/
theorem canonical_set (board : SignalBoard) : board.CanonicalSet where
  last calls s := by
    rw [isComplete_callEach]
    cases lastCall? calls s <;> simp
  answer call := by rw [perform_snd, isComplete_perform, if_pos rfl, bne_iff_ne]
  size := board.encard_isComplete
  commute a b hab :=
    ⟨perform_comm hab board, perform_snd_of_ne hab board, perform_snd_of_ne hab.symm board⟩
  order := Signal.strictTotalOrder
  stored := ⟨board.toList, rfl, board.ascending.imp Signal.compare_eq_lt_iff.mp,
    fun _ => isComplete_iff_mem.symm⟩
  sameReports other := ⟨fun h _ => h ▸ rfl, ext_of_isComplete⟩
  sameStored other := by
    refine ⟨congrArg toJson, fun h => ?_⟩
    have hread := board.ofJson_toJson
    rw [h, other.ofJson_toJson] at hread
    exact (Except.ok.inj hread).symm
  sameText other := by
    refine ⟨fun h => h ▸ rfl, fun h => ?_⟩
    have hread := board.decodeText_toJson
    rw [h, other.decodeText_toJson] at hread
    exact (Except.ok.inj hread).symm
  reads reports hreports := by
    have hboard : Ascending.ofList reports = board :=
      ofList_eq fun s => (hreports s).trans isComplete_iff_mem
    exact ⟨hboard ▸ ofJson_ofList reports, hboard ▸ decodeText_reports reports⟩

/-- Reports that are stored in another order, one of them twice, of an observation, of one of its
files and of a file without a parent. -/
theorem canonical_set_unsorted :
    ∃ (board : SignalBoard) (own detached file : Signal),
      own.Before detached ∧ detached.Before file ∧
      ofJson (listed [file, own, detached, own]) = .ok board ∧
      (Call.signal own).perform board = (board, false) ∧
      (board.callEach [.withdraw own, .signal file]).isComplete own = false := by
  let own : Signal := ⟨.observation ⟨7⟩, .archiving⟩
  let detached : Signal := ⟨.artefact none "z", .staging⟩
  let file : Signal := ⟨.artefact (some (.observation ⟨7⟩)) "données", .processing⟩
  let board : SignalBoard := Ascending.ofList [own, detached, file]
  have hreports (s : Signal) : s ∈ [file, own, detached, own] ↔ board.isComplete s = true := by
    rw [isComplete_ofList]
    simp only [List.mem_cons, List.not_mem_nil, or_false]
    tauto
  have hset := canonical_set board
  have hout : ¬(board.callEach [.withdraw own, .signal file]).isComplete own = true := by
    rw [hset.last]
    decide
  have hsame : ((Call.signal own).perform board).2 = false := by
    rw [← Bool.not_eq_true, hset.answer]
    decide
  refine ⟨board, own, detached, file, .owners (.files (.observation ⟨7⟩) none "z") _ _,
    .owners (.detached _ _ _) _ _, (hset.reads _ hreports).1, Prod.ext ?_ hsame, by simpa using hout⟩
  decide

end SignalBoard

end SignalSet

end ArchiveDeposit

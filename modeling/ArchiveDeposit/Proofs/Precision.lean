import ArchiveDeposit.Persisted.Observation
import ArchiveDeposit.Proofs.CanonicalTime
import ArchiveDeposit.Repository

/-!
# The precision of instants

The clock, a date and time from elsewhere and a written text all give an instant at the beginning of
its second.  Stored data gives any instant: the fraction that its text names stays, and so does a leap
second.  Such an instant is shown without its fraction, so it need not compare as it is shown.

**Results.**
* `Timestamp.nanos_eq_zero_iff_isWhole`: which origins give an instant at the beginning of its second.
* `Timestamp.exists_stored_iff`: stored data gives every instant of the calendar.
* `Timestamp.compare_shown`, `Timestamp.isWithin_iff`: what the order knows that is not shown.
* `Timestamp.shown_eq_iff`: the text of an instant says all but the fraction.
* `Timestamp.precision_iff`: the whole of it, with what a store finds in a range of time.
-/

namespace ArchiveDeposit

section Precision

namespace Timestamp

variable {t u first last : Timestamp}

/-- The instant that a shown text names: the second, or the leap second, without its fraction. -/
def shown (t : Timestamp) : Timestamp :=
  ⟨t.date, t.second, t.nanos / nanosPerSecond * nanosPerSecond, t.second_lt, by
    have hnanos := t.nanos_in_second
    simp only [IsNanos, nanosPerSecond] at hnanos ⊢
    omega⟩

theorem storedText_shown (t : Timestamp) : t.shown.storedText = t.text := by
  have hfraction : fractionText (t.shown.nanos % nanosPerSecond) = [] := by
    rw [shown, Nat.mul_mod_left]
    rfl
  have hclock : t.shown.clockText = t.clockText := by
    simp only [clockText, shown]
    rw [Nat.mul_div_cancel _ (by decide)]
  rw [storedText, storedChars, hfraction, hclock, List.append_nil]
  rfl

/-- The text of an instant says all but the fraction. -/
theorem shown_eq_iff (ht : t.InCalendar) (hu : u.InCalendar) :
    t.shown = u.shown ↔ t.text = u.text := by
  constructor
  · intro h
    rw [← storedText_shown, ← storedText_shown, h]
  · intro h
    have hread : ofStored? t.shown.storedText = ofStored? u.shown.storedText := by
      rw [storedText_shown, storedText_shown, h]
    rw [ofStored?_storedText (show t.shown.InCalendar from ht),
      ofStored?_storedText (show u.shown.InCalendar from hu)] at hread
    exact Option.some.inj hread

/-- What is shown of instants is ordered by the second, a leap second behind the one before it. -/
theorem compare_shown_unixSeconds (t u : Timestamp) :
    compare t.shown u.shown = (compare t.unixSeconds u.unixSeconds).then
      (compare ((t.nanos / nanosPerSecond : Nat) : Int) (u.nanos / nanosPerSecond : Nat)) := by
  have hleap : compare (t.shown.nanos : Int) u.shown.nanos =
      compare ((t.nanos / nanosPerSecond : Nat) : Int) (u.nanos / nanosPerSecond : Nat) := by
    simp only [shown, nanosPerSecond]
    exact compare_congr (by omega) (by omega)
  rw [compare_unixSeconds, hleap]
  rfl

/-- What is shown of instants is ordered as its text is. -/
theorem compare_shown_text (ht : t.HasStoredYear) (hu : u.HasStoredYear) :
    compare t.shown u.shown = compare t.text u.text := by
  rw [compare_shown_unixSeconds, compare_text ht hu]

/-- Instants are ordered as they are shown, and where they are shown alike as their nanoseconds. -/
theorem compare_shown (t u : Timestamp) :
    compare t u = (compare t.shown u.shown).then (compare (t.nanos : Int) u.nanos) := by
  have hnanos := compare_div_mod (show 0 < nanosPerSecond by decide) t.nanos u.nanos
  rw [compare_unixSeconds, compare_shown_unixSeconds, Ordering.then_assoc, hnanos,
    ← Ordering.then_assoc (compare ((t.nanos / nanosPerSecond : Nat) : Int) _), Ordering.then_self]

/-- An instant that is shown not later than another is not later, unless both are shown alike. -/
theorem notAfter_iff : t.notAfter u = true ↔
    t.shown.notAfter u.shown = true ∧ (t.shown = u.shown → t.nanos ≤ u.nanos) := by
  unfold notAfter
  rw [compare_shown]
  cases horder : compare t.shown u.shown with
  | lt =>
      have hne : t.shown ≠ u.shown := by
        intro hsame
        rw [hsame, Std.compare_self] at horder
        cases horder
      simp [hne]
  | eq =>
      have hsame : t.shown = u.shown := Std.LawfulEqOrd.eq_of_compare horder
      rw [Ordering.eq_then, Std.isLE_compare, Int.ofNat_le]
      simp [hsame]
  | gt => simp

/-- An instant lies in a range as it is shown, unless it is shown like one of the ends and lies on the
other side of it. -/
theorem isWithin_iff : t.isWithin first last = true ↔
    t.shown.isWithin first.shown last.shown = true ∧
      (first.shown = t.shown → first.nanos ≤ t.nanos) ∧
        (t.shown = last.shown → t.nanos ≤ last.nanos) := by
  simp only [isWithin, Bool.and_eq_true]
  rw [notAfter_iff, notAfter_iff (u := last)]
  constructor
  · rintro ⟨⟨hfirst, hfront⟩, hlast, hback⟩
    exact ⟨⟨hfirst, hlast⟩, hfront, hback⟩
  · rintro ⟨⟨hfirst, hlast⟩, hfront, hback⟩
    exact ⟨⟨hfirst, hfront⟩, hlast, hback⟩

/-- The ways in which an instant comes about. -/
inductive Origin where
  /-- The clock, in seconds. -/
  | clock (seconds : Int)
  /-- A date and time of any precision. -/
  | dateTime (exact : Timestamp)
  | written (text : String)
  | stored (text : String)

namespace Origin

/-- The instant that comes about, if there is one. -/
def instant? : Origin → Option Timestamp
  | .clock seconds => some (ofUnixSeconds seconds)
  | .dateTime exact => some exact.truncate
  | .written text => (ofText text).toOption
  | .stored text => (ofJson (.string (some text))).toOption

/-- The second of its minute and the fraction of that, in nanoseconds, that a stored text names. -/
def namedSecond? (text : String) : Option (Nat × Nat) := do
  let (_, cs) ← readYear? (Text.trimFront text.toList)
  let (_, cs) ← readMarkedNumber? '-' cs
  let (_, cs) ← readMarkedNumber? '-' cs
  let cs ← readDateEnd? cs
  let (_, cs) ← readNumber? 2 (Text.trimFront cs)
  let (_, cs) ← readMarkedNumber? ':' cs
  let (second, cs) ← readMarkedNumber? ':' cs
  let (nanos, _) ← (readFraction cs).toOption
  return (second, nanos)

/-- Whether an instant of this origin lies at the beginning of its second: a stored text has to name a
second without a fraction that is no leap second. -/
def IsWhole : Origin → Prop
  | .stored text => ∃ second, namedSecond? text = some (second, 0) ∧ second ≠ 60
  | _ => True

theorem instant?_stored (text : String) : (stored text).instant? = ofStored? text := by
  simp only [instant?, ofJson, Json.decodeName, Option.bind_some]
  cases ofStored? text <;> rfl

end Origin

/-- A clock reading without a fraction has nanoseconds in a leap second only. -/
theorem leap_of_clock? {hour minute second daySecond leap : Nat}
    (h : clock? hour minute second 0 = some (daySecond, leap)) :
    leap = if second = 60 then nanosPerSecond else 0 := by
  unfold clock? at h
  split at h
  · split at h
    all_goals
      next hsecond =>
        simp only [hsecond, if_true, if_false]
        exact (Prod.mk.inj (Option.some.inj h)).2.symm
  · cases h

/-- What a stored text gives is an instant of the calendar with the nanoseconds that the text names. -/
theorem parts_of_ofStored? {text : String} {t : Timestamp} (h : ofStored? text = some t) :
    t.InCalendar ∧ ∃ second fraction, Origin.namedSecond? text = some (second, fraction) ∧
      t.nanos = (if second = 60 then nanosPerSecond else 0) + fraction := by
  unfold ofStored? at h
  obtain ⟨⟨year, cs₁⟩, hyear, h⟩ := Option.bind_eq_some_iff.mp h
  obtain ⟨⟨month, cs₂⟩, hmonth, h⟩ := Option.bind_eq_some_iff.mp h
  obtain ⟨⟨day, cs₃⟩, hday, h⟩ := Option.bind_eq_some_iff.mp h
  obtain ⟨cs₄, hletter, h⟩ := Option.bind_eq_some_iff.mp h
  obtain ⟨⟨hour, cs₅⟩, hhour, h⟩ := Option.bind_eq_some_iff.mp h
  obtain ⟨⟨minute, cs₆⟩, hminute, h⟩ := Option.bind_eq_some_iff.mp h
  obtain ⟨⟨second, cs₇⟩, hsecond, h⟩ := Option.bind_eq_some_iff.mp h
  obtain ⟨⟨fraction, cs₈⟩, hfraction, h⟩ := Option.bind_eq_some_iff.mp h
  obtain ⟨⟨offset, cs₉⟩, hzone, h⟩ := Option.bind_eq_some_iff.mp h
  obtain ⟨date, hdate, h⟩ := Option.bind_eq_some_iff.mp h
  obtain ⟨⟨daySecond, leap⟩, hclock, h⟩ := Option.bind_eq_some_iff.mp h
  -- The second and the fraction are found by the same reads, before the zone and the calendar.
  have hnamed : Origin.namedSecond? text = some (second, fraction) := by
    unfold Origin.namedSecond?
    refine bind_eq_of_eq_pure hyear (bind_eq_of_eq_pure hmonth (bind_eq_of_eq_pure hday ?_))
    refine bind_eq_of_eq_pure hletter (bind_eq_of_eq_pure hhour (bind_eq_of_eq_pure hminute ?_))
    exact bind_eq_of_eq_pure hsecond (bind_eq_of_eq_pure hfraction rfl)
  dsimp only at h
  split at h
  · split at h
    · next hnanos hchecks =>
        simp only [Bool.and_eq_true, decide_eq_true_eq] at hchecks
        obtain rfl := Option.some.inj h
        refine ⟨hchecks.1.2, second, fraction, hnamed, ?_⟩
        rw [← leap_of_clock? hclock]
        rfl
    · cases h
  · cases h

/-- Stored data gives every instant of the calendar, with or without a fraction, and no other. -/
theorem exists_stored_iff : (∃ text, (Origin.stored text).instant? = some t) ↔ t.InCalendar := by
  simp only [Origin.instant?_stored]
  exact ⟨fun ⟨_, h⟩ => (parts_of_ofStored? h).1, fun h => ⟨t.storedText, ofStored?_storedText h⟩⟩

/-- Only stored data gives instants that do not lie at the beginning of their second, and it does so
where its text names a fraction or a leap second. -/
theorem nanos_eq_zero_iff_isWhole {origin : Origin} (h : origin.instant? = some t) :
    t.nanos = 0 ↔ origin.IsWhole := by
  cases origin with
  | clock seconds =>
      obtain rfl := Option.some.inj h
      exact iff_of_true rfl trivial
  | dateTime exact =>
      obtain rfl := Option.some.inj h
      exact iff_of_true rfl trivial
  | written text =>
      refine iff_of_true ?_ trivial
      cases hread : ofText text with
      | error e =>
          rw [Origin.instant?, hread] at h
          cases h
      | ok read =>
          rw [Origin.instant?, hread] at h
          rw [← Option.some.inj h]
          exact nanos_of_ofText hread
  | stored text =>
      rw [Origin.instant?_stored] at h
      obtain ⟨_, second, fraction, hnamed, hnanos⟩ := parts_of_ofStored? h
      simp only [Origin.IsWhole, hnamed, Option.some.injEq, Prod.mk.injEq]
      constructor
      · intro hzero
        have hleap : second ≠ 60 := by
          rintro rfl
          rw [if_pos rfl, nanosPerSecond] at hnanos
          omega
        exact ⟨second, ⟨rfl, by omega⟩, hleap⟩
      · rintro ⟨_, ⟨rfl, rfl⟩, hleap⟩
        rw [hnanos, if_neg hleap]

/-- An observation is found in a range of time if its own time lies in it. -/
theorem mem_findCompletedBetween {Store Fault : Type} [ObservationStore Store Fault] {store : Store}
    {all : List Observation} (hall : ObservationStore.loadAll store = .ok all)
    (first last : Timestamp) :
    ∃ found, ObservationStore.findCompletedBetween store first last = .ok found ∧
      ∀ o ∈ all, ∀ t, o.completed = some t → (o ∈ found ↔ t.isWithin first last = true) := by
  refine ⟨all.filter fun o => o.completed.any (·.isWithin first last), ?_, fun o ho t ht => ?_⟩
  · rw [ObservationStore.findCompletedBetween, hall]
    rfl
  · rw [List.mem_filter, ht, Option.any_some, and_iff_right ho]

/-- An instant of any origin lies at the beginning of its second exactly if it was not stored or its
text names no fraction and no leap second; and every instant of the calendar is found in stored data.
Compared with an instant that is shown alike, it lies where its nanoseconds lie.  An observation of
that time is found in a range exactly if the time is shown in the range that is shown, and does not
lie on the other side of an end that is shown like it. -/
theorem precision_iff {origin : Origin} (h : origin.instant? = some t) :
    (t.nanos = 0 ↔ origin.IsWhole) ∧
    ((∃ text, (Origin.stored text).instant? = some t) ↔ t.InCalendar) ∧
    (∀ u : Timestamp, t.InCalendar → u.InCalendar → (t.shown = u.shown ↔ t.text = u.text) ∧
      (t.text = u.text → compare t u = compare (t.nanos : Int) u.nanos)) ∧
    (∀ u : Timestamp, t.HasStoredYear → u.HasStoredYear →
      compare t.shown u.shown = compare t.text u.text) ∧
    ∀ {Store Fault : Type} [ObservationStore Store Fault] (store : Store) (all : List Observation),
      ObservationStore.loadAll store = .ok all → ∀ first last : Timestamp, ∃ found,
        ObservationStore.findCompletedBetween store first last = .ok found ∧
        ∀ o ∈ all, o.completed = some t →
          (o ∈ found ↔ t.shown.isWithin first.shown last.shown = true ∧
            (first.shown = t.shown → first.nanos ≤ t.nanos) ∧
            (t.shown = last.shown → t.nanos ≤ last.nanos)) := by
  refine ⟨nanos_eq_zero_iff_isWhole h, exists_stored_iff, ?_, ?_, ?_⟩
  · intro u ht hu
    refine ⟨shown_eq_iff ht hu, fun htext => ?_⟩
    rw [compare_shown, (shown_eq_iff ht hu).mpr htext, Std.compare_self, Ordering.eq_then]
  · exact fun u ht hu => compare_shown_text ht hu
  · intro Store Fault _ store all hall first last
    obtain ⟨found, hfound, hmem⟩ := mem_findCompletedBetween hall first last
    refine ⟨found, hfound, fun o ho hcompleted => ?_⟩
    rw [hmem o ho t hcompleted, isWithin_iff]

/-- A stored observation that was deposited half a second past a full one.  Its time is shown like
that second but lies behind it, and it is not found where the range ends with the second. -/
theorem precision_half_second :
    ∃ (whole half : Timestamp) (j : Json) (o : Observation) (found : List Observation),
      (Origin.written "2023-11-14T22:13:20Z").instant? = some whole ∧ whole.nanos = 0 ∧
      (Origin.stored "2023-11-14T22:13:20.5Z").instant? = some half ∧ half.nanos ≠ 0 ∧
      half.text = whole.text ∧ compare half whole = .gt ∧
      Observation.ofJson j = .ok o ∧ o.completed = some half ∧
      ObservationStore.findCompletedBetween (Repository.save Ascending.empty o) whole whole =
        .ok found ∧ o ∉ found := by
  let whole := ofUnixSeconds 1700000000
  let half : Timestamp := ⟨⟨2023, 11, 14, by decide⟩, 80000, 500000000, by decide, by decide⟩
  let state := Json.object [("type", .string "DEPOSITED"), ("lifecycle", .string "observation"),
    ("owner", .object [("observation", .integer 1)])]
  let j := Json.object [("sbid", .integer 1), ("record", .object [("state", state)]),
    ("deposit_completed", .string "2023-11-14T22:13:20.5Z")]
  let o : Observation := ⟨⟨1⟩, .new ⟨.deposited, .observation, .observation ⟨1⟩, by decide⟩, none,
    some half, []⟩
  have hwhole : (Origin.written "2023-11-14T22:13:20Z").instant? = some whole := by decide +kernel
  have hhalf : (Origin.stored "2023-11-14T22:13:20.5Z").instant? = some half := by decide +kernel
  have htext : half.text = whole.text := by decide +kernel
  have hload : Observation.ofJson j = .ok o := by decide +kernel
  have hall : ObservationStore.loadAll (Repository.save Ascending.empty o) = .ok [o] := by
    decide +kernel
  obtain ⟨_, _, halike, _, hrange⟩ := precision_iff hhalf
  have horder := (halike whole (by decide) (by decide +kernel)).2 htext
  obtain ⟨found, hfound, hmem⟩ := hrange _ _ hall whole whole
  refine ⟨whole, half, j, o, found, hwhole, (precision_iff hwhole).1.mpr trivial, hhalf, by decide,
    htext, horder, hload, rfl, hfound, fun ho => ?_⟩
  have hlast := ((hmem o List.mem_cons_self rfl).mp ho).2.2
  exact absurd (hlast (by decide +kernel)) (by decide)

end Timestamp

end Precision

end ArchiveDeposit

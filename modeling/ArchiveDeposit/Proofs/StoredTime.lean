import ArchiveDeposit.Proofs.Digits
import ArchiveDeposit.Time.Reader
import Mathlib.Algebra.Group.Nat.Defs

/-!
# Stored instants

The stored text of an instant has a fixed number of digits in every part but the year, a fraction as
long as the instant needs, and the zone `Z`.  The reader of stored data takes more than that: any
number of digits up to the same bound, blanks and offsets.  On what is written it finds every part
again, as long as the year is one of its calendar; outside the years 0 to 9999 a sign says where the
digits of the year begin.

**Results.**
* `readNumber?_paddedDigits`: a number that is written with leading zeros is read as it was.
* `readYear?_yearText`: a year is read as it was, with or without a sign.
* `readFraction_fractionText`: a fraction loses nothing, whatever its length.
* `ofStored?_storedText`: an instant of the calendar is read as it was stored.
-/

namespace ArchiveDeposit

section StoredTime

namespace Timestamp

open Text

/-- A number below ten is one digit, of which it is the value. -/
theorem digitChar_spec (n : Nat) :
    isDigit (digitChar n) = true ∧ (digitChar n).toNat - '0'.toNat = n % 10 := by
  have hall : ∀ m < 10, isDigit (Char.ofNat ('0'.toNat + m)) = true ∧
      (Char.ofNat ('0'.toNat + m)).toNat - '0'.toNat = m := by
    decide
  exact hall (n % 10) (Nat.mod_lt n (by decide))

@[simp] theorem length_paddedDigits (width n : Nat) : (paddedDigits width n).length = width := by
  induction width generalizing n with
  | zero => rfl
  | succ width ih => simp [paddedDigits, ih]

theorem isDigit_of_mem_paddedDigits {width n : Nat} :
    ∀ c ∈ paddedDigits width n, isDigit c = true := by
  induction width generalizing n with
  | zero => exact fun c hc => nomatch hc
  | succ width ih =>
      intro c hc
      rcases List.mem_append.mp hc with hfront | hlast
      · exact ih c hfront
      · rw [List.mem_singleton.mp hlast]
        exact (digitChar_spec n).1

theorem paddedDigits_ne_nil {width : Nat} (hwidth : 0 < width) (n : Nat) :
    paddedDigits width n ≠ [] := by
  apply List.ne_nil_of_length_pos
  rw [length_paddedDigits]
  exact hwidth

/-- Digits with leading zeros stand for the number that they were written for. -/
theorem decimalValue_paddedDigits (width n : Nat) :
    decimalValue 0 (paddedDigits width n) = n % 10 ^ width := by
  induction width generalizing n with
  | zero => exact (Nat.mod_one n).symm
  | succ width ih =>
      calc decimalValue 0 (paddedDigits (width + 1) n)
          = decimalValue 0 (paddedDigits width (n / 10)) * 10 + n % 10 := by
            rw [paddedDigits, decimalValue_append, decimalValue, List.foldl_cons, List.foldl_nil,
              (digitChar_spec n).2]
        _ = n % 10 + 10 * (n / 10 % 10 ^ width) := by
            rw [ih]
            omega
        _ = n % 10 ^ (width + 1) := by
            rw [Nat.pow_succ, Nat.mul_comm (10 ^ width) 10, Nat.mod_mul]

/-- A number that is written with leading zeros is read as it was. -/
theorem readNumber?_paddedDigits {width n : Nat} (hwidth : 0 < width) (hn : n < 10 ^ width)
    (rest : List Char) : readNumber? width (paddedDigits width n ++ rest) = some (n, rest) := by
  have htake : (paddedDigits width n ++ rest).take width = paddedDigits width n :=
    List.take_left' (length_paddedDigits width n)
  have hdrop : (paddedDigits width n ++ rest).drop width = rest :=
    List.drop_left' (length_paddedDigits width n)
  have hall : (paddedDigits width n).takeWhile isDigit = paddedDigits width n :=
    takeWhile_isDigit isDigit_of_mem_paddedDigits
  have hnonempty : (paddedDigits width n).isEmpty = false :=
    List.isEmpty_eq_false_iff.mpr (paddedDigits_ne_nil hwidth n)
  unfold readNumber?
  simp only [htake, hall, hnonempty, Bool.false_eq_true, if_false, length_paddedDigits, hdrop,
    decimalValue_paddedDigits, Nat.mod_eq_of_lt hn]

theorem trimFront_paddedDigits {width : Nat} (hwidth : 0 < width) (n : Nat) (rest : List Char) :
    trimFront (paddedDigits width n ++ rest) = paddedDigits width n ++ rest :=
  trimFront_of_digits isDigit_of_mem_paddedDigits (paddedDigits_ne_nil hwidth n)

/-- A number of two digits behind its mark. -/
theorem readMarkedNumber?_paddedDigits {mark : Char} (hmark : isBlank mark = false) {n : Nat}
    (hn : n < 100) (rest : List Char) :
    readMarkedNumber? mark (mark :: (paddedDigits 2 n ++ rest)) = some (n, rest) := by
  have hfront := trimFront_paddedDigits Nat.two_pos n rest
  have hnumber := readNumber?_paddedDigits Nat.two_pos (show n < 10 ^ 2 from hn) rest
  simp only [readMarkedNumber?, trimFront_cons hmark, if_true, hfront, hnumber]

/-- A year of four digits without a sign. -/
theorem readYear?_paddedDigits {n : Nat} (hn : n ≤ 9999) (rest : List Char) :
    readYear? (paddedDigits 4 n ++ rest) = some ((n : Int), rest) := by
  have hnumber := readNumber?_paddedDigits (show 0 < 4 by decide)
    (show n < 10 ^ 4 from Nat.lt_succ_of_le hn) rest
  have hdigit : ∀ c cs, paddedDigits 4 n ++ rest = c :: cs → isDigit c = true := fun c cs h =>
    isDigit_of_append_eq_cons isDigit_of_mem_paddedDigits
      (paddedDigits_ne_nil (by decide) n) h
  unfold readYear?
  split
  · next cs hcs => exact absurd (hdigit '-' cs hcs) (by decide)
  · next cs hcs => exact absurd (hdigit '+' cs hcs) (by decide)
  · rw [hnumber]
    rfl

/-- A year without a sign has four digits, and one with a sign has all that come. -/
theorem readYear?_yearText (year : Int) {rest : List Char} (hrest : EndsDigits rest) :
    readYear? (yearText year ++ rest) = some (year, rest) := by
  unfold yearText
  split
  · next hplain =>
      have hread := readYear?_paddedDigits (show year.toNat ≤ 9999 by omega) rest
      rwa [Int.toNat_of_nonneg hplain.1] at hread
  · next hsigned =>
      let digits := List.replicate (4 - (Nat.toDigits 10 year.natAbs).length) '0' ++
        Nat.toDigits 10 year.natAbs
      have hdigits : ∀ c ∈ digits, isDigit c = true := by
        intro c hc
        rcases List.mem_append.mp hc with hzero | hdigit
        · rw [List.eq_of_mem_replicate hzero]
          decide
        · exact isDigit_of_mem_toDigits _ c hdigit
      have hnonempty : digits.isEmpty = false := by
        simp [digits]
      have hvalue : decimalValue 0 digits = year.natAbs := by
        rw [decimalValue_append, decimalValue_zeros, decimalValue_toDigits]
      have hnumber : readNumber? (digits ++ rest).length (digits ++ rest) =
          some (year.natAbs, rest) := by
        simp only [readNumber?, List.take_length, takeWhile_isDigit_append hdigits hrest,
          hnonempty, Bool.false_eq_true, if_false, hvalue, List.drop_left]
      by_cases hnegative : year < 0
      · have hyear : -(year.natAbs : Int) = year := by omega
        simp only [if_pos hnegative, List.cons_append, readYear?]
        rw [hnumber, Option.map_some, hyear]
      · have hyear : (year.natAbs : Int) = year := by omega
        simp only [if_neg hnegative, List.cons_append, readYear?]
        rw [hnumber, Option.map_some, hyear]

/-- A year begins with a digit or a sign, neither of which is blank. -/
theorem trimFront_yearText (year : Int) (rest : List Char) :
    trimFront (yearText year ++ rest) = yearText year ++ rest := by
  unfold yearText
  split
  · exact trimFront_paddedDigits (by decide) _ rest
  · rw [List.cons_append]
    split
    · exact trimFront_cons (by decide)
    · exact trimFront_cons (by decide)

/-- Up to nine decimals count in full. -/
theorem fractionNanos_paddedDigits {width m : Nat} (hwidth : width ≤ 9) (hm : m < 10 ^ width) :
    fractionNanos (paddedDigits width m) = m * 10 ^ (9 - width) := by
  have htake : (paddedDigits width m).take 9 = paddedDigits width m :=
    List.take_of_length_le (by rwa [length_paddedDigits])
  simp only [fractionNanos, htake, length_paddedDigits, decimalValue_paddedDigits,
    Nat.mod_eq_of_lt hm]
  rfl

theorem readFraction_paddedDigits {width m : Nat} (hpos : 0 < width) (hwidth : width ≤ 9)
    (hm : m < 10 ^ width) :
    readFraction ('.' :: (paddedDigits width m ++ ['Z'])) = .ok (m * 10 ^ (9 - width), ['Z']) := by
  have hdigits : ∀ c ∈ paddedDigits width m, isDigit c = true := isDigit_of_mem_paddedDigits
  have htake : (paddedDigits width m ++ ['Z']).takeWhile isDigit = paddedDigits width m := by
    rw [List.takeWhile_append_of_pos hdigits]
    exact List.append_nil _
  have hdrop : (paddedDigits width m ++ ['Z']).dropWhile isDigit = ['Z'] := by
    rw [List.dropWhile_append_of_pos hdigits]
    rfl
  have hnonempty : (paddedDigits width m).isEmpty = false :=
    List.isEmpty_eq_false_iff.mpr (paddedDigits_ne_nil hpos m)
  simp only [readFraction, htake, hdrop, hnonempty, Bool.false_eq_true, if_false,
    fractionNanos_paddedDigits hwidth hm]

/-- A fraction of a second loses nothing, whatever its length. -/
theorem readFraction_fractionText {nanos : Nat} (h : nanos < nanosPerSecond) :
    readFraction (fractionText nanos ++ ['Z']) = .ok (nanos, ['Z']) := by
  simp only [nanosPerSecond] at h
  unfold fractionText
  split
  · next hzero =>
      rw [hzero]
      rfl
  split
  · next _ hmillis =>
      have hread := readFraction_paddedDigits (show 0 < 3 by decide) (by decide)
        (show nanos / 1000000 < 10 ^ 3 by omega)
      rw [show nanos / 1000000 * 10 ^ (9 - 3) = nanos by omega] at hread
      exact hread
  split
  · next _ _ hmicros =>
      have hread := readFraction_paddedDigits (show 0 < 6 by decide) (by decide)
        (show nanos / 1000 < 10 ^ 6 by omega)
      rw [show nanos / 1000 * 10 ^ (9 - 6) = nanos by omega] at hread
      exact hread
  · have hread := readFraction_paddedDigits (show 0 < 9 by decide) (by decide)
      (show nanos < 10 ^ 9 by omega)
    rw [show nanos * 10 ^ (9 - 9) = nanos by omega] at hread
    exact hread

/-- The years that are stored with four digits and without a sign. -/
def HasStoredYear (t : Timestamp) : Prop := 0 ≤ t.date.year ∧ t.date.year ≤ 9999

instance (t : Timestamp) : Decidable t.HasStoredYear := inferInstanceAs (Decidable (_ ∧ _))

/-- The years of the calendar of stored data. -/
def InCalendar (t : Timestamp) : Prop :=
  storedYears.1 ≤ t.date.year ∧ t.date.year ≤ storedYears.2

instance (t : Timestamp) : Decidable t.InCalendar := inferInstanceAs (Decidable (_ ∧ _))

theorem HasStoredYear.inCalendar {t : Timestamp} (h : t.HasStoredYear) : t.InCalendar :=
  ⟨Int.le_trans (by decide) h.1, Int.le_trans h.2 (by decide)⟩

theorem HasStoredYear.toNat_lt {t : Timestamp} (h : t.HasStoredYear) :
    t.date.year.toNat < 10 ^ 4 := by
  have hlast := h.2
  omega

/-- The month and the day of a date have two digits. -/
theorem date_lt (t : Timestamp) : t.date.month < 10 ^ 2 ∧ t.date.day < 10 ^ 2 := by
  obtain ⟨_, hmonth, _, hday⟩ := t.date.exists_in_calendar
  have hlength := Date.daysInMonth_le t.date.year t.date.month
  omega

/-- Every part of a clock reading has two digits. -/
theorem clock_lt (t : Timestamp) :
    t.second / 3600 < 10 ^ 2 ∧ t.second / 60 % 60 < 10 ^ 2 ∧
      t.second % 60 + t.nanos / nanosPerSecond < 10 ^ 2 := by
  have hsecond := t.second_lt
  have hnanos := t.nanos_in_second.1
  simp only [secondsPerDay, nanosPerSecond] at hsecond hnanos ⊢
  omega

/-- The clock reading of an instant is one that a clock shows, also in a leap second. -/
theorem clock?_clockText (t : Timestamp) :
    ∃ leap, clock? (t.second / 3600) (t.second / 60 % 60)
        (t.second % 60 + t.nanos / nanosPerSecond) 0 = some (t.second, leap) ∧
      leap + t.nanos % nanosPerSecond = t.nanos := by
  obtain ⟨hnanos, hleap⟩ := t.nanos_in_second
  have hsecond := t.second_lt
  simp only [secondsPerDay, nanosPerSecond] at hnanos hleap hsecond ⊢
  unfold clock?
  by_cases hlast : 1000000000 ≤ t.nanos
  · have hminute := hleap hlast
    have hparts : t.second / 3600 * 3600 + t.second / 60 % 60 * 60 + 59 = t.second := by omega
    refine ⟨1000000000, ?_, by omega⟩
    rw [if_pos (by omega), if_pos (by omega), hparts, nanosPerSecond]
  · have hparts : t.second / 3600 * 3600 + t.second / 60 % 60 * 60 +
        (t.second % 60 + t.nanos / 1000000000) = t.second := by omega
    refine ⟨0, ?_, by omega⟩
    rw [if_pos (by omega), if_neg (by omega), hparts]

/-- Without an offset a clock reading is the instant itself. -/
theorem ofLocal_zero (t : Timestamp) (h : IsNanos t.second t.nanos) :
    ofLocal t.date t.second t.nanos 0 h = t := by
  have hsecond := t.second_lt
  have hday : ¬ ((t.second : Int) - 0 * 60 < 0) ∧ (t.second : Int) - 0 * 60 < secondsPerDay := by
    omega
  have htime : (((t.second : Int) - 0 * 60) % (secondsPerDay : Int)).toNat = t.second := by
    rw [Int.emod_eq_of_lt] <;> omega
  obtain ⟨date, second, nanos, _, _⟩ := t
  simp only [ofLocal, Timestamp.mk.injEq]
  exact ⟨by rw [if_neg hday.1, if_pos hday.2], htime, trivial⟩

/-- The parts of a stored text, one behind the other. -/
theorem storedChars_eq (t : Timestamp) :
    t.storedChars = yearText t.date.year ++ ('-' :: (paddedDigits 2 t.date.month ++
      ('-' :: (paddedDigits 2 t.date.day ++ ('T' :: (paddedDigits 2 (t.second / 3600) ++
        (':' :: (paddedDigits 2 (t.second / 60 % 60) ++
          (':' :: (paddedDigits 2 (t.second % 60 + t.nanos / nanosPerSecond) ++
            (fractionText (t.nanos % nanosPerSecond) ++ ['Z']))))))))))) := by
  simp only [storedChars, dateText, clockText, List.append_assoc, List.cons_append]

/-- Reading goes on with what was read. -/
theorem bind_eq_of_eq_pure {m : Type → Type} [Monad m] [LawfulMonad m] {α β : Type} {part : m α}
    {x : α} {rest : α → m β} {result : m β} (hpart : part = pure x) (hrest : rest x = result) :
    part >>= rest = result := by
  rw [hpart, pure_bind]
  exact hrest

/-- An instant of the calendar is read as it was stored. -/
theorem ofStored?_storedText {t : Timestamp} (h : t.InCalendar) :
    ofStored? t.storedText = some t := by
  have hfront := t.storedChars_eq
  obtain ⟨hmonth, hday⟩ := t.date_lt
  obtain ⟨hhour, hminute, hsecond⟩ := t.clock_lt
  have hmonthRead := readMarkedNumber?_paddedDigits (show isBlank '-' = false by decide) hmonth
  have hdayRead := readMarkedNumber?_paddedDigits (show isBlank '-' = false by decide) hday
  have hhourRead := readNumber?_paddedDigits Nat.two_pos hhour
  have hminuteRead := readMarkedNumber?_paddedDigits (show isBlank ':' = false by decide) hminute
  have hsecondRead := readMarkedNumber?_paddedDigits (show isBlank ':' = false by decide) hsecond
  have hfractionRead := readFraction_fractionText
    (Nat.mod_lt t.nanos (show 0 < nanosPerSecond by decide))
  have hzoneRead : readStoredZone? (trimFront ['Z']) = some (0, []) := by decide
  have hdateRead := t.date.ofFields?_self
  obtain ⟨leap, hclockRead, htotal⟩ := t.clock?_clockText
  have hchars : t.storedText.toList = t.storedChars := String.toList_ofList
  rw [ofStored?, hchars, hfront, trimFront_yearText]
  refine bind_eq_of_eq_pure (readYear?_yearText _ (endsDigits_cons (by decide))) ?_
  refine bind_eq_of_eq_pure (hmonthRead _) ?_
  refine bind_eq_of_eq_pure (hdayRead _) ?_
  refine bind_eq_of_eq_pure rfl ?_
  rw [trimFront_paddedDigits Nat.two_pos]
  refine bind_eq_of_eq_pure (hhourRead _) ?_
  refine bind_eq_of_eq_pure (hminuteRead _) ?_
  refine bind_eq_of_eq_pure (hsecondRead _) ?_
  refine bind_eq_of_eq_pure (congrArg Except.toOption hfractionRead) ?_
  refine bind_eq_of_eq_pure hzoneRead ?_
  refine bind_eq_of_eq_pure hdateRead ?_
  refine bind_eq_of_eq_pure hclockRead ?_
  have hstored : ∀ (h : IsNanos t.second (leap + t.nanos % nanosPerSecond)),
      ofLocal t.date t.second (leap + t.nanos % nanosPerSecond) 0 h = t := by
    rw [htotal]
    exact t.ofLocal_zero
  have hcounts : storedYears.1 ≤ t.date.year ∧ t.date.year ≤ storedYears.2 := h
  dsimp only
  rw [dif_pos (by rw [htotal]; exact t.nanos_in_second)]
  simp only [hstored, hcounts]
  rfl

end Timestamp

end StoredTime

end ArchiveDeposit

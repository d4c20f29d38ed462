import ArchiveDeposit.Proofs.Calendar
import ArchiveDeposit.Proofs.StoredTime
import Mathlib.Data.String.Basic

/-!
# The order of shown instants

A shown instant with a year of four digits has its parts in fixed places, the largest unit first, and
each with leading zeros.  So the order of the texts is that of the parts, and this is the order of the
instants up to the part that is not shown, the fraction of the second.

**Results.**
* `Text.compare_append`: texts whose fronts have the same length are ordered by the fronts first.
* `Timestamp.compare_paddedDigits`: numbers with leading zeros are ordered as their digits are.
* `Timestamp.compare_text`: shown instants are ordered by their seconds, a leap second behind the one
  before it.
-/

namespace ArchiveDeposit

section TextOrder

namespace Text

variable {l l' r r' : List Char}

/-- Texts whose fronts have the same length are ordered by the fronts first. -/
theorem compare_append (h : l.length = l'.length) :
    compare (l ++ r) (l' ++ r') = (compare l l').then (compare r r') := by
  induction l generalizing l' with
  | nil =>
      rw [List.length_nil] at h
      rw [List.length_eq_zero_iff.mp h.symm]
      rfl
  | cons c l ih =>
      cases l' with
      | nil => cases h
      | cons d l' =>
          have hlength : l.length = l'.length := Nat.succ.inj h
          rw [List.cons_append, List.cons_append, List.compare_cons_cons, List.compare_cons_cons,
            ih hlength, Ordering.then_assoc]

/-- What texts have in front in common does not count. -/
theorem compare_cons (c : Char) : compare (c :: r) (c :: r') = compare r r' := by
  rw [List.compare_cons_cons, Std.compare_self, Ordering.eq_then]

/-- The order of texts is that of their first difference. -/
theorem compare_eq_compareOfLessAndEq (l r : List Char) :
    compare l r = compareOfLessAndEq l r := by
  induction l generalizing r with
  | nil => cases r <;> rfl
  | cons c l ih =>
      cases r with
      | nil => rfl
      | cons d r =>
          have hchar : compare c d = compareOfLessAndEq c d := rfl
          rw [List.compare_cons_cons, ih, hchar]
          simp only [compareOfLessAndEq, List.cons_lt_cons_iff, List.cons.injEq]
          by_cases hless : c < d
          · simp [hless]
          by_cases hsame : c = d
          · simp [hsame]
          · simp [hless, hsame]

/-- Texts are ordered as their characters are. -/
theorem compare_ofList (l r : List Char) :
    compare (String.ofList l) (String.ofList r) = compare l r := by
  have htexts : compare (String.ofList l) (String.ofList r) =
      compareOfLessAndEq (String.ofList l) (String.ofList r) := rfl
  rw [htexts, compare_eq_compareOfLessAndEq]
  simp only [compareOfLessAndEq, String.lt_iff_toList_lt, String.toList_ofList, String.ofList_inj]

end Text

/-- Numbers are ordered by their quotients first, and by their remainders in the same quotient. -/
theorem compare_div_mod {base : Nat} (hbase : 0 < base) (n m : Nat) :
    compare (n : Int) m = (compare ((n / base : Nat) : Int) (m / base : Nat)).then
      (compare ((n % base : Nat) : Int) (m % base : Nat)) := by
  have hn := Nat.mod_lt n hbase
  have hm := Nat.mod_lt m hbase
  rw [← compare_mul_add base (by omega) (by omega)]
  norm_cast
  rw [Nat.div_add_mod', Nat.div_add_mod']

namespace Timestamp

theorem compare_digitChar (n m : Nat) :
    compare (digitChar n) (digitChar m) = compare ((n % 10 : Nat) : Int) (m % 10 : Nat) := by
  have hall : ∀ a < 10, ∀ b < 10,
      compare (Char.ofNat ('0'.toNat + a)) (Char.ofNat ('0'.toNat + b)) =
        compare (a : Int) (b : Int) := by
    decide
  exact hall (n % 10) (Nat.mod_lt n (by decide)) (m % 10) (Nat.mod_lt m (by decide))

/-- Numbers with leading zeros are ordered as their digits are. -/
theorem compare_paddedDigits {width n m : Nat} (hn : n < 10 ^ width) (hm : m < 10 ^ width) :
    compare (paddedDigits width n) (paddedDigits width m) = compare (n : Int) m := by
  induction width generalizing n m with
  | zero =>
      have hzero : n = m := by omega
      rw [hzero, Std.compare_self, Std.compare_self]
  | succ width ih =>
      have hlengths :
          (paddedDigits width (n / 10)).length = (paddedDigits width (m / 10)).length := by
        rw [length_paddedDigits, length_paddedDigits]
      calc compare (paddedDigits (width + 1) n) (paddedDigits (width + 1) m)
          = (compare (paddedDigits width (n / 10)) (paddedDigits width (m / 10))).then
              (compare [digitChar n] [digitChar m]) := Text.compare_append hlengths
        _ = (compare ((n / 10 : Nat) : Int) (m / 10 : Nat)).then
              (compare [digitChar n] [digitChar m]) := by
            rw [ih (by omega) (by omega)]
        _ = compare (n : Int) m := by
            rw [compare_div_mod (show 0 < 10 by decide) n m, List.compare_cons_cons,
              compare_digitChar, Std.compare_self (a := ([] : List Char)), Ordering.then_eq]

/-- Numbers with leading zeros, and what stands behind them. -/
theorem compare_paddedDigits_append {width n m : Nat} {r r' : List Char} (hn : n < 10 ^ width)
    (hm : m < 10 ^ width) :
    compare (paddedDigits width n ++ r) (paddedDigits width m ++ r') =
      (compare (n : Int) m).then (compare r r') := by
  rw [Text.compare_append (by rw [length_paddedDigits, length_paddedDigits]),
    compare_paddedDigits hn hm]

variable {t u : Timestamp}

/-- The parts of a shown text, one behind the other. -/
theorem shownChars_eq (h : t.HasStoredYear) :
    t.shownChars = paddedDigits 4 t.date.year.toNat ++ '-' :: (paddedDigits 2 t.date.month ++
      '-' :: (paddedDigits 2 t.date.day ++ 'T' :: (paddedDigits 2 (t.second / 3600) ++
        ':' :: (paddedDigits 2 (t.second / 60 % 60) ++
          ':' :: (paddedDigits 2 (t.second % 60 + t.nanos / nanosPerSecond) ++ ['Z']))))) := by
  have hyear : yearText t.date.year = paddedDigits 4 t.date.year.toNat := if_pos h
  simp only [shownChars, dateText, clockText, hyear, List.append_assoc, List.cons_append]

/-- Clock readings are ordered by the second, a leap second behind the one before it. -/
theorem compare_clock (t u : Timestamp) :
    (compare ((t.second / 3600 : Nat) : Int) (u.second / 3600 : Nat)).then
        ((compare ((t.second / 60 % 60 : Nat) : Int) (u.second / 60 % 60 : Nat)).then
          (compare ((t.second % 60 + t.nanos / nanosPerSecond : Nat) : Int)
            (u.second % 60 + u.nanos / nanosPerSecond : Nat))) =
      (compare (t.second : Int) u.second).then
        (compare ((t.nanos / nanosPerSecond : Nat) : Int) (u.nanos / nanosPerSecond : Nat)) := by
  have hminutes : compare ((t.second / 60 : Nat) : Int) (u.second / 60 : Nat) =
      (compare ((t.second / 3600 : Nat) : Int) (u.second / 3600 : Nat)).then
        (compare ((t.second / 60 % 60 : Nat) : Int) (u.second / 60 % 60 : Nat)) := by
    rw [compare_div_mod (show 0 < 60 by decide), Nat.div_div_eq_div_mul, Nat.div_div_eq_div_mul]
  have hseconds : compare (t.second : Int) u.second =
      (compare ((t.second / 60 : Nat) : Int) (u.second / 60 : Nat)).then
        (compare ((t.second % 60 : Nat) : Int) (u.second % 60 : Nat)) :=
    compare_div_mod (by decide) _ _
  -- Only the last second of a minute has a leap second, and no other second comes behind it.
  have hleap : compare ((t.second % 60 + t.nanos / nanosPerSecond : Nat) : Int)
        (u.second % 60 + u.nanos / nanosPerSecond : Nat) =
      (compare ((t.second % 60 : Nat) : Int) (u.second % 60 : Nat)).then
        (compare ((t.nanos / nanosPerSecond : Nat) : Int) (u.nanos / nanosPerSecond : Nat)) := by
    have ht := t.nanos_in_second
    have hu := u.nanos_in_second
    simp only [IsNanos, nanosPerSecond] at ht hu ⊢
    rw [← compare_mul_add 2 (by omega) (by omega)]
    exact compare_congr (by omega) (by omega)
  rw [hseconds, hminutes, hleap]
  simp only [Ordering.then_assoc]

/-- Shown instants are ordered by their seconds, a leap second behind the one before it. -/
theorem compare_text (ht : t.HasStoredYear) (hu : u.HasStoredYear) :
    compare t.text u.text = (compare t.unixSeconds u.unixSeconds).then
      (compare ((t.nanos / nanosPerSecond : Nat) : Int) (u.nanos / nanosPerSecond : Nat)) := by
  obtain ⟨htmonth, htday⟩ := t.date_lt
  obtain ⟨humonth, huday⟩ := u.date_lt
  obtain ⟨hthour, htminute, htsecond⟩ := t.clock_lt
  obtain ⟨huhour, huminute, husecond⟩ := u.clock_lt
  rw [text, text, Text.compare_ofList, shownChars_eq ht, shownChars_eq hu,
    compare_paddedDigits_append ht.toNat_lt hu.toNat_lt, Text.compare_cons,
    compare_paddedDigits_append htmonth humonth, Text.compare_cons,
    compare_paddedDigits_append htday huday, Text.compare_cons,
    compare_paddedDigits_append hthour huhour, Text.compare_cons,
    compare_paddedDigits_append htminute huminute, Text.compare_cons,
    compare_paddedDigits_append htsecond husecond, Std.compare_self (a := ['Z']),
    Ordering.then_eq, compare_clock, Int.toNat_of_nonneg ht.1, Int.toNat_of_nonneg hu.1,
    compare_unixSeconds_fields]
  simp only [Ordering.then_assoc]

end Timestamp

end TextOrder

end ArchiveDeposit

import ArchiveDeposit.Text.Blank
import ArchiveDeposit.Text.Decimal
import Mathlib.Algebra.Group.Nat.Defs

/-!
# Decimal digits

Numbers are written in decimal digits in the texts of instants, in JSON and in the names of files,
and a run of digits ends before the first other character.  What is common to reading them is here:
the digits of a number stand for the number, they have no zero in front, and a run of them is found
again whatever comes behind it.

**Results.**
* `decimalValue_toDigits`: the digits of a number stand for it.
* `decimalValue_lt`: digits stand for a number that has no more of them.
* `head?_toDigits_eq_zero`: only the number zero begins with a zero.
* `takeWhile_isDigit_append`, `dropWhile_isDigit_append`: where a run of digits ends.
-/

namespace ArchiveDeposit

section Digits

namespace Text

theorem isDigit_iff {c : Char} : isDigit c = true ↔ 48 ≤ c.toNat ∧ c.toNat ≤ 57 := by
  unfold isDigit digitValue?
  refine ⟨fun h => ?_, fun h => ?_⟩
  · split at h
    · next hrange => exact hrange
    · cases h
  · rw [if_pos (show '0' ≤ c ∧ c ≤ '9' from h)]
    rfl

theorem isBlank_of_isDigit {c : Char} (h : isDigit c = true) : isBlank c = false := by
  obtain ⟨hlow, hhigh⟩ := isDigit_iff.mp h
  simp only [isBlank]
  simp
  omega

/-- A text that begins with a digit keeps its front. -/
theorem trimFront_of_digits {digits rest : List Char} (hall : ∀ c ∈ digits, isDigit c = true)
    (hne : digits ≠ []) : trimFront (digits ++ rest) = digits ++ rest := by
  obtain ⟨c, digits, rfl⟩ := List.exists_cons_of_ne_nil hne
  exact trimFront_cons (isBlank_of_isDigit (hall c List.mem_cons_self))

/-- A text that begins with a digit begins with no other character. -/
theorem isDigit_of_append_eq_cons {digits rest cs : List Char} {c : Char}
    (hall : ∀ c ∈ digits, isDigit c = true) (hne : digits ≠ []) (h : digits ++ rest = c :: cs) :
    isDigit c = true := by
  obtain ⟨d, digits, rfl⟩ := List.exists_cons_of_ne_nil hne
  rw [← (List.cons.inj h).1]
  exact hall d List.mem_cons_self

theorem takeWhile_isDigit {digits : List Char} (hall : ∀ c ∈ digits, isDigit c = true) :
    digits.takeWhile isDigit = digits := by
  have happend : (digits ++ []).takeWhile isDigit = digits ++ [].takeWhile isDigit :=
    List.takeWhile_append_of_pos hall
  simpa using happend

/-- Whether a text does not go on with a digit. -/
def EndsDigits (rest : List Char) : Prop := ∀ c ∈ rest.head?, isDigit c = false

theorem endsDigits_cons {c : Char} {cs : List Char} (h : isDigit c = false) :
    EndsDigits (c :: cs) := fun _ hd => Option.some.inj hd ▸ h

theorem endsDigits_iff {rest : List Char} : EndsDigits rest ↔ rest.head?.any isDigit = false := by
  cases rest with
  | nil => exact ⟨fun _ => rfl, fun _ _ => nofun⟩
  | cons c cs => exact ⟨fun h => h c rfl, endsDigits_cons⟩

theorem takeWhile_isDigit_append {digits rest : List Char}
    (hall : ∀ c ∈ digits, isDigit c = true) (hrest : EndsDigits rest) :
    (digits ++ rest).takeWhile isDigit = digits := by
  rw [List.takeWhile_append_of_pos hall]
  cases rest with
  | nil => exact List.append_nil _
  | cons c cs => rw [List.takeWhile_cons_of_neg (by simp [hrest c rfl]), List.append_nil]

theorem dropWhile_isDigit_append {digits rest : List Char}
    (hall : ∀ c ∈ digits, isDigit c = true) (hrest : EndsDigits rest) :
    (digits ++ rest).dropWhile isDigit = rest := by
  rw [List.dropWhile_append_of_pos hall]
  cases rest with
  | nil => rfl
  | cons c cs => rw [List.dropWhile_cons_of_neg (by simp [hrest c rfl])]

theorem decimalValue_append (value : Nat) (front back : List Char) :
    decimalValue value (front ++ back) = decimalValue (decimalValue value front) back :=
  List.foldl_append

/-- Digits stand for a number that has no more of them. -/
theorem decimalValue_lt {digits : List Char} (hall : ∀ c ∈ digits, isDigit c = true) (value : Nat) :
    decimalValue value digits < (value + 1) * 10 ^ digits.length := by
  induction digits generalizing value with
  | nil => exact Nat.lt_of_lt_of_eq (Nat.lt_succ_self value) (Nat.mul_one _).symm
  | cons c digits ih =>
      obtain ⟨hc, hdigits⟩ := List.forall_mem_cons.mp hall
      have hdigit := isDigit_iff.mp hc
      have hzero : '0'.toNat = 48 := rfl
      calc decimalValue value (c :: digits)
          = decimalValue (value * 10 + (c.toNat - '0'.toNat)) digits := rfl
        _ < (value * 10 + (c.toNat - '0'.toNat) + 1) * 10 ^ digits.length := ih hdigits _
        _ ≤ (value + 1) * 10 * 10 ^ digits.length := Nat.mul_le_mul_right _ (by omega)
        _ = (value + 1) * 10 ^ (c :: digits).length := by
          rw [List.length_cons, Nat.pow_succ, Nat.mul_assoc, Nat.mul_comm 10]

/-- Zeros in front count for nothing. -/
theorem decimalValue_zeros (n : Nat) : decimalValue 0 (List.replicate n '0') = 0 := by
  induction n with
  | zero => rfl
  | succ n ih => exact ih

theorem isDigit_of_mem_toDigits (n : Nat) : ∀ c ∈ Nat.toDigits 10 n, isDigit c = true :=
  fun _ hc => isDigit_iff.mpr
    (Char.isDigit_iff_toNat.mp (Nat.isDigit_of_mem_toDigits (by decide) (by decide) hc))

/-- The digits of a number stand for it. -/
theorem decimalValue_toDigits (n : Nat) : decimalValue 0 (Nat.toDigits 10 n) = n := by
  induction n using Nat.strongRecOn with
  | _ n ih =>
      by_cases hsmall : n < 10
      · rw [Nat.toDigits_of_lt_base hsmall]
        exact (Nat.zero_add _).trans (Nat.toNat_digitChar_sub_48_of_lt_ten hsmall)
      · have hlast : (Nat.digitChar (n % 10)).toNat - '0'.toNat = n % 10 :=
          Nat.toNat_digitChar_sub_48_of_lt_ten (Nat.mod_lt n (by decide))
        calc decimalValue 0 (Nat.toDigits 10 n)
            = decimalValue 0 (Nat.toDigits 10 (n / 10)) * 10 + n % 10 := by
              rw [Nat.toDigits_of_base_le (by decide) (by omega), decimalValue_append,
                decimalValue, List.foldl_cons, List.foldl_nil, hlast]
          _ = n := by
              rw [ih (n / 10) (by omega)]
              omega

/-- Only the number zero begins with a zero. -/
theorem head?_toDigits_eq_zero {n : Nat} (h : (Nat.toDigits 10 n).head? = some '0') : n = 0 := by
  induction n using Nat.strongRecOn with
  | _ n ih =>
      by_cases hsmall : n < 10
      · rw [Nat.toDigits_of_lt_base hsmall] at h
        exact Nat.digitChar_eq_zero.mp (Option.some.inj h)
      · rw [Nat.toDigits_of_base_le (by decide) (by omega), List.head?_append] at h
        rcases Option.or_eq_some_iff.mp h with hfront | ⟨hnil, _⟩
        · have hzero := ih (n / 10) (by omega) hfront
          omega
        · exact absurd (List.head?_eq_none_iff.mp hnil) Nat.toDigits_ne_nil

end Text

end Digits

end ArchiveDeposit

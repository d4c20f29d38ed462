/-!
# Reading decimal numbers below a bound

A number is an optional plus sign and one or more ASCII digits.  Reading goes from left to right
and stops at the first fault, so a text that is both too large and malformed is reported by
whichever shows first.

`readDigits_eq_ok_iff` says which digits are read and as what.
-/

namespace ArchiveDeposit
namespace Text

section Decimal

/-- Why a text is not a number below the bound. -/
inductive DecimalFault where
  | empty
  | invalidDigit
  | tooLarge
deriving DecidableEq, Repr

/-- The wording of a fault. -/
def DecimalFault.message : DecimalFault → String
  | .empty => "cannot parse integer from empty string"
  | .invalidDigit => "invalid digit found in string"
  | .tooLarge => "number too large to fit in target type"

/-- The value of an ASCII digit. -/
def digitValue? (c : Char) : Option Nat :=
  if '0' ≤ c ∧ c ≤ '9' then some (c.toNat - '0'.toNat) else none

/-- Reads digits behind the value `value`, below `bound`. -/
def readDigits (bound : Nat) : Nat → List Char → Except DecimalFault Nat
  | value, [] => .ok value
  | value, c :: cs =>
      match digitValue? c with
      | none => .error .invalidDigit
      | some d =>
          if value * 10 + d < bound then readDigits bound (value * 10 + d) cs
          else .error .tooLarge

/-- Reads a whole text as a number below `bound`. -/
def readDecimal (bound : Nat) : List Char → Except DecimalFault Nat
  | [] => .error .empty
  | ['+'] => .error .invalidDigit
  | '+' :: cs => readDigits bound 0 cs
  | cs => readDigits bound 0 cs

/-- The value of a list of digits, read after `value`. -/
def decimalValue (value : Nat) (cs : List Char) : Nat :=
  cs.foldl (fun v c => v * 10 + (c.toNat - '0'.toNat)) value

/-- Whether a character is an ASCII digit. -/
def isDigit (c : Char) : Bool := (digitValue? c).isSome

theorem digitValue?_eq_some_iff {c : Char} {d : Nat} :
    digitValue? c = some d ↔ isDigit c = true ∧ d = c.toNat - '0'.toNat := by
  unfold isDigit digitValue?
  split <;> simp [eq_comm]

/-- More digits never make a value smaller. -/
theorem le_decimalValue (value : Nat) (cs : List Char) : value ≤ decimalValue value cs := by
  induction cs generalizing value with
  | nil => exact Nat.le_refl _
  | cons c cs ih =>
      have h := ih (value * 10 + (c.toNat - '0'.toNat))
      simp only [decimalValue, List.foldl_cons] at h ⊢
      omega

/-- Reading digits succeeds exactly on digits whose value stays below the bound. -/
theorem readDigits_eq_ok_iff {bound value : Nat} {cs : List Char} {n : Nat}
    (hvalue : value < bound) :
    readDigits bound value cs = .ok n ↔
      cs.all isDigit = true ∧ n = decimalValue value cs ∧ n < bound := by
  induction cs generalizing value with
  | nil =>
      simp only [readDigits, decimalValue, List.all_nil, List.foldl_nil, true_and,
        Except.ok.injEq]
      constructor
      · rintro rfl
        exact ⟨rfl, hvalue⟩
      · exact fun h => h.1.symm
  | cons c cs ih =>
      simp only [readDigits, List.all_cons, Bool.and_eq_true]
      cases hd : digitValue? c with
      | none =>
          have hc : isDigit c = false := by simp [isDigit, hd]
          simp [hc]
      | some d =>
          obtain ⟨hc, hdv⟩ := digitValue?_eq_some_iff.mp hd
          have hstep : decimalValue value (c :: cs) = decimalValue (value * 10 + d) cs := by
            rw [hdv]
            rfl
          rw [hstep]
          simp only [hc, true_and]
          by_cases hb : value * 10 + d < bound
          · simpa [hb] using ih hb
          · simp only [hb, if_false]
            constructor
            · intro h
              cases h
            · rintro ⟨_, rfl, hlt⟩
              exact absurd (Nat.lt_of_le_of_lt (le_decimalValue _ _) hlt) hb

end Decimal

end Text
end ArchiveDeposit

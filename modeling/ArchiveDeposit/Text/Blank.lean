/-!
# Blank characters and trimming

The characters that Unicode gives the property `White_Space`, and the removal of such characters
from both ends of a text.  Identifiers, stage names and numbers in the environment are read after
trimming.

The lemmas say what dropping the blanks in front does: a run of blanks disappears, and a text that
begins with another character is kept.
-/

namespace ArchiveDeposit
namespace Text

section Blank

/-- The characters with the property `White_Space`. -/
def isBlank (c : Char) : Bool :=
  let n := c.toNat
  (9 ≤ n && n ≤ 13) || n == 0x20 || n == 0x85 || n == 0xa0 || n == 0x1680 ||
    (0x2000 ≤ n && n ≤ 0x200a) || n == 0x2028 || n == 0x2029 || n == 0x202f ||
    n == 0x205f || n == 0x3000

/-- Drops the blanks in front. -/
def trimFront (cs : List Char) : List Char := cs.dropWhile isBlank

/-- Drops the blanks at the end. -/
def trimBack (cs : List Char) : List Char := (trimFront cs.reverse).reverse

/-- Drops the blanks at both ends. -/
def trim (cs : List Char) : List Char := trimBack (trimFront cs)

/-- A text whose first character is not blank keeps its front. -/
theorem trimFront_cons {c : Char} {cs : List Char} (h : isBlank c = false) :
    trimFront (c :: cs) = c :: cs := by
  simp [trimFront, h]

/-- A run of blanks in front disappears. -/
theorem trimFront_append {bs cs : List Char} (h : ∀ b ∈ bs, isBlank b = true) :
    trimFront (bs ++ cs) = trimFront cs := by
  induction bs with
  | nil => rfl
  | cons b bs ih =>
      have hb : isBlank b = true := h b (by simp)
      have hbs : ∀ b ∈ bs, isBlank b = true := fun x hx => h x (by simp [hx])
      simpa [trimFront, hb] using ih hbs

/-- A text splits into the blanks that are dropped in front and what is kept. -/
theorem exists_append_trimFront (cs : List Char) :
    ∃ bs : List Char, (∀ b ∈ bs, isBlank b = true) ∧ cs = bs ++ trimFront cs :=
  ⟨cs.takeWhile isBlank,
    fun _ hb => List.all_eq_true.mp (List.all_takeWhile) _ hb,
    (List.takeWhile_append_dropWhile).symm⟩

end Blank

end Text
end ArchiveDeposit

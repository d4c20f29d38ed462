/-!
# Paths

A path is a text whose parts stand between slashes.  An empty part and a dot stand for the
directory itself, two dots for its parent; a path that begins with a slash begins at the root.

The lemmas say that a slash ends a part, and that a text without slashes is one part.
-/

namespace ArchiveDeposit

section Path

/-- A path as it is written. -/
structure Path where
  text : String
deriving DecidableEq, Repr

namespace Path

/-- The parts of a text between slashes, of which there is at least one. -/
def split : List Char → List (List Char)
  | [] => [[]]
  | c :: cs =>
      if c = '/' then [] :: split cs
      else
        match split cs with
        | [] => [[c]]
        | part :: rest => (c :: part) :: rest

/-- The parts of a path. -/
def parts (p : Path) : List String := (split p.text.toList).map String.ofList

/-- The path of a name in a directory. -/
def join (directory : Path) (name : String) : Path :=
  if directory.text.isEmpty || directory.text.toList.getLast? == some '/' then
    ⟨directory.text ++ name⟩
  else ⟨directory.text ++ "/" ++ name⟩

/-- The path of the directory that a path ends in, by its text alone. -/
def directory (p : Path) : Path :=
  ⟨String.ofList ((p.text.toList.reverse.dropWhile (· != '/')).drop 1).reverse⟩

/-- The path without slashes at its end. -/
def trimEnd (p : Path) : Path :=
  ⟨String.ofList (p.text.toList.reverse.dropWhile (· == '/')).reverse⟩

/-- Whether the last part of a path is one dot or two. -/
def endsInDots (p : Path) : Bool :=
  match p.trimEnd.parts.getLast? with
  | some part => part == "." || part == ".."
  | none => false

theorem split_ne_nil (cs : List Char) : split cs ≠ [] := by
  induction cs with
  | nil => simp [split]
  | cons c cs ih =>
      simp only [split]
      split
      · simp
      · split <;> simp

/-- A text without slashes is one part. -/
theorem split_eq_singleton {cs : List Char} (h : '/' ∉ cs) : split cs = [cs] := by
  induction cs with
  | nil => rfl
  | cons c cs ih =>
      simp only [List.mem_cons, not_or] at h
      have hc : ¬c = '/' := fun e => h.1 e.symm
      simp [split, hc, ih h.2]

/-- A slash ends a part. -/
theorem split_append_slash (as bs : List Char) :
    split (as ++ '/' :: bs) = split as ++ split bs := by
  induction as with
  | nil => simp [split]
  | cons c cs ih =>
      simp only [List.cons_append, split]
      by_cases hc : c = '/'
      · simp [hc, ih]
      · simp only [hc, if_false, ih]
        cases hs : split cs with
        | nil => exact absurd hs (split_ne_nil cs)
        | cons part rest => simp

end Path

end Path

end ArchiveDeposit

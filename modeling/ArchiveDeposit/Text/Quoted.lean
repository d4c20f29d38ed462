import ArchiveDeposit.Text.Unprintable

/-!
# Quoted texts in messages

A text named in a message is written between double quotes, so that a reader sees where it begins
and ends.  A quote and a backslash inside it get a backslash in front; NUL, tab, line feed and
carriage return have letters of their own; any other character that cannot be shown is written by
its number.
-/

namespace ArchiveDeposit
namespace Text

section Quoted

/-- The digits of a number in base sixteen, lower case. -/
def hexDigits (n : Nat) : List Char := Nat.toDigits 16 n

/-- How one character is written inside quotes. -/
def escape (c : Char) : List Char :=
  if c = '\x00' then ['\\', '0']
  else if c = '\t' then ['\\', 't']
  else if c = '\n' then ['\\', 'n']
  else if c = '\r' then ['\\', 'r']
  else if c = '"' then ['\\', '"']
  else if c = '\\' then ['\\', '\\']
  else if isPrintable c then [c]
  else ['\\', 'u', '{'] ++ hexDigits c.toNat ++ ['}']

/-- A text between double quotes. -/
def quote (s : String) : String :=
  String.ofList ('"' :: (s.toList.flatMap escape ++ ['"']))

end Quoted

end Text
end ArchiveDeposit

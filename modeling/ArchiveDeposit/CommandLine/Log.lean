import ArchiveDeposit.Json.Printer
import ArchiveDeposit.Settings

/-!
# The log

While a command runs it keeps a log beside what it prints.  An entry has a level, a message and
named values.  Entries below the level that is asked for are left out; the others are written among
the printed lines, in the order in which all this happens, each entry on a line of its own that
begins with the time.

Values are written as they are, so one with a line break goes on in the next line of a log in text
form.  A line that begins with a time is taken for an entry, whoever wrote it.
-/

namespace ArchiveDeposit

section Log

/-- How grave an entry is. -/
inductive LogLevel where
  | debug
  | info
  | warning
  | error
deriving DecidableEq, Repr

namespace LogLevel

/-- The levels in ascending order. -/
def rank : LogLevel → Nat
  | .debug => 0
  | .info => 1
  | .warning => 2
  | .error => 3

/-- The name of a level. -/
def name : LogLevel → String
  | .debug => "DEBUG"
  | .info => "INFO"
  | .warning => "WARN"
  | .error => "ERROR"

/-- The least level that is written, by the number of times that more was asked for. -/
def ofVerbosity : (verbosity : Nat) → LogLevel
  | 0 => .warning
  | 1 => .info
  | _ => .debug

end LogLevel

/-- An entry of the log. -/
structure LogEntry where
  level : LogLevel
  message : String
  values : List (String × Json)

namespace LogEntry

/-- The characters of a message that would steer a terminal are written by their numbers. -/
def tame (c : Char) : List Char :=
  if ['\x07', '\x08', '\x0c', '\x1b', '\x7f'].contains c then ['\\', 'x'] ++ Json.hexPair c.toNat
  else if 0x80 ≤ c.toNat ∧ c.toNat < 0xa0 then
    ['\\', 'u', '{'] ++ Text.hexDigits c.toNat ++ ['}']
  else [c]

/-- A value in an entry. -/
def showValue : Json → String
  | .string s => s
  | j => j.compact

/-- An entry in text form, without its time. -/
def text (e : LogEntry) : String :=
  String.ofList (List.replicate (5 - e.level.name.length) ' ') ++ e.level.name ++ " " ++
    String.ofList (e.message.toList.flatMap tame) ++
    String.join (e.values.map fun v => " " ++ v.1 ++ "=" ++ showValue v.2)

/-- The name of the time in the other form. -/
def timeName : String := "timestamp"

/-- An entry as data. -/
def toJson (e : LogEntry) (time : String) : Json :=
  .object [(timeName, .string time), ("level", .string e.level.name),
    ("fields", .object (("message", .string e.message) :: e.values))]

/-- An entry as it is written. -/
def written (e : LogEntry) (format : LogFormat) (time : String) : String :=
  match format with
  | .text => time ++ " " ++ e.text
  | .json => (e.toJson time).compact

end LogEntry

/-- What a command sends out while it runs. -/
inductive Emission where
  | printed (line : String)
  | logged (entry : LogEntry)

/-- The line that is printed. -/
def Emission.line? : Emission → Option String
  | .printed line => some line
  | .logged _ => none

/-- What is written of what a command sent out: all lines that it printed and the entries from a
level on. -/
def transcript (least : LogLevel) (format : LogFormat) (time : String) (l : List Emission) :
    String :=
  let lines := l.filterMap fun
    | .printed line => some line
    | .logged e => if least.rank ≤ e.level.rank then some (e.written format time) else none
  String.join (lines.map (· ++ "\n"))

/-- Whether a text begins with a date and the mark of a time behind it. -/
def beginsWithTime : List Char → Bool
  | a :: b :: c :: d :: '-' :: e :: f :: '-' :: g :: h :: 'T' :: _ =>
      [a, b, c, d, e, f, g, h].all Text.isDigit
  | _ => false

/-- Whether a line is taken for an entry of the log. -/
def isEntryLine (line : List Char) : Bool :=
  beginsWithTime line || ("\x7b" ++ Json.quoted LogEntry.timeName).toList.isPrefixOf line

/-- A line from its characters in reverse, without a carriage return at its end. -/
def endLine : List Char → List Char
  | '\r' :: cs => cs.reverse
  | cs => cs.reverse

/-- The lines of a text, each ended by a line feed, behind the characters of a line that has begun,
which are in reverse. -/
def splitLines (begun : List Char) : List Char → List (List Char)
  | [] => []
  | c :: cs => if c = '\n' then endLine begun :: splitLines [] cs else splitLines (c :: begun) cs

/-- The lines of a text that are no entries of the log. -/
def printedLines (text : String) : List String :=
  ((splitLines [] text.toList).filter fun line => !isEntryLine line).map String.ofList

end Log

end ArchiveDeposit

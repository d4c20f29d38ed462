/-!
# Reading arguments

How the words of a command line are read, whatever the command.  A grammar says which options there
are and what each does to the result; words are read from left to right.

An option that takes a value has it behind an equals sign or as the next word.  A value is examined
only when the next option or operand that is known comes, or at the end; a word that is not known
is refused before that.  After the word `--` all words are operands.
-/

namespace ArchiveDeposit

section Arguments

/-- Why the words of a command line are refused, or what is shown in place of a command. -/
inductive UsageError where
  /-- The general description was asked for. -/
  | help
  /-- The version was asked for. -/
  | version
  /-- There is no command. -/
  | noCommand
  | missingArgument
  | unknownArgument
  /-- A value does not read. -/
  | invalidValue
  /-- An option has no value, or an empty path. -/
  | emptyValue
  /-- An option without values has one. -/
  | surplusValue
  /-- An option repeats, or excludes another one. -/
  | conflict
deriving DecidableEq, Repr

/-- What an option does to the result so far. -/
inductive OptionMeaning (α : Type) where
  | flag (apply : α → Except UsageError α)
  | value (apply : String → α → Except UsageError α)

/-- The options, operands and commands that are known. -/
structure Grammar (α : Type) where
  /-- Options by their names after two hyphens. -/
  long : List (String × OptionMeaning α)
  /-- Options without values by their letters after one hyphen. -/
  short : List (Char × (α → Except UsageError α))
  /-- What the operands do, in order. -/
  operands : List (String → α → Except UsageError α)
  /-- The words that end this grammar and begin another. -/
  commands : List String

/-- An option that waits for its value or for its value to be examined. -/
inductive Held (α : Type) where
  | nothing
  | option (apply : String → α → Except UsageError α)
  | value (apply : String → α → Except UsageError α) (text : String)

/-- What reading has come to. -/
structure Reading (α : Type) where
  result : α
  held : Held α
  /-- What the operands to come do. -/
  operands : List (String → α → Except UsageError α)

/-- The command that ended a grammar, and the words after it. -/
structure CommandWord where
  name : String
  rest : List String
deriving DecidableEq, Repr

variable {α : Type}

namespace Reading

/-- The result once a value that is held has been examined. -/
def settle (r : Reading α) : Except UsageError α :=
  match r.held with
  | .nothing => .ok r.result
  | .option _ => .error .emptyValue
  | .value apply text => apply text r.result

/-- Settles and then goes on with the result. -/
def change (r : Reading α) (apply : α → Except UsageError α) : Except UsageError (Reading α) :=
  match r.settle with
  | .error e => .error e
  | .ok result => (apply result).map fun result => ⟨result, .nothing, r.operands⟩

/-- Settles and then holds something. -/
def hold (r : Reading α) (held : Held α) : Except UsageError (Reading α) :=
  r.settle.map fun result => ⟨result, held, r.operands⟩

/-- Takes a word as an operand. -/
def operand (r : Reading α) (word : String) : Except UsageError (Reading α) :=
  match r.operands with
  | [] => .error .unknownArgument
  | apply :: operands =>
      r.settle.map fun result => ⟨result, .value apply word, operands⟩

end Reading

namespace Grammar

/-- Reads an option by name, with the value that stands behind an equals sign. -/
def readLong (g : Grammar α) (r : Reading α) (name : String) (attached : Option String) :
    Except UsageError (Reading α) :=
  match g.long.find? fun o => o.1 == name with
  | none => .error .unknownArgument
  | some (_, .flag apply) => if attached.isSome then .error .surplusValue else r.change apply
  | some (_, .value apply) =>
      match attached with
      | some text => r.change (apply text)
      | none => r.hold (.option apply)

/-- Reads options by letters, one after the other. -/
def readShort (g : Grammar α) : Reading α → List Char → Except UsageError (Reading α)
  | r, [] => .ok r
  | r, c :: cs =>
      match g.short.find? fun o => o.1 == c with
      | none => .error .unknownArgument
      | some (_, apply) =>
          match r.change apply with
          | .error e => .error e
          | .ok r => readShort g r cs

/-- The name of an option, and the value behind the first equals sign. -/
def splitAtEquals (cs : List Char) : String × Option String :=
  let name := String.ofList (cs.takeWhile (· != '='))
  match cs.dropWhile (· != '=') with
  | _ :: value => (name, some (String.ofList value))
  | [] => (name, none)

/-- Reads one word that is no command, before any `--`. -/
def readWord (g : Grammar α) (r : Reading α) (word : String) : Except UsageError (Reading α) :=
  match word.toList with
  | '-' :: '-' :: cs =>
      let (name, attached) := splitAtEquals cs
      g.readLong r name attached
  | '-' :: c :: cs => g.readShort r (c :: cs)
  | _ =>
      match r.held with
      | .option apply => .ok ⟨r.result, .value apply word, r.operands⟩
      | _ => r.operand word

/-- Reads words up to the end or to a command.  A word is a command only if no option waits for its
value. -/
def readWords (g : Grammar α) : (operandsOnly : Bool) → Reading α → List String →
    Except UsageError (Reading α × Option CommandWord)
  | _, r, [] => .ok (r, none)
  | true, r, word :: rest =>
      match r.operand word with
      | .error e => .error e
      | .ok r => readWords g true r rest
  | false, r, word :: rest =>
      let waits := match r.held with
        | .option _ => true
        | _ => false
      if !waits && g.commands.contains word then .ok (r, some ⟨word, rest⟩)
      else if word = "--" then readWords g true r rest
      else
        match g.readWord r word with
        | .error e => .error e
        | .ok r => readWords g false r rest

/-- Reads words from the beginning, with a result to begin with. -/
def read (g : Grammar α) (result : α) (words : List String) :
    Except UsageError (Reading α × Option CommandWord) :=
  g.readWords false ⟨result, .nothing, g.operands⟩ words

end Grammar

end Arguments

end ArchiveDeposit

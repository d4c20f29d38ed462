import ArchiveDeposit.CommandLine.Run

/-!
# Calls of the program

A call has words, an environment and a time, and it finds a tree of files.  It changes the tree,
writes a text, and ends with a code.  The text holds the lines that a command printed and, from the
level that the call asks for, the entries of the log.

A call whose words do not read ends with code 2 before anything is written.  One whose settings do
not resolve, or whose command is refused, ends with code 1 and says why in the log.
-/

namespace ArchiveDeposit

section Program

/-- What a call comes to. -/
structure Execution where
  tree : FileTree
  code : Nat
  /-- All that was written. -/
  text : String

/-- A call that only shows lines. -/
def Execution.ofLines (tree : FileTree) (lines : List String) : Execution :=
  ⟨tree, 0, String.join (lines.map (· ++ "\n"))⟩

namespace Invocation

/-- The level of the log that is asked for. -/
def logLevel (i : Invocation) : LogLevel := .ofVerbosity i.verbosity

/-- Runs the command with settings. -/
def runWith (i : Invocation) (settings : Settings) (tree : FileTree) (now : Timestamp) :
    Execution :=
  let outcome := (i.command.run ⟨settings, now⟩ tree).behind [.resolved settings]
  let stop : List Emission :=
    match outcome.result with
    | .ok _ => []
    | .error e => [.logged (.stopped e.message)]
  ⟨outcome.tree, outcome.code,
    transcript i.logLevel settings.logFormat now.text (outcome.emissions ++ stop)⟩

/-- Resolves the settings and runs the command with them. -/
def run (i : Invocation) (env : Environment) (tree : FileTree) (now : Timestamp) : Execution :=
  match Settings.resolve tree i.options env with
  | .ok settings => i.runWith settings tree now
  | .error e => ⟨tree, 1, transcript i.logLevel .text now.text [.logged (.stopped e.message)]⟩

end Invocation

/-- Runs a call with some words. -/
def Execution.ofWords (words : List String) (env : Environment) (tree : FileTree)
    (now : Timestamp) : Execution :=
  match Command.ofCommandLine words with
  | .ok invocation => invocation.run env tree now
  | .error .help => .ofLines tree helpLines
  | .error .version => .ofLines tree [versionText]
  | .error _ => ⟨tree, 2, ""⟩

end Program

end ArchiveDeposit

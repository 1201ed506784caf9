import Desugar.Config
import Desugar.Diagnostic
import Desugar.FileTree
import Desugar.Log
import Desugar.SourceFile

/-!
# Sessions and reports
-/

/-!
## Sessions

A command works on files and writes to two outputs. It ends with an exit code, early if it cannot go on.
-/
namespace Desugar.Command

/-- How a command ended. -/
inductive ExitCode where
  | success
  | failure
  /-- The command was called in the wrong way. -/
  | misuse
  deriving DecidableEq, Repr

def ExitCode.number : ExitCode → Nat
  | success => 0
  | failure => 1
  | misuse => 2

/-- What a command finds around it. -/
structure Surroundings where
  /-- What can be read from the standard input. -/
  input : Bytes := []
  /-- The time of day that log lines show. -/
  time : String
  /-- Files that are put into their places, one after the other, while the tool watches. -/
  arrivals : List (String × Bytes) := []
  processors : Config.Processors := .four
  deriving DecidableEq, Repr

/-- The files, and what has been written so far. -/
structure Session where
  tree : FileTree
  stdout : Bytes := []
  stderr : Bytes := []
  deriving DecidableEq, Repr

/-- What a command does before it can go on no longer. -/
abbrev Task := ExceptT ExitCode (StateM Session)

namespace Session

def print (text : Bytes) (s : Session) : Session := { s with stdout := s.stdout ++ text }

def warn (text : Bytes) (s : Session) : Session := { s with stderr := s.stderr ++ text }

def printLine (line : String) : Session → Session := print (Text.utf8 (line ++ "\n"))

def warnLine (line : String) : Session → Session := warn (Text.utf8 (line ++ "\n"))

end Session

/-- Ends a command with a message. -/
def stop {α : Type} (code : ExitCode) (message : String) : Task α := do
  modify (·.warnLine message)
  throw code

/-- The value of a step, or the end of the command with the message of what went wrong. -/
def orFail {ε α : Type} (message : ε → String) : Except ε α → Task α
  | .ok a => pure a
  | .error e => stop .failure (message e)

/-- A log that writes some levels, with the time of day in each line. -/
structure Journal where
  logger : Logger
  time : String
  deriving DecidableEq, Repr

/-- Writes a log line, if its level is written. -/
def Journal.write (j : Journal) (level : LogLevel) (message : String) (s : Session) : Session :=
  s.warn (Text.utf8 (j.logger.line j.time ⟨level, message⟩))

/-- Runs what leaves a trace, and then writes the trace. -/
def Journal.traced {α : Type} (j : Journal) (x : StateM (Array String) α) (s : Session) : α × Session :=
  let (a, trace) := x.run #[]
  (a, trace.foldl (fun s message => j.write .debug message s) s)

end Desugar.Command

/-!
## Reports

Diagnostics are shown with the lines of the source that they are about.
-/
namespace Desugar.Command

/-- A diagnostic with its category, and with the text it is about if that is part of the source. -/
def reportDiagnostic (source : SourceFile) (d : Diagnostic) : Bytes :=
  Text.utf8 s!"{d.render} ({d.category.name})\n" ++
    if d.span.start.file = source.name then source.highlight d.span else []

/-- What is shown of the failure of a source. -/
def report (path : String) (source : Bytes) (f : Failure) : Bytes :=
  match f.diagnostics? with
  | some ds => ds.flatMap (reportDiagnostic ⟨path, source⟩)
  | none => Text.utf8 s!"{path}: {f.message}\n"

end Desugar.Command

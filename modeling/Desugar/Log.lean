/-!
# Logs

Messages of a run with their levels. Which levels are written is a choice of the run; warnings and
errors always are.
-/
namespace Desugar

inductive LogLevel where
  | info | debug | warn | error
  deriving DecidableEq, Repr

def LogLevel.name : LogLevel → String
  | info => "INFO"
  | debug => "DEBUG"
  | warn => "WARN"
  | error => "ERROR"

structure LogEntry where
  level : LogLevel
  message : String
  deriving DecidableEq, Repr

/-- The entry as a line, with the time of day at which it was made. -/
def LogEntry.render (time : String) (e : LogEntry) : String :=
  s!"[{e.level.name}] {time}: {e.message}\n"

/-- Which levels are written. -/
structure Logger where
  verbose : Bool
  debug : Bool
  deriving DecidableEq, Repr

def Logger.writes (l : Logger) : LogLevel → Bool
  | .info => l.verbose
  | .debug => l.debug
  | .warn | .error => true

/-- The line of an entry, or nothing if its level is not written. -/
def Logger.line (l : Logger) (time : String) (e : LogEntry) : String :=
  if l.writes e.level then e.render time else ""

end Desugar

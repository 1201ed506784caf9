import Desugar.Position

/-!
# Diagnostics

Every failure of an expansion names the source text it is about. Failures of other parts are
plain messages; both travel as a `Failure`, and collecting failures keeps the diagnostics they
hold.
-/
namespace Desugar

/-- What kind of mistake a diagnostic is about. -/
inductive Category where
  /-- Illegal characters and unterminated literals. -/
  | lexical
  /-- A missing delimiter, separator or operator. -/
  | structural
  /-- A token of the wrong kind where only some kinds may stand. -/
  | grammar
  /-- An embedded expression that is none. -/
  | expression
  /-- An empty or unterminated interpolation marker. -/
  | marker
  /-- Unknown names, depth limits and expansions that are no program. -/
  | expansion
  /-- A version requirement that fails. -/
  | directive
  | unknown
  deriving DecidableEq, Repr

namespace Category

def name : Category → String
  | lexical => "lexical"
  | structural => "structural"
  | grammar => "grammar"
  | expression => "expression"
  | marker => "marker"
  | expansion => "expansion"
  | directive => "directive"
  | unknown => "unknown"

/-- Categories in the order of their numbers; any other number is unknown. -/
def ofIndex (n : Int) : Category :=
  if n < 0 then unknown
  else [lexical, structural, grammar, expression, marker, expansion, directive].getD n.toNat unknown

end Category

/-- A mistake, the text it is about, and the message of the error it comes from, if any. -/
structure Diagnostic where
  category : Category
  span : Span
  message : String
  cause : Option String := none
  deriving DecidableEq, Repr

namespace Diagnostic

/-- `file:line:column: message`, or the message alone without a valid position. -/
def render (d : Diagnostic) : String :=
  if d.span.start.isValid then s!"{d.span.start.render}: {d.message}" else d.message

/-- A required token is missing. -/
def expected (span : Span) (want got : String) : Diagnostic :=
  let found := if got = "" then "end of input" else got
  { category := .structural, span, message := s!"expected {want}, got {found}" }

/-- A token of the wrong kind. -/
def mismatch (span : Span) (want got : String) : Diagnostic :=
  { category := .grammar, span, message := s!"expected {want}, got {got}" }

/-- Gives an error of another part a category and a place. -/
def wrap (category : Category) (span : Span) (message : String) : Diagnostic :=
  { category, span, message, cause := some message }

/-- Orders diagnostics by where they start; those at one place keep their order. -/
def sort (ds : List Diagnostic) : List Diagnostic :=
  ds.mergeSort fun d e => !(e.span.start.before d.span.start)

/-- All diagnostics, one a line. -/
def renderAll : List Diagnostic → String
  | [] => "no errors"
  | ds => "\n".intercalate (ds.map render)

end Diagnostic

/-- Why something failed. -/
inductive Failure where
  | plain (message : String)
  | diagnostic (d : Diagnostic)
  | diagnostics (ds : List Diagnostic)
  /-- A failure told in a wider context. -/
  | within (context : String) (inner : Failure)
  deriving Repr

namespace Failure

def message : Failure → String
  | plain m => m
  | diagnostic d => d.render
  | diagnostics ds => Diagnostic.renderAll ds
  | within context inner => s!"{context}: {inner.message}"

/-- The diagnostics that a failure is or tells of. -/
def diagnostics? : Failure → Option (List Diagnostic)
  | plain _ => none
  | diagnostic d => some [d]
  | diagnostics ds => some ds
  | within _ inner => inner.diagnostics?

/-- The diagnostics a failure holds; a plain message is about the expansion as a whole. -/
def toDiagnostics (f : Failure) : List Diagnostic :=
  f.diagnostics?.getD [.wrap .expansion .none f.message]

/-- Nothing collected is no failure; otherwise the sorted diagnostics are. -/
def ofDiagnostics (ds : List Diagnostic) : Option Failure :=
  if ds.isEmpty then none else some (.diagnostics (Diagnostic.sort ds))

end Failure
end Desugar

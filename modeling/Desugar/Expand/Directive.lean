import Desugar.Diagnostic
import Desugar.SourceFile
import Desugar.Text.CharClass
import Desugar.Version

/-!
# Version requirements of sources

A line of a source may require a range of tool versions:

    //gosugar:require >= 0.3, < 1.0
-/
namespace Desugar.Directive

def requireMark : Bytes := Text.utf8 "//gosugar:require"

/-- A requirement in a source: what follows the mark, and the span of the line's text. -/
structure Requirement where
  argument : Bytes
  span : Span
  deriving Repr

/-- The requirement of a line, if it is one. -/
def requirement? (f : SourceFile) (line : Nat) : Option Requirement :=
  let text := f.line line
  let trimmed := Text.trimBytes text
  if !requireMark.isPrefixOf trimmed then none
  else
    let rest := trimmed.drop requireMark.length
    if rest.head?.all fun b => b = 0x20 || b = 0x09 then
      let offset := f.lineOffset line + Int.ofNat ((Text.indexOf requireMark text).getD 0)
      let start := f.position offset
      some ⟨Text.trimBytes rest, ⟨start, start.advance trimmed⟩⟩
    else none

/-- What is wrong with a requirement under a tool version. One that is not met says why. -/
def fault? (tool : Version) (r : Requirement) : Option Diagnostic :=
  let report (message : String) : Diagnostic := { category := .directive, span := r.span, message }
  let shown := Text.quoteBytes r.argument
  if r.argument.isEmpty then some (report "missing version constraint")
  else match Version.Constraint.parse (Text.toString r.argument) with
    | .error e => some (report s!"invalid version constraint {shown}: {e.message}")
    | .ok c =>
      if c.accepts tool then none
      else some { report s!"gosugar {tool.render} does not satisfy {shown}" with cause := c.reason? tool }

/-- All requirements of a source that a tool version does not meet. -/
def check (tool : Version) (file : String) (source : Bytes) : Option Failure :=
  if !Text.contains requireMark source then none
  else
    let f : SourceFile := ⟨file, source⟩
    let faults := (List.range f.lineCount).filterMap fun i =>
      (requirement? f (i + 1)).bind (fault? tool)
    Failure.ofDiagnostics faults

end Desugar.Directive

import Desugar.Host.Imports
import Desugar.Host.Layout.BuildLines
import Desugar.Host.Layout.Stmt
import Desugar.Host.Parse.File

/-!
# Formatting

A file in the standard layout with its imports sorted. Imports in groups are sorted in the text that
was laid out first, because sorting follows the lines on which they stand.
-/
namespace Desugar.Host

/-!
## Layout of files

`ParsedFile.lay` gives a file as text in the standard layout.
-/

namespace Layout

/-- The keyword of a declaration. -/
def declKind : Decl → Kind
  | .bad .. => .illegal
  | .gen _ _ k .. => k
  | .func .. => .kwFunc

def declDoc : Decl → Option CommentGroup
  | .bad .. => none
  | .gen doc .. => doc
  | .func doc .. => doc

/-- How many lines a declaration takes in the source. -/
def lineCount (d : Decl) : Layout Nat := do
  if d.pos = 0 || d.stop = 0 then return unlimited
  return (← lineOf d.stop) - (← lineOf d.pos) + 1

/-- Declarations; an empty line stands where the keyword changes and before documentation. -/
def declList (self : Self) (decls : List Decl) : Layout Unit := do
  let mut previous : Kind := .illegal
  for d in decls do
    let k := declKind d
    unless (← get).output.isEmpty do
      let least := if previous ≠ k || (declDoc d).isSome then 2 else 1
      let _ ← lineBreak (← lineOf d.pos) least .ignored (k = .kwFunc && 1 < (← lineCount d))
    previous := k
    decl self d

def file (self : Self) (f : File) : Layout Unit := do
  tokenAt f.package .kwPackage
  blank
  expr self (.ident f.name)
  declList self f.decls
  newline

end Layout

/-- The file in the standard layout. -/
def ParsedFile.lay (p : ParsedFile) : String :=
  let start : Layout.State :=
    { lines := p.lines.nameless, normalizes := true, comments := p.file.comments }
  let self := Layout.nested (4 * p.lines.size + 64)
  let (pieces, after) := ((do Layout.file self p.file; Layout.finish) : Layout (Array _)).run start
  Layout.write <| Layout.align <|
    Layout.BuildLines.gather pieces.toList after.buildLines after.olderBuildLines

/-! ## Formatted files -/

/-- The file as text in the standard layout; fails only if laid out code cannot be read again. -/
def ParsedFile.format (p : ParsedFile) : Except String Bytes :=
  if Import.hasGroup p.file.decls then
    match parseFile "" (Text.utf8 p.lay) true with
    | .ok again => .ok (Text.utf8 again.sortImports.lay)
    | .error es => .error s!"format.Node internal error ({SyntaxError.renderAll es})"
  else .ok (Text.utf8 p.lay)

end Desugar.Host

import Desugar.Host.Parse.Stmt

/-!
# Parsing files and single expressions

`parseFile` reads a source file, `parseExpr` a text that has to be one expression. Both give either
the tree or all faults in the order of their places.
-/
namespace Desugar.Host

namespace Parse

/-- Faults found so far. -/
def faulty : Parse Bool := return 0 < (← get).errorCount

/-- A source file, or nothing if its start already shows that it is none. -/
def file (self : Self) : Parse (Option File) := do
  next
  if ← faulty then return none
  let package ← expect .kwPackage
  let name ← ident
  let _ ← expectSemi
  if ← faulty then return none
  let mut decls := []
  let mut before : Kind := .kwImport
  for _ in [0:(← bound)] do
    let k ← kind
    if k = .eof then break
    if k = .kwImport && before ≠ .kwImport then
      error (← pos) "imports must appear before other declarations"
    before := k
    decls := (← decl self startsDeclaration) :: decls
  let s ← get
  return some
    { package, name, decls := decls.reverse, imports := s.imports.reverse
      comments := s.comments.reverse, size := s.lines.size }

/-- One expression and nothing after it. -/
def single (self : Self) : Parse Expr := do
  next
  let x ← rhs self
  if ← seesNewline then next
  let _ ← expect .eof
  return x

/-- Runs a parse over a text. -/
def run {α : Type} (name : String) (text : Bytes) (keepComments : Bool) (p : Self → Parse α) :
    Except (List SyntaxError) (α × LineTable) :=
  let scanned := scan name text
  let start := State.start scanned keepComments
  let faults (s : State) := sortErrors (s.errors.reverse.map (located scanned.lines))
  match p (nested (4 * scanned.lexemes.length + 16)) start with
  | .ok a s => if s.errors.isEmpty then .ok (a, scanned.lines) else .error (faults s)
  | .error _ s => .error (faults s)

end Parse

/-- A parsed file and the line table of its text. -/
structure ParsedFile where
  file : File
  lines : LineTable
  deriving Inhabited

/-- Reads a source file. -/
def parseFile (name : String) (text : Bytes) (keepComments : Bool) :
    Except (List SyntaxError) ParsedFile :=
  match Parse.run name text keepComments Parse.file with
  | .ok (some file, lines) => .ok { file, lines }
  | .ok (none, _) => .error []
  | .error es => .error es

/-- Reads a text that is one expression. -/
def parseExpr (name : String) (text : Bytes) : Except (List SyntaxError) Expr :=
  match Parse.run name text false Parse.single with
  | .ok (x, _) => .ok x
  | .error es => .error es

end Desugar.Host

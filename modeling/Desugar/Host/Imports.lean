import Desugar.Host.Layout.Doc
import Desugar.Host.Parse.File
import Desugar.Text.Quoted

/-!
# Imports

Adding an import to a file, where it fits best among those that are there, and sorting the imports of
a file.
-/
namespace Desugar.Host

namespace Import

/-- The path of an import, empty if it cannot be read. -/
def path : Spec → Bytes
  | .imports _ _ l _ _ => (Text.unquote? (Text.utf8 l.value)).getD []
  | _ => []

/-- The local name of an import, empty if it has none. -/
def localName : Spec → String
  | .imports _ name .. => (name.map Ident.name).getD ""
  | _ => ""

def comment : Spec → Option CommentGroup
  | .imports _ _ _ c _ => c
  | _ => none

/-- An import with its path at another position. -/
def withPathAt (pos : Pos) : Spec → Spec
  | .imports doc name l c stop => .imports doc name { l with pos } c stop
  | s => s

/-- An import moved to another place. -/
def moved (start stop : Pos) : Spec → Spec
  | .imports doc name l c _ =>
    .imports doc (name.map ({ · with pos := start })) { l with pos := start } c stop
  | s => s

/-- A path of a package that comes with no tool: its first part is a host. -/
def isThirdParty (path : Bytes) : Bool := path.contains 0x2E

/-- How many slashes two paths share at their start. -/
def sharedSlashes : Bytes → Bytes → Nat
  | a :: as, b :: bs =>
    if a = b then (if a = 0x2F then 1 else 0) + sharedSlashes as bs else 0
  | _, _ => 0

/-- The imports of a declaration of imports. -/
def specs? : Decl → Option (List Spec)
  | .gen _ _ .kwImport _ specs _ => some specs
  | _ => none

/-- Whether a declaration imports the foreign interface, which nothing else may join. -/
def isForeign (d : Decl) : Bool :=
  (specs? d).any fun specs => specs.any fun s => path s = Text.utf8 "C"

/-- Where a new import is to go: the declaration by its index, and the import that it follows. -/
structure Place where
  decl : Nat
  after : Option Nat

/-- The best place so far, how many slashes are shared there, and the last declaration of imports. -/
structure Search where
  place : Option Place := none
  shared : Option Nat := none
  last : Option Nat := none

/-- Looks at the imports of one declaration. The longest shared path wins. While nothing is shared,
a third-party import goes to the first third-party import. -/
def Search.specs (s : Search) (wanted : Bytes) (decl : Nat) (specs : List Spec) : Search :=
  let step := fun ((s, seen, j) : Search × Bool × Nat) (spec : Spec) =>
    let p := path spec
    let n := sharedSlashes p wanted
    let better := s.shared.all (· < n) || (s.shared = some 0 && !seen && isThirdParty wanted)
    let s := if better then { s with place := some ⟨decl, some j⟩, shared := some n } else s
    (s, seen || isThirdParty p, j + 1)
  (specs.foldl step (s, false, 0)).1

def Search.decl (wanted : Bytes) (s : Search) (d : Decl × Nat) : Search :=
  match specs? d.1 with
  | none => s
  | some specs =>
    let s := { s with last := some d.2 }
    if isForeign d.1 then s
    else
      let s := if specs.isEmpty && s.shared.isNone then { s with place := some ⟨d.2, none⟩ } else s
      s.specs wanted d.2 specs

/-- Where the first declaration of imports goes: after the package clause and the comments on its
line. -/
def firstPlace (p : ParsedFile) : Pos :=
  let lineOf (q : Pos) := (p.lines.place (q - 1)).line
  let line := lineOf p.file.package
  let comments := p.file.comments.takeWhile fun g => lineOf (groupPos g) ≤ line
  match comments.getLast? with
  | some g => groupStop g + 2
  | none => p.file.package

/-- Inserts an import into a declaration after the import with the given index. -/
def insertInto (wanted : String) (after : Option Nat) : Decl → Decl
  | .gen doc tokPos k lparen specs rparen =>
    let insertAt := (after.map (· + 1)).getD 0
    let pos := match after.bind (specs[·]?) with
      | some s =>
        match comment s with
        | some g => groupStop g
        | none => s.pos
      | none => tokPos
    let spec : Spec := .imports none none ⟨pos, .string, Text.quote wanted⟩ none pos
    let specs := specs.take insertAt ++ spec :: specs.drop insertAt
    let lparen :=
      if specs.length = 1 then 0
      else if lparen = 0 then (specs.head?.map Spec.pos).getD 0
      else lparen
    .gen doc tokPos k lparen specs rparen
  | d => d

/-- Moves all imports into the first declaration of imports. -/
def merge (decls : List Decl) : List Decl :=
  let joins (d : Decl) : Bool := (specs? d).isSome && !isForeign d
  let before := decls.takeWhile (!joins ·)
  match decls.drop before.length with
  | first :: rest =>
    match rest.filter joins, first with
    | [], _ => decls
    | more, .gen doc tokPos k _ specs rparen =>
      let moved := (more.flatMap fun d => (specs? d).getD []).map (withPathAt tokPos)
      before ++ .gen doc tokPos k tokPos (specs ++ moved) rparen :: rest.filter (!joins ·)
    | _, _ => decls
  | [] => decls

end Import

/-- The file with one more import, or `none` if it has that import already. -/
def ParsedFile.addImport (p : ParsedFile) (wanted : String) : Option ParsedFile :=
  let path := Text.utf8 wanted
  if p.file.imports.any fun s => Import.localName s = "" && Import.path s = path then none
  else
    let decls := p.file.decls
    let search := decls.zipIdx.foldl (Import.Search.decl path) {}
    let (decls, place) := match search.place with
      | some place => (decls, place)
      | none =>
        let pos := match search.last.bind (decls[·]?) with
          | some d => d.stop
          | none => Import.firstPlace p
        let i := (search.last.map (· + 1)).getD 0
        (decls.take i ++ Decl.gen none pos .kwImport 0 [] 0 :: decls.drop i, (⟨i, none⟩ : Import.Place))
    let decls := decls.modify place.decl (Import.insertInto wanted place.after)
    let spec : Spec := .imports none none ⟨0, .string, Text.quote wanted⟩ none 0
    let decls := if decls.length ≤ 1 then decls else Import.merge decls
    some { p with file := { p.file with decls, imports := p.file.imports ++ [spec] } }

/-! Sorting -/

namespace Import

/-- The text of a comment without its marks, for comparison. -/
def commentText (g : CommentGroup) : List Char :=
  let linesOf (c : Comment) : List (List Char) :=
    match c.text.toList with
    | '/' :: '/' :: ' ' :: rest => [rest]
    | '/' :: '/' :: rest => if Layout.Doc.isDirective rest then [] else [rest]
    | text => ((text.drop 2).take (text.length - 4)).splitOn '\n'
  let lines := (g.flatMap linesOf).map Text.trimEnd
  let step := fun (acc : List (List Char)) (l : List Char) =>
    if !l.isEmpty || (acc.head?.any fun l => !l.isEmpty) then l :: acc else acc
  let kept := lines.foldl step []
  let kept := if kept.head?.any fun l => !l.isEmpty then [] :: kept else kept
  ['\n'].intercalate kept.reverse

/-- Imports are ordered by path, then by name, then by comment. -/
def precedes (a b : Spec) : Bool :=
  let key (s : Spec) := (Text.toString (path s), localName s,
    String.ofList (((comment s).map commentText).getD []))
  let (p, n, c) := key a
  let (p', n', c') := key b
  if p ≠ p' then p < p' else if n ≠ n' then n < n' else c ≤ c'

/-- Whether an import may be dropped before the next one, which is the same. -/
def isRepeated (a b : Spec) : Bool :=
  path a = path b && localName a = localName b && (comment a).isNone

/-- Drops repeated imports of a sorted list, and with each the line break after its line. -/
def dropRepeated : LineTable → List (Spec × Nat) → LineTable × List (Spec × Nat)
  | t, [] => (t, [])
  | t, a :: rest =>
    match rest with
    | b :: _ =>
      if isRepeated a.1 b.1 then dropRepeated (t.merge (t.line (a.1.pos - 1))) rest
      else
        let (t, kept) := dropRepeated t rest
        (t, a :: kept)
    | [] => (t, [a])

/-- To which of some imports each of some comments belongs, and whether it stands before it. Imports
are given by their places, comments and imports in order of their positions. -/
def assign (t : LineTable) (places : Array (Pos × Pos)) :
    (current : Nat) → List CommentGroup → List (CommentGroup × Nat × Bool)
  | _, [] => []
  | current, g :: rest =>
    let start (i : Nat) := (places.getD i (0, 0)).1
    let line (p : Pos) := t.line (p - 1)
    let current := current +
      ((places.toList.drop (current + 1)).takeWhile fun p => p.1 ≤ groupPos g).length
    if current = 0 && groupPos g < start 0 then (g, 0, true) :: assign t places current rest
    else if current + 1 < places.size && line (start current) + 1 = line (groupPos g) then
      (g, current + 1, true) :: assign t places (current + 1) rest
    else (g, current, false) :: assign t places current rest

/-- What is sorted: imports, with the comments and the line table of their file. -/
structure Sorted where
  specs : List Spec
  comments : List CommentGroup
  lines : LineTable

/-- Sorts a run of imports. The places stay, imports are put into them in order, and comments go with
their imports. -/
def sortRun (lines : LineTable) (comments : List CommentGroup) (specs : List Spec) : Sorted :=
  if specs.length ≤ 1 then ⟨specs, comments, lines⟩
  else
    let places := (specs.map fun s => (s.pos, s.stop)).toArray
    let line (p : Pos) := lines.line (p - 1)
    let start := (places[0]?.map (·.1)).getD 0
    let stop := (places.back?.map (·.2)).getD 0
    let first := lines.lineStart (line start) + 1
    let last := if line stop = lines.starts.size then stop else lines.lineStart (line stop + 1) + 1
    let candidates := comments.takeWhile fun g => groupStop g < last
    let before := candidates.takeWhile fun g => groupPos g < first
    let own := candidates.drop before.length
    let after := comments.drop candidates.length
    let assigned := assign lines places 0 own
    let sorted := specs.zipIdx.mergeSort fun a b => precedes a.1 b.1
    let (lines, kept) := dropRepeated lines sorted
    let placed := kept.zip places.toList
    let move := fun ((g, owner, left) : CommentGroup × Nat × Bool) =>
      match placed.find? fun p => p.1.2 = owner with
      | none => g
      | some (_, start, stop) => g.map ({ · with pos := if left then start - 1 else stop })
    let own := (assigned.map move).mergeSort fun a b => groupPos a ≤ groupPos b
    { specs := placed.map fun ((s, _), start, stop) => moved start stop s
      comments := before ++ own ++ after
      lines }

/-- Imports on successive lines. -/
def runs (lines : LineTable) (specs : List Spec) : List (List Spec) :=
  specs.splitBy fun a b => lines.line (b.pos - 1) ≤ lines.line (a.stop - 1) + 1

/-- Removes empty lines between the last import and the closing parenthesis. -/
def closeGap (lines : LineTable) (last rparen : Pos) : LineTable :=
  let lastLine := lines.line (last - 1)
  let closing := lines.line (rparen - 1)
  let gaps := (List.range (closing - (lastLine + 1))).map fun i => closing - 1 - i
  gaps.foldl LineTable.merge lines

def sortDecls : LineTable → List CommentGroup → List Decl → List Decl × List CommentGroup × LineTable
  | lines, comments, [] => ([], comments, lines)
  | lines, comments, d :: rest =>
    match d with
    | .gen doc tokPos .kwImport lparen specs rparen =>
      if lparen = 0 then
        let (ds, comments, lines) := sortDecls lines comments rest
        (d :: ds, comments, lines)
      else
        let step := fun (s : Sorted) (run : List Spec) =>
          let r := sortRun s.lines s.comments run
          { r with specs := s.specs ++ r.specs }
        let s := (runs lines specs).foldl step ⟨[], comments, lines⟩
        let lines := match s.specs.getLast? with
          | some l => closeGap s.lines l.pos rparen
          | none => s.lines
        let (ds, comments, lines) := sortDecls lines s.comments rest
        (.gen doc tokPos .kwImport lparen s.specs rparen :: ds, comments, lines)
    | _ => (d :: rest, comments, lines)

/-- Whether a file starts with a group of imports. -/
def hasGroup : List Decl → Bool
  | .gen _ _ .kwImport lparen _ _ :: rest => lparen ≠ 0 || hasGroup rest
  | _ => false

end Import

/-- The file with its imports sorted. -/
def ParsedFile.sortImports (p : ParsedFile) : ParsedFile :=
  let (decls, comments, lines) := Import.sortDecls p.lines p.file.comments p.file.decls
  { file := { p.file with decls, comments }, lines }

end Desugar.Host

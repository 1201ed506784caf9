import Desugar.Host.Scan
import Desugar.Host.Tree

/-!
# The state of a parse

Parsing walks over the lexemes of a text with one of them in view. It goes on after a fault: a fault
on the line of the one before is dropped as a likely follow-up, and after too many the parse is
given up. Comments are gathered into groups on the way and, by their lines, tied to what stands
before or after them.
-/
namespace Desugar.Host

/-- A fault found while reading or parsing a text. -/
structure SyntaxError where
  place : Place
  message : String
  deriving DecidableEq, Repr, Inhabited

def SyntaxError.render (e : SyntaxError) : String := s!"{e.place.render}: {e.message}"

namespace Parse

structure State where
  /-- Lexemes that are not yet in view. -/
  ahead : List Lexeme
  /-- The line table without names: names are put into faults when the parse is done. -/
  lines : LineTable
  keepComments : Bool
  /-- Faults so far, the last one first. -/
  errors : List SyntaxError
  errorCount : Nat
  kind : Kind
  pos : Pos
  literal : String
  /-- The comment group that ends on the line before the lexeme in view. -/
  leadComment : Option CommentGroup
  /-- The comment group that ends the line of the lexeme before. -/
  lineComment : Option CommentGroup
  /-- Comment groups so far, the last one first. -/
  comments : List CommentGroup
  imports : List Spec
  /-- Where the last recovery stopped, and how often it stopped there. -/
  syncPos : Pos
  syncCount : Nat
  /-- Below zero in the header of a control statement. -/
  level : Int
  /-- In an expression, where an equals sign is taken for a comparison. -/
  inRhs : Bool
  /-- Bound on the repetitions of a loop: more than a text of this length can need. -/
  bound : Nat
  deriving Inhabited

end Parse

/-- A parse; it fails only by giving up. -/
abbrev Parse := EStateM Unit Parse.State

namespace Parse

def gaveUp {α : Type} : Parse α := throw ()

def kind : Parse Kind := return (← get).kind
def pos : Parse Pos := return (← get).pos
def literal : Parse String := return (← get).literal
def bound : Parse Nat := return (← get).bound
def leadComment : Parse (Option CommentGroup) := return (← get).leadComment
def lineComment : Parse (Option CommentGroup) := return (← get).lineComment

def sees (k : Kind) : Parse Bool := return (← get).kind = k

/-- Whether the lexeme in view is a semicolon for a newline. -/
def seesNewline : Parse Bool := do
  let s ← get
  return s.kind = .semicolon && s.literal = "\n"

/-- The line of a position in the text itself: line directives do not part comments. -/
def lineOf (s : State) (p : Pos) : Nat := s.lines.line (p - 1)

/-- Takes the next lexeme into view, with the faults found in it. -/
def shift : Parse Unit := modify fun s =>
  match s.ahead with
  | [] => s
  | l :: ahead =>
    let faults := l.faults.map fun f =>
      ({ place := s.lines.place f.offset, message := f.fault.message } : SyntaxError)
    { s with
      ahead := if l.kind = .eof then s.ahead else ahead
      kind := l.kind
      pos := l.offset + 1
      literal := Text.toString l.literal
      errors := faults.reverse ++ s.errors
      errorCount := s.errorCount + faults.length }

/-- Takes the next lexeme into view that is no comment to be left out. -/
def shiftProper : Parse Unit := do
  shift
  for _ in [0:(← bound)] do
    let s ← get
    if s.kind = .comment && !s.keepComments then shift else break

/-- Takes the comments in view into one group as long as each starts at most `gap` lines after the
one before ends. Gives the group and the line where it ends. -/
def commentGroup (gap : Nat) : Parse (CommentGroup × Nat) := do
  let s ← get
  let mut stop := lineOf s s.pos
  let mut group : CommentGroup := []
  for _ in [0:s.bound] do
    let s ← get
    if s.kind = .comment && lineOf s s.pos ≤ stop + gap then
      stop := lineOf s s.pos
      if s.literal.toList[1]? = some '*' then
        stop := stop + s.literal.toList.countP (· == '\n')
      group := ⟨s.pos, s.literal⟩ :: group
      shiftProper
    else break
  let all := group.reverse
  modify fun s => { s with comments := all :: s.comments }
  return (all, stop)

/-- Takes the next lexeme into view and ties the comments before it to what they stand by. -/
def next : Parse Unit := do
  modify fun s => { s with leadComment := none, lineComment := none }
  let before ← pos
  shiftProper
  if ← sees .comment then
    let s ← get
    if before ≠ 0 && lineOf s s.pos = lineOf s before then
      let (group, stop) ← commentGroup 0
      let s ← get
      if lineOf s s.pos ≠ stop || s.kind = .semicolon || s.kind = .eof then
        set { s with lineComment := some group }
    let mut last : Option (CommentGroup × Nat) := none
    for _ in [0:(← bound)] do
      if ← sees .comment then
        last := some (← commentGroup 1)
      else break
    match last with
    | some (group, stop) =>
      let s ← get
      if stop + 1 = lineOf s s.pos then set { s with leadComment := some group }
    | none => pure ()

/-- Most faults that a parse records before it gives up. -/
def errorLimit : Nat := 10

def error (p : Pos) (message : String) : Parse Unit := do
  let s ← get
  let place := s.lines.place (p - 1)
  if (s.errors.head?.map fun e => e.place.line) = some place.line then return
  if errorLimit < s.errorCount then gaveUp
  set { s with errors := ⟨place, message⟩ :: s.errors, errorCount := s.errorCount + 1 }

/-- Something is expected at a position; what is in view there instead is named. -/
def errorExpected (p : Pos) (what : String) : Parse Unit := do
  let s ← get
  let found :=
    if p ≠ s.pos then ""
    else if s.kind = .semicolon && s.literal = "\n" then ", found newline"
    else if s.kind.isLiteral then s!", found {s.literal}"
    else s!", found '{s.kind.text}'"
  error p s!"expected {what}{found}"

/-- Passes a lexeme of a kind; complains about any other, and passes it all the same. -/
def expect (k : Kind) : Parse Pos := do
  let p ← pos
  unless ← sees k do errorExpected p s!"'{k.text}'"
  next
  return p

/-- Like `expect`, without a position if the lexeme is another. -/
def expectOrNone (k : Kind) : Parse Pos := do
  let p ← pos
  let found ← sees k
  unless found do errorExpected p s!"'{k.text}'"
  next
  return if found then p else 0

/-- Like `expect`, for a delimiter before which a comma is easily forgotten at the end of a line. -/
def expectClosing (k : Kind) (context : String) : Parse Pos := do
  if !(← sees k) && (← seesNewline) then
    error (← pos) s!"missing ',' before newline in {context}"
    next
  expect k

/-- Kinds that start a statement of their own. -/
def startsStatement : Kind → Bool
  | .kwBreak | .kwConst | .kwContinue | .kwDefer | .kwFallthrough | .kwFor | .kwGo | .kwGoto
  | .kwIf | .kwReturn | .kwSelect | .kwSwitch | .kwType | .kwVar => true
  | _ => false

/-- Kinds that start a declaration of their own. -/
def startsDeclaration : Kind → Bool
  | .kwImport | .kwConst | .kwType | .kwVar => true
  | _ => false

/-- Kinds that end an expression. -/
def endsExpression : Kind → Bool
  | .comma | .colon | .semicolon | .rparen | .rbrack | .rbrace => true
  | _ => false

/-- How often recovery may stop at one place before it moves on. -/
def syncLimit : Nat := 10

/-- Passes lexemes up to one of the given kinds. -/
def advance (isStop : Kind → Bool) : Parse Unit := do
  for _ in [0:(← bound)] do
    let s ← get
    if s.kind = .eof then return
    if isStop s.kind then
      if s.pos = s.syncPos && s.syncCount < syncLimit then
        set { s with syncCount := s.syncCount + 1 }
        return
      if s.syncPos < s.pos then
        set { s with syncPos := s.pos, syncCount := 0 }
        return
    next

/-- Passes the end of a statement, and gives the comment that ends its line. -/
def expectSemi : Parse (Option CommentGroup) := do
  match ← kind with
  | .rparen | .rbrace => return none
  | .comma =>
    errorExpected (← pos) "';'"
    passSemi
  | .semicolon => passSemi
  | _ =>
    errorExpected (← pos) "';'"
    advance startsStatement
    return none
where
  passSemi : Parse (Option CommentGroup) := do
    if (← literal) = ";" then
      next
      lineComment
    else
      let comment ← lineComment
      next
      return comment

/-- Whether a list goes on: at a comma, or where one is missing. -/
def atComma (context : String) (follow : Kind) : Parse Bool := do
  if ← sees .comma then return true
  if ← sees follow then return false
  let newline := if ← seesNewline then " before newline" else ""
  error (← pos) s!"missing ','{newline} in {context}"
  return true

def withLevel {α : Type} (p : Parse α) : Parse α := do
  modify fun s => { s with level := s.level + 1 }
  let a ← p
  modify fun s => { s with level := s.level - 1 }
  return a

/-- Parses with the level of a control statement's header. -/
def inHeader {α : Type} (p : Parse α) : Parse α := do
  let level := (← get).level
  modify fun s => { s with level := -1 }
  let a ← p
  modify fun s => { s with level }
  return a

def withRhs {α : Type} (inRhs : Bool) (p : Parse α) : Parse α := do
  let old := (← get).inRhs
  modify fun s => { s with inRhs }
  let a ← p
  modify fun s => { s with inRhs := old }
  return a

def State.start (scanned : Scanned) (keepComments : Bool) : State :=
  { ahead := scanned.lexemes, lines := scanned.lines.nameless, keepComments
    errors := [], errorCount := 0, kind := .illegal, pos := 0, literal := ""
    leadComment := none, lineComment := none, comments := [], imports := []
    syncPos := 0, syncCount := 0, level := 0, inRhs := false
    bound := 16 * scanned.lexemes.length + 64 }

/-- A fault with its place as another table of the same text has it. -/
def located (lines : LineTable) (e : SyntaxError) : SyntaxError :=
  { e with place := lines.place e.place.offset }

/-- Orders faults by place; those at one place are ordered by their messages. -/
def sortErrors (es : List SyntaxError) : List SyntaxError :=
  es.mergeSort fun a b =>
    if a.place.file ≠ b.place.file then a.place.file < b.place.file
    else if a.place.line ≠ b.place.line then a.place.line < b.place.line
    else if a.place.column ≠ b.place.column then a.place.column < b.place.column
    else a.message ≤ b.message

end Parse

/-- The first of some faults, and how many more there are. -/
def SyntaxError.renderAll : List SyntaxError → String
  | [] => "no errors"
  | [e] => e.render
  | e :: rest => s!"{e.render} (and {rest.length} more errors)"

end Desugar.Host

import Desugar.Text.CharClass
import Desugar.Text.Quoted

/-!
# Lines of a module file

A module file consists of lines of words; lines that share their first word may stand together in a
block between parentheses. Comments run to the end of a line.
-/
namespace Desugar.Module

/-- Where something stands in a module file; both numbers start at 1. -/
structure Place where
  line : Nat
  column : Nat
  deriving DecidableEq, Repr

def Place.start : Place := ⟨1, 1⟩

def Place.advance (p : Place) (c : Char) : Place :=
  if c = '\n' then ⟨p.line + 1, 1⟩ else ⟨p.line, p.column + 1⟩

def Place.advanceAll (p : Place) (cs : List Char) : Place := cs.foldl Place.advance p

/-- Why a text has no lines. -/
inductive SyntaxCause where
  | blockComment | endInString | newlineInString
  | unexpected (c : Char)
  | openBlock (start : Place)
  | afterBlock
  deriving DecidableEq, Repr

def SyntaxCause.message (file : String) : SyntaxCause → String
  | blockComment => "mod files must use // comments (not /* */ comments)"
  | endInString => "unexpected EOF in string"
  | newlineInString => "unexpected newline in string"
  | unexpected c => s!"unexpected input character {Text.quoteChar c}"
  | openBlock p => s!"syntax error (unterminated block started at {file}:{p.line}:{p.column})"
  | afterBlock => "syntax error (expected newline after closing paren)"

structure SyntaxFault where
  place : Place
  cause : SyntaxCause
  deriving DecidableEq, Repr

inductive WordKind where
  | word | opening | closing | lineEnd | fileEnd
  deriving DecidableEq, Repr

/-- Whether a line ends here. -/
def WordKind.endsLine (k : WordKind) : Bool := k = lineEnd || k = fileEnd

structure Word where
  kind : WordKind
  place : Place
  text : String
  deriving DecidableEq, Repr

/-- Characters that stand for themselves. -/
def isPunctuation (c : Char) : Bool :=
  c = '(' || c = ')' || c = '[' || c = ']' || c = '{' || c = '}' || c = ','

/-- Characters of plain words. -/
def isWordChar (c : Char) : Bool :=
  c ≠ ' ' && !isPunctuation c && !Text.isSpace c && Text.isPrintable c

/-- A plain word at the front of a text; it ends before a comment. -/
def plainWord : List Char → Except Unit (List Char)
  | [] => .ok []
  | c :: rest =>
    if !isWordChar c then .ok []
    else match c, rest with
      | '/', '/' :: _ => .ok []
      | '/', '*' :: _ => .error ()
      | _, _ => (plainWord rest).map (c :: ·)

/-- How a quoted word ends. -/
inductive QuotedEnd where
  | closed (word : List Char)
  | newline (before : List Char)
  | fileEnd
  deriving Repr

/-- A quoted word behind its opening mark. -/
def quotedWord (mark : Char) : List Char → QuotedEnd
  | [] => .fileEnd
  | '\n' :: _ => .newline []
  | c :: rest =>
    let more (taken : List Char) (e : QuotedEnd) : QuotedEnd := match e with
      | .closed w => .closed (taken ++ w)
      | .newline b => .newline (taken ++ b)
      | .fileEnd => .fileEnd
    if c = mark then .closed [c]
    else if c = '\\' && mark = '"' then
      match rest with
      | [] => .fileEnd
      | d :: rest => more [c, d] (quotedWord mark rest)
    else more [c] (quotedWord mark rest)

/-- The words of a text, up to its end or to a fault. A comment ends its line. -/
def words : (fuel : Nat) → Place → List Char → List Word × Option SyntaxFault
  | 0, _, _ => ([], none)
  | fuel + 1, place, cs =>
    let blanks := cs.takeWhile fun c => c = ' ' || c = '\t' || c = '\r'
    let place := place.advanceAll blanks
    let next (kind : WordKind) (taken rest : List Char) : List Word × Option SyntaxFault :=
      let (ws, fault) := words fuel (place.advanceAll taken) rest
      (⟨kind, place, String.ofList taken⟩ :: ws, fault)
    match cs.drop blanks.length with
    | [] => ([⟨.fileEnd, place, ""⟩], none)
    | '/' :: '/' :: rest =>
      let comment := rest.takeWhile (· ≠ '\n')
      let after := rest.drop comment.length
      next .lineEnd ('/' :: '/' :: comment ++ after.take 1) (after.drop 1)
    | '/' :: '*' :: _ => ([], some ⟨place, .blockComment⟩)
    | '\n' :: rest => next .lineEnd ['\n'] rest
    | '(' :: rest => next .opening ['('] rest
    | ')' :: rest => next .closing [')'] rest
    | c :: rest =>
      if isPunctuation c then next .word [c] rest
      else if c = '"' || c = Char.ofNat 0x60 then
        match quotedWord c rest with
        | .closed w => next .word (c :: w) (rest.drop w.length)
        | .newline before => ([], some ⟨place.advanceAll (c :: before), .newlineInString⟩)
        | .fileEnd => ([], some ⟨place, .endInString⟩)
      else if !isWordChar c then ([], some ⟨place, .unexpected c⟩)
      else match plainWord (c :: rest) with
        | .ok w => next .word w ((c :: rest).drop w.length)
        | .error _ =>
          let before := beforeBlockComment (c :: rest)
          ([], some ⟨place.advanceAll before, .blockComment⟩)
where
  /-- What stands before the start of a block comment. -/
  beforeBlockComment : List Char → List Char
    | [] => []
    | '/' :: '*' :: _ => []
    | c :: rest => c :: beforeBlockComment rest

/-- A line of words. -/
structure Line where
  place : Place
  words : List String
  deriving DecidableEq, Repr

/-- A line, or a block of lines behind some words. -/
inductive Statement where
  | line (l : Line)
  | block (head : Line) (lines : List Line)
  deriving DecidableEq, Repr

/-- The words of one line, and what follows its end. -/
def takeLine : List Word → List String × List Word
  | [] => ([], [])
  | w :: rest =>
    if w.kind.endsLine then ([], if w.kind = .fileEnd then [w] else rest)
    else
      let (more, rest) := takeLine rest
      (w.text :: more, rest)

/-- Something read off the front of some words, and what follows. -/
abbrev Taken (α : Type) := α × List Word

/-- The lines of a block behind its opening parenthesis, up to the end of the line on which it is
closed. -/
def blockLines (start : Place) (fault : Option SyntaxFault) :
    (fuel : Nat) → List Word → Except SyntaxFault (Taken (List Line))
  | 0, _ => .error ⟨start, .openBlock start⟩
  | fuel + 1, ws =>
    match ws with
    | [] => .error (fault.getD ⟨start, .openBlock start⟩)
    | w :: rest =>
      match w.kind with
      | .lineEnd => blockLines start fault fuel rest
      | .fileEnd => .error ⟨w.place, .openBlock start⟩
      | .closing =>
        match rest with
        | [] => .error (fault.getD ⟨w.place, .afterBlock⟩)
        | e :: rest =>
          if e.kind = .fileEnd then .ok ([], [e])
          else if e.kind = .lineEnd then .ok ([], rest)
          else .error ⟨e.place.advanceAll e.text.toList, .afterBlock⟩
      | _ => do
        let (line, rest) := takeLine ws
        if rest.isEmpty then throw (fault.getD ⟨w.place, .openBlock start⟩)
        let (lines, rest) ← blockLines start fault fuel rest
        return (⟨w.place, line⟩ :: lines, rest)

/-- A statement behind its first words, which are in reverse order. -/
def statement (start : Place) (fault : Option SyntaxFault) :
    List Word → List String → Except SyntaxFault (Taken Statement)
  | [], _ => .error (fault.getD ⟨start, .afterBlock⟩)
  | w :: rest, taken =>
    let head : Line := ⟨start, taken.reverse⟩
    let next := (rest.head?).map (·.kind)
    let after := (rest.tail.head?).map (·.kind)
    if w.kind.endsLine then .ok (.line head, if w.kind = .fileEnd then [w] else rest)
    else if w.kind = .opening && next.any WordKind.endsLine then do
      let (lines, rest) ← blockLines start fault (rest.length + 1) rest
      return (.block head lines, rest)
    else if w.kind = .opening && next = some .closing && after.any WordKind.endsLine then
      .ok (.block head [], if after = some .fileEnd then rest.tail else rest.tail.tail)
    else statement start fault rest (w.text :: taken)

/-- The statements of some words. -/
def statements (fault : Option SyntaxFault) :
    (fuel : Nat) → List Word → Except SyntaxFault (List Statement)
  | 0, _ => .ok []
  | fuel + 1, ws =>
    match ws with
    | [] => match fault with
      | some f => .error f
      | none => .ok []
    | w :: rest =>
      match w.kind with
      | .lineEnd => statements fault fuel rest
      | .fileEnd => .ok []
      | _ => do
        let (s, rest) ← statement w.place fault rest [w.text]
        return s :: (← statements fault fuel rest)

/-- The statements of a module file. -/
def parseStatements (text : List Char) : Except SyntaxFault (List Statement) :=
  let (ws, fault) := words (text.length + 1) .start text
  statements fault (ws.length + 1) ws

end Desugar.Module

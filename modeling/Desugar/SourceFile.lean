import Desugar.Position

/-!
# Source files

A source file knows where its lines start, turns offsets into positions and shows the lines of a
span with the spanned text underlined.
-/
namespace Desugar

structure SourceFile where
  name : String
  content : Bytes
  deriving DecidableEq, Repr

namespace SourceFile

/-- Offsets of the first byte of each line: the start of the text and every byte after a
newline, counted from `offset`. -/
def startsFrom (offset : Nat) : Bytes → List Nat
  | [] => []
  | b :: rest => if b = 0x0A then (offset + 1) :: startsFrom (offset + 1) rest
    else startsFrom (offset + 1) rest

def lineStarts (f : SourceFile) : List Nat := 0 :: startsFrom 0 f.content

def lineCount (f : SourceFile) : Nat := f.lineStarts.length

/-- The text of a line, counted from 1, without its line ending. -/
def line (f : SourceFile) (n : Int) : Bytes :=
  if n < 1 ∨ (f.lineCount : Int) < n then []
  else
    let i := n.toNat - 1
    match f.lineStarts.drop i with
    | [] => []
    | start :: later =>
      let stop := match later with
        | next :: _ => next - 1
        | [] => f.content.length
      Text.dropEnd (Text.slice f.content start stop) [0x0D]

/-- Where a line starts, or -1 if there is no such line. -/
def lineOffset (f : SourceFile) (n : Int) : Int :=
  if n < 1 then -1
  else match f.lineStarts[n.toNat - 1]? with
    | some start => start
    | none => -1

/-- The position of an offset; an offset outside the text has none. -/
def position (f : SourceFile) (offset : Int) : Position :=
  if offset < 0 ∨ (f.content.length : Int) < offset then .none
  else
    let upTo := f.lineStarts.takeWhile fun (start : Nat) => (start : Int) ≤ offset
    { file := f.name
      line := upTo.length
      column := offset - Int.ofNat (upTo.getLast?.getD 0) + 1
      offset }

def span (f : SourceFile) (start stop : Int) : Span := ⟨f.position start, f.position stop⟩

/-- The text that a span of this file covers. -/
def text (f : SourceFile) (s : Span) : Bytes :=
  if s.isValid && s.start.file = f.name && s.start.offset ≤ f.content.length &&
      s.stop.offset ≤ f.content.length then
    Text.slice f.content s.start.offset.toNat s.stop.offset.toNat
  else []

/-- Blanks up to a column, with the line's own tabs kept so that what follows lines up. -/
def indentTo (column : Int) (text : Bytes) : Bytes :=
  (List.range (column - 1).toNat).map fun i => if text[i]? = some 0x09 then 0x09 else 0x20

/-- A decimal right-aligned in four columns. -/
def lineNumber (n : Int) : String :=
  let digits := s!"{n}"
  String.ofList (List.replicate (4 - digits.length) ' ') ++ digits

/-- One line of a span and the marks under it. A span of width zero has one mark. -/
def highlightLine (f : SourceFile) (start stop : Position) (n : Int) : Bytes :=
  let text := f.line n
  let first := if n = start.line then start.column else 1
  let last := if n = stop.line then stop.column else text.length + 1
  Text.utf8 s!"{lineNumber n} | " ++ text ++ [0x0A] ++ Text.utf8 "     | " ++ indentTo first text ++
    List.replicate (max 1 (last - first)).toNat 0x5E ++ [0x0A]

/-- The lines of a span, each with its part of the span underlined. -/
def highlight (f : SourceFile) (s : Span) : Bytes :=
  if !s.start.isValid || (f.lineCount : Int) < s.start.line then []
  else
    let stop := if !s.stop.isValid || s.stop.before s.start then s.start else s.stop
    let last := min stop.line f.lineCount
    (List.range (last - s.start.line + 1).toNat).flatMap fun (i : Nat) =>
      f.highlightLine s.start stop (s.start.line + i)

end SourceFile
end Desugar

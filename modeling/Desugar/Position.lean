import Desugar.Text.Bytes
import Desugar.Path

/-!
# Positions and spans

A position names a byte of a source by line and column, both from 1, and by offset from 0. A span
is the text from one position up to another. Positions also arrive from outside, so none of the
numbers is taken to be in range: `isValid` says when they are.
-/
namespace Desugar

structure Position where
  file : String
  line : Int
  column : Int
  offset : Int
  deriving DecidableEq, Repr

/-- The position that names nothing. -/
def Position.none : Position := ⟨"", 0, 0, 0⟩

instance : Inhabited Position := ⟨.none⟩

structure Span where
  start : Position
  stop : Position
  deriving DecidableEq, Repr

namespace Position

def isValid (p : Position) : Bool := 0 < p.line && 0 < p.column && 0 ≤ p.offset

/-- `file:line:column`, with the file's last path element only. -/
def render (p : Position) : String :=
  let place := s!"{p.line}:{p.column}"
  if p.file = "" then place else s!"{Path.base p.file}:{place}"

/-- Orders positions by file, then by offset. -/
def before (p q : Position) : Bool :=
  if p.file = q.file then p.offset < q.offset else p.file < q.file

def after (p q : Position) : Bool := q.before p

/-- Moves a position measured inside a fragment so that the fragment's first byte lands on
`origin`. Only the fragment's first line shares a line with what stands before it. -/
def shift (p origin : Position) : Position :=
  if p.isValid then
    { file := origin.file
      line := origin.line + p.line - 1
      column := if p.line = 1 then origin.column + p.column - 1 else p.column
      offset := origin.offset + p.offset }
  else p

/-- The position after one byte. -/
def step (p : Position) (b : UInt8) : Position :=
  if b = 0x0A then { p with line := p.line + 1, column := 1, offset := p.offset + 1 }
  else { p with column := p.column + 1, offset := p.offset + 1 }

/-- The position reached after reading a text. -/
def advance (p : Position) (text : Bytes) : Position := text.foldl step p

theorem advance_append (p : Position) (s t : Bytes) :
    p.advance (s ++ t) = (p.advance s).advance t := by
  simp [advance, List.foldl_append]

@[simp] theorem step_offset (p : Position) (b : UInt8) : (p.step b).offset = p.offset + 1 := by
  unfold step; split <;> rfl

@[simp] theorem advance_offset (p : Position) (text : Bytes) :
    (p.advance text).offset = p.offset + text.length := by
  induction text generalizing p with
  | nil => simp [advance]
  | cons b rest ih =>
    have : p.advance (b :: rest) = (p.step b).advance rest := rfl
    rw [this, ih, step_offset, List.length_cons]
    omega

end Position

namespace Span

def none : Span := ⟨.none, .none⟩

instance : Inhabited Span := ⟨.none⟩

/-- The empty span at a position. -/
def point (p : Position) : Span := ⟨p, p⟩

def isValid (s : Span) : Bool :=
  s.start.isValid && s.stop.isValid && s.start.file = s.stop.file && s.start.offset ≤ s.stop.offset

/-- `file:line:column-column`, or with the line of the end where it differs. -/
def render (s : Span) : String :=
  let stop :=
    if s.start.line = s.stop.line then s!"{s.stop.column}" else s!"{s.stop.line}:{s.stop.column}"
  s!"{s.start.render}-{stop}"

def contains (s : Span) (p : Position) : Bool :=
  s.isValid && p.isValid && s.start.file = p.file &&
    s.start.offset ≤ p.offset && p.offset < s.stop.offset

/-- The least span over both; an invalid span, or one of another file, adds nothing. -/
def union (s t : Span) : Span :=
  if !s.isValid then t
  else if !t.isValid then s
  else if s.start.file ≠ t.start.file then s
  else
    { start := if t.start.before s.start then t.start else s.start
      stop := if t.stop.after s.stop then t.stop else s.stop }

def shift (s : Span) (origin : Position) : Span := ⟨s.start.shift origin, s.stop.shift origin⟩

def length (s : Span) : Int := if s.isValid then s.stop.offset - s.start.offset else 0

/-- The first byte of a file, as a span for what concerns the file as a whole. -/
def ofFile (file : String) : Span := .point ⟨file, 1, 1, 0⟩

end Span
end Desugar

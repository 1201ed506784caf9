import Desugar.Position

/-!
# Line tables

A line table turns offsets of a text into positions. A newline at the very end starts no line, and
a line directive in a comment renames what follows it.
-/
namespace Desugar.Host

/-- What a line directive says about the text from `offset` on; column 0 leaves columns open. -/
structure LineInfo where
  offset : Nat
  file : String
  line : Int
  column : Int
  deriving DecidableEq, Repr

/-- The line directive without the name that it gives. -/
def LineInfo.nameless (i : LineInfo) : LineInfo := { i with file := "" }

structure LineTable where
  name : String
  size : Nat
  /-- Offsets of first bytes of lines, ascending. -/
  starts : Array Nat
  /-- Line directives, in ascending order of offset. -/
  infos : List LineInfo
  deriving DecidableEq, Repr, Inhabited

/-- A place as shown in messages: file, line and column. A line directive can name a line below the
first, and a place there is shown by its file alone. -/
structure Place where
  file : String
  line : Int
  column : Int
  offset : Nat
  deriving DecidableEq, Repr, Inhabited

/-- `file:line:column`; an open column is left out. -/
def Place.render (p : Place) : String :=
  let lineColumn := if p.column = 0 then s!"{p.line}" else s!"{p.line}:{p.column}"
  if p.line ≤ 0 then if p.file = "" then "-" else p.file
  else if p.file = "" then lineColumn
  else s!"{p.file}:{lineColumn}"

namespace LineTable

/-- Offsets after the newlines of a text that has more bytes after them. -/
def startsAfter (offset : Nat) : Bytes → List Nat
  | [] => []
  | [_] => []
  | b :: rest => if b = 0x0A then (offset + 1) :: startsAfter (offset + 1) rest
    else startsAfter (offset + 1) rest

def ofText (name : String) (text : Bytes) (infos : List LineInfo) : LineTable :=
  { name, size := text.length, starts := (0 :: startsAfter 0 text).toArray, infos }

/-- The table without names: what is read and laid out does not depend on how files are called. -/
def nameless (t : LineTable) : LineTable :=
  { t with name := "", infos := t.infos.map LineInfo.nameless }

/-- How many of the starts in the slice from `lo` of length `len` are at most `offset`, counted
from the front of the table. -/
def search (starts : Array Nat) (offset : Nat) : (lo len : Nat) → Nat
  | lo, 0 => lo
  | lo, len + 1 =>
    let half := (len + 1) / 2
    match starts[lo + half]? with
    | none => lo
    | some start =>
      if start ≤ offset then search starts offset (lo + half + 1) (len - half)
      else search starts offset lo half
termination_by _ len => len
decreasing_by all_goals omega

/-- The line of an offset, from 1, by the text alone. -/
def line (t : LineTable) (offset : Nat) : Nat := search t.starts offset 0 t.starts.size

/-- The first byte of a line, counted from 1. -/
def lineStart (t : LineTable) (line : Nat) : Nat := (t.starts[line - 1]?).getD 0

/-- The column of an offset, from 1, by the text alone. -/
def column (t : LineTable) (offset : Nat) : Nat := offset - t.lineStart (t.line offset) + 1

/-- The table without the break between a line and the one after it. -/
def merge (t : LineTable) (line : Nat) : LineTable :=
  { t with starts := t.starts.eraseIdxIfInBounds line }

/-- The place of an offset by the text alone. -/
def rawPlace (t : LineTable) (offset : Nat) : Place :=
  let offset := min offset t.size
  ⟨t.name, t.line offset, t.column offset, offset⟩

/-- The place of an offset as line directives have it. -/
def place (t : LineTable) (offset : Nat) : Place :=
  let raw := t.rawPlace offset
  match (t.infos.takeWhile (·.offset ≤ raw.offset)).getLast? with
  | none => raw
  | some info =>
    let distance := raw.line - t.line info.offset
    { file := info.file
      line := info.line + distance
      column :=
        if info.column = 0 then 0
        else if distance = 0 then info.column + (raw.offset - info.offset)
        else raw.column
      offset := raw.offset }

/-- The position of an offset as line directives have it, under the given file name. -/
def position (t : LineTable) (file : String) (offset : Nat) : Position :=
  let p := t.place offset
  ⟨file, p.line, p.column, p.offset⟩

end LineTable
end Desugar.Host

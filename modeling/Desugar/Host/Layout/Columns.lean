import Desugar.Text.Bytes

/-!
# Columns

Laid out code is a list of pieces. A tab ends a cell; cells that stand above each other in successive
lines form a column and are made equally wide. A form feed is a newline that ends all columns.
Blanks at the end of a line are dropped when the pieces are written out.
-/
namespace Desugar.Host.Layout

inductive Piece where
  | text (s : String)
  | blank
  /-- Ends a cell of a column that is kept even if all its cells are empty. -/
  | tab
  /-- Ends a cell of a column that vanishes if all its cells are empty. -/
  | softTab
  | newline
  | formFeed
  deriving DecidableEq, Repr, Inhabited

namespace Piece

def isBreak : Piece → Bool
  | newline | formFeed => true
  | _ => false

def isTab : Piece → Bool
  | tab | softTab => true
  | _ => false

/-- How many characters a piece takes in a cell. -/
def width : Piece → Nat
  | text s => s.length
  | blank => 1
  | _ => 0

end Piece

/-- A cell that a tab ends. -/
structure Cell where
  content : List Piece
  /-- Ended by a tab that keeps its column. -/
  hard : Bool
  deriving DecidableEq, Repr

def Cell.width (c : Cell) : Nat := c.content.foldl (fun n p => n + p.width) 0

/-- A line: cells ended by tabs, and what stands after the last tab. -/
structure Row where
  cells : List Cell
  rest : List Piece
  /-- Whether the line ends all columns. -/
  closes : Bool
  deriving DecidableEq, Repr

/-- The lines of some pieces, and what stands after the last line's end. -/
def rowsOf (pieces : List Piece) : List Row × Row :=
  let step := fun (rows, cells, content) (p : Piece) =>
    if p.isBreak then (⟨cells.reverse, content.reverse, p = .formFeed⟩ :: rows, [], [])
    else if p.isTab then (rows, (⟨content.reverse, p = .tab⟩ : Cell) :: cells, [])
    else (rows, cells, p :: content)
  let (rows, cells, content) := pieces.foldl step (([], [], []) : List Row × List Cell × List Piece)
  (rows.reverse, ⟨cells.reverse, content.reverse, false⟩)

/-- Width of a tab at the start of a line. -/
def tabWidth : Nat := 8

/-- Blanks between a column's widest cell and the next column. -/
def padding : Nat := 1

/-- A cell in a column of the given width. Empty cells at the start of a line are filled with tabs. -/
def padded (leading : Bool) (c : Cell) (width : Nat) : List Piece :=
  if leading && c.content.isEmpty then List.replicate ((width + tabWidth - 1) / tabWidth) .tab
  else c.content ++ List.replicate (width - c.width) .blank

/-- The cells of a line in columns of the given widths. -/
def paddedCells (leading : Bool) : List Cell → List Nat → List Piece
  | c :: cells, w :: widths =>
    padded leading c w ++ paddedCells (leading && c.content.isEmpty) cells widths
  | cells, _ => cells.flatMap Cell.content

def Row.lay (widths : List Nat) (r : Row) : List Piece := paddedCells true r.cells widths ++ r.rest

/-- Width of a column of the given cells. -/
def columnWidth (cells : List Cell) : Nat :=
  if cells.all fun c => c.width = 0 && !c.hard then 0
  else (cells.map (·.width + padding)).foldl max 0

/-- Lays out lines, each with its cells in columns to come; the widths of those before are given, the
last first. A run of lines that have one more column gets its width and is laid out by itself; `more`
bounds the columns to come. -/
def layRows : (more : Nat) → (widths : List Nat) → List (Row × List Cell) → List (List Piece)
  | 0, widths, rows => rows.map fun (r, _) => r.lay widths.reverse
  | more + 1, widths, rows =>
    (rows.splitBy fun a b => a.2.isEmpty == b.2.isEmpty).flatMap fun run =>
      if run.any (·.2.isEmpty) then run.map fun (r, _) => r.lay widths.reverse
      else layRows more (columnWidth (run.filterMap (·.2.head?)) :: widths)
        (run.map fun (r, cells) => (r, cells.tail))

/-- Lays out lines between which columns may reach from one to the next. -/
def laySection (rows : List Row) : List Piece :=
  let columns := (rows.map (·.cells.length)).foldl max 0
  (layRows columns [] (rows.map fun r => (r, r.cells))).flatMap (· ++ [.newline])

/-- Lines grouped such that no column reaches from one group to the next: a group ends with a line
that closes all columns or has none. -/
def sections (rows : List Row) : List (List Row) :=
  let step := fun (r : Row) (groups : List (List Row)) =>
    if r.closes || r.cells.isEmpty then [r] :: groups
    else match groups with
      | [] => [[r]]
      | g :: groups => (r :: g) :: groups
  rows.foldr step []

/-- Aligns columns. -/
def align (pieces : List Piece) : List Piece :=
  let (rows, last) := rowsOf pieces
  (sections rows).flatMap laySection ++ last.lay []

/-- The pieces as text; blanks and tabs before a line's end are dropped. -/
def write (pieces : List Piece) : String :=
  let step := fun ((out, pending) : String × String) (p : Piece) =>
    match p with
    | .text s => (out ++ pending ++ s, "")
    | .blank => (out, pending.push ' ')
    | .tab | .softTab => (out, pending.push '\t')
    | .newline | .formFeed => (out.push '\n', "")
  (pieces.foldl step ("", "")).1

/-- Bytes that the pieces take in one line, or `none` if they take more than one. -/
def measure (pieces : List Piece) : Option Nat :=
  let s := write pieces
  if s.toList.any fun c => c = '\n' || c = '\x0c' then none else some s.utf8ByteSize

end Desugar.Host.Layout

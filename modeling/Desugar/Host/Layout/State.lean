import Std.Data.TreeMap
import Desugar.Host.BuildTag
import Desugar.Host.Layout.Columns
import Desugar.Host.Layout.Doc
import Desugar.Host.LineTable
import Desugar.Text.CharClass

/-!
# The state of a layout

Code is laid out as a sequence of items. Blanks, line breaks and changes of indentation are held back
until the next item, because comments of the source that stand before that item have to be mixed with
them. The layout follows the source: it keeps track of the place in the source that it has reached,
and of the place in its own output.
-/
namespace Desugar.Host

/-!
## The text of comments

A general comment may span lines. Before it is written out again with another indentation, the
blanks that its lines have in common are taken away, such that its text keeps its shape.
-/
namespace Layout

def isBlankLine (line : List Char) : Bool := line.all (· ≤ ' ')

/-- What two lines have in common at their start, of blanks and stars. -/
def commonMargin : List Char → List Char → List Char
  | a :: as, b :: bs =>
    if a = b && (a ≤ ' ' || a = '*') then a :: commonMargin as bs else []
  | _, _ => []

/-- A list without `tail` at its end, if it ends so. -/
def dropSuffix (cs tail : List Char) : List Char :=
  if tail.isSuffixOf cs then cs.take (cs.length - tail.length) else cs

/-- The margin that all inner lines have in common, or the blanks that start the last line if there
are no inner lines with text. -/
def innerMargin (inner : List (List Char)) (last : List Char) : List Char :=
  match inner.filter (!isBlankLine ·) with
  | [] => commonMargin last last
  | line :: lines => lines.foldl commonMargin (commonMargin line line)

/-- How much of a margin is left for lines without stars. Text after the opening, or an opening on
its own line, takes part of it, so that the text stays indented against the opening. -/
def shortenMargin (margin first : List Char) : List Char :=
  let after := first.drop 2
  if isBlankLine after then
    let blanks := min 3 (margin.reverse.takeWhile (· = ' ')).length
    if blanks ≠ 0 then margin.take (margin.length - blanks) else dropSuffix margin ['\t']
  else
    let blanks := after.takeWhile (· ≤ ' ')
    let taken := if blanks.head? = some '\t' then blanks else ' ' :: ' ' :: blanks
    dropSuffix margin taken

/-- What stands before the first `*/`. -/
def beforeClosing : List Char → List Char
  | '*' :: '/' :: _ => []
  | c :: cs => c :: beforeClosing cs
  | [] => []

/-- The lines of a general comment without their common margin. -/
def stripMargin (lines : List (List Char)) : List (List Char) :=
  match lines with
  | first :: rest =>
    match rest.getLast? with
    | none => lines
    | some last =>
      let inner := rest.dropLast.map fun l => if isBlankLine l then [] else l
      let margin := innerMargin inner last
      let stars := margin.contains '*'
      let margin :=
        if stars then dropSuffix (margin.takeWhile (· ≠ '*')) [' '] else shortenMargin margin first
      let closes := isBlankLine (beforeClosing last)
      let last' := if closes then margin ++ (if stars then [' ', '*', '/'] else ['*', '/']) else last
      let margin := if closes then margin else commonMargin margin last
      first :: (inner ++ [last']).map (·.drop margin.length)
  | [] => []

end Layout

/-! ## Places and items -/

/-- A place in a text; line 0 is none. -/
structure Spot where
  offset : Nat
  line : Nat
  column : Nat
  deriving DecidableEq, Repr, Inhabited

namespace Spot

def none : Spot := ⟨0, 0, 0⟩

def isValid (s : Spot) : Bool := 0 < s.line

/-- The place after everything else. -/
def beyond : Spot := ⟨Nat.pow 2 30, Nat.pow 2 30, 0⟩

end Spot

/-- The place of a position in the text itself; a position outside of the text has none. -/
def LineTable.spot (t : LineTable) (p : Pos) : Spot :=
  if p = 0 || t.size + 1 < p then .none
  else
    let offset := min (p - 1) t.size
    ⟨offset, t.line offset, t.column offset⟩

namespace Layout

/-- What is held back before the next item. -/
inductive Pending where
  /-- Once held back, and no longer wanted. -/
  | ignored
  | blank
  | softTab
  | newline
  | formFeed
  | indent
  | unindent
  deriving DecidableEq, Repr, Inhabited

def Pending.isBreak : Pending → Bool
  | newline | formFeed => true
  | _ => false

/-- How many line breaks may follow each other. -/
def maxBreaks : Nat := 2

/-- What is held back is written out when there is as much of it. -/
def pendingLimit : Nat := 16

/-- Identifies a part of a tree by its sort and place. -/
structure NodeKey where
  sort : Nat
  start : Pos
  stop : Pos
  deriving DecidableEq, Ord, Repr

structure State where
  lines : LineTable
  /-- Whether numbers are put into their standard form. -/
  normalizes : Bool
  output : Array Piece := #[]
  indent : Nat := 0
  /-- How deep in composite literals. -/
  level : Nat := 0
  /-- Whether the blank after a general comment is left out. -/
  noExtraBlank : Bool := false
  /-- Whether the line break after a general comment is left out. -/
  noExtraBreak : Bool := false
  /-- Whether alignment ends with this line. -/
  endAlignment : Bool := false
  /-- Whether a line break would end a statement here. -/
  impliedSemi : Bool := false
  /-- The last item, `illegal` after something held back. -/
  lastKind : Kind := .illegal
  /-- The parenthesis or bracket that the last item opened, or `illegal`. -/
  lastOpen : Kind := .illegal
  pending : List Pending := []
  /-- Build constraints in the output, by index: those of the current and those of the older form. -/
  buildLines : List Nat := []
  olderBuildLines : List Nat := []
  /-- Place in the source of what comes next. -/
  pos : Spot := ⟨0, 1, 1⟩
  /-- Place in the output. -/
  out : Spot := ⟨0, 1, 1⟩
  /-- Place in the source where the last item ended. -/
  last : Spot := .none
  /-- Output lines that were asked for, and the one to be noted with the next item. -/
  marks : Array Nat := #[]
  openMark : Option Nat := none
  /-- Comments that are still to be written. -/
  comments : List CommentGroup := []
  /-- Sizes of parts that were measured. -/
  sizes : Std.TreeMap NodeKey Nat := {}
  deriving Inhabited

end Layout

/-- A step of a layout. -/
abbrev Layout := StateM Layout.State

namespace Layout

def spotOf (p : Pos) : Layout Spot := return (← get).lines.spot p

def lineOf (p : Pos) : Layout Nat := return ((← get).lines.spot p).line

def State.writeIndent (s : State) : State :=
  { s with
    output := s.output ++ Array.replicate s.indent .tab
    pos := { s.pos with offset := s.pos.offset + s.indent, column := s.pos.column + s.indent }
    out := { s.out with column := s.out.column + s.indent } }

def State.atLineStart (s : State) : State := if s.out.column = 1 then s.writeIndent else s

/-- Writes a blank, tab or line break some times. Where alignment has to end, tabs become blanks and
the line break ends all columns. -/
def State.writeSpace (s : State) (p : Piece) (count : Nat) : State :=
  let p' := if !s.endAlignment then p
    else if p.isTab then .blank
    else if p.isBreak then .formFeed
    else p
  let s := { s with endAlignment := s.endAlignment && !p.isBreak }.atLineStart
  let s := { s with output := s.output ++ Array.replicate count p' }
  let offset := s.pos.offset + count
  if p'.isBreak then
    { s with
      pos := ⟨offset, s.pos.line + count, 1⟩
      out := { s.out with line := s.out.line + count, column := 1 } }
  else
    { s with
      pos := ⟨offset, s.pos.line, s.pos.column + count⟩
      out := { s.out with column := s.out.column + count } }

def space (p : Piece) (count : Nat) : Layout Unit := modify (·.writeSpace p count)

/-- Bytes after the last newline, counting the newline. -/
def tailWidth (s : String) : Nat :=
  let tail := s.toList.reverse.takeWhile fun c => c ≠ '\n' && c ≠ '\x0c'
  width (String.ofList tail) + 1

/-- Writes text that stands at the given place in the source. -/
def State.writeText (s : State) (place : Spot) (text : String) : State :=
  let s := s.atLineStart
  let pos := if place.isValid then place else s.pos
  let breaks := text.toList.countP fun c => c = '\n' || c = '\x0c'
  let offset := pos.offset + width text
  let (pos, out) :=
    if breaks = 0 then
      ((⟨offset, pos.line, pos.column + width text⟩ : Spot),
        { s.out with column := s.out.column + width text })
    else
      let column := tailWidth text
      (⟨offset, pos.line + breaks, column⟩, { s.out with line := s.out.line + breaks, column })
  { s with
    output := s.output.push (.text text)
    endAlignment := s.endAlignment || breaks ≠ 0
    pos, out, last := pos }

def text (place : Spot) (s : String) : Layout Unit := modify (·.writeText place s)

/-- Writes out what was held back. A break before a step back takes place after it, so that labels
stand where they should. -/
def drain : List Pending → Layout Unit
  | [] => pure ()
  | .newline :: .unindent :: rest | .formFeed :: .unindent :: rest => do
    modify fun s => { s with indent := s.indent - 1 }
    drain (.formFeed :: rest)
  | p :: rest => do
    match p with
    | .ignored => pure ()
    | .indent => modify fun s => { s with indent := s.indent + 1 }
    | .unindent => modify fun s => { s with indent := s.indent - 1 }
    | .blank => space .blank 1
    | .softTab => space .softTab 1
    | .newline => space .newline 1
    | .formFeed => space .formFeed 1
    drain rest
termination_by ps => ps.length

/-- Writes out the first few of what was held back. -/
def drainFirst (count : Nat) : Layout Unit := do
  let pending := (← get).pending
  drain (pending.take count)
  modify fun s => { s with pending := pending.drop count }

def drainAll : Layout Unit := do
  drainFirst (← get).pending.length

/-! Comments -/

def isLineComment (c : Comment) : Bool := c.text.toList[1]? = some '/'

/-- Whether a group of comments breaks a line. -/
def hasBreak (t : LineTable) (g : CommentGroup) : Bool :=
  g.any fun c => isLineComment c || c.text.toList.contains '\n' ||
    (t.spot c.pos).line ≠ (t.spot (groupPos g)).line

/-- Whether the next comments come before a place and may be written here. -/
def State.commentBefore (s : State) (next : Spot) : Bool :=
  match s.comments with
  | [] => false
  | g :: _ => (s.lines.spot (groupPos g)).offset < next.offset &&
    (!s.impliedSemi || !hasBreak s.lines g)

/-- Bytes of the comments before a place. -/
def commentSizeBefore (next : Spot) : Layout Nat := do
  let s ← get
  let before := s.comments.takeWhile fun g => { s with comments := [g] }.commentBefore next
  return before.flatten.foldl (fun n c => n + width c.text) 0

/-- What stays held back before a comment on the line of the last item, how much of it is written
first, and whether it holds a separator. -/
def besideComment : List Pending → List Pending × Option Nat × Bool
  | [] => ([], none, false)
  | .blank :: rest =>
    let (ps, stop, sep) := besideComment rest
    (.ignored :: ps, stop.map (· + 1), sep)
  | .softTab :: rest =>
    let (ps, stop, _) := besideComment rest
    (.softTab :: ps, stop.map (· + 1), true)
  | .indent :: rest =>
    let (ps, stop, sep) := besideComment rest
    (.indent :: ps, stop.map (· + 1), sep)
  | ps => (ps, some 0, false)

/-- What stays held back before a comment on a line of its own, how much of it is written first, and
whether a line break was dropped. `aligned` says that the comment is aligned with the next item and
that item closes no block, so that a step back applies to the comment as well. -/
def aboveComment (aligned first : Bool) : List Pending → List Pending × Option Nat × Bool
  | [] => ([], none, false)
  | p :: rest =>
    let goesOn (p : Pending) : List Pending × Option Nat × Bool :=
      let (ps, stop, dropped) := aboveComment aligned first rest
      (p :: ps, stop.map (· + 1), dropped)
    match p with
    | .blank | .softTab => goesOn .ignored
    | .indent => goesOn .indent
    | .unindent =>
      if rest.head? = some .unindent || aligned then goesOn .unindent
      else (p :: rest, some 0, false)
    | .newline | .formFeed => (.ignored :: rest, some 0, first)
    | .ignored => (p :: rest, some 0, false)

/-- Writes the blanks before a comment. -/
def commentPrefix (pos next : Spot) (previous : Option Comment) (kind : Kind) : Layout Unit := do
  let s ← get
  if s.output.isEmpty then return
  if pos.line = s.last.line && !previous.any isLineComment then
    let mut separated := false
    if previous.isNone then
      let (pending, stop, sep) := besideComment s.pending
      separated := sep
      set { s with pending }
      drainFirst (stop.getD 0)
    unless separated do
      space (if pos.line = next.line then .blank else .tab) 1
  else
    let aligned := kind ≠ .rbrace && pos.column = next.column
    let (pending, stop, dropped) := aboveComment aligned previous.isNone s.pending
    set { s with pending }
    drainFirst (stop.getD 0)
    let s ← get
    let n := if pos.isValid && s.last.isValid then pos.line - s.last.line else 0
    let n := if s.indent = 0 && dropped then n + 1 else n
    let n := if n = 0 && previous.any isLineComment then 1 else n
    if 0 < n then space .formFeed (min n maxBreaks)

def noteBuildLine (c : Comment) : Layout Unit := modify fun s =>
  if (BuildTag.current? c.text).isSome then
    { s with buildLines := s.buildLines ++ [s.output.size] }
  else if (BuildTag.older? c.text).isSome then
    { s with olderBuildLines := s.olderBuildLines ++ [s.output.size] }
  else s

/-- Writes a comment. A line directive is not indented. -/
def comment (c : Comment) : Layout Unit := do
  let indent := (← get).indent
  let pos ← spotOf c.pos
  if "//line ".toList.isPrefixOf c.text.toList && (!pos.isValid || pos.column = 1) then
    modify fun s => { s with indent := 0 }
  if isLineComment c then
    noteBuildLine c
    text pos (String.ofList (Text.trimEnd c.text.toList))
  else
    let lines := c.text.toList.splitOn '\n'
    let lines :=
      if pos.isValid && pos.column = 1 && 0 < (← get).indent then
        lines.take 1 ++ (lines.drop 1).map fun l => ' ' :: ' ' :: ' ' :: l
      else lines
    let mut place := pos
    let mut first := true
    for l in stripMargin lines do
      unless first do
        space .formFeed 1
        place := (← get).pos
      first := false
      unless l.isEmpty do
        text place (String.ofList (Text.trimEnd l))
  modify fun s => { s with indent }

/-- What stays held back after comments; of its line breaks one is kept if one is needed. Tells
whether one was kept and whether a form feed was dropped. -/
def afterComment : (needed : Bool) → List Pending → List Pending × Bool × Bool
  | _, [] => ([], false, false)
  | needed, p :: rest =>
    match p with
    | .blank | .softTab =>
      let (ps, kept, dropped) := afterComment needed rest
      (.ignored :: ps, kept, dropped)
    | .newline | .formFeed =>
      if needed then
        let (ps, _, dropped) := afterComment false rest
        (p :: ps, true, dropped)
      else
        let (ps, kept, dropped) := afterComment needed rest
        (.ignored :: ps, kept, dropped || p = .formFeed)
    | p =>
      let (ps, kept, dropped) := afterComment needed rest
      (p :: ps, kept, dropped)

/-- Writes what was held back after comments. Tells whether a line break was written and whether a
form feed was dropped. -/
def commentSuffix (needsBreak : Bool) : Layout (Bool × Bool) := do
  let s ← get
  let (pending, kept, dropped) := afterComment needsBreak s.pending
  set { s with pending }
  drainAll
  if needsBreak && !kept then space .newline 1
  return (needsBreak, dropped)

/-- Whether a general comment needs a blank or a line break before the next item. -/
def State.parts (s : State) (last : Comment) (next : Spot) (kind : Kind) : Bool :=
  !s.noExtraBlank && !isLineComment last && (s.lines.spot last.pos).line = next.line &&
    kind ≠ .comma && (kind ≠ .rparen || s.lastOpen = .lparen) &&
    (kind ≠ .rbrack || s.lastOpen = .lbrack)

/-- Writes the comments before the next item, mixed with what was held back. -/
def comments (next : Spot) (kind : Kind) : Layout (Bool × Bool) := do
  let mut last : Option Comment := none
  for _ in [0:(← get).comments.length] do
    let s ← get
    match s.comments with
    | [] => break
    | group :: rest =>
      unless s.commentBefore next do break
      let start := s.lines.spot (groupPos group)
      let isDoc := kind ≠ .ident && s.lastKind ≠ .kwImport && start.column = 1 &&
        s.lines.spot (groupStop group + 1) = next
      let shown := if isDoc then Doc.formatGroup group else group
      if shown.isEmpty then
        commentPrefix start next last kind
        modify fun s => { s with pos := next, last := next, comments := rest }
        return ← commentSuffix false
      for c in shown do
        commentPrefix (← spotOf c.pos) next last kind
        comment c
        last := some c
      if isDoc then
        last := group.getLast?
        let stop ← spotOf (groupStop group)
        modify fun s => { s with pos := stop, last := stop }
      modify fun s => { s with comments := rest }
  match last with
  | none => return (false, false)
  | some c =>
    let s ← get
    let mut needsBreak := false
    if s.parts c next kind then
      if s.pending.any Pending.isBreak && !s.noExtraBreak && s.level = 0 then needsBreak := true
      else space .blank 1
    if isLineComment c || kind = .eof || (kind = .rbrace && !s.noExtraBreak) then
      needsBreak := true
    commentSuffix needsBreak

/-- Writes comments before the next item, and what was held back. -/
def flush (next : Spot) (kind : Kind) : Layout (Bool × Bool) := do
  if (← get).commentBefore next then comments next kind
  else
    drainAll
    return (false, false)

/-! Items -/

/-- Takes note of what the last item opened. -/
def noteOpen : Layout Unit := modify fun s =>
  match s.lastKind with
  | .illegal => s
  | .lparen => { s with lastOpen := .lparen }
  | .lbrack => { s with lastOpen := .lbrack }
  | _ => { s with lastOpen := .illegal }

def hold (p : Pending) : Layout Unit := do
  noteOpen
  unless p = .ignored do
    if (← get).pending.length = pendingLimit then drainAll
    modify fun s =>
      { s with
        pending := s.pending ++ [p]
        impliedSemi := s.impliedSemi && !p.isBreak
        lastKind := .illegal }

/-- Writes an item. After comments, empty lines of the source are kept. -/
def item (kind : Kind) (data : String) (endsStatement : Bool) : Layout Unit := do
  modify fun s => { s with lastKind := kind }
  let next := (← get).pos
  let (wroteBreak, droppedFeed) ← flush next kind
  let s ← get
  let mut implied := endsStatement
  unless s.impliedSemi do
    let n := min (next.line - s.pos.line) maxBreaks
    let n := if wroteBreak && n = maxBreaks then maxBreaks - 1 else n
    if 0 < n then
      space (if droppedFeed then .formFeed else .newline) n
      implied := false
  modify fun s =>
    match s.openMark with
    | some m => { s with marks := s.marks.setIfInBounds m s.out.line, openMark := none }
    | none => s
  text next data
  modify fun s => { s with impliedSemi := implied }

/-- Whether a token would join with the character after it. -/
def joins : Kind → Char → Bool
  | .int, '.' => true
  | .add, '+' => true
  | .sub, '-' => true
  | .quo, '*' => true
  | .lss, '-' | .lss, '<' => true
  | .and, '&' | .and, '^' => true
  | _, _ => false

def token (k : Kind) : Layout Unit := do
  noteOpen
  let s := k.text
  if joins (← get).lastKind (s.toList.headD ' ') then
    modify fun s => { s with pending := [.blank] }
  let ends := match k with
    | .kwBreak | .kwContinue | .kwFallthrough | .kwReturn | .inc | .dec | .rparen | .rbrack
    | .rbrace => true
    | _ => false
  item k s ends

def name (i : Ident) : Layout Unit := do
  noteOpen
  item .ident i.name true

def literal (l : Literal) : Layout Unit := do
  noteOpen
  item l.kind l.value true

/-- A word in place of a part that could not be read. -/
def placeholder (s : String) : Layout Unit := do
  noteOpen
  item .string s true

/-- What comes next stands at the given position of the source. -/
def setPos (p : Pos) : Layout Unit := do
  unless p = 0 do
    let spot ← spotOf p
    modify fun s => { s with pos := spot }

def blank : Layout Unit := hold .blank
def softTab : Layout Unit := hold .softTab
def newline : Layout Unit := hold .newline
def formFeed : Layout Unit := hold .formFeed
def indent : Layout Unit := hold .indent
def unindent : Layout Unit := hold .unindent

/-- A token at a position of the source. -/
def tokenAt (p : Pos) (k : Kind) : Layout Unit := do
  setPos p
  token k

/-- Breaks the line as often as the source does up to a line, within limits, and at least `least`
times. `before` is held back first; a new section ends all columns. Gives 0 if there was no break, 1
if there was one that ends no columns, and more otherwise. -/
def lineBreak (line least : Nat) (before : Pending) (newSection : Bool) : Layout Nat := do
  let n := max (min (line - (← get).pos.line) maxBreaks) least
  if n = 0 then return 0
  hold before
  if newSection then formFeed
  let newlines := if newSection then n - 1 else n
  for _ in [0:newlines] do newline
  return if newSection then newlines + 2 else newlines

/-- Asks for the output line of the next item. -/
def mark : Layout Nat := do
  let s ← get
  set { s with marks := s.marks.push 0, openMark := some s.marks.size }
  return s.marks.size

/-- Whether the output has left the line of a mark. -/
def leftLine (m : Option Nat) : Layout Bool := do
  let s ← get
  return (m.map fun m => s.marks.getD m 0).getD 0 < s.out.line

/-- The pieces of everything that was written, with all that was held back. -/
def finish : Layout (Array Piece) := do
  modify fun s => { s with impliedSemi := false }
  let _ ← flush .beyond .eof
  return (← get).output

end Layout
end Desugar.Host

import Desugar.Text.Bytes

/-!
# Line diffs

Two texts are aligned line by line along a longest common subsequence; the alignment is a script
of edits, and the script is cut into hunks with some unchanged lines around each change. Common
leading and trailing lines are matched first, so the table of lengths covers the middle alone.
-/
namespace Desugar.Diff

/-- Whether a line stands in both texts, in the new one only, or in the old one only. -/
inductive Kind where
  | keep | add | remove
  deriving DecidableEq, Repr

/-- One aligned line, with the places from 1 that it has, or would have, in either text. -/
structure Edit where
  kind : Kind
  line : Bytes
  old : Nat
  new : Nat
  deriving DecidableEq, Repr

/-- A run of changes with the unchanged lines around it. -/
structure Hunk where
  oldStart : Nat
  oldCount : Nat
  newStart : Nat
  newCount : Nat
  lines : List (Kind × Bytes)
  deriving DecidableEq, Repr

/-- The lines of a text; a final newline ends the last line and starts none. -/
def lines (text : Bytes) : List Bytes :=
  match text with
  | [] => []
  | _ =>
    let all := text.splitOn 0x0A
    if all.getLast? = some [] then all.dropLast else all

/-- How many leading lines two texts share. -/
def commonLead : List Bytes → List Bytes → Nat
  | a :: as, b :: bs => if a = b then commonLead as bs + 1 else 0
  | _, _ => 0

/-- One row of the table of lengths: entry `j` is the length of a longest common subsequence of
`a` with the lines before it added and the lines of `bs` from `j` on. `below` is the row without
`a`. -/
def lcsRow (a : Bytes) : List Bytes → List Nat → List Nat
  | b :: bs, below :: belows =>
    let row := lcsRow a bs belows
    (if a = b then (belows.head?.getD 0) + 1 else max below (row.head?.getD 0)) :: row
  | _, _ => [0]

/-- The table of lengths, one row for each suffix of the first text, the empty one last. -/
def lcsTable : List Bytes → List Bytes → List (List Nat)
  | [], bs => [List.replicate (bs.length + 1) 0]
  | a :: as, bs =>
    let table := lcsTable as bs
    lcsRow a bs (table.head?.getD []) :: table

/-- Entry `i`, `j` of a table, zero outside it. -/
def entry (table : Array (Array Nat)) (i j : Nat) : Nat :=
  match table[i]? with
  | some row => (row[j]?).getD 0
  | none => 0

/-- Walks two texts from lines `i` and `j` on. Equal lines are kept; otherwise the old line goes
first unless dropping the new one leaves more in common. `skip` lines stand before both. -/
def walk (table : Array (Array Nat)) (skip i j : Nat) : List Bytes → List Bytes → List Edit
  | [], [] => []
  | a :: as, [] => ⟨.remove, a, skip + i + 1, skip + j + 1⟩ :: walk table skip (i + 1) j as []
  | [], b :: bs => ⟨.add, b, skip + i + 1, skip + j + 1⟩ :: walk table skip i (j + 1) [] bs
  | a :: as, b :: bs =>
    if a = b then ⟨.keep, a, skip + i + 1, skip + j + 1⟩ :: walk table skip (i + 1) (j + 1) as bs
    else if entry table i (j + 1) ≤ entry table (i + 1) j then
      ⟨.remove, a, skip + i + 1, skip + j + 1⟩ :: walk table skip (i + 1) j as (b :: bs)
    else ⟨.add, b, skip + i + 1, skip + j + 1⟩ :: walk table skip i (j + 1) (a :: as) bs
termination_by as bs => as.length + bs.length

/-- Lines kept on both sides, from the given places on. -/
def kept (old new : Nat) : List Bytes → List Edit
  | [] => []
  | a :: as => ⟨.keep, a, old, new⟩ :: kept (old + 1) (new + 1) as

/-- The script that turns the lines `a` into the lines `b`. -/
def script (a b : List Bytes) : List Edit :=
  let lead := commonLead a b
  let a' := a.drop lead
  let b' := b.drop lead
  let tail := commonLead a'.reverse b'.reverse
  let midA := a'.take (a'.length - tail)
  let midB := b'.take (b'.length - tail)
  let table := ((lcsTable midA midB).map List.toArray).toArray
  kept 1 1 (a.take lead) ++ walk table lead 0 0 midA midB ++
    kept (a.length - tail + 1) (b.length - tail + 1) (a'.drop (a'.length - tail))

/-- How many edits from a change on belong to its hunk: a run of kept lines longer than twice the
context, or at the end, closes it after the context. -/
def hunkSize (context : Nat) : List Edit → Nat
  | [] => 0
  | e :: rest =>
    if e.kind ≠ .keep then hunkSize context rest + 1
    else
      let run := (rest.takeWhile (·.kind = .keep)).length
      if run = rest.length ∨ 2 * context < run + 1 then min context (rest.length + 1)
      else run + 1 + hunkSize context (rest.drop run)
termination_by es => es.length
decreasing_by all_goals (simp only [List.length_drop, List.length_cons]; omega)

def Hunk.ofEdits (es : List Edit) : Hunk :=
  { oldStart := (es.head?.map (·.old)).getD 0
    oldCount := es.countP (·.kind ≠ .add)
    newStart := (es.head?.map (·.new)).getD 0
    newCount := es.countP (·.kind ≠ .remove)
    lines := es.map fun e => (e.kind, e.line) }

/-- Cuts a script into hunks. `before` holds the edits already passed, the last one first. -/
def hunks (context : Nat) (before : List Edit) : List Edit → List Hunk
  | [] => []
  | e :: rest =>
    if e.kind = .keep then hunks context (e :: before) rest
    else
      let size := hunkSize context rest
      let body := e :: rest.take size
      Hunk.ofEdits ((before.take context).reverse ++ body) ::
        hunks context (body.reverse ++ before) (rest.drop size)
termination_by es => es.length
decreasing_by all_goals (simp only [List.length_drop, List.length_cons]; omega)

/-- A computed diff. -/
structure Result where
  hunks : List Hunk
  added : Nat
  removed : Nat
  deriving DecidableEq, Repr

/-- Unchanged lines shown around each change unless asked otherwise. -/
def defaultContext : Nat := 3

def compute (old new : Bytes) (context : Nat) : Result :=
  let edits := script (lines old) (lines new)
  { hunks := hunks context [] edits
    added := edits.countP (·.kind = .add)
    removed := edits.countP (·.kind = .remove) }

def Result.changed (r : Result) : Bool := !r.hunks.isEmpty

/-- `start,count`; a single line is named by its place alone, and no lines by the place before. -/
def range (start count : Nat) : String :=
  let start : Int := if count = 0 then (start : Int) - 1 else start
  if count = 1 then s!"{start}" else s!"{start},{count}"

def Hunk.header (h : Hunk) : String :=
  s!"@@ -{range h.oldStart h.oldCount} +{range h.newStart h.newCount} @@"

/-- What stands before a line of each kind. -/
def Kind.sign : Kind → UInt8
  | keep => 0x20
  | add => 0x2B
  | remove => 0x2D

def Hunk.render (h : Hunk) : Bytes :=
  Text.utf8 h.header ++ [0x0A] ++ h.lines.flatMap fun (kind, line) => kind.sign :: line ++ [0x0A]

/-- The unified format; texts without a difference have an empty diff. -/
def Result.unified (r : Result) (oldName newName : String) : Bytes :=
  if r.changed then
    Text.utf8 s!"--- {oldName}\n+++ {newName}\n" ++ r.hunks.flatMap Hunk.render
  else []

def unified (oldName newName : String) (old new : Bytes) : Bytes :=
  (compute old new defaultContext).unified oldName newName

end Desugar.Diff

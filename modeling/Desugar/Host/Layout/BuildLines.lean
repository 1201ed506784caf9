import Desugar.Host.Layout.State

/-!
# Build constraints in laid out code

Build constraints are brought together at the head of a file, below the comments there, with an empty
line after them. A constraint of the current form rules: those of the older form are written anew from
it.
-/
namespace Desugar.Host.Layout.BuildLines

def isLineComment : Piece → Bool
  | .text s => "//".toList.isPrefixOf s.toList
  | _ => false

/-- Where constraints may stand at the latest: after the last empty line before something that is no
line comment. Pieces are looked at from index `i` on. -/
def latest : (fuel : Nat) → (i insert : Nat) → List Piece → Nat
  | 0, _, insert, _ => insert
  | fuel + 1, i, insert, pieces =>
    let blanks := pieces.takeWhile fun p => p = .blank || p = .tab
    let rest := pieces.drop blanks.length
    let comment := match rest with
      | p :: _ => if isLineComment p then rest.takeWhile (fun q : Piece => !q.isBreak) else []
      | [] => []
    match rest.drop comment.length with
    | p :: after =>
      if p.isBreak then
        let next := i + blanks.length + comment.length + 1
        latest fuel next (if comment.isEmpty then next else insert) after
      else insert
    | [] => insert

/-- The line from an index on, with its break. -/
def lineFrom (pieces : List Piece) (i : Nat) : List Piece :=
  let line := (pieces.drop i).takeWhile fun p : Piece => !p.isBreak
  (pieces.drop i).take (line.length + 1)

def commentAt (pieces : List Piece) (i : Nat) : String :=
  match pieces[i]? with
  | some (.text s) => s
  | _ => ""

/-- Appends lines without an empty line after another one or at the very start. -/
def appendLines (x y : List Piece) : List Piece :=
  let starts := y.head?.any Piece.isBreak
  let ends := match x.reverse with
    | [] => true
    | a :: b :: _ => a.isBreak && b.isBreak
    | _ => false
  x ++ if starts && ends then y.drop 1 else y

/-- The constraint that rules: the one of the current form if there is one, and otherwise all of the
older form together. One that cannot be read leaves none; an indented one cannot be, since its line
starts with no comment. -/
def ruling (pieces : List Piece) (current older : List Nat) : Option BuildTag :=
  match current with
  | [] => do
    let all ← older.mapM fun i => (BuildTag.older? (commentAt pieces i)).bind BuildTag.parseOlder?
    BuildTag.joinBy .and all
  | [i] => (BuildTag.current? (commentAt pieces i)).bind BuildTag.parse?
  | _ => none

/-- Where constraints are written, given where they may stand at the latest. -/
def insertion (latest : Nat) (current older : List Nat) : Nat :=
  if current.head?.any (· < latest) then current.headD latest
  else min (older.headD latest) latest

/-- The lines of all constraints, and an empty line. -/
def block (pieces : List Piece) (current older : List Nat) : List Piece :=
  match ruling pieces current older with
  | none => (current ++ older).flatMap (lineFrom pieces) ++ [.newline]
  | some x =>
    let lines := s!"{BuildTag.currentMark} {x.render}" ::
      if older.isEmpty then [] else x.olderLines
    lines.flatMap (fun l => [Piece.text l, .newline]) ++ [.newline]

/-- Brings build constraints, given by their indices, to the head of the code. -/
def gather (pieces : List Piece) (current older : List Nat) : List Piece :=
  if current.isEmpty && older.isEmpty then pieces
  else
    let insert := insertion (latest (pieces.length + 1) 0 0 pieces) current older
    let step := fun ((after, start) : List Piece × Nat) (stop : Nat) =>
      if stop < start then (after, start)
      else (appendLines after ((pieces.drop start).take (stop - start)),
        stop + (lineFrom pieces stop).length)
    let removed := (current ++ older).mergeSort (· ≤ ·)
    let (after, start) := removed.foldl step ([], insert)
    let after := appendLines after (pieces.drop start)
    let after := match after.reverse with
      | a :: b :: _ => if a.isBreak && b.isBreak then after.dropLast else after
      | _ => after
    pieces.take insert ++ block pieces current older ++ after

end Desugar.Host.Layout.BuildLines

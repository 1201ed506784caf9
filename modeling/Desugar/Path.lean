/-!
# Slash-separated paths

Paths are taken apart and put together by their text alone; no file is looked at.
-/
namespace Desugar.Path

/-- The parts of a path between its slashes, empty ones included. -/
def parts (path : String) : List (List Char) := path.toList.splitOn '/'

/-- What follows the last slash. -/
def lastPart (path : String) : List Char := ((parts path).getLast?).getD []

/-- Whether the path can only stand for a directory. -/
def asksDirectory (path : String) : Bool := [[], ['.'], ['.', '.']].contains (lastPart path)

/-- Whether the path starts at the root. -/
def isAbs (path : String) : Bool := path.toList.head? == some '/'

/-- Takes one part onto the parts already kept, which are in reverse order. -/
def pushPart (rooted : Bool) (kept : List (List Char)) (part : List Char) : List (List Char) :=
  if part.isEmpty || part == ['.'] then kept
  else if part == ['.', '.'] then
    match kept with
    | top :: below => if top == ['.', '.'] then part :: kept else below
    | [] => if rooted then [] else [part]
  else part :: kept

/-- The shortest equivalent path: no empty part, no `.`, and `..` only where it must stay. -/
def clean (path : String) : String :=
  let rooted := isAbs path
  let kept := ((parts path).foldl (pushPart rooted) []).reverse
  let body := ['/'].intercalate kept
  if rooted then String.ofList ('/' :: body)
  else if body.isEmpty then "." else String.ofList body

/-- Joins the non-empty elements and cleans the result; nothing joined is the empty path. -/
def join (elements : List String) : String :=
  match elements.filter (· ≠ "") with
  | [] => ""
  | present => clean ("/".intercalate present)

/-- The last element, trailing slashes apart. -/
def base (path : String) : String :=
  if path.isEmpty then "."
  else match ((parts path).filter (! ·.isEmpty)).getLast? with
    | some part => String.ofList part
    | none => "/"

/-- All but the last element, cleaned. -/
def dir (path : String) : String :=
  match (parts path).dropLast with
  | [] => "."
  | front => clean (String.ofList (['/'].intercalate (front ++ [[]])))

/-- The part of the last element from its last dot on, or nothing. -/
def ext (path : String) : String :=
  let last := lastPart path
  match last.reverse.findIdx? (· == '.') with
  | some i => String.ofList (last.drop (last.length - (i + 1)))
  | none => ""

/-- The path without `tail` at its end, if it ends so. -/
def dropTail (path tail : String) : String :=
  let p := path.toList
  let t := tail.toList
  if t.isSuffixOf p then String.ofList (p.take (p.length - t.length)) else path

end Desugar.Path

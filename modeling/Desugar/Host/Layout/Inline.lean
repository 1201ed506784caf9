import Desugar.Text.CharClass

/-!
# Running text of documentation comments

A paragraph may hold names of links between brackets, addresses and doubled quotes. Addresses are
left as they are, and so are words; elsewhere doubled quotes become typographic ones. Offsets count
bytes, so a text is a list of bytes here.
-/
namespace Desugar.Host.Layout.Inline

def isWordByte (b : UInt8) : Bool :=
  (0x41 ≤ b && b ≤ 0x5A) || (0x61 ≤ b && b ≤ 0x7A) || (0x30 ≤ b && b ≤ 0x39) || b == 0x5F

def isOneOf (marks : String) (b : UInt8) : Bool := (Text.utf8 marks).contains b

def isAlphanumeric (b : UInt8) : Bool := isWordByte b && b ≠ 0x5F

/-- Marks that may stand inside of a path but not at its end. -/
def isStop : UInt8 → Bool := isOneOf ".,:;?!"

def isHostByte (b : UInt8) : Bool := isAlphanumeric b || isOneOf "_@-.[]:" b

def isPathByte (b : UInt8) : Bool := isAlphanumeric b || isOneOf "$'()*+&#=@~_/-[]\x7b\x7d%" b

/-- Schemes that an address may have. -/
def schemes : List String :=
  ["file", "ftp", "gopher", "http", "https", "mailto", "nntp"]

/-- The bracket that closes what a byte opens. -/
def closer? (b : UInt8) : Option UInt8 :=
  if b == 0x28 then some 0x29 else if b == 0x7B then some 0x7D else if b == 0x5B then some 0x5D else none

/-- How much of a text belongs to the path of an address. Brackets have to match; `open_` holds the
closers that are still to come. `i` counts the bytes before, up to `best` they are sure to belong. -/
def pathLength (open_ : List UInt8) (i best : Nat) : Bytes → Nat
  | [] => best
  | b :: rest =>
    if isStop b then pathLength open_ (i + 1) best rest
    else if !isPathByte b then best
    else
      let goOn (open_ : List UInt8) : Nat :=
        pathLength open_ (i + 1) (if open_.isEmpty then i + 1 else best) rest
      match closer? b with
      | some c => goOn (c :: open_)
      | none =>
        if isOneOf ")\x7d]" b then if open_.head? = some b then goOn open_.tail else best
        else goOn open_

/-- How long the address is that a text starts with, if it starts with one. A host starts and ends
in no mark. -/
def addressLength? (text : Bytes) : Option Nat :=
  schemes.findSome? fun scheme =>
    let front := Text.utf8 (scheme ++ "://")
    if !front.isPrefixOf text then none
    else
      let after := text.drop front.length
      let run := after.takeWhile isHostByte
      if run.head?.all isStop then none
      else
        let host := (run.reverse.dropWhile isStop).length
        some (front.length + host + pathLength [] 0 0 (after.drop host))

/-- How long the word is that a text starts with. -/
def wordLength (first : Bool) : Bytes → Nat
  | [] => 0
  | b :: rest =>
    if b < 0x80 then
      if isWordByte b && !(first && 0x30 ≤ b && b ≤ 0x39) then wordLength false rest + 1 else 0
    else
      let d := Text.decodeCons b rest
      if Text.isLetter d.char then wordLength false (rest.drop d.more) + d.width else 0
termination_by bs => bs.length
decreasing_by all_goals (simp only [List.length_drop, List.length_cons]; omega)

/-- How many back quotes stand in a text from an offset on. -/
def backQuotesFrom (text : Array UInt8) (offset : Nat) : Nat :=
  ((text.extract offset text.size).toList.takeWhile (· == 0x60)).length

/-- Doubled quotes made typographic in `rest`, which stands at offset `i` of a text. Three back quotes
stay, and as many bytes behind them as there are back quotes at twice their distance from the front.
Where `names` is set, words and addresses stay. -/
def curl (names : Bool) (text : Array UInt8) (i : Nat) : Bytes → Bytes
  | [] => []
  | b :: rest =>
    let stays := if names then ((addressLength? (b :: rest)).getD (wordLength true (b :: rest))) else 0
    let keep (more : Nat) : Bytes :=
      b :: rest.take more ++ curl names text (i + more + 1) (rest.drop more)
    if 0 < stays then keep (stays - 1)
    else if b == 0x60 && rest.head? = some 0x60 then
      if rest[1]? = some 0x60 then keep (2 + backQuotesFrom text (2 * i + 3))
      else Text.utf8 "“" ++ curl names text (i + 2) (rest.drop 1)
    else if b == 0x27 && rest.head? = some 0x27 then
      Text.utf8 "”" ++ curl names text (i + 2) (rest.drop 1)
    else keep 0
termination_by bs => bs.length
decreasing_by all_goals (simp only [List.length_drop, List.length_cons]; omega)

def curlAll (names : Bool) (text : Bytes) : Bytes := curl names text.toArray 0 text

/-! Links -/

/-- Packages of one word that need no path. -/
def packages : List String :=
  ["bufio", "bytes", "cmp", "context", "crypto", "embed", "encoding", "errors", "expvar", "flag",
    "fmt", "hash", "html", "image", "io", "iter", "log", "maps", "math", "mime", "net", "os", "path",
    "plugin", "reflect", "regexp", "runtime", "slices", "sort", "strconv", "strings", "structs",
    "sync", "syscall", "testing", "time", "unicode", "unique", "unsafe", "weak"]

def isPathElement (e : Bytes) : Bool :=
  !e.isEmpty && e.head? ≠ some 0x2E && e.getLast? ≠ some 0x2E &&
    e.all fun b => isAlphanumeric b || isOneOf "-.~_+" b

/-- Whether a text names a package: by a path, or as one of those that need none. -/
def isPackage (text : Bytes) : Bool :=
  if text.contains 0x2F then text.head? ≠ some 0x2D && (text.splitOn 0x2F).all isPathElement
  else packages.contains (Text.toString text)

/-- Whether a text is a word with a capital at its front. -/
def isName (text : Bytes) : Bool :=
  !text.isEmpty && wordLength true text = text.length &&
    ((Text.chars text).head?.map Text.isUpper).getD false

/-- A text without the name behind its last point, if a name stands there. -/
def withoutName? (text : Bytes) : Option Bytes :=
  let name := (text.reverse.takeWhile (· ≠ 0x2E)).reverse
  if isName name then some (text.take (text.length - name.length - 1)) else none

def isEdge (c : Option Char) : Bool :=
  c.all fun c => Text.isPunctuation c || c = ' ' || c = '\t' || c = '\n'

/-- Whether a text between brackets refers to a package or to a name of one; the characters around
the brackets have to part it from other text. -/
def isReference (inside : Bytes) (before after : Option Char) : Bool :=
  let text := if inside.head? = some 0x2A then inside.tail else inside
  let package := match withoutName? text with
    | none => text
    | some before => (withoutName? before).getD before
  isEdge before && isEdge after && !package.isEmpty && isPackage package

/-- The search for links: where a bracket is open, what was read since the first of those that are
open, last byte first, and the links found, the last one first. -/
structure Search where
  start : Option Nat := none
  name : Bytes := []
  links : List (Nat × Nat) := []
  used : List Bytes := []

def Search.step (known : List Bytes) (text : Bytes) (s : Search) (at_ : UInt8 × Nat) : Search :=
  let (b, i) := at_
  if b == 0x5B then { s with start := some i }
  else if b == 0x5D then
    let s' := match s.start with
      | none => s
      | some start =>
        let name := s.name.reverse
        if known.contains name then { s with links := (start, i) :: s.links, used := name :: s.used }
        else
          let before := (Text.chars (text.take start)).getLast?
          let after := (Text.chars (text.drop (i + 1))).head?
          if isReference (Text.slice text (start + 1) i) before after then
            { s with links := (start, i) :: s.links }
          else s
    { s' with start := none, name := [] }
  else if s.start.isSome then
    { s with name := (if b == 0x0A || b == 0x09 then 0x20 else b) :: s.name }
  else s

/-- Writes a text from an offset on around links, which are in order. -/
def around (text : Bytes) (i : Nat) : List (Nat × Nat) → Bytes
  | [] => curlAll true (text.drop i)
  | (start, stop) :: rest =>
    curlAll true (Text.slice text i start) ++ 0x5B :: curlAll false (Text.slice text (start + 1) stop) ++
      0x5D :: around text (stop + 1) rest

/-- The links of a text, and the known names among them. -/
def search (known : List Bytes) (text : Bytes) : Search :=
  text.zipIdx.foldl (Search.step known text) {}

/-- The known names of links that a text uses. -/
def uses (known : List Bytes) (text : Bytes) : List Bytes := (search known text).used

/-- Running text in its standard form, where the links of some names are known. -/
def format (known : List Bytes) (text : Bytes) : Bytes :=
  around text 0 (search known text).links.reverse

end Desugar.Host.Layout.Inline

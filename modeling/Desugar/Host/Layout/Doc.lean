import Desugar.Host.Tree
import Desugar.Host.Layout.Inline

/-!
# Documentation comments

The text of a comment that documents a declaration has a light markup: paragraphs, headings, code,
lists and definitions of links. `Doc.format` reads the lines of such a text and writes them in
their standard form. Lines are lists of characters; code and lists are told by their indentation.
-/
namespace Desugar.Host.Layout.Doc

abbrev Line := List Char

def isIndented (l : Line) : Bool := l.head? = some ' ' || l.head? = some '\t'

def leadingSpace (l : Line) : Line := l.takeWhile fun c => c = ' ' || c = '\t'

def commonPrefix : Line → Line → Line
  | a :: as, b :: bs => if a = b then a :: commonPrefix as bs else []
  | _, _ => []

def dropBlankEnds (ls : List Line) : List Line :=
  ((ls.dropWhile List.isEmpty).reverse.dropWhile List.isEmpty).reverse

/-- Lines without the indentation that all of them have; lines of blanks become empty. -/
def unindent (lines : List Line) : List Line :=
  match dropBlankEnds lines with
  | [] => []
  | first :: rest =>
    let margin := (rest.filter (!·.isEmpty)).foldl
      (fun m l => commonPrefix m (leadingSpace l)) (leadingSpace first)
    dropBlankEnds <| (first :: rest).map fun l =>
      let l := if margin.isPrefixOf l then l.drop margin.length else l
      if (Text.trim l).isEmpty then [] else l

/-- A list item's number, empty for a bullet, and the text after the marker. -/
def listMarker? (line : Line) : Option (Line × Line) :=
  let line := Text.trim line
  let found : Option (Line × Line) :=
    match line with
    | [] => none
    | c :: rest =>
      if c = '•' || c = '*' || c = '+' || c = '-' then some ([], rest)
      else
        let number := line.takeWhile Char.isDigit
        match number, line.drop number.length with
        | _ :: _, d :: rest => if d = '.' || d = ')' then some (number, rest) else none
        | _, _ => none
  found.filter fun (_, rest) => isIndented rest && !(Text.trim rest).isEmpty

def isItem (l : Line) : Bool := (listMarker? l).isSome

def isHeading : Line → Bool
  | '#' :: c :: rest => (c = ' ' || c = '\t') && !(Text.trim (c :: rest)).isEmpty
  | _ => false

/-- Every occurrence of a character is followed by a text that is fit for it. -/
def followedBy (mark : Char) (fits : Line → Bool) : Line → Bool
  | [] => true
  | c :: rest => (c ≠ mark || fits rest) && followedBy mark fits rest

/-- A line that reads like a title: it starts with a capital, ends in a letter or digit and has no
punctuation that a title would not have. -/
def isTitle (line : Line) : Bool :=
  let line := Text.trim line
  (line.head?.map Text.isUpper).getD false &&
    (line.getLast?.map fun c => Text.isLetter c && c ≠ '_' || Text.isDigit c).getD false &&
    !line.any (";:!?+*/=[]\x7b\x7d_^°&§~%#@<\">\\".toList.contains ·) &&
    followedBy '\'' (fun r => r = ['s'] || ['s', ' '].isPrefixOf r) line &&
    followedBy '.' (fun r => r ≠ [] && r.head? ≠ some ' ') line

/-- Whether the line with the given number stands alone between two paragraphs and reads like a
title. -/
def isTitleAt (lines : Array Line) (i : Nat) : Bool :=
  0 < i && lines.getD (i - 1) ['x'] = [] && i + 2 < lines.size && lines.getD (i + 1) ['x'] = [] &&
    leadingSpace (lines.getD (i + 2) []) = [] && isTitle (lines.getD i [])

inductive Kind where
  | paragraph | heading | title | code | list
  deriving DecidableEq, Repr

/-- Lines from `start` up to `stop` that belong together. -/
structure Block where
  start : Nat
  stop : Nat
  kind : Kind
  deriving DecidableEq, Repr

/-- The first line from `i` on that does not go on; `fuel` is at least the number of lines left. -/
def advance (goesOn : Nat → Bool) : (fuel : Nat) → (i : Nat) → Nat
  | 0, i => i
  | fuel + 1, i => if goesOn i then advance goesOn fuel (i + 1) else i

/-- The last line at or before `i`, and after `start`, before which none goes on. -/
def retreat (start : Nat) (goesOn : Nat → Bool) : (i : Nat) → Nat
  | 0 => 0
  | i + 1 => if start < i + 1 && goesOn i then retreat start goesOn i else i + 1

/-- Splits lines into blocks from line `i` on. Lines before `forced` count as indented: they were
found to belong to an indented block that follows them. -/
def blocks (lines : Array Line) : (fuel : Nat) → (i forced : Nat) → List Block
  | 0, _, _ => []
  | fuel + 1, i, forced =>
    let n := lines.size
    let line (k : Nat) := lines.getD k []
    let start := advance (fun k => k < n && (line k).isEmpty) n i
    if n ≤ start then []
    else if start < forced || isIndented (line start) then
      let stays (k : Nat) := (line k).isEmpty || k < forced || isIndented (line k)
      let loose := isItem (line start) && start < forced
      let run := advance (fun k => k < n && (stays k || (loose && isItem (line k)))) n (start + 1)
      let run :=
        -- an unindented item goes on only before the first empty line
        if loose then
          let gap := advance (fun k => k < run && !(line k).isEmpty) n (start + 1)
          advance (fun k => k < n && stays k) n gap
        else run
      let stop := retreat start (fun k => (line k).isEmpty) run
      let stop := if stop < n && (line stop).head? = some '\x7d' then stop + 1 else stop
      let kind := if isItem (line start) then Kind.list else .code
      ⟨start, stop, kind⟩ :: blocks lines fuel stop forced
    else
      let run := advance (fun k => k < n && !(line k).isEmpty && !isIndented (line k)) n (start + 1)
      let before := line (run - 1)
      let touches := run < n && !(line run).isEmpty && !isItem (line run)
      let opensCode := before.getLast? = some '\x7b' || before.getLast? = some '\\'
      let (stop, forced) :=
        if touches && isItem before then (retreat start (fun k => isItem (line k)) (run - 1), run)
        else if touches && opensCode then (run - 1, run)
        else (run, forced)
      if stop = start then blocks lines fuel start forced
      else
        let single := stop = start + 1
        let kind :=
          if single && isHeading (line start) then Kind.heading
          else if single && isTitleAt lines start then .title
          else .paragraph
        ⟨start, stop, kind⟩ :: blocks lines fuel stop forced

structure Link where
  text : Line
  url : Line
  deriving DecidableEq, Repr

/-- What stands before and after the first occurrence of a text. -/
def cut (mark : Line) : Line → Option (Line × Line)
  | [] => if mark.isEmpty then some ([], []) else none
  | c :: rest =>
    if mark.isPrefixOf (c :: rest) then some ([], (c :: rest).drop mark.length)
    else (cut mark rest).map fun (a, b) => (c :: a, b)

def link? (line : Line) : Option Link :=
  match line with
  | '[' :: inner =>
    match cut [']', ':'] inner with
    | some (text, c :: rest) =>
      let url := Text.trim rest
      let scheme := (cut [':', '/', '/'] url).map (·.1)
      if (c = ' ' || c = '\t') && !rest.isEmpty &&
          (scheme.map fun s => Inline.schemes.contains (String.ofList s)).getD false then
        some ⟨text, url⟩
      else none
    | _ => none
  | _ => none

structure Item where
  number : Line
  paragraphs : List (List Line)

inductive Node where
  | paragraph (lines : List Line)
  | heading (text : Line)
  | code (lines : List Line)
  | list (items : List Item) (spaced gapBefore : Bool)

/-- A paragraph of nothing but definitions of links is no paragraph. -/
def paragraphOrLinks (lines : List Line) : List (List Line) × List Link :=
  match lines.mapM link? with
  | some links => ([], links)
  | none => ([lines], [])

/-- The state while the lines of a list are gone through: items and links so far, the last first,
the open item, its open paragraph, and whether an empty line was seen. -/
structure ListState where
  done : List Item := []
  links : List Link := []
  item : Option Item := none
  open_ : List Line := []
  spaced : Bool := false

/-- Ends the open paragraph. -/
def ListState.flush (s : ListState) : ListState :=
  match s.item with
  | none => { s with open_ := [] }
  | some item =>
    let (paragraphs, links) := paragraphOrLinks s.open_.reverse
    { s with
      item := some { item with paragraphs := item.paragraphs ++ paragraphs }
      links := links.reverse ++ s.links
      open_ := [] }

/-- Ends the open item. -/
def ListState.close (s : ListState) : ListState :=
  let s := s.flush
  { s with done := s.item.toList ++ s.done, item := none }

def ListState.line (numbered : Bool) (s : ListState) (l : Line) : ListState :=
  let (s, l) := match listMarker? l with
    | some (number, after) =>
      if !number.isEmpty == numbered then ({ s.close with item := some ⟨number, []⟩ }, after)
      else (s, l)
    | none => (s, l)
  let l := Text.trim l
  if l.isEmpty then { s.flush with spaced := true } else { s with open_ := l :: s.open_ }

def listNode (lines : List Line) (gapBefore : Bool) : Node × List Link :=
  let numbered := (lines.head?.bind listMarker?).any fun (number, _) => !number.isEmpty
  let s := (lines.foldl (ListState.line numbered) {}).close
  (.list s.done.reverse s.spaced gapBefore, s.links.reverse)

/-- The node of a block, if there is one, and the links that it defines. -/
def node (lines : Array Line) (previousStop : Nat) (b : Block) : List Node × List Link :=
  let body := (lines.toList.drop b.start).take (b.stop - b.start)
  match b.kind with
  | .paragraph =>
    let (paragraphs, links) := paragraphOrLinks body
    (paragraphs.map .paragraph, links)
  | .heading => ([.heading (Text.trim ((body.headD []).drop 1))], [])
  | .title => ([.heading (Text.trim (body.headD []))], [])
  | .code => ([.code (unindent body)], [])
  | .list =>
    let (n, links) := listNode body (previousStop < b.start)
    ([n], links)

/-- The nodes of all blocks, in order, and all links defined. -/
def nodes (lines : Array Line) : (previousStop : Nat) → List Block → List Node × List Link
  | _, [] => ([], [])
  | previousStop, b :: rest =>
    let (ns, links) := node lines previousStop b
    let (ns', links') := nodes lines b.stop rest
    (ns ++ ns', links ++ links')

/-- The lines of a paragraph as one text. -/
def paragraphText (lines : List Line) : Bytes :=
  Text.utf8 (String.ofList (['\n'].intercalate lines))

/-- The known names of links that a node uses. -/
def Node.uses (known : List Bytes) : Node → List Bytes
  | .paragraph ls => Inline.uses known (paragraphText ls)
  | .list items .. =>
    items.flatMap fun i => i.paragraphs.flatMap fun ls => Inline.uses known (paragraphText ls)
  | _ => []

def blankBetween (items : List Item) (spaced : Bool) : Bool :=
  spaced || items.any (·.paragraphs.length ≠ 1)

/-- Whether an empty line stands before a node. -/
def Node.blankBefore : Node → Bool
  | .list items spaced gapBefore => gapBefore || blankBetween items spaced
  | _ => true

/-- The text of a paragraph, where lines after the first are indented by four blanks if `inItem`. -/
def prose (known : List Bytes) (inItem : Bool) (ls : List Line) : Line :=
  (Text.chars (Inline.format known (paragraphText ls))).flatMap
    (fun c => if inItem && c = '\n' then "\n    ".toList else [c]) ++ ['\n']

def itemText (known : List Bytes) (i : Item) : Line :=
  let marker := if i.number.isEmpty then " - ".toList else i.number ++ ['.', ' ']
  ' ' :: marker ++ "\n    ".toList.intercalate (i.paragraphs.map (prose known true))

def Node.text (known : List Bytes) : Node → Line
  | .paragraph ls => prose known false ls
  | .heading t => '#' :: ' ' :: t ++ ['\n']
  | .code ls => ls.flatMap fun l => (if l.isEmpty then [] else '\t' :: l) ++ ['\n']
  | .list items spaced _ =>
    (if blankBetween items spaced then ['\n'] else []).intercalate (items.map (itemText known))

/-- Definitions of links as a block of their own. -/
def linkBlock (links : List Link) : Line :=
  if links.isEmpty then []
  else '\n' :: links.flatMap fun l => '[' :: l.text ++ ']' :: ':' :: ' ' :: l.url ++ ['\n']

/-- Writes nodes with empty lines between them. -/
def nodesText (known : List Bytes) : List Node → Line
  | [] => []
  | first :: rest => first.text known ++ rest.flatMap fun n =>
    (if n.blankBefore then ['\n'] else []) ++ n.text known

def Link.name (l : Link) : Bytes := Text.utf8 (String.ofList l.text)

/-- Splits links into those that are used and those that are not.
Of two links of one name the first is the one that is used. -/
def splitLinks (used : List Bytes) : List Link → List Link × List Link
  | [] => ([], [])
  | l :: rest =>
    if used.contains l.name then
      let (a, b) := splitLinks (used.filter (· ≠ l.name)) rest
      (l :: a, b)
    else
      let (a, b) := splitLinks used rest
      (a, l :: b)

/-- The text in its standard form: its nodes, the links that they use, and those that they do not. -/
def format (text : Line) : Line :=
  let lines := (unindent (text.splitOn '\n')).toArray
  let (ns, links) := nodes lines 0 (blocks lines (2 * lines.size + 2) 0 0)
  let known := links.map Link.name
  let (used, unused) := splitLinks (ns.flatMap (Node.uses known)) links
  nodesText known ns ++ linkBlock used ++ linkBlock unused

/-! Comments as lists of comment lines -/

/-- Whether the text after `//` is an instruction to a tool and no prose: `word:word`, or one of a
few words that tools have always known. -/
def isDirective (after : Line) : Bool :=
  ["line ", "extern ", "export "].any (fun w => w.toList.isPrefixOf after) ||
    let plain (c : Char) : Bool := c.isLower || c.isDigit
    let word := after.takeWhile (· ≠ ':')
    match after.drop word.length with
    | ':' :: c :: _ => !word.isEmpty && word.all plain && plain c
    | _ => false

/-- Whether each line after the first starts with a star. -/
def isStarred (text : Line) : Bool :=
  ((text.splitOn '\n').drop 1).all fun l =>
    (l.dropWhile fun c => c = ' ' || c = '\t').head? = some '*'

/-- The lines of a text that ends with a newline. -/
def linesOf (text : Line) : List Line :=
  let ls := text.splitOn '\n'
  if ls.getLast? = some [] then ls.dropLast else ls

def lineComment (l : Line) : Line :=
  match l with
  | [] => ['/', '/']
  | '\t' :: _ => '/' :: '/' :: l
  | _ => '/' :: '/' :: ' ' :: l

/-- The prose of line comments, and the instructions among them; `none` if not all are line
comments. -/
def proseOf (group : CommentGroup) : Option (Line × List Comment) :=
  let step (c : Comment) (acc : Option (Line × List Comment)) : Option (Line × List Comment) :=
    match c.text.toList, acc with
    | '/' :: '/' :: after, some (prose, directives) =>
      if isDirective after then some (prose, c :: directives)
      else
        let l := if after.head? = some ' ' then after.tail else after
        some (l ++ '\n' :: prose, directives)
    | _, _ => none
  group.foldr step (some ([], []))

/-- A general comment in its standard form; one that fits a line or has a star in each line is left
as it is. -/
def formatGeneral (c : Comment) : CommentGroup :=
  let text := c.text.toList
  if !text.contains '\n' || isStarred text then [c]
  else
    let body := format ((text.drop 2).take (text.length - 4))
    [{ c with text := String.ofList ('/' :: '*' :: '\n' :: body ++ ['*', '/']) }]

/-- A documentation comment in its standard form, with instructions to tools at its end. Of one that
has nothing but empty lines nothing is left. -/
def formatGroup (group : CommentGroup) : CommentGroup :=
  match group with
  | [] => []
  | [c] =>
    if "/*".toList.isPrefixOf c.text.toList then formatGeneral c else lineGroup group c.pos
  | c :: _ => lineGroup group c.pos
where
  lineGroup (group : CommentGroup) (pos : Pos) : CommentGroup :=
    match proseOf group with
    | none => group
    | some (prose, directives) =>
      if prose.isEmpty then group
      else
        let prose := (linesOf (format prose)).map fun l => ⟨pos, String.ofList (lineComment l)⟩
        let tail := directives.map fun c => { c with pos := pos }
        prose ++ if directives.isEmpty then [] else ⟨pos, "//"⟩ :: tail

end Desugar.Host.Layout.Doc

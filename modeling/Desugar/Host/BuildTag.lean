import Desugar.Text.CharClass

/-!
# Build constraints

A comment at the head of a file may say under which tags the file is built, in a current form
(`//go:build` and an expression of tags) or in an older one (`// +build` and a table of tags).
-/
namespace Desugar.Host

inductive BuildTag where
  | tag (name : String)
  | not (x : BuildTag)
  | and (x y : BuildTag)
  | or (x y : BuildTag)
  deriving DecidableEq, Repr

namespace BuildTag

def currentMark : String := "//go:build"

/-- What follows a mark, which must be parted from it by blanks. -/
def afterMark (line : List Char) : Option (List Char) :=
  let line := Text.trimEnd line
  let rest := Text.trim line
  if line.length = rest.length && !line.isEmpty then none else some rest

/-- The expression of a constraint in the current form. -/
def current? (comment : String) : Option (List Char) :=
  let mark := currentMark.toList
  if mark.isPrefixOf comment.toList then afterMark (comment.toList.drop mark.length) else none

/-- The table of a constraint in the older form. -/
def older? (comment : String) : Option (List Char) :=
  match comment.toList with
  | '/' :: '/' :: rest =>
    let rest := Text.trim rest
    let mark := "+build".toList
    if mark.isPrefixOf rest then afterMark (rest.drop mark.length) else none
  | _ => none

inductive Lexeme where
  | word (s : List Char)
  | bang | both | either | opening | closing
  deriving DecidableEq, Repr

def isTagChar (c : Char) : Bool := Text.isLetter c || Text.isDigit c || c = '.'

def lexemes : (fuel : Nat) → List Char → Option (List Lexeme)
  | 0, _ => some []
  | _, [] => some []
  | fuel + 1, c :: rest =>
    if c = ' ' || c = '\t' then lexemes fuel rest
    else if c = '!' then (lexemes fuel rest).map (.bang :: ·)
    else if c = '(' then (lexemes fuel rest).map (.opening :: ·)
    else if c = ')' then (lexemes fuel rest).map (.closing :: ·)
    else if c = '&' && rest.head? = some '&' then (lexemes fuel rest.tail).map (.both :: ·)
    else if c = '|' && rest.head? = some '|' then (lexemes fuel rest.tail).map (.either :: ·)
    else if isTagChar c then
      let word := (c :: rest).takeWhile isTagChar
      (lexemes fuel ((c :: rest).drop word.length)).map (.word word :: ·)
    else none

mutual

def parseOr : (fuel : Nat) → List Lexeme → Option (BuildTag × List Lexeme)
  | 0, _ => none
  | fuel + 1, ls => do
    let (x, rest) ← parseAnd fuel ls
    moreOr fuel x rest

def moreOr : (fuel : Nat) → BuildTag → List Lexeme → Option (BuildTag × List Lexeme)
  | 0, _, _ => none
  | fuel + 1, x, .either :: rest => do
    let (y, rest) ← parseAnd fuel rest
    moreOr fuel (.or x y) rest
  | _ + 1, x, rest => some (x, rest)

def parseAnd : (fuel : Nat) → List Lexeme → Option (BuildTag × List Lexeme)
  | 0, _ => none
  | fuel + 1, ls => do
    let (x, rest) ← parseNot fuel ls
    moreAnd fuel x rest

def moreAnd : (fuel : Nat) → BuildTag → List Lexeme → Option (BuildTag × List Lexeme)
  | 0, _, _ => none
  | fuel + 1, x, .both :: rest => do
    let (y, rest) ← parseNot fuel rest
    moreAnd fuel (.and x y) rest
  | _ + 1, x, rest => some (x, rest)

def parseNot : (fuel : Nat) → List Lexeme → Option (BuildTag × List Lexeme)
  | 0, _ => none
  | _ + 1, .bang :: .bang :: _ => none
  | fuel + 1, .bang :: rest => do
    let (x, rest) ← parseNot fuel rest
    some (.not x, rest)
  | fuel + 1, .opening :: rest => do
    match ← parseOr fuel rest with
    | (x, .closing :: rest) => some (x, rest)
    | _ => none
  | _ + 1, .word s :: rest => some (.tag (String.ofList s), rest)
  | _ + 1, _ => none

end

/-- The most operands, parenthesised ones included, that an expression may have. -/
def maxOperands : Nat := 1000

def Lexeme.isOperand : Lexeme → Bool
  | .word _ | .opening => true
  | _ => false

/-- Reads an expression of the current form. -/
def parse? (text : List Char) : Option BuildTag := do
  let ls ← lexemes (text.length + 1) text
  guard (ls.countP Lexeme.isOperand ≤ maxOperands)
  match ← parseOr (4 * ls.length + 8) ls with
  | (x, []) => some x
  | _ => none

/-- One entry of a table of the older form; a malformed one stands for a tag that is never set. -/
def entry (s : List Char) : BuildTag :=
  let never := tag "ignore"
  let plain (s : List Char) := if !s.isEmpty && s.all isTagChar then tag (String.ofList s) else never
  match s with
  | ['!'] => never
  | '!' :: '!' :: _ => never
  | '!' :: s => not (plain s)
  | s => plain s

def joinBy (op : BuildTag → BuildTag → BuildTag) : List BuildTag → Option BuildTag
  | [] => none
  | x :: xs => some (xs.foldl op x)

/-- The most entries that a table may have. -/
def maxEntries : Nat := 101

/-- Reads a table of the older form: of its words one has to hold, in which all entries hold. -/
def parseOlder? (text : List Char) : Option BuildTag :=
  let words := (text.splitBy fun a b => Text.isSpace a == Text.isSpace b).filter
    fun w => !w.any Text.isSpace
  let table := words.map fun w => (w.splitOn ',').map entry
  if maxEntries < table.flatten.length then none
  else some ((joinBy or (table.filterMap (joinBy and))).getD (tag "ignore"))

def isAnd : BuildTag → Bool
  | and .. => true
  | _ => false

def isOr : BuildTag → Bool
  | or .. => true
  | _ => false

def parenthesised (needed : Bool) (s : String) : String := if needed then "(" ++ s ++ ")" else s

/-- The expression with the parentheses that it needs, and those between "and" and "or". -/
def render : BuildTag → String
  | tag name => name
  | not x => "!" ++ parenthesised (x.isAnd || x.isOr) x.render
  | and x y => parenthesised x.isOr x.render ++ " && " ++ parenthesised y.isOr y.render
  | or x y => parenthesised x.isAnd x.render ++ " || " ++ parenthesised y.isAnd y.render

/-- Negations moved down to the tags. -/
def pushNot (negate : Bool) : BuildTag → BuildTag
  | tag name => if negate then not (tag name) else tag name
  | not x => pushNot (!negate) x
  | and x y => if negate then or (pushNot negate x) (pushNot negate y)
    else and (pushNot negate x) (pushNot negate y)
  | or x y => if negate then and (pushNot negate x) (pushNot negate y)
    else or (pushNot negate x) (pushNot negate y)

def conjuncts : BuildTag → List BuildTag
  | and x y => conjuncts x ++ conjuncts y
  | x => [x]

def disjuncts : BuildTag → List BuildTag
  | or x y => disjuncts x ++ disjuncts y
  | x => [x]

def isEntry : BuildTag → Bool
  | tag _ | not _ => true
  | _ => false

/-- The constraint as comments of the older form. -/
def olderLines (x : BuildTag) : List String :=
  let split := (conjuncts (pushNot false x)).map fun c => (disjuncts c).map conjuncts
  if split.any fun ors => ors.any fun ands => ands.any fun e => !isEntry e then
    ["// +build error: expression too complex for // +build lines"]
  else
    let split := if split.all (·.length = 1) then [[split.flatten.flatten]] else split
    split.map fun ors =>
      "// +build" ++ String.join (ors.map fun ands => " " ++ ",".intercalate (ands.map render))

end BuildTag
end Desugar.Host

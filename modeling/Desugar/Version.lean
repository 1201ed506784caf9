import Desugar.Text.CharClass
import Desugar.Text.Quoted

/-!
# Versions

Semantic versions: three numbers, of which the last two may be left out, a pre-release and build
metadata. Metadata does not count in comparisons.
-/
namespace Desugar

structure Version where
  major : Nat
  minor : Nat
  patch : Nat
  /-- Identifiers after the hyphen, parted by points; empty for a release. -/
  pre : String
  build : String
  deriving DecidableEq, Repr, Inhabited

namespace Version

/-- Why a text is no version. -/
inductive Fault where
  | malformed
  | outOfRange (digits : String)
  | leadingZero
  deriving DecidableEq, Repr

def Fault.message : Fault → String
  | malformed => "Invalid Semantic Version"
  | outOfRange digits =>
    s!"Error parsing version segment: strconv.ParseUint: parsing {Text.quote digits}: value out of range"
  | leadingZero => "Version segment starts with 0"

def isIdentChar (c : Char) : Bool := c.isAlphanum || c = '-'

/-- Identifiers parted by points, and what follows; none if one of them is empty. -/
def identifiers : (fuel : Nat) → List Char → Option (List Char × List Char)
  | 0, _ => none
  | fuel + 1, cs =>
    let first := cs.takeWhile isIdentChar
    if first.isEmpty then none
    else match cs.drop first.length with
      | '.' :: rest =>
        match identifiers fuel rest with
        | some (more, rest) => some (first ++ '.' :: more, rest)
        | none => some (first, '.' :: rest)
      | rest => some (first, rest)

/-- Identifiers after a mark, if the mark is there. -/
def tail (mark : Char) (cs : List Char) : List Char × List Char :=
  match cs with
  | c :: rest =>
    if c = mark then (identifiers (rest.length + 1) rest).getD ([], cs) else ([], cs)
  | [] => ([], [])

/-- A number after a point, as its digits; empty if there is none. The class says what counts as a
digit. -/
def segment (isDigit : Char → Bool) (cs : List Char) : List Char × List Char :=
  match cs with
  | '.' :: rest =>
    let digits := rest.takeWhile isDigit
    if digits.isEmpty then ([], cs) else (digits, rest.drop digits.length)
  | _ => ([], cs)

/-- The parts of a version as they are written; numbers may be missing. -/
structure Parts where
  major : List Char
  minor : List Char
  patch : List Char
  pre : List Char
  build : List Char

/-- Reads the parts of a version off the front of a text. -/
def parts? (isDigit : Char → Bool) (cs : List Char) : Option (Parts × List Char) :=
  let cs := match cs with
    | 'v' :: rest => rest
    | _ => cs
  let major := cs.takeWhile isDigit
  if major.isEmpty then none
  else
    let (minor, rest) := segment isDigit (cs.drop major.length)
    let (patch, rest) := if minor.isEmpty then ([], rest) else segment isDigit rest
    let (pre, rest) := tail '-' rest
    let (build, rest) := tail '+' rest
    some (⟨major, minor, patch, pre, build⟩, rest)

/-- A number of at most 64 bits; a missing one is 0. -/
def number (digits : List Char) : Except Fault Nat :=
  let n := digits.foldl (fun n c => 10 * n + (c.toNat - '0'.toNat)) 0
  if n < Nat.pow 2 64 then .ok n else .error (.outOfRange (String.ofList digits))

/-- A numeric identifier with a zero before other digits. -/
def hasLeadingZero (identifier : List Char) : Bool :=
  1 < identifier.length && identifier.head? = some '0' && identifier.all Char.isDigit

/-- Reads a version. -/
def parse (text : String) : Except Fault Version := do
  match parts? Char.isDigit text.toList with
  | some (p, []) =>
    let major ← number p.major
    let minor ← number p.minor
    let patch ← number p.patch
    if (p.pre.splitOn '.').any hasLeadingZero then throw .leadingZero
    return ⟨major, minor, patch, String.ofList p.pre, String.ofList p.build⟩
  | _ => throw .malformed

def render (v : Version) : String :=
  s!"{v.major}.{v.minor}.{v.patch}" ++ (if v.pre = "" then "" else s!"-{v.pre}") ++
    (if v.build = "" then "" else s!"+{v.build}")

/-- Orders identifiers of pre-releases: numbers by value and before words, a missing one first. -/
def compareIdentifier (a b : List Char) : Ordering :=
  let number? (cs : List Char) : Option Nat :=
    if !cs.isEmpty && cs.all Char.isDigit then (number cs).toOption else none
  if a = b then .eq
  else if a.isEmpty then .lt
  else if b.isEmpty then .gt
  else match number? a, number? b with
    | none, none => if String.ofList b < String.ofList a then .gt else .lt
    | some _, none => .lt
    | none, some _ => .gt
    | some m, some n => if n < m then .gt else .lt

def compareIdentifiers : List (List Char) → List (List Char) → Ordering
  | [], [] => .eq
  | [], b :: bs => (compareIdentifier [] b).then (compareIdentifiers [] bs)
  | a :: as, [] => (compareIdentifier a []).then (compareIdentifiers as [])
  | a :: as, b :: bs => (compareIdentifier a b).then (compareIdentifiers as bs)

/-- A release comes after its pre-releases. -/
def comparePre (a b : String) : Ordering :=
  if a = "" && b = "" then .eq
  else if a = "" then .gt
  else if b = "" then .lt
  else compareIdentifiers (a.toList.splitOn '.') (b.toList.splitOn '.')

def cmp (a b : Version) : Ordering :=
  ((compare a.major b.major).then (compare a.minor b.minor)).then
    ((compare a.patch b.patch).then (comparePre a.pre b.pre))

end Version
/-!
## Constraints on versions

A constraint is a list of alternatives; in each of them all comparisons have to hold. A comparison
has an operator and a version of which numbers may be left open.
-/
namespace Version

/-- Operators of comparisons. -/
inductive Operator where
  | equal | notEqual | greater | less | greaterEqual | lessEqual | tilde | caret
  deriving DecidableEq, Repr

/-- Spellings of operators, longer ones first. -/
def Operator.spellings : List (List Char × Operator) :=
  [(['!', '='], notEqual), (['>', '='], greaterEqual), (['=', '>'], greaterEqual),
   (['<', '='], lessEqual), (['=', '<'], lessEqual), (['~', '>'], tilde),
   (['='], equal), (['>'], greater), (['<'], less), (['~'], tilde), (['^'], caret)]

structure Comparison where
  operator : Operator
  version : Version
  /-- The version as it is written, where numbers may be open. -/
  written : String
  /-- Some number is left open. -/
  isOpen : Bool
  minorOpen : Bool
  patchOpen : Bool
  deriving Repr

/-- Why a version does not satisfy a comparison. -/
inductive Refusal where
  | preRelease
  | equal | unequal | less | lessEqual | greater | greaterEqual
  | otherMajor | otherMinor | otherMajorMinor
  /-- Below version 1 the minor numbers have to agree. -/
  | otherMinorBelowOne
  /-- Below version 0.1 the versions have to agree. -/
  | otherPatch
  deriving DecidableEq, Repr

/-- What is said of a version and of how the one that it is compared with is written. -/
def Refusal.message (v : Version) (written : String) : Refusal → String
  | preRelease => s!"{v.render} is a prerelease version and the constraint is only looking for release versions"
  | equal => s!"{v.render} is equal to {written}"
  | unequal => s!"{v.render} is not equal to {written}"
  | less => s!"{v.render} is less than {written}"
  | lessEqual => s!"{v.render} is less than or equal to {written}"
  | greater => s!"{v.render} is greater than {written}"
  | greaterEqual => s!"{v.render} is greater than or equal to {written}"
  | otherMajor => s!"{v.render} does not have same major version as {written}"
  | otherMinor => s!"{v.render} does not have same minor version as {written}"
  | otherMajorMinor => s!"{v.render} does not have same major and minor version as {written}"
  | otherMinorBelowOne =>
    s!"{v.render} does not have same minor version as {written}. " ++
      "Expected minor versions to match when constraint major version is 0"
  | otherPatch =>
    s!"{v.render} does not equal {written}. " ++
      "Expect version and constraint to equal when major and minor versions are 0"

/-- What the numbers that a comparison leaves fixed have against a version. -/
def Comparison.refusesRelease? (c : Comparison) (v : Version) : Option Refusal :=
  let w := c.version
  let order := v.cmp w
  match c.operator with
  | .equal => if c.isOpen then tilde else if order = .eq then none else some .unequal
  | .notEqual =>
    if !c.isOpen then if order = .eq then some .equal else none
    else if w.major ≠ v.major then none
    else if w.minor ≠ v.minor && !c.minorOpen then none
    else if c.minorOpen then some .equal
    else if w.patch ≠ v.patch && !c.patchOpen then none
    else if c.patchOpen then
      if (v.pre ≠ "" || w.pre ≠ "") &&
        compareIdentifiers (v.pre.toList.splitOn '.') (w.pre.toList.splitOn '.') ≠ .eq then none
      else some .equal
    else if order = .eq then some .equal else none
  | .greater =>
    if !c.isOpen then if order = .gt then none else some .lessEqual
    else if v.major ≠ w.major then if w.major < v.major then none else some .lessEqual
    else if c.minorOpen then some .lessEqual
    else if c.patchOpen then if w.minor < v.minor then none else some .lessEqual
    else if order = .gt then none else some .lessEqual
  | .less => if order = .lt then none else some .greaterEqual
  | .greaterEqual => if order = .lt then some .less else none
  | .lessEqual =>
    if !c.isOpen then if order = .gt then some .greater else none
    else if w.major < v.major || (v.major = w.major && w.minor < v.minor && !c.minorOpen) then some .greater
    else none
  | .tilde => tilde
  | .caret =>
    if order = .lt then some .less
    else if 0 < w.major || c.minorOpen then if v.major = w.major then none else some .otherMajor
    else if 0 < v.major then some .otherMajor
    else if 0 < w.minor || c.patchOpen then if v.minor = w.minor then none else some .otherMinorBelowOne
    else if 0 < v.minor then some .otherMinor
    else if v.patch = w.patch then none else some .otherPatch
where
  /-- At least the version given, with the same major number and, unless it is open, the same minor
  one; any version if the one given is zero throughout. -/
  tilde : Option Refusal :=
    let w := c.version
    if v.cmp w = .lt then some .less
    else if w.major = 0 && w.minor = 0 && w.patch = 0 && !c.minorOpen && !c.patchOpen then none
    else if v.major ≠ w.major then some .otherMajor
    else if v.minor ≠ w.minor && !c.minorOpen then some .otherMajorMinor
    else none

/-- Whether a version is a pre-release and the comparison does not ask for one. -/
def Comparison.refusesPre (c : Comparison) (v : Version) : Bool := v.pre ≠ "" && c.version.pre = ""

/-- What a comparison has against a version. A pre-release satisfies only comparisons that ask for
pre-releases, inequality with one version apart. -/
def Comparison.refuses? (c : Comparison) (v : Version) : Option Refusal :=
  let exempt := c.operator = .notEqual && !c.isOpen
  if !exempt && c.refusesPre v then some .preRelease else c.refusesRelease? v

/-- Like `refuses?`, with no exemption for pre-releases. -/
def Comparison.rejects? (c : Comparison) (v : Version) : Option Refusal :=
  if c.refusesPre v then some .preRelease else c.refuses? v

/-- Alternatives, of each of which all comparisons have to hold. -/
abbrev Constraint := List (List Comparison)

namespace Constraint

def holds (c : Constraint) (v : Version) : Bool := c.any (·.all fun x => (x.refuses? v).isNone)

/-- Like `holds`, with no exemption for pre-releases. -/
def accepts (c : Constraint) (v : Version) : Bool := c.any (·.all fun x => (x.rejects? v).isNone)

/-- The first of the reasons for which a version is not accepted. -/
def reason? (c : Constraint) (v : Version) : Option String :=
  c.flatten.findSome? fun x => (x.rejects? v).map (·.message v x.written)

/-- Why a text is no constraint. -/
inductive Fault where
  | improper (segment : String)
  | unreadable
  deriving DecidableEq, Repr

def Fault.message : Fault → String
  | improper segment => s!"improper constraint: {segment}"
  | unreadable => "constraint Parser Error"

def isBlank (c : Char) : Bool := c = ' ' || c = '\t' || c = '\n' || c = '\x0c' || c = '\r'

def skip (cs : List Char) : List Char := cs.dropWhile isBlank

/-- Characters of a number that may be open. -/
def isOpenDigit (c : Char) : Bool :=
  c.isDigit || c = '|' || c = 'x' || c = 'X' || c = '*'

/-- Whether a number is left out or left open. -/
def isOpenNumber (digits : List Char) : Bool :=
  digits = [] || digits = ['x'] || digits = ['X'] || digits = ['*']

def operator (cs : List Char) : Operator × List Char :=
  match Operator.spellings.find? fun s => s.1.isPrefixOf cs with
  | some (s, op) => (op, cs.drop s.length)
  | none => (.equal, cs)

/-- A version at the front of a text, of which numbers may be open: how it is written, its parts, and what
follows. -/
def openVersion? (cs : List Char) : Option ((List Char × Parts) × List Char) :=
  (parts? isOpenDigit cs).map fun (p, rest) => ((cs.take (cs.length - rest.length), p), rest)

/-- The comparison that an operator and a version as it is written make. -/
def comparison (op : Operator) (written : List Char) (p : Parts) : Except Fault Comparison :=
  let zero : List Char := ['0']
  let (major, minor, patch, build, isOpen, minorOpen, patchOpen) :=
    if isOpenNumber p.major then (zero, zero, zero, [], true, false, false)
    else if isOpenNumber p.minor then (p.major, zero, zero, [], true, true, false)
    else if isOpenNumber p.patch then (p.major, p.minor, zero, [], true, false, true)
    else (p.major, p.minor, p.patch, p.build, false, false, false)
  let pre := if p.pre.isEmpty then [] else '-' :: p.pre
  let build := if build.isEmpty then [] else '+' :: build
  match parse (String.ofList (major ++ '.' :: minor ++ '.' :: patch ++ pre ++ build)) with
  | .ok version =>
    .ok { operator := op, version, written := String.ofList written, isOpen, minorOpen, patchOpen }
  | .error _ => .error .unreadable

/-- Comparisons parted by blanks or commas; none if the text is anything else. -/
def pairs : (fuel : Nat) → List Char → Option (List (Operator × List Char × Parts))
  | 0, _ => none
  | fuel + 1, cs => do
    let (op, rest) := operator (skip cs)
    let (p, rest) ← openVersion? (skip rest)
    match skip rest with
    | [] => some [(op, p)]
    | ',' :: rest => return (op, p) :: (← pairs fuel rest)
    | next => if next.length < rest.length then return (op, p) :: (← pairs fuel next) else none

/-- One alternative. -/
def alternative (segment : List Char) : Except Fault (List Comparison) :=
  match pairs (segment.length + 1) segment with
  | none => .error (.improper (String.ofList segment))
  | some ps => ps.mapM fun (op, written, p) => comparison op written p

/-- A range `a - b` at the front of a text: its ends as they are written, and what follows. -/
def range? (cs : List Char) : Option (List Char × List Char × List Char) := do
  let ((low, _), rest) ← openVersion? (skip cs)
  match skip rest with
  | '-' :: next =>
    let second := skip next
    if (skip rest).length = rest.length || second.length = next.length then none
    else
      let ((high, _), after) ← openVersion? second
      some (low, high, skip after)
  | _ => none

/-- Writes ranges as pairs of comparisons. -/
def spellOutRanges : (fuel : Nat) → List Char → List Char
  | 0, cs => cs
  | _, [] => []
  | fuel + 1, c :: cs =>
    match range? (c :: cs) with
    | some (low, high, rest) =>
      ">= ".toList ++ low ++ ", <= ".toList ++ high ++ ' ' :: spellOutRanges fuel rest
    | none => c :: spellOutRanges fuel cs

/-- The parts of a text between doubled bars. -/
def alternatives : List Char → List (List Char)
  | [] => [[]]
  | '|' :: '|' :: rest => [] :: alternatives rest
  | c :: rest =>
    match alternatives rest with
    | [] => [[c]]
    | s :: more => (c :: s) :: more

def parse (text : String) : Except Fault Constraint :=
  (alternatives (spellOutRanges (text.length + 1) text.toList)).mapM alternative

end Constraint
end Version

end Desugar

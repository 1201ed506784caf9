import Desugar.Version

/-!
# Versions of modules

A module's version starts with `v`; minor and patch numbers may be left out and are then zero. Its major
number has to go with the end of the module's path.
-/
namespace Desugar.Module

/-- A version as it is written, taken apart. -/
structure Parsed where
  major : List Char
  minor : List Char
  patch : List Char
  /-- The pre-release with its hyphen. -/
  pre : List Char
  /-- Build metadata with its plus sign. -/
  build : List Char
  deriving DecidableEq, Repr

/-- A number without leading zeros. -/
def number? (cs : List Char) : Option (List Char × List Char) :=
  let digits := cs.takeWhile Char.isDigit
  if digits.isEmpty || (1 < digits.length && digits.head? = some '0') then none
  else some (digits, cs.drop digits.length)

/-- Identifiers parted by points, none of them empty. -/
def areIdentifiers (cs : List Char) : Bool :=
  (cs.splitOn '.').all fun i => !i.isEmpty && i.all Version.isIdentChar

namespace Parsed

/-- Takes a version apart. -/
def ofText? (text : String) : Option Parsed := do
  match text.toList with
  | 'v' :: rest =>
    let (major, rest) ← number? rest
    match rest with
    | [] => return ⟨major, ['0'], ['0'], [], []⟩
    | '.' :: rest =>
      let (minor, rest) ← number? rest
      match rest with
      | [] => return ⟨major, minor, ['0'], [], []⟩
      | '.' :: rest =>
        let (patch, rest) ← number? rest
        let front := rest.takeWhile (· ≠ '+')
        let build := rest.drop front.length
        let preOk := match front with
          | [] => true
          | '-' :: ids => areIdentifiers ids && !(ids.splitOn '.').any Version.hasLeadingZero
          | _ => false
        let buildOk := match build with
          | [] => true
          | _ :: ids => areIdentifiers ids
        if preOk && buildOk then return ⟨major, minor, patch, front, build⟩ else none
      | _ => none
    | _ => none
  | _ => none

def majorName (p : Parsed) : String := String.ofList ('v' :: p.major)

def isIncompatible (p : Parsed) : Bool := p.build = "+incompatible".toList

/-- The version with all its numbers, and without build metadata that means nothing. -/
def canonical (p : Parsed) : String :=
  String.ofList ('v' :: p.major ++ '.' :: p.minor ++ '.' :: p.patch ++ p.pre ++
    if p.isIncompatible then p.build else [])

end Parsed

/-- The major number at the end of a path, with the mark before it; none if the path ends wrongly. -/
def pathMajor? (path : String) : Option (List Char) :=
  let cs := path.toList
  if "gopkg.in/".toList.isPrefixOf cs then
    let unstable := "-unstable".toList
    let stem := if unstable.isSuffixOf cs then cs.take (cs.length - unstable.length) else cs
    let digits := (stem.reverse.takeWhile Char.isDigit).reverse
    let front := stem.take (stem.length - digits.length)
    if !(['.', 'v'].isSuffixOf front) || digits.isEmpty && stem.length = cs.length then none
    else if digits.head? = some '0' && digits ≠ ['0'] then none
    else if digits = ['0'] && stem.length ≠ cs.length then none
    else some (['.', 'v'] ++ digits ++ cs.drop stem.length)
  else
    let tail := (cs.reverse.takeWhile fun c => c.isDigit || c = '.').reverse
    let front := cs.take (cs.length - tail.length)
    if tail.isEmpty || !(['/', 'v'].isSuffixOf front) then some []
    else if tail.contains '.' || tail.head? = some '0' || tail = ['1'] then none
    else some (['/', 'v'] ++ tail)

/-- What the major number of a version should have been, if it does not go with the path. -/
def wrongMajor? (p : Parsed) (pathMajor : List Char) : Option String :=
  let unstable := "-unstable".toList
  let pathMajor := if pathMajor.head? = some '.' && unstable.isSuffixOf pathMajor then
    pathMajor.take (pathMajor.length - unstable.length) else pathMajor
  if "v0.0.0-".toList.isPrefixOf p.canonical.toList && pathMajor = ".v1".toList then none
  else match pathMajor with
    | [] =>
      if p.majorName = "v0" || p.majorName = "v1" || p.isIncompatible then none
      else some "v0 or v1"
    | _ :: wanted =>
      if p.majorName.toList = wanted then none else some (String.ofList wanted)

end Desugar.Module

import Desugar.Form.Conditional
import Desugar.Host.Parse.File
import Desugar.Host.Walk
import Desugar.Typing.Package

/-!
# Conditionals without a form
-/

/-!
## Lowering conditionals

A conditional is left as a call of a placeholder until the type of its branches is known. It is then
replaced by a function that evaluates only the branch that is chosen.
-/
namespace Desugar

open Host (Expr File)

/-- The bytes of a text from an offset up to another. -/
structure Extent where
  start : Nat
  stop : Nat
  deriving DecidableEq, Repr, Inhabited

def Extent.of (e : Expr) : Extent := ⟨e.pos - 1, e.stop - 1⟩

/-- A placeholder call `placeholder(number, result, alternative)(condition)`. -/
structure Placeholder where
  /-- The number of the conditional, or 0 if none is written. -/
  number : Nat
  /-- Where the call of the placeholder itself is closed. -/
  closing : Host.Pos
  call : Extent
  condition : Extent
  result : Extent
  alternative : Extent
  deriving DecidableEq, Repr, Inhabited

namespace Placeholder

/-- The number that a literal writes with digits only. -/
def numberOf : Expr → Nat
  | .literal l =>
    let cs := l.value.toList
    if cs.all Char.isDigit then cs.foldl (fun n c => 10 * n + (c.toNat - '0'.toNat)) 0 else 0
  | _ => 0

def ofExpr? (e : Expr) : Option Placeholder :=
  match e with
  | .call (.call (.ident name) _ [number, result, alternative] _ closing) _ [condition] _ _ =>
    if name.name = Form.placeholder then
      some
        { number := numberOf number, closing, call := .of e, condition := .of condition
          result := .of result, alternative := .of alternative }
    else none
  | _ => none

/-- The placeholders of a file in the order of the source, outer ones before those in them. -/
def collect (f : File) : List Placeholder := f.exprs.filterMap ofExpr?

end Placeholder

/-- A placeholder with the text of the type of its branches. -/
abbrev Typed := Placeholder × String

namespace Lowering

/-- The function in the place of a placeholder, given how its parts are replaced. -/
def function (inner : Extent → Bytes) (p : Placeholder) (type : String) : Bytes :=
  Text.utf8 s!"func() {type} \x7b if " ++ inner p.condition ++ Text.utf8 " \x7b return " ++
    inner p.result ++ Text.utf8 " \x7d; return " ++ inner p.alternative ++ Text.utf8 " \x7d()"

/-- The text from an offset up to `stop`, given the placeholders that are still to be looked at. Those
that start before the offset or reach beyond `stop` are left alone. -/
def pieces (source : Bytes) (inner : Extent → Bytes) (stop : Nat) :
    List Typed → (offset : Nat) → Bytes
  | [], offset => Text.slice source offset stop
  | (p, type) :: rest, offset =>
    if p.call.start < offset || stop < p.call.stop then pieces source inner stop rest offset
    else
      Text.slice source offset p.call.start ++ function inner p type ++
        pieces source inner stop rest p.call.stop

/-- A part of a text with the placeholders in it replaced down to a depth. -/
def text (source : Bytes) (all : List Typed) : (depth : Nat) → (part : Extent) → Bytes
  | 0, part => Text.slice source part.start part.stop
  | depth + 1, part => pieces source (text source all depth) part.stop all part.start

/-- A text with all placeholders replaced. Those in the parts of a placeholder lie deeper than it, so
there are not more levels than placeholders. -/
def whole (source : Bytes) (all : List Typed) : Bytes :=
  text source all (all.length + 1) ⟨0, source.length⟩

end Lowering
end Desugar

/-!
## Types of branches

The placeholder is declared as a generic function of its branches, so that the type of a conditional is
what inference finds for the call of its placeholder.
-/
namespace Desugar

open Typing (Ty Tables TypeError Checked)
open Host (File LineTable Spec)

namespace Branch

/-- The name of the file that declares the placeholder. -/
def declarationFile : String := "gosugar_cond.go"

/-- The declaration of the placeholder in a package. -/
def declaration (package : String) : Bytes :=
  Text.utf8
    s!"package {package}\n\nfunc {Form.placeholder}[T any](int, T, T) func(bool) T \x7b panic(0) \x7d\n"

/-- The type of the branches of a conditional. -/
def type? (c : Checked) (p : Placeholder) : Option Ty :=
  match c.calls.lookup p.closing with
  | some (.func _ _ [(_, ty)] _) =>
    match ty with
    | .basic .invalid | .basic .untypedNil => none
    | ty => some ty.default
  | _ => none

/-- Paths of imports with their local names, empty where the package's name is used. The last of two
imports of one path comes first. -/
def importNames (f : File) : List (String × String) :=
  (f.imports.filterMap fun
    | .imports _ name path _ _ =>
      let word := (name.map Host.Ident.name).getD ""
      if word = "_" then none else some (Typing.importPath path, word)
    | _ => none).reverse

/-- How a package is named in front of what it declares. -/
def qualifier (t : Tables) (names : List (String × String)) (package : Nat) : String :=
  if package = Tables.ownPackage then ""
  else
    let info := t.packageInfo package
    match names.lookup info.path with
    | some "." => ""
    | some "" | none => info.name
    | some name => name

/-- Paths that a type's text needs and that are not imported, without repetition. -/
def missingImports (t : Tables) (names : List (String × String)) (tys : List Ty) : List String :=
  let paths := (tys.flatMap t.packagesOf).filterMap fun p =>
    let path := (t.packageInfo p).path
    if p = Tables.ownPackage || (names.lookup path).isSome then none else some path
  paths.eraseDups

/-- The first error of the check inside of a conditional. -/
def hint (files : Array LineTable) (c : Checked) (p : Placeholder) : String :=
  let inside (e : TypeError) : Bool :=
    e.file = 0 && p.call.start ≤ e.pos - 1 && e.pos - 1 < p.call.stop
  match (TypeError.shown files c.errors).find? inside with
  | some e => ": " ++ e.render files
  | none => ""

/-- Whether a part of a type is wrong. -/
def isWrong (text : String) : Bool := Text.contains (Text.utf8 Typing.Basic.invalid.name) (Text.utf8 text)

end Branch
end Desugar

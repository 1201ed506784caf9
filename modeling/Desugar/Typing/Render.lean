import Desugar.Typing.Type

/-!
# Types as text
-/
namespace Desugar.Typing

open Host (ChanDir)

namespace Tables

/-- A declared name behind that of its package. -/
def qualified (qualify : Nat → String) (package : Option Nat) (name : String) : String :=
  match (package.map qualify).getD "" with
  | "" => name
  | p => p ++ "." ++ name

/-- What texts of types depend on. -/
structure Wording where
  tables : Tables
  /-- How a package is named. -/
  qualify : Nat → String
  /-- The text of a type parameter's constraint. -/
  bound : Nat → String

/-- Type parameters with their constraints; one constraint stands behind all names that share it. -/
def Wording.params (w : Wording) : List Nat → String
  | [] => ""
  | [p] => (w.tables.paramInfo p).name ++ " " ++ w.bound p
  | p :: q :: rest =>
    (w.tables.paramInfo p).name ++ (if w.bound p = w.bound q then "" else " " ++ w.bound p) ++ ", " ++
      w.params (q :: rest)

def Wording.paramList (w : Wording) (ps : List Nat) : String :=
  if ps.isEmpty then "" else "[" ++ w.params ps ++ "]"

/-- Whether an element of a channel stands between parentheses. -/
def parenthesizes : ChanDir → Ty → Bool
  | .both, .chan .recv _ => true
  | _, _ => false

/-- Whether results are one type without a name. -/
def isLoneResult : List (Member × Ty) → Bool
  | [(r, _)] => r.name = ""
  | _ => false

/-- A text without its first characters. -/
def dropChars (n : Nat) (s : String) : String := String.ofList (s.toList.drop n)

mutual

/-- A type as text. -/
def renderWith (w : Wording) : Ty → String
  | .basic b =>
    if b = .unsafePointer then qualified w.qualify (some unsafePackage) b.name else b.name
  | .named id args =>
    let n := w.tables.namedInfo id
    let list := renderAll w "," args
    qualified w.qualify n.package n.name ++
      if args.isEmpty then w.paramList n.tparams else "[" ++ list ++ "]"
  | .alias id args =>
    let a := w.tables.aliasInfo id
    let list := renderAll w "," args
    qualified w.qualify a.package a.name ++
      if args.isEmpty then w.paramList a.tparams else "[" ++ list ++ "]"
  | .param id => (w.tables.paramInfo id).name
  | .pointer ty => "*" ++ renderWith w ty
  | .slice ty => "[]" ++ renderWith w ty
  | .array n ty => "[" ++ ((n.map Nat.repr).getD "-1") ++ "]" ++ renderWith w ty
  | .map k v => "map[" ++ renderWith w k ++ "]" ++ renderWith w v
  | .chan d ty =>
    let inner := renderWith w ty
    if parenthesizes d ty then d.word ++ "(" ++ inner ++ ")" else d.word ++ inner
  | .struct fields => "struct\x7b" ++ renderFields w fields ++ "\x7d"
  | .func tparams params results variadic =>
    let out := renderVars w false results
    "func" ++ w.paramList tparams ++ "(" ++ renderVars w variadic params ++ ")" ++
      if results.isEmpty then "" else if isLoneResult results then " " ++ out else " (" ++ out ++ ")"
  | .iface methods embeds implicit =>
    let first := renderMethods w methods
    let second := renderAll w "; " embeds
    if implicit && methods.isEmpty then (if embeds.isEmpty then "any" else second)
    else
      let between := if methods.isEmpty || embeds.isEmpty then "" else "; "
      "interface\x7b" ++ first ++ between ++ second ++ "\x7d"
  | .tilde ty => "~" ++ renderWith w ty
  | .union terms => renderAll w " | " terms
  | .tuple ts => "(" ++ renderVars w false ts ++ ")"

def renderAll (w : Wording) (separator : String) : List Ty → String
  | [] => ""
  | t :: ts => renderWith w t ++ (if ts.isEmpty then "" else separator) ++ renderAll w separator ts

def renderFields (w : Wording) : List (Member × Ty) → String
  | [] => ""
  | (f, ty) :: rest =>
    (if f.embedded then "" else f.name ++ " ") ++ renderWith w ty ++
      (if f.tag = "" then "" else " " ++ Text.quote f.tag) ++
      (if rest.isEmpty then "" else "; ") ++ renderFields w rest

/-- Parameters or results; the last of `variadic` ones, a slice, is shown by its elements. -/
def renderVars (w : Wording) (variadic : Bool) : List (Member × Ty) → String
  | [] => ""
  | (v, ty) :: rest =>
    let whole := renderWith w ty
    (if v.name = "" then "" else v.name ++ " ") ++
      (if variadic && rest.isEmpty then "..." ++ dropChars 2 whole else whole) ++
      (if rest.isEmpty then "" else ", ") ++ renderVars w variadic rest

def renderMethods (w : Wording) : List (Member × Ty) → String
  | [] => ""
  | (m, ty) :: rest =>
    m.name ++ dropChars 4 (renderWith w ty) ++ (if rest.isEmpty then "" else "; ") ++
      renderMethods w rest

end

mutual

/-- The packages that a type's text names, in its order. -/
def packagesOf (t : Tables) : Ty → List Nat
  | .basic b => if b = .unsafePointer then [unsafePackage] else []
  | .named id args => (t.namedInfo id).package.toList ++ packagesOfAll t args
  | .alias id args => (t.aliasInfo id).package.toList ++ packagesOfAll t args
  | .param _ => []
  | .pointer ty => packagesOf t ty
  | .slice ty => packagesOf t ty
  | .array _ ty => packagesOf t ty
  | .map k v => packagesOf t k ++ packagesOf t v
  | .chan _ ty => packagesOf t ty
  | .struct fields => packagesOfMembers t fields
  | .func _ params results _ => packagesOfMembers t params ++ packagesOfMembers t results
  | .iface methods embeds _ => packagesOfMembers t methods ++ packagesOfAll t embeds
  | .tilde ty => packagesOf t ty
  | .union terms => packagesOfAll t terms
  | .tuple ts => packagesOfMembers t ts

def packagesOfAll (t : Tables) : List Ty → List Nat
  | [] => []
  | ty :: tys => packagesOf t ty ++ packagesOfAll t tys

def packagesOfMembers (t : Tables) : List (Member × Ty) → List Nat
  | [] => []
  | (_, ty) :: rest => packagesOf t ty ++ packagesOfMembers t rest

end

/-- A type as text; packages are named by `qualify`. Constraints of type parameters inside of
constraints are left out. -/
def render (t : Tables) (qualify : Nat → String) (ty : Ty) : String :=
  let inner : Wording := { tables := t, qualify, bound := fun _ => "" }
  renderWith { inner with bound := fun id => renderWith inner (t.paramInfo id).constraint } ty

end Tables
end Desugar.Typing

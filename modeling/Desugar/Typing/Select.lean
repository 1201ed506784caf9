import Desugar.Typing.TypeExpr

/-!
# Names and selectors
-/
namespace Desugar.Typing

open Host (Expr Ident)

namespace Judge

/-- What a name stands for as an operand. -/
def objectOperand (e : Expr) (id : Nat) : Check Operand := do
  let o ← objectAt id
  let ty := o.type.getD .invalid
  let isInvalid := (← tables).isInvalid ty
  match o.entity with
  | .package _ =>
    report e.pos s!"use of package {o.name} not in selector"
    return .invalid e
  | .const v => return if isInvalid then .invalid e else { mode := .const v, expr := e, type := ty }
  | .iota =>
    match (← env).iota with
    | some n => return { mode := .const (.int n), expr := e, type := ty }
    | none =>
      report e.pos "cannot use iota outside constant declaration"
      return .invalid e
  | .type => return .ofType e ty
  | .var =>
    markUsed id
    return if isInvalid then .invalid e else { mode := .var, expr := e, type := ty }
  | .func => return .ofValue e ty
  | .builtin b => return { mode := .builtin b, expr := e, type := .invalid }
  | .nil => return .ofValue e (.basic .untypedNil)

def ident (j : Judge) (i : Ident) : Check Operand := do
  let e := Expr.ident i
  match ← lookup i.name with
  | none =>
    report i.pos (if i.name = "_" then "cannot use _ as value or type" else s!"undefined: {i.name}")
    return .invalid e
  | some id =>
    if (← objectAt id).type.isNone then j.object id
    objectOperand e id

/-- The package that an expression names. -/
def packageName? (e : Expr) : Check (Option Nat) := do
  match e with
  | .ident i =>
    match ← lookup i.name with
    | some id =>
      match (← objectAt id).entity with
      | .package p => return some p
      | _ => return none
    | none => return none
  | _ => return none

/-- A member that a package exports under a name which differs only in the case of its letters; of
several the first in order. -/
def similarMember (package : Nat) (name : String) : Check (Option String) := do
  let scope := ((← tables).packageInfo package).scope
  let names := ((((← get).scopes[scope]?).map Scope.names).getD []).map (·.1)
  let similar := names.filter fun n => isExported n && n.toLower = name.toLower
  return (similar.mergeSort (· ≤ ·)).head?

/-- A member of a package. -/
def qualified (j : Judge) (e : Expr) (package : Nat) (sel : Ident) : Check Operand := do
  let info := (← tables).packageInfo package
  match ← packageMember package sel.name with
  | none =>
    if !info.isFake then
      let source := e.summary
      let similar := (← similarMember package sel.name).elim "" fun n => s!" (but have {n})"
      report sel.pos s!"undefined: {source}{similar}"
    return .invalid e
  | some id =>
    if !isExported sel.name then
      report sel.pos s!"name {sel.name} not exported by package {info.name}"
    if (← objectAt id).type.isNone then j.object id
    objectOperand e id

/-- A method as a function of its receiver, which has a name only if the parameters have. -/
def methodExpr (e : Expr) (word : String) (receiver : Ty) (method : Ty) : Operand :=
  match method with
  | .func tparams params results variadic =>
    let isNamed := params.head?.any fun p => p.1.name ≠ ""
    let name := if !isNamed then "" else if word = "" then "_" else word
    .ofValue e (.func tparams (({ name }, receiver) :: params) results variadic)
  | _ => .invalid e

/-- The name of a method's receiver. -/
def receiverWord : Selected → Check String
  | .method id _ => do
    match (← objectAt id).source with
    | .func (some (.mk _ (f :: _) _)) _ _ =>
      return (f.names.head?.map Ident.name).getD ""
    | _ => return ""
  | _ => return ""

def selector (j : Judge) (e : Expr) (operand : Expr) (sel : Ident) : Check Operand := do
  if sel.name = "_" then
    report sel.pos "cannot refer to blank field or method"
    return .invalid e
  match ← packageName? operand with
  | some p => return ← j.qualified e p sel
  | none => pure ()
  let x ← j.exprOrType operand false
  match x.mode with
  | .invalid => return .invalid e
  | .builtin _ =>
    let text ← operandText x
    report x.pos s!"invalid use of {text} in selector expression"
    return .invalid e
  | _ => pure ()
  let t ← tables
  let package := (← env).package
  let isVar := match x.mode with
    | .var => true
    | _ => false
  match (← get).search false sel.name package isVar x.type with
  | .found s indirect =>
    let ty ← j.methodType s
    match s with
    | .field .. =>
      if x.mode.isType then
        let text ← typeText x.type
        report sel.pos s!"operand for field selector {sel.name} must be value of type {text}"
        return .invalid e
      return { mode := if isVar || indirect then .var else .value, expr := e, type := ty }
    | _ =>
      if x.mode.isType then
        return methodExpr e (← receiverWord s) x.type ty
      return .ofValue e ty
  | failed =>
    if (t.under x.type).isInvalid then return .invalid e
    let source := x.expr.summary
    let text ← typeText x.type
    match failed with
    | .ambiguous => report sel.pos s!"ambiguous selector {source}.{sel.name}"
    | .needsPointer =>
      report sel.pos (if x.mode.isType then
          s!"invalid method expression {text}.{sel.name} (needs pointer receiver (*{text}).{sel.name})"
        else s!"cannot call pointer method {sel.name} on {text}")
    | _ =>
      let similar := ((← get).search true sel.name package isVar x.type).selected?
      let why ← if t.isInterfacePointer x.type then interfacePointerText x.type
        else lookupText x.type sel.name similar false
      report sel.pos s!"{source}.{sel.name} undefined ({why})"
    return .invalid e

/-- The type of an expression that must denote one; generic types lack their type arguments. -/
def typeExpr (j : Judge) (e : Expr) : Check Ty := do
  match e with
  | .ident i => j.namedType i
  | .paren _ x _ => j.type x
  | .selector x sel =>
    match ← packageName? x with
    | some p =>
      let operand ← j.qualified e p sel
      match operand.mode with
      | .type => return operand.type
      | .invalid => return .invalid
      | _ => notAType e (← operandText operand)
    | none =>
      let operand ← j.exprOrType x false
      if operand.isInvalid then return .invalid
      notAType e e.summary
  | .index x _ indices _ =>
    let generic ← match x.unparen with
      | .ident i => j.namedType i
      | .selector y sel =>
        match ← packageName? y with
        | some p =>
          let operand ← j.qualified x p sel
          if operand.isInvalid then pure .invalid
          else if operand.mode.isType then pure operand.type
          else notAType x x.summary
        | none => notAType x x.summary
      | x => notAType x x.summary
    j.instantiate generic x indices
  | .star _ x =>
    let base ← j.varType x
    return if (← tables).isInvalid base then .invalid else .pointer base
  | .arrayType _ len elt =>
    match len with
    | none => return .slice (← j.varType elt)
    | some (.ellipsis pos _) =>
      report pos "invalid use of [...] array (outside a composite literal)"
      discard <| j.varType elt
      return .invalid
    | some n =>
      let length ← j.arrayLength n
      let elem ← j.varType elt
      return if length.isNone then .invalid else .array length elem
  | .structType _ l => return .struct (← j.fields l)
  | .funcType t => return (← j.signature none t).1
  | .interfaceType _ l => j.interface l
  | .mapType _ key value =>
    let k ← j.varType key
    let v ← j.varType value
    later (.mapKey key k)
    return .map k v
  | .chanType _ _ dir value => return .chan dir (← j.varType value)
  | .ellipsis pos _ =>
    report pos "invalid use of ..."
    return .invalid
  | .bad .. => return .invalid
  | e => notAType e e.summary

/-- The type of an expression that must denote one; a generic type needs its type arguments. -/
def wholeType (j : Judge) (e : Expr) : Check Ty := do
  let ty ← j.typeExpr e
  let t ← tables
  match ty with
  | .named .. | .alias .. =>
    if t.isGeneric ty then
      let text ← typeText ty
      report e.pos s!"cannot use generic type {text} without instantiation"
      return .invalid
    return ty
  | ty => return ty

end Judge
end Desugar.Typing

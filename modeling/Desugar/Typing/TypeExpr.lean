import Desugar.Typing.Convert
import Desugar.Typing.Library

/-!
# Type expressions

The types that expressions denote, and the signatures of functions with the scopes of their parameters.
-/
namespace Desugar.Typing

open Host (Expr Field FieldList FuncType Ident Pos)

/-- The name under which a type is embedded. -/
def embeddedName : Expr → Option Ident
  | .ident i => some i
  | .star _ x =>
    match x with
    | .star .. => none
    | x => embeddedName x
  | .selector _ sel => some sel
  | .index x _ _ _ => embeddedName x
  | .paren _ x _ => embeddedName x
  | _ => none

/-- Reports that an expression denotes no type. -/
def notAType (e : Expr) (text : String) : Check Ty := do
  report e.pos (text ++ " is not a type")
  return .invalid

namespace Judge

/-- The type that a name denotes. -/
def namedType (j : Judge) (i : Ident) : Check Ty := do
  match ← lookup i.name with
  | none =>
    report i.pos (if i.name = "_" then "cannot use _ as value or type" else s!"undefined: {i.name}")
    return .invalid
  | some id =>
    match (← objectAt id).entity with
    | .type =>
      j.object id
      return (← objectAt id).type.getD .invalid
    | _ =>
      let ty ← notAType (.ident i) i.name
      markUsed id
      return ty

/-- The length of an array. -/
def arrayLength (j : Judge) (e : Expr) : Check (Option Nat) := do
  match e with
  | .ident i =>
    match ← lookup i.name with
    | none =>
      report i.pos s!"undefined array length {i.name} or missing type constraint"
      return none
    | some id =>
      match (← objectAt id).entity with
      | .const _ => pure ()
      | _ =>
        report i.pos s!"invalid array length {i.name}"
        return none
  | _ => pure ()
  let x ← j.expr e
  let text ← operandText x
  match x.constant? with
  | none =>
    if !x.isInvalid then report x.pos s!"array length {text} must be constant"
    return none
  | some v =>
    let isInteger := (← tables).isBasic Basic.isInteger x.type
    match x.type.isUntyped || isInteger, v.toInt? with
    | true, some n =>
      if 0 ≤ n && Constant.inRange .int n then return some n.toNat
    | _, _ => pure ()
    report x.pos (if isInteger then s!"invalid array length {text}"
      else s!"array length {text} must be integer")
    return none

/-- Adds a field to those before it, unless one of them has its name. -/
def addField (pos : Pos) (field : Member) (type : Ty) (before : List (Member × Ty)) :
    Check (List (Member × Ty)) := do
  if field.name ≠ "_" && before.any (·.1.name = field.name) then
    report pos s!"{field.name} redeclared"
    return before
  return before ++ [(field, type)]

/-- The fields of a structure. -/
def fields (j : Judge) (l : FieldList) : Check (List (Member × Ty)) := do
  let package := (← env).package
  let mut out := []
  for f in l.list do
    let ty ← j.varType f.type
    let tag := match f.tag with
      | some l => ((Text.unquote? (Text.utf8 l.value)).map Text.toString).getD ""
      | none => ""
    if f.names.isEmpty then
      match embeddedName f.type with
      | some i =>
        out ← addField i.pos { name := i.name, package, embedded := true, tag } ty out
        later (.embedded f.type.pos ty)
      | none => report f.pos "invalid embedded field type"
    else
      for i in f.names do
        out ← addField i.pos { name := i.name, package, tag } ty out
  return out

/-- Parameters or results, and whether the last takes any number of values. -/
def params (j : Judge) (l : FieldList) (variadic : Bool) : Check (List (Member × Ty) × Bool) := do
  let mut out := []
  let mut isVariadic := false
  for (f, n) in l.list.zipIdx do
    let isFinal := variadic && n + 1 = l.list.length && f.names.length ≤ 1
    let ty ← match f.type with
      | .ellipsis pos elt =>
        if !isFinal then report pos "can only use ... with final parameter in list"
        let ty ← match elt with
          | some e => j.varType e
          | none => pure Ty.invalid
        pure (if isFinal then Ty.slice ty else ty)
      | e => j.varType e
    match f.type with
    | .ellipsis .. => if isFinal then isVariadic := true
    | _ => pure ()
    if f.names.isEmpty then out := out ++ [({ name := "" }, ty)]
    else out := out ++ f.names.map fun i => ({ name := i.name }, ty)
  return (out, isVariadic)

/-- The terms between bars. -/
def unionTerms : Expr → List Expr
  | .binary x pos op y => if op = .or then unionTerms x ++ [y] else [.binary x pos op y]
  | e => [e]

def term (j : Judge) (e : Expr) : Check Ty := do
  let (x, isTilde) := match e with
    | .unary _ .tilde x => (x, true)
    | e => (e, false)
  let ty ← j.type x
  if !(← tables).isParam ty then return if isTilde then .tilde ty else ty
  let source := e.summary
  report x.pos (if isTilde then s!"type in term {source} cannot be a type parameter"
    else "term cannot represent type parameter")
  return .invalid

/-- An element of an interface that is no method. -/
def embeddedElement (j : Judge) (e : Expr) : Check Ty := do
  let terms : List (Expr × Ty) ← (unionTerms e).mapM fun x => do return (x, ← j.term x)
  match terms with
  | [(_, .tilde ty)] =>
    later (.union terms)
    return .tilde ty
  | [(_, ty)] => return ty
  | _ =>
    later (.union terms)
    return .union (terms.map (·.2))

/-- The constraint of a type parameter. -/
def constraint (j : Judge) (e : Expr) : Check Ty := do
  let wraps : Bool := match e with
    | .unary _ op _ => op = .tilde
    | .binary _ _ op _ => op = .or
    | _ => false
  if wraps then return .iface [] [← j.embeddedElement e] true else j.type e

/-- Declares type parameters in the scope around. -/
def typeParams (j : Judge) (l : Option FieldList) : Check (List Nat) := do
  let mut ids := []
  let mut groups := []
  let e ← env
  for f in (l.map FieldList.list).getD [] do
    let mut group := []
    for i in f.names do
      let p ← addParam { name := i.name, constraint := .iface [] [] true, origin := ← placeText i.pos }
      let id ← addObject { name := i.name, entity := .type, type := some (.param p), pos := i.pos }
      declareName e.scope i id
      group := group ++ [p]
    ids := ids ++ group
    groups := groups ++ [(group, f.type)]
  for (group, bound) in groups do
    let ty ← j.constraint bound
    for p in group do
      modifyParam p fun info => { info with constraint := ty }
  return ids

/-- Declares the parameters that have names in the scope around. -/
def declareParams (l : FieldList) (ps : List (Member × Ty)) : Check Unit := do
  let e ← env
  for (i, _, ty) in (l.list.flatMap Field.names).zip ps do
    let id ← addObject
      { name := i.name, entity := .var, type := some ty, package := e.package, pos := i.pos }
    declareName e.scope i id

/-- A receiver: its type, and its type parameters, which are declared. -/
def receiver (j : Judge) (e : Expr) : Check (Ty × List Nat) := do
  let (isPointer, base) := match e.unparen with
    | .star _ x => (true, x.unparen)
    | x => (false, x)
  let wrap (ty : Ty) : Ty := if isPointer && !ty.isInvalid then .pointer ty else ty
  match base with
  | .index x _ indices _ =>
    match x.unparen with
    | .ident i =>
      let generic ← j.namedType i
      let scope := (← env).scope
      match generic with
      | .named id [] =>
        let info := (← tables).namedInfo id
        let mut ps := []
        for (e, declared) in indices.zip info.tparams do
          match e with
          | .ident n =>
            let p ← addParam { name := n.name, constraint := .iface [] [] true, origin := ← placeText n.pos }
            let obj ← addObject { name := n.name, entity := .type, type := some (.param p), pos := n.pos }
            declareName scope n obj
            ps := ps ++ [(p, declared)]
          | _ => pure ()
        let args := ps.map fun (p, _) => Ty.param p
        for (p, declared) in ps do
          let bound := ((← tables).paramInfo declared).constraint.substParams info.tparams args
          modifyParam p fun info => { info with constraint := bound }
        return (wrap (.named id args), ps.map (·.1))
      | ty => return (wrap ty, [])
    | x => return (wrap (← j.type x), [])
  | x => return (← if isPointer then (wrap <$> j.type x) else j.type x, [])

/-- A function's type, the scope of its parameters, and the type parameters of its receiver. -/
def signature (j : Judge) (recv : Option FieldList) (ft : FuncType) : Check (Ty × Nat × List Nat) := do
  let scope ← openScope (← env).scope true
  within (fun e => { e with scope }) do
    let (receivers, receiverParams) ← match recv.map FieldList.list with
      | some (f :: _) =>
        let (ty, ps) ← j.receiver f.type
        pure (f.names.map fun i => ({ name := i.name : Member }, ty), ps)
      | _ => pure ([], [])
    let tparams ← j.typeParams ft.typeParams
    let (ps, variadic) ← j.params ft.params true
    let results := ft.results.getD default
    let (rs, _) ← j.params results false
    declareParams (recv.getD default) receivers
    declareParams ft.params ps
    declareParams results rs
    return (.func tparams ps rs variadic, scope, receiverParams)

/-- Members in the order in which interfaces show them. -/
def memberOrder (a b : Member × Ty) : Bool :=
  if isExported a.1.name ≠ isExported b.1.name then isExported a.1.name else a.1.name ≤ b.1.name

/-- An interface; methods in order of their names. -/
def interface (j : Judge) (l : FieldList) : Check Ty := do
  let package := (← env).package
  let mut methods := []
  let mut embeds := []
  for f in l.list do
    match f.names, f.type with
    | i :: _, .funcType t =>
      let (ty, _, _) ← j.signature none t
      if i.name = "_" then report i.pos "methods must have a unique non-blank name"
      else if methods.any (·.1.name = i.name) then
        later (.complaint i.pos s!"duplicate method {i.name}")
      else methods := methods ++ [({ name := i.name, package : Member }, ty)]
    | _, e => embeds := embeds ++ [← j.embeddedElement e]
  return .iface (methods.mergeSort memberOrder) embeds false

/-- Type arguments; `none` if one is wrong. -/
def typeList (j : Judge) (es : List Expr) : Check (Option (List Ty)) := do
  let mut out := []
  let mut ok := true
  for e in es do
    let ty ← j.varType e
    if (← tables).isInvalid ty then ok := false
    out := out ++ [ty]
  return if ok then some out else none

/-- A generic type with its type arguments. -/
def instantiate (j : Judge) (generic : Ty) (x : Expr) (indices : List Expr) : Check Ty := do
  let t ← tables
  if t.isInvalid generic then return .invalid
  let source := x.summary
  let text ← typeText generic
  let tparams := match generic with
    | .named id [] => (t.namedInfo id).tparams
    | .alias id [] => (t.aliasInfo id).tparams
    | _ => []
  let wanted := tparams.length
  if wanted = 0 then
    report x.pos s!"{text} is not a generic type"
    return .invalid
  match ← j.typeList indices with
  | none => return .invalid
  | some args =>
    if args.length ≠ wanted then
      let word := if args.length < wanted then "not enough" else "too many"
      let given := args.length
      report x.pos s!"{word} type arguments for type {source}: have {given}, want {wanted}"
      return .invalid
    later (.typeArguments x.pos indices tparams args)
    match generic with
    | .named id _ => return .named id args
    | .alias id _ => return .alias id args
    | _ => return .invalid

end Judge
end Desugar.Typing

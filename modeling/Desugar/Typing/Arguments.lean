import Desugar.Typing.Infer
import Desugar.Typing.Value

/-!
# Arguments of calls
-/
namespace Desugar.Typing

open Host (Expr Pos)

/-- An argument; a generic function may come with some of its type arguments. -/
structure Argument where
  operand : Operand
  given : List Ty := []

namespace Judge

/-- What a generic function is assigned to: the type of a function, and what messages call it. -/
structure Goal where
  type : Ty
  name : String

/-- Reads the type arguments of a function. -/
def givenTypeArguments (j : Judge) (e : Expr) (x : Operand) (indices : List Expr) (want : Nat) :
    Check (Option (List Ty)) := do
  match ← j.typeList indices with
  | none => return none
  | some args =>
    let given := args.length
    if given ≤ want then return some args
    let source := x.expr.summary
    let site := (indices.drop want).head?.getD e
    report site.pos s!"got {given} type arguments but {source} has {want} type parameters"
    return none

/-- A function with all of its type arguments. Those that are not given follow from the others, or from
what the function is assigned to. -/
def instantiateFunction (j : Judge) (e : Expr) (x : Operand) (indices : List Expr)
    (goal : Option Goal) : Check Operand := do
  match x.type with
  | .func tparams params results variadic =>
    match ← j.givenTypeArguments e x indices tparams.length with
    | none => return .invalid e
    | some given =>
      let plain := Ty.func [] params results variadic
      let (fresh, rename) ← renameParams tparams
      let known := given.map some ++ List.replicate (tparams.length - given.length) none
      let argument (g : Goal) : Operand := .ofValue (.ident { pos := e.pos, name := g.name }) g.type
      let formal := if goal.isSome then [rename plain] else []
      match ← j.infer e.pos fresh known formal (goal.toList.map argument) true with
      | .ok all =>
        later (.typeArguments x.pos indices tparams all)
        return .ofValue e (plain.substParams tparams all)
      | .error failure =>
        match failure with
        | some (pos, message) => report pos message
        | none => pure ()
        return .invalid e
  | _ => return .invalid e

/-- An expression as the value of something that has a name and maybe a type: a composite value may leave
the type out, and a generic function takes its type arguments from it. -/
def exprFor (j : Judge) (e : Expr) (ty : Option Ty) (name : String) : Check Operand := do
  match ty.map (← tables).under, e with
  | _, .composite .. => j.expr e ty
  | some (.func _ params results variadic), .index x _ indices _ =>
    match ← j.indexed e x indices with
    | .function f =>
      j.instantiateFunction e f indices (some { type := .func [] params results variadic, name })
    | .operand x => single (← exclude false x)
  | some (.func _ params results variadic), e =>
    let x ← j.genericExpr e
    match x.type with
    | .func (_ :: _) .. =>
      j.instantiateFunction e x [] (some { type := .func [] params results variadic, name })
    | _ => return x
  | _, e => j.expr e

/-- A function with some of its type arguments, or with all of them. -/
def partlyInstantiated (j : Judge) (e : Expr) (x : Operand) (indices : List Expr) :
    Check Argument := do
  match x.type with
  | .func tparams _ _ _ =>
    match ← j.givenTypeArguments e x indices tparams.length with
    | none => return { operand := .invalid e }
    | some given =>
      if given.length < tparams.length then return { operand := { x with expr := e }, given }
      return { operand := ← j.instantiateFunction e x indices none }
  | _ => return { operand := .invalid e }

/-- One argument, or all the values of a call that is the only argument. -/
def argument (j : Judge) (lone : Bool) (e : Expr) : Check (List Argument) := do
  match e with
  | .index x _ indices _ =>
    match ← j.indexed e x indices with
    | .function f => return [← j.partlyInstantiated e f indices]
    | .operand x =>
      let x ← exclude false x
      return [{ operand := ← single x }]
  | _ =>
    if !lone then return [{ operand := ← j.genericExpr e }]
    let x ← j.multiExpr e true
    match x.mode.isInvalid, x.type with
    | false, .tuple ts => return ts.map fun t => { operand := .ofValue e t.2 }
    | _, _ => return [{ operand := x }]

def arguments (j : Judge) (es : List Expr) : Check (List Argument) := do
  let mut out := []
  for e in es do
    out := out ++ (← j.argument (es.length = 1) e)
  return out

/-- Types in words; the last may stand for any number of values. -/
def typesSummary (tys : List Ty) (variadic hasDots : Bool) : Check String := do
  let t ← tables
  let mut out := []
  for (ty, i) in tys.zipIdx do
    let isLast := i + 1 = tys.length
    let shown := match ty with
      | .slice e => if variadic && isLast then e else ty
      | ty => ty
    let text ← match shown with
      | .basic b =>
        if b = .invalid then pure "unknown type"
        else if b.isUntyped then pure (if b.isNumeric then "number" else Tables.dropChars 8 b.name)
        else typeText shown
      | shown => if t.isInvalid shown then pure "unknown type" else typeText shown
    let text := if variadic && isLast then "..." ++ text else text
    out := out ++ [if hasDots && isLast then text ++ "..." else text]
  return "(" ++ ", ".intercalate out ++ ")"

/-- A call's parts as its arguments are checked. -/
structure CallSite where
  fn : Expr
  pos : Pos
  closing : Pos
  /-- Whether the last argument stands for any number of values. -/
  hasDots : Bool
  /-- The type arguments that are given. -/
  typeArgs : List Expr := []

/-- Parameters, one for each argument; a wrong number of arguments is reported. -/
def matchParams (site : CallSite) (params : List (Member × Ty)) (variadic : Bool)
    (args : List Operand) (lone : Bool) : Check (Option (List Ty)) := do
  let source := site.fn.summary
  let tys := params.map (·.2)
  let count := args.length
  if site.hasDots && !variadic then
    report site.pos s!"cannot use ... in call to non-variadic {source}"
    return none
  if site.hasDots && lone && 1 < count then
    report site.pos s!"cannot use ... with {count}-valued {source}"
    return none
  let spread := variadic && !site.hasDots
  let fixed := tys.length - 1
  let wanted := if spread then (if fixed ≤ count then count else fixed) else tys.length
  if count ≠ wanted then
    let given ← typesSummary (args.map Operand.type) false site.hasDots
    let want ← typesSummary tys variadic false
    let (word, pos) := if wanted < count then
        ("too many", ((args.drop wanted).head?.map Operand.pos).getD site.pos)
      else ("not enough", site.closing)
    report pos s!"{word} arguments in call to {source}" s!"\n\thave {given}\n\twant {want}"
    return none
  if spread then
    let elem := match tys.getLast? with
      | some (.slice e) => e
      | _ => .invalid
    return some (tys.dropLast ++ List.replicate (count - fixed) elem)
  return some tys

/-- The type parameters of generic functions among the arguments, renamed. -/
def genericArguments (args : List Argument) :
    Check (List Argument × List Nat × List (Option Ty)) := do
  let mut out := []
  let mut ids := []
  let mut given := []
  for a in args do
    match a.operand.type with
    | .func (p :: ps) params results variadic =>
      let (fresh, rename) ← renameParams (p :: ps)
      let ty := match rename (.func [] params results variadic) with
        | .func _ params results variadic => Ty.func fresh params results variadic
        | ty => ty
      out := out ++ [{ a with operand := { a.operand with type := ty } }]
      ids := ids ++ fresh
      given := given ++ a.given.map some ++ List.replicate (fresh.length - a.given.length) none
    | _ => out := out ++ [a]
  return (out, ids, given)

/-- Checks the arguments of a call, given some type arguments. The result is the function's type with
its type arguments, or as it is if they cannot be found. -/
def applyArguments (j : Judge) (site : CallSite) (fn : Ty) (given : List Ty) (args : List Argument)
    (lone : Bool) : Check Ty := do
  match fn with
  | .func tparams params results variadic =>
    match ← matchParams site params variadic (args.map Argument.operand) lone with
    | none => return fn
    | some tys =>
      let (fresh, rename) ← renameParams tparams
      let (args, more, moreGiven) ← genericArguments args
      let all := fresh ++ more
      let known := given.map some ++ List.replicate (fresh.length - given.length) none ++ moreGiven
      let operands := args.map Argument.operand
      let context := "argument to " ++ site.fn.summary
      if all.isEmpty then
        for (x, ty) in operands.zip tys do
          discard <| j.assign x (some ty) context
        return fn
      match ← j.infer site.closing all known (tys.map rename) operands with
      | .error failure =>
        match failure with
        | some (pos, message) =>
          let source := site.fn.summary
          report pos (s!"in call to {source}, " ++ message)
        | none => pure ()
        return fn
      | .ok found =>
        let replace (ty : Ty) : Ty := (rename ty).substParams all found
        if !tparams.isEmpty then
          later (.typeArguments site.pos site.typeArgs tparams (found.take tparams.length))
        for x in operands do
          match x.type with
          | .func (p :: ps) .. =>
            let own := (p :: ps).map fun q => Ty.substParams all found (.param q)
            later (.typeArguments site.pos [] (p :: ps) own)
          | _ => pure ()
        for (x, ty) in operands.zip tys do
          let x := match x.type with
            | .func (_ :: _) ps rs v => { x with type := (Ty.func [] ps rs v).substParams all found }
            | _ => x
          discard <| j.assign x (some (replace ty)) context
        return (if tparams.isEmpty then fn else replace (.func [] params results variadic))
  | ty => return ty

end Judge
end Desugar.Typing

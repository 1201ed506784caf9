import Desugar.Typing.Arguments

/-!
# Composite values

The elements of arrays, slices and maps and the fields of structures are assigned one by one; an element
that names no type has the type of its place, and a generic function takes its type arguments from there.
-/
namespace Desugar.Typing

open Host (Expr Pos)

namespace Judge

/-- Elements with or without an index; the result is how many places they take. -/
def elements (j : Judge) (elem : Ty) (length : Option Nat) :
    List Expr → (next most : Nat) → (seen : List Nat) → Check Nat
  | [], _, most, _ => return most
  | e :: es, next, most, seen => do
    let (here, value) ← match e with
      | .keyValue key _ value => do
        match ← j.index key length with
        | some (some n) => pure (some n, value)
        | some none =>
          let source := key.summary
          report e.pos s!"index {source} must be integer constant"
          pure (none, value)
        | none => pure (none, value)
      | e => do
        if length.any (· ≤ next) then
          let max := length.getD 0
          report e.pos s!"index {next} is out of bounds (>= {max})"
          pure (none, e)
        else pure (some next, e)
    match here with
    | some n =>
      if seen.contains n then report e.pos s!"duplicate index {n} in array or slice literal"
    | none => pure ()
    discard <| j.assign (← j.exprFor value (some elem) "element") (some elem) "array or slice literal"
    let next := here.getD next + 1
    j.elements elem length es next (max next most) (here.toList ++ seen)

/-- The type of the field that a key names, if there is one: that of the structure itself, or of a
structure that it embeds without a pointer. -/
def keyType? (base : Ty) (fields : List (Member × Ty)) (key : Expr) : Check (Option Ty) := do
  match key with
  | .ident i =>
    let package := (← env).package
    match fields.find? fun f => f.1.sameName { name := i.name, package } with
    | some (_, ty) => return some ty
    | none =>
      match (← get).search false i.name package false base with
      | .found (.field _ ty) false => return some ty
      | _ => return none
  | _ => return none

def keyedFields (j : Judge) (base : Ty) (fields : List (Member × Ty)) :
    List Expr → (seen : List String) → Check Unit
  | [], _ => return ()
  | .keyValue key _ value :: es, seen => do
    let ty ← keyType? base fields key
    let x ← j.exprFor value ty "field"
    match key, ty with
    | .ident i, none =>
      let similar := (fields.find? fun f => f.1.name.toLower = i.name.toLower).map fun (m, ty) =>
        Selected.field m ty
      report key.pos (← lookupText base i.name similar true)
      j.keyedFields base fields es seen
    | .ident i, some ty =>
      discard <| j.assign x (some ty) "struct literal"
      if seen.contains i.name then
        report key.pos s!"duplicate field name {i.name} in struct literal"
      j.keyedFields base fields es (i.name :: seen)
    | _, _ =>
      let source := key.summary
      report key.pos s!"invalid field name {source} in struct literal"
      j.keyedFields base fields es seen
  | e :: es, seen => do
    report e.pos "mixture of field:value and value elements in struct literal"
    j.keyedFields base fields es seen

def positionalFields (j : Judge) (base : Ty) : List (Member × Ty) → List Expr → Check Bool
  | fields, [] => return fields.isEmpty
  | fields, .keyValue key _ _ :: es => do
    report key.pos "mixture of field:value and value elements in struct literal"
    j.positionalFields base (fields.drop 1) es
  | [], e :: _ => do
    let x ← j.expr e
    let text ← typeText base
    report x.pos s!"too many values in struct literal of type {text}"
    return true
  | (m, ty) :: fields, e :: es => do
    let x ← j.exprFor e (some ty) "field"
    if !isExported m.name && m.package ≠ (← env).package then
      let text ← typeText base
      report x.pos
        s!"implicit assignment to unexported field {m.name} in struct literal of type {text}"
    else discard <| j.assign x (some ty) "struct literal"
    j.positionalFields base fields es

def mapEntries (j : Judge) (key elem : Ty) : List Expr → (seen : List Constant) → Check Unit
  | [], _ => return ()
  | .keyValue k _ v :: es, seen => do
    let x ← j.assign (← j.expr k (some key)) (some key) "map literal"
    let fresh := match x.constant? with
      | some c => if seen.any (Constant.equal c) then none else some [c]
      | none => some []
    match x.isInvalid, fresh with
    | true, _ => j.mapEntries key elem es seen
    | false, none =>
      let value := (x.constant?.getD .unknown).render
      report x.pos s!"duplicate key {value} in map literal"
      j.mapEntries key elem es seen
    | false, some c =>
      discard <| j.assign (← j.exprFor v (some elem) "element") (some elem) "map literal"
      j.mapEntries key elem es (c ++ seen)
  | e :: es, seen => do
    report e.pos "missing key in map literal"
    j.mapEntries key elem es seen

/-- A composite value; without a type of its own it has the type that its place asks for. -/
def composite (j : Judge) (e : Expr) (type : Option Expr) (elts : List Expr) (rbrace : Pos)
    (hint : Option Ty) : Check Operand := do
  let (ty, base, isElement) ← match type, hint with
    | some (.arrayType _ (some (.ellipsis _ none)) elt), _ =>
      let ty := Ty.array none (← j.varType elt)
      pure (ty, ty, false)
    | some t, _ =>
      let ty ← j.type t
      pure (ty, ty, false)
    | none, some h =>
      let base := match (← tables).core h with
        | some (.pointer b) => b
        | _ => h
      pure (h, base, true)
    | none, none =>
      report e.pos "invalid composite literal type: missing type"
      pure (Ty.invalid, Ty.invalid, false)
  match (← tables).core base with
  | some (.struct fields) =>
    match elts with
    | [] => pure ()
    | .keyValue .. :: _ => j.keyedFields base fields elts []
    | _ =>
      if !(← j.positionalFields base fields elts) then
        let text ← typeText base
        report rbrace s!"too few values in struct literal of type {text}"
    return .ofValue e ty
  | some (.array length elem) =>
    let n ← j.elements elem length elts 0 0 []
    match ty with
    | .array none elem => return .ofValue e (.array (some n) elem)
    | _ => return .ofValue e ty
  | some (.slice elem) =>
    discard <| j.elements elem none elts 0 0 []
    return .ofValue e ty
  | some (.map key elem) =>
    j.mapEntries key elem elts []
    return .ofValue e ty
  | other =>
    for x in elts do
      match x with
      | .keyValue _ _ v => j.use [v]
      | x => j.use [x]
    if other.any Ty.isInvalid then return .ofValue e ty
    let word := if isElement then " element" else ""
    let text ← typeText ty
    let cause := if other.isNone then " (no common underlying type)" else ""
    report e.pos s!"invalid composite literal{word} type {text}{cause}"
    return .invalid e

end Judge
end Desugar.Typing

import Desugar.Typing.Local

/-!
# Ranges

What can be ranged over, and the variables that take on its keys and values.
-/
namespace Desugar.Typing

open Host (Expr Block Kind Pos)

/-- The types of keys and values, where there are such. -/
structure RangeTypes where
  key : Option Ty := none
  value : Option Ty := none

namespace Judge

/-- The types that a function gives to what it is called with, one by one: the parameters of its own
only parameter, a function that says whether to go on. -/
def yieldedTypes (params results : List (Member × Ty)) : Check (Except String RangeTypes) := do
  let t ← tables
  let fail (cause : String) : Check (Except String RangeTypes) :=
    return .error ("func must be func(yield func(...) bool): " ++ cause)
  match params, results with
  | [(_, yield)], [] =>
    match t.common (fun _ => true) yield with
    | .error discord => fail ("in yield type, " ++ (← discordText id discord))
    | .ok (.func _ ps rs _) =>
      if 2 < ps.length then fail "yield func has too many parameters"
      else match rs with
        | [(_, more)] =>
          if t.identical more (.basic .bool) then
            return .ok { key := ps[0]?.map (·.2), value := ps[1]?.map (·.2) }
          else if t.isBasic Basic.isBoolean more then
            fail "yield func returns user-defined boolean, not bool"
          else fail "yield func does not return bool"
        | _ => fail "yield func does not return bool"
    | .ok _ => fail "argument is not func"
  | [_], _ => fail "unexpected results"
  | _, _ => fail "wrong argument count"

/-- The types of keys and values of what is ranged over, or why it cannot be, which may be empty. -/
def rangeTypes (ty : Ty) : Check (Except String RangeTypes) := do
  let t ← tables
  let receives : Ty → Bool
    | .chan d _ => d ≠ .send
    | _ => true
  let index : Option Ty := some (.basic .int)
  match t.common receives ty with
  | .error discord =>
    return .error (← discordText (fun _ => "receive from send-only channel") discord)
  | .ok (.basic b) =>
    if b.isString then return .ok { key := index, value := some (.basic .rune) }
    else if b.isInteger then return .ok { key := some ty }
    else return .error ""
  | .ok (.array _ e) | .ok (.slice e) => return .ok { key := index, value := some e }
  | .ok (.pointer p) =>
    match t.under p with
    | .array _ e => return .ok { key := index, value := some e }
    | _ => return .error ""
  | .ok (.map k v) => return .ok { key := some k, value := some v }
  | .ok (.chan _ e) => return .ok { key := some e }
  | .ok (.func _ params results _) => yieldedTypes params results
  | .ok _ => return .error ""

/-- The types of the variables of a range; what has no type, or cannot be ranged over, is reported. -/
def rangedTypes (x : Operand) (key value : Option Expr) : Check RangeTypes := do
  if x.isInvalid then return {}
  let text ← operandText x
  match ← rangeTypes x.type with
  | .error cause =>
    let cause := if cause = "" then "" else ": " ++ cause
    report x.pos s!"cannot range over {text}{cause}"
    return {}
  | .ok types =>
    match key, types.key, value, types.value with
    | some k, none, _, _ => report k.pos s!"range over {text} permits no iteration variables"
    | _, _, some v, none => report v.pos s!"range over {text} permits only one iteration variable"
    | _, _, _, _ => pure ()
    return types

/-- Declares a variable of a range. An integer range gives its own type to the variable, and without a type
the variable need not be used. -/
def rangeVar (j : Judge) (x : Operand) (isCount : Bool) (e : Expr) (type : Option Ty) : Check Nat := do
  let id ← match e with
    | .ident i => newVar i
    | e =>
      let source := e.summary
      report e.pos s!"invalid syntax tree: cannot declare {source}"
      newVar { pos := e.pos, name := "_" }
  match type with
  | none => modifyObject id fun o => { o with type := some .invalid, isUsed := true }
  | some ty =>
    if isCount then discard <| j.store (.object id) x "range clause"
    else discard <| j.store (.object id) (.ofValue e ty) "assignment"
  return id

/-- Assigns to a variable of a range, for which an integer range needs an integer. -/
def rangeAssign (j : Judge) (x : Operand) (isCount : Bool) (e : Expr) (type : Option Ty) :
    Check Unit := do
  match type with
  | none => return ()
  | some ty =>
    if isCount then
      let x ← j.assignTo e x "range"
      if !x.isInvalid && !(← tables).isBasic Basic.isInteger x.type then
        let text ← typeText x.type
        report e.pos s!"cannot use iteration variable of type {text}"
    else discard <| j.assignTo e (.ofValue e ty) "assignment"

def rangeStmt (j : Judge) (flow : Flow) (key value : Option Expr) (tokPos : Pos) (tok : Kind)
    (e : Expr) (b : Block) : Check Unit := do
  let x ← j.expr e
  let types ← rangedTypes x key value
  let isCount := !x.isInvalid && (← tables).isBasic Basic.isInteger x.type
  let sides := (key.toList.map (·, types.key)) ++ (value.toList.map (·, types.value))
  withScope do
    if tok = .define then
      let mut ids := []
      for (e, type) in sides do
        let id ← j.rangeVar x isCount e type
        if (← objectAt id).name ≠ "_" then ids := ids ++ [id]
      if ids.isEmpty then report tokPos "no new variables on left side of :="
      declareAll ids
    else if !sides.isEmpty then
      for (e, type) in sides do
        j.rangeAssign x isCount e type
    else if isCount then discard <| j.assign x none "range clause"
    withScope <| j.stmts flow b.list

end Judge
end Desugar.Typing

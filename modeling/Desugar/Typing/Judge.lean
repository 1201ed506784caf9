import Desugar.Typing.Operand

/-!
# Judgements that refer to each other

Expressions, types, declarations and statements are checked by functions that need one another. Each is
given the others for what lies deeper.
-/
namespace Desugar.Typing

open Host (Expr Stmt)

structure Judge where
  /-- What an expression is; a hint is the type of a composite value that does not name its own, and
  `generic` admits what still lacks type arguments. -/
  raw : Expr → (hint : Option Ty) → (generic : Bool) → Check Operand
  /-- The type that an expression denotes. -/
  type : Expr → Check Ty
  /-- Finds the type of an object. -/
  object : Nat → Check Unit
  /-- Checks a statement. -/
  stmt : Stmt → Check Unit

/-- Nothing is known of what lies too deep. -/
def Judge.exhausted : Judge where
  raw e _ _ := return .invalid e
  type _ := return .invalid
  object id := modifyObject id fun o => { o with type := some (o.type.getD .invalid), progress := .done }
  stmt _ := return ()

namespace Judge

/-- Reports an operand that is no value; types and built-ins are admitted on demand. -/
def exclude (allowType : Bool) (x : Operand) : Check Operand := do
  let text ← operandText x
  match x.mode with
  | .noValue =>
    refuse x (if allowType then text ++ " used as value or type" else text ++ " used as value")
  | .builtin _ => if allowType then return x else refuse x (text ++ " must be called")
  | .type => if allowType then return x else refuse x (text ++ " is not an expression")
  | _ => return x

/-- Reports an operand with several values. -/
def single (x : Operand) : Check Operand := do
  match x.mode, x.type with
  | .value, .tuple _ =>
    let text ← operandText x
    refuse x s!"multiple-value {text} in single-value context"
  | _, _ => return x

/-- An expression with one value. -/
def expr (j : Judge) (e : Expr) (hint : Option Ty := none) : Check Operand := do
  single (← exclude false (← j.raw e hint false))

/-- An expression with one value, which may lack type arguments. -/
def genericExpr (j : Judge) (e : Expr) : Check Operand := do
  single (← exclude false (← j.raw e none true))

/-- An expression with any number of values but none. -/
def multiExpr (j : Judge) (e : Expr) (generic : Bool := false) : Check Operand := do
  exclude false (← j.raw e none generic)

/-- An expression with one value, a type or a built-in. -/
def exprOrType (j : Judge) (e : Expr) (generic : Bool) : Check Operand := do
  single (← exclude true (← j.raw e none generic))

/-- Whether there are no errors in expressions; the blank name may stand among them. -/
def areValid (j : Judge) (es : List Expr) : Check Bool := do
  let mut valid := true
  for e in es do
    if !e.isBlank then
      let x ← j.raw e none true
      if x.isInvalid then valid := false
  return valid

/-- Looks at expressions only for the errors in them. -/
def use (j : Judge) (es : List Expr) : Check Unit := discard <| j.areValid es

/-- Runs a check in which a name alone does not count as a use of its variable. -/
def withoutUse {α : Type} (e : Expr) (act : Check α) : Check α := do
  match e.unparen with
  | .ident i =>
    match ← lookup i.name with
    | some id =>
      let isUsed := (← objectAt id).isUsed
      let a ← act
      modifyObject id fun o => { o with isUsed }
      return a
    | none => act
  | _ => act

/-- Whether there are no errors in the targets of an assignment. -/
def areValidTargets (j : Judge) (es : List Expr) : Check Bool := do
  let mut valid := true
  for e in es do
    if !(← withoutUse e (j.areValid [e])) then valid := false
  return valid

/-- The type of a variable. -/
def varType (j : Judge) (e : Expr) : Check Ty := do
  let ty ← j.type e
  awaitVariable e ty
  return ty

/-- The type of an object, found if need be. -/
def typeOf (j : Judge) (id : Nat) : Check Ty := do
  if (← objectAt id).type.isNone then j.object id
  return (← objectAt id).type.getD .invalid

end Judge
end Desugar.Typing

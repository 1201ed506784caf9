import Desugar.Typing.Call

/-!
# Assignments
-/
namespace Desugar.Typing

open Host (Expr Pos)

/-- A number of things. -/
def countText (n : Nat) (noun : String) : String := if n = 1 then s!"1 {noun}" else s!"{n} {noun}s"

/-- What values are put into. -/
inductive Target where
  /-- A variable, which takes the type of its value if it has none yet. -/
  | object (id : Nat)
  /-- Something of a known type, as messages call it. -/
  | place (name : String) (type : Ty)
  | blank

namespace Judge

/-- The type that a target asks for by now. -/
def targetType : Target → Check (Option Ty)
  | .object id => return (← objectAt id).type
  | .place _ ty => return some ty
  | .blank => return none

/-- What messages call a target. -/
def targetName : Target → Check String
  | .object id => return (← objectAt id).name
  | .place name _ => return name
  | .blank => return "_"

/-- A value for a target. -/
def exprForTarget (j : Judge) (target : Target) (e : Expr) : Check Operand := do
  j.exprFor e (← targetType target) (← targetName target)

/-- Gives a type to a variable that has none yet. -/
def settle (target : Target) (ty : Ty) : Check Unit :=
  match target with
  | .object id => modifyObject id fun o => { o with type := some (o.type.getD ty) }
  | _ => return ()

/-- Puts an operand into a target; the result is what it is there. -/
def store (j : Judge) (target : Target) (x : Operand) (context : String) : Check Operand := do
  let t ← tables
  let ty ← targetType target
  if x.isInvalid || t.isInvalid x.type || ty.any t.isInvalid then
    settle target .invalid
    return x.asInvalid
  match ty, target with
  | none, .object _ =>
    if x.isNil then
      report x.pos s!"use of untyped nil in {context}"
      settle target .invalid
      return x.asInvalid
    settle target x.type.default
    j.assign x (some x.type.default) context
  | none, _ =>
    j.assign x none (if context = "assignment" then "assignment to _ identifier" else context)
  | some ty, _ => j.assign x (some ty) context

/-- Reports that the number of values is wrong. -/
def countMismatch (rhs : List Expr) (l r : Nat) : Check Unit := do
  let vars := countText l "variable"
  let vals := countText r "value"
  match rhs with
  | [e] =>
    match e.unparen with
    | .call fn .. =>
      let source := fn.summary
      report e.pos s!"assignment mismatch: {vars} but {source} returns {vals}"
    | _ => report e.pos s!"assignment mismatch: {vars} but {vals}"
  | e :: _ => report e.pos s!"assignment mismatch: {vars} but {vals}"
  | [] => pure ()

/-- Reports that the number of results is wrong. -/
def resultMismatch (pos : Pos) (wanted : List Ty) (given : List Operand) : Check Unit := do
  let word := if wanted.length < given.length then "too many" else "not enough"
  let site := if wanted.length < given.length then (given.drop wanted.length).head?
    else given.getLast?
  let shown ← typesSummary (given.map Operand.type) false false
  let want ← typesSummary wanted false false
  report ((site.map Operand.pos).getD pos) s!"{word} return values"
    s!"\n\thave {shown}\n\twant {want}"

/-- The values of an expression; one that tells whether there is a value gives that as well if two are
asked for. -/
def values (j : Judge) (e : Expr) (two : Bool) : Check (List Operand) := do
  let x ← j.multiExpr e
  match x.mode, x.type with
  | .value, .tuple ts => return ts.map fun t => .ofValue e t.2
  | .commaOk, _ | .mapIndex, _ =>
    if two then return [{ x with mode := .value }, .ofValue e (.basic .untypedBool)] else return [x]
  | _, _ => return [x]

/-- Whether there is one value for each of so many targets. A call alone may have more values. -/
def isOneToOne (targets : Nat) (rhs : List Expr) : Bool :=
  let isCall := match rhs with
    | [e] =>
      match e.unparen with
      | .call .. => true
      | _ => false
    | _ => false
  targets = rhs.length && !isCall

/-- Gives their first values to targets; `results` is the place of a return statement whose results they
are. -/
def initAll (j : Judge) (targets : List Target) (rhs : List Expr) (results : Option Pos) :
    Check Unit := do
  let l := targets.length
  let context := if results.isSome then "return statement" else "assignment"
  let mismatch (given : List Operand) (count : Nat) : Check Unit := do
    match results with
    | some pos =>
      let tys ← targets.mapM targetType
      resultMismatch pos (tys.map fun ty => ty.getD .invalid) given
    | none => countMismatch rhs l count
  let fill (given : List Operand) : Check Unit := do
    for (t, x) in targets.zip given do
      discard <| j.store t x context
  let abandon : Check Unit := do
    for t in targets do
      settle t .invalid
  if isOneToOne l rhs then
    for (t, e) in targets.zip rhs do
      let x ← j.exprForTarget t e
      discard <| j.store t x context
  else match rhs with
    | [e] =>
      let given ← j.values e (l = 2 && results.isNone)
      if given.length = l then fill given
      else
        if given.head?.all (!·.isInvalid) then mismatch given given.length
        abandon
    | _ =>
      if ← j.areValid rhs then
        let given ← if results.isSome then rhs.mapM (j.expr ·) else pure []
        mismatch given rhs.length
      abandon

/-- What stands on the left of an assignment. -/
def leftSide (j : Judge) (e : Expr) : Check Target := do
  if e.isBlank then return .blank
  let x ← withoutUse e (j.expr e)
  let source := e.summary
  match x.mode with
  | .invalid => return .place source .invalid
  | .var | .mapIndex => return .place source x.type
  | _ =>
    let isField ← match e with
      | .selector base _ =>
        match (← j.expr base).mode with
        | .mapIndex => pure true
        | _ => pure false
      | _ => pure false
    report e.pos (if isField then s!"cannot assign to struct field {source} in map"
      else s!"cannot assign to {source} (neither addressable nor a map index expression)")
    return .place source .invalid

/-- Assigns an operand to what an expression stands for. -/
def assignTo (j : Judge) (e : Expr) (x : Operand) (context : String) : Check Operand := do
  j.store (← j.leftSide e) x context

/-- Assigns values to what stands on the left. -/
def assignAll (j : Judge) (lhs rhs : List Expr) : Check Unit := do
  let l := lhs.length
  if isOneToOne l rhs then
    for (e, r) in lhs.zip rhs do
      let target ← j.leftSide e
      if (← targetType target).any (← tables).isInvalid then j.use [r]
      else
        let x ← j.exprForTarget target r
        discard <| j.store target x "assignment"
  else match rhs with
    | [r] =>
      let given ← j.values r (l = 2)
      if given.length = l then
        for (e, x) in lhs.zip given do
          discard <| j.assignTo e x "assignment"
      else
        if given.head?.all (!·.isInvalid) then countMismatch rhs l given.length
        discard <| j.areValidTargets lhs
    | _ =>
      let validTargets ← j.areValidTargets lhs
      let valid ← j.areValid rhs
      if validTargets && valid then countMismatch rhs l rhs.length

end Judge
end Desugar.Typing

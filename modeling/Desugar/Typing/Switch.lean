import Desugar.Typing.Local

/-!
# Choices

Switches on values and on types, and choices among communications.
-/
namespace Desugar.Typing

open Host (Expr Stmt Block Ident Pos)

/-- A constant as one that cases are told apart by: integers and real numbers that machines have, and
texts. -/
def Constant.caseKey? : Constant → Option Constant
  | .int n => if inRange .int64 n || inRange .uint64 n then some (.int n) else none
  | .real r =>
    match r.roundTo? .double with
    | some q => if (Constant.real r).equal (.real q) then some (.real r) else none
    | none => none
  | .text s => some (.text s)
  | _ => none

namespace Judge

/-- Reports all default clauses but the first. -/
def reportDefaults (clauses : List Stmt) : Check Unit := do
  match clauses.filter Stmt.isDefault with
  | [] => return ()
  | first :: others =>
    let place ← placeText first.pos
    for s in others do
      report s.pos ("multiple defaults (first at " ++ place ++ ")")

/-! ## Switches on values -/

/-- What a switch is on; without a value it is on truth. -/
def switchTag (j : Judge) (tag : Option Expr) (lbrace : Pos) : Check Operand := do
  match tag with
  | none =>
    let expr := Expr.ident { pos := lbrace, name := "true" }
    return { mode := .const (.bool true), expr, type := .basic .bool }
  | some e =>
    let x ← j.assign (← j.expr e) none "switch expression"
    let t ← tables
    if x.isInvalid || t.comparable x.type || t.hasNil x.type then return x
    refuse x ("cannot switch on " ++ (← operandText x))

/-- The values of a case; the result adds its constants to those that were seen before. -/
def caseValues (j : Judge) (tag : Operand) :
    List Expr → (seen : List (Constant × Ty)) → Check (List (Constant × Ty))
  | [], seen => return seen
  | e :: es, seen => do
    let v ← j.expr e
    if tag.isInvalid || v.isInvalid then return ← j.caseValues tag es seen
    match ← matchOperands v tag with
    | none => j.caseValues tag es seen
    | some (v, _) =>
      let result ← j.comparison e .eql v tag true
      match result.isInvalid, v.constant?.bind Constant.caseKey? with
      | false, some c =>
        let t ← tables
        if seen.any fun (d, ty) => c.equal d && t.identical v.type ty then
          let text ← operandText v
          report v.pos s!"duplicate case {text} in expression switch"
          j.caseValues tag es seen
        else j.caseValues tag es ((c, v.type) :: seen)
      | _, _ => j.caseValues tag es seen

/-- The clauses of a switch; control can fall through from each but the last. -/
def caseClauses (j : Judge) (flow : Flow) (tag : Operand) :
    List Stmt → (seen : List (Constant × Ty)) → Check Unit
  | [], _ => return ()
  | .caseClause _ values _ list :: rest, seen => do
    let seen ← j.caseValues tag (values.getD []) seen
    let own := if rest.isEmpty then { flow with inLastClause := true }
      else { flow with canFallThrough := true }
    withScope <| j.stmts own list
    j.caseClauses flow tag rest seen
  | _ :: rest, seen => j.caseClauses flow tag rest seen

def switchStmt (j : Judge) (flow : Flow) (tag : Option Expr) (b : Block) : Check Unit := do
  let x ← j.switchTag tag b.lbrace
  reportDefaults b.list
  j.caseClauses { flow with canBreak := true } x b.list []

/-! ## Switches on types -/

/-- Whether an expression is `nil`. -/
def isNilName (e : Expr) : Check Bool := do
  match e.unparen with
  | .ident i =>
    match ← lookup i.name with
    | some id =>
      match (← objectAt id).entity with
      | .nil => return true
      | _ => return false
    | none => return false
  | _ => return false

/-- The types of a case, with nothing for `nil`; the result adds them to those that were seen before. -/
def caseTypes (j : Judge) (x : Option Operand) :
    List Expr → (seen : List (Option Ty)) → Check (List (Option Ty) × List (Option Ty))
  | [], seen => return ([], seen)
  | e :: es, seen => do
    let ty ← if ← isNilName e then pure none else some <$> j.varType e
    let t ← tables
    let isSame : Option Ty → Bool := fun other => match ty, other with
      | none, none => true
      | some a, some b => t.identical a b
      | _, _ => false
    if ty.any t.isInvalid then
      let (tys, seen) ← j.caseTypes x es seen
      return (ty :: tys, seen)
    if seen.any isSame then
      let text ← match ty with
        | some ty => typeText ty
        | none => pure "nil"
      report e.pos s!"duplicate case {text} in type switch"
      let (tys, seen) ← j.caseTypes x es seen
      return (ty :: tys, seen)
    match x, ty with
    | some x, some goal =>
      match ← j.impossible? x goal with
      | some cause =>
        let source := e.summary
        let text ← operandText x
        let name ← typeText goal
        report e.pos
          s!"impossible type switch case: {source}\n\t{text} cannot have dynamic type {name} {cause}"
      | none => pure ()
    | _, _ => pure ()
    let (tys, seen) ← j.caseTypes x es (ty :: seen)
    return (ty :: tys, seen)

/-- The clauses of a type switch. Each declares a variable of its own if there is a name for it, of the
type of the clause if that is one; the result is these variables. -/
def typeClauses (j : Judge) (flow : Flow) (name : Option Ident) (x : Option Operand) :
    List Stmt → (seen : List (Option Ty)) → Check (List Nat)
  | [], _ => return []
  | .caseClause _ types _ list :: rest, seen => do
    let (tys, seen) ← j.caseTypes x (types.getD []) seen
    let own ← withScope do
      let own ← match name with
        | some i =>
          let id ← newVar i
          let type := match tys with
            | [some ty] => ty
            | _ => (x.map Operand.type).getD .invalid
          modifyObject id fun o => { o with type := some type }
          declareAll [id]
          pure [id]
        | none => pure []
      j.stmts flow list
      pure own
    return own ++ (← j.typeClauses flow name x rest seen)
  | _ :: rest, seen => j.typeClauses flow name x rest seen

/-- The name that a type switch declares, and what it is on. -/
def typeGuard : Stmt → Option Ident × Option Expr
  | .assign (.ident i :: _) _ _ (.typeAssert x _ _ _ :: _) => (some i, some x)
  | .expr (.typeAssert x _ _ _) => (none, some x)
  | _ => (none, none)

/-- The variables of the clauses of a type switch count as one, which has to be used. -/
def typeSwitch (j : Judge) (flow : Flow) (guard : Stmt) (b : Block) : Check Unit := do
  let (name, source) := typeGuard guard
  let name ← match name with
    | some i =>
      if i.name = "_" then
        report i.pos "no new variable on left side of :="
        pure none
      else pure (some i)
    | none => pure none
  let x ← match source with
    | some e =>
      let x ← j.expr e
      let t ← tables
      let text ← operandText x
      if x.isInvalid then pure none
      else if t.isParam x.type then
        report x.pos s!"cannot use {text} in type switch"
        pure none
      else if t.isInterface x.type then pure (some x)
      else
        report x.pos s!"{text} is not an interface"
        pure none
    | none => pure none
  reportDefaults b.list
  let vars ← j.typeClauses { flow with canBreak := true, inTypeSwitch := true } name x b.list []
  match name with
  | none => return ()
  | some i =>
    let mut isUsed := false
    for id in vars do
      if (← objectAt id).isUsed then isUsed := true
      modifyObject id fun o => { o with isUsed := true }
    if !isUsed then report i.pos s!"declared and not used: {i.name}"

/-! ## Communications -/

/-- Whether a statement sends or receives. -/
def isCommunication (s : Stmt) : Bool :=
  let receives (e : Expr) : Bool := match e.unparen with
    | .unary _ .arrow _ => true
    | _ => false
  match s with
  | .send .. => true
  | .expr e => receives e
  | .assign _ _ _ [e] => receives e
  | _ => false

def selectStmt (j : Judge) (flow : Flow) (b : Block) : Check Unit := do
  let flow := { flow with canBreak := true }
  reportDefaults b.list
  for s in b.list do
    match s with
    | .commClause _ comm _ list =>
      match comm.filter fun s => !isCommunication s with
      | some s => report s.pos "select case must be receive, send or assign recv"
      | none =>
        withScope do
          match comm with
          | some s => within (fun e => { e with flow }) <| j.stmt s
          | none => pure ()
          j.stmts flow list
    | _ => pure ()

end Judge
end Desugar.Typing

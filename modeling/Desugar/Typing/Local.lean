import Desugar.Typing.Task

/-!
# Declarations and assignments in functions

Names that a statement declares are in scope behind it. Bodies of function literals in it are checked
before that.
-/
namespace Desugar.Typing

open Host (Expr Spec Decl Ident Kind Pos)

namespace Judge

/-! ## Declarations -/

/-- A new variable of a function, which is not in scope yet. -/
def newVar (i : Ident) : Check Nat := do
  let e ← env
  addObject
    { name := i.name, entity := .var, package := e.package, file := e.file, pos := i.pos
      isLocal := true }

/-- Brings objects into scope. -/
def declareAll (ids : List Nat) : Check Unit := do
  let scope := (← env).scope
  for id in ids do
    let o ← objectAt id
    declareName scope { pos := o.pos, name := o.name } id

def localConsts (j : Judge) : (specs : List Spec) → (iota : Nat) → Repeated → Check Unit
  | [], _, _ => return ()
  | s@(.value _ names type values _) :: rest, iota, last => do
    let (last, source) := last.next s.pos type values
    checkCount s.pos names last.values true source
    let top := (← get).waiting.size
    let e ← env
    let mut ids := []
    for (i, n) in names.zipIdx do
      let id ← addObject
        { name := i.name, entity := .const .unknown, package := e.package, file := e.file, pos := i.pos }
      within (fun e => { e with iota := some iota }) <|
        j.constDecl id last.type last.values[n]? source.isSome
      ids := ids ++ [id]
    j.drain top
    declareAll ids
    j.localConsts rest (iota + 1) last
  | _ :: rest, iota, last => j.localConsts rest (iota + 1) last

def localVars (j : Judge) (names : List Ident) (type : Option Expr) (values : List Expr) :
    Check Unit := do
  checkCount 0 names values false none
  let top := (← get).waiting.size
  let ids ← names.mapM newVar
  match values, ids with
  | [v], id :: _ => j.varDecl id ids type (some v)
  | vs, ids =>
    for (id, n) in ids.zipIdx do
      j.varDecl id [id] type vs[n]?
  j.drain top
  declareAll ids

def localType (j : Judge) (name : Ident) (source : Source) : Check Unit := do
  match source with
  | .type tparams isAlias e =>
    let around ← env
    let id ← addObject
      { name := name.name, entity := .type, progress := .active, package := around.package
        file := around.file, pos := name.pos, scope := around.scope, source }
    declareAll [id]
    modify fun s => { s with path := id :: s.path }
    j.typeDecl id tparams isAlias e
    modify fun s => { s with path := s.path.drop 1 }
    modifyObject id fun o => { o with progress := .done }
  | _ => return ()

def declStmt (j : Judge) (d : Decl) : Check Unit := do
  match d with
  | .gen _ _ .kwConst _ specs _ => j.localConsts specs 0 {}
  | .gen _ _ _ _ specs _ =>
    for s in specs do
      match s with
      | .value _ names type values _ => j.localVars names type values
      | .type _ name tparams assign type _ => j.localType name (.type tparams (assign ≠ 0) type)
      | .imports .. => pure ()
  | _ => pure ()

/-! ## Short declarations -/

/-- The variables on the left of a short declaration. -/
structure ShortTargets where
  /-- All of them, with one that has no name where the left side is wrong. -/
  all : List Nat := []
  /-- Those that are new. -/
  fresh : List Nat := []
  names : List String := []
  isWrong : Bool := false

/-- Adds the variable that a name on the left of a short declaration stands for. A variable of the same
scope is assigned to, any other name is new. -/
def ShortTargets.add (j : Judge) (targets : ShortTargets) (e : Expr) : Check ShortTargets := do
  let refuse (message : String) : Check ShortTargets := do
    report e.pos message
    let id ← newVar { pos := e.pos, name := "_" }
    return { targets with all := targets.all ++ [id], isWrong := true }
  match e with
  | .ident i =>
    if i.name ≠ "_" && targets.names.contains i.name then
      return ← refuse s!"{i.name} repeated on left side of :="
    let targets := { targets with names := i.name :: targets.names }
    match ← inScope? (← env).scope i.name with
    | some id =>
      match (← objectAt id).entity with
      | .var => return { targets with all := targets.all ++ [id] }
      | _ => refuse s!"cannot assign to {i.name}"
    | none =>
      let id ← newVar i
      let fresh := if i.name = "_" then targets.fresh else targets.fresh ++ [id]
      return { targets with all := targets.all ++ [id], fresh }
  | e =>
    discard <| j.areValidTargets [e]
    let source := e.summary
    refuse s!"non-name {source} on left side of :="

def shortDecl (j : Judge) (pos : Pos) (lhs rhs : List Expr) : Check Unit := do
  let top := (← get).waiting.size
  let targets ← lhs.foldlM (ShortTargets.add j) {}
  j.initAll (targets.all.map .object) rhs none
  j.drain top
  if targets.fresh.isEmpty && !targets.isWrong then
    report pos "no new variables on left side of :="
  else declareAll targets.fresh

/-! ## Assignments -/

/-- The operator of an assignment that combines. -/
def combined : Kind → Option Kind
  | .addAssign => some .add
  | .subAssign => some .sub
  | .mulAssign => some .mul
  | .quoAssign => some .quo
  | .remAssign => some .rem
  | .andAssign => some .and
  | .orAssign => some .or
  | .xorAssign => some .xor
  | .shlAssign => some .shl
  | .shrAssign => some .shr
  | .andNotAssign => some .andNot
  | _ => none

/-- Assigns what an operator makes of a variable and another operand. -/
def combine (j : Judge) (lhs : Expr) (pos : Pos) (op : Kind) (rhs : Expr) (context : String) :
    Check Unit := do
  let x ← j.expr lhs
  let y ← j.expr rhs
  let source := lhs.summary ++ " " ++ op.text ++ "= " ++ rhs.summary
  let z ← j.binaryOperands lhs source op pos x y
  if !z.isInvalid then discard <| j.assignTo lhs z context

def assignStmt (j : Judge) (lhs : List Expr) (pos : Pos) (tok : Kind) (rhs : List Expr) :
    Check Unit := do
  match tok, combined tok, lhs, rhs with
  | .define, _, _, _ => j.shortDecl ((lhs.head?.map Expr.pos).getD pos) lhs rhs
  | _, some op, [l], [r] => j.combine l pos op r "assignment operation"
  | _, some _, _, _ =>
    let word := tok.text
    report pos s!"assignment operation {word} requires single-valued expressions"
  | _, none, _, _ => j.assignAll lhs rhs

def incDec (j : Judge) (e : Expr) (pos : Pos) (tok : Kind) : Check Unit := do
  let x ← j.expr e
  if x.isInvalid then return
  if !(← tables).allBasic Basic.isNumeric x.type then
    let source := e.summary
    let word := tok.text
    let text ← typeText x.type
    report e.pos s!"invalid operation: {source}{word} (non-numeric type {text})"
    return
  let one : Expr := .literal { pos := e.pos, kind := .int, value := "1" }
  j.combine e pos (if tok = .inc then .add else .sub) one "assignment"

end Judge
end Desugar.Typing

import Desugar.Typing.Decl
import Desugar.Typing.Label

/-!
# What waits

Bodies of functions, and what can be said of finished types only, wait until the statement or the
declarations around them have been checked.
-/
namespace Desugar.Typing

open Host (Expr Stmt Block Pos)

/-! ## Variables that are not used -/

/-- The scopes of a function, outer ones first: that of its parameters, and those from `first` on that lie
in it but not in a function further inside. -/
def State.scopesOf (s : State) (function first : Nat) : List Nat :=
  let own := ((List.range' first (s.scopes.size - first)).foldl (fun own id =>
    match s.scopes[id]? with
    | some c => if !c.isFunction && c.parent.any own.contains then id :: own else own
    | none => own) [function])
  own.reverse

/-- The variables of a scope that have to be used and are not, in the order of the text. -/
def State.unusedIn (s : State) (scope : Nat) : List Obj :=
  let names := ((s.scopes[scope]?).map Scope.names).getD []
  let objects := names.filterMap fun n => s.objects[n.2]?
  (objects.filter fun o => o.isLocal && !o.isUsed).mergeSort fun a b => a.pos ≤ b.pos

namespace Judge

/-- Reports the variables of a function that are not used. -/
def reportUnused (function first : Nat) : Check Unit := do
  let s ← get
  for scope in s.scopesOf function first do
    for o in s.unusedIn scope do
      report o.pos s!"declared and not used: {o.name}"

/-! ## Bodies -/

/-- Statements one after another; only the last one may fall through. -/
def stmts (j : Judge) (flow : Flow) (list : List Stmt) : Check Unit := do
  let list := (list.reverse.dropWhile Stmt.isEmpty).reverse
  for (s, i) in list.zipIdx do
    let canFallThrough := flow.canFallThrough && i + 1 = list.length
    within (fun e => { e with flow := { flow with canFallThrough } }) <| j.stmt s

/-- Checks the body of the function around. -/
def body (j : Judge) (b : Block) : Check Unit := do
  let around ← env
  let first := (← get).scopes.size
  j.stmts {} b.list
  for (i, fault) in labelFaults b do
    let line ← match fault with
      | .overVariable pos => lineText pos
      | _ => pure ""
    report i.pos (fault.message line i.name)
  let panics := (← get).panics
  let isPanic : Expr → Bool
    | .call _ _ _ _ closing => panics.contains closing
    | _ => false
  if around.results.any (!·.isEmpty) && !b.terminates isPanic then report b.rbrace "missing return"
  reportUnused around.function first

/-! ## Finished types -/

/-- The type of a variable is no interface that asks for more than methods. -/
def checkVarType (e : Expr) (ty : Ty) : Check Unit := do
  let t ← tables
  if !t.isPlainInterface ty then return
  let set := t.typeSet ty
  let text ← typeText ty
  let complain (cause : String) : Check Unit :=
    report e.pos s!"cannot use type {text} outside a type constraint: interface {cause}"
  if set.terms.isSome then complain "contains type constraints"
  else if set.comparable then complain "is (or embeds) comparable"

/-- Keys of maps can be compared. -/
def checkMapKey (e : Expr) (ty : Ty) : Check Unit := do
  let t ← tables
  if t.comparable ty then return
  let text ← typeText ty
  let cause := if t.isParam ty then " (missing comparable constraint)" else ""
  report e.pos s!"invalid map key type {text}{cause}"

/-- A field without a name of its own has a declared type that is no pointer, or a pointer to a declared
type that is neither a pointer nor an interface. -/
def checkEmbedded (pos : Pos) (ty : Ty) : Check Unit := do
  let t ← tables
  let (base, isPointer) := match t.unalias ty with
    | .pointer base => (base, true)
    | _ => (ty, false)
  let complain (cause : String) : Check Unit := report pos s!"embedded field type cannot be {cause}"
  match t.under base with
  | .basic .unsafePointer => complain "unsafe.Pointer"
  | .pointer _ => complain "a pointer"
  | .iface .. =>
    if t.isParam base then complain "a type parameter"
    else if isPointer then complain "a pointer to an interface"
  | _ => pure ()

/-- Type arguments satisfy the constraints of type parameters; the first that does not is reported. -/
def checkTypeArguments (j : Judge) (pos : Pos) (sites : List Expr) (params : List Nat)
    (args : List Ty) : Check Unit := do
  for ((p, arg), i) in (params.zip args).zipIdx do
    let t ← tables
    let bound := (t.paramInfo p).constraint.substParams params args
    let bound := if t.isInterface bound then bound else .iface [] [bound] true
    match ← j.obstacle arg bound true with
    | some cause => return ← report ((sites[i]?.map Expr.pos).getD pos) cause
    | none => pure ()

/-- The terms of a union are types, not interfaces that ask for more, a tilde stands before a type that is
its own structure, and no two of them admit the same type. -/
def checkUnion : (before rest : List (Expr × Ty)) → Check Unit
  | _, [] => return ()
  | before, (e, term) :: rest => do
    let t ← tables
    let (isTilde, ty) := match term with
      | .tilde ty => (true, ty)
      | ty => (false, ty)
    let u := t.under ty
    let text ← typeText term
    let name ← typeText ty
    let overlaps : Ty → Bool
      | .tilde x => t.identical (if isTilde then t.under x else x) u
      | x => !t.isInterface x && t.identical (if isTilde then t.under x else x) ty
    if t.isInvalid ty then pure ()
    else if isTilde && t.isInterface ty then report e.pos s!"invalid use of ~ ({name} is an interface)"
    else if isTilde && !t.identical u ty then
      let shape ← typeText u
      report e.pos s!"invalid use of ~ (underlying type of {name} is {shape})"
    else if t.isInterface ty then
      let set := t.typeSet ty
      if !set.methods.isEmpty then
        report e.pos s!"cannot use {text} in union ({text} contains methods)"
      else if t.unalias ty == .named Tables.comparableId [] then
        report e.pos "cannot use comparable in union"
      else if set.comparable && set.terms.isNone then
        report e.pos s!"cannot use {text} in union ({text} embeds comparable)"
    else match before.find? fun x => overlaps x.2 with
      | some (_, other) =>
        let other ← typeText other
        report e.pos s!"overlapping terms {text} and {other}"
      | none => pure ()
    checkUnion (before ++ [(e, term)]) rest

/-- Values of a declared type hold no values of itself. -/
def checkFinite (id : Nat) : Check Unit := do
  let o ← objectAt id
  let t ← tables
  match o.type with
  | some (.named n _) =>
    if ((t.namedInfo n).underlying).any (t.holds n) then report o.pos (cycleText o true)
  | _ => return ()

/-! ## The queue -/

/-- Does what waits. -/
def perform (j : Judge) (w : Waiting) : Check Unit :=
  within (fun _ => w.env) do
    match w.task with
    | .body b => j.body b
    | .varType e ty => checkVarType e ty
    | .mapKey e ty => checkMapKey e ty
    | .embedded pos ty => checkEmbedded pos ty
    | .typeArguments pos sites params args => j.checkTypeArguments pos sites params args
    | .union terms => checkUnion [] terms
    | .finite id => checkFinite id
    | .complaint pos message => report pos message

/-- How many tasks are done at most. -/
def taskBound : Nat := 1000000

/-- Does the tasks from a place in the queue on, and those that they add. -/
def drainFrom (j : Judge) : (fuel : Nat) → (next : Nat) → Check Unit
  | 0, _ => return ()
  | fuel + 1, next => do
    match (← get).waiting[next]? with
    | none => return ()
    | some w =>
      j.perform w
      j.drainFrom fuel (next + 1)

/-- Does the tasks from a place in the queue on and takes them off it. -/
def drain (j : Judge) (top : Nat) : Check Unit := do
  j.drainFrom taskBound top
  modify fun s => { s with waiting := s.waiting.take top }

end Judge
end Desugar.Typing

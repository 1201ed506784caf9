import Desugar.Typing.Assign

/-!
# Types of declared names

An object's type is found when it is first asked for. An object that is asked for while its type is
being found is on a cycle, and not all cycles make sense.
-/
namespace Desugar.Typing

open Host (Expr FieldList FuncType Block)

namespace Judge

/-- Whether a cycle of objects makes sense: one of values only, which no type depends on, or one with a
declared type in it. -/
def isValidCycle (cycle : List Obj) : Bool :=
  let isValue (o : Obj) : Bool := match o.entity with
    | .const _ | .var => true
    | _ => false
  let isDefinition (o : Obj) : Bool := match o.entity with
    | .type => !o.isAlias
    | _ => false
  cycle.all isValue || (!cycle.any isValue && cycle.any isDefinition)

/-- The message on a cycle of objects that makes no sense, of which the first is shown. -/
def cycleText (o : Obj) (isAlone : Bool) : String :=
  match o.entity, isAlone with
  | .type, true => s!"invalid recursive type: {o.name} refers to itself"
  | .type, false => s!"invalid recursive type {o.name}"
  | _, true => s!"invalid cycle in declaration: {o.name} refers to itself"
  | _, false => s!"invalid cycle in declaration of {o.name}"

/-- The object that stands first in the text. -/
def firstOf (o : Obj) (others : List Obj) : Obj :=
  others.foldl (fun a b => if b.file < a.file || (b.file = a.file && b.pos < a.pos) then b else a) o

/-- An object that is asked for while its type is being found. -/
def cycle (id : Nat) : Check Unit := do
  let s ← get
  let ids := s.path.takeWhile (· ≠ id) ++ [id]
  let objects ← ids.mapM objectAt
  let valid := isValidCycle objects
  let o ← objectAt id
  if !valid then
    let first := firstOf o objects
    within (fun e => { e with file := first.file }) <|
      report first.pos (cycleText first (objects.length = 1))
  match o.entity with
  | .const _ | .var =>
    if !valid || o.type.isNone then modifyObject id fun o => { o with type := some .invalid }
  | .type => if !valid then modifyObject id fun o => { o with type := some .invalid }
  | _ => pure ()

/-- A constant, whose type may be given. What is wrong with a value that it repeats is reported at the
constant. -/
def constDecl (j : Judge) (id : Nat) (type init : Option Expr) (repeats : Bool) : Check Unit := do
  let fail : Check Unit := modifyObject id fun o => { o with type := some (o.type.getD .invalid) }
  match type with
  | some e =>
    let ty ← j.type e
    let t ← tables
    if !t.isBasic Basic.isConstType ty then
      if !(t.under ty).isInvalid then
        let text ← typeText ty
        report e.pos s!"invalid constant type {text}"
      modifyObject id fun o => { o with type := some .invalid }
      return
    modifyObject id fun o => { o with type := some ty }
  | none => pure ()
  match init with
  | none => fail
  | some e =>
    let pos := (← objectAt id).pos
    within (fun e => { e with site := if repeats then some pos else none }) do
      let x ← j.expr e
      let t ← tables
      if x.isInvalid || t.isInvalid x.type then fail
      else if !x.isConst then
        let text ← operandText x
        report x.pos s!"{text} is not constant"
        fail
      else
        let ty := (← objectAt id).type.getD x.type
        modifyObject id fun o => { o with type := some ty }
        let x ← j.assign x (some ty) "constant declaration"
        match x.constant? with
        | some v => modifyObject id fun o => { o with entity := .const v }
        | none => pure ()

/-- A variable, or some that share a value. -/
def varDecl (j : Judge) (id : Nat) (all : List Nat) (type init : Option Expr) : Check Unit := do
  let ty ← match type with
    | some e => pure (some (← j.varType e))
    | none => pure none
  match ty with
  | some ty =>
    for v in (if init.isSome then all else [id]) do
      modifyObject v fun o => { o with type := some ty }
    modifyObject id fun o => { o with type := some ty }
  | none => pure ()
  match init, all with
  | none, _ => modifyObject id fun o => { o with type := some (o.type.getD .invalid) }
  | some e, [_] =>
    let x ← j.exprForTarget (.object id) e
    discard <| j.store (.object id) x "variable declaration"
  | some e, vs => j.initAll (vs.map .object) [e] none

/-- Methods of a declared type. -/
def methodsOf (id : Nat) : Check (List (String × Nat)) := do
  let s ← get
  let mine := s.methods.filter (·.1 = id)
  return mine.map fun (_, m) => (((s.objects[m]?).getD default).name, m)

/-- A declared type, or another name of a type. -/
def typeDecl (j : Judge) (id : Nat) (tparams : Option FieldList) (isAlias : Bool) (e : Expr) :
    Check Unit := do
  let o ← objectAt id
  later (.finite id)
  if isAlias then
    let a ← addAlias { name := o.name, package := some o.package, tparams := [], target := .invalid }
    modifyObject id fun o => { o with type := some (.alias a []) }
    withScope do
      let ps ← j.typeParams tparams
      modifyAlias a fun i => { i with tparams := ps }
      let target ← j.type e
      modifyAlias a fun i => { i with target }
  else
    let n ← addNamed
      { name := o.name, package := some o.package, tparams := [], underlying := none
        methods := ← methodsOf id }
    modifyObject id fun o => { o with type := some (.named n []) }
    withScope do
      let ps ← j.typeParams tparams
      modifyNamed n fun i => { i with tparams := ps }
      let target ← j.type e
      let t ← tables
      if t.isParam target then
        report e.pos "cannot use a type parameter as RHS in type declaration"
        modifyNamed n fun i => { i with underlying := some .invalid }
      else modifyNamed n fun i => { i with underlying := some target }

/-- A function or a method; its body waits. -/
def funcDecl (j : Judge) (id : Nat) (recv : Option FieldList) (ft : FuncType) (body : Option Block) :
    Check Unit := do
  modifyObject id fun o => { o with type := some (.func [] [] [] false), progress := .done }
  let (ty, scope, receiverParams) ← j.signature recv ft
  modifyObject id fun o => { o with type := some ty, receiverParams }
  match body, ty with
  | some b, .func _ _ results _ => awaitBody scope results b
  | _, _ => pure ()

/-- Finds the type of an object. -/
def resolve (j : Judge) (id : Nat) : Check Unit := do
  let o ← objectAt id
  match o.progress with
  | .done => return
  | .active => cycle id
  | .pending =>
    if o.type.isSome then modifyObject id fun o => { o with progress := .done }
    else
      modifyObject id fun o => { o with progress := .active }
      modify fun s => { s with path := id :: s.path }
      within (fun _ => { scope := o.scope, package := o.package, file := o.file }) do
        match o.source with
        | .known => pure ()
        | .const type init iota repeats =>
          within (fun e => { e with iota := some iota }) <| j.constDecl id type init repeats
        | .var all type init => j.varDecl id all type init
        | .type tparams isAlias e => j.typeDecl id tparams isAlias e
        | .func recv type body => j.funcDecl id recv type body
      modify fun s => { s with path := s.path.drop 1 }
      modifyObject id fun o => { o with type := some (o.type.getD .invalid), progress := .done }

end Judge
end Desugar.Typing

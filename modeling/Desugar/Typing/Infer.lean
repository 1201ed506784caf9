import Desugar.Typing.Convert
import Desugar.Typing.Unify

/-!
# Inference of type arguments

Type arguments of a call are found from its typed arguments first, then from what constraints say, and
last from untyped constants, which take on the most general of their types.
-/
namespace Desugar.Typing

open Host (Pos)

/-- Type parameters in words. -/
def paramsText (t : Tables) (ps : List Nat) : String :=
  let names := ps.map fun p => (t.paramInfo p).name
  match names.reverse with
  | [] => ""
  | [a] => a
  | [b, a] => s!"{a} and {b}"
  | z :: rest => ", ".intercalate rest.reverse ++ ", and " ++ z

/-- New type parameters in the place of others, and the replacement. -/
def renameParams (ps : List Nat) : Check (List Nat × (Ty → Ty)) := do
  let t ← tables
  let first := t.params.size
  let fresh := ps.zipIdx.map fun (_, i) => first + i
  let rename := Ty.substParams ps (fresh.map .param)
  for p in ps do
    let info := t.paramInfo p
    discard <| addParam { info with constraint := rename info.constraint }
  return (fresh, rename)

/-- The structure that a type parameter's constraint asks for, whether types declared by it will do as
well, and whether the constraint names one term only. -/
def Tables.coreTerm (t : Tables) (p : Nat) : Option (Term × Bool) :=
  match t.termsOf (.param p) with
  | some [x] => some (x, true)
  | some (x :: xs) => (t.core (.param p)).map fun c => (((x :: xs).any (·.1), c), false)
  | _ => none

/-- Why type arguments could not be found; an error that was reported before is no reason. -/
abbrev InferenceFailure := Option (Pos × Message)

def failAt {α : Type} (pos : Pos) (message : Message) : ExceptT InferenceFailure Unification α :=
  throw (some (pos, message))

namespace Judge

/-- How deep unification goes. -/
def unifyBound : Nat := 100

/-- What is known of type parameters. -/
def inferredBy (u : Unifier) (ps : List Nat) : List (Option Ty) := ps.map u.known?

/-- Replaces what is known of type parameters. -/
def substKnown (ps : List Nat) (known : List (Option Ty)) (ty : Ty) : Ty :=
  ty.subst fun id => ((ps.zip known).lookup id).join

/-- Why an argument does not fit the parameter of a function; `reverse` tells that the argument stands for
what the function is assigned to. -/
def mismatchText (u : Unifier) (ps : List Nat) (param : Ty) (arg : Operand) (reverse : Bool) :
    Check String := do
  let known := inferredBy u ps
  let given ← typeText arg.type
  let source := arg.expr.summary
  let pText ← typeText param
  if known.all Option.isNone then
    let names := paramsText (← tables) ps
    return s!"type {given} of {source} does not match {pText} (cannot infer {names})"
  let inferred := substKnown ps known param
  if inferred == param then return s!"type {given} of {source} does not match {pText}"
  let iText ← typeText inferred
  return if reverse then s!"inferred type {iText} for {pText} does not match type {given} of {source}"
    else s!"type {given} of {source} does not match inferred type {iText} for {pText}"

/-- Uses what constraints say, once for each type parameter. -/
def useConstraints (j : Judge) (pos : Pos) : List Nat → ExceptT InferenceFailure Unification Unit
  | [] => return ()
  | p :: ps => do
    let t ← tables
    let known := (← getThe Unifier).known? p
    let bound := (t.paramInfo p).constraint
    match t.coreTerm p, known with
    | some (core, _), some ty =>
      if !(← j.unify false unifyBound false ty core.2) then
        let given ← typeText ty
        let goal ← typeText bound
        let name := (t.paramInfo p).name
        failAt pos s!"{name} (type {given}) does not satisfy {goal}"
    | some (core, lone), none =>
      if lone && !core.1 then modifyThe Unifier (·.set p core.2)
    | none, some ty =>
      for (m, f) in (t.typeSet bound).methods do
        let s ← getThe State
        let fits ← match (s.searchType false m.name m.package false ty).selected? with
          | some g => if g.isMethod then j.unify false unifyBound true (← j.methodType g) f else pure false
          | none => pure false
        if !fits then
          let given ← typeText ty
          let goal ← typeText bound
          let name := (t.paramInfo p).name
          let cause := (← j.missingMethod ty [(m, f)] true identical).getD ""
          failAt pos s!"{name} (type {given}) does not satisfy {goal} {cause}"
    | none, none => pure ()
    j.useConstraints pos ps

/-- Uses what constraints say as long as that finds new types. -/
def useAllConstraints (j : Judge) (pos : Pos) (ps : List Nat) :
    (fuel : Nat) → ExceptT InferenceFailure Unification Unit
  | 0 => return ()
  | fuel + 1 => do
    let before := (← getThe Unifier).unknowns
    j.useConstraints pos ps
    if (← getThe Unifier).unknowns ≠ before then j.useAllConstraints pos ps fuel

/-- Untyped constants give their most general type to the type parameters that they stand for. -/
def useUntyped (untyped : List (Nat × Operand)) : ExceptT InferenceFailure Unification Unit := do
  let mut most : List (Nat × Ty) := []
  for (p, x) in untyped do
    if ((← getThe Unifier).known? p).isNone then
      match most.lookup p with
      | none => most := (p, x.type) :: most
      | some m =>
        match Tables.maxUntyped m x.type with
        | some ty => most := (p, ty) :: most.filter (·.1 ≠ p)
        | none =>
          let first ← typeText m
          let second ← typeText x.type
          let name := ((← tables).paramInfo p).name
          failAt x.pos s!"mismatched types {first} and {second} (cannot infer {name})"
  for (p, ty) in most do
    modifyThe Unifier (·.set p ty.default)

/-- Uses the arguments of a call. -/
def useArguments (j : Judge) (ps : List Nat) (args : List (Ty × Operand)) (reverse : Bool) :
    ExceptT InferenceFailure Unification (List (Nat × Operand)) := do
  let mut untyped := []
  for (param, x) in args do
    if param.mentions ps.contains || x.type.mentions ps.contains then
      if x.type.isTyped then
        if !(← j.unify true unifyBound false param x.type) then
          failAt x.pos (← mismatchText (← getThe Unifier) ps param x reverse)
      else match param with
        | .param p => if !x.isNil then untyped := untyped ++ [(p, x)]
        | _ => pure ()
  return untyped

/-- Type arguments of a call, from those that are given, and from parameters and arguments. -/
def infer (j : Judge) (pos : Pos) (ps : List Nat) (given : List (Option Ty)) (params : List Ty)
    (args : List Operand) (reverse : Bool := false) :
    Check (Except InferenceFailure (List Ty)) := do
  if given.all Option.isSome then return .ok (given.filterMap id)
  if args.any Operand.isInvalid then return .error none
  let params := params.map (substKnown ps given)
  let search : ExceptT InferenceFailure Unification Unit := do
    let untyped ← j.useArguments ps (params.zip args) reverse
    j.useAllConstraints pos ps (ps.length + 1)
    useUntyped untyped
  let (result, u) ← search.run.run (Unifier.start ps given)
  match result with
  | .error e => return .error e
  | .ok () =>
    let known := (List.range ps.length).foldl
      (fun known _ => known.map fun k => k.map (substKnown ps known)) (inferredBy u ps)
    match (ps.zip known).find? fun (_, k) => k.all (·.mentions ps.contains) with
    | some (p, _) =>
      let info := (← tables).paramInfo p
      return .error (some (pos, s!"cannot infer {info.name} (declared at " ++ info.origin ++ ")"))
    | none => return .ok (known.filterMap id)

end Judge
end Desugar.Typing

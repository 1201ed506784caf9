import Desugar.Typing.Builtin
import Desugar.Typing.Stmt

/-!
# Checking a package

A package is checked for the types of the calls in its first file, and for the errors on the way.
-/
namespace Desugar.Typing

/-!
## What is built in
-/

/-- The basic types that have names. -/
def namedBasics : List Basic :=
  [.bool, .int, .int8, .int16, .int32, .int64, .uint, .uint8, .uint16, .uint32, .uint64, .uintptr,
   .float32, .float64, .complex64, .complex128, .string, .byte, .rune]

/-- The built-in functions that need no package. -/
def namedBuiltins : List Builtin :=
  [.append, .cap, .clear, .close, .complex, .copy, .delete, .imag, .len, .make, .max, .min, .new,
   .panic, .print, .println, .real, .recover]

/-- The interface of errors: one method that gives a text. -/
def errorInterface : Ty :=
  let text : Member × Ty := ({ name := "" }, .basic .string)
  .iface [({ name := "Error" }, .func [] [] [text] false)] [] false

def builtinObjects : List Obj :=
  let type (name : String) (ty : Ty) : Obj := { name, entity := .type, type := some ty }
  let truth (name : String) (b : Bool) : Obj :=
    { name, entity := .const (.bool b), type := some (.basic .untypedBool) }
  namedBasics.map (fun b => type b.name (.basic b)) ++
  [type "error" (.named Tables.errorId []), type "comparable" (.named Tables.comparableId []),
   type "any" (.alias Tables.anyId []), truth "true" true, truth "false" false,
   { name := "iota", entity := .iota, type := some (.basic .untypedInt) },
   { name := "nil", entity := .nil, type := some (.basic .untypedNil) }] ++
  namedBuiltins.map fun b => { name := b.name, entity := .builtin b, type := some .invalid }

def builtinTables (package : String) : Tables where
  named := #[
    { name := "error", package := none, tparams := [], underlying := some errorInterface, methods := [] },
    { name := "comparable", package := none, tparams := [], underlying := some (.iface [] [] false)
      methods := [] }]
  aliases := #[{ name := "any", package := none, tparams := [], target := .iface [] [] true }]
  packages := #[
    { path := "", name := package, scope := 1, isFake := false, isLoaded := true },
    { path := "unsafe", name := "unsafe", scope := 2, isFake := false, isLoaded := false }]

/-- The scope of the package that is checked. -/
def ownScope : Nat := 1

/-- The state before a package of some name is checked. -/
def State.start (package : String) : State where
  tables := builtinTables package
  objects := builtinObjects.toArray
  scopes := #[
    { parent := none, names := builtinObjects.zipIdx.map fun (o, i) => (o.name, i) },
    { parent := some builtinScope, names := [] },
    { parent := some builtinScope, names := [] }]
  errors := #[]
  calls := []
  waiting := #[]
  panics := []
  path := []
  methods := []
  env := { scope := ownScope, package := Tables.ownPackage, file := 0 }

/-! ## Checks -/

open Host (Expr Pos File)

/-- The judgements for what is nested at most so deep. -/
def judge : (depth : Nat) → Judge
  | 0 => .exhausted
  | depth + 1 =>
    { raw := fun e hint generic => (judge depth).operand e hint generic
      type := fun e => (judge depth).wholeType e
      object := fun id => (judge depth).resolve id
      stmt := fun s => (judge depth).statement s }

/-- What a check found out. -/
structure Checked where
  tables : Tables
  /-- Types of the calls of the first file, by their closing parentheses; the last found comes first. -/
  calls : List (Pos × Ty)
  /-- All errors in the order in which they were found. -/
  errors : List TypeError

/-- Collects the declarations of the files of the package. -/
def collectFiles (files : List File) : Check (List Nat) := do
  let mut objects := []
  let mut methods := []
  for (f, n) in files.zipIdx do
    let inner ← openScope ownScope
    let scope : FileScope := { package := Tables.ownPackage, file := n, outer := ownScope, inner }
    let c ← collectFile Library.describe scope f
    for p in c.dotImports do
      loadPackage p
      let outer := ((← tables).packageInfo p).scope
      for (name, id) in ((((← get).scopes[outer]?).map Scope.names).getD []).reverse do
        if isExported name then discard <| declareIn inner name id
    objects := objects ++ c.objects
    methods := methods ++ c.methods
  attachMethods ownScope methods
  return objects

/-- Follows a type that is declared by a name alone to the next one, until a type comes back. -/
def nameCycle? : (fuel : Nat) → (path : List Nat) → (id : Nat) → Check (Option Nat × List Nat)
  | 0, path, _ => return (none, path)
  | fuel + 1, path, id => do
    if path.contains id then return (some id, path)
    match (← objectAt id).source with
    | .type _ _ (.ident i) =>
      match ← inScope? ownScope i.name with
      | some next =>
        match (← objectAt next).entity with
        | .type => nameCycle? fuel (id :: path) next
        | _ => return (none, id :: path)
      | none => return (none, id :: path)
    | _ => return (none, id :: path)

/-- A type that is declared by names alone, and so by itself, is no type. -/
def refuseNameCycles : (objects seen : List Nat) → Check Unit
  | [], _ => return ()
  | id :: rest, seen => do
    match seen.contains id, (← objectAt id).entity with
    | false, .type =>
      let (cycle, path) ← nameCycle? (← get).objects.size [] id
      match cycle with
      | some start =>
        if !seen.contains start then
          let o ← objectAt start
          within (fun e => { e with file := o.file }) <| report o.pos s!"invalid recursive type {o.name}"
          modifyObject start fun o => { o with type := some .invalid, progress := .done }
      | none => pure ()
      refuseNameCycles rest (path ++ seen)
    | _, _ => refuseNameCycles rest seen

/-- Checks a package: declared types first, then other names of types, then all else, and last the
bodies of functions. -/
def checkFiles (j : Judge) (files : List File) : Check Unit := do
  let ids ← collectFiles files
  refuseNameCycles ids []
  let mut types := []
  let mut aliases := []
  let mut others := []
  for id in ids do
    let o ← objectAt id
    match o.entity with
    | .type => if o.isAlias then aliases := aliases ++ [id] else types := types ++ [id]
    | _ => others := others ++ [id]
  for id in types ++ aliases ++ others do
    j.object id
  j.drain 0

/-- How deep checks nest: not deeper than there are bytes, and some for the known packages. -/
def depthOf (files : List File) : Nat :=
  files.foldl (fun n f => n + f.size) 10000

/-- Checks a package of some name. -/
def check (package : String) (files : List File) : Checked :=
  let (_, s) := (checkFiles (judge (depthOf files)) files).run (State.start package)
  { tables := s.tables, calls := s.calls, errors := s.errors.toList }

end Desugar.Typing

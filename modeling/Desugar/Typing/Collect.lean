import Desugar.Path
import Desugar.Typing.State

/-!
# Declarations

The names that a file declares, with what their types will be found from.
-/
namespace Desugar.Typing

open Host (Expr FieldList Ident Literal Decl Spec File Pos)

/-- Reports that a declaration has too many values or too few. Constants need one for each name, and those
that repeat the values of a declaration before, which stands at `source`, need as many names; one value may
be enough for all variables. -/
def checkCount (pos : Pos) (names : List Ident) (values : List Expr) (isConst : Bool)
    (source : Option Pos) : Check Unit := do
  match values[names.length]?, names[values.length]?, source with
  | some e, _, none =>
    let text := e.summary
    report e.pos s!"extra init expr {text}"
  | some _, _, some source =>
    let place ← placeText source
    report pos ("extra init expr at " ++ place)
  | none, some i, _ =>
    if isConst || 1 < values.length then report i.pos s!"missing init expr for {i.name}"
  | none, none, _ => pure ()

/-- The type and the values of the constants that a declaration before has, and where it stands. -/
structure Repeated where
  type : Option Expr := none
  values : List Expr := []
  pos : Option Pos := none
  deriving Inhabited

/-- What constants are declared by, and where that stands if it stands in a declaration before. -/
def Repeated.next (last : Repeated) (pos : Pos) (type : Option Expr) (values : List Expr) :
    Repeated × Option Pos :=
  if type.isSome || !values.isEmpty then ({ type, values, pos := some pos }, none)
  else (last, last.pos)

/-- What a file adds to its package. -/
structure Collected where
  /-- The objects in the order of their declarations. -/
  objects : List Nat := []
  /-- Methods, each with the name of its receiver's type. -/
  methods : List (String × Nat) := []
  /-- Packages whose names are used without qualification. -/
  dotImports : List Nat := []
  deriving Inhabited

/-- Where a file's declarations go. -/
structure FileScope where
  package : Nat
  file : Nat
  /-- The scope of the package and that of the file in it. -/
  outer : Nat
  inner : Nat
  deriving Inhabited

namespace FileScope

def base (f : FileScope) (i : Ident) (entity : Entity) (source : Source) : Obj :=
  { name := i.name, entity, progress := .pending, package := f.package, file := f.file, pos := i.pos
    scope := f.inner, source }

/-- Declares an object in the package. -/
def declare (f : FileScope) (i : Ident) (entity : Entity) (source : Source) : Check Nat := do
  let id ← addObject (f.base i entity source)
  within (fun e => { e with file := f.file }) <| declareName f.outer i id
  return id

/-- Constants; those without a value repeat the one before with another counter. -/
def consts (f : FileScope) : (specs : List Spec) → (iota : Nat) → Repeated → Check (List Nat)
  | [], _, _ => return []
  | s@(.value _ names type values _) :: rest, iota, last => do
    let (last, source) := last.next s.pos type values
    within (fun e => { e with file := f.file }) <| checkCount s.pos names last.values true source
    let mut ids := []
    for (i, n) in names.zipIdx do
      ids := ids ++
        [← f.declare i (.const .unknown) (.const last.type last.values[n]? iota source.isSome)]
    return ids ++ (← f.consts rest (iota + 1) last)
  | _ :: rest, iota, last => f.consts rest (iota + 1) last

/-- Variables; several may share one value. -/
def vars (f : FileScope) (names : List Ident) (type : Option Expr) (values : List Expr) :
    Check (List Nat) := do
  let first := (← get).objects.size
  let all := names.zipIdx.map fun (_, n) => first + n
  within (fun e => { e with file := f.file }) <| checkCount 0 names values false none
  let mut ids := []
  for (i, n) in names.zipIdx do
    let source := match values with
      | [v] => Source.var all type (some v)
      | vs => Source.var [first + n] type vs[n]?
    ids := ids ++ [← f.declare i .var source]
  return ids

end FileScope

/-- The name of the type of a receiver. -/
def receiverName : Expr → Option String
  | .ident i => some i.name
  | .star _ x => receiverName x
  | .paren _ x _ => receiverName x
  | .index x _ _ _ => receiverName x
  | _ => none

/-- The package of a path, about which nothing more is known yet. -/
def packageOf (describe : String → Option String) (path : String) : Check Nat := do
  let t ← tables
  match t.packages.findIdx? fun p => p.path = path && p.path ≠ "" with
  | some id => return id
  | none =>
    let known := describe path
    let scope ← openScope builtinScope
    let last := String.ofList (Path.lastPart path)
    let info : PackageInfo :=
      { path, name := known.getD last, scope, isFake := known.isNone, isLoaded := false }
    modifyTables fun t => { t with packages := t.packages.push info }
    return t.packages.size

/-- The path between the quotes of an import. -/
def importPath (l : Literal) : String :=
  ((Text.unquote? (Text.utf8 l.value)).map Text.toString).getD ""

/-- Collects what a file declares; `describe` names the packages that are known. -/
def collectFile (describe : String → Option String) (f : FileScope) (file : File) :
    Check Collected := do
  let mut out : Collected := {}
  for spec in file.imports do
    match spec with
    | .imports _ name path _ _ =>
      let package ← packageOf describe (importPath path)
      let info := (← tables).packageInfo package
      if info.isFake then
        within (fun e => { e with file := f.file }) <|
          report path.pos s!"could not import {info.path}"
      let word := (name.map Ident.name).getD info.name
      if word = "." then out := { out with dotImports := out.dotImports ++ [package] }
      else if word ≠ "_" then
        let id ← addObject { name := word, entity := .package package, type := some .invalid, pos := path.pos }
        discard <| declareIn f.inner word id
    | _ => pure ()
  for d in file.decls do
    match d with
    | .gen _ _ .kwConst _ specs _ =>
      out := { out with objects := out.objects ++ (← f.consts specs 0 {}) }
    | .gen _ _ _ _ specs _ =>
      for spec in specs do
        match spec with
        | .value _ names type values _ =>
          out := { out with objects := out.objects ++ (← f.vars names type values) }
        | .type _ name tparams assign type _ =>
          let id ← f.declare name .type (.type tparams (assign ≠ 0) type)
          out := { out with objects := out.objects ++ [id] }
        | .imports .. => pure ()
    | .func _ recv name type body =>
      let source := Source.func recv type body
      match recv with
      | some r =>
        let id ← addObject (f.base name .func source)
        let base := (r.list.head?.bind fun x => receiverName x.type).getD ""
        out := { out with objects := out.objects ++ [id], methods := out.methods ++ [(base, id)] }
      | none =>
        let id ← if name.name = "init" then addObject (f.base name .func source)
          else f.declare name .func source
        out := { out with objects := out.objects ++ [id] }
    | .bad .. => pure ()
  return out

/-- The declared type behind a name, through other names of it. -/
def baseType? (scope : Nat) : (fuel : Nat) → String → Check (Option Nat)
  | 0, _ => return none
  | fuel + 1, name => do
    match ← inScope? scope name with
    | none => return none
    | some id =>
      match (← objectAt id).source with
      | .type _ isAlias e =>
        if !isAlias then return some id
        match receiverName e with
        | some next => baseType? scope fuel next
        | none => return none
      | _ => return none

/-- Gives methods to the types of their receivers. -/
def attachMethods (scope : Nat) (methods : List (String × Nat)) : Check Unit := do
  for (base, id) in methods do
    match ← baseType? scope Tables.depthBound base with
    | some type => modify fun s => { s with methods := s.methods ++ [(type, id)] }
    | none => pure ()

end Desugar.Typing

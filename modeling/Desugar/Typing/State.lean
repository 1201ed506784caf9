import Desugar.Host.LineTable
import Desugar.Typing.Render
import Desugar.Typing.TypeSet

/-!
# The state of a check

Names stand for objects, and an object's type is found when it is first asked for. Bodies of functions
wait until what they may mention is known.
-/
namespace Desugar.Typing

open Host (Expr FieldList FuncType Block Ident Pos LineTable)

/-- Built-in functions. -/
inductive Builtin where
  | append | cap | clear | close | complex | copy | delete | imag | len | make | max | min | new
  | panic | print | println | real | recover
  | pointerAdd | alignOf | offsetOf | sizeOf | pointerSlice | sliceData | pointerString | stringData
  deriving DecidableEq, Repr, Inhabited

/-- What a name stands for. -/
inductive Entity where
  | package (id : Nat)
  | const (value : Constant)
  /-- The counter of constants. -/
  | iota
  | type
  | var
  | func
  | builtin (b : Builtin)
  | nil
  deriving Inhabited

/-- How far the type of an object is known. -/
inductive Progress where
  | pending | active | done
  deriving DecidableEq, Repr, Inhabited

/-- Where the type of an object is found. -/
inductive Source where
  | known
  /-- A constant; one without a value of its own repeats that of a constant before it. -/
  | const (type init : Option Expr) (iota : Nat) (repeats : Bool)
  /-- Variables that share one value, or the only variable of another. -/
  | var (all : List Nat) (type init : Option Expr)
  | type (tparams : Option FieldList) (isAlias : Bool) (type : Expr)
  | func (recv : Option FieldList) (type : FuncType) (body : Option Block)
  deriving Inhabited

structure Obj where
  name : String
  entity : Entity
  type : Option Ty := none
  progress : Progress := .done
  package : Nat := Tables.ownPackage
  file : Nat := 0
  pos : Pos := 0
  /-- The scope in which its declaration is read. -/
  scope : Nat := 0
  source : Source := .known
  /-- Type parameters of a method's receiver. -/
  receiverParams : List Nat := []
  /-- Whether it is a variable of a function's body, which has to be used. -/
  isLocal : Bool := false
  /-- Whether its value is used. -/
  isUsed : Bool := false
  deriving Inhabited

/-- Whether a method is one of pointers. -/
def Obj.hasPointerReceiver (o : Obj) : Bool :=
  match o.source with
  | .func (some (.mk _ (f :: _) _)) _ _ =>
    match f.type.unparen with
    | .star .. => true
    | _ => false
  | _ => false

/-- Whether an object is the other name of a type. -/
def Obj.isAlias (o : Obj) : Bool :=
  match o.source with
  | .type _ isAlias _ => isAlias
  | _ => false

structure Scope where
  parent : Option Nat
  names : List (String × Nat)
  /-- Whether it is the scope of a function's parameters. -/
  isFunction : Bool := false
  deriving Inhabited

/-- The branches without a label that make sense at a place. -/
structure Flow where
  /-- Whether there is something around that can be left. -/
  canBreak : Bool := false
  /-- Whether there is a loop around. -/
  canContinue : Bool := false
  /-- Whether control can go on with the clause after this one. -/
  canFallThrough : Bool := false
  /-- Whether the clause around is the last of its switch. -/
  inLastClause : Bool := false
  /-- Whether the clause around is one of a type switch. -/
  inTypeSwitch : Bool := false
  deriving DecidableEq, Repr, Inhabited

/-- What makes sense further inside: clauses matter only for what stands right in them. -/
def Flow.inner (f : Flow) : Flow := { canBreak := f.canBreak, canContinue := f.canContinue }

/-- Where a check is going on. -/
structure Env where
  scope : Nat
  package : Nat
  file : Nat
  /-- The value of the counter of constants. -/
  iota : Option Nat := none
  /-- Results of the function around, if there is one, and whether they have names. -/
  results : Option (List (Member × Ty)) := none
  /-- The scope of the parameters of the function around. -/
  function : Nat := 0
  flow : Flow := {}
  /-- Where errors are reported, if that is not where they are found. -/
  site : Option Pos := none
  deriving Inhabited

/-- What is checked when all that it may mention is known. -/
inductive Task where
  /-- The body of a function. -/
  | body (b : Block)
  /-- The type of a variable, which has to be more than a constraint. -/
  | varType (e : Expr) (type : Ty)
  /-- The type of a map's keys. -/
  | mapKey (e : Expr) (type : Ty)
  /-- The type of a field without a name of its own. -/
  | embedded (pos : Pos) (type : Ty)
  /-- Type arguments, which have to satisfy the constraints of type parameters. -/
  | typeArguments (pos : Pos) (sites : List Expr) (params : List Nat) (args : List Ty)
  /-- Terms between bars, each with the expression that it stands for. -/
  | union (terms : List (Expr × Ty))
  /-- A declared type, whose values must not hold values of itself. -/
  | finite (id : Nat)
  /-- An error that is reported in its turn. -/
  | complaint (pos : Pos) (message : String)

instance : Inhabited Task := ⟨.body default⟩

/-- A task that is still to be done. -/
structure Waiting where
  env : Env
  task : Task
  deriving Inhabited

/-- An error of a file by the file's number, with further lines that explain it. -/
structure TypeError where
  file : Nat
  pos : Pos
  message : Message
  explanation : String
  deriving Inhabited, Repr, DecidableEq

structure State where
  tables : Tables
  objects : Array Obj
  scopes : Array Scope
  errors : Array TypeError
  /-- Types of the calls of the first file, by their closing parentheses. -/
  calls : List (Pos × Ty)
  waiting : Array Waiting
  /-- Calls of `panic` in functions with results, by their closing parentheses. -/
  panics : List Pos
  /-- Objects whose types are being found, the innermost first. -/
  path : List Nat
  /-- Methods by the object of their type. -/
  methods : List (Nat × Nat)
  env : Env
  deriving Inhabited

abbrev Check := StateM State

/-- The scope of built-in names. -/
def builtinScope : Nat := 0

/-! ## Tables -/

def tables : Check Tables := do return (← get).tables

def asks {α : Type} (f : Tables → α) : Check α := do return f (← get).tables

def under (ty : Ty) : Check Ty := asks (·.under ty)

def identical (x y : Ty) : Check Bool := asks (·.identical x y)

/-- How messages name packages. -/
def Tables.shortName (t : Tables) (package : Nat) : String :=
  if package = ownPackage then "" else (t.packageInfo package).name

def typeText (ty : Ty) : Check String := asks fun t => t.render t.shortName ty

def modifyTables (f : Tables → Tables) : Check Unit := modify fun s => { s with tables := f s.tables }

def addNamed (n : NamedInfo) : Check Nat := do
  let id := (← tables).named.size
  modifyTables fun t => { t with named := t.named.push n }
  return id

def modifyNamed (id : Nat) (f : NamedInfo → NamedInfo) : Check Unit :=
  modifyTables fun t => { t with named := t.named.modify id f }

def addAlias (a : AliasInfo) : Check Nat := do
  let id := (← tables).aliases.size
  modifyTables fun t => { t with aliases := t.aliases.push a }
  return id

def modifyAlias (id : Nat) (f : AliasInfo → AliasInfo) : Check Unit :=
  modifyTables fun t => { t with aliases := t.aliases.modify id f }

def addParam (p : ParamInfo) : Check Nat := do
  let id := (← tables).params.size
  modifyTables fun t => { t with params := t.params.push p }
  return id

def modifyParam (id : Nat) (f : ParamInfo → ParamInfo) : Check Unit :=
  modifyTables fun t => { t with params := t.params.modify id f }

/-! ## Objects and scopes -/

def objectAt (id : Nat) : Check Obj := do return ((← get).objects[id]?).getD default

def addObject (o : Obj) : Check Nat := do
  let id := (← get).objects.size
  modify fun s => { s with objects := s.objects.push o }
  return id

def modifyObject (id : Nat) (f : Obj → Obj) : Check Unit :=
  modify fun s => { s with objects := s.objects.modify id f }

/-- The value of a variable is used. -/
def markUsed (id : Nat) : Check Unit := do
  let o ← objectAt id
  if o.isLocal && !o.isUsed then modifyObject id fun o => { o with isUsed := true }

def openScope (parent : Nat) (isFunction : Bool := false) : Check Nat := do
  let id := (← get).scopes.size
  modify fun s =>
    { s with scopes := s.scopes.push { parent := some parent, names := [], isFunction } }
  return id

/-- The object of a name in one scope. -/
def inScope? (scope : Nat) (name : String) : Check (Option Nat) := do
  return ((← get).scopes[scope]?).bind (·.names.lookup name)

/-- Makes a name stand for an object unless it stands for another one already, or is blank. -/
def declareIn (scope : Nat) (name : String) (id : Nat) : Check Bool := do
  if name = "_" then return true
  if (← inScope? scope name).isSome then return false
  modify fun s =>
    { s with scopes := s.scopes.modify scope fun c => { c with names := (name, id) :: c.names } }
  return true

/-- The object of a name in a scope or in one around it. -/
def State.lookupFrom (s : State) (name : String) : (fuel : Nat) → (scope : Nat) → Option Nat
  | 0, _ => none
  | fuel + 1, scope =>
    match s.scopes[scope]? with
    | none => none
    | some c =>
      match c.names.lookup name with
      | some id => some id
      | none => c.parent.bind (s.lookupFrom name fuel)

def lookup (name : String) : Check (Option Nat) := do
  let s ← get
  return s.lookupFrom name s.scopes.size s.env.scope

/-! ## Surroundings -/

def env : Check Env := do return (← get).env

def setEnv (e : Env) : Check Unit := modify fun s => { s with env := e }

/-- Runs a check in other surroundings. -/
def within {α : Type} (f : Env → Env) (act : Check α) : Check α := do
  let old ← env
  setEnv (f old)
  let a ← act
  setEnv old
  return a

/-- Runs a check in a new scope inside of the one around. -/
def withScope {α : Type} (act : Check α) : Check α := do
  let scope ← openScope (← env).scope
  within (fun e => { e with scope }) act

/-! ## Messages -/

/-- A piece of a message as it is shown, by the line tables of the files; a file of no table has no
places. -/
def Fragment.render (files : Array LineTable) : Fragment → String
  | text s => s
  | place file pos => (files[file]?.map fun t => (t.place (pos - 1)).render).getD "-"
  | line file pos => (files[file]?.map fun t => toString (t.place (pos - 1)).line).getD "-"

def Message.render (files : Array LineTable) (m : Message) : String :=
  String.join (m.fragments.map (·.render files))

/-- Whether a message follows from an earlier one. -/
def isConsequence (message : String) : Bool :=
  let later (word : String) : Bool := (Text.indexOf (Text.utf8 word) (Text.utf8 message)).any (0 < ·)
  later "invalid operand" || later "invalid type"

/-- Errors that are shown: one that only follows from another is left out. -/
def TypeError.shown (files : Array LineTable) : List TypeError → List TypeError
  | [] => []
  | first :: rest => first :: rest.filter fun e => !isConsequence (e.message.render files)

def TypeError.render (files : Array LineTable) (e : TypeError) : String :=
  e.message.render files ++ e.explanation

/-- Files from here on are declarations of known packages. -/
def libraryFile : Nat := 1000000

/-- Reports an error, which further lines may explain. -/
def report (pos : Pos) (message : Message) (explanation : String := "") : Check Unit := do
  let s ← get
  if s.env.file ≥ libraryFile then return
  let file := s.env.file
  let pos := s.env.site.getD pos
  modify fun s => { s with errors := s.errors.push { file, pos, message, explanation } }

/-- Makes a name stand for an object in a scope; a second object of one name is reported. -/
def declareName (scope : Nat) (i : Ident) (id : Nat) : Check Unit := do
  if !(← declareIn scope i.name id) then report i.pos s!"{i.name} redeclared in this block"

/-- Keeps the type of a call of the first file. -/
def recordCall (closing : Pos) (ty : Ty) : Check Unit := do
  if (← env).file = 0 then modify fun s => { s with calls := (closing, ty) :: s.calls }

/-- A position of the file around as messages show it. -/
def placeText (pos : Pos) : Check Message := do
  return ⟨[.place (← env).file pos]⟩

/-- The number of the line of a position of the file around, as messages show it. -/
def lineText (pos : Pos) : Check Message := do
  return ⟨[.line (← env).file pos]⟩

/-! ## What waits -/

/-- Lets a task of the first file wait in some surroundings. Those of other files do not matter for what
is asked about that file. -/
def laterIn (env : Env) (task : Task) : Check Unit :=
  if env.file = 0 then
    modify fun s => { s with waiting := s.waiting.push { env := { env with site := none }, task } }
  else return ()

def later (task : Task) : Check Unit := do laterIn (← env) task

/-- Lets the check of a variable's type wait. Only what has a name, or is an interface, can be a
constraint. -/
def awaitVariable (e : Expr) (type : Ty) : Check Unit := do
  match type with
  | .named .. | .alias .. | .iface .. => later (.varType e type)
  | _ => return ()

end Desugar.Typing

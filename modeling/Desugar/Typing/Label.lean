import Desugar.Host.Terminating
import Desugar.Typing.Type

/-!
# Labels

The labels of a function's body and the branches to them. A jump may go to a label of a block around it,
even to one that comes later unless a variable is declared on the way; to leave or to repeat a statement,
its label is needed.
-/
namespace Desugar.Typing

open Host (Stmt Block Decl Ident Kind Pos)

/-- What is wrong with a label. -/
inductive LabelFault where
  /-- There is another label of this name. -/
  | repeated
  | invalidBreak
  | invalidContinue
  /-- A jump misses the declaration of a variable. -/
  | overVariable (declaration : Pos)
  | intoBlock
  | undeclared
  | unused
  deriving DecidableEq, Repr

namespace LabelFault

/-- The message; `line` is the line of the variable that a jump misses. -/
def message (line : Message) (name : String) : LabelFault → Message
  | repeated => s!"label {name} already declared"
  | invalidBreak => s!"invalid break label {name}"
  | invalidContinue => s!"invalid continue label {name}"
  | overVariable _ =>
    s!"goto {name} jumps over variable declaration at line " ++ line
  | intoBlock => s!"goto {name} jumps into block"
  | undeclared => s!"label {name} not declared"
  | unused => s!"label {name} declared and not used"

end LabelFault

/-- A label of the body. -/
structure Label where
  ident : Ident
  isUsed : Bool := false
  deriving Inhabited

/-- What a label stands in front of. -/
structure Labeled where
  name : String
  /-- Whether it can be left by a break. -/
  canBreak : Bool
  isLoop : Bool

def Labeled.of (name : String) : Stmt → Labeled
  | .forLoop .. | .range .. => { name, canBreak := true, isLoop := true }
  | .switch .. | .typeSwitch .. | .select .. => { name, canBreak := true, isLoop := false }
  | _ => { name, canBreak := false, isLoop := false }

/-- The blocks around a statement. -/
structure Surroundings where
  /-- What labels stand in front of them, the innermost first. -/
  labeled : List Labeled := []
  /-- The labels in them so far. -/
  labels : List String := []

/-- What is known of the labels of a body so far. -/
structure LabelState where
  /-- All labels, the last first. -/
  all : List Label := []
  /-- What is wrong, the last first. -/
  faults : List (Ident × LabelFault) := []
  /-- The labels of the block so far. -/
  own : List String := []
  /-- The label to which the next block belongs. -/
  last : Option Labeled := none
  /-- Jumps to labels that are still to come. -/
  forward : List Ident := []
  /-- Those of them that would miss a variable of the block. -/
  doubtful : List Ident := []
  /-- Where that variable is declared. -/
  declaration : Pos := 0

abbrev LabelCheck := StateM LabelState

namespace LabelCheck

def fault (i : Ident) (f : LabelFault) : LabelCheck Unit :=
  modify fun s => { s with faults := (i, f) :: s.faults }

/-- Something refers to a label. -/
def use (name : String) : LabelCheck Unit :=
  modify fun s =>
    { s with all := s.all.map fun l => if l.ident.name = name then { l with isUsed := true } else l }

/-- A variable is declared. -/
def declaration (pos : Pos) : LabelCheck Unit :=
  modify fun s => { s with declaration := pos, doubtful := s.forward }

/-- Jumps that wait for a label have found it. -/
def arrive (name : String) : LabelCheck Unit := do
  let s ← get
  let (here, forward) := s.forward.partition fun i => i.name = name
  for i in here do
    if s.doubtful.contains i then fault i (.overVariable s.declaration)
  modify fun s => { s with forward }
  if !here.isEmpty then use name

/-- A label stands in front of a statement. -/
def label (i : Ident) (s : Stmt) : LabelCheck Unit := do
  if i.name = "_" then return
  if (← get).all.any fun l => l.ident.name = i.name then
    fault i .repeated
  else modify fun s => { s with all := { ident := i } :: s.all, own := i.name :: s.own }
  arrive i.name
  modify fun state => { state with last := some (.of i.name s) }

/-- A branch to a label. -/
def branch (around : Surroundings) (tok : Kind) (i : Ident) : LabelCheck Unit := do
  let target := around.labeled.find? fun l => l.name = i.name
  match tok with
  | .kwBreak => if target.any (·.canBreak) then use i.name else fault i .invalidBreak
  | .kwContinue => if target.any (·.isLoop) then use i.name else fault i .invalidContinue
  | _ =>
    if ((← get).own ++ around.labels).contains i.name then use i.name
    else modify fun s => { s with forward := s.forward ++ [i] }

/-- Runs a check of a block. Jumps out of it wait for labels of the block around. -/
def inBlock (around : Surroundings) (owner : Option Labeled) (act : Surroundings → LabelCheck Unit) :
    LabelCheck Unit := do
  let s ← get
  set { s with own := [], last := owner, forward := [], doubtful := [], declaration := 0 }
  act { labeled := owner.toList ++ around.labeled, labels := s.own ++ around.labels }
  modify fun t =>
    { s with all := t.all, faults := t.faults, forward := s.forward ++ t.forward }

mutual

def stmt (around : Surroundings) : Stmt → LabelCheck Unit
  | .decl d => do
    match d with
    | .gen _ pos .kwVar _ _ _ => declaration pos
    | _ => return ()
  | .labeled i _ s => do
    label i s
    stmt around s
  | .branch _ tok target =>
    match target with
    | some i => branch around tok i
    | none => return ()
  | s@(.assign _ _ tok _) => if tok = .define then declaration s.pos else return ()
  | .block b => block around b
  | .ifThen _ _ _ body els => do
    block around body
    match els with
    | some s => stmt around s
    | none => return ()
  | .caseClause _ _ _ list => inBlock around none fun inner => stmts inner list
  | .commClause _ _ _ list => inBlock around none fun inner => stmts inner list
  | .switch _ _ _ body => block around body
  | .typeSwitch _ _ _ body => block around body
  | .select _ body => block around body
  | .forLoop _ _ _ _ body => block around body
  | .range _ _ _ _ _ _ _ body => block around body
  | .bad .. | .empty .. | .expr _ | .send .. | .incDec .. | .go .. | .defer .. | .ret .. => return ()

/-- A block belongs to the label before it. -/
def block (around : Surroundings) : Block → LabelCheck Unit
  | .mk _ list _ => do
    let owner := (← get).last
    inBlock around owner fun inner => stmts inner list

def stmts (around : Surroundings) : List Stmt → LabelCheck Unit
  | [] => return ()
  | s :: rest => do
    stmt around s
    stmts around rest

end

end LabelCheck

/-- What is wrong with the labels of a body, in the order in which it is found. -/
def labelFaults (body : Block) : List (Ident × LabelFault) :=
  let (_, s) := (LabelCheck.stmts {} body.list).run {}
  let isKnown (i : Ident) : Bool := s.all.any fun l => l.ident.name = i.name
  let lost := s.forward.map fun i => (i, if isKnown i then LabelFault.intoBlock else .undeclared)
  let unused := s.all.reverse.filter fun l =>
    !l.isUsed && !s.forward.any fun i => i.name = l.ident.name
  s.faults.reverse ++ lost ++ unused.map fun l => (l.ident, .unused)

end Desugar.Typing

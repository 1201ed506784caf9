import Desugar.Typing.State

/-!
# Operands

What is known of an expression: how it may be used, its type, and its value if it is constant.
-/
namespace Desugar.Typing

open Host (Expr Pos)

inductive Mode where
  | invalid | noValue
  | builtin (b : Builtin)
  | type
  | const (value : Constant)
  | var | mapIndex | value
  /-- A value with which comes whether there is one. -/
  | commaOk
  deriving Inhabited

namespace Mode

def isInvalid : Mode → Bool
  | invalid => true
  | _ => false

def isType : Mode → Bool
  | type => true
  | _ => false

def isNoValue : Mode → Bool
  | noValue => true
  | _ => false

def isBuiltin : Mode → Bool
  | builtin _ => true
  | _ => false

def constant? : Mode → Option Constant
  | const v => some v
  | _ => none

def word : Mode → String
  | invalid => "invalid operand"
  | noValue => "no value"
  | builtin _ => "built-in"
  | type => "type"
  | const _ => "constant"
  | var => "variable"
  | mapIndex => "map index expression"
  | value => "value"
  | commaOk => "comma, ok expression"

end Mode

/-- What an expression does where only its effect counts: it may stand there, or it only converts, or
only gives a value. -/
inductive Effect where
  | statement | conversion | none
  deriving DecidableEq, Repr, Inhabited

/-- A constant in an untyped operand that is none itself. It takes on the type of the whole, which has to
be one of integers if the constant is shifted. -/
structure Part where
  expr : Expr
  type : Ty
  value : Constant
  isShifted : Bool := false
  deriving Inhabited

structure Operand where
  mode : Mode
  expr : Expr
  type : Ty
  effect : Effect := .none
  /-- What waits for the type of an untyped operand. -/
  parts : List Part := []
  deriving Inhabited

namespace Operand

def invalid (e : Expr) : Operand :=
  { mode := .invalid, expr := e, type := .invalid, effect := .statement }

def ofType (e : Expr) (ty : Ty) : Operand := { mode := .type, expr := e, type := ty }

def ofValue (e : Expr) (ty : Ty) : Operand := { mode := .value, expr := e, type := ty }

def isInvalid (x : Operand) : Bool := x.mode.isInvalid

def isNil (x : Operand) : Bool :=
  match x.mode, x.type with
  | .value, .basic .untypedNil => true
  | _, _ => false

def constant? (x : Operand) : Option Constant := x.mode.constant?

def isConst (x : Operand) : Bool := x.mode.constant?.isSome

/-- An untyped operand as parts of another one. -/
def asParts (x : Operand) : List Part :=
  if x.type.isTyped then []
  else match x.constant? with
    | some value => [{ expr := x.expr, type := x.type, value }]
    | none => x.parts

def pos (x : Operand) : Pos := x.expr.pos

def asInvalid (x : Operand) : Operand := { x with mode := .invalid, type := .invalid }

end Operand

namespace Tables

/-- The word for a type's structure; basic types have none. -/
def structureWord (t : Tables) (ty : Ty) : String :=
  match t.under ty with
  | .array .. => "array"
  | .slice _ => "slice"
  | .struct _ => "struct"
  | .pointer _ => "pointer"
  | .func .. => "func"
  | .iface .. => "interface"
  | .map .. => "map"
  | .chan .. => "chan"
  | .tuple _ => "tuple"
  | _ => ""

/-- Whether a type still lacks type arguments. -/
def isGeneric (t : Tables) (ty : Ty) : Bool :=
  match ty with
  | .named id [] => !(t.namedInfo id).tparams.isEmpty
  | .alias id [] => !(t.aliasInfo id).tparams.isEmpty
  | .func (_ :: _) .. => true
  | _ => false

/-- What is said of an operand's type. -/
def typeClause (t : Tables) (ty : Ty) : String :=
  if ty.isInvalid then " with invalid type"
  else
    let text := t.render t.shortName
    let generic := if t.isGeneric ty then "generic " else ""
    let word := match ty with
      | .named .. | .alias .. =>
        if t.isParam ty then ""
        else match t.structureWord ty, t.under ty with
          | "", .basic b => b.name ++ " "
          | w, _ => w ++ " "
      | _ => ""
    let bound := match t.unalias ty with
      | .param id => " constrained by " ++ text (t.paramInfo id).constraint
      | _ => ""
    " of " ++ generic ++ word ++ "type " ++ text ty ++ bound

/-- An operand as messages show it. -/
def operandText (t : Tables) (x : Operand) : String :=
  if x.isNil then "nil"
  else
    let source := x.expr.summary
    let showsType := match x.mode with
      | .invalid | .noValue | .builtin _ | .type => false
      | _ => true
    let kind := if showsType && x.type.isUntyped then t.render t.shortName x.type ++ " " else ""
    let value := match x.constant? with
      | some v => if v.render = source then "" else " " ++ v.render
      | none => ""
    let clause := if showsType && !x.type.isUntyped then t.typeClause x.type else ""
    source ++ " (" ++ kind ++ x.mode.word ++ value ++ clause ++ ")"

end Tables

def operandText (x : Operand) : Check String := asks (·.operandText x)

/-- Why the types that a value may have share no structure, as messages show it; `unfit` is said of a type
whose structure will not do. -/
def discordText (unfit : String → String) : Tables.Discord → Check String
  | .unspecific => return "no specific type"
  | .unfit x => return unfit (← typeText x)
  | .elements x y => return "channels " ++ (← both x y) ++ " have different element types"
  | .directions x y => return "channels " ++ (← both x y) ++ " have conflicting directions"
  | .structures x y => return (← both x y) ++ " have different underlying types"
where
  both (x y : Ty) : Check String := do return (← typeText x) ++ " and " ++ (← typeText y)

/-- Reports an error about an operand, which is no longer valid. -/
def refuse (x : Operand) (message : String) : Check Operand := do
  report x.pos message
  return x.asInvalid

end Desugar.Typing

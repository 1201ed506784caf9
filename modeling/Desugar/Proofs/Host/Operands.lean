import Mathlib
import Desugar.Proofs.Host.Taken

/-!
# No operand behind a name: expressions

The productions of types and expressions keep the faults that they find, and start an operand only where
no name stands before it.
-/
namespace Desugar.Host.Parse

open Std.Do

set_option mvcgen.warning false

variable [src : Source]

/-- What a production relies on: an operand may start with an exclamation mark. -/
@[grind =]
def Goal.Before (s : State) : Goal → Prop
  | binary least => Settled s ∧ 1 ≤ least
  | unary | stmt => Settled s
  | type | block | ifThen | literalValue _ => Sound s

/-- What a production leaves: statements end their lines. -/
@[grind =]
def Goal.After (t : State) : Goal → Prop
  | stmt | ifThen => Settled t
  | binary _ | unary | type | block | literalValue _ => Sound t

/-- The productions to recur to stand as they should. -/
class Steady (self : Self) : Prop where
  spec (g : Goal) : ⦃fun s => ⌜g.Before s⌝⦄ self g ⦃⇓? _ t => ⌜g.After t⌝⦄

section

variable (self : Self) [Steady self]

@[spec]
theorem self_binary (least : Nat) :
    ⦃fun s => ⌜Settled s ∧ 1 ≤ least⌝⦄ self (.binary least) ⦃⇓? _ t => ⌜Sound t⌝⦄ :=
  Steady.spec (.binary least)

@[spec]
theorem self_unary : ⦃fun s => ⌜Settled s⌝⦄ self .unary ⦃⇓? _ t => ⌜Sound t⌝⦄ :=
  Steady.spec .unary

@[spec]
theorem self_type : ⦃fun s => ⌜Sound s⌝⦄ self .type ⦃⇓? _ t => ⌜Sound t⌝⦄ :=
  Steady.spec .type

@[spec]
theorem self_block : ⦃fun s => ⌜Sound s⌝⦄ self .block ⦃⇓? _ t => ⌜Sound t⌝⦄ :=
  Steady.spec .block

@[spec]
theorem self_stmt : ⦃fun s => ⌜Settled s⌝⦄ self .stmt ⦃⇓? _ t => ⌜Settled t⌝⦄ :=
  Steady.spec .stmt

@[spec]
theorem self_ifThen : ⦃fun s => ⌜Sound s⌝⦄ self .ifThen ⦃⇓? _ t => ⌜Settled t⌝⦄ :=
  Steady.spec .ifThen

@[spec]
theorem self_literalValue (t : Option Expr) :
    ⦃fun s => ⌜Sound s⌝⦄ self (.literalValue t) ⦃⇓? _ t => ⌜Sound t⌝⦄ :=
  Steady.spec (.literalValue t)

attribute [spec] withRhs withLevel inHeader

@[spec]
theorem expr_spec : ⦃fun s => ⌜Settled s⌝⦄ expr self ⦃⇓? _ t => ⌜Sound t⌝⦄ := by
  mvcgen [expr]

@[spec]
theorem rhs_spec : ⦃fun s => ⌜Settled s⌝⦄ rhs self ⦃⇓? _ t => ⌜Sound t⌝⦄ := by
  mvcgen [rhs] with grind -ring -linarith

omit [Steady self] in
@[spec]
theorem ident_spec : ⦃fun s => ⌜Sound s⌝⦄ ident ⦃⇓? _ t => ⌜Sound t⌝⦄ := by
  mvcgen [ident] with grind -ring -linarith

/-- Items that start where an operand may start. -/
@[spec]
theorem commaList_spec {α : Type} {item : Parse α}
    (h : ⦃fun s => ⌜Settled s⌝⦄ item ⦃⇓? _ t => ⌜Sound t⌝⦄) :
    ⦃fun s => ⌜Settled s⌝⦄ commaList item ⦃⇓? _ t => ⌜Sound t⌝⦄ := by
  mvcgen [commaList, h]
  invariants
  · ⇓? _ s => ⌜Sound s⌝
  with grind -ring -linarith

@[spec]
theorem exprList_spec (inRhs : Bool) :
    ⦃fun s => ⌜Settled s⌝⦄ exprList self inRhs ⦃⇓? _ t => ⌜Sound t⌝⦄ := by
  mvcgen [exprList] with grind -ring -linarith

@[spec]
theorem type_spec : ⦃fun s => ⌜Sound s⌝⦄ type self ⦃⇓? _ t => ⌜Sound t⌝⦄ := by
  mvcgen [type] with grind -ring -linarith

@[spec]
theorem typeName_spec (i : Option Ident) :
    ⦃fun s => ⌜Sound s⌝⦄ typeName i ⦃⇓? _ t => ⌜Sound t⌝⦄ := by
  mvcgen [typeName] with grind -ring -linarith

@[spec]
theorem listUntil_spec {α : Type} {item : Parse α} (context : String) (closing : Kind)
    (other : closing ≠ .not) (h : ⦃fun s => ⌜Settled s⌝⦄ item ⦃⇓? _ t => ⌜Sound t⌝⦄) :
    ⦃fun s => ⌜Settled s⌝⦄ listUntil context closing item ⦃⇓? _ t => ⌜Settled t⌝⦄ := by
  mvcgen [listUntil, h]
  invariants
  · ⇓? _ s => ⌜Settled s⌝
  with grind -ring -linarith

@[spec]
theorem typeInstance_spec (x : Expr) :
    ⦃fun s => ⌜Sound s⌝⦄ typeInstance self x ⦃⇓? _ t => ⌜Sound t⌝⦄ := by
  mvcgen [typeInstance] with grind -ring -linarith

@[spec]
theorem qualified_spec (i : Option Ident) :
    ⦃fun s => ⌜Sound s⌝⦄ qualified self i ⦃⇓? _ t => ⌜Sound t⌝⦄ := by
  mvcgen [qualified]

@[spec]
theorem arrayType_spec (lbrack : Pos) (len : Option Expr) :
    ⦃fun s => ⌜Sound s ∧ (len = none → Settled s)⌝⦄ arrayType self lbrack len ⦃⇓? _ t => ⌜Sound t⌝⦄ := by
  mvcgen [arrayType] with grind -ring -linarith

@[spec]
theorem arrayOrInstance_spec (x : Ident) :
    ⦃fun s => ⌜Sound s⌝⦄ arrayOrInstance self x ⦃⇓? _ t => ⌜Sound t⌝⦄ := by
  mvcgen [arrayOrInstance]
  invariants
  · ⇓? _ s => ⌜Sound s⌝
  with grind -ring -linarith

@[spec]
theorem parenthesizedEmbedded_spec :
    ⦃fun s => ⌜Sound s⌝⦄ parenthesizedEmbedded self ⦃⇓? _ t => ⌜Sound t⌝⦄ := by
  mvcgen [parenthesizedEmbedded] with grind -ring -linarith

@[spec]
theorem fieldDecl_spec : ⦃fun s => ⌜Sound s⌝⦄ fieldDecl self ⦃⇓? _ t => ⌜Settled t⌝⦄ := by
  mvcgen [fieldDecl]
  invariants
  · ⇓? _ s => ⌜Sound s⌝
  with grind -ring -linarith

@[spec]
theorem structType_spec : ⦃fun s => ⌜Sound s⌝⦄ structType self ⦃⇓? _ t => ⌜Sound t⌝⦄ := by
  mvcgen [structType]
  invariants
  · ⇓? _ s => ⌜Sound s⌝
  with grind -ring -linarith

@[spec]
theorem dotsType_spec : ⦃fun s => ⌜Sound s⌝⦄ dotsType self ⦃⇓? _ t => ⌜Sound t⌝⦄ := by
  mvcgen [dotsType] with grind -ring -linarith

@[spec]
theorem typeTerm_spec : ⦃fun s => ⌜Sound s⌝⦄ typeTerm self ⦃⇓? _ t => ⌜Sound t⌝⦄ := by
  mvcgen [typeTerm] with grind -ring -linarith

@[spec]
theorem typeElement_spec (x : Option Expr) :
    ⦃fun s => ⌜Sound s⌝⦄ typeElement self x ⦃⇓? _ t => ⌜Sound t⌝⦄ := by
  mvcgen [typeElement]
  invariants
  · ⇓? _ s => ⌜Sound s⌝
  · ⇓? _ s => ⌜Sound s⌝
  with grind -ring -linarith

@[spec]
theorem param_spec (name : Option Ident) (sets : Bool) :
    ⦃fun s => ⌜Sound s⌝⦄ param self name sets ⦃⇓? _ t => ⌜Sound t⌝⦄ := by
  mvcgen [param] with grind -ring -linarith

omit [Steady self] in
@[spec]
theorem checkDots_spec (dots : Bool) (types : List (Option Expr)) :
    ⦃fun s => ⌜Sound s⌝⦄ checkDots dots types ⦃⇓? _ t => ⌜Sound t⌝⦄ := by
  mvcgen [checkDots] with grind -ring -linarith

@[spec]
theorem paramList_spec (name : Option Ident) (first : Option Expr) (closing : Kind) (dots : Bool)
    (other : closing ≠ .not) :
    ⦃fun s => ⌜Sound s⌝⦄ paramList self name first closing dots ⦃⇓? _ t => ⌜Sound t⌝⦄ := by
  mvcgen [paramList]
  invariants
  · ⇓? _ s => ⌜Sound s⌝
  with grind -ring -linarith

@[spec]
theorem parameters_spec (dots : Bool) :
    ⦃fun s => ⌜Sound s⌝⦄ parameters self dots ⦃⇓? _ t => ⌜Sound t⌝⦄ := by
  mvcgen [parameters] with grind -ring -linarith

@[spec]
theorem typeParameters_spec : ⦃fun s => ⌜Sound s⌝⦄ typeParameters self ⦃⇓? _ t => ⌜Sound t⌝⦄ := by
  mvcgen [typeParameters] with grind -ring -linarith

@[spec]
theorem result_spec : ⦃fun s => ⌜Sound s⌝⦄ result self ⦃⇓? _ t => ⌜Sound t⌝⦄ := by
  mvcgen [result]

@[spec]
theorem funcType_spec : ⦃fun s => ⌜Sound s⌝⦄ funcType self ⦃⇓? _ t => ⌜Sound t⌝⦄ := by
  mvcgen [funcType] with grind -ring -linarith

@[spec]
theorem methodType_spec : ⦃fun s => ⌜Sound s⌝⦄ methodType self ⦃⇓? _ t => ⌜Sound t⌝⦄ := by
  mvcgen [methodType]

@[spec]
theorem methodSpec_spec : ⦃fun s => ⌜Sound s⌝⦄ methodSpec self ⦃⇓? _ t => ⌜Sound t⌝⦄ := by
  mvcgen [methodSpec] with grind -ring -linarith

@[spec]
theorem interfaceType_spec : ⦃fun s => ⌜Sound s⌝⦄ interfaceType self ⦃⇓? _ t => ⌜Sound t⌝⦄ := by
  mvcgen [interfaceType]
  invariants
  · ⇓? _ s => ⌜Sound s⌝
  with grind -ring -linarith

@[spec]
theorem mapType_spec : ⦃fun s => ⌜Sound s⌝⦄ mapType self ⦃⇓? _ t => ⌜Sound t⌝⦄ := by
  mvcgen [mapType] with grind -ring -linarith

@[spec]
theorem chanType_spec : ⦃fun s => ⌜Sound s⌝⦄ chanType self ⦃⇓? _ t => ⌜Sound t⌝⦄ := by
  mvcgen [chanType] with grind -ring -linarith

theorem typeGoal_spec : ⦃fun s => ⌜Sound s⌝⦄ typeGoal self ⦃⇓? _ t => ⌜Sound t⌝⦄ := by
  mvcgen [typeGoal] with grind -ring -linarith

@[spec]
theorem funcTypeOrLit_spec : ⦃fun s => ⌜Sound s⌝⦄ funcTypeOrLit self ⦃⇓? _ t => ⌜Sound t⌝⦄ := by
  mvcgen [funcTypeOrLit] with grind -ring -linarith

@[spec]
theorem operand_spec : ⦃fun s => ⌜Settled s⌝⦄ operand self ⦃⇓? _ t => ⌜Sound t⌝⦄ := by
  mvcgen [operand] with grind -ring -linarith

@[spec]
theorem typeAssertion_spec (x : Expr) :
    ⦃fun s => ⌜Sound s⌝⦄ typeAssertion self x ⦃⇓? _ t => ⌜Sound t⌝⦄ := by
  mvcgen [typeAssertion] with grind -ring -linarith

@[spec]
theorem indexOrSlice_spec (x : Expr) :
    ⦃fun s => ⌜Sound s⌝⦄ indexOrSlice self x ⦃⇓? _ t => ⌜Sound t⌝⦄ := by
  mvcgen [indexOrSlice]
  invariants
  · ⇓? _ s => ⌜Sound s⌝
  · ⇓? _ s => ⌜Sound s⌝
  · ⇓? _ s => ⌜Sound s⌝
  · ⇓? _ s => ⌜Sound s⌝
  with grind -ring -linarith

@[spec]
theorem callOrConversion_spec (fn : Expr) :
    ⦃fun s => ⌜Sound s⌝⦄ callOrConversion self fn ⦃⇓? _ t => ⌜Sound t⌝⦄ := by
  mvcgen [callOrConversion]
  invariants
  · ⇓? _ s => ⌜Settled s⌝
  with grind -ring -linarith

@[spec]
theorem value_spec : ⦃fun s => ⌜Settled s⌝⦄ value self ⦃⇓? _ t => ⌜Sound t⌝⦄ := by
  mvcgen [value] with grind -ring -linarith

@[spec]
theorem element_spec : ⦃fun s => ⌜Settled s⌝⦄ element self ⦃⇓? _ t => ⌜Sound t⌝⦄ := by
  mvcgen [element] with grind -ring -linarith

theorem literalValue_spec (t : Option Expr) :
    ⦃fun s => ⌜Sound s⌝⦄ literalValue self t ⦃⇓? _ t => ⌜Sound t⌝⦄ := by
  mvcgen [literalValue] with grind -ring -linarith

@[spec]
theorem primary_spec (x : Option Expr) :
    ⦃fun s => ⌜Sound s ∧ (x = none → Settled s)⌝⦄ primary self x ⦃⇓? _ t => ⌜Sound t⌝⦄ := by
  mvcgen [primary]
  invariants
  · ⇓? _ s => ⌜Sound s⌝
  · ⇓? _ s => ⌜Sound s⌝
  with grind -ring -linarith

omit [Steady self] in
@[spec]
theorem reassociate_spec (arrow : Pos) (x : Expr) :
    ⦃fun s => ⌜Sound s⌝⦄ reassociate arrow x ⦃⇓? _ t => ⌜Sound t⌝⦄ := by
  fun_induction reassociate arrow x with
  | case1 arrow start own value done ih =>
    mvcgen [done, ih]
    all_goals grind -ring -linarith
  | case2 arrow start own dir value done other ih => mvcgen [done, ih]
  | case3 => mvcgen

@[spec]
theorem unaryGoal_spec : ⦃fun s => ⌜Settled s⌝⦄ unaryGoal self ⦃⇓? _ t => ⌜Sound t⌝⦄ := by
  mvcgen [unaryGoal] with grind -ring -linarith

/-- Every operator binds, and no exclamation mark does. -/
@[spec]
theorem binary_spec (x : Option Expr) (least : Nat) (binds : 1 ≤ least) :
    ⦃fun s => ⌜Sound s ∧ (x = none → Settled s)⌝⦄ binary self x least ⦃⇓? _ t => ⌜Sound t⌝⦄ := by
  mvcgen [binary, operator]
  invariants
  · ⇓? _ s => ⌜Sound s⌝
  · ⇓? _ s => ⌜Sound s⌝
  with grind -ring -linarith [Kind.precedence]

end
end Desugar.Host.Parse

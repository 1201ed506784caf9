import Desugar.Typing.Builtin
import Desugar.Typing.Composite

/-!
# Calls and expressions as a whole
-/
namespace Desugar.Typing

open Host (Expr Pos)

namespace Judge

/-- The only argument of a conversion. -/
def conversion (j : Judge) (site : CallSite) (e : Expr) (ty : Ty) (args : List Expr) :
    Check Operand := do
  let text ← typeText ty
  match args with
  | [] =>
    report site.closing s!"missing argument in conversion to {text}"
    return .invalid e
  | [arg] =>
    let x ← j.exprFor arg (some ty) text
    if x.isInvalid then return .invalid e
    let t ← tables
    if t.isPlainInterface ty then
      let set := t.typeSet ty
      if set.comparable || set.terms.isSome then
        report e.pos s!"cannot use interface {text} in conversion (contains specific type constraints or is comparable)"
        return .invalid e
    if site.hasDots then
      report arg.pos s!"invalid use of ... in conversion to {text}"
      return .invalid e
    return { (← j.convert x ty) with expr := e }
  | args =>
    j.use args
    let last := args.getLastD e
    report last.pos s!"too many arguments in conversion to {text}"
    return .invalid e

/-- What a call of a function with some type gives; what still mentions its type parameters is
nothing. -/
def callResult (e : Expr) (fn : Ty) : Operand :=
  match fn with
  | .func tparams _ results _ =>
    let x : Operand := match results with
      | [] => { mode := .noValue, expr := e, type := .invalid }
      | [(_, ty)] => .ofValue e ty
      | rs => .ofValue e (.tuple rs)
    if !x.mode.isNoValue && x.type.mentions tparams.contains then .invalid e else x
  | _ => .invalid e

/-- An ordinary call. -/
def functionCall (j : Judge) (site : CallSite) (e : Expr) (f : Operand) (indices args : List Expr) :
    Check Operand := do
  let t ← tables
  let isFunction : Ty → Bool
    | .func .. => true
    | _ => false
  match t.common isFunction f.type with
  | .ok (.func tparams params results variadic) =>
    let fn := Ty.func tparams params results variadic
    let given ← if indices.isEmpty then pure (some []) else j.typeList indices
    match given with
    | none =>
      j.use args
      return .invalid e
    | some given =>
      let count := given.length
      let want := tparams.length
      if want < count then
        let source := site.fn.summary
        let first := (indices.drop want).headD e
        report first.pos s!"got {count} type arguments but {source} has {want} type parameters"
        j.use args
        return .invalid e
      let whole := count = want && 0 < want
      let fn := if whole then (Ty.func [] params results variadic).substParams tparams given else fn
      if whole then later (.typeArguments site.fn.pos indices tparams given)
      let list ← j.arguments args
      return callResult e (← j.applyArguments site fn (if whole then [] else given) list (args.length = 1))
  | .ok _ => return .invalid e
  | .error discord =>
    if !(t.under f.type).isInvalid then
      let text ← operandText f
      let cause ← discordText (· ++ " is not a function") discord
      report f.pos s!"invalid operation: cannot call {text}: {cause}"
    j.use args
    return .invalid e

/-- Reports what still lacks type arguments. -/
def nonGeneric (x : Operand) : Check Operand := do
  let t ← tables
  match x.mode with
  | .invalid | .noValue => return x
  | _ =>
    if !t.isGeneric x.type then return x
    let what := match x.type with
      | .func .. => "function"
      | _ => "type"
    let source := x.expr.summary
    refuse x s!"cannot use generic {what} {source} without instantiation"

def call (j : Judge) (e fn : Expr) (args : List Expr) (hasDots : Bool) (closing : Pos) :
    Check Operand := do
  let (f, indices) ← match fn with
    | .index x _ indices _ =>
      match ← j.indexed fn x indices with
      | .function f => pure ({ f with expr := fn }, indices)
      | .operand x => pure (← exclude true x, [])
    | fn => pure (← j.exprOrType fn true, [])
  let site : CallSite := { fn, pos := e.pos, closing, hasDots, typeArgs := indices }
  match f.mode with
  | .invalid =>
    j.use args
    return .invalid e
  | .type =>
    let f ← nonGeneric f
    let x ← if f.isInvalid then pure (.invalid e) else j.conversion site e f.type args
    return { x with effect := .conversion }
  | .builtin b => return { (← j.builtinCall site e b args) with effect := b.effect }
  | _ => return { (← j.functionCall site e f indices args) with effect := .statement }

/-- The length of the longest number that is read. -/
def literalBound : Nat := 10000

/-- A literal; the value of one that is too large is unknown. -/
def literal (l : Host.Literal) : Check Operand := do
  let e := Expr.literal l
  let length := l.value.length
  if (l.kind = .int || l.kind = .float || l.kind = .imag) && literalBound < length then
    let start := String.ofList (l.value.toList.take 10)
    report l.pos s!"excessively long constant: {start}... ({length} chars)"
    return .invalid e
  let b := match l.kind with
    | .int => Basic.untypedInt
    | .float => .untypedFloat
    | .imag => .untypedComplex
    | .char => .untypedRune
    | _ => .untypedString
  match Constant.ofLiteral l.kind l.value with
  | .unknown =>
    report l.pos s!"malformed constant: {l.value}"
    return .invalid e
  | v => checkOverflow { mode := .const v, expr := e, type := .basic b } l.pos

/-- What an expression is. -/
def rawExpr (j : Judge) (e : Expr) (hint : Option Ty) : Check Operand := do
  match e with
  | .bad .. => return .invalid e
  | .ident i => j.ident i
  | .ellipsis pos _ =>
    report pos "invalid use of ..."
    return .invalid e
  | .literal l => literal l
  | .funcLit type body => j.funcLit e type body
  | .composite type _ elts rbrace => j.composite e type elts rbrace hint
  | .paren _ x _ => return { (← j.raw x none false) with expr := e }
  | .selector x sel => j.selector e x sel
  | .index x _ indices _ =>
    match ← j.indexed e x indices with
    | .operand x => return x
    | .function f => j.instantiateFunction e f indices none
  | .slice x _ low high max full _ => j.slice e x low high max full
  | .typeAssert x _ type _ => j.typeAssert e x type
  | .call fn _ args ellipsis closing => j.call e fn args (ellipsis ≠ 0) closing
  | .star _ x =>
    let operand ← j.exprOrType x false
    match operand.mode with
    | .invalid => return .invalid e
    | .type =>
      awaitVariable x operand.type
      return .ofType e (.pointer operand.type)
    | _ =>
      let t ← tables
      let base? : Ty → Option Ty
        | .pointer base => some base
        | _ => none
      match t.sharedType base? operand.type with
      | .ok base => return { mode := .var, expr := e, type := base }
      | .error (.elements ..) =>
        let name ← typeText operand.type
        report operand.pos s!"invalid operation: pointers of {name} must have identical base types"
        return .invalid e
      | .error _ =>
        let text ← operandText operand
        report operand.pos s!"invalid operation: cannot indirect {text}"
        return .invalid e
  | .unary pos op x => j.unary e pos op x
  | .binary x opPos op y => j.binary e x op opPos y
  | .keyValue .. =>
    report e.pos "no key:value expected"
    return .invalid e
  | .arrayType .. | .structType .. | .funcType _ | .interfaceType .. | .mapType .. | .chanType .. =>
    let ty ← j.type e
    return if ty.isInvalid then .invalid e else .ofType e ty

/-- What an expression is; calls are kept for later. -/
def operand (j : Judge) (e : Expr) (hint : Option Ty) (generic : Bool) : Check Operand := do
  let x ← j.rawExpr e hint
  let effect := match e with
    | .call .. | .paren .. => x.effect
    | .unary _ .arrow _ => .statement
    | _ => if x.isInvalid then .statement else .none
  let x := { x with effect }
  let x ← if generic then pure x else nonGeneric x
  match e, x.mode with
  | .call _ _ _ _ closing, .value => recordCall closing x.type
  | _, _ => pure ()
  return x

end Judge
end Desugar.Typing

import Desugar.Form.Builder
import Desugar.Form.Context
import Desugar.Form.Expression

/-!
# Forms that become calls
-/

/-!
## Truthiness

An expression converted to a truth value.
-/
namespace Desugar.Form

structure Truthiness where
  value : Expression
  deriving Repr

def Truthiness.parse (stop : Span) (ts : List Token) : Except Failure Truthiness :=
  (parseExpression ts stop).map Truthiness.mk

def Truthiness.emit (t : Truthiness) (ctx : Context) : List Token × Context :=
  let (truth, ctx) := ctx.truth
  let b : Builder := { span := ctx.span }
  ((((b.code s!"{truth}.Of(").tokens t.value.tokens).code ")").stream, ctx)

end Desugar.Form

/-!
## Increments as expressions

`name ++` and `name --` with the new value as their value.
-/
namespace Desugar.Form

structure IncDec where
  name : Token
  increment : Bool
  deriving Repr

def IncDec.parse (stop : Span) (ts : List Token) : Except Failure IncDec := do
  let c := Cursor.ofTokens ts stop
  let (first, c) := c.next
  let name ← parseIdentifier [first] first.span
  let (op, c) := c.next
  let increment ←
    match op.kind with
    | .increment => pure true
    | .decrement => pure false
    | _ =>
      let mark := Char.ofNat 0x60
      throw (.diagnostic (.expected op.span s!"{mark}++{mark} or {mark}--{mark}" op.found))
  lift c.expectEnd
  return { name, increment }

def IncDec.emit (e : IncDec) (ctx : Context) : List Token × Context :=
  let (sugar, ctx) := ctx.sugar
  let call := if e.increment then "Inc" else "Dec"
  let b : Builder := { span := ctx.span }
  ((((b.code s!"{sugar}.{call}(&").tokens [e.name]).code ")").stream, ctx)

end Desugar.Form

/-!
## Spreads

`(iterable) *.f *.g` collects `it.f.g` of every element; without fields it copies the iterable.
-/
namespace Desugar.Form

structure Spread where
  iterable : Expression
  fields : List Token
  deriving Repr

/-- The fields of a spread, and what is left behind them. -/
def parseFields (stop : Span) : List Token → Except Failure (List Token × List Token)
  | [] => .ok ([], [])
  | t :: rest =>
    if t.kind = .spreadDot then
      match rest with
      | [] => .error (.diagnostic (.mismatch stop "field name" "end of input"))
      | field :: rest =>
        if field.kind = .identifier then do
          let (fields, rest) ← parseFields stop rest
          return (field :: fields, rest)
        else .error (.diagnostic (.mismatch field.span "field name" field.describe))
    else .ok ([], t :: rest)

def Spread.parse (stop : Span) (ts : List Token) : Except Failure Spread := do
  let (iterable, c) ← parenthesized (.ofTokens ts stop)
  let (fields, rest) ← parseFields stop c.rest
  lift (Cursor.ofTokens rest stop).expectEnd
  return { iterable, fields }

/-- The first argument of the call only fixes the result's type: it selects the same path on a zero
element, with each nil pointer on the way allocated. -/
def Spread.emit (s : Spread) (ctx : Context) : List Token × Context :=
  let (sugar, ctx) := ctx.sugar
  let b : Builder := { span := ctx.span }
  match s.fields with
  | [] => ((((b.code s!"{sugar}.Clone(").tokens s.iterable.tokens).code ")").stream, ctx)
  | fields =>
    let (yield, ctx) := ctx.fresh "yield"
    let (it, ctx) := ctx.fresh "it"
    let b := b.code s!"{sugar}.Spread("
    let b := fields.foldl (fun b _ => b.code s!"{sugar}.Fill(") b
    let b := ((b.code s!"{sugar}.Elem(").tokens s.iterable.tokens).code ")"
    let b := fields.foldl (fun b f => b.code s!").{f.text}") b
    let b := (b.code s!", func({yield} func(any)) \x7b for _, {it} := range").tokens s.iterable.tokens
    let b := (b.code " \x7b").code s!" {yield}({it}"
    let b := fields.foldl (fun b f => b.code s!".{f.text}") b
    ((b.code ") \x7d \x7d)").stream, ctx)

end Desugar.Form

import Desugar.Form.Builder
import Desugar.Form.Context
import Desugar.Form.Expression

/-!
# Conditionals

`(condition) ? (result) : (alternative)`, the short form `(condition) ?: (alternative)` and the
assignment `(name) ?= (alternative)`, each with an optional `!` in front. The first two are emitted
as a call of a placeholder, which is replaced once the type of the branches is known.
-/
namespace Desugar.Form

/-- The function that conditionals are emitted as calls of, as
`placeholder(number, result, alternative)(condition)`. -/
def placeholder : String := "gosugar__cond"

structure Conditional where
  condition : Expression
  result : Expression
  alternative : Expression
  negated : Bool
  deriving Repr

structure Elvis where
  condition : Expression
  alternative : Expression
  negated : Bool
  deriving Repr

structure ElvisAssign where
  target : Token
  alternative : Expression
  negated : Bool
  deriving Repr

/-- An optional `!`. -/
def negation (c : Cursor) : Bool × Cursor :=
  let (t, c) := c.accept .not
  (t.isSome, c)

def sign (negated : Bool) : String := if negated then "!" else ""

def Conditional.parse (stop : Span) (ts : List Token) : Except Failure Conditional := do
  let (negated, c) := negation (.ofTokens ts stop)
  let (condition, c) ← parenthesized c
  let (_, c) ← lift (c.expect .question)
  let (result, c) ← parenthesized c
  let (_, c) ← lift (c.expect .colon)
  let (alternative, c) ← parenthesized c
  lift c.expectEnd
  return { condition, result, alternative, negated }

def Elvis.parse (stop : Span) (ts : List Token) : Except Failure Elvis := do
  let (negated, c) := negation (.ofTokens ts stop)
  let (condition, c) ← parenthesized c
  let (_, c) ← lift (c.expect .elvis)
  let (alternative, c) ← parenthesized c
  lift c.expectEnd
  return { condition, alternative, negated }

def ElvisAssign.parse (stop : Span) (ts : List Token) : Except Failure ElvisAssign := do
  let (negated, c) := negation (.ofTokens ts stop)
  let g := c.group .lparen
  let inner ← lift g.inner
  let target ← parseIdentifier inner g.opening.span
  let (_, c) ← lift (g.cursor.expect .elvisAssign)
  let (alternative, c) ← parenthesized c
  lift c.expectEnd
  return { target, alternative, negated }

/-- The placeholder call for a choice between two expressions. -/
def Conditional.emit (e : Conditional) (ctx : Context) : List Token × Context :=
  let (number, ctx) := ctx.conditional
  let (truth, ctx) := ctx.truth
  let b : Builder := { span := ctx.span }
  let b := (b.code s!"{placeholder}({number},").tokens e.result.tokens
  let b := (b.code ",").tokens e.alternative.tokens
  let b := (b.code s!")({sign e.negated}{truth}.Of(").tokens e.condition.tokens
  ((b.code "))").stream, ctx)

/-- The condition is its own result. -/
def Elvis.emit (e : Elvis) (ctx : Context) : List Token × Context :=
  Conditional.emit ⟨e.condition, e.condition, e.alternative, e.negated⟩ ctx

/-- An assignment that happens if the target counts as false, or as true when negated. -/
def ElvisAssign.emit (e : ElvisAssign) (ctx : Context) : List Token × Context :=
  let (truth, ctx) := ctx.truth
  let b : Builder := { span := ctx.span }
  let b := (b.code s!"if {sign !e.negated}{truth}.Of(").tokens [e.target]
  let b := (b.code ") \x7b").tokens [e.target]
  let b := (b.code " =").tokens e.alternative.tokens
  ((b.code " \x7d").stream, ctx)

end Desugar.Form

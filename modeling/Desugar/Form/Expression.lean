import Desugar.Cursor
import Desugar.Host.Parse.File

/-!
# Embedded expressions

An embedded expression is a stream of tokens that, written out, is one expression of the host
language. The host's complaint is moved from the written text onto the token it is about.
-/
namespace Desugar.Form

/-- Tokens that make one host expression. -/
structure Expression where
  tokens : List Token
  deriving DecidableEq, Repr, Inhabited

def Expression.span (e : Expression) : Span := spanOf e.tokens

/-- Where each token starts when the stream is written out from `offset` on. -/
def offsetsFrom (offset : Nat) : List Token → List Nat
  | [] => []
  | t :: rest =>
    let start := offset + t.gap.text.length
    start :: offsetsFrom (start + t.literal.length) rest

/-- Where each token starts in the stream written out. -/
def offsets : List Token → List Nat
  | [] => []
  | t :: rest => 0 :: offsetsFrom t.literal.length rest

/-- The span of the token that an offset of the written text falls on. Between two tokens that is
the first of them, and in front of the text the first of all; past the last one it is the end of that. -/
def spanAt (ts : List Token) (offset : Int) : Span :=
  let starts := (offsets ts).toArray
  let upTo := if offset < 0 then 0 else Host.LineTable.search starts offset.toNat 0 starts.size
  let i := upTo - 1
  match ts[i]? with
  | none => .none
  | some t =>
    if starts.getD i 0 + t.literal.length ≤ offset && i + 1 = ts.length then .point t.span.stop
    else t.span

/-- Takes a stream as an expression; an empty one is reported at `place`. -/
def parseExpression (ts : List Token) (place : Span) : Except Failure Expression :=
  match ts with
  | [] => .error (.diagnostic { category := .expression, span := place, message := "expected expression" })
  | first :: _ =>
    match Host.parseExpr first.span.start.file (renderTokens ts) with
    | .ok _ => .ok ⟨ts⟩
    | .error [] => .error (.diagnostic (.wrap .expression (spanOf ts) "no errors"))
    | .error (e :: es) =>
      .error (.diagnostic
        { category := .expression
          span := spanAt ts e.place.offset
          message := e.message
          cause := some (Host.SyntaxError.renderAll (e :: es)) })

/-- Takes a stream as a single identifier that can be assigned to; an empty one is reported at
`place`. -/
def parseIdentifier (ts : List Token) (place : Span) : Except Failure Token :=
  match ts with
  | [] => .error (.diagnostic (.mismatch place "identifier" "nothing"))
  | t :: rest =>
    let mark := Char.ofNat 0x60
    if t.kind ≠ .identifier then .error (.diagnostic (.mismatch t.span "identifier" t.describe))
    else if !rest.isEmpty then
      let shown := Text.toString (renderTokens ts)
      .error (.diagnostic (.mismatch (spanOf rest) "single identifier" s!"{mark}{shown}{mark}"))
    else if t.literal = [0x5F] then
      .error (.diagnostic
        { category := .grammar, span := t.span
          message := s!"cannot assign to blank identifier {mark}_{mark}" })
    else .ok t

/-- Lifts a diagnostic into a failure. -/
def lift {α : Type} : Except Diagnostic α → Except Failure α
  | .ok a => .ok a
  | .error d => .error (.diagnostic d)

/-- An expression in parentheses. -/
def parenthesized (c : Cursor) : Except Failure (Expression × Cursor) := do
  let g := c.group .lparen
  let inner ← lift g.inner
  let e ← parseExpression inner g.opening.span
  return (e, g.cursor)

end Desugar.Form

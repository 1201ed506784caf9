import Desugar.Form.Builder
import Desugar.Form.Context
import Desugar.Form.Expression

/-!
# String interpolation

A string literal with markers that hold expressions. Its value becomes a format in which every
marker is a verb and every percent sign is doubled. A marker is an opening, one or more bytes that
do not close it, and a closing brace. Its place is exact only if the literal's text is its value.
-/
namespace Desugar.Form

structure Interpolation where
  literal : Token
  template : Bytes
  exprs : List Expression
  deriving Repr

/-- How long the inside of a marker at the front of a text is, if there is one. -/
def markerLength? : Bytes → Option Nat
  | 0x24 :: 0x7B :: rest =>
    let body := (rest.takeWhile (· != 0x7D)).length
    if body = 0 || body = rest.length then none else some body
  | _ => none

/-- A piece of a template. -/
inductive Piece where
  | text (bytes : Bytes)
  /-- The inside of a marker. -/
  | marker (body : Bytes)
  deriving DecidableEq, Repr

/-- Cuts a text at its markers, from left to right. `before` holds the text since the last marker,
the last byte first. -/
def pieces (before : Bytes) (text : Bytes) : List Piece :=
  match text with
  | [] => [.text before.reverse]
  | b :: rest =>
    match markerLength? (b :: rest) with
    | some n =>
      .text before.reverse :: .marker ((b :: rest).drop 2 |>.take n) :: pieces [] (rest.drop (n + 2))
    | none => pieces (b :: before) rest
termination_by text.length
decreasing_by all_goals (simp only [List.length_drop, List.length_cons]; omega)

/-- Doubles percent signs. -/
def escapePercent (text : Bytes) : Bytes := text.flatMap fun b => if b = 0x25 then [b, b] else [b]

/-- The position of a byte of the literal's value. -/
def locate (literal : Token) (exact : Bool) (i : Nat) : Position :=
  if exact then literal.span.start.advance (literal.literal.take (1 + i)) else literal.span.start

/-- An opening that starts no marker, in text from byte `offset` of the value on. -/
def checkText (literal : Token) (exact : Bool) (offset : Nat) (text : Bytes) :
    Except Failure Unit :=
  match Text.indexOf [0x24, 0x7B] text with
  | none => .ok ()
  | some i =>
    let start := locate literal exact (offset + i)
    if text[i + 2]? = some 0x7D then
      .error (.diagnostic
        { category := .marker, span := ⟨start, locate literal exact (offset + i + 3)⟩
          message := "empty interpolation marker" })
    else
      .error (.diagnostic
        { category := .marker, span := .point start, message := "unterminated interpolation marker" })

/-- The expression in a marker whose opening is byte `offset` of the value. -/
def parseMarker (literal : Token) (exact : Bool) (offset : Nat) (body : Bytes) :
    Except Failure Expression := do
  let base := locate literal exact (offset + 2)
  let span : Span :=
    ⟨locate literal exact offset, locate literal exact (offset + body.length + 3)⟩
  let tokens ← Lexer.lexAt { file := base.file, base := some base } body
  if tokens.isEmpty then
    throw (.diagnostic { category := .marker, span, message := "empty interpolation marker" })
  let tokens := if exact then tokens else tokens.map fun t => { t with span := literal.span }
  parseExpression tokens span

/-- Reads the pieces of a value from byte `offset` on. -/
def parsePieces (literal : Token) (exact : Bool) (offset : Nat) :
    List Piece → Except Failure (Bytes × List Expression)
  | [] => .ok ([], [])
  | .text bytes :: rest => do
    checkText literal exact offset bytes
    let (template, exprs) ← parsePieces literal exact (offset + bytes.length) rest
    return (escapePercent bytes ++ template, exprs)
  | .marker body :: rest => do
    let e ← parseMarker literal exact offset body
    let (template, exprs) ← parsePieces literal exact (offset + body.length + 3) rest
    return (0x25 :: 0x76 :: template, e :: exprs)

def Interpolation.parse (stop : Span) (ts : List Token) : Except Failure Interpolation := do
  let (literal, c) := (Cursor.ofTokens ts stop).next
  if literal.kind ≠ .string then
    throw (.diagnostic (.mismatch literal.span "string literal" literal.describe))
  lift c.expectEnd
  match Text.unquote? literal.literal with
  | none => throw (.diagnostic (.wrap .lexical literal.span "invalid syntax"))
  | some value =>
    let exact := value == literal.literal.tail.dropLast
    let (template, exprs) ← parsePieces literal exact 0 (pieces [] value)
    return { literal, template, exprs }

/-- A literal without markers stays as it is. -/
def Interpolation.emit (s : Interpolation) (ctx : Context) : List Token × Context :=
  match s.exprs with
  | [] => ([s.literal], ctx)
  | exprs =>
    let (fmt, ctx) := ctx.require "fmt"
    let b : Builder := { span := ctx.span }
    let b := b.code s!"{fmt}.Sprintf({Text.quoteBytes s.template}"
    let b := exprs.foldl (fun b e => (b.code ",").tokens e.tokens) b
    ((b.code ")").stream, ctx)

end Desugar.Form

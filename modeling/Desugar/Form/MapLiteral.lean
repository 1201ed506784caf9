import Desugar.Form.Builder
import Desugar.Form.Context
import Desugar.Form.Expression

/-!
# Map literals

An optional map type, then entries `key: value` with commas between them, all of it in optional
brackets. A key is one identifier or one literal. A lone colon stands for no entries.
-/
namespace Desugar.Form

inductive KeyKind where
  | variable | literal
  deriving DecidableEq, Repr

structure MapEntry where
  kind : KeyKind
  key : Token
  value : Expression
  deriving DecidableEq, Repr

structure MapLiteral where
  type : Option Expression
  entries : List MapEntry
  deriving DecidableEq, Repr

/-- The kind of key that a token is, if it is one. -/
def keyKind? (t : Token) : Option KeyKind :=
  if t.kind = .identifier then some .variable
  else if t.isLiteral then some .literal
  else none

/-- What is inside brackets around the whole stream, or the stream itself. -/
def unwrapBrackets (stop : Span) (ts : List Token) : List Token :=
  let g := (Cursor.ofTokens ts stop).group .lbracket
  match g.inner with
  | .ok inner => if g.cursor.atEnd then inner else ts
  | .error _ => ts

/-- How many tokens belong to the value type of a map type: up to a key with a colon behind it or a
lone colon at the end, outside of brackets. The first token belongs to the type even if it looks
like a key. -/
def valueTypeLength (depth : Int) (first : Bool) : List Token → Nat
  | [] => 0
  | t :: rest =>
    let colonNext := (rest.head?.map Token.kind) = some .colon
    if depth = 0 &&
        ((!first && (keyKind? t).isSome && colonNext) || (t.kind = .colon && rest.isEmpty)) then 0
    else
      let depth := if t.kind.isOpen then depth + 1 else if t.kind.isClose then depth - 1 else depth
      valueTypeLength depth false rest + 1

/-- A map type at the front of a stream that starts with the keyword. -/
def parseMapType (c : Cursor) : Except Failure (Expression × Cursor) := do
  let keyword := c.peek
  let g := c.next.2.group .lbracket
  let _ ← lift g.inner
  let inValue := valueTypeLength 0 true g.cursor.rest
  let length := c.rest.length - g.cursor.rest.length + inValue
  let e ← parseExpression (c.rest.take length) keyword.span
  return (e, c.moveTo (c.rest.drop length))

theorem splitAtDepth_rest_length (stop : Token → Bool) (depth : Int) (ts : List Token) :
    (Cursor.splitAtDepth stop depth ts).2.length ≤ ts.length := by
  induction ts generalizing depth with
  | nil => simp [Cursor.splitAtDepth]
  | cons t rest ih =>
    unfold Cursor.splitAtDepth
    split
    · simp
    · have := ih (if t.kind.isOpen then depth + 1 else if t.kind.isClose then depth - 1 else depth)
      simp only [List.length_cons]
      omega

/-- The entries of a map literal. -/
def parseEntries (stop : Span) (ts : List Token) : Except Failure (List MapEntry) :=
  match ts with
  | [] => .ok []
  | key :: rest =>
    match keyKind? key with
    | none => .error (.diagnostic (.mismatch key.span "identifier or literal key" key.describe))
    | some kind => do
      let (colon, _) ← lift ((Cursor.ofTokens rest stop).expect .colon)
      let parts := Cursor.splitAtDepth (fun t => t.kind = .comma) 0 rest.tail
      let value ← parseExpression parts.1 colon.span
      let entries ← parseEntries stop parts.2.tail
      return ⟨kind, key, value⟩ :: entries
termination_by ts.length
decreasing_by
  have := splitAtDepth_rest_length (fun t => decide (t.kind = .comma)) 0 rest.tail
  simp only [List.length_tail, List.length_cons] at *
  omega

def MapLiteral.parse (stop : Span) (ts : List Token) : Except Failure MapLiteral := do
  let c := Cursor.ofTokens (unwrapBrackets stop ts) stop
  let (type, c) ←
    if c.peek.kind = .map then do
      let (t, c) ← parseMapType c
      pure (some t, c)
    else pure (none, c)
  match c.rest with
  | [] => return { type, entries := [] }
  | [t] =>
    if t.kind = .colon then return { type, entries := [] }
    return { type, entries := ← parseEntries stop c.rest }
  | rest => return { type, entries := ← parseEntries stop rest }

/-- An untyped map is a call that lets the key and value types be inferred; a typed one is filled
entry by entry. -/
def MapLiteral.emit (m : MapLiteral) (ctx : Context) : List Token × Context :=
  let b : Builder := { span := ctx.span }
  match m.type, m.entries with
  | none, [] => ((b.code "make(map[any]any)").stream, ctx)
  | some t, [] => ((((b.code "make(").tokens t.tokens).code ")").stream, ctx)
  | none, first :: more =>
    let (sugar, ctx) := ctx.sugar
    let entry (b : Builder) (e : MapEntry) : Builder :=
      ((((b.code s!"{sugar}.Entry(").tokens [e.key]).code ",").tokens e.value.tokens).code ")"
    let b := entry (b.code s!"{sugar}.MapOf(") first
    let b := more.foldl (fun b e => entry (b.code ",") e) b
    ((b.code ")").stream, ctx)
  | some t, entries =>
    let (name, ctx) := ctx.fresh "m"
    let b := ((b.code "func()").tokens t.tokens).code " \x7b"
    let b := ((b.code s!" {name} := make(").tokens t.tokens).code s!", {entries.length});"
    let entry (b : Builder) (e : MapEntry) : Builder :=
      ((((b.code s!" {name}[").tokens [e.key]).code "] =").tokens e.value.tokens).code ";"
    let b := entries.foldl entry b
    ((b.code s!" return {name} \x7d()").stream, ctx)

end Desugar.Form

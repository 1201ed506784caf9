import Desugar.Diagnostic
import Desugar.Token

/-!
# Cursors over token streams

A cursor reads a stream of tokens from the front, and can look back at what it has read. Past its
last token it sees the end mark, which is reported at the cursor's own span.
-/
namespace Desugar

/-- A token as part of an "expected" message; the end mark has no text there. -/
def Token.found (t : Token) : String := if t.kind = .eof then "" else t.describe

/-- A kind in back quotes. -/
def TokenKind.quoted (k : TokenKind) : String :=
  let mark := Char.ofNat 0x60
  s!"{mark}{k.name}{mark}"

structure Cursor where
  rest : List Token
  /-- Where a missing token is reported. -/
  stop : Span
  /-- The tokens read so far, the last one first. -/
  taken : List Token
  deriving Repr

namespace Cursor

/-- A cursor at the front of a stream. -/
def ofTokens (tokens : List Token) (stop : Span) : Cursor := ⟨tokens, stop, []⟩

/-- The token `n` places ahead, or behind if `n` is negative. -/
def peekAt (c : Cursor) : (n : Int) → Token
  | .ofNat n => c.rest.getD n (.endMark c.stop)
  | .negSucc n => c.taken.getD n (.endMark c.stop)

def peek (c : Cursor) : Token := c.peekAt 0

/-- The cursor moved to where `rest` is left, which is the end of what is left here. -/
def moveTo (c : Cursor) (rest : List Token) : Cursor :=
  { c with rest, taken := (c.rest.take (c.rest.length - rest.length)).reverse ++ c.taken }

def next (c : Cursor) : Token × Cursor := (c.peek, c.moveTo c.rest.tail)

def atEnd (c : Cursor) : Bool := c.rest.isEmpty

/-- Takes the current token if it is of a kind. -/
def accept (c : Cursor) (k : TokenKind) : Option Token × Cursor :=
  if c.peek.kind = k then (some c.peek, c.next.2) else (none, c)

/-- Takes the current token, which has to be of a kind. -/
def expect (c : Cursor) (k : TokenKind) : Except Diagnostic (Token × Cursor) :=
  let t := c.peek
  if t.kind = k then .ok c.next else .error (.expected t.span k.quoted t.found)

/-- Nothing may be left. -/
def expectEnd (c : Cursor) : Except Diagnostic Unit :=
  let t := c.peek
  if t.kind = .eof then .ok () else .error (.expected t.span "end of macro input" t.found)

/-- Reads up to the delimiter that closes a group. `open_` holds the closers of the groups opened
inside it, the innermost first, and `inner` the tokens read, the last one first. Gives also what is
left: behind the closer, or from the token that does not fit. -/
def groupBody (closer : TokenKind) (stop : Span) (open_ : List TokenKind) (inner : List Token) :
    List Token → Except Diagnostic (List Token) × List Token
  | [] => (.error (.expected stop closer.quoted ""), [])
  | t :: rest =>
    match t.kind.closer? with
    | some k => groupBody closer stop (k :: open_) (t :: inner) rest
    | none =>
      if t.kind.isClose then
        match open_ with
        | [] =>
          if t.kind = closer then (.ok inner.reverse, rest)
          else (.error (.expected t.span closer.quoted t.found), t :: rest)
        | want :: outer =>
          if t.kind = want then groupBody closer stop outer (t :: inner) rest
          else (.error (.expected t.span want.quoted t.found), t :: rest)
      else groupBody closer stop open_ (t :: inner) rest

/-- A group read so far: its opening token, what is inside if it is well formed, and what is
left. -/
structure Group where
  opening : Token
  inner : Except Diagnostic (List Token)
  cursor : Cursor

/-- Takes a bracketed group that the current token opens. -/
def group (c : Cursor) (k : TokenKind) : Group :=
  match c.expect k with
  | .error d => ⟨c.peek, .error d, c⟩
  | .ok (opening, c) =>
    let (inner, rest) := groupBody (k.closer?.getD .eof) c.stop [] [] c.rest
    ⟨opening, inner, c.moveTo rest⟩

/-- Splits a stream before the first token outside of brackets that `stop` accepts. -/
def splitAtDepth (stop : Token → Bool) (depth : Int) : List Token → List Token × List Token
  | [] => ([], [])
  | t :: rest =>
    if depth = 0 && stop t then ([], t :: rest)
    else
      let depth := if t.kind.isOpen then depth + 1 else if t.kind.isClose then depth - 1 else depth
      let (taken, left) := splitAtDepth stop depth rest
      (t :: taken, left)

/-- Takes the tokens before the first one outside of brackets that `stop` accepts. -/
def takeUntil (c : Cursor) (stop : Token → Bool) : List Token × Cursor :=
  let (taken, rest) := splitAtDepth stop 0 c.rest
  (taken, c.moveTo rest)

end Cursor
end Desugar

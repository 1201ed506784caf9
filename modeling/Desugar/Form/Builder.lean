import Desugar.Token.Lexer

/-!
# Building output

Expanded code is put together from code of its own and from tokens of the source. Code is read into
tokens so that an enclosing invocation sees their kinds; its tokens stand at the span of the
invocation. Source tokens keep their spans. Words never touch each other.
-/
namespace Desugar

structure Builder where
  /-- Where tokens of code stand. -/
  span : Span
  /-- Tokens so far, the last one first. -/
  built : List Token := []

namespace Builder

/-- Adds a token, with a space before a word that would touch the word before it. -/
def push (b : Builder) (t : Token) : Builder :=
  match b.built with
  | last :: _ =>
    if t.gap = .none && last.kind.isWordlike && t.kind.isWordlike then
      { b with built := { t with gap := .space } :: b.built }
    else { b with built := t :: b.built }
  | [] => { b with built := [t] }

/-- Adds code; text that cannot be read adds nothing. -/
def code (b : Builder) (text : String) : Builder :=
  match Lexer.lex "" (Text.utf8 text) with
  | .ok tokens => tokens.foldl (fun b t => b.push { t with span := b.span }) b
  | .error _ => b

/-- Adds source tokens, the first one after a space. -/
def tokens (b : Builder) : List Token → Builder
  | [] => b
  | t :: ts => ts.foldl push (b.push { t with gap := .space })

def stream (b : Builder) : List Token := b.built.reverse

end Builder
end Desugar

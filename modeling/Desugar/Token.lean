import Desugar.Host.Token
import Desugar.Position
import Desugar.Text.Quoted

/-!
# Tokens of extended sources

The extension grammars tell few kinds of tokens apart: identifiers, literals, delimiters and the
operators they read themselves, four of which the host language does not have. All other keywords
and operators are carried along by their spelling. A token remembers the blanks before it, so that
a stream of tokens can be written out again.
-/
namespace Desugar

inductive TokenKind where
  | eof
  | identifier | int | float | imag | char | string
  /-- The keyword that is also the name of a form. -/
  | map
  | keyword
  | lparen | rparen | lbrace | rbrace | lbracket | rbracket
  | comma | colon | semicolon | period
  | not | assign | increment | decrement
  | question | elvis | elvisAssign | spreadDot
  | operator
  deriving DecidableEq, Repr, Inhabited

namespace TokenKind

/-- All kinds, in the order of their numbers. -/
def all : List TokenKind :=
  [eof, identifier, int, float, imag, char, string, map, keyword, lparen, rparen, lbrace, rbrace,
   lbracket, rbracket, comma, colon, semicolon, period, not, assign, increment, decrement, question,
   elvis, elvisAssign, spreadDot, operator]

def name : TokenKind → String
  | eof => "EOF"
  | identifier => "IDENT"
  | int => "INT"
  | float => "FLOAT"
  | imag => "IMAG"
  | char => "CHAR"
  | string => "STRING"
  | map => "map"
  | keyword => "KEYWORD"
  | lparen => "("
  | rparen => ")"
  | lbrace => "\x7b"
  | rbrace => "\x7d"
  | lbracket => "["
  | rbracket => "]"
  | comma => ","
  | colon => ":"
  | semicolon => ";"
  | period => "."
  | not => "!"
  | assign => "="
  | increment => "++"
  | decrement => "--"
  | question => "?"
  | elvis => "?:"
  | elvisAssign => "?="
  | spreadDot => "*."
  | operator => "OPERATOR"

def ofName? (name : String) : Option TokenKind := all.find? (·.name = name)

def ofIndex? (n : Int) : Option TokenKind := if n < 0 then none else all[n.toNat]?

/-- The name of a kind by its number; a number without a kind is shown. -/
def nameOfIndex (n : Int) : String := ((ofIndex? n).map name).getD s!"UNKNOWN({n})"

/-- The delimiter that closes what an opening one opens. -/
def closer? : TokenKind → Option TokenKind
  | lparen => some rparen
  | lbrace => some rbrace
  | lbracket => some rbracket
  | _ => none

def isOpen (k : TokenKind) : Bool := k.closer?.isSome

def isClose : TokenKind → Bool
  | rparen | rbrace | rbracket => true
  | _ => false

def isLiteral : TokenKind → Bool
  | int | float | imag | char | string => true
  | _ => false

/-- Words and literals, which must not touch each other. -/
def isWordlike : TokenKind → Bool
  | identifier | map | keyword => true
  | k => k.isLiteral

/-- The kind of a host token. -/
def ofHost : Host.Kind → TokenKind
  | .ident => identifier
  | .int => int
  | .float => float
  | .imag => imag
  | .char => char
  | .string => string
  | .kwMap => map
  | .lparen => lparen
  | .rparen => rparen
  | .lbrace => lbrace
  | .rbrace => rbrace
  | .lbrack => lbracket
  | .rbrack => rbracket
  | .comma => comma
  | .colon => colon
  | .semicolon => semicolon
  | .period => period
  | .not => not
  | .assign => assign
  | .inc => increment
  | .dec => decrement
  | k => if k.isKeyword then keyword else operator

end TokenKind

/-- The blanks before a token. -/
inductive Gap where
  | none | space | newline
  deriving DecidableEq, Repr, Inhabited

namespace Gap

/-- What stands for the gap when a stream is written out. -/
def text : Gap → Bytes
  | none => []
  | space => [0x20]
  | newline => [0x0A]

def index : Gap → Nat
  | none => 0
  | space => 1
  | newline => 2

def ofIndex (n : Int) : Gap := if n = 1 then space else if n = 2 then newline else none

/-- The gap that the text between two tokens makes. -/
def ofText (between : Bytes) : Gap :=
  if between.isEmpty then none else if between.contains 0x0A then newline else space

end Gap

structure Token where
  kind : TokenKind
  literal : Bytes
  span : Span
  gap : Gap
  deriving DecidableEq, Repr, Inhabited

namespace Token

def isLiteral (t : Token) : Bool := t.kind.isLiteral

def text (t : Token) : String := Text.toString t.literal

/-- The token in back quotes. -/
def quoted (t : Token) : Bytes := 0x60 :: t.literal ++ [0x60]

/-- The token as messages name it. -/
def describeBytes (t : Token) : Bytes :=
  if t.kind = .eof then Text.utf8 "end of input" else t.quoted

def describe (t : Token) : String := Text.toString t.describeBytes

/-- Kind, quoted text and place. -/
def render (t : Token) : String :=
  s!"{t.kind.name}({Text.quoteBytes t.literal})@{t.span.start.render}"

/-- The end mark at a span. -/
def endMark (span : Span) : Token := ⟨.eof, [], span, .none⟩

end Token

/-- A stream written out: each token after its gap. -/
def renderTail (ts : List Token) : Bytes := ts.flatMap fun t => t.gap.text ++ t.literal

/-- A stream written out; the gap before the first token is dropped. -/
def renderTokens : List Token → Bytes
  | [] => []
  | t :: ts => t.literal ++ renderTail ts

/-- The span from the first token of a stream to its last. -/
def spanOf (ts : List Token) : Span :=
  match ts.head?, ts.getLast? with
  | some first, some last => first.span.union last.span
  | _, _ => .none

end Desugar

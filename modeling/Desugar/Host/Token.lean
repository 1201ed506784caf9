import Desugar.Text.Bytes

/-!
# Token kinds of the host language

The kinds that the host language's lexical grammar tells apart, with the spelling of those that
have only one.
-/
namespace Desugar.Host

inductive Kind where
  | illegal | eof | comment
  | ident | int | float | imag | char | string
  | add | sub | mul | quo | rem
  | and | or | xor | shl | shr | andNot
  | addAssign | subAssign | mulAssign | quoAssign | remAssign
  | andAssign | orAssign | xorAssign | shlAssign | shrAssign | andNotAssign
  | land | lor | arrow | inc | dec
  | eql | lss | gtr | assign | not
  | neq | leq | geq | define | ellipsis
  | lparen | lbrack | lbrace | comma | period
  | rparen | rbrack | rbrace | semicolon | colon | tilde
  | kwBreak | kwCase | kwChan | kwConst | kwContinue
  | kwDefault | kwDefer | kwElse | kwFallthrough | kwFor
  | kwFunc | kwGo | kwGoto | kwIf | kwImport
  | kwInterface | kwMap | kwPackage | kwRange | kwReturn
  | kwSelect | kwStruct | kwSwitch | kwType | kwVar
  deriving DecidableEq, Repr, Inhabited

namespace Kind

/-- The reserved words. -/
def keywords : List (String × Kind) :=
  [("break", kwBreak), ("case", kwCase), ("chan", kwChan), ("const", kwConst),
   ("continue", kwContinue), ("default", kwDefault), ("defer", kwDefer), ("else", kwElse),
   ("fallthrough", kwFallthrough), ("for", kwFor), ("func", kwFunc), ("go", kwGo),
   ("goto", kwGoto), ("if", kwIf), ("import", kwImport), ("interface", kwInterface),
   ("map", kwMap), ("package", kwPackage), ("range", kwRange), ("return", kwReturn),
   ("select", kwSelect), ("struct", kwStruct), ("switch", kwSwitch), ("type", kwType),
   ("var", kwVar)]

/-- The kind of a word: reserved, or an identifier. -/
def ofWord (word : String) : Kind := (keywords.lookup word).getD ident

/-- The operators and delimiters with their spellings. -/
def operators : List (Kind × String) :=
  [(add, "+"), (sub, "-"), (mul, "*"), (quo, "/"), (rem, "%"),
   (and, "&"), (or, "|"), (xor, "^"), (shl, "<<"), (shr, ">>"), (andNot, "&^"),
   (addAssign, "+="), (subAssign, "-="), (mulAssign, "*="), (quoAssign, "/="), (remAssign, "%="),
   (andAssign, "&="), (orAssign, "|="), (xorAssign, "^="), (shlAssign, "<<="), (shrAssign, ">>="),
   (andNotAssign, "&^="),
   (land, "&&"), (lor, "||"), (arrow, "<-"), (inc, "++"), (dec, "--"),
   (eql, "=="), (lss, "<"), (gtr, ">"), (assign, "="), (not, "!"),
   (neq, "!="), (leq, "<="), (geq, ">="), (define, ":="), (ellipsis, "..."),
   (lparen, "("), (lbrack, "["), (lbrace, "\x7b"), (comma, ","), (period, "."),
   (rparen, ")"), (rbrack, "]"), (rbrace, "\x7d"), (semicolon, ";"), (colon, ":"), (tilde, "~")]

/-- The name of a class of tokens, or the spelling of the only token of a kind. -/
def text : Kind → String
  | illegal => "ILLEGAL"
  | eof => "EOF"
  | comment => "COMMENT"
  | ident => "IDENT"
  | int => "INT"
  | float => "FLOAT"
  | imag => "IMAG"
  | char => "CHAR"
  | string => "STRING"
  | k =>
    match operators.lookup k with
    | some s => s
    | none => ((keywords.find? (·.2 = k)).map (·.1)).getD ""

def isLiteral : Kind → Bool
  | ident | int | float | imag | char | string => true
  | _ => false

def isKeyword (k : Kind) : Bool := keywords.any (·.2 = k)

def isOperator (k : Kind) : Bool := operators.any (·.1 = k)

/-- Precedence of a binary operator, from 1; 0 if it is none. -/
def precedence : Kind → Nat
  | lor => 1
  | land => 2
  | eql | neq | lss | leq | gtr | geq => 3
  | add | sub | or | xor => 4
  | mul | quo | rem | shl | shr | and | andNot => 5
  | _ => 0

/-- Whether a line that ends in such a token ends a statement. -/
def endsStatement : Kind → Bool
  | ident | kwBreak | kwContinue | kwFallthrough | kwReturn
  | int | float | imag | char | string
  | rparen | rbrack | rbrace | inc | dec => true
  | _ => false

end Kind
end Desugar.Host

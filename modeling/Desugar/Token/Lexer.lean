import Desugar.Diagnostic
import Desugar.Host.Scan
import Desugar.Token

/-!
# Reading tokens

The host language's lexemes become tokens: comments and automatic semicolons drop out, and a
question mark or a star is glued to the colon, equals sign or point that touches it, unless that
belongs to a longer lexeme. The question mark itself is no fault here.
-/
namespace Desugar.Lexer

/-- Where the first byte of a text stands in the file around it. -/
structure Origin where
  file : String
  /-- Nothing for a whole file. -/
  base : Option Position := none
  deriving Repr

/-- The position of an offset in the file around the text. -/
def Origin.position (o : Origin) (lines : Host.LineTable) (offset : Nat) : Position :=
  let p := lines.position o.file offset
  match o.base with
  | some base => p.shift base
  | none => p

/-- Whether byte `mark` at `offset` is glued to what stands before it: it is there, and the byte
after it does not make a longer lexeme of it. -/
def glues (text : Array UInt8) (offset : Nat) (mark : UInt8) : Bool :=
  let after := (text[offset + 1]?).getD 0
  (text[offset]?).getD 0 == mark &&
    (if mark == 0x2E then after != 0x2E && !(0x30 ≤ after && after ≤ 0x39) else after != 0x3D)

/-- The kind and text of a token, and whether it takes the next lexeme with it. -/
def classify (text : Array UInt8) (l : Host.Lexeme) : TokenKind × Bytes × Bool :=
  if l.kind = .illegal && l.literal == [0x3F] then
    if glues text (l.offset + 1) 0x3A then (.elvis, Text.utf8 "?:", true)
    else if glues text (l.offset + 1) 0x3D then (.elvisAssign, Text.utf8 "?=", true)
    else (.question, l.literal, false)
  else if l.kind = .mul && glues text (l.offset + 1) 0x2E then (.spreadDot, Text.utf8 "*.", true)
  else (.ofHost l.kind, l.text, false)

/-- Reads tokens off lexemes; `last` is the offset just past the token before. -/
def tokens (o : Origin) (lines : Host.LineTable) (text : Array UInt8) (last : Nat) :
    List Host.Lexeme → List Token
  | [] => []
  | l :: rest =>
    let (kind, literal, takes) := classify text l
    let stop := l.offset + literal.length
    let token : Token :=
      { kind, literal
        span := ⟨o.position lines l.offset, o.position lines stop⟩
        gap := Gap.ofText (text.extract last l.offset).toList }
    token :: match takes, rest with
      | true, _ :: rest => tokens o lines text stop rest
      | _, rest => tokens o lines text stop rest

/-- A fault as a diagnostic, unless it is about a question mark. -/
def diagnostic? (o : Origin) (lines : Host.LineTable) (text : Array UInt8) (f : Host.Located) :
    Option Diagnostic :=
  if text[f.offset]? = some 0x3F then none
  else some
    { category := .lexical
      span := .point (o.position lines f.offset)
      message := f.fault.message }

/-- A text read as tokens, whatever its faults. -/
structure Lexed where
  tokens : List Token
  faults : List Diagnostic
  /-- The end mark that follows the last token. -/
  endMark : Token
  deriving Repr

/-- Lexemes that become tokens. -/
def isProper (l : Host.Lexeme) : Bool :=
  !(l.kind = .comment || l.kind = .eof || l.isAutomatic)

def read (o : Origin) (text : Bytes) : Lexed :=
  let scanned := Host.scan o.file text
  let bytes := text.toArray
  let base := o.base.filter Position.isValid
  let o := { o with base }
  { tokens := tokens o scanned.lines bytes 0 (scanned.lexemes.filter isProper)
    faults := (scanned.lexemes.flatMap (·.faults)).filterMap (diagnostic? o scanned.lines bytes)
    endMark := .endMark (.point (o.position scanned.lines text.length)) }

/-- The tokens of a text that stands at `o`, or all its faults. -/
def lexAt (o : Origin) (text : Bytes) : Except Failure (List Token) :=
  let lexed := read o text
  match Failure.ofDiagnostics lexed.faults with
  | some f => .error f
  | none => .ok lexed.tokens

/-- The tokens of a whole file. -/
def lex (file : String) (text : Bytes) : Except Failure (List Token) := lexAt { file } text

end Desugar.Lexer

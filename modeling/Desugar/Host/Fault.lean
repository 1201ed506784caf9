import Desugar.Text.Quoted

/-!
# Lexical faults

Why a text is not a sequence of tokens of the host language. A fault stands at a byte offset.
-/
namespace Desugar.Host

/-- How the digits of a number literal are to be read. -/
inductive Radix where
  /-- Decimal, without a leading zero. -/
  | decimal
  /-- Octal, by a leading zero. -/
  | zero
  /-- Octal, by `0o`. -/
  | octal
  | hexadecimal
  | binary
  deriving DecidableEq, Repr

def Radix.literal : Radix → String
  | decimal => "decimal literal"
  | zero | octal => "octal literal"
  | hexadecimal => "hexadecimal literal"
  | binary => "binary literal"

inductive Fault where
  | nul
  | encoding
  | wideEncoding
  | byteOrderMark
  | illegalCharacter (c : Char)
  | curlyQuote (c : Char)
  | openComment
  | openString
  | openRune
  | openRawString
  | runeLength
  | unknownEscape
  | openEscape
  | escapeCharacter (c : Char)
  | escapeValue
  | radixPoint (r : Radix)
  | noDigits (r : Radix)
  | decimalExponent (c : Char)
  | hexadecimalExponent (c : Char)
  | exponentDigits
  | missingExponent
  | invalidDigit (c : Char) (r : Radix)
  | separator
  | lineNumber (text : String)
  | columnNumber (text : String)
  deriving DecidableEq, Repr

namespace Fault

/-- A character by its code point, and as it is if it can be shown. -/
def describe (c : Char) : String :=
  let digits := (Nat.toDigits 16 c.toNat).map Char.toUpper
  let number := "U+" ++ String.ofList (List.replicate (4 - digits.length) '0' ++ digits)
  if Text.isPrintable c then s!"{number} '{c}'" else number

def message : Fault → String
  | nul => "illegal character NUL"
  | encoding => "illegal UTF-8 encoding"
  | wideEncoding => "illegal UTF-8 encoding (got UTF-16)"
  | byteOrderMark => "illegal byte order mark"
  | illegalCharacter c => s!"illegal character {describe c}"
  | curlyQuote c => s!"curly quotation mark {Text.quoteChar c} (use neutral '\"')"
  | openComment => "comment not terminated"
  | openString => "string literal not terminated"
  | openRune => "rune literal not terminated"
  | openRawString => "raw string literal not terminated"
  | runeLength => "illegal rune literal"
  | unknownEscape => "unknown escape sequence"
  | openEscape => "escape sequence not terminated"
  | escapeCharacter c => s!"illegal character {describe c} in escape sequence"
  | escapeValue => "escape sequence is invalid Unicode code point"
  | radixPoint r => s!"invalid radix point in {r.literal}"
  | noDigits r => s!"{r.literal} has no digits"
  | decimalExponent c => s!"{Text.quoteChar c} exponent requires decimal mantissa"
  | hexadecimalExponent c => s!"{Text.quoteChar c} exponent requires hexadecimal mantissa"
  | exponentDigits => "exponent has no digits"
  | missingExponent => "hexadecimal mantissa requires a 'p' exponent"
  | invalidDigit c r => s!"invalid digit {Text.quoteChar c} in {r.literal}"
  | separator => "'_' must separate successive digits"
  | lineNumber text => s!"invalid line number: {text}"
  | columnNumber text => s!"invalid column number: {text}"

end Fault

/-- A fault and where it stands. -/
structure Located where
  offset : Nat
  fault : Fault
  deriving DecidableEq, Repr

end Desugar.Host

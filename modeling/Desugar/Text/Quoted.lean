import Desugar.Text.Bytes
import Desugar.Text.CharClass

/-!
# Quoted text

`quote` writes a text between double quotes, with every character that cannot be shown as it is
escaped; `unquote?` reads a string or character literal back, in the interpreted or the raw form.
-/
namespace Desugar.Text

/-- The digit of value `n` in lower-case hexadecimal. -/
def hexDigit (n : Nat) : Char := Nat.digitChar (n % 16)

/-- `n` in hexadecimal with exactly `width` digits. -/
def hex (width n : Nat) : List Char :=
  match width with
  | 0 => []
  | w + 1 => hex w (n / 16) ++ [hexDigit n]

/-- Letters that stand for control characters after a backslash. -/
def controlLetters : List (Char × Char) :=
  [('\x07', 'a'), ('\x08', 'b'), ('\x0c', 'f'), ('\n', 'n'), ('\r', 'r'), ('\t', 't'), ('\x0b', 'v')]

/-- One character between quotes of the kind `mark`. -/
def escapeChar (mark c : Char) : List Char :=
  if c == mark || c == '\\' then ['\\', c]
  else if isPrintable c then [c]
  else match controlLetters.lookup c with
    | some letter => ['\\', letter]
    | none =>
      let n := c.toNat
      if n < 0x20 || n == 0x7F then '\\' :: 'x' :: hex 2 n
      else if n < 0x10000 then '\\' :: 'u' :: hex 4 n
      else '\\' :: 'U' :: hex 8 n

/-- The inside of a quoted text; a byte that starts no character is written by its value. -/
def escape (mark : Char) : Bytes → List Char
  | [] => []
  | b :: rest =>
    let d := decodeCons b rest
    (if d.valid then escapeChar mark d.char else '\\' :: 'x' :: hex 2 b.toNat) ++
      escape mark (rest.drop d.more)
termination_by bs => bs.length
decreasing_by simp only [List.length_drop, List.length_cons]; omega

/-- A text between double quotes. -/
def quoteBytes (bs : Bytes) : String := String.ofList ('"' :: escape '"' bs ++ ['"'])

/-- A string between double quotes. -/
def quote (s : String) : String :=
  String.ofList ('"' :: s.toList.flatMap (escapeChar '"') ++ ['"'])

/-- A character between single quotes. -/
def quoteChar (c : Char) : String := String.ofList ('\'' :: escapeChar '\'' c ++ ['\''])

/-- The value of a hexadecimal digit. -/
def hexValue? (b : UInt8) : Option Nat :=
  if 0x30 ≤ b && b ≤ 0x39 then some (b.toNat - 0x30)
  else if 0x61 ≤ b && b ≤ 0x66 then some (b.toNat - 0x61 + 10)
  else if 0x41 ≤ b && b ≤ 0x46 then some (b.toNat - 0x41 + 10)
  else none

/-- The number that exactly `count` digits of a base make, and the text after them. -/
def digits? (base count : Nat) (text : Bytes) (acc : Nat) : Option (Nat × Bytes) :=
  match count, text with
  | 0, text => some (acc, text)
  | _ + 1, [] => none
  | k + 1, b :: rest => do
    let v ← hexValue? b
    if v < base then digits? base k rest (acc * base + v) else none

/-- Whether a number is the code point of a character. -/
def isScalar (n : Nat) : Bool := n < 0xD800 || (0xDFFF < n && n < 0x110000)

/-- The bytes that an escape stands for, and the text after it; `text` starts behind the
backslash. -/
def unescape? (mark : UInt8) (text : Bytes) : Option (Bytes × Bytes) :=
  match text with
  | [] => none
  | b :: rest =>
    match (Char.ofNat b.toNat) with
    | 'a' => some ([7], rest)
    | 'b' => some ([8], rest)
    | 'f' => some ([12], rest)
    | 'n' => some ([10], rest)
    | 'r' => some ([13], rest)
    | 't' => some ([9], rest)
    | 'v' => some ([11], rest)
    | '\\' => some ([0x5C], rest)
    | 'x' => (digits? 16 2 rest 0).map fun (n, rest) => ([UInt8.ofNat n], rest)
    | 'u' => do
      let (n, rest) ← digits? 16 4 rest 0
      if isScalar n then some (String.utf8EncodeChar (Char.ofNat n), rest) else none
    | 'U' => do
      let (n, rest) ← digits? 16 8 rest 0
      if isScalar n then some (String.utf8EncodeChar (Char.ofNat n), rest) else none
    | _ =>
      if b == mark then some ([b], rest)
      else if 0x30 ≤ b && b ≤ 0x37 then do
        let (n, rest) ← digits? 8 3 text 0
        if n < 256 then some ([UInt8.ofNat n], rest) else none
      else none

/-- The inside of an interpreted literal, up to its closing `mark`, which must end the text. A byte that
starts no character stands for the replacement character. -/
def unescapeAll? (mark : UInt8) : (fuel : Nat) → Bytes → Option Bytes
  | 0, _ => none
  | fuel + 1, text =>
    match text with
    | [] => none
    | b :: rest =>
      if b == mark then if rest.isEmpty then some [] else none
      else if b == 0x0A then none
      else if b == 0x5C then do
        let (value, rest) ← unescape? mark rest
        (value ++ ·) <$> unescapeAll? mark fuel rest
      else
        let d := decodeCons b rest
        (String.utf8EncodeChar d.char ++ ·) <$> unescapeAll? mark fuel (rest.drop d.more)

/-- The value of a string literal: raw between back quotes, where carriage returns are dropped,
or interpreted between double quotes. -/
def unquote? (literal : Bytes) : Option Bytes :=
  match literal with
  | [] => none
  | mark :: rest =>
    if mark == 0x60 then
      match rest.getLast? with
      | some 0x60 =>
        let body := rest.dropLast
        if body.contains 0x60 then none else some (body.filter (· != 0x0D))
      | _ => none
    else if mark == 0x22 then unescapeAll? mark (rest.length + 1) rest
    else none

end Desugar.Text

import Desugar.Host.Token
import Desugar.Text.Quoted
import Desugar.Typing.RealNumber

/-!
# Constants of the host language

Constants are integers of any size, real numbers and pairs of them, texts and truth values.
-/
namespace Desugar.Typing

open Host (Kind)

inductive Constant where
  | unknown
  | bool (b : Bool)
  | text (s : Bytes)
  | int (n : Int)
  | real (r : RealNumber)
  | complex (re im : RealNumber)
  deriving Inhabited

namespace Constant

/-! ## Literals -/

def digitValue (c : Char) : Nat := (Text.hexValue? (UInt8.ofNat c.toNat)).getD 0

def natOf (base : Nat) (cs : List Char) : Nat :=
  cs.foldl (fun n c => if c = '_' then n else base * n + digitValue c) 0

/-- The digits behind the mark of a base, and that base. -/
def basedDigits (cs : List Char) : Nat × List Char :=
  match cs with
  | '0' :: c :: rest =>
    if c = 'x' || c = 'X' then (16, rest)
    else if c = 'b' || c = 'B' then (2, rest)
    else if c = 'o' || c = 'O' then (8, rest)
    else (8, c :: rest)
  | cs => (10, cs)

def ofInt (cs : List Char) : Int :=
  let (base, digits) := basedDigits cs
  natOf base digits

/-- The exponent behind its mark, if it is in the range of 64 bits. -/
def exponentOf (cs : List Char) : Option Int :=
  let e : Int := match cs with
    | '-' :: rest => -(natOf 10 rest : Int)
    | '+' :: rest => natOf 10 rest
    | rest => natOf 10 rest
  let limit : Int := (Nat.pow 2 63 : Nat)
  if -limit ≤ e && e < limit then some e else none

/-- Reads a number with a point or an exponent. -/
def ofFloat (cs : List Char) : Option RealNumber :=
  let (base, digits) := match cs with
    | '0' :: c :: rest => if c = 'x' || c = 'X' then (16, rest) else (10, cs)
    | _ => (10, cs)
  let isMark (c : Char) : Bool := if base = 16 then c = 'p' || c = 'P' else c = 'e' || c = 'E'
  let mantissa := digits.takeWhile (!isMark ·)
  let whole := mantissa.takeWhile (· ≠ '.')
  let fraction := ((mantissa.drop whole.length).drop 1).filter (· ≠ '_')
  let places : Int := fraction.length
  let value := natOf base (whole ++ fraction)
  (exponentOf ((digits.drop mantissa.length).drop 1)).bind fun exponent =>
    RealNumber.Written.value?
      (if base = 16 then ⟨value, exponent - 4 * places, 0⟩
        else ⟨value, exponent - places, exponent - places⟩)

/-- Whether a number is written as an integer. -/
def isIntegral (cs : List Char) : Bool :=
  match cs with
  | '0' :: c :: rest =>
    if c = 'x' || c = 'X' then !(rest.any fun c => c = '.' || c = 'p' || c = 'P')
    else !(rest.any fun c => c = '.' || c = 'e' || c = 'E') && c ≠ '.' && c ≠ 'e' && c ≠ 'E'
  | cs => !(cs.any fun c => c = '.' || c = 'e' || c = 'E')

def ofImaginary (cs : List Char) : Option RealNumber :=
  let body := cs.dropLast
  if !isIntegral body then ofFloat body
  else
    let n : Int := match body with
      | '0' :: c :: _ => if c.isDigit || c = '_' then natOf 10 body else ofInt body
      | _ => ofInt body
    RealNumber.Written.value? ⟨n.toNat, 0, 0⟩

/-- The character of a literal between single quotes. -/
def ofChar (literal : String) : Option Nat :=
  let bytes := Text.utf8 literal
  let inner := (bytes.drop 1).dropLast
  match inner with
  | 0x5C :: rest => match rest with
    | b :: digits =>
      if b = 0x78 then (Text.digits? 16 2 digits 0).map (·.1)
      else if 0x30 ≤ b && b ≤ 0x37 then (Text.digits? 8 3 rest 0).map (·.1)
      else (Text.unescape? 0x27 rest).bind fun (value, _) => (Text.chars value).head?.map (·.toNat)
    | [] => none
  | _ => (Text.chars inner).head?.map (·.toNat)

/-- The value of a literal. -/
def ofLiteral (kind : Kind) (literal : String) : Constant :=
  let cs := literal.toList
  match kind with
  | .int => .int (ofInt cs)
  | .float => ((ofFloat cs).map .real).getD .unknown
  | .imag => ((ofImaginary cs).map (.complex .zero)).getD .unknown
  | .char => ((ofChar literal).map fun n => Constant.int n).getD .unknown
  | .string => ((Text.unquote? (Text.utf8 literal)).map .text).getD .unknown
  | _ => .unknown

/-! ## Conversions -/

def toInt? : Constant → Option Int
  | int n => some n
  | real r => r.toInt?
  | complex re im => if im.isZero then re.toInt? else none
  | _ => none

def toReal? : Constant → Option RealNumber
  | int n => RealNumber.ofRat? n
  | real r => some r
  | complex re im => if im.isZero then some re else none
  | _ => none

def toComplex? : Constant → Option (RealNumber × RealNumber)
  | int n => (RealNumber.ofRat? n).map (·, .zero)
  | real r => some (r, .zero)
  | complex re im => some (re, im)
  | _ => none

/-- How general a number is. -/
def rank : Constant → Nat
  | int _ => 1
  | real _ => 2
  | complex .. => 3
  | _ => 0

def isNumber (c : Constant) : Bool := 0 < c.rank

/-- Whether a number is zero. -/
def isZero : Constant → Bool
  | int n => n = 0
  | real r => r.isZero
  | complex re im => re.isZero && im.isZero
  | _ => false

/-! ## Operators -/

/-- Bits of two numbers in two's complement combined by an operator on natural numbers; the flags say
what the operator makes of the infinitely many leading bits. -/
def bitwise (f : Bool → Bool → Bool) (a b : Int) : Int :=
  let bits := max a.natAbs.log2 b.natAbs.log2 + 2
  let modulus : Int := Nat.pow 2 bits
  let x := (a % modulus).toNat
  let y := (b % modulus).toNat
  let r := (List.range bits).foldl (fun n i => if f (x.testBit i) (y.testBit i) then n + Nat.pow 2 i else n) 0
  let r : Int := r
  if f (a < 0) (b < 0) then r - modulus else r

/-- A constant of what may be too large for one. -/
def ofReal : Option RealNumber → Constant
  | some r => real r
  | none => unknown

def realArithmetic (op : Kind) (x y : RealNumber) : Option RealNumber :=
  match op with
  | .add => x.add? y
  | .sub => x.sub? y
  | .mul => x.mul? y
  | .quo => x.div? y
  | _ => none

/-- Arithmetic on `a + b i` and `c + d i`. -/
def complexArithmetic (op : Kind) (a b c d : RealNumber) : Option (RealNumber × RealNumber) := do
  match op with
  | .add => return (← a.add? c, ← b.add? d)
  | .sub => return (← a.sub? c, ← b.sub? d)
  | .mul =>
    let re ← (← a.mul? c).sub? (← b.mul? d)
    let im ← (← b.mul? c).add? (← a.mul? d)
    return (re, im)
  | .quo =>
    let s ← (← c.mul? c).add? (← d.mul? d)
    let re ← (← a.mul? c).add? (← b.mul? d)
    let im ← (← b.mul? c).sub? (← a.mul? d)
    return (← re.div? s, ← im.div? s)
  | _ => none

/-- A binary operator on two numbers; `integral` asks for division of integers. -/
def arithmetic (op : Kind) (integral : Bool) (a b : Constant) : Constant :=
  match a, b with
  | int m, int n =>
    match op with
    | .add => int (m + n)
    | .sub => int (m - n)
    | .mul => int (m * n)
    | .quo => if integral then int (m.tdiv n) else ofReal (RealNumber.ofRat? ((m : Rat) / n))
    | .rem => int (m.tmod n)
    | .and => int (bitwise (· && ·) m n)
    | .or => int (bitwise (· || ·) m n)
    | .xor => int (bitwise (· != ·) m n)
    | .andNot => int (bitwise (fun x y => x && !y) m n)
    | _ => unknown
  | a, b =>
    if max a.rank b.rank ≤ 2 then
      match a.toReal?, b.toReal? with
      | some x, some y => ofReal (realArithmetic op x y)
      | _, _ => unknown
    else
      match a.toComplex?, b.toComplex? with
      | some (x, y), some (z, w) =>
        ((complexArithmetic op x y z w).map fun (re, im) => complex re im).getD unknown
      | _, _ => unknown

def binary (op : Kind) (integral : Bool) (a b : Constant) : Constant :=
  match a, b with
  | bool x, bool y =>
    match op with
    | .land => bool (x && y)
    | .lor => bool (x || y)
    | _ => unknown
  | text x, text y => if op = .add then text (x ++ y) else unknown
  | a, b => if a.isNumber && b.isNumber then arithmetic op integral a b else unknown

/-- A unary operator; a width makes the complement one of natural numbers. -/
def unary (op : Kind) (width : Option Nat) (c : Constant) : Constant :=
  match op, c with
  | .add, c => c
  | .sub, int n => int (-n)
  | .sub, real r => real r.neg
  | .sub, complex re im => complex re.neg im.neg
  | .xor, int n =>
    match width with
    | some w => int ((-n - 1) % (Nat.pow 2 w : Nat))
    | none => int (-n - 1)
  | .not, bool b => bool (!b)
  | _, _ => unknown

def ordering? (a b : Constant) : Option Ordering :=
  match a, b with
  | text x, text y => some (compareOfLessAndEq x y)
  | a, b => match a.toReal?, b.toReal? with
    | some x, some y => some (x.compare y)
    | _, _ => none

def equal (a b : Constant) : Bool :=
  match a, b with
  | bool x, bool y => x = y
  | text x, text y => x = y
  | int m, int n => m = n
  | a, b => match a.toComplex?, b.toComplex? with
    | some (x, y), some (z, w) => x.compare z = .eq && y.compare w = .eq
    | _, _ => false

def compare (op : Kind) (a b : Constant) : Constant :=
  match a, b with
  | unknown, _ | _, unknown => unknown
  | a, b =>
    let o := ordering? a b
    match op with
    | .eql => bool (equal a b)
    | .neq => bool (!equal a b)
    | .lss => bool (o = some .lt)
    | .leq => bool (o = some .lt || o = some .eq)
    | .gtr => bool (o = some .gt)
    | .geq => bool (o = some .gt || o = some .eq)
    | _ => unknown

def shift (left : Bool) (n : Int) (count : Nat) : Constant :=
  let factor : Int := Nat.pow 2 count
  int (if left then n * factor else n.fdiv factor)

/-! ## Text -/

/-- The text of a constant as messages show it; long texts are cut. -/
def render : Constant → String
  | unknown => "unknown"
  | bool b => if b then "true" else "false"
  | text s =>
    let quoted := Text.quoteBytes s
    if quoted.length ≤ 72 then quoted else String.ofList (quoted.toList.take 69) ++ "..."
  | int n => toString n
  | real r => r.render
  | complex re im =>
    let first := re.render
    let second := im.render
    s!"({first} + {second}i)"

end Constant
end Desugar.Typing

import Desugar.Binary

/-!
# Real numbers of constants

A real constant is an exact ratio as long as both parts of the ratio are small. Beyond that it is a binary
number of 512 bits, and stays one: each operation on it is rounded. A number too large even for that is none.
-/
namespace Desugar.Typing

inductive RealNumber where
  | ratio (q : Rat)
  | float (negative : Bool) (mantissa : Nat) (exponent : Int)
  deriving Inhabited

namespace RealNumber

/-- The format of numbers that are no ratios. -/
def wide : Binary.Format := ⟨512, -(Nat.pow 2 31 : Nat) - 512, (Nat.pow 2 31 : Nat) - 1 - 512⟩

/-- The bits that each part of a ratio has fewer of, and that bound the exponents of exact literals. -/
def partBits : Nat := 4096

def isSmallPart (n : Nat) : Bool := n = 0 || n.log2 + 1 < partBits

/-- The exponent of a number whose mantissa is read as a fraction from a half up to one. -/
def fractionExponent (m : Nat) (e : Int) : Int := if m = 0 then 0 else Nat.log2 m + 1 + e

/-- Whether a number is neither very large nor very small. -/
def isModerate (m : Nat) (e : Int) : Bool :=
  (fractionExponent m e).natAbs < partBits

def zero : RealNumber := ratio 0

def ofBinary? : Binary → Option RealNumber
  | .finite negative m e => some (float (negative && m ≠ 0) m e)
  | _ => none

/-- A ratio, or what it is rounded to. -/
def ofRat? (q : Rat) : Option RealNumber :=
  if isSmallPart q.num.natAbs && isSmallPart q.den then some (ratio q)
  else ofBinary? (wide.round (q < 0) q.num.natAbs q.den)

/-- The nearest number of a format. -/
def toBinary (f : Binary.Format) : RealNumber → Binary
  | ratio q => f.round (q < 0) q.num.natAbs q.den
  | float negative m e => f.roundScaled negative m 1 e

/-- A power of a base with any integer exponent. -/
def ratPow (base : Nat) (e : Int) : Rat :=
  if 0 ≤ e then (Nat.pow base e.toNat : Nat) else 1 / ((Nat.pow base (-e).toNat : Nat) : Rat)

/-- The number of a format that is nearest, unless that is infinite. -/
def roundTo? (f : Binary.Format) (r : RealNumber) : Option RealNumber :=
  match r.toBinary f with
  | .finite negative m e => some (ratio ((if negative then -1 else 1) * (m : Rat) * ratPow 2 e))
  | _ => none

/-! ## Operators -/

def isZero : RealNumber → Bool
  | ratio q => q = 0
  | float _ m _ => m = 0

def neg : RealNumber → RealNumber
  | ratio q => ratio (-q)
  | float negative m e => float (!negative && m ≠ 0) m e

/-- An operation, exact on ratios and rounded on others. -/
def combine? (exact : Rat → Rat → Rat) (rounded : Binary → Binary → Binary) :
    RealNumber → RealNumber → Option RealNumber
  | ratio p, ratio q => ofRat? (exact p q)
  | x, y => ofBinary? (rounded (x.toBinary wide) (y.toBinary wide))

def add? : RealNumber → RealNumber → Option RealNumber := combine? (· + ·) wide.add
def sub? : RealNumber → RealNumber → Option RealNumber := combine? (· - ·) wide.sub
def mul? : RealNumber → RealNumber → Option RealNumber := combine? (· * ·) wide.mul
def div? : RealNumber → RealNumber → Option RealNumber := combine? (· / ·) wide.div

/-- Compares two binary numbers; of those that are not finite nothing is said. -/
def compareBinary : Binary → Binary → Ordering
  | .finite s m e, .finite t n k =>
    if m = 0 && n = 0 then .eq
    else if m = 0 then if t then .gt else .lt
    else if n = 0 then if s then .lt else .gt
    else match s, t with
      | false, true => .gt
      | true, false => .lt
      | false, false => Binary.comparePositive m e n k
      | true, true => Binary.comparePositive n k m e
  | _, _ => .eq

def compare : RealNumber → RealNumber → Ordering
  | ratio p, ratio q => if p < q then .lt else if p = q then .eq else .gt
  | x, y => compareBinary (x.toBinary wide) (y.toBinary wide)

/-! ## Integers -/

/-- The integer that a number of moderate size is. -/
def exactInt? (m : Nat) (e : Int) : Option Nat :=
  if 0 ≤ e then some (m * Nat.pow 2 e.toNat)
  else
    let unit := Nat.pow 2 (-e).toNat
    if m % unit = 0 then some (m / unit) else none

/-- The last bits of a rounded number, which may differ from an integer by rounding alone. -/
def slackBits : Nat := 4

/-- The integer that a number is; a rounded number may miss it in its last bits. -/
def toInt? : RealNumber → Option Int
  | ratio q => if q.den = 1 then some q.num else none
  | float negative m e =>
    if !isModerate m e then none
    else
      let unit := Nat.pow 2 slackBits
      let found := exactInt? m e <|> exactInt? (m / unit) (e + slackBits) <|>
        exactInt? ((m + unit - 1) / unit) (e + slackBits)
      found.map fun n => if negative then -(n : Int) else n

/-! ## Literals -/

/-- A written number: digits without their point, and powers of two and of five to multiply them by. -/
structure Written where
  digits : Nat
  twos : Int
  fives : Int

/-- The exact value. -/
def Written.toRat (w : Written) : Rat := (w.digits : Rat) * ratPow 2 w.twos * ratPow 5 w.fives

/-- The format in which powers of five are worked out. -/
def guarded : Binary.Format := ⟨640, wide.minExponent - 128, wide.maxExponent - 128⟩

/-- The nearest number of 512 bits, if the exponent of two alone is in range. -/
def Written.toBinary? (w : Written) : Option Binary :=
  let exponent := fractionExponent w.digits w.twos
  if w.digits = 0 then some (.finite false 0 0)
  else if exponent < -(Nat.pow 2 31 : Nat) || (Nat.pow 2 31 : Nat) ≤ exponent then none
  else if w.fives = 0 then some (wide.roundScaled false w.digits 1 w.twos)
  else
    let power := guarded.powerOfFive w.fives.natAbs
    let digits := .finite false w.digits w.twos
    some (if 0 < w.fives then wide.mul digits power else wide.div digits power)

/-- The value of a literal: exact if it is of moderate size, and zero if it is too small for any format. -/
def Written.value? (w : Written) : Option RealNumber :=
  match w.toBinary? with
  | some (.finite negative m e) =>
    some (if m = 0 then zero else if isModerate m e then ratio w.toRat else float negative m e)
  | _ => none

/-! ## Text -/

/-- The double nearest to a ratio, as a ratio. -/
def nearest (q : Rat) : Rat :=
  match Binary.Format.double.round (q < 0) q.num.natAbs q.den with
  | .finite negative m e => (if negative then -1 else 1) * (m : Rat) * ratPow 2 e
  | _ => q

/-- The natural logarithm of ten. -/
def lnTen : Rat := mkRat 23025850929940456840179914546843642076011014886287729760333279009 (Nat.pow 10 64)

/-- The decimal logarithm of two, as a double. -/
def logTwo : Rat := nearest (mkRat 30102999566398119521373889472449302676818988146210854131 (Nat.pow 10 56))

/-- `10 ^ x` for a number between minus one and one: the series of the exponential function, with 128 bits
behind the point. -/
def powerOfTen (x : Rat) : Rat :=
  let unit : Int := (Nat.pow 2 128 : Nat)
  let y := (x * lnTen * unit).floor
  let (sum, _) := (List.range 60).foldl
    (fun (sum, term) k =>
      let term := term * y / (unit * (k + 1))
      (sum + term, term))
    (unit, unit)
  mkRat sum (Nat.pow 2 128)

/-- Writes a positive number with at most six digits. -/
def sixDigits (q : Rat) : String :=
  match Binary.Format.double.round false q.num.natAbs q.den with
  | .finite _ m e => Binary.sixDigits m e
  | _ => ""

/-- Writes a positive number that no double is near to. Its first digits are found in double precision by way of
the logarithm. -/
def renderRemote (m : Nat) (e : Int) : String :=
  let exponent := fractionExponent m e
  let fraction := nearest (m * ratPow 2 (-(Nat.log2 m + 1 : Int)))
  let logarithm := nearest (exponent * logTwo)
  let whole := logarithm.num.tdiv logarithm.den
  let first := nearest (fraction * nearest (powerOfTen (logarithm - whole)))
  let (first, whole) :=
    if first < 1 - mkRat 1 2000000 then (nearest (first * 10), whole - 1)
    else if 10 ≤ first then (nearest (first / 10), whole + 1)
    else (first, whole)
  let digits := sixDigits first
  let sign := if whole < 0 then "-" else "+"
  s!"{digits}e{sign}{whole.natAbs}"

/-- Writes a positive number: with six digits, or with more if it would else look like an integer that it
is not. -/
def renderPositive (m : Nat) (e : Int) : String :=
  let double := Binary.Format.double.roundScaled false m 1 e
  match double with
  | .finite _ n k =>
    if n = 0 then renderRemote m e
    else
      let short := Binary.sixDigits n k
      if short.contains '.' || (exactInt? m e).isSome then short else Binary.Format.double.render double
  | _ => renderRemote m e

/-- The text of a number as messages show it. -/
def render (r : RealNumber) : String :=
  match r.toBinary wide with
  | .finite negative m e =>
    if m = 0 then "0" else (if negative then "-" else "") ++ renderPositive m e
  | _ => ""

end RealNumber
end Desugar.Typing

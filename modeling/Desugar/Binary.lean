/-!
# Binary floating point

Numbers of a binary format, with exact arithmetic: a result is computed as a ratio of integers and then
rounded to the nearest number of the format, a tie to the even one.
-/
namespace Desugar

/-- A binary number: a sign and a natural number times a power of two, or none of those. -/
inductive Binary where
  | nan
  | infinite (negative : Bool)
  | finite (negative : Bool) (mantissa : Nat) (exponent : Int)
  deriving DecidableEq, Repr

namespace Binary

def zero : Binary := .finite false 0 0

def one : Binary := .finite false 1 0

def isZero : Binary → Bool
  | finite _ m _ => m = 0
  | _ => false

def neg : Binary → Binary
  | nan => nan
  | infinite s => infinite !s
  | finite s m e => finite (!s) m e

/-- The bits of precision of a format, and the least and the greatest exponent of its last bit. -/
structure Format where
  precision : Nat
  minExponent : Int
  maxExponent : Int
  deriving DecidableEq, Repr

/-- Numbers of 32 bits. -/
def Format.single : Format := ⟨24, -149, 104⟩

/-- Numbers of 64 bits. -/
def Format.double : Format := ⟨53, -1074, 971⟩

/-- `n / d` to the nearest natural number, a tie to the even one. -/
def roundHalfEven (n d : Nat) : Nat :=
  let q := n / d
  let twice := 2 * (n % d)
  if twice < d then q else if d < twice then q + 1 else q + q % 2

/-- Multiplies a ratio by a power of two. -/
def scale (n d : Nat) (exponent : Int) : Nat × Nat :=
  if 0 ≤ exponent then (n * Nat.pow 2 exponent.toNat, d) else (n, d * Nat.pow 2 (-exponent).toNat)

/-- The number nearest to `n / d * 2 ^ shift`. The shift enters only into the exponent, so that it may be of
any size. -/
def Format.roundScaled (f : Format) (negative : Bool) (n d : Nat) (shift : Int) : Binary :=
  if n = 0 then .finite negative 0 f.minExponent
  else
    let guess : Int := (Nat.log2 n : Int) - Nat.log2 d - f.precision
    let fits (e : Int) : Bool :=
      let (a, b) := scale n d (-e)
      a < b * Nat.pow 2 f.precision
    let exponent := (if fits guess then guess else guess + 1) + shift
    if exponent + f.precision < f.minExponent then .finite negative 0 f.minExponent
    else
      let exponent := max exponent f.minExponent
      let (a, b) := scale n d (shift - exponent)
      let m := roundHalfEven a b
      let (m, exponent) := if m = Nat.pow 2 f.precision then (m / 2, exponent + 1) else (m, exponent)
      if f.maxExponent < exponent then .infinite negative else .finite negative m exponent

/-- The number nearest to a ratio. -/
def Format.round (f : Format) (negative : Bool) (n d : Nat) : Binary := f.roundScaled negative n d 0

/-- A mantissa times a power of two with a sign, at a lower exponent, as an integer. -/
def atExponent (negative : Bool) (m : Nat) (e low : Int) : Int :=
  let n : Int := m * Nat.pow 2 (e - low).toNat
  if negative then -n else n

/-- Adds two numbers. Opposite infinities have no sum, and a sum of zero is negative only if both
parts are. A part that is too small to move the other one is left out. -/
def Format.add (f : Format) : Binary → Binary → Binary
  | .nan, _ | _, .nan => .nan
  | .infinite s, .infinite t => if s = t then .infinite s else .nan
  | .infinite s, _ => .infinite s
  | _, .infinite t => .infinite t
  | .finite s m e, .finite t n k =>
    let farApart (high low : Int) : Bool := m ≠ 0 && n ≠ 0 && low + 2 * f.precision + 2 < high
    if farApart e k then f.roundScaled s m 1 e
    else if farApart k e then f.roundScaled t n 1 k
    else
      let low := min e k
      let sum := atExponent s m e low + atExponent t n k low
      if sum = 0 then .finite (s && t && m = 0 && n = 0) 0 f.minExponent
      else f.roundScaled (sum < 0) sum.natAbs 1 low

def Format.sub (f : Format) (x y : Binary) : Binary := f.add x y.neg

def Format.mul (f : Format) : Binary → Binary → Binary
  | .nan, _ | _, .nan => .nan
  | .infinite s, .infinite t => .infinite (s != t)
  | .infinite s, .finite t m _ | .finite s m _, .infinite t =>
    if m = 0 then .nan else .infinite (s != t)
  | .finite s m e, .finite t n k => f.roundScaled (s != t) (m * n) 1 (e + k)

def Format.div (f : Format) : Binary → Binary → Binary
  | .nan, _ | _, .nan => .nan
  | .infinite _, .infinite _ => .nan
  | .infinite s, .finite t _ _ => .infinite (s != t)
  | .finite s _ _, .infinite t => .finite (s != t) 0 f.minExponent
  | .finite s m e, .finite t n k =>
    if n = 0 then if m = 0 then .nan else .infinite (s != t)
    else f.roundScaled (s != t) m n (e - k)

/-- A power of five; every product is rounded. -/
def Format.powerOfFive (f : Format) (n : Nat) : Binary :=
  if n = 0 then f.round false 1 1
  else
    let half := f.powerOfFive (n / 2)
    let square := f.mul half half
    if n % 2 = 0 then square else f.mul square (f.round false 5 1)
termination_by n
decreasing_by omega

/-- Compares two positive numbers `m * 2 ^ e` and `n * 2 ^ k`. -/
def comparePositive (m : Nat) (e : Int) (n : Nat) (k : Int) : Ordering :=
  let top : Int := Nat.log2 m + e
  let other : Int := Nat.log2 n + k
  if top < other then .lt
  else if other < top then .gt
  else compare (m * Nat.pow 2 (e - k).toNat) (n * Nat.pow 2 (k - e).toNat)

/-- A decimal number as it is written: digits with a point among them, and an exponent of ten. -/
structure Decimal where
  negative : Bool
  digits : Nat
  exponent : Int
  deriving DecidableEq, Repr

/-- The value of some digits. -/
def digitsValue (cs : List Char) : Nat := cs.foldl (fun n c => 10 * n + (c.toNat - '0'.toNat)) 0

/-- Reads a sign off the front of a text. -/
def readSign : List Char → Bool × List Char
  | '-' :: cs => (true, cs)
  | '+' :: cs => (false, cs)
  | cs => (false, cs)

/-- Reads a decimal number. -/
def Decimal.read (text : String) : Option Decimal :=
  let (negative, cs) := readSign text.toList
  let whole := cs.takeWhile Char.isDigit
  let cs := cs.drop whole.length
  let (fraction, cs) := match cs with
    | '.' :: rest =>
      let fraction := rest.takeWhile Char.isDigit
      (fraction, rest.drop fraction.length)
    | _ => ([], cs)
  if whole.isEmpty && fraction.isEmpty then none
  else
    let number (exponent : Int) : Decimal :=
      ⟨negative, digitsValue (whole ++ fraction), exponent - fraction.length⟩
    match cs with
    | [] => some (number 0)
    | c :: rest =>
      let (minus, digits) := readSign rest
      if (c = 'e' || c = 'E') && !digits.isEmpty && digits.all Char.isDigit then
        let n : Int := digitsValue digits
        some (number (if minus then -n else n))
      else none

/-- The number of a format nearest to a decimal one. An exponent out of all proportion to the format is
not worked out. -/
def Format.ofDecimal (f : Format) (d : Decimal) : Binary :=
  let top : Int := (Nat.repr d.digits).length + d.exponent
  if d.digits = 0 || 3 * top < f.minExponent - 1 then .finite d.negative 0 f.minExponent
  else if f.maxExponent + f.precision < 3 * (top - 1) then .infinite d.negative
  else if 0 ≤ d.exponent then f.round d.negative (d.digits * Nat.pow 10 d.exponent.toNat) 1
  else f.round d.negative d.digits (Nat.pow 10 (-d.exponent).toNat)

/-- The number of a format nearest to what is written; words for infinities and for what is no number
included. -/
def Format.read (f : Format) (text : String) : Option Binary :=
  match text with
  | "NaN" => some .nan
  | "Inf" | "+Inf" => some (.infinite false)
  | "-Inf" => some (.infinite true)
  | _ => (Decimal.read text).map f.ofDecimal

end Binary
/-!
## Decimal text

A binary number is written with the fewest decimal digits that are rounded back to it, of several such
decimals the nearest, or else with at most six digits.
-/
namespace Binary

/-- A number with the two ends of the interval that is rounded to it, all multiples of one unit:
`value`, `low` and `high` are to be multiplied by `2 ^ exponent`. -/
structure Interval where
  value : Nat
  low : Nat
  high : Nat
  exponent : Int
  /-- Whether the ends are rounded to the number. -/
  closed : Bool
  deriving Repr

/-- The interval of a positive number. The gap below a power of two is half as wide. -/
def Format.interval (f : Format) (m : Nat) (e : Int) : Interval :=
  let narrow := m = Nat.pow 2 (f.precision - 1) && f.minExponent < e
  { value := 4 * m, low := if narrow then 4 * m - 1 else 4 * m - 2, high := 4 * m + 2
    exponent := e - 2, closed := m % 2 = 0 }

/-- Compares a decimal `n * 10 ^ k` with a dyadic number. -/
def compareDecimal (n : Nat) (k : Int) (m : Nat) (e : Int) : Ordering :=
  let left := n * Nat.pow 10 k.toNat * Nat.pow 2 (-e).toNat
  let right := m * Nat.pow 2 e.toNat * Nat.pow 10 (-k).toNat
  compare left right

/-- Whether a decimal is rounded to the number of the interval. -/
def Interval.contains (i : Interval) (n : Nat) (k : Int) : Bool :=
  let above := compareDecimal n k i.low i.exponent
  let below := compareDecimal n k i.high i.exponent
  (above = .gt || (i.closed && above = .eq)) && (below = .lt || (i.closed && below = .eq))

/-- The value divided by `10 ^ k`, rounded down, and whether the next integer is nearer. -/
def Interval.floor (i : Interval) (k : Int) : Nat × Bool :=
  let n := i.value * Nat.pow 2 i.exponent.toNat * Nat.pow 10 (-k).toNat
  let d := Nat.pow 10 k.toNat * Nat.pow 2 (-i.exponent).toNat
  (n / d, d < 2 * (n % d))

/-- The greatest exponent of ten from `k` downwards whose power is at most `m * 2 ^ e`. -/
def descend (m : Nat) (e : Int) : (fuel : Nat) → (k : Int) → Int
  | 0, k => k
  | fuel + 1, k => if compareDecimal 1 k m e = .gt then descend m e fuel (k - 1) else k

/-- The exponent of ten of the first digit of a positive number. Five digits of the logarithm of two give it
to within one for numbers of the formats here. -/
def magnitude (m : Nat) (e : Int) : Int :=
  descend m e 4 ((Nat.log2 m + e) * 30103 / 100000 + 2)

/-- The best decimal on a grid of powers of ten, if one is rounded to the number. -/
def Interval.onGrid (i : Interval) (k : Int) : Option Nat :=
  let (n, nearer) := i.floor k
  let down := i.contains n k
  let up := i.contains (n + 1) k
  if down && up then some (if nearer then n + 1 else n)
  else if down then some n
  else if up then some (n + 1)
  else none

/-- Tries finer and finer grids. -/
def Interval.search (i : Interval) : (fuel : Nat) → (k : Int) → Nat × Int
  | 0, k => ((i.floor k).1, k)
  | fuel + 1, k =>
    match i.onGrid k with
    | some n => (n, k)
    | none => i.search fuel (k - 1)

/-- Drops zeros at the end of a decimal. -/
def dropZeros : (fuel : Nat) → Nat → Int → Nat × Int
  | 0, n, k => (n, k)
  | fuel + 1, n, k => if n ≠ 0 && n % 10 = 0 then dropZeros fuel (n / 10) (k + 1) else (n, k)

/-- The shortest digits of a positive number with the exponent of ten of the last one. -/
def Format.shortest (f : Format) (m : Nat) (e : Int) : Nat × Int :=
  let i := f.interval m e
  let (n, k) := i.search 20 (magnitude i.value i.exponent)
  dropZeros 20 n k

/-- Digits with an exponent: a point after the first digit, and at least two digits of exponent. -/
def scientific (digits : List Char) (exponent : Int) : String :=
  let first := digits.take 1
  let rest := digits.drop 1
  let body := if rest.isEmpty then first else first ++ '.' :: rest
  let size := Nat.repr exponent.natAbs
  let padded := if size.length < 2 then "0" ++ size else size
  String.ofList body ++ "e" ++ (if exponent < 0 then "-" else "+") ++ padded

/-- Digits with a point but no exponent; `exponent` is that of the first digit. -/
def positional (digits : List Char) (exponent : Int) : String :=
  if exponent < 0 then
    "0." ++ String.ofList (List.replicate ((-exponent).toNat - 1) '0' ++ digits)
  else
    let whole := exponent.toNat + 1
    let front := digits.take whole ++ List.replicate (whole - digits.length) '0'
    let back := digits.drop whole
    String.ofList (if back.isEmpty then front else front ++ '.' :: back)

/-- Digits with or without an exponent: very small numbers and those of seven or more digits before the point
are written with one. -/
def general (digits : List Char) (exponent : Int) : String :=
  if exponent < -4 || 6 ≤ exponent then scientific digits exponent else positional digits exponent

/-- Writes a number with its shortest digits. -/
def Format.render (f : Format) : Binary → String
  | .nan => "NaN"
  | .infinite s => if s then "-Inf" else "+Inf"
  | .finite s m e =>
    (if s then "-" else "") ++
      if m = 0 then "0"
      else
        let (n, k) := f.shortest m e
        let digits := (Nat.repr n).toList
        general digits (k + digits.length - 1)

/-- Writes a number `m * 2 ^ e` with at most six digits, a tie to the even one. -/
def sixDigits (m : Nat) (e : Int) : String :=
  if m = 0 then "0"
  else
    let top := magnitude m e
    let shift := 5 - top
    let n := roundHalfEven (m * Nat.pow 2 e.toNat * Nat.pow 10 shift.toNat)
      (Nat.pow 2 (-e).toNat * Nat.pow 10 (-shift).toNat)
    let (n, top) := if n = 1000000 then (100000, top + 1) else (n, top)
    general (Nat.repr (dropZeros 6 n 0).1).toList top

end Binary

end Desugar

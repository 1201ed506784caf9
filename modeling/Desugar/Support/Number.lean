import Desugar.Binary

/-!
# Counting up and down

Numbers of the types that can be counted with: integers of a width, which wrap around, binary numbers,
and pairs of them.
-/
namespace Desugar.Support

inductive Number where
  /-- An integer modulo `2 ^ width`. -/
  | integer (width : Nat) (signed : Bool) (value : Int)
  | real (format : Binary.Format) (value : Binary)
  | complex (format : Binary.Format) (re im : Binary)
  deriving DecidableEq, Repr

namespace Number

/-- The integer of a width that is equal to another one modulo `2 ^ width`. -/
def wrap (width : Nat) (signed : Bool) (n : Int) : Int :=
  if signed then Int.bmod n (Nat.pow 2 width) else n % (Nat.pow 2 width : Nat)

/-- The next number up. -/
def inc : Number → Number
  | integer w s n => integer w s (wrap w s (n + 1))
  | real f x => real f (f.add x .one)
  | complex f re im => complex f (f.add re .one) (f.add im .zero)

/-- The next number down. -/
def dec : Number → Number
  | integer w s n => integer w s (wrap w s (n - 1))
  | real f x => real f (f.sub x .one)
  | complex f re im => complex f (f.sub re .one) (f.sub im .zero)

def render : Number → String
  | integer _ _ n => toString n
  | real f x => f.render x
  | complex f re im =>
    let imaginary := f.render im
    let signed := match imaginary.toList.head? with
      | some '+' | some '-' => imaginary
      | _ => "+" ++ imaginary
    "(" ++ f.render re ++ signed ++ "i)"

/-- The numbers after each of some steps, upwards or downwards. -/
def count : Number → List Bool → List Number
  | _, [] => []
  | n, up :: steps =>
    let next := if up then n.inc else n.dec
    next :: next.count steps

/-- Integer types by name: width and sign. -/
def integerType? : String → Option (Nat × Bool)
  | "int" | "int64" | "named_int" => some (64, true)
  | "int8" => some (8, true)
  | "int16" => some (16, true)
  | "int32" => some (32, true)
  | "uint" | "uint64" | "uintptr" => some (64, false)
  | "uint8" => some (8, false)
  | "uint16" => some (16, false)
  | "uint32" => some (32, false)
  | _ => none

/-- A pair of numbers with a comma between them. -/
def readPair (f : Binary.Format) (text : String) : Option (Binary × Binary) :=
  match text.splitOn "," with
  | [re, im] => do return (← f.read re, ← f.read im)
  | _ => none

/-- Reads a number of a type. -/
def read (type text : String) : Option Number :=
  match integerType? type with
  | some (width, signed) => text.toInt?.map fun n => integer width signed (wrap width signed n)
  | none => match type with
    | "float32" => (Binary.Format.single.read text).map (real .single)
    | "float64" => (Binary.Format.double.read text).map (real .double)
    | "complex64" => (readPair .single text).map fun (re, im) => complex .single re im
    | "complex128" => (readPair .double text).map fun (re, im) => complex .double re im
    | _ => none

end Number
end Desugar.Support

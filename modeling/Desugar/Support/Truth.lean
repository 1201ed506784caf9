import Desugar.Binary

/-!
# Truth of values

A value counts as true by its kind: numbers if they are not zero, containers if they hold something,
pointers and functions if they lead somewhere. A value whose type has a rule of its own follows that
rule, also through a pointer.
-/
namespace Desugar.Support

/-- What the rule of a type is declared on: its values, or only pointers to them. -/
inductive Receiver where
  | value | pointer
  deriving DecidableEq, Repr

inductive Value where
  | bool (b : Bool)
  | integer (n : Int)
  | real (x : Binary)
  | complex (re im : Binary)
  | text (s : String)
  /-- Slices, maps and channels with their lengths; `none` is the one that was never made. -/
  | container (length : Option Nat)
  | array (length : Nat)
  | function (isNil : Bool)
  | record
  /-- An address without a type. -/
  | address (isNil : Bool)
  | nilPointer
  /-- A pointer to a variable of the value's own type. -/
  | pointer (target : Value)
  /-- A pointer to a variable of an interface type, which may hold nothing. -/
  | interfacePointer (held : Option Value)
  /-- A value of a type with a rule, and what the rule says of it. -/
  | ruled (receiver : Receiver) (answer : Bool) (underlying : Value)
  /-- A value of a type that is defined as another type, whose rule it does not take over. -/
  | defined (underlying : Value)
  deriving Repr

namespace Value

/-- Whether the value is the one of its type that leads nowhere. -/
def isNil : Value → Bool
  | container none => true
  | function true => true
  | nilPointer => true
  | ruled _ _ v => v.isNil
  | defined v => v.isNil
  | _ => false

/-- What the rule of the value's type says, if it has one. A pointer follows the rule of what it leads
to, whatever that is declared on; a pointer to a pointer follows none, and neither does a pointer of a
type of its own. -/
def answer? : Value → Option Bool
  | ruled .value answer _ => some answer
  | pointer (ruled _ answer _) => some answer
  | _ => none

/-- The truth of a value by its kind alone. -/
def byKind : Value → Bool
  | bool b => b
  | integer n => n ≠ 0
  | real x => !x.isZero && x ≠ .nan
  | complex re im => !re.isZero || !im.isZero
  | text s => s ≠ ""
  | container length => 0 < length.getD 0
  | array length => 0 < length
  | function isNil => !isNil
  | record => true
  | address isNil => !isNil
  | nilPointer => false
  | pointer _ => true
  | interfacePointer held => (held.bind answer?).getD true
  | ruled _ _ v => v.byKind
  | defined v => v.byKind

/-- Whether a value counts as true; nothing at all does not. -/
def truth : Option Value → Bool
  | none => false
  | some v => if v.isNil then false else (v.answer?).getD v.byKind

end Value
end Desugar.Support

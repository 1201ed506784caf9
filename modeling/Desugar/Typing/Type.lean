import Desugar.Host.Summary
import Desugar.Typing.Constant

/-!
# Types of the host language

A type is a tree. Declared types, aliases and type parameters are numbers into tables, where what they
stand for is found; a type may so refer to itself.
-/
namespace Desugar.Typing

open Host (ChanDir Pos)

/-- A piece of a message. What a check finds out does not depend on how files are called, so places are
told by the number of a file in the package. -/
inductive Fragment where
  | text (s : String)
  /-- A position as messages show it. -/
  | place (file : Nat) (pos : Pos)
  /-- The number of the line of a position, as messages show it. -/
  | line (file : Nat) (pos : Pos)
  deriving DecidableEq, Repr

/-- A message in which the places are still to be shown. -/
structure Message where
  fragments : List Fragment
  deriving DecidableEq, Repr, Inhabited

instance : Coe String Message := ⟨fun s => ⟨[.text s]⟩⟩

instance : Append Message := ⟨fun m n => ⟨m.fragments ++ n.fragments⟩⟩

/-- Types that are built in; `byte` and `rune` are other names of `uint8` and `int32`. -/
inductive Basic where
  | invalid | bool
  | int | int8 | int16 | int32 | int64 | uint | uint8 | uint16 | uint32 | uint64 | uintptr
  | float32 | float64 | complex64 | complex128 | string | unsafePointer
  | untypedBool | untypedInt | untypedRune | untypedFloat | untypedComplex | untypedString | untypedNil
  | byte | rune
  deriving DecidableEq, Repr, Inhabited

namespace Basic

/-- The type behind another name. -/
def canon : Basic → Basic
  | byte => uint8
  | rune => int32
  | b => b

def name : Basic → String
  | invalid => "invalid type"
  | bool => "bool"
  | int => "int"
  | int8 => "int8"
  | int16 => "int16"
  | int32 => "int32"
  | int64 => "int64"
  | uint => "uint"
  | uint8 => "uint8"
  | uint16 => "uint16"
  | uint32 => "uint32"
  | uint64 => "uint64"
  | uintptr => "uintptr"
  | float32 => "float32"
  | float64 => "float64"
  | complex64 => "complex64"
  | complex128 => "complex128"
  | string => "string"
  | unsafePointer => "Pointer"
  | untypedBool => "untyped bool"
  | untypedInt => "untyped int"
  | untypedRune => "untyped rune"
  | untypedFloat => "untyped float"
  | untypedComplex => "untyped complex"
  | untypedString => "untyped string"
  | untypedNil => "untyped nil"
  | byte => "byte"
  | rune => "rune"

def isUntyped : Basic → Bool
  | untypedBool | untypedInt | untypedRune | untypedFloat | untypedComplex | untypedString
  | untypedNil => true
  | _ => false

def isBoolean : Basic → Bool
  | bool | untypedBool => true
  | _ => false

def isString : Basic → Bool
  | string | untypedString => true
  | _ => false

def isUnsigned (b : Basic) : Bool :=
  match b.canon with
  | uint | uint8 | uint16 | uint32 | uint64 | uintptr => true
  | _ => false

def isInteger (b : Basic) : Bool :=
  match b.canon with
  | int | int8 | int16 | int32 | int64 | untypedInt | untypedRune => true
  | b => b.isUnsigned

def isFloat : Basic → Bool
  | float32 | float64 | untypedFloat => true
  | _ => false

def isComplex : Basic → Bool
  | complex64 | complex128 | untypedComplex => true
  | _ => false

def isNumeric (b : Basic) : Bool := b.isInteger || b.isFloat || b.isComplex

def isOrdered (b : Basic) : Bool := b.isInteger || b.isFloat || b.isString

def isConstType (b : Basic) : Bool := b.isBoolean || b.isNumeric || b.isString

/-- Width in bits of an integer type. -/
def bits (b : Basic) : Nat :=
  match b.canon with
  | int8 | uint8 => 8
  | int16 | uint16 => 16
  | int32 | uint32 => 32
  | _ => 64

/-- The type that an untyped value gets where nothing else is asked for. -/
def default : Basic → Basic
  | untypedBool => bool
  | untypedInt => int
  | untypedRune => rune
  | untypedFloat => float64
  | untypedComplex => complex128
  | untypedString => string
  | b => b

/-- How general an untyped number is. -/
def untypedRank : Basic → Nat
  | untypedInt => 1
  | untypedRune => 2
  | untypedFloat => 3
  | untypedComplex => 4
  | _ => 0

end Basic

/-- What is known of a field, parameter, result or method apart from its type. -/
structure Member where
  name : String
  /-- The package in which a field or method is declared. -/
  package : Nat := 0
  embedded : Bool := false
  tag : String := ""
  deriving DecidableEq, Repr, Inhabited

inductive Ty where
  | basic (b : Basic)
  | named (id : Nat) (args : List Ty)
  | alias (id : Nat) (args : List Ty)
  | param (id : Nat)
  | pointer (t : Ty)
  | slice (t : Ty)
  /-- An array; its length is `none` if it is unknown. -/
  | array (length : Option Nat) (t : Ty)
  | map (key value : Ty)
  | chan (dir : ChanDir) (t : Ty)
  | struct (fields : List (Member × Ty))
  /-- A function with its type parameters, parameters and results. -/
  | func (tparams : List Nat) (params results : List (Member × Ty)) (variadic : Bool)
  /-- An interface; an implicit one stands for what it embeds, and for `any` without that. -/
  | iface (methods : List (Member × Ty)) (embeds : List Ty) (implicit : Bool)
  /-- A type and those declared by it. -/
  | tilde (t : Ty)
  | union (terms : List Ty)
  | tuple (ts : List (Member × Ty))
  deriving Inhabited

namespace Ty

mutual

/-- Whether two types are written the same. -/
def same : Ty → Ty → Bool
  | .basic a, .basic b => a = b
  | .named m as, .named n bs => m = n && allSame as bs
  | .alias m as, .alias n bs => m = n && allSame as bs
  | .param m, .param n => m = n
  | .pointer a, .pointer b => a.same b
  | .slice a, .slice b => a.same b
  | .array m a, .array n b => m = n && a.same b
  | .map k v, .map l w => k.same l && v.same w
  | .chan d a, .chan e b => d = e && a.same b
  | .struct as, .struct bs => membersSame as bs
  | .func ps as cs v, .func qs bs ds w => ps = qs && membersSame as bs && membersSame cs ds && v = w
  | .iface as cs i, .iface bs ds j => membersSame as bs && allSame cs ds && i = j
  | .tilde a, .tilde b => a.same b
  | .union as, .union bs => allSame as bs
  | .tuple as, .tuple bs => membersSame as bs
  | _, _ => false

def allSame : List Ty → List Ty → Bool
  | [], [] => true
  | a :: as, b :: bs => a.same b && allSame as bs
  | _, _ => false

def membersSame : List (Member × Ty) → List (Member × Ty) → Bool
  | [], [] => true
  | (m, a) :: as, (n, b) :: bs => m = n && a.same b && membersSame as bs
  | _, _ => false

end

instance : BEq Ty := ⟨same⟩

def invalid : Ty := .basic .invalid

def basic? : Ty → Option Basic
  | .basic b => some b
  | _ => none

def isInvalid : Ty → Bool
  | .basic .invalid => true
  | _ => false

def isUntyped : Ty → Bool
  | .basic b => b.isUntyped
  | _ => false

def isTyped (t : Ty) : Bool := !t.isUntyped

def isParam : Ty → Bool
  | .param _ => true
  | _ => false

/-- Untyped types replaced by those that they stand for. -/
def default : Ty → Ty
  | .basic b => .basic b.default
  | t => t

mutual

/-- Replaces type parameters. -/
def subst (f : Nat → Option Ty) : Ty → Ty
  | .basic b => .basic b
  | .named id args => .named id (substAll f args)
  | .alias id args => .alias id (substAll f args)
  | .param id => (f id).getD (.param id)
  | .pointer t => .pointer (t.subst f)
  | .slice t => .slice (t.subst f)
  | .array n t => .array n (t.subst f)
  | .map k v => .map (k.subst f) (v.subst f)
  | .chan d t => .chan d (t.subst f)
  | .struct fields => .struct (substMembers f fields)
  | .func ps params results v => .func ps (substMembers f params) (substMembers f results) v
  | .iface ms es i => .iface (substMembers f ms) (substAll f es) i
  | .tilde t => .tilde (t.subst f)
  | .union terms => .union (substAll f terms)
  | .tuple ts => .tuple (substMembers f ts)

def substAll (f : Nat → Option Ty) : List Ty → List Ty
  | [] => []
  | t :: ts => t.subst f :: substAll f ts

def substMembers (f : Nat → Option Ty) : List (Member × Ty) → List (Member × Ty)
  | [] => []
  | (a, t) :: ts => (a, t.subst f) :: substMembers f ts

end

mutual

/-- Whether a type mentions one of some type parameters. -/
def mentions (p : Nat → Bool) : Ty → Bool
  | .basic _ => false
  | .named _ args => anyMentions p args
  | .alias _ args => anyMentions p args
  | .param id => p id
  | .pointer t => t.mentions p
  | .slice t => t.mentions p
  | .array _ t => t.mentions p
  | .map k v => k.mentions p || v.mentions p
  | .chan _ t => t.mentions p
  | .struct fields => membersMention p fields
  | .func _ params results _ => membersMention p params || membersMention p results
  | .iface ms es _ => membersMention p ms || anyMentions p es
  | .tilde t => t.mentions p
  | .union terms => anyMentions p terms
  | .tuple ts => membersMention p ts

def anyMentions (p : Nat → Bool) : List Ty → Bool
  | [] => false
  | t :: ts => t.mentions p || anyMentions p ts

def membersMention (p : Nat → Bool) : List (Member × Ty) → Bool
  | [] => false
  | (_, t) :: ts => t.mentions p || membersMention p ts

end

/-- Replaces type parameters by types in order. -/
def substParams (params : List Nat) (args : List Ty) (t : Ty) : Ty :=
  if params.isEmpty then t else t.subst fun id => (params.zip args).lookup id

end Ty

/-- A declared type. -/
structure NamedInfo where
  name : String
  /-- The package that declares it; built-in types have none. -/
  package : Option Nat
  tparams : List Nat
  /-- The declared type's structure; `none` as long as it is not known. -/
  underlying : Option Ty
  /-- Objects of the methods by name. -/
  methods : List (String × Nat)
  deriving Inhabited

/-- Another name of a type. -/
structure AliasInfo where
  name : String
  package : Option Nat
  tparams : List Nat
  target : Ty
  deriving Inhabited

structure ParamInfo where
  name : String
  constraint : Ty
  /-- Where it is declared. -/
  origin : Message
  deriving Inhabited

structure PackageInfo where
  path : String
  name : String
  /-- The scope of what it declares. -/
  scope : Nat
  /-- Whether nothing is known of what it declares. -/
  isFake : Bool
  /-- Whether its declarations have been read. -/
  isLoaded : Bool
  deriving Inhabited

/-- What declared types, aliases, type parameters and packages stand for. -/
structure Tables where
  named : Array NamedInfo := #[]
  aliases : Array AliasInfo := #[]
  params : Array ParamInfo := #[]
  packages : Array PackageInfo := #[]
  deriving Inhabited

namespace Tables

/-- The package that is being checked. -/
def ownPackage : Nat := 0

/-- The package that declares pointers of no type. -/
def unsafePackage : Nat := 1

/-- The number of the built-in interface of errors. -/
def errorId : Nat := 0

/-- The number of the built-in constraint of comparable types. -/
def comparableId : Nat := 1

/-- The number of the other name of the empty interface. -/
def anyId : Nat := 0

def namedInfo (t : Tables) (id : Nat) : NamedInfo := (t.named[id]?).getD default
def aliasInfo (t : Tables) (id : Nat) : AliasInfo := (t.aliases[id]?).getD default
def paramInfo (t : Tables) (id : Nat) : ParamInfo := (t.params[id]?).getD default
def packageInfo (t : Tables) (id : Nat) : PackageInfo := (t.packages[id]?).getD default

/-- How many steps through tables are taken at most. -/
def chainBound (t : Tables) : Nat := t.named.size + t.aliases.size + 1

/-- The type behind other names. -/
def unaliasFrom (t : Tables) : (fuel : Nat) → Ty → Ty
  | fuel + 1, .alias id args =>
    let a := t.aliasInfo id
    t.unaliasFrom fuel (a.target.substParams a.tparams args)
  | _, ty => ty

def unalias (t : Tables) (ty : Ty) : Ty := t.unaliasFrom t.chainBound ty

/-- The structure of a type: neither an alias nor a declared type. That of a type parameter is its
constraint. -/
def underFrom (t : Tables) : (fuel : Nat) → Ty → Ty
  | 0, _ => .invalid
  | fuel + 1, ty =>
    match t.unalias ty with
    | .named id args =>
      let n := t.namedInfo id
      match n.underlying with
      | some u => t.underFrom fuel (u.substParams n.tparams args)
      | none => .invalid
    | .param id =>
      match t.underFrom fuel (t.paramInfo id).constraint with
      | .iface ms es i => .iface ms es i
      | .basic .invalid => .invalid
      | u => .iface [] [u] true
    | u => u

def under (t : Tables) (ty : Ty) : Ty := t.underFrom t.chainBound ty

def isNamed (t : Tables) (ty : Ty) : Bool :=
  match t.unalias ty with
  | .named .. => true
  | _ => false

def isParam (t : Tables) (ty : Ty) : Bool := (t.unalias ty).isParam

def isInvalid (t : Tables) (ty : Ty) : Bool := (t.unalias ty).isInvalid

/-- A type literal: neither declared nor a type parameter. -/
def isLiteral (t : Tables) (ty : Ty) : Bool :=
  match t.unalias ty with
  | .named .. | .param _ => false
  | _ => true

def isInterface (t : Tables) (ty : Ty) : Bool :=
  match t.under ty with
  | .iface .. => true
  | _ => false

/-- An interface that is no type parameter. -/
def isPlainInterface (t : Tables) (ty : Ty) : Bool := !t.isParam ty && t.isInterface ty

end Tables
end Desugar.Typing

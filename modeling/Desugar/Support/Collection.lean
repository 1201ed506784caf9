/-!
# Building collections
-/
namespace Desugar.Support

/-- Puts an entry into a list of entries with different keys, in the place of one with its key. -/
def insertEntry {κ ν : Type} [DecidableEq κ] (key : κ) (value : ν) : List (κ × ν) → List (κ × ν)
  | [] => [(key, value)]
  | (k, v) :: rest => if k = key then (key, value) :: rest else (k, v) :: insertEntry key value rest

/-- The map of some entries; of several with one key the last counts. -/
def mapOf {κ ν : Type} [DecidableEq κ] (entries : List (κ × ν)) : List (κ × ν) :=
  entries.foldl (fun m (k, v) => insertEntry k v m) []

/-- A copy of a slice; that of a slice that was never made is empty. -/
def clone {α : Type} (values : Option (List α)) : List α := values.getD []

/-- A slice with its first elements overwritten. -/
def overwrite {α : Type} : List α → List α → List α
  | _ :: rest, v :: values => v :: overwrite rest values
  | rest, _ => rest

/-- A value with its type, as far as types are told apart. -/
inductive Scalar where
  | int (n : Int)
  | int64 (n : Int)
  | text (s : String)
  | bool (b : Bool)
  | namedInt (n : Int)
  deriving DecidableEq, Repr

namespace Scalar

inductive Kind where
  | int | int64 | text | bool | namedInt
  deriving DecidableEq, Repr

def kind : Scalar → Kind
  | int _ => .int
  | int64 _ => .int64
  | text _ => .text
  | bool _ => .bool
  | namedInt _ => .namedInt

def zero : Kind → Scalar
  | .int => int 0
  | .int64 => int64 0
  | .text => text ""
  | .bool => bool false
  | .namedInt => namedInt 0

def render : Scalar → String
  | int n | int64 n | namedInt n => toString n
  | text s => s
  | bool b => if b then "true" else "false"

end Scalar

/-- Collects values as those of one type; a value of any other type counts as zero. -/
def spread (kind : Scalar.Kind) (values : List (Option Scalar)) : List Scalar :=
  values.map fun
    | some v => if v.kind = kind then v else .zero kind
    | none => .zero kind

end Desugar.Support

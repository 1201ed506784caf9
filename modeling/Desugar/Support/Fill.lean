/-!
# Filling in embedded pointers

A record type may embed other record types, by value or by a pointer, and their fields count as its own.
Filling a value gives its missing embedded pointers something to lead to, so that a field can be
selected through them.
-/
namespace Desugar.Support

/-- The type of a field. -/
inductive FieldType where
  | integer | text | interface
  | pointer (target : FieldType)
  /-- A type with a declaration. -/
  | named (name : String)
  deriving DecidableEq, Repr

structure Field where
  name : String
  type : FieldType
  embedded : Bool := false
  deriving DecidableEq, Repr

/-- What a name is declared as. -/
inductive Declared where
  | record (fields : List Field)
  | other (type : FieldType)
  deriving DecidableEq, Repr

/-- Declarations of types by name. -/
abbrev Declarations := List (String × Declared)

namespace Declarations

/-- The fields of a record type. -/
def fields? (ds : Declarations) : FieldType → Option (List Field)
  | .named name => match ds.lookup name with
    | some (.record fields) => some fields
    | _ => none
  | _ => none

end Declarations

/-- A value; a record has a value for each field of its type, in order. -/
inductive Datum where
  | integer (n : Int)
  | text (s : String)
  | nil
  | pointer (target : Datum)
  | record (values : List Datum)
  deriving Repr

/-- The zero value of a type, for declarations that nest by value no deeper than the fuel. -/
def Datum.zero (ds : Declarations) : (fuel : Nat) → FieldType → Datum
  | _, .integer => .integer 0
  | _, .text => .text ""
  | _, .interface => .nil
  | _, .pointer _ => .nil
  | 0, .named _ => .nil
  | fuel + 1, .named name => match ds.lookup name with
    | some (.record fields) => .record (fields.map fun f => Datum.zero ds fuel f.type)
    | some (.other type) => Datum.zero ds fuel type
    | none => .nil

/-- The zero value of a type. -/
def Declarations.zero (ds : Declarations) (type : FieldType) : Datum :=
  Datum.zero ds (ds.length + 1) type

/-- Whether a pointer to this type is given something to lead to. -/
def Declarations.isFillable (ds : Declarations) (type : FieldType) : Bool := (ds.fields? type).isSome

/-- Fills the embedded pointers of a field's value, if it is a pointer that leads nowhere. -/
def Declarations.allocate (ds : Declarations) : FieldType → Datum → Datum
  | .pointer target, .nil => if ds.isFillable target then .pointer (ds.zero target) else .nil
  | _, v => v

/-- Goes through the fields of a record with the types seen so far. -/
def fillFields (ds : Declarations)
    (fillOne : List FieldType → FieldType → Datum → Datum × List FieldType) :
    List FieldType → List Field → List Datum → List Datum × List FieldType
  | seen, f :: fields, v :: values =>
    let (v, seen) := if f.embedded then fillOne seen f.type (ds.allocate f.type v) else (v, seen)
    let (values, seen) := fillFields ds fillOne seen fields values
    (v :: values, seen)
  | seen, _, values => (values, seen)

/-- Fills what a record embeds. A type that was seen before is left alone. -/
def fillRecord (ds : Declarations)
    (fillOne : List FieldType → FieldType → Datum → Datum × List FieldType)
    (seen : List FieldType) (type : FieldType) (v : Datum) : Datum × List FieldType :=
  match ds.fields? type, v with
  | some fields, .record values =>
    if seen.contains type then (v, seen)
    else
      let (values, seen) := fillFields ds fillOne (type :: seen) fields values
      (.record values, seen)
  | _, _ => (v, seen)

/-- Fills what a record, or the record a pointer leads to, embeds. No type is entered twice, so no more
types are entered than there are declarations. -/
def fillEmbedded (ds : Declarations) :
    (fuel : Nat) → List FieldType → FieldType → Datum → Datum × List FieldType
  | 0, seen, _, v => (v, seen)
  | fuel + 1, seen, .pointer target, .pointer v =>
    let (v, seen) := fillRecord ds (fillEmbedded ds fuel) seen target v
    (.pointer v, seen)
  | fuel + 1, seen, type, v => fillRecord ds (fillEmbedded ds fuel) seen type v

/-- Fills a value: a pointer that leads nowhere gets a zero value, and embedded pointers are filled. -/
def fill (ds : Declarations) (type : FieldType) (v : Datum) : Datum :=
  let v := match type, v with
    | .pointer target, .nil => .pointer (ds.zero target)
    | _, v => v
  (fillEmbedded ds (ds.length + 2) [] type v).1

end Desugar.Support

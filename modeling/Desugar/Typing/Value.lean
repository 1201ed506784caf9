import Desugar.Typing.Select

/-!
# Elements, slices, assertions and literals
-/
namespace Desugar.Typing

open Host (Expr Block FuncType Pos)

/-- The length of a constant text. -/
def textLength? (x : Operand) : Option Nat :=
  match x.constant? with
  | some (.text s) => some s.length
  | _ => none

namespace Judge

/-- Whether an operand is an index; if not, that is reported. -/
def validIndex (x : Operand) (what : String) (allowNegative : Bool) : Check (Option Operand) := do
  if x.isInvalid then return none
  let x ← convertUntyped x (.basic .int)
  if x.isInvalid then return none
  let text ← operandText x
  if !(← tables).allBasic Basic.isInteger x.type then
    report x.pos s!"invalid argument: {what} {text} must be integer"
    return none
  match x.constant?.bind Constant.toInt? with
  | some n =>
    if !allowNegative && n < 0 then
      report x.pos s!"invalid argument: {what} {text} must not be negative"
      return none
    if !Constant.inRange .int n then
      report x.pos s!"invalid argument: {what} {text} overflows int"
      return none
    return some x
  | none => return some x

/-- An index below a length; `none` if it is wrong, and no number if it is not constant. -/
def index (j : Judge) (e : Expr) (length : Option Nat) : Check (Option (Option Nat)) := do
  match ← validIndex (← j.expr e) "index" false with
  | none => return none
  | some x =>
    match x.constant?.bind Constant.toInt? with
    | none => return some none
    | some n =>
      if length.any (· ≤ n.toNat) then
        let max := length.getD 0
        report x.pos s!"invalid argument: index {n} out of bounds [0:{max}]"
        return none
      return some (some n.toNat)

/-- The only one of some indices. -/
def singleIndex (e : Expr) (indices : List Expr) : Check (Option Expr) := do
  match indices with
  | [i] => return some i
  | [] =>
    report e.pos "missing index"
    return none
  | _ :: second :: _ =>
    report second.pos "invalid operation: more than one index"
    return none

/-- What an index gives: an element, a type, or a function that awaits type arguments. -/
inductive Indexed where
  | operand (x : Operand)
  | function (x : Operand)

/-- What an index finds: the type of a map's keys, that of elements, whether they can be assigned to, and
how many there are if that is known. -/
structure Element where
  key : Option Ty := none
  type : Ty
  isPlace : Bool
  length : Option Nat := none

/-- What an index finds in a structure of an operand. -/
def element? (t : Tables) (base : Operand) : Ty → Option Element
  | .basic b =>
    if b.isString then some { type := .basic .byte, isPlace := false, length := textLength? base }
    else none
  | .array n elem =>
    let isPlace := match base.mode with
      | .var => true
      | _ => false
    some { type := elem, isPlace, length := n }
  | .pointer p =>
    match t.under p with
    | .array n elem => some { type := elem, isPlace := true, length := n }
    | _ => none
  | .slice elem => some { type := elem, isPlace := true }
  | .map key elem => some { key := some key, type := elem, isPlace := false }
  | _ => none

/-- What an index finds whichever of two structures there is: maps need keys of one type and do not mix
with other structures, elements need one type, and of two lengths the lesser counts. -/
def Element.merge? (t : Tables) (a b : Element) : Option Element :=
  let sameKey := match a.key, b.key with
    | some k, some l => t.identical k l
    | none, none => true
    | _, _ => false
  if !sameKey || !t.identical a.type b.type then none
  else some { a with
    isPlace := a.isPlace && b.isPlace
    length := a.length.map fun n => min n (b.length.getD n) }

def indexed (j : Judge) (e x : Expr) (indices : List Expr) : Check Indexed := do
  let base ← j.exprOrType x true
  let bad := Indexed.operand (.invalid e)
  match base.mode with
  | .invalid =>
    j.use indices
    return bad
  | .type =>
    let ty ← j.type e
    return if (← tables).isInvalid ty then bad else .operand (.ofType e ty)
  | _ => pure ()
  match base.type with
  | .func (_ :: _) .. => return .function base
  | _ => pure ()
  let t ← tables
  match t.shared (element? t base) (Element.merge? t) base.type with
  | .ok element =>
    match ← singleIndex e indices with
    | none => return bad
    | some i =>
      match element.key with
      | some key =>
        discard <| j.assign (← j.expr i) (some key) "map index"
        return .operand { mode := .mapIndex, expr := e, type := element.type }
      | none =>
        discard <| j.index i element.length
        let mode := if element.isPlace then .var else .value
        return .operand { mode, expr := e, type := element.type }
  | .error _ =>
    let text ← operandText base
    report base.pos s!"cannot index {text}"
    j.use indices
    return bad

def slice (j : Judge) (e x : Expr) (low high max : Option Expr) (full : Bool) : Check Operand := do
  let base ← j.expr x
  let bounds := [low, high, max].filterMap id
  if base.isInvalid then
    j.use bounds
    return .invalid e
  let t ← tables
  let text ← operandText base
  let isVar := match base.mode with
    | .var => true
    | _ => false
  let fail (message : String) : Check (Option (Ty × Option Nat)) := do
    report base.pos message
    return none
  let bytes (x : Ty) : Ty :=
    if t.isBasic Basic.isString x then .slice (.basic .byte) else t.under x
  let result ← match (t.typesOf base.type).getD [] with
    | [] =>
      let name ← typeText base.type
      fail s!"cannot slice {text}: no specific type in {name}"
    | x :: xs =>
    match xs.find? fun y => !t.identical (bytes x) (bytes y) with
    | some y =>
      let first ← typeText x
      let second ← typeText y
      fail s!"cannot slice {text}: {first} and {second} have different underlying types"
    | none =>
    match t.under (((x :: xs).find? (t.isBasic Basic.isString)).getD x) with
    | .basic b =>
      if !b.isString then fail s!"cannot slice {text}"
      else if full then fail "invalid operation: 3-index slice of string"
      else pure (some (if base.type.isUntyped then .basic .string else base.type, textLength? base))
    | .array n elem =>
      if isVar then pure (some (.slice elem, n))
      else fail s!"invalid operation: {text} (slice of unaddressable value)"
    | .pointer p =>
      match t.under p with
      | .array n elem => pure (some (.slice elem, n))
      | _ => fail s!"cannot slice {text}"
    | .slice _ => pure (some (base.type, none))
    | _ => fail s!"cannot slice {text}"
  match result with
  | none => return .invalid e
  | some (ty, length) =>
    let mut last : Option Nat := none
    for b in bounds do
      match ← j.index b (length.map (· + 1)) with
      | some (some n) =>
        match last with
        | some m =>
          if n < m then report b.pos s!"invalid slice indices: {n} < {m}"
        | none => pure ()
        last := some n
      | _ => pure ()
    return .ofValue e ty

/-- Why a value of an interface cannot have a type; `none` if it can. -/
def impossible? (j : Judge) (x : Operand) (ty : Ty) : Check (Option String) := do
  let t ← tables
  if t.isInterface ty then return none
  j.missingMethod ty (t.typeSet x.type).methods false identical

/-- A value of an interface as one of another type. -/
def typeAssert (j : Judge) (e x : Expr) (type : Option Expr) : Check Operand := do
  let base ← j.expr x
  if base.isInvalid then return .invalid e
  let t ← tables
  match type with
  | none =>
    report e.pos "use of .(type) outside type switch"
    return .invalid e
  | some type =>
    let text ← operandText base
    if t.isParam base.type then
      report base.pos s!"invalid operation: cannot use type assertion on type parameter value {text}"
      return .invalid e
    if !t.isInterface base.type then
      report base.pos s!"invalid operation: {text} is not an interface"
      return .invalid e
    let ty ← j.varType type
    if (← tables).isInvalid ty then return .invalid e
    match ← j.impossible? base ty with
    | some cause =>
      let source := e.summary
      let goal ← typeText ty
      let given ← typeText base.type
      report e.pos
        s!"impossible type assertion: {source}\n\t{goal} does not implement {given} {cause}"
    | none => pure ()
    return { mode := .commaOk, expr := e, type := ty }

/-- Lets the body of a function wait. -/
def awaitBody (scope : Nat) (results : List (Member × Ty)) (body : Block) : Check Unit := do
  laterIn { (← env) with scope, results := some results, function := scope, flow := {} } (.body body)

def funcLit (j : Judge) (e : Expr) (ft : FuncType) (body : Block) : Check Operand := do
  let (ty, scope, _) ← j.signature none ft
  match ty with
  | .func _ _ results _ =>
    awaitBody scope results body
    return .ofValue e ty
  | _ => return .invalid e

end Judge
end Desugar.Typing

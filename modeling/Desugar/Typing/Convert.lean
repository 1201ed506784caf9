import Desugar.Typing.Lookup

/-!
# Assignment and conversion

What values may be used as values of another type: untyped ones take on a type, typed ones are assigned
or converted.
-/
namespace Desugar.Typing

/-! ## Constants of a type -/

namespace Constant

/-- The integers of a type. -/
def inRange (b : Basic) (n : Int) : Bool :=
  let limit : Int := Nat.pow 2 (if b.isUnsigned then b.bits else b.bits - 1)
  (if b.isUnsigned then 0 else -limit) ≤ n && n < limit

/-- A constant as one of a basic type. -/
def represent? (b : Basic) (c : Constant) : Option Constant :=
  match c with
  | unknown => some unknown
  | c =>
    if b.isInteger then
      c.toInt?.bind fun n => if b.isUntyped || inRange b n then some (int n) else none
    else if b.isFloat then
      c.toReal?.bind fun q =>
        match b with
        | .float32 => (q.roundTo? .single).map real
        | .float64 => (q.roundTo? .double).map real
        | _ => some (if c.rank = 1 then c else real q)
    else if b.isComplex then
      c.toComplex?.bind fun (x, y) =>
        match b with
        | .complex64 => (x.roundTo? .single).bind fun x => (y.roundTo? .single).map (complex x)
        | .complex128 => (x.roundTo? .double).bind fun x => (y.roundTo? .double).map (complex x)
        | _ => some (if c.rank < 3 then c else complex x y)
    else match c with
      | text s => if b.isString then some (text s) else none
      | bool v => if b.isBoolean then some (bool v) else none
      | _ => none

end Constant

/-- Why a value cannot take on a type. -/
inductive Misfit where
  | truncated | overflows | other
  deriving DecidableEq, Repr, Inhabited

namespace Tables

/-- A constant operand as a constant of a basic type. -/
def representation (t : Tables) (x : Operand) (v : Constant) (b : Basic) : Except Misfit Constant :=
  match v.represent? b with
  | some v => .ok v
  | none =>
    if t.isBasic Basic.isNumeric x.type && b.isNumeric then
      if !t.isBasic Basic.isInteger x.type && b.isInteger then .error .truncated
      else .error .overflows
    else .error .other

/-- The more general of two untyped types. -/
def maxUntyped (x y : Ty) : Option Ty :=
  match x, y with
  | .basic a, .basic b =>
    if a = b then some x
    else if 0 < a.untypedRank && 0 < b.untypedRank then
      some (if a.untypedRank < b.untypedRank then y else x)
    else none
  | _, _ => none

/-- The type, and the value if it changes, with which an untyped operand is used as one of another
type. -/
def implicitTypeFrom (t : Tables) :
    (fuel : Nat) → Operand → Ty → Except Misfit (Ty × Option Constant)
  | 0, _, _ => .error .other
  | fuel + 1, x, target =>
    if x.isInvalid || x.type.isTyped || t.isInvalid target then .ok (x.type, none)
    else if x.isNil then (if t.hasNil target then .ok (x.type, none) else .error .other)
    else if target.isUntyped then
      match maxUntyped x.type target with
      | some m => .ok (m, none)
      | none => .error .other
    else match t.under target with
      | .basic b =>
        match x.constant?, x.type with
        | some v, _ => (t.representation x v b).map fun v => (target, some v)
        | none, .basic .untypedBool => if b.isBoolean then .ok (target, none) else .error .other
        | none, .basic u =>
          if 0 < u.untypedRank then (if b.isNumeric then .ok (target, none) else .error .other)
          else if u = .untypedString && b.isString then .ok (target, none) else .error .other
        | none, _ => .error .other
      | .iface .. =>
        if t.isParam target then
          match t.termsOf target with
          | none | some [] => .error .other
          | some terms =>
            if terms.all fun y => (t.implicitTypeFrom fuel x (t.under y.2)).toOption.isSome then
              .ok (target, none)
            else .error .other
        else
          let set := t.typeSet target
          if set.methods.isEmpty && set.terms.isNone && !set.comparable then .ok (x.type.default, none)
          else .error .other
      | _ => .error .other

def implicitType (t : Tables) (x : Operand) (target : Ty) : Except Misfit (Ty × Option Constant) :=
  t.implicitTypeFrom depthBound x target

/-- Whether values of a type are named by it: declared, basic or a type parameter. -/
def hasName (t : Tables) (ty : Ty) : Bool :=
  match t.unalias ty with
  | .basic _ | .named .. | .param _ => true
  | _ => false

/-- A type without the tags of its fields. -/
def untagged (ty : Ty) : Ty :=
  match ty with
  | .struct fs => .struct (fs.map fun (m, f) => ({ m with tag := "" }, f))
  | ty => ty

def isBytesOrRunes (t : Tables) (ty : Ty) : Bool :=
  match ty with
  | .slice e => t.isBasic (fun b => b.canon = .uint8 || b.canon = .int32) e
  | _ => false

/-- Whether values of one structure convert to another. -/
def structuresConvert (t : Tables) (v ty : Ty) : Bool :=
  let vu := t.under v
  let tu := t.under ty
  let isNumber (u : Ty) : Bool := t.isBasic (fun b => b.isInteger || b.isFloat) u
  let isPointer : Ty → Bool
    | .pointer _ => true
    | _ => false
  let isUnsafe (u : Ty) : Bool := u == .basic .unsafePointer
  let isAddress (u : Ty) : Bool := isPointer u || u == .basic .uintptr
  t.identical (untagged vu) (untagged tu) ||
  (match t.unalias v, t.unalias ty with
    | .pointer a, .pointer b => !t.isParam a && !t.isParam b &&
        t.identical (untagged (t.under a)) (untagged (t.under b))
    | _, _ => false) ||
  (isNumber vu && isNumber tu) ||
  (t.isBasic Basic.isComplex vu && t.isBasic Basic.isComplex tu) ||
  ((t.isBasic Basic.isInteger vu || t.isBytesOrRunes vu) && t.isBasic Basic.isString tu) ||
  (t.isBasic Basic.isString vu && t.isBytesOrRunes tu) ||
  (isAddress vu && isUnsafe tu) || (isUnsafe vu && isAddress tu) ||
  (match vu, tu with
    | .slice e, .array _ f => t.identical e f
    | .slice e, .pointer p =>
      match t.under p with
      | .array _ f => t.identical e f
      | _ => false
    | _, _ => false)

end Tables

namespace Judge

/-- Why an operand cannot be assigned to a type: `none` if it can, else a cause that may be empty. -/
def unassignableFrom (j : Judge) : (fuel : Nat) → Operand → Ty → Check (Option String)
  | 0, _, _ => return some ""
  | fuel + 1, x, ty => do
    let t ← tables
    let v := x.type
    if x.isInvalid || t.isInvalid ty || t.identical v ty then return none
    let vp := t.isParam v
    let tp := t.isParam ty
    let vu := t.under v
    let tu := t.under ty
    if v.isUntyped then
      return if (t.implicitType x ty).toOption.isSome then none else some ""
    if t.identical vu tu && (!t.hasName v || !t.hasName ty) && !vp && !tp then return none
    if (t.isInterface ty && !tp) || t.isInterfacePointer ty then
      match ← j.obstacle v ty false with
      | none => return none
      | some cause => if !vp then return some cause
    if t.isInterface v && !vp then
      if (← j.obstacle ty v false).isNone then return some "need type assertion"
    match vu, tu with
    | .chan .both e, .chan _ f =>
      if t.identical e f then
        return if !t.hasName v || !t.hasName ty then none else some ""
    | _, _ => pure ()
    if tp && !t.hasName v then
      match t.termsOf ty with
      | none | some [] => return some ""
      | some terms =>
        for y in terms do
          if (← j.unassignableFrom fuel x y.2).isSome then return some ""
        return none
    if vp && !t.hasName ty then
      match t.termsOf v with
      | none | some [] => return some ""
      | some terms =>
        for y in terms do
          if (← j.unassignableFrom fuel { x with type := y.2 } ty).isSome then return some ""
        return none
    return some ""

def unassignable (j : Judge) (x : Operand) (ty : Ty) : Check (Option String) :=
  j.unassignableFrom 4 x ty

def isAssignable (j : Judge) (x : Operand) (ty : Ty) : Check Bool := do
  return (← j.unassignable x ty).isNone

/-- Reports that an untyped operand cannot take on a type. -/
def refuseType (x : Operand) (target : Ty) (misfit : Misfit) : Check Operand := do
  let text ← operandText x
  let t ← tables
  let goal ← typeText (if t.isParam target then target else t.under target)
  refuse x <| match misfit with
    | .truncated => s!"{text} truncated to {goal}"
    | .overflows => s!"{text} overflows {goal}"
    | .other => s!"cannot convert {text} to type {goal}"

/-- Parts of an untyped operand take on a type; what does not fit is reported. -/
def settleParts (parts : List Part) (ty : Ty) : Check Unit := do
  let t ← tables
  for p in parts do
    if p.isShifted && !t.allBasic Basic.isInteger ty then
      let source := p.expr.summary
      let text ← typeText ty
      report p.expr.pos s!"invalid operation: shifted operand {source} (type {text}) must be integer"
    else
      let x : Operand := { mode := .const p.value, expr := p.expr, type := p.type }
      match t.implicitType x ty with
      | .ok _ => pure ()
      | .error misfit => discard <| refuseType x ty misfit

/-- An untyped operand with another type and maybe another value. -/
def retyped (x : Operand) (ty : Ty) (value : Option Constant) : Check Operand := do
  let mode := match value with
    | some v => .const v
    | none => x.mode
  if ty.isUntyped then
    return { x with type := ty, mode, parts := x.parts.map fun p => { p with type := ty } }
  settleParts x.parts ty
  return { x with type := ty, mode, parts := [] }

/-- An untyped operand as one of another type; a failure is reported. -/
def convertUntyped (x : Operand) (target : Ty) : Check Operand := do
  match (← tables).implicitType x target with
  | .ok (ty, value) => retyped x ty value
  | .error misfit => refuseType x target misfit

/-- An operand in the place of a value of a type, or of any type. -/
def assign (j : Judge) (x : Operand) (ty : Option Ty) (context : String) : Check Operand := do
  let x ← single x
  let t ← tables
  match x.mode with
  | .invalid => return x
  | .const _ | .var | .mapIndex | .value | .commaOk => pure ()
  | _ =>
    let text ← operandText x
    let goal ← typeText (ty.getD .invalid)
    return ← refuse x s!"cannot assign {text} to {goal} in {context}"
  let mut x := x
  if x.type.isUntyped then
    let free := match ty with
      | none => true
      | some ty => t.isPlainInterface ty
    if ty.isNone && x.isNil then
      return ← refuse x s!"use of untyped nil in {context}"
    let target := if free && !x.isNil then x.type.default else ty.getD x.type.default
    match t.implicitType x target with
    | .ok (newType, value) => x ← retyped x newType value
    | .error misfit =>
      let text ← operandText x
      let goal ← typeText target
      let detail := match misfit with
        | .truncated => " (truncated)"
        | .overflows => " (overflows)"
        | .other => ""
      return ← refuse x s!"cannot use {text} as {goal} value in {context}{detail}"
  match x.type with
  | .func (_ :: _) .. =>
    let source := x.expr.summary
    return ← refuse x s!"cannot use generic function {source} without instantiation in {context}"
  | _ => pure ()
  match ty with
  | none => return x
  | some ty =>
    match ← j.unassignable x ty with
    | none => return x
    | some cause =>
      let text ← operandText x
      let goal ← typeText ty
      let detail := if cause = "" then "" else ": " ++ cause
      refuse x s!"cannot use {text} as {goal} value in {context}{detail}"

/-- A constant of a basic type by conversion; integers convert to the text of a character. -/
def constantAs (x : Operand) (v : Constant) (t : Tables) (b : Basic) : Option Constant :=
  match v.represent? b with
  | some v => some v
  | none =>
    match t.isBasic Basic.isInteger x.type && b.isString, v.toInt? with
    | true, some n =>
      let code := if 0 ≤ n && n ≤ 0x10FFFF && !(0xD800 ≤ n && n ≤ 0xDFFF) then n.toNat else 0xFFFD
      some (.text (Text.utf8 (String.singleton (Char.ofNat code))))
    | _, _ => none

/-- Why an operand cannot be converted: `none` if it can, else a cause that may be empty. -/
def unconvertible (j : Judge) (x : Operand) (ty : Ty) : Check (Option String) := do
  match ← j.unassignable x ty with
  | none => return none
  | some cause =>
    let t ← tables
    if !t.isParam x.type && !t.isParam ty then
      return if t.structuresConvert x.type ty then none else some cause
    match t.termsOf x.type, t.termsOf ty with
    | some (a :: as), some (b :: bs) =>
      for v in a :: as do
        for w in b :: bs do
          if !t.structuresConvert v.2 w.2 &&
              (← j.unassignable { x with type := v.2 } w.2).isSome then
            let vText ← typeText v.2
            let wText ← typeText w.2
            let tText ← typeText ty
            let xText ← typeText x.type
            if t.isParam x.type && t.isParam ty then
              return some s!"cannot convert {vText} (in {xText}) to type {wText} (in {tText})"
            else if t.isParam x.type then
              return some s!"cannot convert {vText} (in {xText}) to type {tText}"
            else return some s!"cannot convert {xText} to type {wText} (in {tText})"
      return none
    | _, _ => return some ""

/-- An operand converted to a type. -/
def convert (j : Judge) (x : Operand) (ty : Ty) : Check Operand := do
  let t ← tables
  let text ← operandText x
  let goal ← typeText ty
  let fail (cause : String) : Check Operand :=
    refuse x (if cause = "" then s!"cannot convert {text} to type {goal}"
      else s!"cannot convert {text} to type {goal}: {cause}")
  match x.constant? with
  | some v =>
    match t.under ty with
    | .basic b =>
      if b.isConstType then
        match constantAs x v t b with
        | some v => return { x with mode := .const v, type := ty }
        | none =>
          if t.isBasic Basic.isInteger x.type && b.isInteger then
            let value := v.render
            return ← refuse x s!"constant {value} overflows {goal}"
          else return ← fail ""
    | _ => pure ()
    if t.isParam ty then
      -- what a type parameter has is no constant
      let whole ← operandText { x with mode := .value }
      let fail (cause : String) : Check Operand :=
        refuse x s!"cannot convert {whole} to type {goal}: {cause}"
      match t.termsOf ty with
      | none | some [] => return ← fail s!"{goal} does not contain specific types"
      | some terms =>
        for y in terms do
          let u := t.under y.2
          let fits := (t.isBasic Basic.isString x.type && t.isBytesOrRunes u) ||
            match u with
            | .basic b => (constantAs x v t b).isSome
            | _ => false
          if !fits then
            let uText ← typeText u
            let value := v.render
            if t.isBasic Basic.isInteger x.type && t.isBasic Basic.isInteger u then
              return ← fail s!"constant {value} overflows {uText} (in {goal})"
            else return ← fail s!"cannot convert {text} to type {uText} (in {goal})"
        return { x with mode := .value, type := ty }
  | none => pure ()
  match ← j.unconvertible x ty with
  | none =>
    settleParts x.parts (if t.isPlainInterface ty then x.type.default else ty)
    return { x with mode := .value, type := ty, parts := [] }
  | some cause => fail cause

end Judge
end Desugar.Typing

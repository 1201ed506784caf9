import Desugar.Typing.Convert

/-!
# Operators
-/
namespace Desugar.Typing

open Host (Expr Kind Pos)

def isShift : Kind → Bool
  | .shl | .shr => true
  | _ => false

def isComparison : Kind → Bool
  | .eql | .neq | .lss | .leq | .gtr | .geq => true
  | _ => false

/-- What a binary operator asks of basic types. -/
def binaryDomain : Kind → Option (Basic → Bool)
  | .add => some fun b => b.isNumeric || b.isString
  | .sub | .mul | .quo => some Basic.isNumeric
  | .rem | .and | .or | .xor | .andNot => some Basic.isInteger
  | .land | .lor => some Basic.isBoolean
  | _ => none

def unaryDomain : Kind → Option (Basic → Bool)
  | .add | .sub => some Basic.isNumeric
  | .xor => some Basic.isInteger
  | .not => some Basic.isBoolean
  | _ => none

/-- The name of an operator whose result grows too large. -/
def overflowWord : Expr → String
  | .binary _ _ op _ => match op with
    | .add => "addition "
    | .sub => "subtraction "
    | .xor => "bitwise XOR "
    | .mul => "multiplication "
    | .shl => "shift "
    | _ => ""
  | .unary _ op _ => match op with
    | .xor => "bitwise complement "
    | _ => ""
  | _ => ""

/-- A constant operand whose value fits its type, or else is reported. -/
def checkOverflow (x : Operand) (pos : Pos) : Check Operand := do
  match x.constant? with
  | none => return x
  | some .unknown =>
    report pos "constant result is not representable"
    return x
  | some v =>
    let t ← tables
    if x.type.isTyped then
      match t.under x.type with
      | .basic b =>
        match t.representation x v b with
        | .ok v => return { x with mode := .const v }
        | .error misfit =>
          let text ← operandText x
          let goal := b.name
          refuse x <| match misfit with
            | .truncated => s!"{text} truncated to {goal}"
            | .overflows => s!"{text} overflows {goal}"
            | .other => s!"cannot convert {text} to type {goal}"
      | _ => return x
    else match v with
      | .int n =>
        if n.natAbs < Nat.pow 2 512 then return x
        let word := overflowWord x.expr
        report pos s!"constant {word}overflow"
        return { x with mode := .const .unknown }
      | _ => return x

/-- Whether an operator applies to an operand; if not, that is reported. -/
def applies (domain : Option (Basic → Bool)) (op : Kind) (x : Operand) : Check Bool := do
  let word := op.text
  match domain with
  | none =>
    report x.pos s!"unknown operator {word}"
    return false
  | some p =>
    if (← tables).allBasic p x.type then return true
    let text ← operandText x
    report x.pos s!"invalid operation: operator {word} not defined on {text}"
    return false

namespace Judge

/-- Whether one of two operands may take on the type of the other. -/
def mayMatch (t : Tables) (x y : Operand) : Bool :=
  let isPointer (ty : Ty) : Bool := match t.under ty with
    | .pointer _ => true
    | _ => false
  if x.type.isTyped && y.type.isTyped then false
  else if t.isPlainInterface x.type || t.isPlainInterface y.type then true
  else if t.allBasic Basic.isBoolean x.type ≠ t.allBasic Basic.isBoolean y.type then false
  else if t.allBasic Basic.isString x.type ≠ t.allBasic Basic.isString y.type then false
  else if x.isNil then t.hasNil y.type
  else if y.isNil then t.hasNil x.type
  else !isPointer x.type && !isPointer y.type

/-- Two operands with untyped ones in the type of the other, unless that fails. -/
def matchOperands (x y : Operand) : Check (Option (Operand × Operand)) := do
  if !mayMatch (← tables) x y then return some (x, y)
  let x ← convertUntyped x y.type
  if x.isInvalid then return none
  let y ← convertUntyped y x.type
  if y.isInvalid then return none
  return some (x, y)

/-- Why values of a type cannot be compared. -/
def incomparableText (ty : Ty) : Check String := do
  let t ← tables
  match t.under ty with
  | .slice _ | .func .. | .map .. => return t.structureWord ty ++ " can only be compared to nil"
  | .struct fields =>
    match fields.find? fun f => !t.comparable f.2 with
    | some f => return "struct containing " ++ (← typeText f.2) ++ " cannot be compared"
    | none => return ""
  | .array .. => return (← typeText ty) ++ " cannot be compared"
  | .iface .. =>
    if t.isParam ty then return "incomparable types in type set" else return ""
  | _ => return ""

/-- A comparison; its result is an untyped truth value. In a switch the value of a case is compared with
what is switched on. -/
def comparison (j : Judge) (e : Expr) (op : Kind) (x y : Operand) (inSwitch : Bool := false) :
    Check Operand := do
  let t ← tables
  let bad := { x with expr := e }.asInvalid
  if t.isInvalid x.type || t.isInvalid y.type then return bad
  let word := op.text
  let fail (site : Operand) (cause : String) : Check Operand := do
    let cause ← if cause ≠ "" then pure cause
      else if t.isParam x.type || t.isParam y.type then
        let name ← typeText (if t.isParam x.type then site.type else y.type)
        pure s!"type parameter {name} cannot use operator {word}"
      else
        let name ← typeText site.type
        let what := if t.structureWord site.type = "" then name else t.structureWord site.type
        pure s!"operator {word} not defined on {what}"
    let left := x.expr.summary
    let right := y.expr.summary
    if inSwitch then report x.pos s!"invalid case {left} in switch on {right} ({cause})"
    else report site.pos s!"invalid operation: {left} {word} {right} ({cause})"
    return bad
  if !(← j.isAssignable x y.type) && !(← j.isAssignable y x.type) then
    let first ← typeText x.type
    let second ← typeText y.type
    return ← fail y s!"mismatched types {first} and {second}"
  if op = .eql || op = .neq then
    if x.isNil || y.isNil then
      if !t.hasNil (if x.isNil then y.type else x.type) || (x.isNil && y.isNil) then
        return ← fail y ""
    else if !t.comparable x.type then return ← fail x (← incomparableText x.type)
    else if !t.comparable y.type then return ← fail y (← incomparableText y.type)
  else
    if !t.allBasic Basic.isOrdered x.type then return ← fail x ""
    if !t.allBasic Basic.isOrdered y.type then return ← fail y ""
  match x.constant?, y.constant? with
  | some v, some w => return { mode := .const (v.compare op w), expr := e, type := .basic .untypedBool }
  | _, _ =>
    settleParts x.asParts x.type.default
    settleParts y.asParts y.type.default
    return { mode := .value, expr := e, type := .basic .untypedBool }

/-- The greatest number of places by which a constant may be shifted. -/
def shiftBound : Nat := 1074

def shift (e : Expr) (op : Kind) (opPos : Pos) (x y : Operand) : Check Operand := do
  let t ← tables
  let bad := { x with expr := e }.asInvalid
  let value := x.constant?.bind Constant.toInt?
  let text ← operandText x
  if !(t.allBasic Basic.isInteger x.type || (x.type.isUntyped && value.isSome)) then
    report x.pos s!"invalid operation: shifted operand {text} must be integer"
    return bad
  let count ← operandText y
  let mut y := y
  match y.constant? with
  | some v =>
    if v.toInt?.any (· < 0) then
      report y.pos s!"invalid operation: negative shift count {count}"
      return bad
    if y.type.isUntyped then
      let z ← convertUntyped y (.basic .uint)
      if z.isInvalid then return bad
  | none =>
    if t.allBasic Basic.isInteger y.type then pure ()
    else if y.type.isUntyped then
      y ← convertUntyped y (.basic .uint)
      if y.isInvalid then return bad
    else
      report y.pos s!"invalid operation: shift count {count} must be integer"
      return bad
  let untyped := if t.isBasic Basic.isInteger x.type then x.type else .basic .untypedInt
  match x.constant?, y.constant? with
  | some _, some w =>
    match value, w.toInt? with
    | some n, some c =>
      if c.toNat > shiftBound then
        report y.pos s!"invalid operation: invalid shift count {count}"
        return bad
      checkOverflow { mode := .const (Constant.shift (op = .shl) n c.toNat), expr := e, type := untyped }
        opPos
    | _, _ => return { mode := .const .unknown, expr := e, type := untyped }
  | some _, none =>
    let parts := x.asParts.map fun p => { p with isShifted := true }
    return { mode := .value, expr := e, type := x.type, parts }
  | none, _ =>
    if !t.allBasic Basic.isInteger x.type then
      report x.pos s!"invalid operation: shifted operand {text} must be integer"
      return bad
    return { mode := .value, expr := e, type := x.type, parts := x.parts }

/-- A binary operator on two operands; `source` is what messages show. -/
def binaryOperands (j : Judge) (e : Expr) (source : String) (op : Kind) (opPos : Pos) (x y : Operand) :
    Check Operand := do
  if x.isInvalid || y.isInvalid then return .invalid e
  if isShift op then return ← shift e op opPos x y
  match ← matchOperands x y with
  | none => return .invalid e
  | some (x, y) =>
    if isComparison op then return ← j.comparison e op x y
    let t ← tables
    if !t.identical x.type y.type then
      if !t.isInvalid x.type && !t.isInvalid y.type then
        let first ← typeText x.type
        let second ← typeText y.type
        report x.pos s!"invalid operation: {source} (mismatched types {first} and {second})"
      return .invalid e
    if !(← applies (binaryDomain op) op x) then return .invalid e
    if op = .quo || op = .rem then
      if (x.isConst || t.allBasic Basic.isInteger x.type) && y.constant?.any Constant.isZero then
        report y.pos "invalid operation: division by zero"
        return .invalid e
    match x.constant?, y.constant? with
    | some .unknown, some _ | some _, some .unknown =>
      return { mode := .const .unknown, expr := e, type := x.type }
    | some v, some w =>
      let value := v.binary op (t.isBasic Basic.isInteger x.type) w
      checkOverflow { mode := .const value, expr := e, type := x.type } opPos
    | _, _ =>
      return { mode := .value, expr := e, type := x.type, parts := x.asParts ++ y.asParts }

def binary (j : Judge) (e : Expr) (lhs : Expr) (op : Kind) (opPos : Pos) (rhs : Expr) :
    Check Operand := do
  let x ← j.expr lhs
  let y ← j.expr rhs
  j.binaryOperands e e.summary op opPos x y

/-- Why there is no channel for what is wanted of it, as messages show it; `only` is said of channels that
allow something else. -/
def channelText (discord : Tables.Discord) (only : String) : Check String := do
  let t ← tables
  match discord with
  | .unspecific => return "no specific channel type"
  | .unfit y =>
    let name ← typeText y
    return match t.under y with
      | .chan .. => only ++ " channel " ++ name
      | _ => "non-channel " ++ name
  | other => discordText id other

/-- What is received from a channel. -/
def received (e : Expr) (x : Operand) : Check Operand := do
  let t ← tables
  let receives : Ty → Bool
    | .chan d _ => d ≠ .send
    | _ => false
  match t.common receives x.type with
  | .ok (.chan _ elem) => return { mode := .commaOk, expr := e, type := elem }
  | .ok _ => return .invalid e
  | .error discord =>
    let text ← operandText x
    let cause ← channelText discord "send-only"
    report x.pos ("invalid operation: cannot receive from " ++
      if t.isParam x.type then text ++ ": " ++ cause else cause ++ " " ++ text)
    return .invalid e

def unary (j : Judge) (e : Expr) (pos : Pos) (op : Kind) (operand : Expr) : Check Operand := do
  let x ← j.expr operand
  if x.isInvalid then return .invalid e
  let t ← tables
  match op with
  | .and =>
    let isLiteral := match operand.unparen with
      | .composite .. => true
      | _ => false
    let isVar := match x.mode with
      | .var => true
      | _ => false
    if !isLiteral && !isVar then
      let text ← operandText x
      report x.pos s!"invalid operation: cannot take address of {text}"
      return .invalid e
    return .ofValue e (.pointer x.type)
  | .arrow => received e x
  | .tilde =>
    report pos "cannot use ~ outside of interface or type constraint"
    return .invalid e
  | _ =>
    if !(← applies (unaryDomain op) op x) then return .invalid e
    match x.constant? with
    | some .unknown => return { x with expr := e }
    | some v =>
      let width := match t.under x.type with
        | .basic b => if b.isUnsigned then some b.bits else none
        | _ => none
      checkOverflow { mode := .const (v.unary op width), expr := e, type := x.type } pos
    | none => return { mode := .value, expr := e, type := x.type, parts := x.parts }

end Judge
end Desugar.Typing

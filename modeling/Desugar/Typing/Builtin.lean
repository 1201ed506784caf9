import Desugar.Host.Walk
import Desugar.Typing.Arguments
import Desugar.Typing.Operator

/-!
# Built-in functions
-/
namespace Desugar.Typing

open Host (Expr Pos Node)

namespace Builtin

def name : Builtin → String
  | append => "append"
  | cap => "cap"
  | clear => "clear"
  | close => "close"
  | complex => "complex"
  | copy => "copy"
  | delete => "delete"
  | imag => "imag"
  | len => "len"
  | make => "make"
  | max => "max"
  | min => "min"
  | new => "new"
  | panic => "panic"
  | print => "print"
  | println => "println"
  | real => "real"
  | recover => "recover"
  | pointerAdd => "Add"
  | alignOf => "Alignof"
  | offsetOf => "Offsetof"
  | sizeOf => "Sizeof"
  | pointerSlice => "Slice"
  | sliceData => "SliceData"
  | pointerString => "String"
  | stringData => "StringData"

/-- How many arguments it takes, and whether it takes more. -/
def arity : Builtin → Nat × Bool
  | append | make | max | min => (1, true)
  | print | println => (0, true)
  | recover => (0, false)
  | complex | copy | delete | pointerAdd | pointerSlice | pointerString => (2, false)
  | _ => (1, false)

/-- What a call of it does where only its effect counts. -/
def effect : Builtin → Effect
  | clear | close | copy | delete | panic | print | println | recover => .statement
  | _ => .none

end Builtin

/-- Whether something is called or received in an expression. -/
def hasCallOrReceive (e : Expr) : Bool :=
  (Node.exprsOf (Node.walk (fun _ => true) (e.stop + 8) (.expr e))).any fun
    | .call .. => true
    | .unary _ op _ => op = .arrow
    | _ => false

namespace Judge

/-- The argument of `len` or `cap`, behind a pointer to an array. -/
def measured (t : Tables) (ty : Ty) : Ty :=
  match t.under ty with
  | .pointer p =>
    match t.under p with
    | .array n e => .array n e
    | _ => t.under ty
  | u => u

def length (e : Expr) (b : Builtin) (arg : Expr) (x : Operand) : Check Operand := do
  let t ← tables
  let fits (u : Ty) : Bool := match u with
    | .basic k => k.isString && b = .len
    | .array .. | .slice _ | .chan .. => true
    | .map .. => b = .len
    | _ => false
  let whole := measured t x.type
  let ok := if t.isParam x.type then
      match t.termsOf x.type with
      | some (y :: ys) => (y :: ys).all fun z => fits (measured t z.2)
      | _ => false
    else fits whole
  if !ok then
    if !(t.under x.type).isInvalid then
      let text ← operandText x
      let name := b.name
      report x.pos s!"invalid argument: {text} for built-in {name}"
    return .invalid e
  let mode := match whole with
    | .basic _ =>
      match x.constant? with
      | some (.text s) => Mode.const (.int s.length)
      | some _ => .const .unknown
      | none => .value
    | .array n _ =>
      if hasCallOrReceive arg then .value
      else .const ((n.map fun k => Constant.int k).getD .unknown)
    | _ => .value
  return { mode, expr := e, type := .basic .int }

/-- The type of the elements of a slice, or why there is none. -/
def sliceElement (x : Operand) : Check (Except String Ty) := do
  let t ← tables
  let element? : Ty → Option Ty
    | .slice e => some e
    | _ => none
  match t.sharedType element? x.type with
  | .ok elem => return .ok elem
  | .error (.elements y z) =>
    let first ← typeText ((element? (t.under y)).getD y)
    let second ← typeText ((element? (t.under z)).getD z)
    let text ← operandText x
    return .error s!"mismatched slice element types {first} and {second} in {text}"
  | .error _ =>
    let text ← if x.isNil then pure "untyped nil" else operandText x
    return .error s!"argument must be a slice; have {text}"

/-- Whether all types that an operand may have are texts or slices of bytes. -/
def isBytesOrText (t : Tables) (x : Operand) : Bool :=
  let fits : Ty → Bool
    | .slice e => t.identical e (.basic .byte)
    | u => t.isBasic Basic.isString u
  (t.eachFits fits x.type).toOption.isSome

def appended (j : Judge) (site : CallSite) (e : Expr) (args : List Operand) (lone : Bool) :
    Check Operand := do
  match args with
  | [] => return .invalid e
  | s :: rest =>
    let t ← tables
    let isBytes ← j.isAssignable s (.slice (.basic .byte))
    let isText := match rest with
      | [y] => isBytesOrText t y &&
          ((t.typesOf y.type).getD []).any (t.isBasic Basic.isString)
      | _ => false
    if site.hasDots && isBytes && isText then return .ofValue e s.type
    match ← sliceElement s with
    | .ok elem =>
      let params : List (Member × Ty) := [({ name := "" }, s.type), ({ name := "" }, .slice elem)]
      discard <| j.applyArguments site (.func [] params [({ name := "" }, s.type)] true) []
        (args.map fun x => { operand := x }) lone
      return .ofValue e s.type
    | .error cause =>
      report s.pos s!"invalid append: {cause}"
      return .invalid e

/-- The type that a function on basic types gives for that of an operand. For a type parameter it is a new
one of the same name, which is admitted but complained about. -/
def mapBasic (f : Basic → Option Basic) (b : Builtin) (x : Operand) : Check (Option Ty) := do
  let t ← tables
  let image (ty : Ty) : Option Ty := match t.under ty with
    | .basic k => (f k).map .basic
    | _ => none
  match t.unalias x.type with
  | .param id =>
    match ((t.termsOf x.type).getD []).mapM fun y => (image y.2).map (y.1, ·) with
    | none | some [] => return none
    | some terms =>
      let text ← operandText x
      let name := b.name
      report x.pos
        s!"{text} not supported as argument to built-in {name} for go1.18 (see go.dev/issue/50937)"
      let union := Ty.union (terms.map fun (tilde, ty) => if tilde then .tilde ty else ty)
      return some (.param (← addParam
        { t.paramInfo id with constraint := .iface [] [union] false }))
  | ty => return image ty

/-- A complex number from its parts. -/
def complexOf (e : Expr) (x y : Operand) : Check Operand := do
  let asFloat (x : Operand) : Operand :=
    match x.constant? with
    | some v => if v.toReal?.isSome then { x with type := .basic .untypedFloat } else x
    | none => x
  let (x, y) ← match x.type.isUntyped, y.type.isUntyped with
    | false, false => pure (x, y)
    | true, false => pure (← convertUntyped x y.type, y)
    | false, true => pure (x, ← convertUntyped y x.type)
    | true, true =>
      if x.isConst && y.isConst then pure (asFloat x, asFloat y)
      else pure (← convertUntyped x (.basic .float64), ← convertUntyped y (.basic .float64))
  if x.isInvalid || y.isInvalid then return .invalid e
  let t ← tables
  let first ← typeText x.type
  if !t.identical x.type y.type then
    let second ← typeText y.type
    let source := e.summary
    report x.pos s!"invalid operation: {source} (mismatched types {first} and {second})"
    return .invalid e
  let whole? : Basic → Option Basic
    | .float32 => some .complex64
    | .float64 => some .complex128
    | .untypedFloat => some .untypedComplex
    | _ => none
  match ← mapBasic whole? .complex x with
  | none =>
    report x.pos s!"invalid argument: arguments have type {first}, expected floating-point"
    return .invalid e
  | some ty =>
    let mode := match x.constant?.bind Constant.toReal?, y.constant?.bind Constant.toReal? with
      | some p, some q => Mode.const (.complex p q)
      | _, _ => .value
    return { mode, expr := e, type := ty }

/-- A part of a complex number. -/
def complexPart (e : Expr) (b : Builtin) (x : Operand) : Check Operand := do
  let x ← if !x.type.isUntyped then pure x
    else if x.isConst then
      pure (if (← tables).isBasic Basic.isNumeric x.type then { x with type := .basic .untypedComplex }
        else x)
    else convertUntyped x (.basic .complex128)
  if x.isInvalid then return .invalid e
  let part? : Basic → Option Basic
    | .complex64 => some .float32
    | .complex128 => some .float64
    | .untypedComplex => some .untypedFloat
    | _ => none
  match ← mapBasic part? b x with
  | none =>
    let text ← typeText x.type
    report x.pos s!"invalid argument: argument has type {text}, expected complex type"
    return .invalid e
  | some ty =>
    let mode := match x.constant?.bind Constant.toComplex? with
      | some (re, im) => Mode.const (.real (if b = .real then re else im))
      | none => .value
    return { mode, expr := e, type := ty }

/-- The least or the greatest of some operands. -/
def extreme (b : Builtin) : (best : Operand) → List Operand → Check (Option Operand)
  | best, [] => return some best
  | best, x :: xs => do
    let t ← tables
    if !t.allBasic Basic.isOrdered x.type then
      let text ← operandText x
      report x.pos s!"invalid argument: {text} cannot be ordered"
      return none
    match ← matchOperands best x with
    | none => return none
    | some (p, q) =>
      if !t.identical p.type q.type then
        let first ← typeText p.type
        let second ← typeText q.type
        let source := q.expr.summary
        report q.pos s!"invalid argument: mismatched types {first} (previous argument) and {second} (type of {source})"
        return none
      let best := match p.constant?, q.constant? with
        | some v, some w =>
          match w.compare (if b = .max then .gtr else .lss) v with
          | .bool true => q
          | _ => p
        | _, _ => { p with mode := .value }
      extreme b best xs

def extremeOf (j : Judge) (e : Expr) (b : Builtin) (args : List Operand) : Check Operand := do
  match args with
  | [] => return .invalid e
  | x :: xs =>
    if !(← tables).allBasic Basic.isOrdered x.type then
      let text ← operandText x
      report x.pos s!"invalid argument: {text} cannot be ordered"
      return .invalid e
    match ← extreme b x xs with
    | none => return .invalid e
    | some best =>
      if best.isConst then return { best with expr := e }
      let name := b.name
      let best ← j.assign { best with mode := .value } (some (.iface [] [] false))
        s!"argument to built-in {name}"
      return if best.isInvalid then .invalid e else .ofValue e best.type

def made (j : Judge) (e : Expr) (args : List Expr) : Check Operand := do
  match args with
  | [] => return .invalid e
  | first :: sizes =>
    let ty ← j.varType first
    let t ← tables
    if t.isInvalid ty then return .invalid e
    let least? : Ty → Option Nat
      | .slice _ => some 2
      | .map .. | .chan .. => some 1
      | _ => none
    match t.common (fun u => (least? u).isSome) ty with
    | .error discord =>
      let source := first.summary
      let cause ← discordText (fun _ => "type must be slice, map, or channel") discord
      report first.pos s!"invalid argument: cannot make {source}: {cause}"
      return .invalid e
    | .ok u =>
      let least := (least? u).getD 1
      let count := args.length
      if count < least || least + 1 < count then
        let source := e.summary
        let most := least + 1
        report e.pos
          s!"invalid operation: {source} expects {least} or {most} arguments; found {count}"
        return .invalid e
      let mut known := []
      for s in sizes do
        match ← j.index s none with
        | some (some n) => known := known ++ [n]
        | _ => pure ()
      match known, sizes with
      | [m, n], s :: _ =>
        if n < m then report s.pos "invalid argument: length and capacity swapped"
      | _, _ => pure ()
      return .ofValue e ty

def newPointer (j : Judge) (e arg : Expr) : Check Operand := do
  let x ← j.exprOrType arg false
  match x.mode with
  | .invalid => return .invalid e
  | .type =>
    awaitVariable arg x.type
    return .ofValue e (.pointer x.type)
  | _ =>
    let x ← j.assign (← exclude false x) none "argument to built-in new"
    return if x.isInvalid then .invalid e else .ofValue e (.pointer x.type)

/-- Functions of the package of pointers without types. -/
def unsafeCall (e : Expr) (b : Builtin) (args : List Operand) : Check Operand := do
  let t ← tables
  match b, args with
  | .pointerAdd, _ => return .ofValue e (.basic .unsafePointer)
  | .pointerSlice, x :: _ =>
    match t.under x.type with
    | .pointer p => return .ofValue e (.slice p)
    | _ =>
      let text ← operandText x
      report x.pos s!"invalid argument: {text} is not a pointer"
      return .invalid e
  | .sliceData, x :: _ =>
    match t.core x.type with
    | some (.slice elem) => return .ofValue e (.pointer elem)
    | _ =>
      let text ← operandText x
      report x.pos s!"invalid argument: {text} is not a slice"
      return .invalid e
  | .pointerString, _ => return .ofValue e (.basic .string)
  | .stringData, _ => return .ofValue e (.pointer (.basic .byte))
  | _, _ => return { mode := .const .unknown, expr := e, type := .basic .uintptr }

/-- A built-in function on its arguments. -/
def builtinOn (j : Judge) (site : CallSite) (e : Expr) (b : Builtin) (argExprs : List Expr)
    (args : List Operand) : Check Operand := do
  let t ← tables
  let name := b.name
  let nothing : Operand := { mode := .noValue, expr := e, type := .invalid }
  let complain (x : Operand) (message : String) : Check Operand := do
    report x.pos message
    return .invalid e
  match b, args with
  | .append, _ => j.appended site e args (argExprs.length = 1)
  | .len, x :: _ | .cap, x :: _ => length e b (argExprs.headD e) x
  | .clear, x :: _ =>
    let text ← operandText x
    let clears : Ty → Bool
      | .map .. | .slice _ => true
      | _ => false
    match t.eachFits clears x.type with
    | .ok _ => return nothing
    | .error _ => complain x s!"invalid argument: clear {text} must be a map or slice"
  | .close, x :: _ =>
    let text ← operandText x
    let closes : Ty → Bool
      | .chan d _ => d ≠ .recv
      | _ => false
    match t.eachFits closes x.type with
    | .ok _ => return nothing
    | .error discord =>
      let word := match discord with
        | .unfit y =>
          match t.under y with
          | .chan .. => "receive-only channel"
          | _ => "non-channel"
        | _ => "non-channel"
      complain x s!"invalid operation: cannot close {word} {text}"
  | .complex, [x, y] => complexOf e x y
  | .copy, [x, y] =>
    if (← j.isAssignable x (.slice (.basic .byte))) && isBytesOrText t y then
      return .ofValue e (.basic .int)
    match ← sliceElement x, ← sliceElement y with
    | .error cause, _ => complain x s!"invalid copy: {cause}"
    | .ok p, source =>
      let q := match source with
        | .ok q => some q
        | .error _ => if t.allBasic Basic.isString y.type then some (.basic .byte) else none
      match q, source with
      | some q, _ =>
        if t.identical p q then return .ofValue e (.basic .int)
        let xText ← operandText x
        let yText ← operandText y
        let first ← typeText p
        let second ← typeText q
        complain x
          s!"invalid copy: arguments {xText} and {yText} have different element types {first} and {second}"
      | none, .error cause => complain y s!"invalid copy: {cause}"
      | none, .ok _ => return .invalid e
  | .delete, [x, y] =>
    let text ← operandText x
    let key? : Ty → Option Ty
      | .map key _ => some key
      | _ => none
    match t.sharedType key? x.type with
    | .ok key =>
      let y ← j.assign y (some key) "argument to delete"
      return if y.isInvalid then .invalid e else nothing
    | .error (.elements ..) =>
      complain x s!"invalid argument: maps of {text} must have identical key types"
    | .error _ => complain x s!"invalid argument: {text} is not a map"
  | .imag, x :: _ | .real, x :: _ => complexPart e b x
  | .max, _ | .min, _ => j.extremeOf e b args
  | .panic, x :: _ =>
    if (← env).results.any (!·.isEmpty) then
      modify fun s => { s with panics := site.closing :: s.panics }
    let x ← j.assign x (some (.iface [] [] false)) "argument to panic"
    return if x.isInvalid then .invalid e else nothing
  | .print, _ | .println, _ =>
    for x in args do
      let x ← j.assign x none s!"argument to built-in {name}"
      if x.isInvalid then return .invalid e
    return nothing
  | .recover, _ => return .ofValue e (.iface [] [] false)
  | _, _ => unsafeCall e b args

/-- A call of a built-in function. -/
def builtinCall (j : Judge) (site : CallSite) (e : Expr) (b : Builtin) (argExprs : List Expr) :
    Check Operand := do
  let name := b.name
  if site.hasDots && b ≠ .append then
    report site.pos s!"invalid operation: invalid use of ... with built-in {name}"
    j.use argExprs
    return .invalid e
  let special := b = .make || b = .new || b = .offsetOf
  let mut args := []
  if !special then
    for x in argExprs do
      let x ← if argExprs.length = 1 then j.multiExpr x else j.expr x
      match x.mode.isInvalid, x.type with
      | false, .tuple ts => args := args ++ ts.map fun t => Operand.ofValue x.expr t.2
      | _, _ => args := args ++ [x]
    if args.any Operand.isInvalid then return .invalid e
  let count := if special then argExprs.length else args.length
  let (least, more) := b.arity
  if count < least || (!more && least < count) then
    let word := if count < least then "not enough" else "too many"
    let source := e.summary
    report site.closing
      s!"invalid operation: {word} arguments for {source} (expected {least}, found {count})"
    return .invalid e
  match b, argExprs with
  | .make, _ => j.made e argExprs
  | .new, x :: _ => j.newPointer e x
  | .offsetOf, _ =>
    j.use argExprs
    return { mode := .const .unknown, expr := e, type := .basic .uintptr }
  | _, _ => j.builtinOn site e b argExprs args

end Judge
end Desugar.Typing

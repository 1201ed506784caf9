import Desugar.Host.Parse.State

/-!
# Parsing types and expressions

Each production is a function of the productions that it may reach again, given as `self`, so that
none of them recurses by itself. The grammar is tied together once, at a depth that bounds how
deeply productions nest.
-/
namespace Desugar.Host.Parse

/-- The productions through which the grammar recurs. -/
inductive Goal where
  /-- A binary expression of operators that bind at least as tightly as the given precedence. -/
  | binary (precedence : Nat)
  | unary
  /-- A type, if one starts here. -/
  | type
  /-- The body of a function or a block. -/
  | block
  | stmt
  | ifThen
  /-- The elements of a composite literal of the given type. -/
  | literalValue (type : Option Expr)

/-- What a production gives. -/
@[reducible] def Goal.Result : Goal → Type
  | binary _ => Expr
  | unary => Expr
  | type => Option Expr
  | block => Block
  | stmt => Stmt
  | ifThen => Stmt
  | literalValue _ => Expr

/-- The productions to recur to. -/
abbrev Self := (g : Goal) → Parse g.Result

def expr (self : Self) : Parse Expr := self (.binary 1)

/-- An expression on the right of an assignment or inside another construct. -/
def rhs (self : Self) : Parse Expr := withRhs true (expr self)

def ident : Parse Ident := do
  let p ← pos
  if ← sees .ident then
    let name ← literal
    next
    return ⟨p, name⟩
  else
    let _ ← expect .ident
    return ⟨p, "_"⟩

/-- Items separated by commas. -/
def commaList {α : Type} (item : Parse α) : Parse (List α) := do
  let mut items := [← item]
  for _ in [0:(← bound)] do
    if ← sees .comma then
      next
      items := (← item) :: items
    else break
  return items.reverse

def exprList (self : Self) (inRhs : Bool) : Parse (List Expr) := withRhs inRhs (commaList (expr self))

/-- A type; complains if none starts here. -/
def type (self : Self) : Parse Expr := do
  match ← self .type with
  | some t => return t
  | none =>
    let p ← pos
    errorExpected p "type"
    advance endsExpression
    return .bad p (← pos)

def typeName (i : Option Ident) : Parse Expr := do
  let i ← match i with
    | some i => pure i
    | none => ident
  if ← sees .period then
    next
    return .selector (.ident i) (← ident)
  return .ident i

/-- Items up to a closing lexeme, with commas between them. -/
def listUntil {α : Type} (context : String) (closing : Kind) (item : Parse α) : Parse (List α) := do
  let mut items := []
  for _ in [0:(← bound)] do
    if (← sees closing) || (← sees .eof) then break
    items := (← item) :: items
    unless ← atComma context closing do break
    next
  return items.reverse

/-- The type arguments of an instantiated type. -/
def typeInstance (self : Self) (x : Expr) : Parse Expr := do
  let opening ← expect .lbrack
  let args ← withLevel (listUntil "type argument list" .rbrack (type self))
  let closing ← expectClosing .rbrack "type argument list"
  if args.isEmpty then
    errorExpected closing "type argument list"
    return .index x opening [.bad (opening + 1) closing] closing
  return .index x opening args closing

def qualified (self : Self) (i : Option Ident) : Parse Expr := do
  let t ← typeName i
  if ← sees .lbrack then typeInstance self t else return t

/-- An array or slice type behind its opening bracket; `len` is a length already read. -/
def arrayType (self : Self) (lbrack : Pos) (len : Option Expr) : Parse Expr := do
  let len ← match len with
    | some e => pure (some e)
    | none => withLevel do
      if ← sees .ellipsis then
        let p ← pos
        next
        return some (.ellipsis p none)
      else if ← sees .rbrack then return none
      else return some (← rhs self)
  if ← sees .comma then
    error (← pos) "unexpected comma; expecting ]"
    next
  let _ ← expect .rbrack
  return .arrayType lbrack len (← type self)

/-- What follows a name and a bracket: an array or slice type that the name is of, or type
arguments that belong to the name. The name is given back in the first case. -/
def arrayOrInstance (self : Self) (x : Ident) : Parse (Option Ident × Expr) := do
  let lbrack ← expect .lbrack
  let mut trailing : Pos := 0
  let mut args : List Expr := []
  if !(← sees .rbrack) then
    modify fun s => { s with level := s.level + 1 }
    args := [← rhs self]
    for _ in [0:(← bound)] do
      if ← sees .comma then
        let comma ← pos
        next
        if ← sees .rbrack then
          trailing := comma
          break
        args := (← rhs self) :: args
      else break
    modify fun s => { s with level := s.level - 1 }
  let rbrack ← expect .rbrack
  match args.reverse with
  | [] => return (some x, .arrayType lbrack none (← type self))
  | [len] =>
    match ← self .type with
    | some elt =>
      if trailing ≠ 0 then error trailing "unexpected comma; expecting ]"
      return (some x, .arrayType lbrack (some len) elt)
    | none => return (none, .index (.ident x) lbrack [len] rbrack)
  | several => return (none, .index (.ident x) lbrack several rbrack)

/-- An embedded type in parentheses, which are not allowed. -/
def parenthesizedEmbedded (self : Self) : Parse Expr := do
  error (← pos) "cannot parenthesize embedded type"
  next
  let t ←
    if ← sees .mul then
      let star ← pos
      next
      pure (.star star (← qualified self none))
    else qualified self none
  if ← sees .rparen then next
  return t

def fieldDecl (self : Self) : Parse Field := do
  let doc ← leadComment
  let (names, t) ← match ← kind with
    | .ident =>
      let name ← ident
      match ← kind with
      | .period => pure ([], ← qualified self (some name))
      | .string | .semicolon | .rbrace => pure ([], .ident name)
      | _ =>
        let mut names := [name]
        for _ in [0:(← bound)] do
          if ← sees .comma then
            next
            names := (← ident) :: names
          else break
        if names.length = 1 && (← sees .lbrack) then
          let (name, t) ← arrayOrInstance self name
          pure (name.toList, t)
        else pure (names.reverse, ← type self)
    | .mul =>
      let star ← pos
      next
      if ← sees .lparen then
        error (← pos) "cannot parenthesize embedded type"
        next
        let t ← qualified self none
        if ← sees .rparen then next
        pure ([], .star star t)
      else pure ([], .star star (← qualified self none))
    | .lparen => pure ([], ← parenthesizedEmbedded self)
    | _ =>
      let p ← pos
      errorExpected p "field name or embedded type"
      advance endsExpression
      pure ([], .bad p (← pos))
  let tag ←
    if ← sees .string then
      let l : Literal := ⟨← pos, .string, ← literal⟩
      next
      pure (some l)
    else pure none
  let comment ← expectSemi
  return .mk doc names t tag comment

def structType (self : Self) : Parse Expr := do
  let p ← expect .kwStruct
  let lbrace ← expect .lbrace
  let mut fields := []
  for _ in [0:(← bound)] do
    match ← kind with
    | .ident | .mul | .lparen => fields := (← fieldDecl self) :: fields
    | _ => break
  let rbrace ← expect .rbrace
  return .structType p (.mk lbrace fields.reverse rbrace)

def dotsType (self : Self) : Parse Expr := do
  let p ← expect .ellipsis
  return .ellipsis p (some (← type self))

/-- A term of a type set. -/
def typeTerm (self : Self) : Parse Expr := do
  if ← sees .tilde then
    let p ← pos
    next
    return .unary p .tilde (← type self)
  match ← self .type with
  | some t => return t
  | none =>
    let p ← pos
    errorExpected p "~ term or type"
    advance endsExpression
    return .bad p (← pos)

/-- A union of terms; `x` is a first term already read. -/
def typeElement (self : Self) (x : Option Expr) : Parse Expr := do
  let mut x ← match x with
    | some x => pure x
    | none => typeTerm self
  for _ in [0:(← bound)] do
    if ← sees .or then
      let p ← pos
      next
      x := .binary x p .or (← typeTerm self)
    else break
  return x

/-- A parameter as far as it is spelt out: a name, a type, or both. -/
structure Param where
  name : Option Ident := none
  type : Option Expr := none
  deriving Inhabited

/-- A parameter; `sets` allows type sets, as in lists of type parameters. -/
def param (self : Self) (name : Option Ident) (sets : Bool) : Parse Param := do
  if name.isNone && sets && (← sees .tilde) then
    return { type := some (← typeElement self none) }
  let united (p : Param) : Parse Param := do
    match p.type with
    | some t =>
      if sets && (← sees .or) then return { p with type := some (← typeElement self (some t)) }
      return p
    | none => return p
  if name.isSome || (← sees .ident) then
    let i ← match name with
      | some i => pure i
      | none => ident
    match ← kind with
    | .ident | .mul | .arrow | .kwFunc | .kwChan | .kwMap | .kwStruct | .kwInterface | .lparen =>
      united { name := some i, type := some (← type self) }
    | .lbrack =>
      let (n, t) ← arrayOrInstance self i
      united { name := n, type := some t }
    | .ellipsis => return { name := some i, type := some (← dotsType self) }
    | .period => united { type := some (← qualified self (some i)) }
    | .tilde =>
      if sets then return { name := some i, type := some (← typeElement self none) }
      return { name := some i }
    | .or =>
      if sets then return { type := some (← typeElement self (some (.ident i))) }
      return { name := some i }
    | _ => return { name := some i }
  else match ← kind with
    | .mul | .arrow | .kwFunc | .lbrack | .kwChan | .kwMap | .kwStruct | .kwInterface | .lparen =>
      united { type := some (← type self) }
    | .ellipsis => return { type := some (← dotsType self) }
    | _ =>
      errorExpected (← pos) "')'"
      advance endsExpression
      return {}

/-- Gives every parameter a name and a type, from right to left: a name alone takes the type of the
parameter after it, a type alone the blank name. Gives also the leftmost place where one is
missing. -/
def completeParams (stop : Pos) : List Param → List Param × Option Expr × Pos
  | [] => ([], none, 0)
  | p :: rest =>
    let (done, current, fault) := completeParams stop rest
    match p.type, p.name with
    | some t, some _ => (p :: done, some t, fault)
    | some t, none => ({ name := some ⟨t.pos, "_"⟩, type := some t } :: done, some t, t.pos)
    | none, name =>
      match current with
      | some t => ({ p with type := some t } :: done, current, fault)
      | none =>
        let at_ := (name.map Ident.pos).getD 0
        ({ p with type := some (.bad at_ stop) } :: done, none, at_)

/-- Parameters of one type are one field: neighbours that share the type of the one behind them. -/
def groupParams : List (Param × Bool) → List Field
  | [] => []
  | (p, shares) :: rest =>
    let fields := groupParams rest
    match shares, fields with
    | true, .mk doc names t tag comment :: more =>
      .mk doc (p.name.toList ++ names) t tag comment :: more
    | _, _ => .mk none p.name.toList (p.type.getD default) none none :: fields

/-- Complains about the first parameter of any number of values that may not stand where it does. Where
`dots` is set, the last parameter may be one. -/
def checkDots (dots : Bool) (types : List (Option Expr)) : Parse Unit := do
  let found := (if dots then types.dropLast else types).findSome? fun
    | some (.ellipsis p _) => some p
    | _ => none
  if let some p := found then
    error p (if dots then "can only use ... with final parameter" else "invalid use of ...")

/-- Parameters up to a closing lexeme. `name` and `first` are the start of the first one, already
read; `dots` says whether the last one may take any number of values. -/
def paramList (self : Self) (name : Option Ident) (first : Option Expr) (closing : Kind)
    (dots : Bool) : Parse (List Field) := do
  let sets := closing = .rbrack
  let start := (name.map Ident.pos <|> first.map Expr.pos).getD (← pos)
  let mut name := name
  let mut first := first
  let mut params : List Param := []
  for _ in [0:(← bound)] do
    if name.isNone && ((← sees closing) || (← sees .eof)) then break
    let p ← match first with
      | some t =>
        let t ← if sets then typeElement self (some t) else pure t
        pure { name, type := some t }
      | none => param self name sets
    name := none
    first := none
    if p.name.isSome || p.type.isSome then params := p :: params
    unless ← atComma "parameter list" closing do break
    next
  let list := params.reverse
  let named := list.countP fun p => p.name.isSome && p.type.isSome
  let typed := list.countP fun p => p.type.isSome
  if list.isEmpty then return []
  if named = 0 then
    if sets then
      if typed = 0 then error (← pos) "missing type constraint"
      else
        let note := if list.length = 1 then " or invalid array length" else ""
        error start ("missing type parameter name" ++ note)
    checkDots dots (list.map Param.type)
    return list.map fun p =>
      match p.name, p.type with
      | some n, _ => .mk none [] (.ident n) none none
      | none, t => .mk none [] (t.getD default) none none
  let list' ←
    if named = list.length then pure list
    else do
      let (done, _, fault) := completeParams (← pos) list
      if fault ≠ 0 then
        if named = typed then
          error (← pos) (if sets then "missing type constraint" else "missing parameter type")
        else
          let note := if sets && list.length = 1 then " or invalid array length" else ""
          error fault
            ((if sets then "missing type parameter name" else "missing parameter name") ++ note)
      pure done
  checkDots dots (list'.map Param.type)
  let sharing := list.map fun p => p.type.isNone
  return groupParams (list'.zip sharing)

/-- Parameters in parentheses; `dots` says whether the last one may take any number of values. -/
def parameters (self : Self) (dots : Bool) : Parse FieldList := do
  let opening ← expect .lparen
  let fields ← if ← sees .rparen then pure [] else paramList self none none .rparen dots
  let closing ← expect .rparen
  return .mk opening fields closing

/-- Type parameters in brackets, if there are any. -/
def typeParameters (self : Self) : Parse (Option FieldList) := do
  unless ← sees .lbrack do return none
  let opening ← pos
  next
  let fields ← paramList self none none .rbrack false
  let closing ← expect .rbrack
  if fields.isEmpty then
    error closing "empty type parameter list"
    return none
  return some (.mk opening fields closing)

def result (self : Self) : Parse (Option FieldList) := do
  if ← sees .lparen then return some (← parameters self false)
  match ← self .type with
  | some t => return some (.mk 0 [.mk none [] t none none] 0)
  | none => return none

def funcType (self : Self) : Parse FuncType := do
  let p ← expect .kwFunc
  if let some tp ← typeParameters self then
    error tp.opening "function type must have no type parameters"
  let params ← parameters self true
  return .mk p none params (← result self)

/-- The signature of a method behind its name. -/
def methodType (self : Self) : Parse Expr := do
  let params ← parameters self true
  return .funcType (.mk 0 none params (← result self))

/-- A method or an embedded type of an interface, without the end of its line. -/
def methodSpec (self : Self) : Parse (Option CommentGroup × List Ident × Expr) := do
  let doc ← leadComment
  match ← typeName none with
  | .ident i =>
    match ← kind with
    | .lbrack =>
      let lbrack ← pos
      next
      let x ← withLevel (expr self)
      let generic := match x with
        | .ident n => some n
        | _ => none
      let more := (← sees .comma) || (← sees .rbrack)
      match generic, more with
      | some n, false =>
        let _ ← paramList self (some n) none .rbrack false
        let _ ← expect .rbrack
        error lbrack "interface method must have no type parameters"
        return (doc, [i], ← methodType self)
      | _, _ =>
        let mut args := [x]
        if ← atComma "type argument list" .rbrack then
          modify fun s => { s with level := s.level + 1 }
          next
          args := args ++ (← listUntil "type argument list" .rbrack (type self))
          modify fun s => { s with level := s.level - 1 }
        let rbrack ← expectClosing .rbrack "type argument list"
        return (doc, [], .index (.ident i) lbrack args rbrack)
    | .lparen => return (doc, [i], ← methodType self)
    | _ => return (doc, [], .ident i)
  | t =>
    if ← sees .lbrack then return (doc, [], ← typeInstance self t)
    return (doc, [], t)

def interfaceType (self : Self) : Parse Expr := do
  let p ← expect .kwInterface
  let lbrace ← expect .lbrace
  let mut fields := []
  for _ in [0:(← bound)] do
    match ← kind with
    | .ident =>
      let (doc, names, t) ← methodSpec self
      let t ← if names.isEmpty then typeElement self (some t) else pure t
      let comment ← expectSemi
      fields := .mk doc names t none comment :: fields
    | .tilde =>
      let t ← typeElement self none
      let comment ← expectSemi
      fields := .mk none [] t none comment :: fields
    | _ =>
      match ← self .type with
      | some t =>
        let t ← typeElement self (some t)
        let comment ← expectSemi
        fields := .mk none [] t none comment :: fields
      | none => break
  let rbrace ← expect .rbrace
  return .interfaceType p (.mk lbrace fields.reverse rbrace)

def mapType (self : Self) : Parse Expr := do
  let p ← expect .kwMap
  let _ ← expect .lbrack
  let key ← type self
  let _ ← expect .rbrack
  return .mapType p key (← type self)

def chanType (self : Self) : Parse Expr := do
  let p ← pos
  if ← sees .kwChan then
    next
    if ← sees .arrow then
      let arrow ← pos
      next
      return .chanType p arrow .send (← type self)
    return .chanType p 0 .both (← type self)
  let arrow ← expect .arrow
  let _ ← expect .kwChan
  return .chanType p arrow .recv (← type self)

/-- A type, if one starts here. -/
def typeGoal (self : Self) : Parse (Option Expr) := do
  match ← kind with
  | .ident => return some (← qualified self none)
  | .lbrack => return some (← arrayType self (← expect .lbrack) none)
  | .kwStruct => return some (← structType self)
  | .mul =>
    let star ← expect .mul
    return some (.star star (← type self))
  | .kwFunc => return some (.funcType (← funcType self))
  | .kwInterface => return some (← interfaceType self)
  | .kwMap => return some (← mapType self)
  | .kwChan | .arrow => return some (← chanType self)
  | .lparen =>
    let lparen ← pos
    next
    let t ← type self
    return some (.paren lparen t (← expect .rparen))
  | _ => return none

def funcTypeOrLit (self : Self) : Parse Expr := do
  let t ← funcType self
  if ← sees .lbrace then return .funcLit t (← withLevel (self .block))
  return .funcType t

def operand (self : Self) : Parse Expr := do
  match ← kind with
  | .ident => return .ident (← ident)
  | .int | .float | .imag | .char | .string =>
    let l : Literal := ⟨← pos, ← kind, ← literal⟩
    next
    return .literal l
  | .lparen =>
    let lparen ← pos
    next
    let x ← withLevel (rhs self)
    return .paren lparen x (← expect .rparen)
  | .kwFunc => funcTypeOrLit self
  | _ =>
    match ← self .type with
    | some t => return t
    | none =>
      let p ← pos
      errorExpected p "operand"
      advance startsStatement
      return .bad p (← pos)

def typeAssertion (self : Self) (x : Expr) : Parse Expr := do
  let lparen ← expect .lparen
  let t ←
    if ← sees .kwType then
      next
      pure none
    else pure (some (← type self))
  return .typeAssert x lparen t (← expect .rparen)

/-- An index, a slice or type arguments, from the opening bracket on. -/
def indexOrSlice (self : Self) (x : Expr) : Parse Expr := do
  let lbrack ← expect .lbrack
  if ← sees .rbrack then
    let rbrack ← pos
    errorExpected rbrack "operand"
    next
    return .index x lbrack [.bad rbrack rbrack] rbrack
  modify fun s => { s with level := s.level + 1 }
  let first ← if ← sees .colon then pure none else pure (some (← rhs self))
  let mut colons : List Pos := []
  let mut later : List (Option Expr) := []
  let mut args : List Expr := []
  if ← sees .colon then
    for _ in [0:2] do
      if ← sees .colon then
        colons := colons ++ [← pos]
        next
        if (← sees .colon) || (← sees .rbrack) || (← sees .eof) then later := later ++ [none]
        else later := later ++ [some (← rhs self)]
      else break
  else if ← sees .comma then
    args := first.toList
    for _ in [0:(← bound)] do
      if ← sees .comma then
        next
        unless (← sees .rbrack) || (← sees .eof) do
          args := args ++ [← type self]
      else break
  modify fun s => { s with level := s.level - 1 }
  let rbrack ← expect .rbrack
  match colons, later with
  | [_], [high] => return .slice x lbrack first high none false rbrack
  | [c1, c2], [high, max] =>
    let high ← match high with
      | some e => pure e
      | none =>
        error c1 "middle index required in 3-index slice"
        pure (.bad (c1 + 1) c2)
    let max ← match max with
      | some e => pure e
      | none =>
        error c2 "final index required in 3-index slice"
        pure (.bad (c2 + 1) rbrack)
    return .slice x lbrack first (some high) (some max) true rbrack
  | _, _ =>
    if args.isEmpty then return .index x lbrack first.toList rbrack
    return .index x lbrack args rbrack

def callOrConversion (self : Self) (fn : Expr) : Parse Expr := do
  let lparen ← expect .lparen
  modify fun s => { s with level := s.level + 1 }
  let mut args : List Expr := []
  let mut dots : Pos := 0
  for _ in [0:(← bound)] do
    if (← sees .rparen) || (← sees .eof) || dots ≠ 0 then break
    args := (← rhs self) :: args
    if ← sees .ellipsis then
      dots ← pos
      next
    unless ← atComma "argument list" .rparen do break
    next
  modify fun s => { s with level := s.level - 1 }
  let rparen ← expectClosing .rparen "argument list"
  return .call fn lparen args.reverse dots rparen

/-- A value in a composite literal, whose own type may be left out. -/
def value (self : Self) : Parse Expr := do
  if ← sees .lbrace then self (.literalValue none) else expr self

def element (self : Self) : Parse Expr := do
  let x ← value self
  if ← sees .colon then
    let colon ← pos
    next
    return .keyValue x colon (← value self)
  return x

def literalValue (self : Self) (t : Option Expr) : Parse Expr := do
  let lbrace ← expect .lbrace
  let elts ← withLevel do
    if ← sees .rbrace then return []
    listUntil "composite literal" .rbrace (element self)
  let rbrace ← expectClosing .rbrace "composite literal"
  return .composite t lbrace elts rbrace

/-- Whether a brace behind the expression opens a composite literal of that type. -/
def isLiteralType (level : Int) (x : Expr) : Bool :=
  match x with
  | .bad .. | .ident _ | .selector .. | .index .. => 0 ≤ level
  | .arrayType .. | .structType .. | .mapType .. => true
  | _ => false

/-- An operand with the selectors, indices, calls and literal values behind it. -/
def primary (self : Self) (x : Option Expr) : Parse Expr := do
  let mut x ← match x with
    | some x => pure x
    | none => operand self
  for _ in [0:(← bound)] do
    match ← kind with
    | .period =>
      next
      match ← kind with
      | .ident => x := .selector x (← ident)
      | .lparen => x ← typeAssertion self x
      | k =>
        let p ← pos
        errorExpected p "selector or type assertion"
        unless k = .rbrace do next
        x := .selector x ⟨p, "_"⟩
    | .lbrack => x ← indexOrSlice self x
    | .lparen => x ← callOrConversion self x
    | .lbrace =>
      let t := x.unparen
      unless isLiteralType (← get).level t do break
      if let .paren .. := x then error t.pos "cannot parenthesize type in composite literal"
      x ← self (.literalValue (some x))
    | _ => break
  return x

/-- Gives an arrow in front of a channel type to that type: each channel type on the way that only
sends hands its own arrow on. The second component is the arrow left over, if any. -/
def reassociate (arrow : Pos) : Expr → Parse (Expr × Option Pos)
  | .chanType _ own dir value => do
    if dir = .recv then errorExpected own "'chan'"
    match dir with
    | .send =>
      let (value, left) ← reassociate own value
      return (.chanType arrow arrow .recv value, left)
    | _ => return (.chanType arrow arrow .recv value, none)
  | x => return (x, some arrow)

def unaryGoal (self : Self) : Parse Expr := do
  match ← kind with
  | .add | .sub | .not | .xor | .and | .tilde =>
    let p ← pos
    let op ← kind
    next
    return .unary p op (← self .unary)
  | .arrow =>
    let arrow ← pos
    next
    match ← self .unary with
    | x@(.chanType ..) =>
      let (x, left) ← reassociate arrow x
      if let some p := left then errorExpected p "channel type"
      return x
    | x => return .unary arrow .arrow x
  | .mul =>
    let p ← pos
    next
    return .star p (← self .unary)
  | _ => primary self none

/-- The operator in view and its precedence. -/
def operator : Parse (Kind × Nat) := do
  let s ← get
  let op := if s.inRhs && s.kind = .assign then .eql else s.kind
  return (op, op.precedence)

/-- A binary expression; `x` is its left operand, if it is already read. -/
def binary (self : Self) (x : Option Expr) (least : Nat) : Parse Expr := do
  let mut x ← match x with
    | some x => pure x
    | none => unaryGoal self
  for _ in [0:(← bound)] do
    let (op, precedence) ← operator
    if precedence < least then break
    let p ← expect op
    x := .binary x p op (← self (.binary (precedence + 1)))
  return x

end Desugar.Host.Parse

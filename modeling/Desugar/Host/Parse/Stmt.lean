import Desugar.Host.Parse.Expr

/-!
# Parsing statements and declarations
-/
namespace Desugar.Host.Parse

/-- Where a simple statement stands: only in a list of statements may it be labelled, and only in a
loop's header may it be a range clause. -/
inductive Setting where
  | plain | listed | loop
  deriving DecidableEq, Repr

def isAssignment : Kind → Bool
  | .define | .assign | .addAssign | .subAssign | .mulAssign | .quoAssign | .remAssign | .andAssign
  | .orAssign | .xorAssign | .shlAssign | .shrAssign | .andNotAssign => true
  | _ => false

/-- A simple statement, and whether it is a range clause. -/
def simpleStmt (self : Self) (setting : Setting) : Parse (Stmt × Bool) := do
  let xs ← exprList self false
  let x := xs.headD default
  let k ← kind
  if isAssignment k then
    let p ← pos
    next
    if setting = .loop && (← sees .kwRange) && (k = .define || k = .assign) then
      let rangePos ← pos
      next
      let y ← rhs self
      return (.assign xs p k [.unary rangePos .kwRange y], true)
    return (.assign xs p k (← exprList self true), false)
  if 1 < xs.length then errorExpected x.pos "1 expression"
  match k with
  | .colon =>
    let colon ← pos
    next
    match setting, x with
    | .listed, .ident label => return (.labeled label colon (← self .stmt), false)
    | _, _ =>
      error colon "illegal label declaration"
      return (.bad x.pos (colon + 1), false)
  | .arrow =>
    let arrow ← pos
    next
    return (.send x arrow (← rhs self), false)
  | .inc | .dec =>
    let p ← pos
    next
    return (.incDec x p k, false)
  | _ => return (.expr x, false)

/-- The call of a go or defer statement, if it is one. -/
def callOf (self : Self) (word : String) : Parse (Option Expr) := do
  let x ← rhs self
  let t := x.unparen
  if let .paren .. := x then error x.pos s!"expression in {word} must not be parenthesized"
  match t with
  | .call .. => return some t
  | .bad .. => return none
  | _ =>
    error t.stop s!"expression in {word} must be function call"
    return none

def goStmt (self : Self) : Parse Stmt := do
  let p ← expect .kwGo
  let call ← callOf self "go"
  let _ ← expectSemi
  return match call with
    | some c => .go p c
    | none => .bad p (p + 2)

def deferStmt (self : Self) : Parse Stmt := do
  let p ← expect .kwDefer
  let call ← callOf self "defer"
  let _ ← expectSemi
  return match call with
    | some c => .defer p c
    | none => .bad p (p + 5)

def returnStmt (self : Self) : Parse Stmt := do
  let p ← expect .kwReturn
  let xs ← if (← sees .semicolon) || (← sees .rbrace) then pure [] else exprList self true
  let _ ← expectSemi
  return .ret p xs

def branchStmt (k : Kind) : Parse Stmt := do
  let p ← expect k
  let label ←
    if k = .kwGoto || (k ≠ .kwFallthrough && (← sees .ident)) then pure (some (← ident))
    else pure none
  let _ ← expectSemi
  return .branch p k label

/-- The expression that a simple statement has to be. -/
def exprOf (s : Option Stmt) (want : String) : Parse (Option Expr) := do
  match s with
  | none => return none
  | some (.expr x) => return some x
  | some s =>
    let found := match s with
      | .assign .. => "assignment"
      | _ => "simple statement"
    error s.pos
      s!"expected {want}, found {found} (missing parentheses around composite literal?)"
    return some (.bad s.pos s.stop)

def ifHeader (self : Self) : Parse (Option Stmt × Expr) := do
  if ← sees .lbrace then
    let p ← pos
    error p "missing condition in if statement"
    return (none, .bad p p)
  inHeader do
    let init ←
      if ← sees .semicolon then pure none
      else do
        if ← sees .kwVar then
          next
          error (← pos) "var declaration not allowed in if initializer"
        pure (some (← simpleStmt self .plain).1)
    let mut semi : Option (Pos × String) := none
    let mut condStmt := init
    let mut initStmt := none
    if !(← sees .lbrace) then
      initStmt := init
      condStmt := none
      if ← sees .semicolon then
        semi := some (← pos, ← literal)
        next
      else
        let _ ← expect .semicolon
      if !(← sees .lbrace) then condStmt := some (← simpleStmt self .plain).1
    let cond ← match condStmt with
      | some _ => exprOf condStmt "boolean expression"
      | none =>
        match semi with
        | some (p, "\n") =>
          error p "unexpected newline, expecting \x7b after if clause"
          pure none
        | some (p, _) =>
          error p "missing condition in if statement"
          pure none
        | none => pure none
    let p ← pos
    return (initStmt, cond.getD (.bad p p))

def ifGoal (self : Self) : Parse Stmt := do
  let p ← expect .kwIf
  let (init, cond) ← ifHeader self
  let body ← self .block
  if ← sees .kwElse then
    next
    match ← kind with
    | .kwIf => return .ifThen p init cond body (some (← self .ifThen))
    | .lbrace =>
      let els ← self .block
      let _ ← expectSemi
      return .ifThen p init cond body (some (.block els))
    | _ =>
      let q ← pos
      errorExpected q "if statement or block"
      return .ifThen p init cond body (some (.bad q q))
  let _ ← expectSemi
  return .ifThen p init cond body none

def stmtList (self : Self) : Parse (List Stmt) := do
  let mut stmts := []
  for _ in [0:(← bound)] do
    match ← kind with
    | .kwCase | .kwDefault | .rbrace | .eof => break
    | _ => stmts := (← self .stmt) :: stmts
  return stmts.reverse

def blockGoal (self : Self) : Parse Block := do
  let lbrace ← expect .lbrace
  let list ← stmtList self
  return .mk lbrace list (← expectOrNone .rbrace)

def caseClause (self : Self) : Parse Stmt := do
  let p ← pos
  let values ←
    if ← sees .kwCase then
      next
      pure (some (← exprList self true))
    else
      let _ ← expect .kwDefault
      pure none
  let colon ← expect .colon
  return .caseClause p values colon (← stmtList self)

/-- The clauses of a switch or select statement, in braces. -/
def clauses (clause : Parse Stmt) : Parse Block := do
  let lbrace ← expect .lbrace
  let mut list := []
  for _ in [0:(← bound)] do
    if (← sees .kwCase) || (← sees .kwDefault) then list := (← clause) :: list else break
  let rbrace ← expect .rbrace
  let _ ← expectSemi
  return .mk lbrace list.reverse rbrace

/-- Whether a statement asks for the type of a value. -/
def isTypeGuard (s : Stmt) : Parse Bool := do
  match s with
  | .expr (.typeAssert _ _ none _) => return true
  | .assign [_] p k [.typeAssert _ _ none _] =>
    match k with
    | .assign =>
      error p "expected ':=', found '='"
      return true
    | .define => return true
    | _ => return false
  | _ => return false

def switchStmt (self : Self) : Parse Stmt := do
  let p ← expect .kwSwitch
  let (init, tag) ←
    if ← sees .lbrace then pure (none, none)
    else inHeader do
      let first ←
        if ← sees .semicolon then pure none else pure (some (← simpleStmt self .plain).1)
      if ← sees .semicolon then
        next
        if ← sees .lbrace then return (first, none)
        return (first, some (← simpleStmt self .plain).1)
      return (none, first)
  let guarded ← match tag with
    | some s => isTypeGuard s
    | none => pure false
  let body ← clauses (caseClause self)
  match guarded, tag with
  | true, some s => return .typeSwitch p init s body
  | _, _ => return .switch p init (← exprOf tag "switch expression") body

def commClause (self : Self) : Parse Stmt := do
  let p ← pos
  let comm ←
    if ← sees .kwCase then do
      next
      let lhs ← exprList self false
      let x := lhs.headD default
      match ← kind with
      | .arrow =>
        if 1 < lhs.length then errorExpected x.pos "1 expression"
        let arrow ← pos
        next
        pure (some (.send x arrow (← rhs self)))
      | k =>
        if k = .assign || k = .define then
          if 2 < lhs.length then errorExpected x.pos "1 or 2 expressions"
          let q ← pos
          next
          pure (some (.assign (lhs.take 2) q k [← rhs self]))
        else
          if 1 < lhs.length then errorExpected x.pos "1 expression"
          pure (some (.expr x))
    else do
      let _ ← expect .kwDefault
      pure none
  let colon ← expect .colon
  return .commClause p comm colon (← stmtList self)

def selectStmt (self : Self) : Parse Stmt := do
  let p ← expect .kwSelect
  return .select p (← clauses (commClause self))

/-- The header of a loop: its statements, and whether the second is a range clause. -/
def forHeader (self : Self) : Parse (Option Stmt × Option Stmt × Option Stmt × Bool) := do
  if ← sees .lbrace then return (none, none, none, false)
  inHeader do
    let (first, isRange) ←
      if ← sees .semicolon then pure (none, false)
      else if ← sees .kwRange then do
        let p ← pos
        next
        let x ← rhs self
        pure (some (.assign [] 0 .illegal [.unary p .kwRange x]), true)
      else do
        let (s, isRange) ← simpleStmt self .loop
        pure (some s, isRange)
    if isRange || !(← sees .semicolon) then return (none, first, none, isRange)
    next
    let cond ←
      if ← sees .semicolon then pure none
      else pure (some (← simpleStmt self .plain).1)
    let _ ← expectSemi
    let post ← if ← sees .lbrace then pure none else pure (some (← simpleStmt self .plain).1)
    return (first, cond, post, false)

def forStmt (self : Self) : Parse Stmt := do
  let p ← expect .kwFor
  let (init, cond, post, isRange) ← forHeader self
  let body ← self .block
  let _ ← expectSemi
  match isRange, cond with
  | true, some (.assign lhs tokPos tok [.unary rangePos _ x]) =>
    match lhs with
    | [] => return .range p none none tokPos tok rangePos x body
    | [key] => return .range p (some key) none tokPos tok rangePos x body
    | [key, value] => return .range p (some key) (some value) tokPos tok rangePos x body
    | more =>
      errorExpected ((more.getLast?.map Expr.pos).getD 0) "at most 2 expressions"
      return .bad p body.stop
  | _, _ => return .forLoop p init (← exprOf cond "boolean or range expression") post body

/-! Declarations -/

def importSpec (doc : Option CommentGroup) : Parse Spec := do
  let name ← match ← kind with
    | .ident => pure (some (← ident))
    | .period =>
      let i : Ident := ⟨← pos, "."⟩
      next
      pure (some i)
    | _ => pure none
  let p ← pos
  let k ← kind
  let path ←
    if k = .string then do
      let path ← literal
      next
      pure path
    else if k.isLiteral then do
      error p "import path must be a string"
      next
      pure ""
    else do
      error p "missing import path; require quoted string"
      advance endsExpression
      pure ""
  let comment ← expectSemi
  let spec := .imports doc name ⟨p, .string, path⟩ comment 0
  modify fun s => { s with imports := spec :: s.imports }
  return spec

def valueSpec (self : Self) (keyword : Kind) (doc : Option CommentGroup) : Parse Spec := do
  let names ← commaList ident
  let values : Parse (List Expr) := do
    if ← sees .assign then
      next
      exprList self true
    else return []
  let (t, vs) ←
    if keyword = .kwConst then
      if (← sees .eof) || (← sees .semicolon) || (← sees .rparen) then pure (none, [])
      else do
        let t ← self .type
        pure (t, ← values)
    else do
      let t ← if ← sees .assign then pure none else pure (some (← type self))
      pure (t, ← values)
  let comment ← expectSemi
  return .value doc names t vs comment

/-- Whether an expression can only be meant as a type. -/
def isTypeElement : Expr → Bool
  | .arrayType .. | .structType .. | .funcType _ | .interfaceType .. | .mapType .. | .chanType .. =>
    true
  | .binary x _ _ y => isTypeElement x || isTypeElement y
  | .unary _ op _ => op = .tilde
  | .paren _ x _ => isTypeElement x
  | _ => false

/-- Splits an expression into a type parameter's name and its constraint, if it can be read so; a
constraint that might be an expression counts only if `force` is set. -/
def extractName (x : Expr) (force : Bool) : Option (Ident × Option Expr) :=
  match x with
  | .ident i => some (i, none)
  | .binary (.ident i) p .mul y =>
    if force || isTypeElement y then some (i, some (.star p y)) else none
  | .binary l p .or y =>
    match extractName l (force || isTypeElement y) with
    | some (i, some lhs) => some (i, some (.binary lhs p .or y))
    | _ => none
  | .call (.ident i) lparen [arg] 0 rparen =>
    if force || isTypeElement arg then some (i, some (.paren lparen arg rparen)) else none
  | _ => none

/-- What follows the name and the equals sign, if any, of a type declaration. -/
def aliasOrType (self : Self) : Parse (Pos × Expr) := do
  let assign ←
    if ← sees .assign then do
      let p ← pos
      next
      pure p
    else pure 0
  return (assign, ← type self)

def typeSpec (self : Self) (doc : Option CommentGroup) : Parse Spec := do
  let name ← ident
  let (params, assign, t) ←
    if ← sees .lbrack then do
      let lbrack ← pos
      next
      if ← sees .ident then do
        let i ← ident
        let x ←
          if ← sees .lbrack then pure (.ident i)
          else withLevel do
            let lhs ← primary self (some (.ident i))
            binary self (some lhs) 1
        let more ← sees .comma
        let closed ← sees .rbrack
        match extractName x more with
        | some (pname, ptype) =>
          if ptype.isSome || !closed then do
            let list ← paramList self (some pname) ptype .rbrack false
            let rbrack ← expect .rbrack
            let (assign, t) ← aliasOrType self
            pure (some (.mk lbrack list rbrack), assign, t)
          else pure (none, 0, ← arrayType self lbrack (some x))
        | none => pure (none, 0, ← arrayType self lbrack (some x))
      else pure (none, 0, ← arrayType self lbrack none)
    else do
      let (assign, t) ← aliasOrType self
      pure (none, assign, t)
  let comment ← expectSemi
  return .type doc name params assign t comment

def genDecl (keyword : Kind) (spec : Option CommentGroup → Parse Spec) : Parse Decl := do
  let doc ← leadComment
  let p ← expect keyword
  if ← sees .lparen then
    let lparen ← pos
    next
    let mut specs := []
    for _ in [0:(← bound)] do
      if (← sees .rparen) || (← sees .eof) then break
      specs := (← spec (← leadComment)) :: specs
    let rparen ← expect .rparen
    let _ ← expectSemi
    return .gen doc p keyword lparen specs.reverse rparen
  return .gen doc p keyword 0 [← spec none] 0

def funcDecl (self : Self) : Parse Decl := do
  let doc ← leadComment
  let p ← expect .kwFunc
  let recv ← if ← sees .lparen then pure (some (← parameters self true)) else pure none
  let name ← ident
  let tparams ← typeParameters self
  let params ← parameters self true
  let results ← result self
  let body ← match ← kind with
    | .lbrace =>
      let b ← self .block
      let _ ← expectSemi
      pure (some b)
    | .semicolon =>
      next
      if ← sees .lbrace then do
        error (← pos) "unexpected semicolon or newline before \x7b"
        let b ← self .block
        let _ ← expectSemi
        pure (some b)
      else pure none
    | _ =>
      let _ ← expectSemi
      pure none
  return .func doc recv name (.mk p tparams params results) body

def decl (self : Self) (sync : Kind → Bool) : Parse Decl := do
  match ← kind with
  | .kwImport => genDecl .kwImport importSpec
  | .kwConst => genDecl .kwConst (valueSpec self .kwConst)
  | .kwVar => genDecl .kwVar (valueSpec self .kwVar)
  | .kwType => genDecl .kwType (typeSpec self)
  | .kwFunc => funcDecl self
  | _ =>
    let p ← pos
    errorExpected p "declaration"
    advance sync
    return .bad p (← pos)

def stmtGoal (self : Self) : Parse Stmt := do
  let k ← kind
  match k with
  | .kwConst | .kwType | .kwVar => return .decl (← decl self startsStatement)
  | .ident | .int | .float | .imag | .char | .string | .kwFunc | .lparen
  | .lbrack | .kwStruct | .kwMap | .kwChan | .kwInterface
  | .add | .sub | .mul | .and | .xor | .arrow | .not =>
    let (s, _) ← simpleStmt self .listed
    match s with
    | .labeled .. => return s
    | _ =>
      let _ ← expectSemi
      return s
  | .kwGo => goStmt self
  | .kwDefer => deferStmt self
  | .kwReturn => returnStmt self
  | .kwBreak | .kwContinue | .kwGoto | .kwFallthrough => branchStmt k
  | .lbrace =>
    let b ← self .block
    let _ ← expectSemi
    return .block b
  | .kwIf => self .ifThen
  | .kwSwitch => switchStmt self
  | .kwSelect => selectStmt self
  | .kwFor => forStmt self
  | .semicolon =>
    let p ← pos
    let implicit := (← literal) = "\n"
    next
    return .empty p implicit
  | .rbrace => return .empty (← pos) true
  | _ =>
    let p ← pos
    errorExpected p "statement"
    advance startsStatement
    return .bad p (← pos)

/-- The grammar: every production in terms of those one level deeper. -/
def grammar (self : Self) : Self
  | .binary least => binary self none least
  | .unary => unaryGoal self
  | .type => typeGoal self
  | .block => blockGoal self
  | .stmt => stmtGoal self
  | .ifThen => ifGoal self
  | .literalValue t => literalValue self t

/-- The grammar nested up to a depth, below which a parse is given up. -/
def nested : (depth : Nat) → Self
  | 0 => fun _ => gaveUp
  | depth + 1 => grammar (nested depth)

end Desugar.Host.Parse

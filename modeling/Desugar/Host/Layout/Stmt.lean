import Desugar.Host.Layout.Expr
import Desugar.Host.Walk
import Desugar.Text.Quoted

/-!
# Layout of statements and declarations
-/
namespace Desugar.Host.Layout

/-- A name, or a name of a package and a name in it. -/
def isTypeName : Expr → Bool
  | .ident _ => true
  | .selector x _ => isTypeName x
  | _ => false

/-- Whether an expression holds a composite literal of a named type outside of parentheses. -/
def holdsLiteral (depth : Nat) (x : Expr) : Bool :=
  let enters : Node → Bool
    | .expr (.paren ..) | .expr (.composite ..) => false
    | _ => true
  (Node.exprsOf (Node.walk enters depth (.expr x))).any fun
    | .composite (some t) .. => isTypeName t
    | _ => false

/-- An expression without the parentheses around it, if the head of a statement reads the same
without them. -/
def stripParens (depth : Nat) : Expr → Expr
  | .paren lparen x rparen =>
    if holdsLiteral depth x then .paren lparen x rparen else stripParens depth x
  | x => x

def strippedExpr (self : Self) (x : Expr) : Layout Unit := do
  expr self (stripParens ((← get).lines.size + 8) x)

def stmt (self : Self) (s : Stmt) : Layout Unit := self (.stmt s false)

/-- The head of a control statement. -/
def controlClause (self : Self) (isLoop : Bool) (init : Option Stmt) (cond : Option Expr)
    (post : Option Stmt) : Layout Unit := do
  blank
  let mut needsBlank := false
  if init.isNone && post.isNone then
    if let some x := cond then
      strippedExpr self x
      needsBlank := true
  else
    if let some s := init then stmt self s
    token .semicolon
    blank
    if let some x := cond then
      strippedExpr self x
      needsBlank := true
    if isLoop then
      token .semicolon
      blank
      needsBlank := false
      if let some s := post then
        stmt self s
        needsBlank := true
  if needsBlank then blank

/-- Whether a list looks better with all its lines indented: if an element does not start on the line
where the one before it ends. Elements of several lines that follow each other without a break stay
where they are, as they do between parentheses. -/
def indentsList : List Expr → Layout Bool
  | x :: y :: rest => do
    if (← lineOf x.stop) < (← lineOf y.pos) then return true
    indentsList (y :: rest)
  | _ => return false

/-! Declarations -/

/-- Characters that no import path has. -/
def notInPath : List Char := "!\"#$%&'()*,:;<=>?[\\]^\x7b|\x7d`\uFFFD".toList

/-- The path of an import in double quotes, if it is a proper one. -/
def importPath (l : Literal) : Literal :=
  match Text.unquote? (Text.utf8 l.value) with
  | none => l
  | some bs =>
    let path := Text.chars bs
    if path.isEmpty || path.any fun c => !Text.isPrintable c || Text.isSpace c || notInPath.contains c
    then l
    else { l with value := Text.quoteBytes bs }

/-- Which of some specifications keep an empty column for the type: in each run of specifications
with values, all do if one of the run has a type. -/
def keepsTypeColumn (specs : List Spec) : List Bool :=
  let typed : Spec → Bool
    | .value _ _ type _ _ => type.isSome
    | _ => false
  let valued : Spec → Bool
    | .value _ _ _ values _ => !values.isEmpty
    | _ => false
  (specs.splitBy fun a b => valued a == valued b).flatMap fun run =>
    let keeps := run.all valued && run.any typed
    run.map fun _ => keeps

/-- A specification in a group of variables or constants. -/
def valueSpec (self : Self) (names : List Ident) (type : Option Expr) (values : List Expr)
    (comment : Option CommentGroup) (keepsType : Bool) : Layout Unit := do
  identList self names false
  let mut tabs := 3
  if type.isSome || keepsType then
    softTab
    tabs := tabs - 1
  if let some t := type then expr self t
  unless values.isEmpty do
    softTab
    token .assign
    blank
    exprList self 0 values 1 {} 0
    tabs := tabs - 1
  if comment.isSome then
    for _ in [0:tabs] do softTab

/-- A specification; `single` says that it is the only one of its declaration. -/
def spec (self : Self) (s : Spec) (single indents : Bool) : Layout Unit := do
  match s with
  | .imports _ name path _ stop =>
    if let some i := name then
      expr self (.ident i)
      blank
    expr self (.literal (importPath path))
    setPos stop
  | .value _ names type values _ =>
    identList self names indents
    if let some t := type then
      blank
      expr self t
    unless values.isEmpty do
      blank
      token .assign
      blank
      exprList self 0 values 1 {} 0
  | .type _ name params assign type _ =>
    expr self (.ident name)
    if let some ps := params then parameters self ps .declTypeParams
    if single then blank else softTab
    unless assign = 0 do
      token .assign
      blank
    expr self type

def specGroup (self : Self) (k : Kind) (specs : List Spec) : Layout Unit := do
  indent
  formFeed
  let columns := 1 < specs.length && (k = .kwConst || k = .kwVar)
  let mut line : Option Nat := none
  for (s, keepsType) in specs.zip (keepsTypeColumn specs) do
    if line.isSome then
      let _ ← lineBreak (← lineOf s.pos) 1 .ignored (← leftLine line)
    line := some (← mark)
    match s with
    | .value _ names type values comment =>
      if columns then valueSpec self names type values comment keepsType
      else spec self s (specs.length = 1) false
    | _ => spec self s (specs.length = 1) false
  unindent
  formFeed

def genDecl (self : Self) (tokPos : Pos) (k : Kind) (lparen : Pos) (specs : List Spec)
    (rparen : Pos) : Layout Unit := do
  tokenAt tokPos k
  blank
  match lparen, specs with
  | 0, [s] => spec self s true true
  | _, _ =>
    tokenAt lparen .lparen
    unless specs.isEmpty do specGroup self k specs
    tokenAt rparen .rparen

def funcDecl (self : Self) (d : Decl) (recv : Option FieldList) (fn : Ident) (type : FuncType)
    (body : Option Block) : Layout Unit := do
  tokenAt d.pos .kwFunc
  blank
  -- the blank after the keyword is still held back
  let start := (← get).out.column - (width Kind.kwFunc.text + 1)
  if let some r := recv then
    parameters self r .params
    blank
  expr self (.ident fn)
  signature self type
  let head ← distanceFrom d.pos start
  if let some b := body then funcBody self head .softTab b

def decl (self : Self) (d : Decl) : Layout Unit := do
  match d with
  | .bad start _ =>
    setPos start
    placeholder "BadDecl"
  | .gen _ tokPos k lparen specs rparen => genDecl self tokPos k lparen specs rparen
  | .func _ recv fn type body => funcDecl self d recv fn type body

/-! Statements -/

def ifStmt (self : Self) (init : Option Stmt) (cond : Expr) (body : Block) (els : Option Stmt)
    (closes : Bool) : Layout Unit := do
  token .kwIf
  controlClause self false init (some cond) none
  block self body true
  match els with
  | none => pure ()
  | some e =>
    blank
    token .kwElse
    blank
    match e with
    | .block .. | .ifThen .. => self (.stmt e closes)
    | _ =>
      token .lbrace
      indent
      formFeed
      self (.stmt e true)
      unindent
      formFeed
      token .rbrace

def rangeStmt (self : Self) (key value : Option Expr) (tokPos : Pos) (k : Kind) (x : Expr)
    (body : Block) : Layout Unit := do
  token .kwFor
  blank
  match key with
  | none => pure ()
  | some key =>
    expr self key
    if let some v := value then
      tokenAt v.pos .comma
      blank
      expr self v
    blank
    tokenAt tokPos k
    blank
  token .kwRange
  blank
  strippedExpr self x
  blank
  block self body true

def returnStmt (self : Self) (results : List Expr) : Layout Unit := do
  token .kwReturn
  unless results.isEmpty do
    blank
    if ← indentsList results then
      indent
      exprList self 0 results 1 { flush := true } 0
      unindent
    else
      exprList self 0 results 1 {} 0

def labeledStmt (self : Self) (label : Ident) (colon : Pos) (s : Stmt) (closes : Bool) :
    Layout Unit := do
  unindent
  expr self (.ident label)
  tokenAt colon .colon
  indent
  match s with
  | .empty pos _ =>
    if closes then self (.stmt s closes)
    else
      newline
      tokenAt pos .semicolon
  | _ =>
    let _ ← lineBreak (← lineOf s.pos) 1 .ignored true
    self (.stmt s closes)

def stmtGoal (self : Self) (s : Stmt) (closes : Bool) : Layout Unit := do
  setPos s.pos
  match s with
  | .bad .. => placeholder "BadStmt"
  | .decl d => decl self d
  | .empty .. => pure ()
  | .labeled label colon inner => labeledStmt self label colon inner closes
  | .expr x => expr self x
  | .send chan arrow value =>
    expr self chan
    blank
    tokenAt arrow .arrow
    blank
    expr self value
  | .incDec x tokPos k =>
    exprAt self x 2
    tokenAt tokPos k
  | .assign lhs tokPos k rhs =>
    let depth := if 1 < lhs.length && 1 < rhs.length then 2 else 1
    exprList self s.pos lhs depth {} tokPos
    blank
    tokenAt tokPos k
    blank
    exprList self tokPos rhs depth {} 0
  | .go _ call =>
    token .kwGo
    blank
    expr self call
  | .defer _ call =>
    token .kwDefer
    blank
    expr self call
  | .ret _ results => returnStmt self results
  | .branch _ k label =>
    token k
    if let some l := label then
      blank
      expr self (.ident l)
  | .block b => block self b true
  | .ifThen _ init cond body els => ifStmt self init cond body els closes
  | .caseClause pos values colon body =>
    match values with
    | some vs =>
      token .kwCase
      blank
      exprList self pos vs 1 {} colon
    | none => token .kwDefault
    tokenAt colon .colon
    stmtList self body true closes
  | .switch _ init tag body =>
    token .kwSwitch
    controlClause self false init tag none
    block self body false
  | .typeSwitch _ init guard body =>
    token .kwSwitch
    if let some i := init then
      blank
      stmt self i
      token .semicolon
    blank
    stmt self guard
    blank
    block self body false
  | .commClause _ comm colon body =>
    match comm with
    | some c =>
      token .kwCase
      blank
      stmt self c
    | none => token .kwDefault
    tokenAt colon .colon
    stmtList self body true closes
  | .select _ body =>
    token .kwSelect
    blank
    let closing ← spotOf body.rbrace
    if body.list.isEmpty && !(← get).commentBefore closing then
      tokenAt body.lbrace .lbrace
      tokenAt body.rbrace .rbrace
    else block self body false
  | .forLoop _ init cond post body =>
    token .kwFor
    controlClause self true init cond post
    block self body true
  | .range _ key value tokPos k _ x body => rangeStmt self key value tokPos k x body

/-- Every layout in terms of those one level deeper. -/
def layouts (self : Self) : Self
  | .expr x precedence depth => exprGoal self x precedence depth
  | .stmt s closes => stmtGoal self s closes

/-- Layouts nested up to a depth, below which nothing is written. -/
def nested : (depth : Nat) → Self
  | 0 => fun _ => pure ()
  | depth + 1 => layouts (nested depth)

end Desugar.Host.Layout

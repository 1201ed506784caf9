import Desugar.Host.Layout.State

/-!
# Layout of expressions and types

Each part of a tree is laid out by a function of the layouts that it may reach again, given as
`self`. A part that has to be measured first is laid out on its own, by a fresh layout that follows
the same source.
-/
namespace Desugar.Host.Layout

/-- The parts through which a layout recurs. -/
inductive Goal where
  /-- An expression next to operators of the given precedence, so many operators deep. -/
  | expr (x : Expr) (precedence depth : Nat)
  /-- A statement; `closes` says that a closing brace follows. -/
  | stmt (s : Stmt) (closes : Bool)

abbrev Self := Goal → Layout Unit

def unaryPrecedence : Nat := 6
def highestPrecedence : Nat := 7

def exprAt (self : Self) (x : Expr) (depth : Nat) : Layout Unit := self (.expr x 0 depth)

def expr (self : Self) (x : Expr) : Layout Unit := exprAt self x 1

def Goal.key : Goal → NodeKey
  | .expr x .. => ⟨0, x.pos, x.stop⟩
  | .stmt s .. => ⟨1, s.pos, s.stop⟩

/-- A label steps back, so it needs an indentation to step back from. -/
def Goal.firstIndent : Goal → Nat
  | .stmt (.labeled ..) _ => 1
  | _ => 0

/-- Bytes that a part takes if it fits one line of at most `limit` bytes, and more than `limit`
otherwise. -/
def sizeOf (self : Self) (g : Goal) (limit : Nat) : Layout Nat := do
  let s ← get
  match s.sizes[g.key]? with
  | some size => return size
  | none =>
    let fresh : State :=
      { lines := s.lines, normalizes := false, indent := g.firstIndent
        sizes := s.sizes.insert g.key (limit + 1) }
    let (pieces, after) := ((do self g; finish) : Layout (Array Piece)).run fresh
    let size := match measure pieces.toList with
      | some size => if size ≤ limit then size else limit + 1
      | none => limit + 1
    set { s with sizes := after.sizes.insert g.key size }
    return size

def exprSize (self : Self) (x : Expr) (limit : Nat) : Layout Nat := sizeOf self (.expr x 0 1) limit

/-! Lists -/

/-- How a list of expressions is set. -/
structure ListStyle where
  /-- A comma ends the list if what follows stands on another line. -/
  closingComma : Bool := false
  /-- Further lines are not indented. -/
  flush : Bool := false

/-- Longer than any line. -/
def unlimited : Nat := 1000000

/-- Keys up to this size are aligned whatever their ratio. -/
def smallSize : Nat := 40

/-- How many units of a logarithm make one. It is a power of two above every size, so that logarithms
of sizes are exact. -/
def logUnit : Nat := 1048576

/-- The binary logarithm of a size, linear between powers of two, in units. -/
def logSize (size : Nat) : Nat :=
  size.log2 * logUnit + (size * logUnit / Nat.pow 2 size.log2 - logUnit)

/-- Whether a size is out of proportion to the mean of `count` sizes whose logarithms have the given
sum: by a factor of 2.5 or more either way. The mean is the size, linear between powers of two, that
has the mean logarithm. -/
def outOfProportion (size logSum count : Nat) : Bool :=
  let one := count * logUnit
  let mean := Nat.pow 2 (logSum / one) * (one + logSum % one)
  5 * size * one ≤ 2 * mean || 5 * mean ≤ 2 * size * one

def keyOf? : Expr → Option (Expr × Pos × Expr)
  | .keyValue key colon value => some (key, colon, value)
  | _ => none

/-- Elements on one line. -/
def flatList (self : Self) (list : List Expr) (depth : Nat) : Layout Unit := do
  let mut first := true
  for x in list do
    unless first do
      tokenAt x.pos .comma
      blank
    first := false
    exprAt self x depth

/-- Elements over several lines, which follow the line breaks of the source. Keys of elements that
take a line each are aligned as long as their sizes are in proportion. -/
def brokenList (self : Self) (before after : Spot) (list : List Expr) (depth : Nat)
    (style : ListStyle) : Layout Unit := do
  let firstLine ← lineOf ((list.head?.map Expr.pos).getD 0)
  let mut ws : Pending := if style.flush then .ignored else .indent
  -- index after which the last line break was, counted from 1, or 0
  let mut lastBreak := 0
  if before.isValid && before.line < firstLine then
    if 0 < (← lineBreak firstLine 0 ws true) then
      ws := .ignored
      lastBreak := 1
  let mut size := 0
  let mut logSum := 0
  let mut count := 0
  let mut previousLine := before.line
  let mut i := 0
  for x in list do
    let line ← lineOf x.pos
    let previousSize := size
    let whole ← exprSize self x unlimited
    let pair := keyOf? x
    if whole ≤ unlimited && before.isValid && after.isValid then
      match pair with
      | some (key, _, _) => size := ← exprSize self key unlimited
      | none => size := whole
    else
      size := 0
    let mut feeds := true
    if 0 < previousSize && 0 < size then
      if count = 0 || (previousSize ≤ smallSize && size ≤ smallSize) then feeds := false
      else feeds := outOfProportion size logSum count
    let breaks := 0 < previousLine && previousLine < line
    if 0 < i then
      unless breaks do setPos x.pos
      token .comma
      let mut needsBlank := true
      if breaks then
        let n ← lineBreak line 0 ws (feeds || lastBreak < i)
        if 0 < n then
          ws := .ignored
          lastBreak := i + 1
          needsBlank := false
        if 1 < n then
          logSum := 0
          count := 0
      if needsBlank then blank
    match pair with
    | some (key, colon, value) =>
      if 1 < list.length && 0 < size && breaks then
        expr self key
        tokenAt colon .colon
        softTab
        expr self value
      else exprAt self x depth
    | none => exprAt self x depth
    if 0 < size then
      logSum := logSum + logSize size
      count := count + 1
    previousLine := line
    i := i + 1
  let indented := ws = .ignored && !style.flush
  if style.closingComma && after.isValid && (← get).pos.line < after.line then
    token .comma
    if indented then unindent
    formFeed
  else if indented then unindent

/-- Elements between two positions of the source. -/
def exprList (self : Self) (before : Pos) (list : List Expr) (depth : Nat) (style : ListStyle)
    (after : Pos) : Layout Unit := do
  match list with
  | [] => pure ()
  | x :: _ =>
    let beforeSpot ← spotOf before
    let line ← lineOf x.pos
    let endLine ← lineOf (Expr.lastStop 0 list)
    if beforeSpot.isValid && beforeSpot.line = line && line = endLine then flatList self list depth
    else brokenList self beforeSpot (← spotOf after) list depth style

def identList (self : Self) (names : List Ident) (indents : Bool) : Layout Unit :=
  exprList self 0 (names.map .ident) 1 { flush := !indents } 0

/-! Parameters and fields -/

inductive ParamStyle where
  | params | funcTypeParams | declTypeParams
  deriving DecidableEq

/-- Whether an expression can only be a type. -/
def isTypeElement : Expr → Bool
  | .arrayType .. | .structType .. | .funcType _ | .interfaceType .. | .mapType .. | .chanType .. =>
    true
  | .unary _ op _ => op = .tilde
  | .binary x _ _ y => isTypeElement x || isTypeElement y
  | .paren _ x _ => isTypeElement x
  | _ => false

/-- Whether a name before the expression would read as one expression with it: as a product, or as a
call where a parenthesis follows the name. -/
def combinesWithName : Expr → Bool
  | .star _ x | .paren _ x _ => !isTypeElement x
  | .binary x _ _ y => combinesWithName x && !isTypeElement y
  | _ => false

def parameters (self : Self) (fields : FieldList) (style : ParamStyle) : Layout Unit := do
  tokenAt fields.opening (if style = .params then .lparen else .lbrack)
  unless fields.list.isEmpty do
    let mut previousLine ← lineOf fields.opening
    let mut ws : Pending := .indent
    let mut first := true
    for f in fields.list do
      let line ← lineOf f.pos
      let breaks := 0 < previousLine && previousLine < line
      unless first do
        unless breaks do setPos f.pos
        token .comma
      let broke ← if breaks then lineBreak line 0 ws true else pure 0
      if 0 < broke then ws := .ignored
      else unless first do blank
      first := false
      unless f.names.isEmpty do
        identList self f.names (ws = .indent)
        blank
      expr self f.type.unparen
      previousLine := ← lineOf f.stop
    let closing ← lineOf fields.closing
    if 0 < previousLine && previousLine < closing then
      token .comma
      let _ ← lineBreak closing 0 .ignored true
    else if style = .declTypeParams && fields.count = 1 &&
        (fields.list.head?.map fun f => combinesWithName f.type.unparen).getD false then
      token .comma
    if ws = .ignored then unindent
  tokenAt fields.closing (if style = .params then .rparen else .rbrack)

def signature (self : Self) (t : FuncType) : Layout Unit := do
  if let some ps := t.typeParams then parameters self ps .funcTypeParams
  parameters self t.params .params
  match t.results with
  | none => pure ()
  | some results =>
    unless results.count = 0 do
      blank
      match results.list with
      | [f] =>
        if f.names.isEmpty then expr self f.type.unparen else parameters self results .params
      | _ => parameters self results .params

/-- A field list up to this size may stand on one line. -/
def fieldLimit : Nat := 30

/-- Whether the fields are one short field. -/
def isOneLine (self : Self) (list : List Field) : Layout Bool := do
  match list with
  | [f] =>
    if f.tag.isSome || f.comment.isSome then return false
    let size ← exprSize self f.type fieldLimit
    return (if f.names.isEmpty then 0 else 1) + size ≤ fieldLimit
  | _ => return false

/-- A method, without the keyword. -/
def method (self : Self) (i : Ident) (type : Expr) : Layout Unit := do
  expr self (.ident i)
  match type with
  | .funcType t => signature self t
  | t => expr self t

def oneLineFields (self : Self) (fields : FieldList) (isStruct : Bool) : Layout Unit := do
  tokenAt fields.opening .lbrace
  blank
  match fields.list with
  | f :: _ =>
    if isStruct then
      let mut first := true
      for i in f.names do
        unless first do
          token .comma
          blank
        first := false
        expr self (.ident i)
      unless f.names.isEmpty do blank
      expr self f.type
    else
      match f.names with
      | i :: _ => method self i f.type
      | [] => expr self f.type
  | [] => pure ()
  blank
  tokenAt fields.closing .rbrace

def structFields (self : Self) (list : List Field) : Layout Unit := do
  let single := list.length = 1
  let separator : Layout Unit := if single then blank else softTab
  let mut line : Option Nat := none
  for f in list do
    if line.isSome then
      let _ ← lineBreak (← lineOf f.pos) 1 .ignored (← leftLine line)
    line := some (← mark)
    if f.names.isEmpty then expr self f.type
    else
      identList self f.names false
      separator
      expr self f.type
    match f.tag with
    | some tag =>
      if !f.names.isEmpty && !single then separator
      separator
      expr self (.literal tag)
    | none =>
      if f.comment.isSome then
        separator
        if f.names.isEmpty then separator

def interfaceMethods (self : Self) (list : List Field) : Layout Unit := do
  let mut line : Option Nat := none
  for f in list do
    if line.isSome then
      let _ ← lineBreak (← lineOf f.pos) 1 .ignored (← leftLine line)
    line := some (← mark)
    match f.names with
    | i :: _ => method self i f.type
    | [] => expr self f.type

/-- The fields of a struct or the methods of an interface. -/
def fieldList (self : Self) (fields : FieldList) (isStruct : Bool) : Layout Unit := do
  let closing ← spotOf fields.closing
  let hasComments := (← get).commentBefore closing
  let sameLine := fields.opening ≠ 0 && fields.closing ≠ 0 &&
    (← lineOf fields.opening) = (← lineOf fields.closing)
  if !hasComments && sameLine then
    if fields.list.isEmpty then
      tokenAt fields.opening .lbrace
      tokenAt fields.closing .rbrace
      return
    if ← isOneLine self fields.list then
      oneLineFields self fields isStruct
      return
  blank
  tokenAt fields.opening .lbrace
  indent
  if hasComments || !fields.list.isEmpty then formFeed
  if isStruct then structFields self fields.list else interfaceMethods self fields.list
  unindent
  formFeed
  tokenAt fields.closing .rbrace

/-! Operators -/

/-- Whether operators of precedences 4 and 5 occur in an expression without parentheses between, and
the highest precedence at which two operators would touch and read as another one. -/
def operators : Expr → Bool × Bool × Nat
  | .binary x _ op y =>
    let own : Bool × Bool × Nat := (op.precedence == 4, op.precedence == 5, 0)
    let merge := fun (a b : Bool × Bool × Nat) => (a.1 || b.1, a.2.1 || b.2.1, max a.2.2 b.2.2)
    let left := match x with
      | .binary _ _ op' _ =>
        if op'.precedence < op.precedence then own else merge own (operators x)
      | _ => own
    match y with
    | .binary _ _ op' _ =>
      if op'.precedence ≤ op.precedence then left else merge left (operators y)
    | .star .. => if op = .quo then (left.1, left.2.1, 5) else left
    | .unary _ op' _ =>
      match op, op' with
      | .quo, .mul | .and, .and | .and, .xor => (left.1, left.2.1, 5)
      | .add, .add | .sub, .sub => (left.1, left.2.1, max left.2.2 4)
      | _, _ => left
    | _ => left
  | _ => (false, false, 0)

/-- The precedence from which on operators have no blanks around them. -/
def cutoff (x : Expr) (depth : Nat) : Nat :=
  let (has4, has5, problem) := operators x
  if 0 < problem then problem + 1
  else if has4 && has5 then if depth = 1 then 5 else 4
  else if depth = 1 then 6
  else 4

/-- 0 if an expression is an operation of the given precedence, and 1 otherwise. -/
def stepDown (x : Expr) (precedence : Nat) : Nat :=
  match x with
  | .binary _ _ op _ => if op.precedence = precedence then 0 else 1
  | _ => 1

/-- Parentheses undo one level of depth. -/
def undoDepth (depth : Nat) : Nat := max (depth - 1) 1

def binary (self : Self) (x : Expr) (opPos : Pos) (op : Kind) (y : Expr) (outer cut depth : Nat) :
    Layout Unit := do
  let precedence := op.precedence
  if precedence < outer then
    token .lparen
    exprAt self (.binary x opPos op y) (undoDepth depth)
    token .rparen
    return
  let mut blanks : Bool := precedence < cut
  self (.expr x precedence (depth + stepDown x precedence))
  if blanks then blank
  let xLine := (← get).pos.line
  let yLine ← lineOf y.pos
  tokenAt opPos op
  let mut indented := false
  if xLine ≠ yLine && 0 < xLine && 0 < yLine then
    if 0 < (← lineBreak yLine 1 .indent true) then
      indented := true
      blanks := false
  if blanks then blank
  self (.expr y (precedence + 1) (depth + 1))
  if indented then unindent

/-- A selector; tells whether it stands on a line of its own and is still indented. -/
def selector (self : Self) (x : Expr) (sel : Ident) (depth : Nat) (isCalled : Bool) :
    Layout Bool := do
  self (.expr x highestPrecedence depth)
  token .period
  let line ← lineOf sel.pos
  let s ← get
  if s.pos.isValid && s.pos.line < line then
    indent
    newline
    setPos sel.pos
    name sel
    unless isCalled do unindent
    return true
  setPos sel.pos
  name sel
  return false

/-- A number in its standard form: letters in lower case, digits of hexadecimal numbers apart, and no
leading zeros in imaginary integers. -/
def normalNumber (l : Literal) : Literal :=
  let isNumber := l.kind = .int || l.kind = .float || l.kind = .imag
  let lowerLast (upper lower : Char) (cs : List Char) : List Char :=
    let after := cs.reverse.takeWhile (· ≠ upper)
    if after.length = cs.length then cs
    else cs.take (cs.length - after.length - 1) ++ lower :: after.reverse
  let normal : List Char → List Char
    | '0' :: 'X' :: rest | '0' :: 'x' :: rest => '0' :: 'x' :: lowerLast 'P' 'p' rest
    | '0' :: 'O' :: rest => '0' :: 'o' :: rest
    | '0' :: 'B' :: rest => '0' :: 'b' :: rest
    | '0' :: 'o' :: rest => '0' :: 'o' :: rest
    | '0' :: 'b' :: rest => '0' :: 'b' :: rest
    | cs =>
      if cs.contains 'E' then lowerLast 'E' 'e' cs
      else if cs.getLast? = some 'i' && !cs.contains '.' && !cs.contains 'e' then
        match cs.dropWhile fun c => c = '0' || c = '_' with
        | ['i'] => ['0', 'i']
        | cs => cs
      else cs
  if isNumber && 2 ≤ l.value.length then
    { l with value := String.ofList (normal l.value.toList) }
  else l

/-! Bodies of functions -/

/-- A function with its body up to this size may stand on one line. -/
def bodyLimit : Nat := 100

/-- Most statements of a body on one line. -/
def bodyStatements : Nat := 5

/-- Size of a body on one line, or more than the limit if it should not be on one. -/
def bodySize (self : Self) (b : Block) : Layout Nat := do
  if b.lbrace ≠ 0 && b.rbrace ≠ 0 && (← lineOf b.lbrace) ≠ (← lineOf b.rbrace) then
    return bodyLimit + 1
  if bodyStatements < b.list.length then return bodyLimit + 1
  let mut size ← commentSizeBefore (← spotOf b.rbrace)
  let mut first := true
  for s in b.list do
    if bodyLimit < size then break
    unless first do size := size + 2
    first := false
    size := size + (← sizeOf self (.stmt s false) bodyLimit)
  return size

def isEmptyStmt : Stmt → Bool
  | .empty .. => true
  | _ => false

/-- How many labels a statement has. -/
def labels : Stmt → Nat
  | .labeled _ _ s => labels s + 1
  | _ => 0

/-- Statements on lines of their own, without a line break after the last one. -/
def stmtList (self : Self) (list : List Stmt) (indents closes : Bool) : Layout Unit := do
  if indents then indent
  let mut line : Option Nat := none
  let mut i := 0
  for s in list do
    unless isEmptyStmt s do
      unless (← get).output.isEmpty do
        let _ ← lineBreak (← lineOf s.pos) 1 .ignored (i = 0 || !indents || (← leftLine line))
      let m ← mark
      line := some m
      self (.stmt s (closes && i + 1 = list.length))
      modify fun st => { st with marks := st.marks.modify m (· + labels s) }
      i := i + 1
  if indents then unindent

/-- A block, which always takes several lines. -/
def block (self : Self) (b : Block) (indents : Bool) : Layout Unit := do
  tokenAt b.lbrace .lbrace
  stmtList self b.list indents true
  let _ ← lineBreak (← lineOf b.rbrace) 1 .ignored true
  tokenAt b.rbrace .rbrace

/-- The body of a function whose head takes `headSize` bytes, or has no size if the source gives it
several lines. A short body stands on one line after `separator`. -/
def funcBody (self : Self) (headSize : Option Int) (separator : Pending) (b : Block) :
    Layout Unit := do
  let level := (← get).level
  modify fun s => { s with level := 0 }
  let size ← bodySize self b
  if headSize.any fun head => head + (size : Int) ≤ bodyLimit then
    hold separator
    tokenAt b.lbrace .lbrace
    unless b.list.isEmpty do
      blank
      let mut i := 0
      for s in b.list do
        unless i = 0 do
          token .semicolon
          blank
        i := i + 1
        self (.stmt s (i = b.list.length))
      blank
    noteOpen
    modify fun s => { s with noExtraBreak := !s.noExtraBreak }
    tokenAt b.rbrace .rbrace
    noteOpen
    modify fun s => { s with noExtraBreak := !s.noExtraBreak }
  else
    blank
    block self b true
  modify fun s => { s with level }

/-- Columns from `startColumn` up to here, if the source is still on the line of `start`. They are
negative where the layout broke a line that the source does not. -/
def distanceFrom (start : Pos) (startColumn : Nat) : Layout (Option Int) := do
  let s ← get
  let spot := s.lines.spot start
  return if start ≠ 0 && s.pos.isValid && spot.line = s.pos.line then
      some ((s.out.column : Int) - startColumn)
    else none

/-! Expressions -/

def isBinary : Expr → Bool
  | .binary .. => true
  | _ => false

def isParen : Expr → Bool
  | .paren .. => true
  | _ => false

/-- A type before parentheses that needs parentheses of its own. -/
def needsParens : Expr → Bool
  | .funcType _ => true
  | .chanType _ _ .recv _ => true
  | _ => false

def sliceExpr (self : Self) (x : Expr) (lbrack : Pos) (indices : List (Option Expr)) (rbrack : Pos)
    (depth : Nat) : Layout Unit := do
  self (.expr x highestPrecedence 1)
  tokenAt lbrack .lbrack
  let present := indices.filterMap id
  let blanks := depth ≤ 1 && 1 < present.length && present.any isBinary
  let mut previous : Option (Option Expr) := none
  for i in indices do
    match previous with
    | none => pure ()
    | some p =>
      if p.isSome && blanks then blank
      token .colon
      if i.isSome && blanks then blank
    match i with
    | some e => exprAt self e (depth + 1)
    | none => pure ()
    previous := some i
  tokenAt rbrack .rbrack

def callExpr (self : Self) (fn : Expr) (lparen : Pos) (args : List Expr) (ellipsis rparen : Pos)
    (depth : Nat) : Layout Unit := do
  let depth := if 1 < args.length then depth + 1 else depth
  let parens := needsParens fn
  if parens then token .lparen
  let indented ← match fn with
    | .selector x sel =>
      setPos fn.pos
      selector self x sel depth true
    | _ =>
      self (.expr fn highestPrecedence depth)
      pure false
  if parens then token .rparen
  tokenAt lparen .lparen
  if ellipsis ≠ 0 then
    exprList self lparen args depth {} ellipsis
    tokenAt ellipsis .ellipsis
    if rparen ≠ 0 && (← lineOf ellipsis) < (← lineOf rparen) then
      token .comma
      formFeed
  else
    exprList self lparen args depth { closingComma := true } rparen
  tokenAt rparen .rparen
  if indented then unindent

def compositeExpr (self : Self) (type : Option Expr) (lbrace : Pos) (elts : List Expr)
    (rbrace : Pos) (depth : Nat) : Layout Unit := do
  if let some t := type then self (.expr t highestPrecedence depth)
  modify fun s => { s with level := s.level + 1 }
  tokenAt lbrace .lbrace
  exprList self lbrace elts 1 { closingComma := true } rbrace
  let toggle : Layout Unit := do
    noteOpen
    modify fun s =>
      { s with
        noExtraBreak := !s.noExtraBreak
        noExtraBlank := if elts.isEmpty then s.noExtraBlank else !s.noExtraBlank }
  indent
  unindent
  toggle
  tokenAt rbrace .rbrace
  toggle
  modify fun s => { s with level := s.level - 1 }

def exprGoal (self : Self) (e : Expr) (outer depth : Nat) : Layout Unit := do
  setPos e.pos
  match e with
  | .bad .. => placeholder "BadExpr"
  | .ident i => name i
  | .binary x opPos op y => binary self x opPos op y outer (cutoff e depth) depth
  | .keyValue key colon value =>
    expr self key
    tokenAt colon .colon
    blank
    expr self value
  | .star _ x =>
    if unaryPrecedence < outer then
      token .lparen
      token .mul
      expr self x
      token .rparen
    else
      token .mul
      expr self x
  | .unary _ op x =>
    if unaryPrecedence < outer then
      token .lparen
      expr self e
      token .rparen
    else
      token op
      if op = .kwRange then blank
      self (.expr x unaryPrecedence depth)
  | .literal l => literal (if (← get).normalizes then normalNumber l else l)
  | .funcLit type body =>
    setPos type.pos
    token .kwFunc
    let start := (← get).out.column - width Kind.kwFunc.text
    signature self type
    funcBody self (← distanceFrom type.pos start) .blank body
  | .paren _ x rparen =>
    if isParen x then exprAt self x depth
    else
      token .lparen
      exprAt self x (undoDepth depth)
      tokenAt rparen .rparen
  | .selector x sel =>
    let _ ← selector self x sel depth false
  | .typeAssert x lparen type rparen =>
    self (.expr x highestPrecedence depth)
    token .period
    tokenAt lparen .lparen
    match type with
    | some t => expr self t
    | none => token .kwType
    tokenAt rparen .rparen
  | .index x lbrack indices rbrack =>
    self (.expr x highestPrecedence 1)
    tokenAt lbrack .lbrack
    match indices with
    | [i] => exprAt self i (depth + 1)
    | _ => exprList self lbrack indices (depth + 1) { closingComma := true } rbrack
    tokenAt rbrack .rbrack
  | .slice x lbrack low high max _ rbrack =>
    sliceExpr self x lbrack ([low, high] ++ if max.isSome then [max] else []) rbrack depth
  | .call fn lparen args ellipsis rparen => callExpr self fn lparen args ellipsis rparen depth
  | .composite type lbrace elts rbrace => compositeExpr self type lbrace elts rbrace depth
  | .ellipsis _ elt =>
    token .ellipsis
    match elt with
    | some t => expr self t
    | none => pure ()
  | .arrayType _ len elt =>
    token .lbrack
    match len with
    | some n => expr self n
    | none => pure ()
    token .rbrack
    expr self elt
  | .structType _ fields =>
    token .kwStruct
    fieldList self fields true
  | .funcType t =>
    token .kwFunc
    signature self t
  | .interfaceType _ methods =>
    token .kwInterface
    fieldList self methods false
  | .mapType _ key value =>
    token .kwMap
    token .lbrack
    expr self key
    token .rbrack
    expr self value
  | .chanType _ arrow dir value =>
    match dir with
    | .both => token .kwChan
    | .recv =>
      token .arrow
      token .kwChan
    | .send =>
      token .kwChan
      tokenAt arrow .arrow
    blank
    expr self value

end Desugar.Host.Layout

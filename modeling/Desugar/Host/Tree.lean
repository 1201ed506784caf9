import Desugar.Host.Token

/-!
# Trees of the host language

The syntax tree of a source file. A position is the offset of a byte counted from 1; position 0 is
none. Every node keeps the positions that its layout and its messages need.
-/
namespace Desugar.Host

/-- The offset of a byte, counted from 1, or 0 for no position. -/
abbrev Pos := Nat

structure Ident where
  pos : Pos
  name : String
  deriving DecidableEq, Repr, Inhabited

/-- Length of a string in bytes. -/
abbrev width (s : String) : Nat := s.utf8ByteSize

def Ident.stop (i : Ident) : Pos := i.pos + width i.name

structure Comment where
  pos : Pos
  text : String
  deriving DecidableEq, Repr, Inhabited

def Comment.stop (c : Comment) : Pos := c.pos + width c.text

/-- Comments with nothing but blanks between them. -/
abbrev CommentGroup := List Comment

def groupPos (g : CommentGroup) : Pos := (g.head?.map Comment.pos).getD 0

def groupStop (g : CommentGroup) : Pos := (g.getLast?.map Comment.stop).getD 0

/-- A literal as it is spelt. -/
structure Literal where
  pos : Pos
  kind : Kind
  value : String
  deriving DecidableEq, Repr, Inhabited

def Literal.stop (l : Literal) : Pos := l.pos + width l.value

inductive ChanDir where
  | both | send | recv
  deriving DecidableEq, Repr, Inhabited

mutual

inductive Expr where
  | bad (start stop : Pos)
  | ident (i : Ident)
  | ellipsis (pos : Pos) (elt : Option Expr)
  | literal (l : Literal)
  | funcLit (type : FuncType) (body : Block)
  | composite (type : Option Expr) (lbrace : Pos) (elts : List Expr) (rbrace : Pos)
  | paren (lparen : Pos) (x : Expr) (rparen : Pos)
  | selector (x : Expr) (sel : Ident)
  | index (x : Expr) (lbrack : Pos) (indices : List Expr) (rbrack : Pos)
  | slice (x : Expr) (lbrack : Pos) (low high max : Option Expr) (full : Bool) (rbrack : Pos)
  | typeAssert (x : Expr) (lparen : Pos) (type : Option Expr) (rparen : Pos)
  | call (fn : Expr) (lparen : Pos) (args : List Expr) (ellipsis : Pos) (rparen : Pos)
  | star (pos : Pos) (x : Expr)
  | unary (pos : Pos) (op : Kind) (x : Expr)
  | binary (x : Expr) (opPos : Pos) (op : Kind) (y : Expr)
  | keyValue (key : Expr) (colon : Pos) (value : Expr)
  | arrayType (lbrack : Pos) (len : Option Expr) (elt : Expr)
  | structType (pos : Pos) (fields : FieldList)
  | funcType (type : FuncType)
  | interfaceType (pos : Pos) (methods : FieldList)
  | mapType (pos : Pos) (key value : Expr)
  | chanType (start arrow : Pos) (dir : ChanDir) (value : Expr)

/-- A signature; `func` is 0 for methods of interfaces. -/
inductive FuncType where
  | mk (func : Pos) (typeParams : Option FieldList) (params : FieldList) (results : Option FieldList)

inductive FieldList where
  | mk (opening : Pos) (list : List Field) (closing : Pos)

inductive Field where
  | mk (doc : Option CommentGroup) (names : List Ident) (type : Expr) (tag : Option Literal)
    (comment : Option CommentGroup)

inductive Block where
  | mk (lbrace : Pos) (list : List Stmt) (rbrace : Pos)

inductive Stmt where
  | bad (start stop : Pos)
  | decl (d : Decl)
  | empty (pos : Pos) (implicit : Bool)
  | labeled (label : Ident) (colon : Pos) (stmt : Stmt)
  | expr (x : Expr)
  | send (chan : Expr) (arrow : Pos) (value : Expr)
  | incDec (x : Expr) (tokPos : Pos) (tok : Kind)
  | assign (lhs : List Expr) (tokPos : Pos) (tok : Kind) (rhs : List Expr)
  | go (pos : Pos) (call : Expr)
  | defer (pos : Pos) (call : Expr)
  | ret (pos : Pos) (results : List Expr)
  | branch (tokPos : Pos) (tok : Kind) (label : Option Ident)
  | block (b : Block)
  | ifThen (pos : Pos) (init : Option Stmt) (cond : Expr) (body : Block) (els : Option Stmt)
  /-- A case with its values, or the default case. -/
  | caseClause (pos : Pos) (values : Option (List Expr)) (colon : Pos) (body : List Stmt)
  | switch (pos : Pos) (init : Option Stmt) (tag : Option Expr) (body : Block)
  | typeSwitch (pos : Pos) (init : Option Stmt) (guard : Stmt) (body : Block)
  | commClause (pos : Pos) (comm : Option Stmt) (colon : Pos) (body : List Stmt)
  | select (pos : Pos) (body : Block)
  | forLoop (pos : Pos) (init : Option Stmt) (cond : Option Expr) (post : Option Stmt) (body : Block)
  | range (pos : Pos) (key value : Option Expr) (tokPos : Pos) (tok : Kind) (rangePos : Pos)
    (x : Expr) (body : Block)

inductive Decl where
  | bad (start stop : Pos)
  | gen (doc : Option CommentGroup) (tokPos : Pos) (tok : Kind) (lparen : Pos) (specs : List Spec)
    (rparen : Pos)
  | func (doc : Option CommentGroup) (recv : Option FieldList) (name : Ident) (type : FuncType)
    (body : Option Block)

inductive Spec where
  /-- `stop` overrides where the path ends; 0 leaves it. -/
  | imports (doc : Option CommentGroup) (name : Option Ident) (path : Literal)
    (comment : Option CommentGroup) (stop : Pos)
  | value (doc : Option CommentGroup) (names : List Ident) (type : Option Expr) (values : List Expr)
    (comment : Option CommentGroup)
  | type (doc : Option CommentGroup) (name : Ident) (typeParams : Option FieldList) (assign : Pos)
    (type : Expr) (comment : Option CommentGroup)

end

instance : Inhabited Expr := ⟨.bad 0 0⟩
instance : Inhabited FieldList := ⟨.mk 0 [] 0⟩
instance : Inhabited FuncType := ⟨.mk 0 none default none⟩
instance : Inhabited Field := ⟨.mk none [] default none none⟩
instance : Inhabited Block := ⟨.mk 0 [] 0⟩
instance : Inhabited Stmt := ⟨.bad 0 0⟩
instance : Inhabited Decl := ⟨.bad 0 0⟩
instance : Inhabited Spec := ⟨.value none [] none [] none⟩

namespace FuncType
def func : FuncType → Pos | mk f .. => f
def typeParams : FuncType → Option FieldList | mk _ t .. => t
def params : FuncType → FieldList | mk _ _ p _ => p
def results : FuncType → Option FieldList | mk _ _ _ r => r
end FuncType

namespace FieldList
def opening : FieldList → Pos | mk o .. => o
def list : FieldList → List Field | mk _ l _ => l
def closing : FieldList → Pos | mk _ _ c => c
end FieldList

namespace Field
def doc : Field → Option CommentGroup | mk d .. => d
def names : Field → List Ident | mk _ n .. => n
def type : Field → Expr | mk _ _ t .. => t
def tag : Field → Option Literal | mk _ _ _ t _ => t
def comment : Field → Option CommentGroup | mk _ _ _ _ c => c
end Field

/-- How many parameters a list declares; one without a name counts once. -/
def FieldList.count (l : FieldList) : Nat :=
  l.list.foldl (fun n f => n + max 1 f.names.length) 0

namespace Block
def lbrace : Block → Pos | mk l .. => l
def list : Block → List Stmt | mk _ l _ => l
def rbrace : Block → Pos | mk _ _ r => r
end Block

/-! Where nodes start and stop -/

def Expr.pos : Expr → Pos
  | bad start _ => start
  | ident i => i.pos
  | ellipsis pos _ => pos
  | literal l => l.pos
  | funcLit type _ => type.func
  | composite type lbrace .. =>
    match type with
    | some t => t.pos
    | none => lbrace
  | paren lparen .. => lparen
  | selector x _ => x.pos
  | index x .. => x.pos
  | slice x .. => x.pos
  | typeAssert x .. => x.pos
  | call fn .. => fn.pos
  | star pos _ => pos
  | unary pos .. => pos
  | binary x .. => x.pos
  | keyValue key .. => key.pos
  | arrayType lbrack .. => lbrack
  | structType pos _ => pos
  | funcType t => if t.func = 0 then t.params.opening else t.func
  | interfaceType pos _ => pos
  | mapType pos .. => pos
  | chanType start .. => start

def Field.pos (f : Field) : Pos :=
  match f.names with
  | n :: _ => n.pos
  | [] => f.type.pos

def FieldList.pos (l : FieldList) : Pos :=
  if l.opening ≠ 0 then l.opening
  else match l.list with
    | f :: _ => f.pos
    | [] => 0

mutual

def Expr.stop : Expr → Pos
  | .bad _ stop => stop
  | .ident i => i.stop
  | .ellipsis pos elt =>
    match elt with
    | some e => e.stop
    | none => pos + 3
  | .literal l => l.stop
  | .funcLit _ body => body.stop
  | .composite _ _ _ rbrace => rbrace + 1
  | .paren _ _ rparen => rparen + 1
  | .selector _ sel => sel.stop
  | .index _ _ _ rbrack => rbrack + 1
  | .slice _ _ _ _ _ _ rbrack => rbrack + 1
  | .typeAssert _ _ _ rparen => rparen + 1
  | .call _ _ _ _ rparen => rparen + 1
  | .star _ x => x.stop
  | .unary _ _ x => x.stop
  | .binary _ _ _ y => y.stop
  | .keyValue _ _ value => value.stop
  | .arrayType _ _ elt => elt.stop
  | .structType _ fields => fields.stop
  | .funcType t => t.stop
  | .interfaceType _ methods => methods.stop
  | .mapType _ _ value => value.stop
  | .chanType _ _ _ value => value.stop

def FuncType.stop : FuncType → Pos
  | .mk _ _ params results =>
    match results with
    | some r => r.stop
    | none => params.stop

def FieldList.stop : FieldList → Pos
  | .mk _ list closing => if closing ≠ 0 then closing + 1 else Field.lastStop list

def Field.lastStop : List Field → Pos
  | [] => 0
  | [f] => f.stop
  | _ :: rest => Field.lastStop rest

def Field.stop : Field → Pos
  | .mk _ _ type tag _ =>
    match tag with
    | some t => t.stop
    | none => type.stop

def Block.stop : Block → Pos
  | .mk lbrace list rbrace =>
    if rbrace ≠ 0 then rbrace + 1 else Stmt.lastStop (lbrace + 1) list

/-- Where the last of some statements stops, or `otherwise` without any. -/
def Stmt.lastStop (otherwise : Pos) : List Stmt → Pos
  | [] => otherwise
  | [s] => s.stop
  | _ :: rest => Stmt.lastStop otherwise rest

def Expr.lastStop (otherwise : Pos) : List Expr → Pos
  | [] => otherwise
  | [e] => e.stop
  | _ :: rest => Expr.lastStop otherwise rest

def Stmt.stop : Stmt → Pos
  | .bad _ stop => stop
  | .decl d => d.stop
  | .empty pos implicit => if implicit then pos else pos + 1
  | .labeled _ _ stmt => stmt.stop
  | .expr x => x.stop
  | .send _ _ value => value.stop
  | .incDec _ tokPos _ => tokPos + 2
  | .assign _ tokPos _ rhs => Expr.lastStop tokPos rhs
  | .go _ call => call.stop
  | .defer _ call => call.stop
  | .ret pos results => Expr.lastStop (pos + 6) results
  | .branch tokPos tok label =>
    match label with
    | some l => l.stop
    | none => tokPos + width tok.text
  | .block b => b.stop
  | .ifThen _ _ _ body els =>
    match els with
    | some s => s.stop
    | none => body.stop
  | .caseClause _ _ colon body => Stmt.lastStop (colon + 1) body
  | .switch _ _ _ body => body.stop
  | .typeSwitch _ _ _ body => body.stop
  | .commClause _ _ colon body => Stmt.lastStop (colon + 1) body
  | .select _ body => body.stop
  | .forLoop _ _ _ _ body => body.stop
  | .range _ _ _ _ _ _ _ body => body.stop

def Decl.stop : Decl → Pos
  | .bad _ stop => stop
  | .gen _ tokPos _ _ specs rparen => if rparen ≠ 0 then rparen + 1 else Spec.firstStop tokPos specs
  | .func _ _ _ type body =>
    match body with
    | some b => b.stop
    | none => type.stop

def Spec.firstStop (otherwise : Pos) : List Spec → Pos
  | [] => otherwise
  | s :: _ => s.stop

def Spec.stop : Spec → Pos
  | .imports _ _ path _ stop => if stop ≠ 0 then stop else path.stop
  | .value _ names type values _ =>
    let names := (names.getLast?.map Ident.stop).getD 0
    let type := match type with
      | some t => t.stop
      | none => names
    Expr.lastStop type values
  | .type _ _ _ _ type _ => type.stop

end

def Spec.pos : Spec → Pos
  | .imports _ name path _ _ =>
    match name with
    | some n => n.pos
    | none => path.pos
  | .value _ names .. => (names.head?.map Ident.pos).getD 0
  | .type _ name .. => name.pos

def Decl.pos : Decl → Pos
  | .bad start _ => start
  | .gen _ tokPos .. => tokPos
  | .func _ _ _ type _ => type.func

def Stmt.pos : Stmt → Pos
  | bad start _ => start
  | decl d => d.pos
  | empty pos _ => pos
  | labeled label .. => label.pos
  | expr x => x.pos
  | send chan .. => chan.pos
  | incDec x .. => x.pos
  | assign lhs tokPos .. =>
    match lhs with
    | e :: _ => e.pos
    | [] => tokPos
  | go pos _ => pos
  | defer pos _ => pos
  | ret pos _ => pos
  | branch tokPos .. => tokPos
  | block b => b.lbrace
  | ifThen pos .. => pos
  | caseClause pos .. => pos
  | switch pos .. => pos
  | typeSwitch pos .. => pos
  | commClause pos .. => pos
  | select pos _ => pos
  | forLoop pos .. => pos
  | range pos .. => pos

def FuncType.pos (t : FuncType) : Pos := if t.func = 0 then t.params.pos else t.func

/-- An expression without the parentheses around it. -/
def Expr.unparen : Expr → Expr
  | paren _ x _ => x.unparen
  | x => x

/-- Whether an expression is the blank name. -/
def Expr.isBlank (e : Expr) : Bool :=
  match e.unparen with
  | ident i => i.name = "_"
  | _ => false

/-- A source file. -/
structure File where
  /-- Position of the package keyword. -/
  package : Pos
  name : Ident
  decls : List Decl
  /-- Import specifications in the order in which they were read. -/
  imports : List Spec
  comments : List CommentGroup
  size : Nat
  deriving Inhabited

end Desugar.Host

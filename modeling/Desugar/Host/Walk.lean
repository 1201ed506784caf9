import Desugar.Host.Tree

/-!
# Walking a tree

The parts of a tree in the order in which they stand in the source, each before its own parts.
-/
namespace Desugar.Host

inductive Node where
  | expr (x : Expr)
  | stmt (s : Stmt)
  | decl (d : Decl)
  | spec (s : Spec)
  | fields (l : FieldList)
  | signature (t : FuncType)

namespace Node

def exprs (l : List Expr) : List Node := l.map .expr
def expr? (x : Option Expr) : List Node := x.toList.map .expr
def stmts (l : List Stmt) : List Node := l.map .stmt
def stmt? (s : Option Stmt) : List Node := s.toList.map .stmt
def fields? (l : Option FieldList) : List Node := l.toList.map .fields
def block (b : Block) : Node := .stmt (.block b)

/-- The parts of an expression. -/
def ofExpr : Expr → List Node
  | .bad .. | .ident _ | .literal _ => []
  | .ellipsis _ elt => expr? elt
  | .funcLit type body => [.signature type, block body]
  | .composite type _ elts _ => expr? type ++ exprs elts
  | .paren _ x _ => [.expr x]
  | .selector x _ => [.expr x]
  | .index x _ indices _ => .expr x :: exprs indices
  | .slice x _ low high max _ _ => .expr x :: expr? low ++ expr? high ++ expr? max
  | .typeAssert x _ type _ => .expr x :: expr? type
  | .call fn _ args _ _ => .expr fn :: exprs args
  | .star _ x => [.expr x]
  | .unary _ _ x => [.expr x]
  | .binary x _ _ y => [.expr x, .expr y]
  | .keyValue key _ value => [.expr key, .expr value]
  | .arrayType _ len elt => expr? len ++ [.expr elt]
  | .structType _ l => [.fields l]
  | .funcType type => [.signature type]
  | .interfaceType _ methods => [.fields methods]
  | .mapType _ key value => [.expr key, .expr value]
  | .chanType _ _ _ value => [.expr value]

/-- The parts of a statement. -/
def ofStmt : Stmt → List Node
  | .bad .. | .empty .. | .branch .. => []
  | .decl d => [.decl d]
  | .labeled _ _ s => [.stmt s]
  | .expr x => [.expr x]
  | .send chan _ value => [.expr chan, .expr value]
  | .incDec x _ _ => [.expr x]
  | .assign lhs _ _ rhs => exprs lhs ++ exprs rhs
  | .go _ call => [.expr call]
  | .defer _ call => [.expr call]
  | .ret _ results => exprs results
  | .block b => stmts b.list
  | .ifThen _ init cond body els => stmt? init ++ .expr cond :: block body :: stmt? els
  | .caseClause _ values _ body => exprs (values.getD []) ++ stmts body
  | .switch _ init tag body => stmt? init ++ expr? tag ++ [block body]
  | .typeSwitch _ init guard body => stmt? init ++ [.stmt guard, block body]
  | .commClause _ comm _ body => stmt? comm ++ stmts body
  | .select _ body => [block body]
  | .forLoop _ init cond post body => stmt? init ++ expr? cond ++ stmt? post ++ [block body]
  | .range _ key value _ _ _ x body => expr? key ++ expr? value ++ [.expr x, block body]

/-- The parts of a node. -/
def children : Node → List Node
  | expr x => ofExpr x
  | stmt s => ofStmt s
  | decl d =>
    match d with
    | .bad .. => []
    | .gen _ _ _ _ specs _ => specs.map .spec
    | .func _ recv _ type body => fields? recv ++ .signature type :: (body.toList.map block)
  | spec s =>
    match s with
    | .imports .. => []
    | .value _ _ type values _ => expr? type ++ exprs values
    | .type _ _ params _ type _ => fields? params ++ [.expr type]
  | fields l => l.list.map fun f => .expr f.type
  | signature t => fields? t.typeParams ++ .fields t.params :: fields? t.results

/-- A node and all parts below it down to the given depth, without those below nodes that are not to
be entered. -/
def walk (enters : Node → Bool) : (depth : Nat) → Node → List Node
  | 0, n => [n]
  | depth + 1, n => n :: if enters n then n.children.flatMap (walk enters depth) else []

/-- The expressions among nodes. -/
def exprsOf (nodes : List Node) : List Expr := nodes.filterMap fun
  | expr x => some x
  | _ => none

end Node

/-- All expressions of a file. -/
def File.exprs (f : File) : List Expr :=
  Node.exprsOf ((f.decls.map Node.decl).flatMap (Node.walk (fun _ => true) (2 * f.size + 8)))

end Desugar.Host

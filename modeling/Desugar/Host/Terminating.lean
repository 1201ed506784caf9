import Desugar.Host.Tree

/-!
# Statements that do not end

Control never gets behind a terminating statement. A loop without a condition is one if nothing in it
leaves it, and a choice is one if all of its parts are.
-/
namespace Desugar.Host

def Stmt.isEmpty : Stmt → Bool
  | empty .. => true
  | _ => false

/-- A default clause of a switch or of a select. -/
def Stmt.isDefault : Stmt → Bool
  | caseClause _ values _ _ => values.isNone
  | commClause _ comm _ _ => comm.isNone
  | _ => false

mutual

/-- Whether a break in a statement leaves the statement around it with some label, or one without a label
does so, where `bare` tells whether that leaves the same. -/
def Stmt.breaks (label : Option String) (bare : Bool) : Stmt → Bool
  | .labeled _ _ s => s.breaks label bare
  | .branch _ tok target =>
    tok = .kwBreak && match target with
      | none => bare
      | some i => label = some i.name
  | .block b => b.breaks label bare
  | .ifThen _ _ _ body els =>
    body.breaks label bare || match els with
      | some s => s.breaks label bare
      | none => false
  | .caseClause _ _ _ list => Stmt.anyBreaks label bare list
  | .commClause _ _ _ list => Stmt.anyBreaks label bare list
  | .switch _ _ _ body => body.breaks label false
  | .typeSwitch _ _ _ body => body.breaks label false
  | .select _ body => body.breaks label false
  | .forLoop _ _ _ _ body => body.breaks label false
  | .range _ _ _ _ _ _ _ body => body.breaks label false
  | .bad .. | .decl _ | .empty .. | .expr _ | .send .. | .incDec .. | .assign .. | .go .. | .defer ..
  | .ret .. => false

def Block.breaks (label : Option String) (bare : Bool) : Block → Bool
  | .mk _ list _ => Stmt.anyBreaks label bare list

def Stmt.anyBreaks (label : Option String) (bare : Bool) : List Stmt → Bool
  | [] => false
  | s :: rest => s.breaks label bare || Stmt.anyBreaks label bare rest

end

mutual

/-- Whether a statement, which may have a label, is terminating; `isPanic` tells calls that do not
return. -/
def Stmt.terminates (isPanic : Expr → Bool) (label : Option String) : Stmt → Bool
  | .labeled l _ s => s.terminates isPanic (some l.name)
  | .expr x => isPanic x.unparen
  | .ret .. => true
  | .branch _ tok _ => tok = .kwGoto || tok = .kwFallthrough
  | .block b => b.terminates isPanic
  | .ifThen _ _ _ body els =>
    body.terminates isPanic && match els with
      | some s => s.terminates isPanic none
      | none => false
  | .switch _ _ _ body => body.list.any Stmt.isDefault && body.allTerminate isPanic label
  | .typeSwitch _ _ _ body => body.list.any Stmt.isDefault && body.allTerminate isPanic label
  | .select _ body => body.allTerminate isPanic label
  | .forLoop _ _ cond _ body => cond.isNone && !body.breaks label true
  | .caseClause _ _ _ list => Stmt.lastTerminates isPanic list && !Stmt.anyBreaks label true list
  | .commClause _ _ _ list => Stmt.lastTerminates isPanic list && !Stmt.anyBreaks label true list
  | .bad .. | .decl _ | .empty .. | .send .. | .incDec .. | .assign .. | .go .. | .defer ..
  | .range .. => false

def Block.terminates (isPanic : Expr → Bool) : Block → Bool
  | .mk _ list _ => Stmt.lastTerminates isPanic list

/-- Whether all clauses of a choice are terminating and none leaves it. -/
def Block.allTerminate (isPanic : Expr → Bool) (label : Option String) : Block → Bool
  | .mk _ list _ => Stmt.allTerminate isPanic label list

def Stmt.allTerminate (isPanic : Expr → Bool) (label : Option String) : List Stmt → Bool
  | [] => true
  | s :: rest => s.terminates isPanic label && Stmt.allTerminate isPanic label rest

/-- Whether the last statement that is not empty is terminating. -/
def Stmt.lastTerminates (isPanic : Expr → Bool) : List Stmt → Bool
  | [] => false
  | s :: rest =>
    if rest.all Stmt.isEmpty then s.terminates isPanic none else Stmt.lastTerminates isPanic rest

end

end Desugar.Host

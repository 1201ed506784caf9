import Desugar.Typing.Range
import Desugar.Typing.Switch

/-!
# Statements
-/
namespace Desugar.Typing

open Host (Expr Stmt Block Ident Kind Pos)

namespace Judge

def block (j : Judge) (flow : Flow) (b : Block) : Check Unit := withScope <| j.stmts flow b.list

/-- A statement in front of another one, where no branch makes sense. -/
def simpleStmt (j : Judge) (s : Option Stmt) : Check Unit :=
  match s with
  | some s => within (fun e => { e with flow := {} }) <| j.stmt s
  | none => return ()

/-- An expression of which only the effect counts. -/
def exprStmt (j : Judge) (e : Expr) : Check Unit := do
  let x ← j.raw e none false
  let text ← operandText x
  match x.mode, x.effect with
  | .builtin _, _ => report x.pos (text ++ " must be called")
  | .type, _ => report x.pos (text ++ " is not an expression")
  | _, .statement => return ()
  | _, _ => report x.pos (text ++ " is not used")

/-- A call that is put off by a keyword. -/
def suspendedCall (j : Judge) (word : String) (call : Expr) : Check Unit := do
  let x ← j.raw call none false
  let text ← operandText x
  match x.effect with
  | .statement => return ()
  | .conversion => report x.pos s!"{word} requires function call, not conversion {text}"
  | .none => report x.pos s!"{word} discards result of {text}"

/-- A value is sent to a channel. -/
def sendStmt (j : Judge) (chan : Expr) (arrow : Pos) (value : Expr) : Check Unit := do
  let c ← j.expr chan
  let sends : Ty → Bool
    | .chan d _ => d ≠ .recv
    | _ => false
  let t ← tables
  let type := t.common sends c.type
  let elem := match type with
    | .ok (.chan _ elem) => some elem
    | _ => none
  let x ← j.exprFor value elem "send"
  if c.isInvalid || x.isInvalid then return
  match type with
  | .ok (.chan _ elem) => discard <| j.assign x (some elem) "send"
  | .ok _ => return ()
  | .error discord =>
    let text ← operandText c
    let cause ← channelText discord "receive-only"
    report arrow ("invalid operation: cannot send to " ++
      if t.isParam c.type then text ++ ": " ++ cause else cause ++ " " ++ text)

/-- The condition of a statement is a truth value. -/
def condition (j : Judge) (e : Expr) (word : String) : Check Unit := do
  let x ← j.expr e
  if !x.isInvalid && !(← tables).allBasic Basic.isBoolean x.type then
    report e.pos s!"non-boolean condition in {word} statement"

/-- A return without values needs results that have names, of which none stands for something else. -/
def returnStmt (j : Judge) (pos : Pos) (es : List Expr) : Check Unit := do
  let around ← env
  let wanted := around.results.getD []
  let isNamed := wanted.head?.any fun r => r.1.name ≠ ""
  if es.isEmpty && isNamed then
    for (m, _) in wanted do
      let result ← inScope? around.function m.name
      let found ← lookup m.name
      if found.isSome && found ≠ result then
        report pos s!"result parameter {m.name} not in scope at return"
  else
    let result (r : Member × Ty) : Target :=
      .place (if r.1.name = "" then "result variable" else r.1.name) r.2
    j.initAll (wanted.map result) es (some pos)

/-- A branch without a label; those with one are checked with the labels of the body. -/
def branchStmt (pos : Pos) (tok : Kind) : Check Unit := do
  let flow := (← env).flow
  match tok with
  | .kwBreak => if !flow.canBreak then report pos "break is not in a loop, switch, or select"
  | .kwContinue => if !flow.canContinue then report pos "continue is not in a loop"
  | .kwFallthrough =>
    if !flow.canFallThrough then
      report pos (if flow.inLastClause then "cannot fallthrough final case in switch"
        else if flow.inTypeSwitch then "cannot fallthrough in type switch"
        else "fallthrough statement out of place")
  | _ => return ()

/-- What is done after each turn of a loop declares nothing. -/
def postStmt (j : Judge) (s : Option Stmt) : Check Unit := do
  j.simpleStmt s
  match s with
  | some (.assign lhs pos .define _) =>
    report ((lhs.head?.map Expr.pos).getD pos) "cannot declare in post statement"
    j.use lhs
  | _ => return ()

def plainStmt (j : Judge) (s : Stmt) : Check Unit := do
  let flow := (← env).flow.inner
  match s with
  | .bad .. | .empty .. | .caseClause .. | .commClause .. => return ()
  | .decl d => j.declStmt d
  | .labeled _ _ s => j.stmt s
  | .expr x => j.exprStmt x
  | .send chan arrow value => j.sendStmt chan arrow value
  | .incDec x pos tok => j.incDec x pos tok
  | .assign lhs pos tok rhs => j.assignStmt lhs pos tok rhs
  | .go _ call => j.suspendedCall "go" call
  | .defer _ call => j.suspendedCall "defer" call
  | .ret pos es => j.returnStmt pos es
  | .branch pos tok label => if label.isNone then branchStmt pos tok
  | .block b => j.block flow b
  | .ifThen _ init cond b els =>
    withScope do
      j.simpleStmt init
      j.condition cond "if"
      j.block flow b
      match els with
      | some s => within (fun e => { e with flow }) <| j.stmt s
      | none => return ()
  | .switch _ init tag b =>
    withScope do
      j.simpleStmt init
      j.switchStmt flow tag b
  | .typeSwitch _ init guard b =>
    withScope do
      j.simpleStmt init
      j.typeSwitch flow guard b
  | .select _ b => j.selectStmt flow b
  | .forLoop _ init cond post b =>
    withScope do
      j.simpleStmt init
      match cond with
      | some e => j.condition e "for"
      | none => pure ()
      j.postStmt post
      j.block { flow with canBreak := true, canContinue := true } b
  | .range _ key value tokPos tok _ x b =>
    j.rangeStmt { flow with canBreak := true, canContinue := true } key value tokPos tok x b

/-- Checks a statement, and then what waits in it. -/
def statement (j : Judge) (s : Stmt) : Check Unit := do
  let top := (← get).waiting.size
  j.plainStmt s
  j.drain top

end Judge
end Desugar.Typing

import Desugar.Host.Tree

/-!
# Expressions in messages

An expression on one line, as messages show it. The insides of functions and of composite values are
left out.
-/
namespace Desugar.Host

/-- The word before a channel's element. -/
def ChanDir.word : ChanDir → String
  | both => "chan "
  | send => "chan<- "
  | recv => "<-chan "

/-- Whether an element of a channel stands between parentheses. -/
def ChanDir.parenthesizes : ChanDir → Expr → Bool
  | both, .chanType _ _ .recv _ => true
  | _, _ => false

def Expr.isFuncType : Expr → Bool
  | funcType _ => true
  | _ => false

/-- Whether a list holds one field without a name. -/
def Field.isLone : List Field → Bool
  | [.mk _ [] _ _ _] => true
  | _ => false

mutual

/-- An expression on one line. -/
def Expr.summary : Expr → String
  | .bad .. => "BadExpr"
  | .ident i => i.name
  | .ellipsis _ elt => match elt with
    | some e => "..." ++ e.summary
    | none => "..."
  | .literal l => l.value
  | .funcLit type _ => "(func" ++ type.summary ++ " literal)"
  | .composite type _ elts _ =>
    (match type with
      | some t => t.summary
      | none => "") ++ (if elts.isEmpty then "\x7b\x7d" else "\x7b…\x7d")
  | .paren _ x _ => "(" ++ x.summary ++ ")"
  | .selector x sel => x.summary ++ "." ++ sel.name
  | .index x _ indices _ => x.summary ++ "[" ++ Expr.summaries indices ++ "]"
  | .slice x _ low high max full _ =>
    let third := match max with
      | some e => ":" ++ e.summary
      | none => if full then ":" else ""
    x.summary ++ "[" ++
      (match low with
        | some e => e.summary
        | none => "") ++ ":" ++
      (match high with
        | some e => e.summary
        | none => "") ++ third ++ "]"
  | .typeAssert x _ type _ => x.summary ++ ".(" ++
      (match type with
        | some t => t.summary
        | none => "type") ++ ")"
  | .call fn _ args ellipsis _ =>
    fn.summary ++ "(" ++ Expr.summaries args ++ (if ellipsis ≠ 0 then "..." else "") ++ ")"
  | .star _ x => "*" ++ x.summary
  | .unary _ op x => op.text ++ x.summary
  | .binary x _ op y => x.summary ++ " " ++ op.text ++ " " ++ y.summary
  | .keyValue key _ value => key.summary ++ ": " ++ value.summary
  | .arrayType _ len elt => "[" ++
      (match len with
        | some e => e.summary
        | none => "") ++ "]" ++ elt.summary
  | .structType _ fields => "struct\x7b" ++ fields.summary "; " false ++ "\x7d"
  | .funcType type => "func" ++ type.summary
  | .interfaceType _ methods => "interface\x7b" ++ methods.summary "; " true ++ "\x7d"
  | .mapType _ key value => "map[" ++ key.summary ++ "]" ++ value.summary
  | .chanType _ _ dir value =>
    let inner := value.summary
    if dir.parenthesizes value then dir.word ++ "(" ++ inner ++ ")" else dir.word ++ inner

/-- Expressions with commas between them. -/
def Expr.summaries : List Expr → String
  | [] => ""
  | [e] => e.summary
  | e :: rest => e.summary ++ ", " ++ Expr.summaries rest

/-- Parameters and results. -/
def FuncType.summary : FuncType → String
  | .mk _ _ params results =>
    "(" ++ params.summary ", " false ++ ")" ++
      match results with
      | none => ""
      | some r => r.resultSummary

def FieldList.resultSummary : FieldList → String
  | .mk _ list _ =>
    let inner := Field.summaries ", " false list
    if list.isEmpty then "" else if Field.isLone list then " " ++ inner else " (" ++ inner ++ ")"

def FieldList.summary (separator : String) (methods : Bool) : FieldList → String
  | .mk _ list _ => Field.summaries separator methods list

def Field.summaries (separator : String) (methods : Bool) : List Field → String
  | [] => ""
  | [f] => f.summary methods
  | f :: rest => f.summary methods ++ separator ++ Field.summaries separator methods rest

/-- Names and type of a field; a method shows its signature behind its name. -/
def Field.summary (methods : Bool) : Field → String
  | .mk _ names type _ _ =>
    let words := ", ".intercalate (names.map (·.name))
    let typeText := type.summary
    if names.isEmpty then typeText
    else if methods && type.isFuncType then words ++ String.ofList (typeText.toList.drop 4)
    else words ++ " " ++ typeText

end

end Desugar.Host

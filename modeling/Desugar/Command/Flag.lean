import Desugar.Text.Quoted

/-!
# Flags

The arguments of a command begin with its flags, `-name` or `--name`. A switch is on or off, and on if
nothing else is said; a text takes what follows an equals sign, or else the next argument. The flags end
before the first argument that is none, or with `--`.
-/
namespace Desugar.Command

/-- What a flag takes. -/
inductive FlagKind where
  | switch
  | text (default : String)
  deriving DecidableEq, Repr

structure Flag where
  name : String
  kind : FlagKind
  /-- What the flag is for. -/
  usage : String
  deriving DecidableEq, Repr

/-- Arguments sorted out: the last given value of a flag comes first. -/
structure Arguments where
  switches : List (String × Bool) := []
  texts : List (String × String) := []
  /-- What follows the flags. -/
  operands : List String := []
  deriving DecidableEq, Repr

namespace Arguments

def isOn (a : Arguments) (name : String) : Bool := (a.switches.lookup name).getD false

def text (a : Arguments) (name default : String) : String := (a.texts.lookup name).getD default

end Arguments

/-- Why arguments are refused. -/
inductive FlagFault where
  | badSyntax (argument : String)
  | undefined (name : String)
  | badSwitch (name value : String)
  | needsValue (name : String)
  /-- Nothing is wrong: the flags were asked for. -/
  | help
  deriving DecidableEq, Repr

def FlagFault.message : FlagFault → String
  | badSyntax argument => s!"bad flag syntax: {argument}\n"
  | undefined name => s!"flag provided but not defined: -{name}\n"
  | badSwitch name value => s!"invalid boolean value {Text.quote value} for -{name}: parse error\n"
  | needsValue name => s!"flag needs an argument: -{name}\n"
  | help => ""

/-- Words for the two positions of a switch. -/
def switchWords : List (String × Bool) :=
  [("1", true), ("t", true), ("T", true), ("TRUE", true), ("true", true), ("True", true),
    ("0", false), ("f", false), ("F", false), ("FALSE", false), ("false", false), ("False", false)]

/-- What an argument looks like. -/
inductive Shape where
  | operand
  /-- The mark after which there are no more flags. -/
  | stop
  | malformed
  | flag (name : String) (value : Option String)
  deriving DecidableEq, Repr

/-- A name and what follows its first equals sign. A name is not empty, and begins neither with an equals
sign nor with a third dash. -/
def Shape.ofName : List Char → Shape
  | [] | '-' :: _ | '=' :: _ => malformed
  | cs =>
    let name := String.ofList (cs.takeWhile (· ≠ '='))
    match cs.dropWhile (· ≠ '=') with
    | _ :: value => flag name (some (String.ofList value))
    | [] => flag name none

def Shape.ofArgument (argument : String) : Shape :=
  match argument.toList with
  | ['-', '-'] => stop
  | '-' :: '-' :: name => ofName name
  | ['-'] => operand
  | '-' :: name => ofName name
  | _ => operand

/-- Sorts arguments out, starting with those that are already known. -/
def parseFlags (flags : List Flag) : List String → Arguments → Except FlagFault Arguments
  | [], a => .ok a
  | argument :: rest, a =>
    match Shape.ofArgument argument with
    | .operand => .ok { a with operands := argument :: rest }
    | .stop => .ok { a with operands := rest }
    | .malformed => .error (.badSyntax argument)
    | .flag name value =>
      match flags.find? (·.name = name) with
      | none => .error (if name = "help" || name = "h" then .help else .undefined name)
      | some ⟨_, .switch, _⟩ =>
        match switchWords.lookup (value.getD "true") with
        | some b => parseFlags flags rest { a with switches := (name, b) :: a.switches }
        | none => .error (.badSwitch name (value.getD "true"))
      | some ⟨_, .text _, _⟩ =>
        match value with
        | some v => parseFlags flags rest { a with texts := (name, v) :: a.texts }
        | none =>
          match rest with
          | v :: rest => parseFlags flags rest { a with texts := (name, v) :: a.texts }
          | [] => .error (.needsValue name)

/-- A flag with what it takes and is for; the purpose of a switch of one letter fits on its line. -/
def Flag.describe (f : Flag) : String :=
  let head := match f.kind with
    | .switch => s!"  -{f.name}"
    | .text _ => s!"  -{f.name} string"
  let gap := if head.utf8ByteSize ≤ 4 then "\t" else "\n    \t"
  let preset := match f.kind with
    | .text d => if d = "" then "" else s!" (default {Text.quote d})"
    | .switch => ""
  s!"{head}{gap}{f.usage}{preset}\n"

/-- The flags of a command in ascending order. -/
def flagUsage (command : String) (flags : List Flag) : String :=
  let sorted := flags.mergeSort fun a b => a.name ≤ b.name
  s!"Usage of {command}:\n" ++ String.join (sorted.map Flag.describe)

end Desugar.Command

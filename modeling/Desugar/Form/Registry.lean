import Desugar.Form.Conditional
import Desugar.Form.Calls
import Desugar.Form.Interpolation
import Desugar.Form.MapLiteral

/-!
# Forms and their names

A form turns the tokens of an invocation's body into the tokens that replace the invocation. Forms
are looked up by name; a disabled one is known but not found.
-/
namespace Desugar

structure Form where
  name : String
  transform : Context → List Token → Except Failure (List Token × Context)

namespace Form

/-- A form from its grammar and its output. -/
def of {α : Type} (name : String) (parse : Span → List Token → Except Failure α)
    (emit : α → Context → List Token × Context) : Form :=
  { name, transform := fun ctx ts => (parse ctx.stop ts).map fun a => emit a ctx }

def builtins : List Form :=
  [ of "cxp" Conditional.parse Conditional.emit,
    of "elv" Elvis.parse Elvis.emit,
    of "ela" ElvisAssign.parse ElvisAssign.emit,
    of "suf" IncDec.parse IncDec.emit,
    of "hml" MapLiteral.parse MapLiteral.emit,
    of "map" MapLiteral.parse MapLiteral.emit,
    of "spr" Spread.parse Spread.emit,
    of "sin" Interpolation.parse Interpolation.emit,
    of "boo" Truthiness.parse Truthiness.emit ]

end Form

structure Registry where
  forms : List Form
  disabled : List String

namespace Registry

def standard : Registry := ⟨Form.builtins, []⟩

def known (r : Registry) (name : String) : Bool := r.forms.any (·.name = name)

/-- Adds a form under a name that is not taken. -/
def register (r : Registry) (f : Form) : Except Failure Registry :=
  if r.known f.name then .error (.plain s!"macro {Text.quote f.name} already registered")
  else .ok { r with forms := r.forms ++ [f] }

/-- Hides a form. -/
def disable (r : Registry) (name : String) : Except Failure Registry :=
  if r.known name then .ok { r with disabled := name :: r.disabled }
  else .error (.plain s!"unknown macro {Text.quote name}")

/-- The form of a name, unless it is disabled. -/
def lookup (r : Registry) (name : String) : Option Form :=
  if r.disabled.contains name then none else r.forms.find? (·.name = name)

/-- Names of the forms that can be found, in ascending order. -/
def names (r : Registry) : List String :=
  ((r.forms.map (·.name)).filter fun n => !r.disabled.contains n).mergeSort fun a b => a ≤ b

end Registry
end Desugar

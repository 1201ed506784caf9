import Desugar.Position

/-!
# Expansion contexts

All invocations of one file share a context: which packages the output has to import, which names
have been made up, and which invocations are conditionals.
-/
namespace Desugar

/-- Import paths of the packages that expanded code calls into. -/
structure Imports where
  sugar : String
  truth : String
  deriving DecidableEq, Repr

namespace Imports

def standard : Imports :=
  ⟨"github.com/orizon-lang/gosugar/sugar", "github.com/orizon-lang/gosugar/truth"⟩

/-- Paths that are left empty are the standard ones. -/
def orStandard (i : Imports) : Imports :=
  ⟨if i.sugar = "" then standard.sugar else i.sugar, if i.truth = "" then standard.truth else i.truth⟩

end Imports

/-- The name that a package is taken to have: the last element of its path, or the one before if
the last is a major version, with hyphens as underscores. -/
def packageName (path : String) : String :=
  let last := (Path.base path).toList
  let named := match last with
    | 'v' :: digits =>
      if !digits.isEmpty && digits.all Char.isDigit then (Path.base (Path.dir path)).toList else last
    | _ => last
  String.ofList (named.map fun c => if c = '-' then '_' else c)

structure Context where
  file : String
  /-- The invocation being transformed. -/
  span : Span := .none
  imports : Imports
  /-- Paths the output imports, without repetition. -/
  required : List String := []
  /-- How many names have been made up from each base. -/
  counters : List (String × Nat) := []
  /-- Invocations that are conditionals, in order. -/
  conditionals : List Span := []
  deriving DecidableEq, Repr

namespace Context

def start (file : String) (imports : Imports) : Context := { file, imports := imports.orStandard }

/-- Notes that the output imports a path; gives the package's name. -/
def require (c : Context) (path : String) : String × Context :=
  (packageName path,
    { c with required := if c.required.contains path then c.required else c.required ++ [path] })

def sugar (c : Context) : String × Context := c.require c.imports.sugar

def truth (c : Context) : String × Context := c.require c.imports.truth

/-- The required paths in ascending order. -/
def requiredPaths (c : Context) : List String := c.required.mergeSort fun a b => a ≤ b

/-- A name that no other call for this file gives: the base and how often it has been asked for. -/
def fresh (c : Context) (base : String) : String × Context :=
  let n := (c.counters.lookup base).getD 0 + 1
  (s!"{base}__{n}", { c with counters := (base, n) :: c.counters.filter (·.1 ≠ base) })

/-- Notes the current invocation as a conditional; gives its number, from 1. -/
def conditional (c : Context) : Nat × Context :=
  (c.conditionals.length + 1, { c with conditionals := c.conditionals ++ [c.span] })

/-- The invocation of a conditional by its number. -/
def conditionalSpan (c : Context) (n : Int) : Span :=
  if n < 1 then .none else c.conditionals.getD (n.toNat - 1) .none

/-- Where a missing last token is reported. -/
def stop (c : Context) : Span := .point c.span.stop

end Context
end Desugar

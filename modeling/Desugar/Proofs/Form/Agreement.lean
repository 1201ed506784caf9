import Desugar.Form.Registry

/-!
# What forms read of a context

A form reads the body of its invocation and the span of it, the import paths, and the numbers that made up
names and conditionals bear so far. Whether it fails, and how, depends on the body and the span alone, and
five of the nine forms never look at a number.
-/
namespace Desugar

/-- Two results are alike: both are errors and the same, or both are values that are related. -/
inductive Alike {α ε : Type} (R : α → α → Prop) : Except ε α → Except ε α → Prop where
  | ok {a b : α} (related : R a b) : Alike R (.ok a) (.ok b)
  | error (e : ε) : Alike R (.error e) (.error e)

namespace Context

/-- Two contexts agree on what forms read but the span, on the numbers only under a condition. -/
structure Agrees (imports : Imports) (numbers : Prop) (c c' : Context) : Prop where
  left : c.imports = imports
  right : c'.imports = imports
  counters : numbers → c.counters = c'.counters
  conditionals : numbers → c.conditionals.length = c'.conditionals.length

/-- Two computations from contexts that agree give the same and leave contexts that agree. -/
structure Parallel {α : Type} (imports : Imports) (numbers : Prop) (x y : α × Context) : Prop where
  same : x.1 = y.1
  agrees : x.2.Agrees imports numbers y.2
  span : x.2.span = y.2.span

variable {imports : Imports} {numbers : Prop} {c c' : Context}

theorem Agrees.require (agrees : c.Agrees imports numbers c') (span : c.span = c'.span) (path : String) :
    Parallel imports numbers (c.require path) (c'.require path) :=
  ⟨rfl, ⟨agrees.left, agrees.right, agrees.counters, agrees.conditionals⟩, span⟩

theorem Agrees.sugar (agrees : c.Agrees imports numbers c') (span : c.span = c'.span) :
    Parallel imports numbers c.sugar c'.sugar := by
  unfold Context.sugar
  rw [agrees.left, agrees.right]
  exact agrees.require span _

theorem Agrees.truth (agrees : c.Agrees imports numbers c') (span : c.span = c'.span) :
    Parallel imports numbers c.truth c'.truth := by
  unfold Context.truth
  rw [agrees.left, agrees.right]
  exact agrees.require span _

theorem Agrees.fresh (agrees : c.Agrees imports numbers c') (span : c.span = c'.span) (counted : numbers)
    (base : String) : Parallel imports numbers (c.fresh base) (c'.fresh base) := by
  unfold Context.fresh
  rw [agrees.counters counted]
  exact ⟨rfl, ⟨agrees.left, agrees.right, fun _ => rfl, agrees.conditionals⟩, span⟩

theorem Agrees.conditional (agrees : c.Agrees imports numbers c') (span : c.span = c'.span)
    (counted : numbers) : Parallel imports numbers c.conditional c'.conditional := by
  have length := agrees.conditionals counted
  unfold Context.conditional
  rw [length]
  exact ⟨rfl, ⟨agrees.left, agrees.right, agrees.counters, fun _ => by simp [length]⟩, span⟩

end Context

namespace Form

open Context

variable {imports : Imports} {numbers : Prop} {c c' : Context}

/-- The forms that make up names or numbers. -/
def numbered : List String := ["cxp", "elv", "hml", "map", "spr"]

theorem Conditional.emit_parallel (e : Conditional) (agrees : c.Agrees imports numbers c')
    (span : c.span = c'.span) (counted : numbers) : Parallel imports numbers (e.emit c) (e.emit c') := by
  have number := agrees.conditional span counted
  have truth := number.agrees.truth number.span
  unfold Conditional.emit
  dsimp only
  rw [number.same, truth.same, truth.span]
  exact ⟨rfl, truth.agrees, truth.span⟩

theorem ElvisAssign.emit_parallel (e : ElvisAssign) (agrees : c.Agrees imports numbers c')
    (span : c.span = c'.span) : Parallel imports numbers (e.emit c) (e.emit c') := by
  have truth := agrees.truth span
  unfold ElvisAssign.emit
  dsimp only
  rw [truth.same, truth.span]
  exact ⟨rfl, truth.agrees, truth.span⟩

theorem IncDec.emit_parallel (e : IncDec) (agrees : c.Agrees imports numbers c') (span : c.span = c'.span) :
    Parallel imports numbers (e.emit c) (e.emit c') := by
  have sugar := agrees.sugar span
  unfold IncDec.emit
  dsimp only
  rw [sugar.same, sugar.span]
  exact ⟨rfl, sugar.agrees, sugar.span⟩

theorem Truthiness.emit_parallel (e : Truthiness) (agrees : c.Agrees imports numbers c')
    (span : c.span = c'.span) : Parallel imports numbers (e.emit c) (e.emit c') := by
  have truth := agrees.truth span
  unfold Truthiness.emit
  dsimp only
  rw [truth.same, truth.span]
  exact ⟨rfl, truth.agrees, truth.span⟩

theorem Interpolation.emit_parallel (s : Interpolation) (agrees : c.Agrees imports numbers c')
    (span : c.span = c'.span) : Parallel imports numbers (s.emit c) (s.emit c') := by
  have fmt := agrees.require span "fmt"
  unfold Interpolation.emit
  dsimp only
  split
  · exact ⟨rfl, agrees, span⟩
  · rw [fmt.same, fmt.span]
    exact ⟨rfl, fmt.agrees, fmt.span⟩

theorem MapLiteral.emit_parallel (m : MapLiteral) (agrees : c.Agrees imports numbers c')
    (span : c.span = c'.span) (counted : numbers) : Parallel imports numbers (m.emit c) (m.emit c') := by
  have sugar := agrees.sugar span
  have name := agrees.fresh span counted "m"
  unfold MapLiteral.emit
  dsimp only
  rw [span]
  split
  · exact ⟨rfl, agrees, span⟩
  · exact ⟨rfl, agrees, span⟩
  · rw [sugar.same]
    exact ⟨rfl, sugar.agrees, sugar.span⟩
  · rw [name.same]
    exact ⟨rfl, name.agrees, name.span⟩

theorem Spread.emit_parallel (s : Spread) (agrees : c.Agrees imports numbers c') (span : c.span = c'.span)
    (counted : numbers) : Parallel imports numbers (s.emit c) (s.emit c') := by
  have sugar := agrees.sugar span
  have yield := sugar.agrees.fresh sugar.span counted "yield"
  have it := yield.agrees.fresh yield.span counted "it"
  unfold Spread.emit
  dsimp only
  rw [sugar.same, sugar.span]
  split
  · exact ⟨rfl, sugar.agrees, sugar.span⟩
  · rw [yield.same, it.same]
    exact ⟨rfl, it.agrees, it.span⟩

variable {α : Type} {name : String} {parse : Span → List Token → Except Failure α}
  {emit : α → Context → List Token × Context}

theorem of_alike (span : c.span = c'.span) (ts : List Token)
    (emission : ∀ a, Parallel imports numbers (emit a c) (emit a c')) :
    Alike (Parallel imports numbers) ((Form.of name parse emit).transform c ts)
      ((Form.of name parse emit).transform c' ts) := by
  change Alike _ ((parse c.stop ts).map fun a => emit a c) ((parse c'.stop ts).map fun a => emit a c')
  have stop : c.stop = c'.stop := by
    unfold Context.stop
    rw [span]
  rw [stop]
  cases parse c'.stop ts with
  | error f => exact .error f
  | ok a => exact .ok (emission a)

/-- A form does the same in contexts that agree, on the numbers only if it makes up some. -/
theorem transform_alike {f : Form} (known : f ∈ builtins) (agrees : c.Agrees imports numbers c')
    (span : c.span = c'.span) (counted : f.name ∈ numbered → numbers) (ts : List Token) :
    Alike (Parallel imports numbers) (f.transform c ts) (f.transform c' ts) := by
  simp only [builtins, List.mem_cons, List.not_mem_nil, or_false] at known
  rcases known with rfl | rfl | rfl | rfl | rfl | rfl | rfl | rfl | rfl <;> apply of_alike span ts
  · exact fun e => e.emit_parallel agrees span (counted (by decide))
  · exact fun e => Conditional.emit_parallel _ agrees span (counted (by decide))
  · exact fun e => e.emit_parallel agrees span
  · exact fun e => e.emit_parallel agrees span
  · exact fun e => e.emit_parallel agrees span (counted (by decide))
  · exact fun e => e.emit_parallel agrees span (counted (by decide))
  · exact fun e => e.emit_parallel agrees span (counted (by decide))
  · exact fun e => e.emit_parallel agrees span
  · exact fun e => e.emit_parallel agrees span

theorem of_error_iff (span : c.span = c'.span) (ts : List Token) (e : Failure) :
    (Form.of name parse emit).transform c ts = .error e ↔
      (Form.of name parse emit).transform c' ts = .error e := by
  change (parse c.stop ts).map _ = _ ↔ (parse c'.stop ts).map _ = _
  have stop : c.stop = c'.stop := by
    unfold Context.stop
    rw [span]
  rw [stop]
  cases parse c'.stop ts with
  | error f => rfl
  | ok a => exact ⟨nofun, nofun⟩

/-- How a form fails depends on the body and the span alone. -/
theorem transform_error_iff {f : Form} (known : f ∈ builtins) (span : c.span = c'.span)
    (ts : List Token) (e : Failure) : f.transform c ts = .error e ↔ f.transform c' ts = .error e := by
  simp only [builtins, List.mem_cons, List.not_mem_nil, or_false] at known
  rcases known with rfl | rfl | rfl | rfl | rfl | rfl | rfl | rfl | rfl <;> exact of_error_iff span ts e

end Form
end Desugar

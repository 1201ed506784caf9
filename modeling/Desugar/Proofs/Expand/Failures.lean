import Desugar.Proofs.Expand.Plain
import Desugar.Proofs.Form.Agreement
import Desugar.Proofs.Form.Complaints

/-!
# Invocations that fail

All invocations of a source are attempted in one context. What one of them leaves there for the next are
numbers only: how often names have been made up and how many conditionals there have been. So the complaints
about a source are those about its invocations, each expanded alone with the numbers reached before it, and
an invocation in which nothing takes a number fails as it does in a context in which nothing has been done.
-/
namespace Desugar

namespace Invocation

/-- A name directly before an exclamation mark, as that of an invocation is. -/
def Invokes (ts : List Token) (name : String) : Prop :=
  ∃ t bang, [t, bang] <:+: ts ∧ bang.kind = .not ∧ t.text = name

theorem Invokes.mono {ts us : List Token} {name : String} (invokes : Invokes ts name) (part : ts <:+: us) :
    Invokes us name := by
  obtain ⟨t, bang, front, mark, text⟩ := invokes
  exact ⟨t, bang, front.trans part, mark, text⟩

theorem Written.invokes {i : Invocation} {word : List Token} (written : Written i word) :
    Invokes word i.name.text ∧ i.body <:+: word := by
  cases written with
  | @intro name bang opener closer body named mark touches pair nested =>
    constructor
    · exact ⟨name, bang, ⟨[], opener :: (body ++ [closer]), rfl⟩, mark, rfl⟩
    · exact ⟨[name, bang, opener], [closer], by simp⟩

/-- The invocations that a stream is split at stand in it. -/
theorem written_of_mem_chunks {before ts : List Token} {chunk : List Token × Invocation}
    (member : chunk ∈ (splitFrom before ts).chunks) : ∃ word, Written chunk.2 word ∧ word <:+: ts := by
  fun_induction splitFrom before ts with
  | case1 => cases member
  | case2 before ts i rest front shorter s ih =>
    obtain ⟨word, written, rfl⟩ := (atFront_eq_some_iff _ _ _).mp front
    rcases List.mem_cons.mp member with rfl | member
    · exact ⟨word, written, (List.prefix_append word rest).isInfix⟩
    · obtain ⟨inner, written, part⟩ := ih member
      exact ⟨inner, written, part.trans (List.suffix_append word rest).isInfix⟩
  | case3 => cases member
  | case4 before t ts nothing ih =>
    obtain ⟨word, written, part⟩ := ih member
    exact ⟨word, written, part.trans (List.suffix_cons t ts).isInfix⟩

end Invocation

namespace Expander

open Context Invocation Form

/-! ## Expanders with the forms there are -/

section

variable {e : Expander}

/-- An expander with the forms there are, of which some may be disabled. -/
def IsBuiltin (e : Expander) : Prop := e.registry.forms = Form.builtins

theorem mem_of_lookup {r : Registry} {name : String} {form : Form} (found : r.lookup name = some form) :
    form ∈ r.forms := by
  unfold Registry.lookup at found
  split at found
  · cases found
  · exact List.mem_of_find?_eq_some found

theorem IsBuiltin.mem (builtin : e.IsBuiltin) {name : String} {form : Form}
    (found : e.registry.lookup name = some form) : form ∈ Form.builtins := builtin ▸ mem_of_lookup found

theorem lookup_name {r : Registry} {name : String} {form : Form} (found : r.lookup name = some form) :
    form.name = name := by
  unfold Registry.lookup at found
  split at found
  · cases found
  · simpa using List.find?_some found

/-- What a form does once the body of its invocation has been expanded. -/
def finish (i : Invocation) (form : Form) (body : List Token) : Expansion (List Token) := do
  let ctx := { (← get) with span := i.span }
  match form.transform ctx body with
  | .error f => throw f
  | .ok (out, ctx) =>
    set ctx
    trace s!"{i.name.span.start.render}: {i.name.text}! -> {Text.toString (renderTokens out)}"
    return out

theorem expandInvocation_eq {levels : Nat} {i : Invocation} {form : Form}
    (found : e.registry.lookup i.name.text = some form) : e.expandInvocation (levels + 1) i =
      expandStream (e.expandInvocation levels) i.body >>= finish i form := by
  unfold expandInvocation
  simp only [found]
  rfl

theorem finish_run (i : Invocation) (form : Form) (body : List Token) (ctx : Context)
    (log : Array String) : ((finish i form body).run.run ctx).run log =
      match form.transform { ctx with span := i.span } body with
      | .error f => ((.error f, ctx), log)
      | .ok (out, ctx') => ((.ok out, ctx'),
        log.push s!"{i.name.span.start.render}: {i.name.text}! -> {Text.toString (renderTokens out)}") := by
  change ((ExceptT.run (match form.transform { ctx with span := i.span } body with
    | .error f => throw f
    | .ok (out, ctx) => do
      set ctx
      Desugar.trace s!"{i.name.span.start.render}: {i.name.text}! -> {Text.toString (renderTokens out)}"
      return out : Expansion (List Token))).run ctx).run log = _
  cases form.transform { ctx with span := i.span } body with
  | error f => rfl
  | ok done => rfl

variable {file : String} {source out : Bytes} {ctx : Context} {log log' : Array String}

/-- A source that is expanded carries no directive that forbids it, can be read, and all its chunks expand. -/
theorem expanded_of_substitute (done : (e.substitute file source).run.run log = (.ok (out, ctx), log')) :
    ∃ ts chunks log₁, Directive.check e.version file source = none ∧ Lexer.lex file source = .ok ts ∧
      ((expandChunks (e.expandInvocation e.maxDepth) (split ts)).run.run (Context.start file e.imports)).run log =
        ((.ok chunks, ctx), log₁) ∧ out = splice source 0 (chunks.map (·.2)) := by
  unfold substitute at done
  cases checked : Directive.check e.version file source with
  | some f =>
    rw [checked] at done
    cases congrArg Prod.fst done
  | none =>
    cases read : Lexer.lex file source with
    | error f =>
      rw [checked, read] at done
      cases congrArg Prod.fst done
    | ok ts =>
      have lifted {α : Type} (a : α) : (liftM (Except.ok a : Except Failure α) : Traced α) = pure a := rfl
      simp only [checked, read, lifted, pure_bind] at done
      rw [ExceptT.run_bind, ExceptT.run_lift, StateT.run_bind, StateT.run_map] at done
      obtain ⟨⟨result, ctx₁⟩, log₁, run⟩ : ∃ result log₁, ((expandChunks (e.expandInvocation e.maxDepth)
        (split ts)).run.run (Context.start file e.imports)).run log = (result, log₁) := ⟨_, _, rfl⟩
      rw [run] at done
      cases result with
      | error f => cases congrArg Prod.fst done
      | ok chunks =>
        obtain ⟨rfl, rfl⟩ := Prod.mk.inj (Except.ok.inj (congrArg Prod.fst done))
        exact ⟨ts, chunks, log₁, rfl, rfl, run, rfl⟩

end

/-! Computations in contexts that agree -/

/-- A computation gives the same in contexts that agree, and leaves contexts that agree. -/
def Steady {α : Type} (imports : Imports) (numbers : Prop) (x : Expansion α) : Prop :=
  ∀ (c c' : Context) (log log' : Array String), c.Agrees imports numbers c' →
    ((x.run.run c).run log).1.1 = ((x.run.run c').run log').1.1 ∧
      ((x.run.run c).run log).1.2.Agrees imports numbers ((x.run.run c').run log').1.2

namespace Steady

variable {α β : Type} {imports : Imports} {numbers : Prop}

theorem pure (a : α) : Steady imports numbers (Pure.pure a) := fun _ _ _ _ agrees => ⟨rfl, agrees⟩

theorem throw (f : Failure) : Steady imports numbers (throw f : Expansion α) :=
  fun _ _ _ _ agrees => ⟨rfl, agrees⟩

theorem bind {x : Expansion α} {f : α → Expansion β} (first : Steady imports numbers x)
    (second : ∀ a, Steady imports numbers (f a)) : Steady imports numbers (x >>= f) := by
  intro c c' log log' agrees
  have before := first c c' log log' agrees
  rw [ExceptT.run_bind, StateT.run_bind, StateT.run_bind, StateT.run_bind, StateT.run_bind]
  generalize (x.run.run c).run log = done at before
  generalize (x.run.run c').run log' = done' at before
  obtain ⟨⟨result, d⟩, told⟩ := done
  obtain ⟨⟨result', d'⟩, told'⟩ := done'
  obtain ⟨rfl, agrees⟩ := before
  cases result with
  | error f => exact ⟨rfl, agrees⟩
  | ok a => exact second a d d' told told' agrees

theorem tried {x : Expansion α} (h : Steady imports numbers x) :
    Steady imports numbers (ExceptT.lift (ExceptT.run x)) := by
  intro c c' log log' agrees
  have before := h c c' log log' agrees
  rw [ExceptT.run_lift, StateT.run_map, StateT.run_map, StateT.run_map, StateT.run_map]
  exact ⟨congrArg Except.ok before.1, before.2⟩

theorem forIn {γ : Type} {step : γ → β → Expansion (ForInStep β)} (cs : List γ)
    (each : ∀ c ∈ cs, ∀ b, Steady imports numbers (step c b)) (b : β) :
    Steady imports numbers (ForIn.forIn cs b step) := by
  induction cs generalizing b with
  | nil => exact .pure b
  | cons c cs ih =>
    rw [List.forIn_cons]
    refine (each c (List.mem_cons_self ..) b).bind fun next => ?_
    cases next with
    | done b => exact .pure b
    | yield b => exact ih (fun c member => each c (List.mem_cons_of_mem _ member)) b

end Steady

variable {e : Expander} {imports : Imports} {numbers : Prop}

theorem expandChunks_steady {expandOne : Invocation → Expansion (List Token)} (s : Split)
    (each : ∀ chunk ∈ s.chunks, Steady imports numbers (expandOne chunk.2)) :
    Steady imports numbers (expandChunks expandOne s) := by
  unfold expandChunks
  refine (Steady.forIn _ (fun chunk member noted => ?_) _).bind fun noted => ?_
  · refine (each chunk member).tried.bind fun result => ?_
    cases result <;> exact .pure _
  · dsimp only
    split
    · exact .throw _
    · exact .pure _

theorem expandStream_steady {expandOne : Invocation → Expansion (List Token)} (ts : List Token)
    (each : ∀ chunk ∈ (split ts).chunks, Steady imports numbers (expandOne chunk.2)) :
    Steady imports numbers (expandStream expandOne ts) :=
  (expandChunks_steady _ each).bind fun _ => .pure _

theorem finish_steady {form : Form} (known : form ∈ builtins) (i : Invocation) (body : List Token)
    (counted : form.name ∈ numbered → numbers) : Steady imports numbers (finish i form body) := by
  intro c c' log log' agrees
  have spanned : Agrees imports numbers { c with span := i.span } { c' with span := i.span } :=
    ⟨agrees.left, agrees.right, agrees.counters, agrees.conditionals⟩
  have alike := transform_alike known spanned rfl counted body
  rw [finish_run, finish_run]
  generalize form.transform { c with span := i.span } body = result at alike
  generalize form.transform { c' with span := i.span } body = result' at alike
  cases alike with
  | error f => exact ⟨rfl, agrees⟩
  | ok related => exact ⟨congrArg Except.ok related.same, related.agrees⟩

theorem finish_error_iff (i : Invocation) (form : Form) (body : List Token) (ctx : Context)
    (log : Array String) (f : Failure) :
    (((finish i form body).run.run ctx).run log).1.1 = .error f ↔
      form.transform { ctx with span := i.span } body = .error f := by
  rw [finish_run]
  cases form.transform { ctx with span := i.span } body with
  | error g => simp
  | ok done => simp

/-- An invocation does the same in contexts that agree: on the numbers too, if a form that takes one is
invoked. -/
theorem expandInvocation_steady (builtin : e.IsBuiltin) (levels : Nat) (i : Invocation)
    (named : i.name.text ∈ numbered → numbers)
    (body : ∀ name ∈ numbered, Invokes i.body name → numbers) :
    Steady imports numbers (e.expandInvocation levels i) := by
  induction levels generalizing i with
  | zero => exact .throw _
  | succ levels ih =>
    cases found : e.registry.lookup i.name.text with
    | none =>
      unfold expandInvocation
      simp only [found]
      split <;> exact .throw _
    | some form =>
      rw [expandInvocation_eq found]
      refine (expandStream_steady i.body fun chunk member => ?_).bind fun body => ?_
      · obtain ⟨word, written, part⟩ := written_of_mem_chunks member
        obtain ⟨invokes, inside⟩ := written.invokes
        refine ih chunk.2 (fun used => ?_) fun name used inner => ?_
        · exact body _ used (invokes.mono part)
        · exact body name used (inner.mono (inside.trans part))
      · refine finish_steady (builtin.mem found) i body fun used => named ?_
        rwa [lookup_name found] at used

/-- How an invocation in which nothing takes a number fails depends on no number. -/
theorem expandInvocation_error_iff (builtin : e.IsBuiltin) (levels : Nat) (i : Invocation)
    (free : ∀ name ∈ numbered, ¬ Invokes i.body name) {c c' : Context} (left : c.imports = imports)
    (right : c'.imports = imports) (log log' : Array String) (f : Failure) :
    (((e.expandInvocation levels i).run.run c).run log).1.1 = .error f ↔
      (((e.expandInvocation levels i).run.run c').run log').1.1 = .error f := by
  have agrees : Agrees imports False c c' := ⟨left, right, False.elim, False.elim⟩
  cases levels with
  | zero => exact Iff.rfl
  | succ levels =>
    cases found : e.registry.lookup i.name.text with
    | none =>
      unfold expandInvocation
      simp only [found]
      split <;> exact Iff.rfl
    | some form =>
      have steady : Steady imports False (expandStream (e.expandInvocation levels) i.body) := by
        refine expandStream_steady i.body fun chunk member => ?_
        obtain ⟨word, written, part⟩ := written_of_mem_chunks member
        obtain ⟨invokes, inside⟩ := written.invokes
        refine expandInvocation_steady builtin levels chunk.2 (fun used => ?_) fun name used inner => ?_
        · exact free _ used (invokes.mono part)
        · exact free name used (inner.mono (inside.trans part))
      have before := steady c c' log log' agrees
      rw [expandInvocation_eq found, ExceptT.run_bind, StateT.run_bind, StateT.run_bind, StateT.run_bind,
        StateT.run_bind]
      generalize ((expandStream (e.expandInvocation levels) i.body).run.run c).run log = done at before
      generalize ((expandStream (e.expandInvocation levels) i.body).run.run c').run log' = done' at before
      obtain ⟨⟨result, d⟩, told⟩ := done
      obtain ⟨⟨result', d'⟩, told'⟩ := done'
      obtain ⟨rfl, -⟩ := before
      cases result with
      | error g => exact Iff.rfl
      | ok body =>
        have same : form.transform { d with span := i.span } body = .error f ↔
            form.transform { d' with span := i.span } body = .error f :=
          transform_error_iff (builtin.mem found) (by rfl) body f
        exact (finish_error_iff ..).trans (same.trans (finish_error_iff ..).symm)

/-! Attempting all invocations -/

/-- What comes of invocations that are expanded one after the other. -/
def attempts (expandOne : Invocation → Expansion (List Token)) :
    List Invocation → Context → Array String →
      (List (Except Failure (List Token)) × Context) × Array String
  | [], ctx, log => (([], ctx), log)
  | i :: is, ctx, log =>
    let ((result, ctx), log) := ((expandOne i).run.run ctx).run log
    let ((results, ctx), log) := attempts expandOne is ctx log
    ((result :: results, ctx), log)

/-- The diagnostics of a failure. -/
def complaintsOf {α : Type} : Except Failure α → List Diagnostic
  | .ok _ => []
  | .error f => f.toDiagnostics

/-- The diagnostics of all failures, in their order. -/
def complaints (results : List (Except Failure (List Token))) : List Diagnostic :=
  results.flatMap complaintsOf

/-- One round of the loop over chunks: an expansion is noted, or the complaints about it. -/
def attempt (expandOne : Invocation → Expansion (List Token)) (chunk : List Token × Invocation)
    (noted : List (List Token × Invocation × List Token) × List Diagnostic) :
    Expansion (ForInStep (List (List Token × Invocation × List Token) × List Diagnostic)) := do
  match ← ExceptT.lift (ExceptT.run (expandOne chunk.2)) with
  | .ok ts => return .yield ((chunk.1, chunk.2, ts) :: noted.1, noted.2)
  | .error f => return .yield (noted.1, noted.2 ++ f.toDiagnostics)

theorem expandChunks_eq (expandOne : Invocation → Expansion (List Token)) (s : Split) :
    expandChunks expandOne s = (do
      let noted ← forIn s.chunks ([], []) (attempt expandOne)
      match Failure.ofDiagnostics (noted.2 ++ s.failure.toList) with
      | some f => throw f
      | none => return noted.1.reverse) := rfl

variable {expandOne : Invocation → Expansion (List Token)}

theorem attempt_run (chunk : List Token × Invocation)
    (noted : List (List Token × Invocation × List Token) × List Diagnostic) (ctx : Context)
    (log : Array String) : ((attempt expandOne chunk noted).run.run ctx).run log =
      let ((result, ctx'), log') := ((expandOne chunk.2).run.run ctx).run log
      ((.ok (.yield (match result with
        | .ok ts => ((chunk.1, chunk.2, ts) :: noted.1, noted.2)
        | .error f => (noted.1, noted.2 ++ f.toDiagnostics))), ctx'), log') := by
  unfold attempt
  rw [ExceptT.run_bind, ExceptT.run_lift, StateT.run_bind, StateT.run_bind, StateT.run_map, StateT.run_map]
  generalize ((expandOne chunk.2).run.run ctx).run log = one
  obtain ⟨⟨result, ctx'⟩, log'⟩ := one
  cases result <;> rfl

theorem forIn_attempts (chunks : List (List Token × Invocation)) (ctx : Context) (log : Array String)
    (done : List (List Token × Invocation × List Token)) (failures : List Diagnostic) :
    ∃ done', ((forIn chunks (done, failures) (attempt expandOne)).run.run ctx).run log =
      let ((results, ctx'), log') := attempts expandOne (chunks.map (·.2)) ctx log
      ((.ok (done', failures ++ complaints results), ctx'), log') := by
  induction chunks generalizing ctx log done failures with
  | nil => exact ⟨done, by simp [attempts, complaints]; rfl⟩
  | cons chunk chunks ih =>
    simp only [List.map_cons, attempts]
    rw [List.forIn_cons, ExceptT.run_bind, StateT.run_bind, StateT.run_bind, attempt_run]
    generalize ((expandOne chunk.2).run.run ctx).run log = one
    obtain ⟨⟨result, ctx'⟩, log'⟩ := one
    cases result with
    | ok ts =>
      obtain ⟨done', rest⟩ := ih ctx' log' ((chunk.1, chunk.2, ts) :: done) failures
      exact ⟨done', rest.trans (by simp [complaints, complaintsOf])⟩
    | error f =>
      obtain ⟨done', rest⟩ := ih ctx' log' done (failures ++ f.toDiagnostics)
      exact ⟨done', rest.trans (by simp [complaints, complaintsOf])⟩

/-- Chunks are expanded if there is no complaint about any of them; else all complaints are collected. -/
theorem expandChunks_attempts (s : Split) (ctx : Context) (log : Array String) :
    ∃ done, ((expandChunks expandOne s).run.run ctx).run log =
      let ((results, ctx'), log') := attempts expandOne (s.chunks.map (·.2)) ctx log
      ((match Failure.ofDiagnostics (complaints results ++ s.failure.toList) with
        | some f => .error f
        | none => .ok done, ctx'), log') := by
  obtain ⟨done, loop⟩ := @forIn_attempts expandOne s.chunks ctx log [] []
  refine ⟨done.reverse, ?_⟩
  rw [expandChunks_eq, ExceptT.run_bind, StateT.run_bind, StateT.run_bind, loop]
  generalize attempts expandOne (s.chunks.map (·.2)) ctx log = all
  obtain ⟨⟨results, ctx'⟩, log'⟩ := all
  dsimp only
  change ((ExceptT.run (match Failure.ofDiagnostics (complaints results ++ s.failure.toList) with
    | some f => throw f
    | none => pure done.reverse : Expansion _)).run ctx').run log' = _
  cases Failure.ofDiagnostics (complaints results ++ s.failure.toList) <;> rfl

/-! Each invocation alone -/

/-- The numbers that the next name or conditional follows. -/
structure Numbers where
  counters : List (String × Nat)
  conditionals : Nat

/-- Nothing has been numbered. -/
def Numbers.none : Numbers := ⟨[], 0⟩

/-- A context in which nothing has been done but numbers given. -/
def Numbers.context (n : Numbers) (file : String) (imports : Imports) : Context :=
  { Context.start file imports with
    counters := n.counters, conditionals := List.replicate n.conditionals Span.none }

/-- The numbers of a context. -/
def numbersOf (c : Context) : Numbers := ⟨c.counters, c.conditionals.length⟩

/-- What comes of an invocation expanded alone behind some numbers, and the numbers it leaves. -/
def alone (e : Expander) (file : String) (n : Numbers) (i : Invocation) :
    Except Failure (List Token) × Numbers :=
  let run := ((e.expandInvocation e.maxDepth i).run.run (n.context file e.imports)).run #[]
  (run.1.1, numbersOf run.1.2)

/-- What comes of invocations each expanded alone, behind the numbers that the ones before it leave. -/
def eachAlone (e : Expander) (file : String) (n : Numbers) :
    List Invocation → List (Except Failure (List Token))
  | [] => []
  | i :: is => (e.alone file n i).1 :: eachAlone e file (e.alone file n i).2 is

variable {file : String}

theorem agrees_context {c : Context} (same : c.imports = e.imports.orStandard) :
    c.Agrees e.imports.orStandard True ((numbersOf c).context file e.imports) :=
  ⟨same, rfl, fun _ => rfl, fun _ => by simp [Numbers.context, numbersOf]⟩

/-- Expanded one after the other, invocations come to what each comes to alone. -/
theorem attempts_eachAlone (builtin : e.IsBuiltin) (file : String) (is : List Invocation) (c : Context)
    (log : Array String) (same : c.imports = e.imports.orStandard) :
    (attempts (e.expandInvocation e.maxDepth) is c log).1.1 = e.eachAlone file (numbersOf c) is := by
  induction is generalizing c log with
  | nil => rfl
  | cons i is ih =>
    have steady : Steady e.imports.orStandard True (e.expandInvocation e.maxDepth i) :=
      expandInvocation_steady builtin e.maxDepth i (fun _ => trivial) (fun _ _ _ => trivial)
    have both := steady c ((numbersOf c).context file e.imports) log #[] (agrees_context same)
    simp only [attempts, eachAlone, alone]
    generalize ((e.expandInvocation e.maxDepth i).run.run c).run log = one at both
    generalize ((e.expandInvocation e.maxDepth i).run.run
      ((numbersOf c).context file e.imports)).run #[] = other at both
    obtain ⟨⟨result, c'⟩, log'⟩ := one
    obtain ⟨⟨result', d⟩, told⟩ := other
    obtain ⟨rfl, agrees⟩ := both
    have numbers : numbersOf c' = numbersOf d := by
      unfold numbersOf
      rw [agrees.counters trivial, agrees.conditionals trivial]
    dsimp only
    rw [ih c' log' agrees.left, numbers]

/-! What fails is told -/

/-- What fails in a context does so with diagnostics. -/
def Tells {α : Type} (x : Expansion α) : Prop :=
  ∀ (ctx : Context) (log : Array String), Reports ((x.run.run ctx).run log).1.1

theorem Tells.bind {α β : Type} {x : Expansion α} {f : α → Expansion β} (first : Tells x)
    (second : ∀ a, Tells (f a)) : Tells (x >>= f) := by
  intro ctx log
  have before := first ctx log
  rw [ExceptT.run_bind, StateT.run_bind, StateT.run_bind]
  generalize (x.run.run ctx).run log = done at before
  obtain ⟨⟨result, ctx'⟩, log'⟩ := done
  cases result with
  | error f =>
    rintro _ ⟨⟩
    exact before f rfl
  | ok a => exact second a ctx' log'

theorem refuse_tells (i : Invocation) (message : String) : Tells (refuse i message) :=
  fun _ _ => .diagnostic _

theorem expandStream_tells (ts : List Token) : Tells (expandStream expandOne ts) := by
  refine Tells.bind (fun ctx log => ?_) fun done ctx log => .ok _
  obtain ⟨done, whole⟩ := @expandChunks_attempts expandOne (split ts) ctx log
  rw [whole]
  dsimp only
  split
  · rename_i any
    exact .collected any
  · exact .ok _

theorem expandInvocation_tells (builtin : e.IsBuiltin) (levels : Nat) (i : Invocation) :
    Tells (e.expandInvocation levels i) := by
  cases levels with
  | zero => exact refuse_tells _ _
  | succ levels =>
    cases found : e.registry.lookup i.name.text with
    | none =>
      unfold expandInvocation
      simp only [found]
      split <;> exact refuse_tells _ _
    | some form =>
      rw [expandInvocation_eq found]
      refine (expandStream_tells _).bind fun body ctx log => ?_
      rw [finish_run]
      have complains := transform_complains body (builtin.mem found) { ctx with span := i.span }
      cases result : form.transform { ctx with span := i.span } body with
      | error f =>
        rintro _ ⟨⟩
        exact complains.reports f result
      | ok done => exact .ok _

theorem eachAlone_reports (builtin : e.IsBuiltin) (file : String) (n : Numbers) (is : List Invocation) :
    ∀ r ∈ e.eachAlone file n is, Reports r := by
  induction is generalizing n with
  | nil => nofun
  | cons i is ih =>
    rintro r member
    rcases List.mem_cons.mp member with rfl | member
    · exact expandInvocation_tells builtin _ i _ _
    · exact ih _ r member

theorem complaints_eq_nil_iff {results : List (Except Failure (List Token))}
    (reports : ∀ r ∈ results, Reports r) : complaints results = [] ↔ ∀ r ∈ results, ∃ out, r = .ok out := by
  unfold complaints
  rw [List.flatMap_eq_nil_iff]
  constructor
  · intro silent r member
    have empty := silent r member
    cases r with
    | ok out => exact ⟨out, rfl⟩
    | error f => exact absurd empty (reports _ member f rfl)
  · intro all r member
    obtain ⟨out, rfl⟩ := all r member
    rfl

/-- A source is expanded if there is no complaint about an invocation; else the complaints are sorted. -/
theorem substitute_attempts {source : Bytes} {ts : List Token}
    (checked : Directive.check e.version file source = none) (read : Lexer.lex file source = .ok ts)
    (complete : (split ts).failure = none) (log : Array String) :
    let results := (attempts (e.expandInvocation e.maxDepth) ((split ts).chunks.map (·.2))
      (Context.start file e.imports) log).1.1
    (complaints results = [] → ∃ done log', (e.substitute file source).run.run log = (.ok done, log')) ∧
      (complaints results ≠ [] → ∃ log', (e.substitute file source).run.run log =
        (.error (.diagnostics (Diagnostic.sort (complaints results))), log')) := by
  have lifted {α : Type} (a : α) : (liftM (Except.ok a : Except Failure α) : Traced α) = pure a := rfl
  obtain ⟨done, whole⟩ := @expandChunks_attempts (e.expandInvocation e.maxDepth) (split ts)
    (Context.start file e.imports) log
  unfold substitute
  simp only [checked, read, lifted, pure_bind]
  generalize attempts (e.expandInvocation e.maxDepth) ((split ts).chunks.map (·.2))
    (Context.start file e.imports) log = all at whole
  obtain ⟨⟨results, ctx⟩, log'⟩ := all
  dsimp only at whole ⊢
  rw [complete, Option.toList_none, List.append_nil] at whole
  rw [ExceptT.run_bind, ExceptT.run_lift, StateT.run_bind, StateT.run_map, whole]
  constructor
  · intro silent
    rw [Failure.ofDiagnostics_eq_none_iff.mpr silent]
    exact ⟨_, _, rfl⟩
  · intro any
    rw [Failure.ofDiagnostics_eq_some_iff.mpr ⟨any, rfl⟩]
    exact ⟨_, rfl⟩

/-- A source whose invocations can be told fails before it is laid out exactly if one of them, expanded
alone behind the numbers that those before it leave, does. What is reported then are the diagnostics of each,
in the order of their places, and nothing but numbers in them depends on the other invocations. -/
theorem prepare_failures (builtin : e.IsBuiltin) (t : FileTree) {source : Bytes} {ts : List Token}
    {is : List Invocation} (checked : Directive.check e.version file source = none)
    (read : Lexer.lex file source = .ok ts) (topLevel : TopLevel ts is) (log : Array String) :
    let results := e.eachAlone file .none is
    let reported := Failure.diagnostics (Diagnostic.sort (complaints results))
    ((∃ done log', (e.substitute file source).run.run log = (.ok done, log')) ↔
        ∀ r ∈ results, ∃ out, r = .ok out) ∧
      ((∃ r ∈ results, ∃ f, r = .error f) → ∃ log',
        (e.substitute file source).run.run log = (.error reported, log') ∧
        (e.prepare file source).run.run log = (.error reported, log') ∧
        (e.expandSource t file source).run.run log = (.error reported, log')) ∧
      ∀ i ∈ is, (∀ name ∈ numbered, ¬ Invokes i.body name) → ∀ n f,
        (e.alone file n i).1 = .error f ↔ (e.alone file .none i).1 = .error f := by
  intro results reported
  obtain ⟨complete, same⟩ := (topLevel_iff ts is).mp topLevel
  have run := substitute_attempts checked read complete log
  rw [same, attempts_eachAlone builtin file is _ _ rfl] at run
  have silent := complaints_eq_nil_iff (eachAlone_reports builtin file .none is)
  obtain ⟨succeeds, fails⟩ : (complaints results = [] → _) ∧ (complaints results ≠ [] → _) := run
  refine ⟨?_, ?_, ?_⟩
  · rw [← silent]
    refine ⟨fun ⟨done, log', succeeded⟩ => ?_, succeeds⟩
    by_contra any
    obtain ⟨log'', failed⟩ := fails any
    rw [succeeded] at failed
    cases failed
  · rintro ⟨r, member, f, rfl⟩
    obtain ⟨log', failed⟩ := fails fun empty => by
      obtain ⟨out, ⟨⟩⟩ := silent.mp empty _ member
    have prepared : (e.prepare file source).run.run log = (.error reported, log') := by
      unfold prepare
      rw [ExceptT.run_bind, StateT.run_bind, failed]
      rfl
    refine ⟨log', failed, prepared, ?_⟩
    unfold expandSource
    rw [ExceptT.run_bind, StateT.run_bind, prepared]
    rfl
  · intro i _ free n f
    have left : (n.context file e.imports).imports = e.imports.orStandard := rfl
    have right : (Numbers.none.context file e.imports).imports = e.imports.orStandard := rfl
    exact expandInvocation_error_iff builtin e.maxDepth i free left right #[] #[] f

theorem check_of_absent (tool : Version) {file : String} {source : Bytes}
    (absent : Text.contains Directive.requireMark source = false) :
    Directive.check tool file source = none := by
  unfold Directive.check
  rw [absent]
  rfl

/-- Of two invocations that fail, both are reported. -/
theorem prepare_failures_both :
    let e : Expander := ⟨.standard, ⟨"", ""⟩, 64, false, ".sgo", ⟨0, 3, 0, "", ""⟩⟩
    ∃ ds log, (e.expandSource (.empty "") "m.sgo" (Text.utf8 "suf!(1)cxp!((a)(b))")).run.run #[] =
      (.error (.diagnostics ds), log) ∧ ds.length = 2 := by
  intro e
  have given : (Lexer.lex "m.sgo" (Text.utf8 "suf!(1)cxp!((a)(b))")).toOption.any (fun ts =>
      let results := e.eachAlone "m.sgo" .none ((split ts).chunks.map (·.2))
      (split ts).failure.isNone && results.any (fun r => r.toOption.isNone) &&
        (complaints results).length == 2) = true := by
    decide +kernel
  have checked : Directive.check e.version "m.sgo" (Text.utf8 "suf!(1)cxp!((a)(b))") = none :=
    check_of_absent e.version (by decide)
  have builtin : e.IsBuiltin := rfl
  obtain ⟨ts, read, facts⟩ := (Option.any_eq_true ..).mp given
  simp only [Bool.and_eq_true, List.any_eq_true, Option.isNone_iff_eq_none, beq_iff_eq] at facts
  obtain ⟨⟨complete, r, member, failed⟩, two⟩ := facts
  have topLevel := (topLevel_iff ts _).mpr ⟨complete, rfl⟩
  obtain ⟨-, reported, -⟩ :=
    prepare_failures builtin (.empty "") checked (eq_ok_of_toOption read) topLevel #[]
  obtain ⟨log, -, -, run⟩ := reported ⟨r, member, by
    cases r with
    | ok out => cases failed
    | error f => exact ⟨f, rfl⟩⟩
  exact ⟨_, log, run, ((Diagnostic.sort_stable _).1.length_eq).trans two⟩

/-- The number of a conditional that succeeds shows in what is reported about the next invocation. -/
theorem prepare_failures_numbered :
    let e : Expander := ⟨.standard, ⟨"", ""⟩, 64, false, ".sgo", ⟨0, 3, 0, "", ""⟩⟩
    let source := Text.utf8 "cxp!((a)?(b):(c))ela!((cxp!((a)?(b):(c)))?=(d))"
    e.IsBuiltin ∧ Directive.check e.version "m.sgo" source = none ∧ ∃ ts is,
      Lexer.lex "m.sgo" source = .ok ts ∧ TopLevel ts is ∧ ∃ f log,
        (e.prepare "m.sgo" source).run.run #[] = (.error f, log) ∧
          f ≠ .diagnostics (Diagnostic.sort (complaints (is.map fun i => (e.alone "m.sgo" .none i).1))) := by
  intro e source
  have given : (Lexer.lex "m.sgo" source).toOption.any (fun ts =>
      let fresh := complaints ((split ts).chunks.map fun chunk => (e.alone "m.sgo" .none chunk.2).1)
      let reported := complaintsOf ((e.prepare "m.sgo" source).run.run #[]).1
      (split ts).failure.isNone && reported != [] && reported != Diagnostic.sort fresh) = true := by
    decide +kernel
  obtain ⟨ts, read, facts⟩ := (Option.any_eq_true ..).mp given
  simp only [Bool.and_eq_true, Option.isNone_iff_eq_none, bne_iff_ne] at facts
  obtain ⟨⟨complete, any⟩, differ⟩ := facts
  have checked : Directive.check e.version "m.sgo" source = none :=
    check_of_absent e.version (by decide)
  refine ⟨rfl, checked, ts, _, eq_ok_of_toOption read, (topLevel_iff ts _).mpr ⟨complete, rfl⟩, ?_⟩
  obtain ⟨result, run⟩ : ∃ result, (e.prepare "m.sgo" source).run.run #[] = result := ⟨_, rfl⟩
  rw [run] at any differ
  obtain ⟨_ | _, log⟩ := result
  · rename_i f
    refine ⟨f, log, run, ?_⟩
    rintro rfl
    rw [List.map_map] at differ
    exact differ rfl
  · exact absurd rfl any

end Expander
end Desugar

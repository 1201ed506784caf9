import Desugar.Expand.Whole
import Desugar.Proofs.Expand.Splice
import Desugar.Proofs.Token.Apart

/-!
# Plain sources

A source that is accepted as it stands has no invocation: every exclamation mark in it that touches what
stands before is an operator behind something else than a name. So expanding it does nothing but lay it
out, and fails only where laying it out does.
-/
namespace Desugar

open Invocation

/-- No invocation starts among tokens that are apart. -/
theorem topLevel_of_apart {ts : List Token} (apart : ts.IsChain Lexer.Apart) : TopLevel ts [] := by
  induction ts with
  | nil => exact .nil
  | cons t ts ih =>
    refine .skip (fun starts => ?_) (ih apart.tail)
    cases starts with
    | intro named mark touches =>
      exact (List.isChain_cons.mp apart).1 _ rfl named mark touches

/-- No line of a source starts, behind blanks, with the mark of a requirement. -/
def Unrequired (f : SourceFile) : Prop :=
  ∀ i < f.lineCount, ¬ Directive.requireMark <+: Text.trimBytes (f.line (i + 1 : Nat))

theorem check_of_unrequired (tool : Version) {file : String} {source : Bytes}
    (unrequired : Unrequired ⟨file, source⟩) : Directive.check tool file source = none := by
  have noneRequired : ∀ i ∈ List.range (SourceFile.lineCount ⟨file, source⟩),
      (Directive.requirement? ⟨file, source⟩ (i + 1)).bind (Directive.fault? tool) = none := by
    intro i inside
    have other := unrequired i (List.mem_range.mp inside)
    unfold Directive.requirement?
    dsimp only
    rw [← List.isPrefixOf_iff_prefix, Bool.not_eq_true] at other
    rw [if_pos (by rw [other]; rfl)]
    rfl
  unfold Directive.check
  dsimp only
  split
  · rfl
  · rw [List.filterMap_eq_nil_iff.mpr noneRequired]
    rfl

namespace Expander

variable {e : Expander} {file : String} {source : Bytes} {parsed : Host.ParsedFile}

/-- An accepted source is left as it is, in a context in which nothing has been done. -/
theorem substitute_plain (accepted : Host.parseFile file source true = .ok parsed)
    (unrequired : Unrequired ⟨file, source⟩) (log : Array String) :
    (e.substitute file source).run.run log =
      (.ok (source, Context.start file e.imports), log.push s!"{file}: expanded {0} invocations") := by
  obtain ⟨ts, read, apart⟩ := Lexer.lex_of_orderly (Host.parseFile_orderly accepted)
  have split := split_plain (topLevel_of_apart apart)
  have expands : ExpandsAll (e.expandInvocation e.maxDepth) (Context.start file e.imports) log
      ((Desugar.split ts).chunks.map (·.2)) [] (Context.start file e.imports) log := by
    rw [split]
    exact .nil _ log
  have run := substitute_run e (check_of_unrequired e.version unrequired) read (by rw [split]) expands
  simpa [splice] using run

/-- Without imports to add, formatting is laying out. -/
theorem format_plain (accepted : Host.parseFile file source true = .ok parsed) (log : Array String) :
    (format file source []).run.run log = (parsed.format.mapError (fileFailure file), log) := by
  unfold format
  simp only [accepted, List.forIn_nil, pure_bind]
  cases parsed.format <;> rfl

/-- Without conditionals to lower and imports to add, what invocations have become is laid out. -/
theorem expandSource_run {out : Bytes} {ctx : Context} {log log' : Array String} (header : e.header = false)
    (t : FileTree) (substituted : (e.substitute file source).run.run log = (.ok (out, ctx), log'))
    (complete : ctx.conditionals = []) (own : ctx.requiredPaths = [])
    (accepted : Host.parseFile file out true = .ok parsed) :
    (e.expandSource t file source).run.run log = (parsed.format.mapError (fileFailure file), log') := by
  have prepared := prepare_run e substituted
  rw [own] at prepared
  unfold expandSource
  rw [ExceptT.run_bind, StateT.run_bind, prepared, ExceptT.run_map, StateT.run_map, format_plain accepted]
  cases parsed.format with
  | error message => rfl
  | ok laidOut =>
    change StateT.run (ExceptT.run (if ctx.conditionals.isEmpty = true then _ else _)) log' = _
    rw [complete, List.isEmpty_nil, if_pos rfl, header]
    rfl

/-- Expanding an accepted source lays it out, and does nothing else. -/
theorem expandSource_plain (header : e.header = false) (t : FileTree)
    (accepted : Host.parseFile file source true = .ok parsed) (unrequired : Unrequired ⟨file, source⟩)
    (log : Array String) :
    (e.expandSource t file source).run.run log =
      (parsed.format.mapError (fileFailure file), log.push s!"{file}: expanded {0} invocations") :=
  expandSource_run header t (substitute_plain accepted unrequired log) rfl
    (by simp [Context.requiredPaths, Context.start]) accepted

/-- What looks like an invocation in a comment is none. -/
theorem expandSource_plain_comment :
    let e : Expander := ⟨.standard, ⟨"", ""⟩, 64, false, ".sgo", ⟨0, 3, 0, "", ""⟩⟩
    let source := Text.utf8 "package p // x!(\n"
    ∃ log, (e.expandSource (.empty "") "m.sgo" source).run.run #[] = (.ok source, log) := by
  intro e source
  have printed : ((Host.parseFile "m.sgo" source true).toOption.bind (·.format.toOption)) = some source := by
    decide +kernel
  obtain ⟨parsed, found, laidOut⟩ := Option.bind_eq_some_iff.mp printed
  have unrequired : Unrequired ⟨"m.sgo", source⟩ := by
    unfold Unrequired
    decide +kernel
  have run := expandSource_plain (e := e) rfl (.empty "") (eq_ok_of_toOption found) unrequired #[]
  rw [eq_ok_of_toOption laidOut] at run
  exact ⟨_, run⟩

/-- Behind a blank `//line :0` is no line directive. Laid out it stands at the start of its line, so the
file cannot be read again to have its imports sorted. -/
theorem expandSource_unsorted :
    let e : Expander := ⟨.standard, ⟨"", ""⟩, 64, false, ".sgo", ⟨0, 3, 0, "", ""⟩⟩
    let source := Text.utf8 "package p\nimport()\n //line :0"
    (∃ parsed, Host.parseFile "m.sgo" source true = .ok parsed) ∧ Unrequired ⟨"m.sgo", source⟩ ∧
      ∃ f log, (e.expandSource (.empty "") "m.sgo" source).run.run #[] = (.error f, log) := by
  intro e source
  have accepted : (Host.parseFile "m.sgo" source true).toOption.isSome = true := by decide +kernel
  have fails : ((e.expandSource (.empty "") "m.sgo" source).run.run #[]).1.toOption.isSome = false := by
    decide +kernel
  refine ⟨?_, ?_, ?_⟩
  · obtain ⟨parsed, found⟩ := Option.isSome_iff_exists.mp accepted
    exact ⟨parsed, eq_ok_of_toOption found⟩
  · unfold Unrequired
    decide +kernel
  · generalize (e.expandSource (.empty "") "m.sgo" source).run.run #[] = result at fails
    obtain ⟨result, log⟩ := result
    cases result with
    | ok out => cases fails
    | error f => exact ⟨f, log, rfl⟩

end Expander
end Desugar

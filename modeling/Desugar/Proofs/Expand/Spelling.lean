import Desugar.Expand.Whole
import Desugar.Proofs.Expand.Directive
import Desugar.Proofs.Expand.Failures
import Desugar.Proofs.FileTree
import Desugar.Proofs.Form.Elsewhere

/-!
# What a path is spelled like

A file may be reached under many paths. What it expands to does not depend on which of them is used:
a path shows in complaints, in the trace and, by its last part, in the header.
-/
namespace Desugar

open Host

/-! ## Invocations -/

/-- Invocations of related tokens. -/
structure Invocation.Related (R : Token → Token → Prop) (i i' : Invocation) : Prop where
  name : R i.name i'.name
  closer : R i.closer i'.closer
  body : List.Forall₂ R i.body i'.body

/-- Streams of related tokens that are split alike. -/
structure Split.Related (R : Token → Token → Prop) (s s' : Split) : Prop where
  chunks : List.Forall₂ (fun x y => List.Forall₂ R x.1 y.1 ∧ x.2.Related R y.2) s.chunks s'.chunks
  rest : List.Forall₂ R s.rest s'.rest
  failure : Option.Rel (fun _ _ => True) s.failure s'.failure

theorem splitFrom_error {before ts : List Token} {d : Diagnostic} (stuck : Invocation.atFront ts = .error d) :
    splitFrom before ts = ⟨[], before.reverse ++ ts, some d⟩ := by
  rw [splitFrom]
  split <;> rename_i found <;> rw [stuck] at found <;> cases found
  rfl

namespace Invocation

variable {R S : Token → Token → Prop} {ts ts' : List Token}

theorem Related.imp {i i' : Invocation} (related : i.Related R i') (weaker : ∀ t t', R t t' → S t t') :
    i.Related S i' :=
  ⟨weaker _ _ related.name, weaker _ _ related.closer, related.body.imp fun _ _ => weaker _ _⟩

/-- What is found up to a closing delimiter, the delimiter, and what is left. -/
def Closed (R : Token → Token → Prop) (x y : List Token × Token × List Token) : Prop :=
  List.Forall₂ R x.1 y.1 ∧ R x.2.1 y.2.1 ∧ List.Forall₂ R x.2.2 y.2.2

/-- A name, what closes the delimiter behind it, and what is left. -/
def Opened (R : Token → Token → Prop) (x y : Token × TokenKind × List Token) : Prop :=
  R x.1 y.1 ∧ x.2.1 = y.2.1 ∧ List.Forall₂ R x.2.2 y.2.2

/-- An invocation, and what is left. -/
def Found (R : Token → Token → Prop) (x y : Invocation × List Token) : Prop :=
  x.1.Related R y.1 ∧ List.Forall₂ R x.2 y.2

section
variable (moved : ∀ t t', R t t' → t.Elsewhere t')
include moved

theorem closing_akin (want : TokenKind) (outer : List TokenKind) (all : List.Forall₂ R ts ts') :
    Akin (Option.Rel (Closed R)) (closing want outer ts) (closing want outer ts') := by
  induction all generalizing want outer with
  | nil => exact .ok .none
  | @cons t t' ts ts' here rest ih =>
    have goOn (want : TokenKind) (outer : List TokenKind) : Akin (Option.Rel (Closed R))
        (prepend t (closing want outer ts)) (prepend t' (closing want outer ts')) :=
      (ih want outer).map fun _ _ found => by
        cases found with
        | none => exact .none
        | some found => exact .some ⟨.cons here found.1, found.2⟩
    unfold closing
    dsimp only
    rw [(moved _ _ here).kind]
    split
    · exact goOn _ _
    split
    · exact goOn _ _
    split
    · exact .error _ _
    split
    · exact .ok (.some ⟨.nil, here, rest⟩)
    · exact goOn _ _

theorem opening_related (all : List.Forall₂ R ts ts') : Option.Rel (Opened R) (opening ts) (opening ts') := by
  cases all with
  | nil => exact .none
  | cons name all =>
    cases all with
    | nil => exact .none
    | cons bang all =>
      cases all with
      | nil => exact .none
      | cons opener rest =>
        have same := moved _ _ bang
        unfold opening
        dsimp only
        rw [(moved _ _ name).kind, same.kind, same.gap, (moved _ _ opener).kind]
        split
        · generalize TokenKind.closer? _ = closer
          cases closer with
          | none => exact .none
          | some => exact .some ⟨name, rfl, rest⟩
        · exact .none

theorem atFront_akin (all : List.Forall₂ R ts ts') :
    Akin (Option.Rel (Found R)) (atFront ts) (atFront ts') := by
  have opened := opening_related moved all
  unfold atFront
  generalize opening ts = x at opened
  generalize opening ts' = y at opened
  cases opened with
  | none => exact .ok .none
  | @some a b opened =>
    obtain ⟨name, closer, rest⟩ := a
    obtain ⟨name', _, rest'⟩ := b
    obtain ⟨named, rfl, behind⟩ := opened
    have closed := closing_akin moved closer [] behind
    dsimp only
    generalize closing closer [] rest = x at closed
    generalize closing closer [] rest' = y at closed
    cases closed with
    | error => exact .error _ _
    | ok found =>
      cases found with
      | none => exact .error _ _
      | some found => exact .ok (.some ⟨⟨named, found.2.1, found.1⟩, found.2.2⟩)

theorem splitFrom_related {before before' : List Token} (front : List.Forall₂ R before before')
    (all : List.Forall₂ R ts ts') : (splitFrom before ts).Related R (splitFrom before' ts') := by
  fun_induction splitFrom before ts generalizing before' ts' with
  | case1 before ts d stuck =>
    have started := atFront_akin moved all
    rw [stuck] at started
    generalize stuck' : atFront ts' = y at started
    cases started with
    | error _ d' =>
      rw [splitFrom_error stuck']
      exact ⟨.nil, List.rel_append (List.forall₂_reverse_iff.mpr front) all, .some trivial⟩
  | case2 before ts i rest found shorter s =>
    rename_i ih
    have started := atFront_akin moved all
    rw [found] at started
    generalize found' : atFront ts' = y at started
    cases started with
    | ok started =>
      cases started with
      | @some _ y started =>
        obtain ⟨i', rest'⟩ := y
        obtain ⟨word, written, rfl⟩ := (atFront_eq_some_iff _ _ _).mp found'
        have behind := ih .nil started.2
        rw [splitFrom_some written]
        exact ⟨.cons ⟨List.forall₂_reverse_iff.mpr front, started.1⟩ behind.chunks, behind.rest, behind.failure⟩
  | case3 before nothing =>
    cases all
    rw [splitFrom]
    exact ⟨.nil, List.forall₂_reverse_iff.mpr front, .none⟩
  | case4 before t ts nothing ih =>
    cases all with
    | @cons _ t' _ ts' here rest =>
      have started := atFront_akin moved (.cons here rest)
      rw [nothing] at started
      generalize nothing' : atFront (t' :: ts') = y at started
      cases started with
      | ok started =>
        cases started
        rw [splitFrom_none ((atFront_eq_none_iff _).mp nothing')]
        exact ih (.cons here front) rest

theorem split_related (all : List.Forall₂ R ts ts') : (split ts).Related R (split ts') :=
  splitFrom_related moved .nil all

end
end Invocation

/-! ## Computations side by side -/

/-- Both rounds of two loops let the loops go on. -/
inductive GoOn {β γ : Type} (R : β → γ → Prop) : ForInStep β → ForInStep γ → Prop
  | yield {b : β} {c : γ} (related : R b c) : GoOn R (.yield b) (.yield c)

namespace Traced

/-- Both computations fail, or both come to values that are related, whatever was told before. -/
def Lockstep {α β : Type} (R : α → β → Prop) (x : Traced α) (y : Traced β) : Prop :=
  ∀ log log', Akin R (x.run.run log).1 (y.run.run log').1

namespace Lockstep

variable {α β γ δ : Type} {R : α → β → Prop} {S : γ → δ → Prop} {x : Traced α} {y : Traced β}

theorem pure {a : α} {b : β} (related : R a b) : Lockstep R (Pure.pure a) (Pure.pure b) :=
  fun _ _ => .ok related

theorem throw (f f' : Failure) : Lockstep R (throw f) (throw f') := fun _ _ => .error f f'

theorem trace (message message' : String) : Lockstep (fun _ _ => True) (Desugar.trace message : Traced Unit)
    (Desugar.trace message' : Traced Unit) := fun _ _ => .ok trivial

theorem lifted {x : Except Failure α} {y : Except Failure β} (akin : Akin R x y) :
    Lockstep R (liftM x) (liftM y) := by
  cases akin with
  | ok related => exact .pure related
  | error f f' => exact .throw f f'

theorem bind {f : α → Traced γ} {g : β → Traced δ} (first : Lockstep R x y)
    (second : ∀ a b, R a b → Lockstep S (f a) (g b)) : Lockstep S (x >>= f) (y >>= g) := by
  intro log log'
  have before := first log log'
  rw [ExceptT.run_bind, ExceptT.run_bind, StateT.run_bind, StateT.run_bind]
  generalize x.run.run log = done at before
  generalize y.run.run log' = done' at before
  obtain ⟨result, told⟩ := done
  obtain ⟨result', told'⟩ := done'
  cases before with
  | ok related => exact second _ _ related told told'
  | error f f' => exact .error f f'

theorem tried (h : Lockstep R x y) :
    Lockstep (Akin R) (ExceptT.lift (ExceptT.run x)) (ExceptT.lift (ExceptT.run y)) := by
  intro log log'
  rw [ExceptT.run_lift, ExceptT.run_lift, StateT.run_map, StateT.run_map]
  exact .ok (h log log')

theorem forIn {f : γ → α → Traced (ForInStep α)} {g : δ → β → Traced (ForInStep β)} {cs : List γ} {ds : List δ}
    (all : List.Forall₂ S cs ds) (each : ∀ c d a b, S c d → R a b → Lockstep (GoOn R) (f c a) (g d b))
    {a : α} {b : β} (related : R a b) : Lockstep R (ForIn.forIn cs a f) (ForIn.forIn ds b g) := by
  induction all generalizing a b with
  | nil => exact .pure related
  | cons here _ ih =>
    rw [List.forIn_cons, List.forIn_cons]
    refine (each _ _ _ _ here related).bind fun _ _ next => ?_
    cases next with
    | yield related => exact ih related

end Lockstep
end Traced

namespace Expansion

/-- In contexts that match, both computations fail, or both come to values that are related, and they leave
contexts that match. -/
def Lockstep {α β : Type} (R : α → β → Prop) (x : Expansion α) (y : Expansion β) : Prop :=
  ∀ (c c' : Context) (log log' : Array String), c.Matches c' →
    Akin R ((x.run.run c).run log).1.1 ((y.run.run c').run log').1.1 ∧
      ((x.run.run c).run log).1.2.Matches ((y.run.run c').run log').1.2

namespace Lockstep

variable {α β γ δ : Type} {R : α → β → Prop} {S : γ → δ → Prop} {x : Expansion α} {y : Expansion β}

theorem pure {a : α} {b : β} (related : R a b) : Lockstep R (Pure.pure a) (Pure.pure b) :=
  fun _ _ _ _ same => ⟨.ok related, same⟩

theorem throw (f f' : Failure) : Lockstep R (throw f) (throw f') := fun _ _ _ _ same => ⟨.error f f', same⟩

theorem bind {f : α → Expansion γ} {g : β → Expansion δ} (first : Lockstep R x y)
    (second : ∀ a b, R a b → Lockstep S (f a) (g b)) : Lockstep S (x >>= f) (y >>= g) := by
  intro c c' log log' same
  have before := first c c' log log' same
  rw [ExceptT.run_bind, ExceptT.run_bind, StateT.run_bind, StateT.run_bind, StateT.run_bind, StateT.run_bind]
  generalize (x.run.run c).run log = done at before
  generalize (y.run.run c').run log' = done' at before
  obtain ⟨⟨result, d⟩, told⟩ := done
  obtain ⟨⟨result', d'⟩, told'⟩ := done'
  obtain ⟨akin, same⟩ := before
  cases akin with
  | ok related => exact second _ _ related d d' told told' same
  | error f f' => exact ⟨.error f f', same⟩

theorem forIn {f : γ → α → Expansion (ForInStep α)} {g : δ → β → Expansion (ForInStep β)} {cs : List γ}
    {ds : List δ} (all : List.Forall₂ S cs ds)
    (each : ∀ c d a b, S c d → R a b → Lockstep (GoOn R) (f c a) (g d b)) {a : α} {b : β} (related : R a b) :
    Lockstep R (ForIn.forIn cs a f) (ForIn.forIn ds b g) := by
  induction all generalizing a b with
  | nil => exact .pure related
  | cons here _ ih =>
    rw [List.forIn_cons, List.forIn_cons]
    refine (each _ _ _ _ here related).bind fun _ _ next => ?_
    cases next with
    | yield related => exact ih related

/-- Expansions that are run in contexts of their own. -/
theorem traced (h : Lockstep R x y) {c c' : Context} (same : c.Matches c') :
    Traced.Lockstep (fun p q => Akin R p.1 q.1 ∧ p.2.Matches q.2) (ExceptT.lift (x.run.run c))
      (ExceptT.lift (y.run.run c')) := by
  intro log log'
  rw [ExceptT.run_lift, ExceptT.run_lift, StateT.run_map, StateT.run_map]
  exact .ok (h c c' log log' same)

end Lockstep
end Expansion

namespace Expander

open Invocation Form

variable {e : Expander}

/-! ## Expanding invocations -/

/-- What was expanded and what it gave. -/
def Done (R : Token → Token → Prop) (x y : List Token × Invocation × List Token) : Prop :=
  List.Forall₂ R x.1 y.1 ∧ x.2.1.Related R y.2.1 ∧ Moved x.2.2 y.2.2

/-- What a loop over chunks has noted: expansions and complaints. -/
def Tally (R : Token → Token → Prop)
    (x y : List (List Token × Invocation × List Token) × List Diagnostic) : Prop :=
  List.Forall₂ (Done R) x.1 y.1 ∧ (x.2 = [] ↔ y.2 = [])

theorem ofDiagnostics_related {ds ds' : List Diagnostic} (same : ds = [] ↔ ds' = []) :
    Option.Rel (fun _ _ => True) (Failure.ofDiagnostics ds) (Failure.ofDiagnostics ds') := by
  unfold Failure.ofDiagnostics
  simp only [List.isEmpty_iff, same]
  split
  · exact .none
  · exact .some trivial

section
variable {R : Token → Token → Prop} {expandOne : Invocation → Expansion (List Token)}
  (tells : ∀ i, Tells (expandOne i))
  (each : ∀ {i i'}, i.Related R i' → Expansion.Lockstep Moved (expandOne i) (expandOne i'))
include tells each

theorem attempt_lockstep {before before' : List Token} {i i' : Invocation} (front : List.Forall₂ R before before')
    (related : i.Related R i') {noted noted' : List (List Token × Invocation × List Token) × List Diagnostic}
    (same : Tally R noted noted') : Expansion.Lockstep (GoOn (Tally R)) (attempt expandOne (before, i) noted)
      (attempt expandOne (before', i') noted') := by
  intro c c' log log' contexts
  have one := each related c c' log log' contexts
  have told := tells i c log
  have told' := tells i' c' log'
  rw [attempt_run, attempt_run]
  generalize ((expandOne i).run.run c).run log = done at one told
  generalize ((expandOne i').run.run c').run log' = done' at one told'
  obtain ⟨⟨result, d⟩, log₁⟩ := done
  obtain ⟨⟨result', d'⟩, log₁'⟩ := done'
  obtain ⟨akin, contexts⟩ := one
  refine ⟨.ok (.yield ?_), contexts⟩
  cases akin with
  | ok moved => exact ⟨.cons ⟨front, related, moved⟩ same.1, same.2⟩
  | error f f' =>
    have nonempty := told f rfl
    have nonempty' := told' f' rfl
    exact ⟨same.1, by simp [nonempty, nonempty']⟩

theorem expandChunks_lockstep {s s' : Split} (split : s.Related R s') :
    Expansion.Lockstep (List.Forall₂ (Done R)) (expandChunks expandOne s) (expandChunks expandOne s') := by
  rw [expandChunks_eq, expandChunks_eq]
  refine (Expansion.Lockstep.forIn split.chunks (R := Tally R) (fun x y noted noted' chunk same => ?_)
    ⟨.nil, Iff.rfl⟩).bind fun noted noted' same => ?_
  · exact attempt_lockstep tells each chunk.1 chunk.2 same
  · have stuck : s.failure.toList = [] ↔ s'.failure.toList = [] := by
      have failed := split.failure
      generalize s.failure = f at failed
      generalize s'.failure = f' at failed
      cases failed <;> simp
    have failed : noted.2 ++ s.failure.toList = [] ↔ noted'.2 ++ s'.failure.toList = [] := by
      rw [List.append_eq_nil_iff, List.append_eq_nil_iff, same.2, stuck]
    have collected := ofDiagnostics_related failed
    generalize Failure.ofDiagnostics (noted.2 ++ s.failure.toList) = f at collected
    generalize Failure.ofDiagnostics (noted'.2 ++ s'.failure.toList) = f' at collected
    cases collected with
    | none => exact .pure (List.forall₂_reverse_iff.mpr same.1)
    | some => exact .throw _ _

end

theorem withGap_moved {t t' : Token} (name : t.Elsewhere t') {ts ts' : List Token} (moved : Moved ts ts') :
    Moved (withGap t.gap ts) (withGap t'.gap ts') := by
  cases moved with
  | nil => exact .nil
  | cons here rest => exact .cons ⟨here.kind, here.literal, name.gap⟩ rest

theorem expandStream_lockstep {expandOne : Invocation → Expansion (List Token)} (tells : ∀ i, Tells (expandOne i))
    (each : ∀ {i i'}, i.Related Token.Elsewhere i' → Expansion.Lockstep Moved (expandOne i) (expandOne i'))
    {ts ts' : List Token} (moved : Moved ts ts') :
    Expansion.Lockstep Moved (expandStream expandOne ts) (expandStream expandOne ts') := by
  have splits := split_related (fun _ _ same => same) moved
  refine (expandChunks_lockstep tells each splits).bind fun done done' all => .pure ?_
  refine List.rel_append (List.rel_flatMap all fun x y here => ?_) splits.rest
  exact List.rel_append here.1 (withGap_moved here.2.1.name here.2.2)

theorem finish_lockstep {form : Form} (known : form ∈ builtins) (i i' : Invocation) {body body' : List Token}
    (moved : Moved body body') : Expansion.Lockstep Moved (finish i form body) (finish i' form body') := by
  intro c c' log log' same
  have spanned : Context.Matches { c with span := i.span } { c' with span := i'.span } :=
    ⟨same.imports, same.required, same.counters, same.conditionals⟩
  have akin := transform_akin known spanned moved
  rw [finish_run, finish_run]
  generalize form.transform { c with span := i.span } body = x at akin
  generalize form.transform { c' with span := i'.span } body' = y at akin
  cases akin with
  | ok emits => exact ⟨.ok emits.1, emits.2⟩
  | error f f' => exact ⟨.error f f', same⟩

/-- What an invocation is expanded to does not depend on where it stands. -/
theorem expandInvocation_lockstep (builtin : e.IsBuiltin) (levels : Nat) {i i' : Invocation}
    (related : i.Related Token.Elsewhere i') :
    Expansion.Lockstep Moved (e.expandInvocation levels i) (e.expandInvocation levels i') := by
  induction levels generalizing i i' with
  | zero => exact .throw _ _
  | succ levels ih =>
    have name := related.name.text
    cases found : e.registry.lookup i.name.text with
    | none =>
      have found' := found
      rw [name] at found'
      unfold expandInvocation
      simp only [found', name]
      split <;> exact .throw _ _
    | some form =>
      rw [expandInvocation_eq found, expandInvocation_eq (name ▸ found)]
      refine (expandStream_lockstep (expandInvocation_tells builtin levels) ih related.body).bind ?_
      exact fun body body' moved => finish_lockstep (builtin.mem found) i i' moved

/-! ## Expanding sources -/

section
variable {file file' : String} {source : Bytes}

/-- A source is spliced alike whatever it is called. -/
theorem splice_related {edits edits' : List (Invocation × List Token)}
    (all : List.Forall₂ (fun x y => x.1.Related Token.InPlace y.1 ∧ Moved x.2 y.2) edits edits') (offset : Nat) :
    splice source offset edits = splice source offset edits' := by
  induction all generalizing offset with
  | nil => rfl
  | @cons x y _ _ here _ ih =>
    obtain ⟨i, produced⟩ := x
    obtain ⟨i', produced'⟩ := y
    unfold splice
    rw [here.1.name.start, here.1.closer.stop, renderTokens_moved here.2, ih]

/-- Whether a source requires another version does not depend on its name. -/
theorem check_related (tool : Version) :
    Option.Rel (fun _ _ => True) (Directive.check tool file source) (Directive.check tool file' source) := by
  have fault {r r' : Directive.Requirement} (same : r.argument = r'.argument) :
      Directive.fault? tool r = none → Directive.fault? tool r' = none := by
    unfold Directive.fault?
    rw [same]
    dsimp only
    repeat' split
    all_goals simp
  have line (file file' : String) (n : Nat) :
      (Directive.requirement? ⟨file, source⟩ n).bind (Directive.fault? tool) = none →
        (Directive.requirement? ⟨file', source⟩ n).bind (Directive.fault? tool) = none := by
    have text : SourceFile.line ⟨file, source⟩ n = SourceFile.line ⟨file', source⟩ n := rfl
    unfold Directive.requirement?
    dsimp only
    rw [text]
    split
    · simp
    split
    · exact fault rfl
    · simp
  rw [Directive.check_eq, Directive.check_eq]
  refine ofDiagnostics_related ?_
  rw [List.filterMap_eq_nil_iff, List.filterMap_eq_nil_iff]
  exact ⟨fun met i inside => line _ _ _ (met i inside), fun met i inside => line _ _ _ (met i inside)⟩

/-- What a source is after its invocations have been expanded, and the contexts that are left. -/
def Substituted (x y : Bytes × Context) : Prop := x.1 = y.1 ∧ x.2.Matches y.2

theorem substitute_lockstep (builtin : e.IsBuiltin) (file file' : String) (source : Bytes) :
    Traced.Lockstep Substituted (e.substitute file source) (e.substitute file' source) := by
  have checked := @check_related file file' source e.version
  unfold substitute
  generalize Directive.check e.version file source = x at checked
  generalize Directive.check e.version file' source = y at checked
  cases checked with
  | some => exact .throw _ _
  | none =>
    refine (Traced.Lockstep.lifted (Lexer.lex_inPlace file file' source)).bind fun tokens tokens' all => ?_
    have splits := split_related (fun _ _ same => same.toElsewhere) all
    have chunks := expandChunks_lockstep (expandInvocation_tells builtin e.maxDepth)
      (fun related => expandInvocation_lockstep builtin e.maxDepth (related.imp fun _ _ same => same.toElsewhere))
      splits
    have start : (Context.start file e.imports).Matches (Context.start file' e.imports) := ⟨rfl, rfl, rfl, rfl⟩
    refine (chunks.traced start).bind fun x y done => ?_
    refine (Traced.Lockstep.lifted done.1).bind fun edits edits' all => ?_
    refine (Traced.Lockstep.trace _ _).bind fun _ _ _ => .pure ⟨splice_related ?_ 0, done.2⟩
    exact List.rel_map (fun _ _ here => here.2) all

theorem format_lockstep (file file' : String) (source : Bytes) (required : List String) :
    Traced.Lockstep Eq (format file source required) (format file' source required) := by
  have parsed := parseFile_renames file file' source true
  unfold format
  generalize parseFile file source true = x at parsed
  generalize parseFile file' source true = y at parsed
  cases parsed with
  | error => exact .throw _ _
  | ok renames =>
    have paths : List.Forall₂ Eq required required := List.forall₂_same.mpr fun _ _ => rfl
    refine (Traced.Lockstep.forIn paths (R := ParsedFile.Renames) (fun p _ f f' same renames => ?_) renames).bind
      fun f f' renames => ?_
    · subst same
      have added := renames.addImport p
      dsimp only
      generalize f.addImport p = x at added
      generalize f'.addImport p = y at added
      cases added with
      | none => exact .pure (.yield renames)
      | some renames => exact (Traced.Lockstep.trace _ _).bind fun _ _ _ => .pure (.yield renames)
    · dsimp only
      rw [renames.format_eq]
      split
      · exact .pure rfl
      · exact .throw _ _

theorem prepare_lockstep (builtin : e.IsBuiltin) (file file' : String) (source : Bytes) :
    Traced.Lockstep Substituted (e.prepare file source) (e.prepare file' source) := by
  refine (substitute_lockstep builtin file file' source).bind fun x y same => ?_
  obtain ⟨out, c⟩ := x
  obtain ⟨_, c'⟩ := y
  obtain ⟨rfl, same⟩ := same
  dsimp only at same ⊢
  rw [same.requiredPaths]
  exact (format_lockstep file file' out _).bind fun _ _ laid => .pure ⟨laid, same⟩

/-! ## Conditionals -/

theorem siblingText_lockstep (builtin : e.IsBuiltin) (file file' path path' name : String) (content : Bytes)
    (outputs : List String) : Traced.Lockstep Eq (e.siblingText file path name content outputs)
      (e.siblingText file' path' name content outputs) := by
  unfold siblingText
  split
  · refine (prepare_lockstep builtin path path' content).tried.bind fun x y akin => ?_
    cases akin with
    | ok same => exact .pure (congrArg some same.1)
    | error => exact (Traced.Lockstep.trace _ _).bind fun _ _ _ => .pure rfl
  split
  · exact .pure rfl
  · exact .pure rfl

/-- Two spellings of a path that stand for one place of a tree. -/
structure Spells (t : FileTree) (p p' : String) : Prop where
  found : t.exists? p = t.exists? p'
  base : Path.base p = Path.base p'
  siblings : t.list (Path.dir p) = t.list (Path.dir p')

variable {t : FileTree}

theorem Spells.refl (t : FileTree) (p : String) : Spells t p p := ⟨rfl, rfl, rfl⟩

/-- Paths of one file are spellings of one path. -/
theorem Spells.of_relative? {p p' clean : String} {content content' : Bytes} (found : t.find p = .ok (.file content))
    (found' : t.find p' = .ok (.file content')) (there : t.relative? p = some clean)
    (there' : t.relative? p' = some clean) : Spells t p p' := by
  obtain ⟨-, asks, clean', same, entry⟩ := FileTree.find_eq_file found
  obtain rfl := Option.some.inj (there.symm.trans same)
  obtain ⟨-, asks', -⟩ := FileTree.find_eq_file found'
  have inside : clean ≠ "." := FileTree.ne_dot_of_entry (t := t) (by simp [entry])
  have name := Path.isPart_lastPart asks
  have name' := Path.isPart_lastPart asks'
  constructor
  · rw [FileTree.exists?, FileTree.exists?, found, found']
    rfl
  · rw [Path.base_eq name.nonempty, Path.base_eq name'.nonempty, ← FileTree.lastPart_relative there inside name,
      FileTree.lastPart_relative there' inside name']
  · unfold FileTree.list
    rw [FileTree.relative?_dir name name' there there']

theorem packageFiles_lockstep (builtin : e.IsBuiltin) (spells : Spells t file file') (package : String) :
    Traced.Lockstep (List.Forall₂ ParsedFile.Renames) (e.packageFiles t file package)
      (e.packageFiles t file' package) := by
  unfold packageFiles
  dsimp only
  rw [spells.found, spells.base, spells.siblings]
  split
  · exact .pure .nil
  have entries : List.Forall₂ Eq (t.list (Path.dir file')) (t.list (Path.dir file')) :=
    List.forall₂_same.mpr fun _ _ => rfl
  refine (Traced.Lockstep.forIn entries (R := List.Forall₂ ParsedFile.Renames) (fun x _ fs fs' same all => ?_)
    .nil).bind fun _ _ all => .pure all
  subst same
  obtain ⟨name, entry⟩ := x
  cases entry with
  | directory => exact .pure (.yield all)
  | file content =>
    dsimp only
    split
    · refine (siblingText_lockstep builtin file file' _ _ name content _).bind fun text _ same => ?_
      subst same
      cases text with
      | none => exact .pure (.yield all)
      | some text =>
        have parsed := parseFile_renames (Path.join [Path.dir file, name]) (Path.join [Path.dir file', name]) text false
        dsimp only
        generalize parseFile (Path.join [Path.dir file, name]) text false = x at parsed
        generalize parseFile (Path.join [Path.dir file', name]) text false = y at parsed
        cases parsed with
        | error => exact .pure (.yield all)
        | ok renames =>
          dsimp only
          rw [renames.file]
          split
          · exact .pure (.yield (List.rel_append all (.cons renames .nil)))
          · exact .pure (.yield all)
    · exact .pure (.yield all)

theorem lower_lockstep (builtin : e.IsBuiltin) (spells : Spells t file file') (source : Bytes) (c c' : Context) :
    Traced.Lockstep Eq (e.lower t file source c) (e.lower t file' source c') := by
  have parsed := parseFile_renames file file' source false
  unfold lower
  generalize parseFile file source false = x at parsed
  generalize parseFile file' source false = y at parsed
  cases parsed with
  | error => exact .throw _ _
  | @ok f f' renames =>
    dsimp only
    rw [renames.file]
    split
    · exact .pure rfl
    refine (packageFiles_lockstep builtin spells _).bind fun others others' all => ?_
    have read (declaration : List ParsedFile) : (f :: others ++ declaration).map ParsedFile.file =
        (f' :: others' ++ declaration).map ParsedFile.file := by
      have siblings : others.map ParsedFile.file = others'.map ParsedFile.file :=
        List.forall₂_eq_eq_eq ▸ List.rel_map (fun _ _ renames => renames.file) all
      simp [siblings, renames.file]
    rw [read]
    generalize Typing.check _ _ = checked
    generalize List.filter _ _ = failed
    cases failed with
    | nil => exact (Traced.Lockstep.trace _ _).bind fun _ _ _ => .pure rfl
    | cons => exact .throw _ _

/-- What a source expands to does not depend on how its path is spelled. -/
theorem expandSource_lockstep (builtin : e.IsBuiltin) (spells : Spells t file file') (source : Bytes) :
    Traced.Lockstep Eq (e.expandSource t file source) (e.expandSource t file' source) := by
  refine (prepare_lockstep builtin file file' source).bind fun x y same => ?_
  obtain ⟨prepared, c⟩ := x
  obtain ⟨_, c'⟩ := y
  obtain ⟨rfl, same⟩ := same
  have conditionals : c.conditionals.isEmpty = c'.conditionals.isEmpty := by
    have length := same.conditionals
    cases left : c.conditionals <;> cases right : c'.conditionals <;> simp_all
  dsimp only at same ⊢
  have header : headerOf file = headerOf file' := by
    unfold headerOf
    rw [spells.base]
  rw [conditionals, header]
  have rest (out : Bytes) : Traced.Lockstep Eq
      (pure (if e.header = true then headerOf file' ++ out else out) : Traced Bytes)
      (pure (if e.header = true then headerOf file' ++ out else out) : Traced Bytes) := .pure rfl
  split
  · exact rest prepared
  · refine (lower_lockstep builtin spells prepared c c').bind fun x y same => ?_
    subst same
    refine (format_lockstep file file' x.1 x.2).bind fun out _ same => ?_
    subst same
    exact rest out

end
end Expander
end Desugar

import Desugar.Proofs.Expand.Nesting
import Desugar.Proofs.Form.Places

/-!
# Diagnostics and expansions stand at their invocations

In a stream whose tokens follow each other in one file, everything that is said about an invocation is
said of a place between its name and its closing delimiter, and so far stand all tokens that it expands
to. Nested invocations lie between the same two, so one range serves all depths: it is enough that the
name, the closing delimiter and the body stand in it.
-/
namespace Desugar

variable {file : String} {lo hi : Int}

/-- The tokens of an invocation stand in a range. -/
structure Invocation.Within (file : String) (lo hi : Int) (i : Invocation) : Prop where
  name : i.name.span.Within file lo hi
  closer : i.closer.span.Within file lo hi
  body : AllWithin file lo hi i.body

namespace Invocation

theorem Written.within {i : Invocation} {word : List Token} (written : Written i word)
    (all : AllWithin file lo hi word) : i.Within file lo hi := by
  cases written with
  | @intro name bang opener closer body =>
    refine ⟨all name (by simp), all closer (by simp), fun t member => all t ?_⟩
    simp [member]

theorem closing_within {want : TokenKind} {outer : List TokenKind} {ts : List Token}
    (all : AllWithin file lo hi ts) {d : Diagnostic} (failed : closing want outer ts = .error d) :
    d.span.Within file lo hi := by
  induction ts generalizing want outer with
  | nil => cases failed
  | cons t ts ih =>
    obtain ⟨here, later⟩ := allWithin_cons.mp all
    have further {want : TokenKind} {outer : List TokenKind}
        (failed : prepend t (closing want outer ts) = .error d) : d.span.Within file lo hi := by
      cases inner : closing want outer ts with
      | error d' =>
        rw [inner] at failed
        cases failed
        exact ih later inner
      | ok found =>
        rw [inner] at failed
        cases failed
    cases opens : t.kind.closer? with
    | some k => exact further (closing_opener opens ▸ failed)
    | none =>
      cases closes : t.kind.isClose with
      | false => exact further (closing_plain opens closes ▸ failed)
      | true =>
        by_cases same : t.kind = want
        · subst same
          cases outer with
          | nil =>
            rw [closing_last closes] at failed
            cases failed
          | cons next outer => exact further (closing_inner closes ▸ failed)
        · rw [closing_wrong closes same] at failed
          cases failed
          exact here

theorem atFront_within {ts : List Token} (all : AllWithin file lo hi ts) {d : Diagnostic}
    (failed : atFront ts = .error d) : d.span.Within file lo hi := by
  unfold atFront at failed
  split at failed
  · cases failed
  · rename_i name closer rest opens
    obtain ⟨bang, opener, rfl, -⟩ := opening_eq_some opens
    split at failed
    · rename_i inner
      cases failed
      exact closing_within (fun t member => all t (by simp [member])) inner
    · cases failed
    · cases failed
      exact all name (by simp)

/-- What a stream is split into stands where the stream does. -/
theorem splitFrom_within {before ts : List Token} (front : AllWithin file lo hi before)
    (all : AllWithin file lo hi ts) :
    (∀ chunk ∈ (splitFrom before ts).chunks, AllWithin file lo hi chunk.1 ∧
      chunk.2.Within file lo hi) ∧ AllWithin file lo hi (splitFrom before ts).rest ∧
        ∀ d ∈ (splitFrom before ts).failure, d.span.Within file lo hi := by
  have turned {before : List Token} (front : AllWithin file lo hi before) :
      AllWithin file lo hi before.reverse :=
    front.mono (List.reverse_subset.mpr (List.Subset.refl _))
  fun_induction splitFrom before ts with
  | case1 before ts d failed =>
    refine ⟨by simp, ?_, by simpa using atFront_within all failed⟩
    exact List.forall_mem_append.mpr ⟨turned front, all⟩
  | case2 before ts i rest found shorter s ih =>
    obtain ⟨word, written, rfl⟩ := (atFront_eq_some_iff _ _ _).mp found
    obtain ⟨here, later⟩ := List.forall_mem_append.mp all
    obtain ⟨chunks, left, failure⟩ := ih (by simp [AllWithin]) later
    refine ⟨List.forall_mem_cons.mpr ⟨⟨turned front, written.within here⟩, chunks⟩, left, failure⟩
  | case3 before => exact ⟨by simp, turned front, by simp⟩
  | case4 before t ts nothing ih =>
    obtain ⟨here, later⟩ := allWithin_cons.mp all
    exact ih (allWithin_cons.mpr ⟨here, front⟩) later

end Invocation

namespace Expander

open Invocation Form

/-- What comes of a computation in every context: a result of some kind, or a failure all of whose
diagnostics stand in a range. -/
def Lands {α : Type} (file : String) (lo hi : Int) (result : α → Prop) (x : Expansion α) : Prop :=
  ∀ (ctx : Context) (log : Array String), EndsIn file lo hi result ((x.run.run ctx).run log).1.1

namespace Lands

variable {α β : Type} {result : α → Prop} {other : β → Prop}

theorem pure {a : α} (h : result a) : Lands file lo hi result (Pure.pure a) := fun _ _ => h

theorem throw {f : Failure} (h : ∀ d ∈ f.toDiagnostics, d.span.Within file lo hi) :
    Lands file lo hi result (throw f) := fun _ _ => h

theorem bind {x : Expansion α} {f : α → Expansion β} (first : Lands file lo hi result x)
    (second : ∀ a, result a → Lands file lo hi other (f a)) : Lands file lo hi other (x >>= f) := by
  intro ctx log
  have before := first ctx log
  rw [ExceptT.run_bind, StateT.run_bind, StateT.run_bind]
  generalize (x.run.run ctx).run log = done at before
  obtain ⟨⟨outcome, ctx'⟩, log'⟩ := done
  cases outcome with
  | error f => exact before
  | ok a => exact second a before ctx' log'

/-- What holds of a loop's state before each round holds behind the last. -/
theorem forIn {γ : Type} {step : γ → β → Expansion (ForInStep β)} {cs : List γ}
    (each : ∀ c ∈ cs, ∀ b, other b → Lands file lo hi (fun next => other next.value) (step c b)) {b : β}
    (start : other b) : Lands file lo hi other (ForIn.forIn cs b step) := by
  induction cs generalizing b with
  | nil => exact .pure start
  | cons c cs ih =>
    rw [List.forIn_cons]
    refine (each c List.mem_cons_self b start).bind fun next kept => ?_
    cases next with
    | done b => exact .pure kept
    | yield b => exact ih (fun c member => each c (List.mem_cons_of_mem _ member)) kept

end Lands

variable {e : Expander} {expandOne : Invocation → Expansion (List Token)}

theorem withGap_within {ts : List Token} (all : AllWithin file lo hi ts) (gap : Gap) :
    AllWithin file lo hi (withGap gap ts) := by
  cases ts with
  | nil => exact all
  | cons t ts =>
    obtain ⟨here, later⟩ := allWithin_cons.mp all
    exact allWithin_cons.mpr ⟨here, later⟩

/-- What has been noted of chunks stands in a range: expansions with what is before them, and
complaints. -/
structure Noted (file : String) (lo hi : Int)
    (noted : List (List Token × Invocation × List Token) × List Diagnostic) : Prop where
  expanded : ∀ x ∈ noted.1, AllWithin file lo hi x.1 ∧ AllWithin file lo hi x.2.2
  failures : ∀ d ∈ noted.2, d.span.Within file lo hi

theorem attempt_lands {chunk : List Token × Invocation} (before : AllWithin file lo hi chunk.1)
    (one : Lands file lo hi (AllWithin file lo hi) (expandOne chunk.2))
    {noted : List (List Token × Invocation × List Token) × List Diagnostic}
    (so_far : Noted file lo hi noted) :
    Lands file lo hi (fun next => Noted file lo hi next.value) (attempt expandOne chunk noted) := by
  intro ctx log
  have produced := one ctx log
  rw [attempt_run]
  generalize ((expandOne chunk.2).run.run ctx).run log = done at produced
  obtain ⟨⟨outcome, ctx'⟩, log'⟩ := done
  cases outcome with
  | error f => exact ⟨so_far.expanded, List.forall_mem_append.mpr ⟨so_far.failures, produced⟩⟩
  | ok ts => exact ⟨List.forall_mem_cons.mpr ⟨⟨before, produced⟩, so_far.expanded⟩, so_far.failures⟩

theorem expandStream_lands {ts : List Token} (all : AllWithin file lo hi ts)
    (each : ∀ chunk ∈ (split ts).chunks, Lands file lo hi (AllWithin file lo hi) (expandOne chunk.2)) :
    Lands file lo hi (AllWithin file lo hi) (expandStream expandOne ts) := by
  obtain ⟨chunks, rest, failure⟩ := splitFrom_within (show AllWithin file lo hi [] by simp [AllWithin]) all
  unfold expandStream
  dsimp only
  rw [expandChunks_eq]
  refine Lands.bind (Lands.bind (Lands.forIn ?_ ?_ : Lands file lo hi (Noted file lo hi) _) ?_ :
    Lands file lo hi (fun done => ∀ x ∈ done, AllWithin file lo hi x.1 ∧ AllWithin file lo hi x.2.2) _) ?_
  · intro chunk member noted so_far
    exact attempt_lands (chunks chunk member).1 (each chunk member) so_far
  · exact ⟨by simp, by simp⟩
  · intro noted whole
    split
    · rename_i f found
      obtain ⟨-, rfl⟩ := Failure.ofDiagnostics_eq_some_iff.mp found
      refine .throw fun d member => ?_
      have listed := (Diagnostic.sort_stable _).1.mem_iff.mp member
      rcases List.mem_append.mp listed with noted | last
      · exact whole.failures d noted
      · exact failure d (Option.mem_toList.mp last)
    · exact .pure fun x member => whole.expanded x (List.mem_reverse.mp member)
  · intro done expanded
    refine .pure (List.forall_mem_append.mpr ⟨fun t member => ?_, rest⟩)
    obtain ⟨⟨before, i, produced⟩, listed, here⟩ := List.mem_flatMap.mp member
    obtain ⟨kept, made⟩ := expanded _ listed
    rcases List.mem_append.mp here with front | behind
    · exact kept t front
    · exact withGap_within made i.name.gap t behind

theorem refuse_lands {i : Invocation} (name : i.name.span.Within file lo hi) (message : String)
    {result : List Token → Prop} : Lands file lo hi result (refuse i message) :=
  fun _ _ => .diagnostic name

/-- An invocation whose tokens stand in a range, and in which no interpolation is found, comes to tokens
and complaints that do. -/
theorem expandInvocation_lands {levels : Nat} {i : Invocation} (within : i.Within file lo hi)
    (plain : ∀ j ∈ i.family, ∀ form, e.registry.lookup j.name.text = some form →
      form ∈ builtins ∧ form.name ≠ "sin") :
    Lands file lo hi (AllWithin file lo hi) (e.expandInvocation levels i) := by
  induction levels generalizing i with
  | zero => exact refuse_lands within.name _
  | succ levels ih =>
    cases found : e.registry.lookup i.name.text with
    | none =>
      unfold expandInvocation
      simp only [found]
      split
      · exact refuse_lands within.name _
      · exact refuse_lands within.name _
    | some form =>
      obtain ⟨known, other⟩ := plain i (mem_family_self i) form found
      rw [expandInvocation_eq found]
      refine (expandStream_lands within.body fun chunk member => ?_).bind fun body read => ?_
      · obtain ⟨word, written, part⟩ := written_of_mem_chunks member
        refine ih (written.within (within.body.mono part.subset)) fun j inner => ?_
        exact plain j (mem_family_of_mem_chunks member inner)
      · intro ctx log
        have on : ({ ctx with span := i.span } : Context).span.Within file lo hi :=
          within.name.union within.closer
        have ends := transform_ends known other read on
        rw [finish_run]
        generalize form.transform { ctx with span := i.span } body = outcome at ends
        cases outcome with
        | error f => exact ends
        | ok done => exact ends

/-- Tokens that have valid spans of one file and follow each other: none starts or ends before the one
before it does. -/
structure Ascending (file : String) (ts : List Token) : Prop where
  placed : ∀ t ∈ ts, t.span.isValid = true ∧ t.span.start.file = file
  order : ts.Pairwise fun t u =>
    t.span.start.offset ≤ u.span.start.offset ∧ t.span.stop.offset ≤ u.span.stop.offset

/-- An invocation stands from the start of its name up to the end of its closing delimiter. -/
theorem Ascending.within {ts word : List Token} {i : Invocation} (ascending : Ascending file ts)
    (written : Written i word) (part : word <:+: ts) :
    i.Within file i.name.span.start.offset i.closer.span.stop.offset := by
  have order := ascending.order.sublist part.sublist
  have placed (t : Token) (member : t ∈ word) := ascending.placed t (part.subset member)
  refine written.within fun t member => ?_
  obtain ⟨valid, same⟩ := placed t member
  cases written with
  | @intro name bang opener closer body =>
    refine ⟨valid, same, ?_, ?_⟩
    · rcases List.mem_cons.mp member with rfl | later
      · exact Int.le_refl _
      · exact (List.rel_of_pairwise_cons order later).1
    · have split : name :: bang :: opener :: (body ++ [closer]) =
          (name :: bang :: opener :: body) ++ [closer] := rfl
      rw [split] at order member
      rcases List.mem_append.mp member with before | last
      · exact ((List.pairwise_append.mp order).2.2 t before closer (by simp)).2
      · obtain rfl := List.mem_singleton.mp last
        exact Int.le_refl _

/-- Whatever an invocation at the top level of a stream comes to, in any context and at any depth that is
left, is at its place: each diagnostic has a valid span of the file between the start of its name and the
end of its closing delimiter, and so has each token it expands to. Names may be unknown or disabled; what
is found under one, here and in all that nests in it, is a form of the library but the interpolation. -/
theorem expansion_within {ts : List Token} (ascending : Ascending file ts)
    {chunk : List Token × Invocation} (member : chunk ∈ (split ts).chunks)
    (plain : ∀ j ∈ chunk.2.family, ∀ form, e.registry.lookup j.name.text = some form →
      form ∈ builtins ∧ form.name ≠ "sin") (levels : Nat) (ctx : Context) (log : Array String) :
    let i := chunk.2
    let outcome := (((e.expandInvocation levels i).run.run ctx).run log).1.1
    let here := Span.Within file i.name.span.start.offset i.closer.span.stop.offset
    (∀ f, outcome = .error f → ∀ d ∈ f.toDiagnostics, here d.span) ∧
      ∀ out, outcome = .ok out → ∀ t ∈ out, here t.span := by
  intro i outcome here
  obtain ⟨word, written, part⟩ := written_of_mem_chunks member
  have lands : EndsIn file _ _ _ outcome :=
    expandInvocation_lands (ascending.within written part) plain ctx log
  constructor
  · intro f failed
    rw [failed] at lands
    exact lands
  · intro out succeeded
    rw [succeeded] at lands
    exact lands

instance (file : String) (ts : List Token) : Decidable (Ascending file ts) :=
  decidable_of_iff ((∀ t ∈ ts, t.span.isValid = true ∧ t.span.start.file = file) ∧
    ts.Pairwise fun t u =>
      t.span.start.offset ≤ u.span.start.offset ∧ t.span.stop.offset ≤ u.span.stop.offset)
    ⟨fun h => ⟨h.1, h.2⟩, fun h => ⟨h.placed, h.order⟩⟩

/-- The host complains about the second word of the inner invocation. -/
theorem expansion_within_inner :
    let e : Expander := ⟨.standard, ⟨"", ""⟩, 64, false, ".sgo", ⟨0, 3, 0, "", ""⟩⟩
    ∃ ts chunk, Lexer.lex "m.sgo" (Text.utf8 "elv!((boo!(x y))?:(z))") = .ok ts ∧
      Ascending "m.sgo" ts ∧ chunk ∈ (split ts).chunks ∧ ∃ f,
        (((e.expandInvocation 64 chunk.2).run.run (.start "m.sgo" e.imports)).run #[]).1.1 = .error f ∧
          ∀ d ∈ f.toDiagnostics, d.span.Within "m.sgo" 0 22 := by
  intro e
  have given : (Lexer.lex "m.sgo" (Text.utf8 "elv!((boo!(x y))?:(z))")).toOption.any (fun ts =>
      decide (Ascending "m.sgo" ts) && (split ts).chunks.any fun chunk =>
        chunk.2.family.all (·.name.text != "sin") && chunk.2.name.span.start.offset == 0 &&
          chunk.2.closer.span.stop.offset == 22 &&
            (((e.expandInvocation 64 chunk.2).run.run (.start "m.sgo" e.imports)).run #[]).1.1.toOption.isNone)
      = true := by
    decide +kernel
  obtain ⟨ts, read, facts⟩ := (Option.any_eq_true ..).mp given
  simp only [Bool.and_eq_true, List.any_eq_true, List.all_eq_true, bne_iff_ne, beq_iff_eq,
    decide_eq_true_eq, Option.isNone_iff_eq_none] at facts
  obtain ⟨ascending, chunk, member, ⟨⟨others, starts⟩, stops⟩, failed⟩ := facts
  have builtin : e.IsBuiltin := rfl
  have within := expansion_within (e := e) ascending member (fun j inner form found =>
    ⟨builtin.mem found, lookup_name found ▸ others j inner⟩) 64 (.start "m.sgo" e.imports) #[]
  dsimp only at within
  rw [starts, stops] at within
  cases outcome : (((e.expandInvocation 64 chunk.2).run.run (.start "m.sgo" e.imports)).run #[]).1.1 with
  | ok out =>
    rw [outcome] at failed
    cases failed
  | error f =>
    exact ⟨ts, chunk, eq_ok_of_toOption read, ascending, member, f, outcome, within.1 f outcome⟩

end Expander
end Desugar

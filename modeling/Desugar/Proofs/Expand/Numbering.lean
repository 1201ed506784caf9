import Desugar.Proofs.Expand.Nesting
import Desugar.Proofs.Expand.Splice
import Desugar.Proofs.Form.Numbers

/-!
# Conditionals and their numbers

The conditionals of a source are numbered as they are expanded, those in the body of one before it. No two
invocations have a name or a closing delimiter in common, so no two stand at the same place: a number leads
back to one invocation. Wherever the expansions around a conditional put its placeholder, and however often,
its number stays behind it.
-/
namespace Desugar

namespace Lexer

theorem Laid.ascending {text : Bytes} {told last : Nat} {ts : List Token} (laid : Laid text told last ts) :
    (∀ t ∈ ts, (last : Int) ≤ t.span.start.offset) ∧
      ts.Pairwise fun t u => t.span.start.offset < u.span.start.offset := by
  induction laid with
  | done => simp
  | token starts _ long _ _ _ blank _ _ ih =>
    obtain ⟨behind, order⟩ := ih
    have forward := blank.le
    refine ⟨List.forall_mem_cons.mpr ⟨by omega, fun t member => ?_⟩, List.pairwise_cons.mpr ⟨fun t member => ?_, order⟩⟩
    · have := behind t member
      omega
    · have := behind t member
      omega

/-- No two tokens start at the same offset. -/
theorem nodup_starts {file : String} {text : Bytes} {ts : List Token} (read : lex file text = .ok ts) :
    (ts.map fun t => t.span.start.offset).Nodup :=
  List.pairwise_map.mpr ((lex_laid read).ascending.2.imp fun less => Int.ne_of_lt less)

end Lexer

namespace Invocation

/-- The tokens that an invocation stands between. -/
def marks (i : Invocation) : List Token := [i.name, i.closer]

/-- The conditionals among some invocations. -/
def conditionals (is : List Invocation) : List Invocation :=
  is.filter fun i => i.name.text ∈ Form.conditionalNames

/-- Where the conditionals among some invocations stand. -/
def places (is : List Invocation) : List Span := (conditionals is).map span

/-- Where the spreads among some invocations stand. -/
def spreads (is : List Invocation) : List Span := (is.filter fun i => i.name.text = "spr").map span

theorem places_append (is js : List Invocation) : places (is ++ js) = places is ++ places js := by
  simp [places, conditionals]

theorem places_singleton (i : Invocation) :
    places [i] = if i.name.text ∈ Form.conditionalNames then [i.span] else [] := by
  unfold places conditionals
  rw [List.filter_singleton]
  split <;> simp_all

theorem Written.marks_subperm {i : Invocation} {word : List Token} (written : Written i word) :
    (i.body ++ i.marks).Subperm word := by
  cases written with
  | @intro name bang opener closer body =>
    have moved : (body ++ [name, closer]).Perm (name :: (body ++ [closer])) := List.perm_middle
    refine moved.subperm.trans (List.Sublist.subperm ?_)
    exact ((List.Sublist.refl _).cons opener |>.cons bang).cons_cons name

/-- Names and closing delimiters of all invocations are tokens of the stream, each one only once. -/
theorem marks_subperm (ts : List Token) : ((allIn ts).flatMap marks).Subperm ts := by
  induction size : ts.length using Nat.strongRecOn generalizing ts with
  | ind n ih =>
    subst size
    have chunks (before us : List Token) (part : us.length ≤ ts.length) :
        (((splitFrom before us).chunks.map (·.2)).flatMap fun i => i.family.flatMap marks).Subperm us := by
      fun_induction splitFrom before us with
      | case1 before us => exact List.nil_subperm
      | case2 before us i rest found shorter s ih' =>
        obtain ⟨word, written, rfl⟩ := (atFront_eq_some_iff _ _ _).mp found
        have long := written.body_length
        rw [List.length_append] at part
        have family : (i.family.flatMap marks).Subperm word := by
          have inner := ih i.body.length (by omega) i.body rfl
          rw [family, List.flatMap_append, List.flatMap_singleton]
          exact (inner.append (List.Subperm.refl _)).trans written.marks_subperm
        rw [List.map_cons, List.flatMap_cons]
        exact family.append (ih' (by omega))
      | case3 before => exact List.nil_subperm
      | case4 before t us nothing ih' =>
        rw [List.length_cons] at part
        exact (ih' (by omega)).trans (List.sublist_cons_self t us).subperm
    have whole := chunks [] ts (Nat.le_refl _)
    rwa [allIn_eq, List.flatMap_assoc]

/-- An invocation starts with its name, or with its closing delimiter if the name has no valid span. -/
theorem mark_of_span (i : Invocation) : ∃ t ∈ i.marks, t.span.start = i.span.start := by
  have name : i.name ∈ i.marks := by simp [marks]
  have closer : i.closer ∈ i.marks := by simp [marks]
  unfold span Span.union
  split
  · exact ⟨i.closer, closer, rfl⟩
  · split
    · exact ⟨i.name, name, rfl⟩
    · split
      · exact ⟨i.name, name, rfl⟩
      · dsimp only
        split
        · exact ⟨i.closer, closer, rfl⟩
        · exact ⟨i.name, name, rfl⟩

theorem mem_allIn_iff {ts : List Token} {i : Invocation} :
    i ∈ allIn ts ↔ ∃ chunk ∈ (split ts).chunks, i ∈ chunk.2.family := by
  rw [allIn_eq, List.flatMap_map]
  exact List.mem_flatMap

theorem mem_family_iff {i j : Invocation} : j ∈ i.family ↔ j ∈ allIn i.body ∨ j = i := by
  simp [family]

/-- Every invocation stands in the stream. -/
theorem written_of_mem_allIn {ts : List Token} {i : Invocation} (member : i ∈ allIn ts) :
    ∃ word, Written i word ∧ word <:+: ts := by
  induction size : ts.length using Nat.strongRecOn generalizing ts with
  | ind n ih =>
    subst size
    obtain ⟨chunk, listed, inner⟩ := mem_allIn_iff.mp member
    obtain ⟨outer, written, part⟩ := written_of_mem_chunks listed
    rcases mem_family_iff.mp inner with deeper | rfl
    · obtain ⟨word, written', part'⟩ := ih _ (body_length_of_mem_chunks listed) deeper rfl
      exact ⟨word, written', part'.trans (written.invokes.2.trans part)⟩
    · exact ⟨outer, written, part⟩

/-- All invocations in the body of one are invocations of the stream. -/
theorem family_subset {ts : List Token} {i : Invocation} (member : i ∈ allIn ts) : i.family ⊆ allIn ts := by
  induction size : ts.length using Nat.strongRecOn generalizing ts with
  | ind n ih =>
    subst size
    obtain ⟨chunk, listed, inner⟩ := mem_allIn_iff.mp member
    rcases mem_family_iff.mp inner with deeper | rfl
    · intro j within
      have behind := ih _ (body_length_of_mem_chunks listed) deeper rfl within
      exact mem_allIn_iff.mpr ⟨chunk, listed, mem_family_iff.mpr (.inl behind)⟩
    · exact fun j within => mem_allIn_iff.mpr ⟨chunk, listed, within⟩

/-- What holds of all tokens of a stream holds of those between its invocations. -/
theorem splitFrom_forall {p : Token → Prop} {before ts : List Token} (front : ∀ t ∈ before, p t)
    (all : ∀ t ∈ ts, p t) : (∀ chunk ∈ (splitFrom before ts).chunks, ∀ t ∈ chunk.1, p t) ∧
      ∀ t ∈ (splitFrom before ts).rest, p t := by
  have turned {before : List Token} (front : ∀ t ∈ before, p t) : ∀ t ∈ before.reverse, p t :=
    fun t member => front t (List.mem_reverse.mp member)
  fun_induction splitFrom before ts with
  | case1 before ts => exact ⟨by simp, List.forall_mem_append.mpr ⟨turned front, all⟩⟩
  | case2 before ts i rest found shorter s ih =>
    obtain ⟨word, -, rfl⟩ := (atFront_eq_some_iff _ _ _).mp found
    obtain ⟨chunks, left⟩ := ih (by simp) (List.forall_mem_append.mp all).2
    exact ⟨List.forall_mem_cons.mpr ⟨turned front, chunks⟩, left⟩
  | case3 before => exact ⟨by simp, turned front⟩
  | case4 before t ts nothing ih =>
    obtain ⟨here, later⟩ := List.forall_mem_cons.mp all
    exact ih (List.forall_mem_cons.mpr ⟨here, front⟩) later

section
variable {file : String} {text : Bytes} {ts : List Token} (read : Lexer.lex file text = .ok ts)
include read

/-- No two invocations of a source have the same span. -/
theorem spans_nodup : ((allIn ts).map span).Nodup := by
  obtain ⟨us, same, part⟩ := marks_subperm ts
  have apart := (Lexer.nodup_starts read).sublist (part.map _)
  have apart := (same.map fun t => t.span.start.offset).nodup_iff.mp apart
  rw [List.map_flatMap] at apart
  refine List.pairwise_map.mpr ((List.nodup_flatMap.mp apart).2.imp fun {i j} disjoint alike => ?_)
  obtain ⟨t, mark, starts⟩ := i.mark_of_span
  obtain ⟨u, mark', starts'⟩ := j.mark_of_span
  refine disjoint (List.mem_map.mpr ⟨t, mark, rfl⟩) (List.mem_map.mpr ⟨u, mark', ?_⟩)
  rw [starts, starts', alike]

theorem span_mem_places {i : Invocation} (member : i ∈ allIn ts) :
    i.span ∈ places (allIn ts) ↔ i.name.text ∈ Form.conditionalNames := by
  constructor
  · intro listed
    obtain ⟨j, conditional, alike⟩ := List.mem_map.mp listed
    obtain ⟨inner, named⟩ := List.mem_filter.mp conditional
    obtain rfl := List.inj_on_of_nodup_map (spans_nodup read) inner member alike
    exact of_decide_eq_true named
  · exact fun named => List.mem_map_of_mem (List.mem_filter.mpr ⟨member, decide_eq_true named⟩)

/-- A token with the span of a conditional is its name or its closing delimiter. -/
theorem mark_of_place {t : Token} (member : t ∈ ts) (place : t.span ∈ places (allIn ts)) :
    t.kind ≠ .int ∧ ¬ Form.IsPlaceholder t := by
  obtain ⟨i, conditional, alike⟩ := List.mem_map.mp place
  obtain ⟨inner, named⟩ := List.mem_filter.mp conditional
  obtain ⟨u, mark, starts⟩ := i.mark_of_span
  have listed : u ∈ ts := (marks_subperm ts).subset (List.mem_flatMap.mpr ⟨i, inner, mark⟩)
  obtain rfl := List.inj_on_of_nodup_map (Lexer.nodup_starts read) listed member (by rw [starts, alike])
  obtain ⟨word, written, -⟩ := written_of_mem_allIn inner
  simp only [marks, List.mem_cons, List.not_mem_nil, or_false] at mark
  cases written with
  | @intro name bang opener closer body kinds _ _ pair =>
    rcases mark with rfl | rfl
    · refine ⟨fun int => by simp [int] at kinds, fun isPlaceholder => ?_⟩
      have other : u.text ∈ Form.conditionalNames := of_decide_eq_true named
      rw [Token.text, isPlaceholder.literal] at other
      exact absurd other (by decide +kernel)
    · have isClose := (closer_of_closer? pair).1
      refine ⟨fun int => ?_, fun isPlaceholder => ?_⟩
      · rw [int] at isClose
        cases isClose
      · rw [isPlaceholder.kind] at isClose
        cases isClose

/-- Tokens of the source have no numbers of conditionals. -/
theorem accounted_of_source (imports : Imports) {us : List Token} (part : ∀ t ∈ us, t ∈ ts) :
    Form.Accounted imports (places (allIn ts)) (Invocation.spreads (allIn ts)) ts us where
  whole := {
    sound := {
      numbered := Form.numbered_of_forall fun t member isPlaceholder place =>
        absurd isPlaceholder (mark_of_place read (part t member) place).2
      legal := fun t member => Lexer.isLegal_of_lexAt read t (part t member) }
    settled := fun t last int place => (mark_of_place read (part t (List.mem_of_getLast? last)) place).1 int
    own := fun t last _ => ⟨t, part t (List.mem_of_getLast? last), rfl⟩ }
  traced _ _ t member _ := .inl (.inl ⟨t, part t member, rfl⟩)

end

end Invocation

namespace Expander

open Invocation Form Lexer

/-! ## Success -/

variable {e : Expander} {expandOne : Invocation → Expansion (List Token)} {ctx ctx' : Context}
  {log log' : Array String}

/-- What a computation and the one behind it give. -/
theorem gives_bind {α β : Type} {x : Expansion α} {f : α → Expansion β} {b : β}
    (gives : Gives (x >>= f) ctx log b ctx' log') :
    ∃ a ctx₁ log₁, Gives x ctx log a ctx₁ log₁ ∧ Gives (f a) ctx₁ log₁ b ctx' log' := by
  unfold Gives at gives
  rw [ExceptT.run_bind, StateT.run_bind, StateT.run_bind] at gives
  obtain ⟨⟨result, ctx₁⟩, log₁, first⟩ : ∃ result log₁, (x.run.run ctx).run log = (result, log₁) := ⟨_, _, rfl⟩
  rw [first] at gives
  cases result with
  | error f => cases gives
  | ok a => exact ⟨a, ctx₁, log₁, first, gives⟩

theorem gives_pure {α : Type} {a b : α} (gives : Gives (pure a) ctx log b ctx' log') :
    b = a ∧ ctx' = ctx ∧ log' = log := by
  cases gives
  exact ⟨rfl, rfl, rfl⟩

/-- Attempts none of which fails. -/
theorem expandsAll_of_attempts {is : List Invocation}
    (all : ∀ r ∈ (attempts expandOne is ctx log).1.1, ∃ out, r = .ok out) :
    ∃ edits, ExpandsAll expandOne ctx log is edits (attempts expandOne is ctx log).1.2
      (attempts expandOne is ctx log).2 := by
  induction is generalizing ctx log with
  | nil => exact ⟨[], .nil ctx log⟩
  | cons i is ih =>
    simp only [attempts] at all ⊢
    obtain ⟨⟨result, ctx₁⟩, log₁, first⟩ : ∃ result log₁, ((expandOne i).run.run ctx).run log = (result, log₁) :=
      ⟨_, _, rfl⟩
    rw [first] at all ⊢
    obtain ⟨⟨out, rfl⟩, later⟩ := List.forall_mem_cons.mp all
    obtain ⟨edits, rest⟩ := ih later
    exact ⟨(i, out) :: edits, .cons first rest⟩

theorem attempts_reports (tells : ∀ i, Tells (expandOne i)) (is : List Invocation) (ctx : Context)
    (log : Array String) : ∀ r ∈ (attempts expandOne is ctx log).1.1, Reports r := by
  induction is generalizing ctx log with
  | nil => exact List.forall_mem_nil _
  | cons i is ih => exact List.forall_mem_cons.mpr ⟨tells i ctx log, ih _ _⟩

/-- Chunks that are expanded are so one after the other. -/
theorem gives_expandChunks (tells : ∀ i, Tells (expandOne i)) {s : Split}
    {done : List (List Token × Invocation × List Token)}
    (gives : Gives (expandChunks expandOne s) ctx log done ctx' log') :
    s.failure = none ∧ ∃ edits, ExpandsAll expandOne ctx log (s.chunks.map (·.2)) edits ctx' log' ∧
      done = (s.chunks.map (·.1)).zip edits := by
  obtain ⟨done', whole⟩ := @expandChunks_attempts expandOne s ctx log
  have reports := attempts_reports tells (s.chunks.map (·.2)) ctx log
  have expanded := @expandsAll_of_attempts expandOne ctx log (s.chunks.map (·.2))
  have given : ((expandChunks expandOne s).run.run ctx).run log = ((.ok done, ctx'), log') := gives
  rw [given] at whole
  generalize attempts expandOne (s.chunks.map (·.2)) ctx log = all at whole reports expanded
  obtain ⟨⟨results, ctx₁⟩, log₁⟩ := all
  dsimp only at whole
  split at whole
  · cases whole
  rename_i silent
  obtain ⟨empty, complete⟩ := List.append_eq_nil_iff.mp (Failure.ofDiagnostics_eq_none_iff.mp silent)
  have complete : s.failure = .none := Option.toList_eq_nil_iff.mp complete
  obtain ⟨same, rfl⟩ := Prod.mk.inj whole
  obtain ⟨-, rfl⟩ := Prod.mk.inj same
  obtain ⟨edits, expandsAll⟩ := expanded ((complaints_eq_nil_iff reports).mp empty)
  refine ⟨complete, edits, expandsAll, ?_⟩
  have determined := given.symm.trans (expandChunks_gives complete expandsAll)
  exact Except.ok.inj (Prod.mk.inj (Prod.mk.inj determined).1).1

/-! ## Numbers that are taken -/

/-- What the expansion of some invocations does to the numbers: those of the conditionals come behind the
ones so far. -/
structure Counts (is : List Invocation) (ctx ctx' : Context) : Prop where
  imports : ctx'.imports = ctx.imports
  conditionals : ctx'.conditionals = ctx.conditionals ++ places is

theorem Counts.trans {is js : List Invocation} {ctx₁ ctx₂ ctx₃ : Context} (first : Counts is ctx₁ ctx₂)
    (second : Counts js ctx₂ ctx₃) : Counts (is ++ js) ctx₁ ctx₃ where
  imports := second.imports.trans first.imports
  conditionals := by rw [second.conditionals, first.conditionals, places_append, List.append_assoc]

/-- Wherever the next places of the list are those of an invocation and of all in its body, its expansion
takes their numbers, and the numbers in what it gives lead back. -/
def LeadsBack (places spreads : List Span) (source : List Token) (imports : Imports) (i : Invocation)
    (x : Expansion (List Token)) : Prop :=
  ∀ ctx log out ctx' log', ctx.imports = imports → ctx.conditionals ++ Invocation.places i.family <+: places →
    Gives x ctx log out ctx' log' → Counts i.family ctx ctx' ∧ Accounted imports places spreads source out

variable {places spreads : List Span} {source : List Token} {imports : Imports}

theorem ExpandsAll.leadsBack {is : List Invocation} {edits : List (Invocation × List Token)}
    (all : ExpandsAll expandOne ctx log is edits ctx' log')
    (each : ∀ i ∈ is, LeadsBack places spreads source imports i (expandOne i)) (same : ctx.imports = imports)
    (listed : ctx.conditionals ++ Invocation.places (is.flatMap family) <+: places) :
    Counts (is.flatMap family) ctx ctx' ∧ ∀ edit ∈ edits, Accounted imports places spreads source edit.2 := by
  induction all with
  | nil ctx log => exact ⟨⟨rfl, (List.append_nil _).symm⟩, List.forall_mem_nil _⟩
  | @cons ctx ctx₁ ctx₂ log log₁ log₂ i produced is edits first rest ih =>
    obtain ⟨one, others⟩ := List.forall_mem_cons.mp each
    rw [List.flatMap_cons, places_append, ← List.append_assoc] at listed
    obtain ⟨counts, whole⟩ := one ctx log produced ctx₁ log₁ same ((List.prefix_append ..).trans listed) first
    rw [← counts.conditionals] at listed
    obtain ⟨counts', wholes⟩ := ih others (counts.imports.trans same) listed
    exact ⟨counts.trans counts', List.forall_mem_cons.mpr ⟨whole, wholes⟩⟩

theorem withGap_bare (gap : Gap) (ts : List Token) :
    (withGap gap ts).map Token.bare = ts.map Token.bare := by
  cases ts <;> rfl

theorem expandStream_leadsBack (tells : ∀ i, Tells (expandOne i)) {body out : List Token}
    (kept : ∀ us : List Token, (∀ t ∈ us, t ∈ body) → Accounted imports places spreads source us)
    (each : ∀ chunk ∈ (split body).chunks, LeadsBack places spreads source imports chunk.2 (expandOne chunk.2))
    (same : ctx.imports = imports) (listed : ctx.conditionals ++ Invocation.places (allIn body) <+: places)
    (gives : Gives (expandStream expandOne body) ctx log out ctx' log') :
    Counts (allIn body) ctx ctx' ∧ Accounted imports places spreads source out := by
  obtain ⟨done, ctx₁, log₁, expanded, rest⟩ := gives_bind gives
  obtain ⟨rfl, rfl, -⟩ := gives_pure rest
  obtain ⟨-, edits, all, rfl⟩ := gives_expandChunks tells expanded
  obtain ⟨fronts, last⟩ := @splitFrom_forall (· ∈ body) [] body (by simp) fun _ => id
  rw [allIn_eq] at listed ⊢
  obtain ⟨counts, wholes⟩ := all.leadsBack (List.forall_mem_map.mpr each) same listed
  refine ⟨counts, Accounted.append (.flatMap ?_) (kept _ last)⟩
  rintro ⟨before, i, produced⟩ member
  obtain ⟨front, edit⟩ := List.of_mem_zip member
  obtain ⟨chunk, member', rfl⟩ := List.mem_map.mp front
  exact (kept _ (fronts chunk member')).append ((wholes _ edit).congr (withGap_bare ..))

/-- What an invocation is expanded to comes from its form. -/
theorem gives_expandInvocation {levels : Nat} {i : Invocation} {out : List Token}
    (gives : Gives (e.expandInvocation levels i) ctx log out ctx' log') :
    ∃ n form, levels = n + 1 ∧ e.registry.lookup i.name.text = some form ∧ ∃ body ctx₁ log₁,
      Gives (expandStream (e.expandInvocation n) i.body) ctx log body ctx₁ log₁ ∧
        form.transform { ctx₁ with span := i.span } body = .ok (out, ctx') := by
  cases levels with
  | zero => cases gives
  | succ n =>
    cases found : e.registry.lookup i.name.text with
    | none =>
      unfold expandInvocation at gives
      simp only [found] at gives
      split at gives <;> cases gives
    | some form =>
      rw [expandInvocation_eq found] at gives
      obtain ⟨body, ctx₁, log₁, inner, last⟩ := gives_bind gives
      refine ⟨n, form, rfl, rfl, body, ctx₁, log₁, inner, ?_⟩
      unfold Gives at last
      rw [finish_run] at last
      split at last
      · cases last
      · rename_i out' ctx'' transformed
        cases last
        exact transformed

section
variable {file : String} {text : Bytes} {ts : List Token} (read : Lexer.lex file text = .ok ts)
include read

/-- The numbers of an invocation of a source come behind those in its body. -/
theorem expandInvocation_leadsBack (builtin : e.IsBuiltin) (named : IsName (packageName imports.truth).toList)
    {levels : Nat} {i : Invocation} (member : i ∈ allIn ts) :
    LeadsBack (Invocation.places (allIn ts)) (Invocation.spreads (allIn ts)) ts imports i
      (e.expandInvocation levels i) := by
  induction levels generalizing i with
  | zero =>
    intro ctx log out ctx' log' same listed gives
    cases gives
  | succ levels ih =>
    intro ctx log out ctx' log' same listed gives
    obtain ⟨n, form, level, found, body, ctx₁, log₁, inner, transformed⟩ := gives_expandInvocation gives
    obtain rfl := Nat.succ.inj level
    obtain ⟨word, written, part⟩ := written_of_mem_allIn member
    have known := builtin.mem found
    have name := lookup_name found
    rw [family, places_append, ← List.append_assoc] at listed
    have plain (us : List Token) (kept : ∀ t ∈ us, t ∈ i.body) := accounted_of_source read imports
      fun t inside => part.subset (written.invokes.2.subset (kept t inside))
    obtain ⟨counts, accounted⟩ := expandStream_leadsBack (expandInvocation_tells builtin levels) plain
      (fun chunk inside =>
        ih (family_subset member (mem_family_of_mem_chunks inside (mem_family_self chunk.2))))
      same ((List.prefix_append ..).trans listed) inner
    rw [← counts.conditionals, places_singleton, ← name] at listed
    obtain ⟨kept, noted⟩ := transform_conditionals known transformed
    have all : Counts i.family ctx ctx' := by
      refine counts.trans ⟨kept, noted.trans ?_⟩
      rw [places_singleton, ← name]
    refine ⟨all, transform_accounted known ?_ named accounted (fun conditional => ?_) (fun other => ?_)
      (fun spread => ?_) transformed⟩
    · exact counts.imports.trans same
    · rw [if_pos conditional] at listed
      obtain ⟨rest, whole⟩ := listed
      simp [← whole]
    · rwa [name, ← span_mem_places read member] at other
    · exact List.mem_map_of_mem (List.mem_filter.mpr ⟨member, decide_eq_true (name.symm.trans spread)⟩)

end

/-- What a conditional is expanded to starts with a placeholder at its place. -/
theorem expandInvocation_placeholder (builtin : e.IsBuiltin) {levels : Nat} {i : Invocation} {out : List Token}
    (conditional : i.name.text ∈ conditionalNames)
    (gives : Gives (e.expandInvocation levels i) ctx log out ctx' log') :
    ∃ t rest, out = t :: rest ∧ IsPlaceholder t ∧ t.span = i.span := by
  obtain ⟨n, form, -, found, body, ctx₁, log₁, -, transformed⟩ := gives_expandInvocation gives
  exact transform_placeholder (builtin.mem found) (by rwa [lookup_name found]) transformed

/-! ## From a source to its numbers -/

variable {file : String} {source out : Bytes}

/-- A source is expanded if all its invocations are, one after the other. -/
theorem expandsAll_of_substitute (builtin : e.IsBuiltin)
    (done : (e.substitute file source).run.run log = (.ok (out, ctx), log')) :
    ∃ ts edits log₁, lex file source = .ok ts ∧ out = splice source 0 edits ∧
      ExpandsAll (e.expandInvocation e.maxDepth) (Context.start file e.imports) log
        ((split ts).chunks.map (·.2)) edits ctx log₁ := by
  obtain ⟨ts, chunks, log₁, -, read, run, rfl⟩ := expanded_of_substitute done
  obtain ⟨-, edits, expanded, rfl⟩ := gives_expandChunks (expandInvocation_tells builtin e.maxDepth) run
  refine ⟨ts, edits, log₁, read, congrArg _ ?_, expanded⟩
  rw [List.map_snd_zip]
  simpa using Nat.le_of_eq (congrArg List.length expanded.invocations)

theorem substituted_of_prepare
    (prepared : (e.prepare file source).run.run log = (.ok (out, ctx), log')) :
    ∃ text log₁, (e.substitute file source).run.run log = (.ok (text, ctx), log₁) ∧
      (format file text ctx.requiredPaths).run.run log₁ = (.ok out, log') := by
  obtain ⟨result, log₁, run⟩ : ∃ result log₁, (e.substitute file source).run.run log = (result, log₁) :=
    ⟨_, _, rfl⟩
  unfold prepare at prepared
  rw [ExceptT.run_bind, StateT.run_bind, run] at prepared
  cases result with
  | error f => cases congrArg Prod.fst prepared
  | ok done =>
    obtain ⟨text, ctx₁⟩ := done
    change ((format file text ctx₁.requiredPaths >>= fun laidOut => pure (laidOut, ctx₁)).run.run log₁) = _
      at prepared
    rw [ExceptT.run_bind, StateT.run_bind] at prepared
    obtain ⟨result, log₂, laid⟩ : ∃ result log₂,
      (format file text ctx₁.requiredPaths).run.run log₁ = (result, log₂) := ⟨_, _, rfl⟩
    rw [laid] at prepared
    cases result with
    | error f => cases congrArg Prod.fst prepared
    | ok laidOut =>
      cases prepared
      exact ⟨text, log₁, run, laid⟩

/-- What stands behind a placeholder that carries a number. -/
inductive Carries (n : Nat) : List Token → Prop where
  | intro {opener number : Token} {rest : List Token} (opens : opener.kind = .lparen) (kind : number.kind = .int)
      (literal : number.literal = Text.utf8 n.repr) : Carries n (opener :: number :: rest)

/-- The number of a conditional leads back to it. -/
theorem carries_of_numbered {package : String} {is : List Invocation} (apart : (is.map span).Nodup)
    {ts us : List Token} (numbered : Numbered package (is.map span) ts us) {n : Nat} {i : Invocation}
    (listed : is[n]? = some i)
    {front rest : List Token} {t : Token} (whole : us = front ++ t :: rest) (isPlaceholder : IsPlaceholder t)
    (place : t.span = i.span) (own : ¬ Interpolated ts t) :
    Carries (n + 1) rest ∨ package = placeholder ∧ rest.head?.map Token.kind = some .period := by
  have here : (is.map span)[n]? = some i.span := by rw [List.getElem?_map, listed]; rfl
  have leads := numbered front t rest whole isPlaceholder (place ▸ List.mem_of_getElem? here) own
  cases leads with
  | package named kind => exact .inr ⟨named, congrArg some kind⟩
  | @number opener number rest m opens kind literal _ listed' _ =>
    rw [place] at listed'
    obtain rfl : m = n := by
      have bound := (List.getElem?_eq_some_iff.mp listed').1
      exact (List.getElem?_inj bound apart).mp (listed'.trans here.symm)
    exact .inl ⟨opens, kind, literal⟩

/-- Every placeholder in what a source is expanded to is copied from it, or has the span of a conditional, or is a
field of a spread that is copied from the source, if the packages have other names that can be written. -/
theorem origin_of_accounted {imports : Imports} {ts us : List Token}
    (accounted : Accounted imports (Invocation.places (allIn ts)) (Invocation.spreads (allIn ts)) ts us)
    (sugar : Ordinary (packageName imports.sugar)) (truth : Ordinary (packageName imports.truth)) {t : Token}
    (member : t ∈ us) (isPlaceholder : IsPlaceholder t) : Copied ts t ∨
      (∃ i ∈ conditionals (allIn ts), t.span = i.span) ∨
        ∃ i ∈ allIn ts, i.name.text = "spr" ∧ t.span = i.span ∧ ∃ u, IsPlaceholder u ∧ Copied ts u := by
  obtain copied | place | ⟨place, spelt⟩ := accounted.traced sugar truth t member isPlaceholder
  · exact .inl copied
  · obtain ⟨i, inner, same⟩ := List.mem_map.mp place
    exact .inr (.inl ⟨i, inner, same.symm⟩)
  · obtain ⟨i, inner, same⟩ := List.mem_map.mp place
    obtain ⟨listed, named⟩ := List.mem_filter.mp inner
    exact .inr (.inr ⟨i, listed, of_decide_eq_true named, same.symm, spelt⟩)

/-- In every source that is prepared the conditionals of all depths have numbers from 1 on, each its own, and
under the number the context has the place of the conditional. What is laid out is the source with tokens in the
place of the invocations at its top level. The placeholder that a conditional is emitted as a call of stands at
the place of the conditional, and among these tokens its number comes with it, however the invocations around
it have moved or copied it; identifiers of the same spelling in markers of string literals are told apart. The
package that conditions are tested with has to have a name that can be written; only if it has that of the
placeholder, a point may stand behind one. If neither package has it, every placeholder that is not copied from
the source, as a token or as a field of a spread, stands at the place of a conditional. -/
theorem conditionals_lead_back (builtin : e.IsBuiltin)
    (named : isKnownWord (packageName e.imports.orStandard.truth).toList none .identifier = true)
    (prepared : (e.prepare file source).run.run log = (.ok (out, ctx), log')) :
    ∃ ts edits log₁, lex file source = .ok ts ∧ edits.map (·.1) = (split ts).chunks.map (·.2) ∧
      (e.substitute file source).run.run log = (.ok (splice source 0 edits, ctx), log₁) ∧
      (format file (splice source 0 edits) ctx.requiredPaths).run.run log₁ = (.ok out, log') ∧
      let is := conditionals (allIn ts)
      let sugar := packageName e.imports.orStandard.sugar
      let truth := packageName e.imports.orStandard.truth
      (is.map span).Nodup ∧ ctx.conditionals.length = is.length ∧ (∀ (n : Nat) i, is[n]? = some i →
        ctx.conditionalSpan (n + 1) = i.span ∧
        (∀ levels c l produced c' l', Gives (e.expandInvocation levels i) c l produced c' l' →
          ∃ t rest, produced = t :: rest ∧ IsPlaceholder t ∧ t.span = i.span) ∧
        ∀ edit ∈ edits, ∀ front t rest, edit.2 = front ++ t :: rest → IsPlaceholder t → t.span = i.span →
          ¬ Interpolated ts t →
            Carries (n + 1) rest ∨ truth = placeholder ∧ rest.head?.map Token.kind = some .period) ∧
      (isKnownWord sugar.toList none .identifier = true → placeholder ∉ [sugar, truth] →
        ∀ edit ∈ edits, ∀ t ∈ edit.2, IsPlaceholder t → Copied ts t ∨ (∃ i ∈ is, t.span = i.span) ∨
          ∃ i ∈ allIn ts, i.name.text = "spr" ∧ t.span = i.span ∧ ∃ u, IsPlaceholder u ∧ Copied ts u) := by
  obtain ⟨text, log₁, substituted, laidOut⟩ := substituted_of_prepare prepared
  obtain ⟨ts, edits, log₂, read, rfl, expanded⟩ := expandsAll_of_substitute builtin substituted
  have each : ∀ i ∈ (split ts).chunks.map (·.2),
      LeadsBack (Invocation.places (allIn ts)) (Invocation.spreads (allIn ts)) ts e.imports.orStandard i
        (e.expandInvocation e.maxDepth i) := by
    refine List.forall_mem_map.mpr fun chunk member => ?_
    have inner : chunk.2 ∈ allIn ts := mem_allIn_iff.mpr ⟨chunk, member, mem_family_self chunk.2⟩
    exact expandInvocation_leadsBack read builtin (isName_of_known named) inner
  obtain ⟨counts, accounted⟩ := expanded.leadsBack each rfl (by rw [← allIn_eq]; exact List.prefix_rfl)
  have noted : ctx.conditionals = (conditionals (allIn ts)).map span := by
    rw [counts.conditionals, ← allIn_eq]
    rfl
  have apart : ((conditionals (allIn ts)).map span).Nodup :=
    (spans_nodup read).sublist (List.filter_sublist.map span)
  refine ⟨ts, edits, log₁, read, expanded.invocations, substituted, laidOut, apart, by rw [noted, List.length_map],
    fun n i listed => ⟨?_, fun levels c l produced c' l' gives => ?_, fun edit member front t rest whole =>
      carries_of_numbered apart (accounted edit member).whole.sound.numbered listed whole⟩,
    fun written other edit member t inside => ?_⟩
  · unfold Context.conditionalSpan
    rw [if_neg (by omega), noted]
    simp [List.getD, listed]
  · have conditional := (List.mem_filter.mp (List.mem_of_getElem? listed)).2
    exact expandInvocation_placeholder builtin (of_decide_eq_true conditional) gives
  · simp only [List.mem_cons, List.not_mem_nil, or_false, not_or] at other
    exact origin_of_accounted (accounted edit member) ⟨isName_of_known written, Ne.symm other.1⟩
      ⟨isName_of_known named, Ne.symm other.2⟩ inside

/-- The conditional in the condition of another is numbered first, and both of its copies carry that number. -/
theorem conditionals_lead_back_copied :
    let e : Expander := ⟨.standard, ⟨"", ""⟩, 64, false, ".sgo", ⟨0, 3, 0, "", ""⟩⟩
    let source := Text.utf8 "package p\nvar x = elv!((cxp!((a)?(b):(c)))?:(d))"
    let copied := "gosugar__cond(1, b, c)(truth.Of( a))"
    ∃ ts out ctx log log', lex "m.sgo" source = .ok ts ∧
      (e.prepare "m.sgo" source).run.run #[] = (.ok (out, ctx), log) ∧
      (e.substitute "m.sgo" source).run.run #[] = (.ok (Text.utf8
        s!"package p\nvar x = gosugar__cond(2, {copied}, d)(truth.Of( {copied}))", ctx), log') ∧
      (conditionals (allIn ts)).map (·.name.text) = ["cxp", "elv"] ∧ ctx.conditionals.length = 2 ∧
      ∀ (n : Nat) i, (conditionals (allIn ts))[n]? = some i → ctx.conditionalSpan (n + 1) = i.span := by
  intro e source copied
  have names : (lex "m.sgo" source).toOption.map (fun ts =>
      (conditionals (allIn ts)).map (·.name.text)) = some ["cxp", "elv"] := by decide +kernel
  have text : ((e.substitute "m.sgo" source).run.run #[]).1.toOption.map Prod.fst =
      some (Text.utf8 s!"package p\nvar x = gosugar__cond(2, {copied}, d)(truth.Of( {copied}))") := by decide +kernel
  have accepted : ((e.prepare "m.sgo" source).run.run #[]).1.toOption.isSome = true := by decide +kernel
  generalize prepared : (e.prepare "m.sgo" source).run.run #[] = result at accepted
  obtain ⟨_ | ⟨out, ctx⟩, log⟩ := result
  · cases accepted
  have builtin : e.IsBuiltin := rfl
  obtain ⟨ts, edits, log₁, read, -, substituted, -, -, count, leads, -⟩ :=
    conditionals_lead_back builtin (by decide +kernel) prepared
  rw [read] at names
  rw [substituted] at text
  have names : (conditionals (allIn ts)).map (·.name.text) = ["cxp", "elv"] := Option.some.inj names
  have text : splice source 0 edits = _ := Option.some.inj text
  rw [text] at substituted
  refine ⟨ts, out, ctx, log, log₁, read, rfl, substituted, names, ?_, fun n i listed => (leads n i listed).1⟩
  · rw [count]
    simpa using congrArg List.length names

end Expander
end Desugar

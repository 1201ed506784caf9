import Desugar.Proofs.Expand.Numbering

/-!
# Names that an expansion makes up

A form makes up names from the bases in use only, writes each of them into what it emits, and loses none of
the names in its body. So the names that an expansion has made up are those of the bases up to the numbers that
were reached, all of them are identifiers of the output, and they meet an identifier of the source exactly if
the source has one of that spelling whose number is reached.
-/
namespace Desugar

open Lexer

namespace Context

variable {c c' : Context} {name : String}

theorem made_of_counters (same : c'.counters = c.counters) (made : c'.Made name) : c.Made name := by
  simpa only [Made, countOf, same] using made

end Context

namespace Form

open Builder Context

variable {ctx ctx' : Context} {ts word : List Token} {stop : Span} {name : String}

/-! ## Names of a body

Whatever a grammar leaves out of a body is no identifier.
-/

theorem Enclosed.words {inner : List Token} (enclosed : Enclosed inner word) : words word = words inner := by
  cases enclosed with
  | intro opens closes nested =>
    rw [words_skip opens (by decide), words_append, words_skip closes (by decide), words_nil,
      List.append_nil]

theorem Negation.words {negated : Bool} (sign : Negation negated word) : words word = [] := by
  cases sign with
  | absent => rfl
  | present kind => exact words_skip kind (by decide) []

theorem Conditional.Written.words {e : Conditional} (written : e.Written ts) : words ts =
    words e.condition.tokens ++ (words e.result.tokens ++ words e.alternative.tokens) := by
  cases written with
  | intro negation first mark second separator third =>
    rw [words_append, negation.words, List.nil_append, words_append, first.enclosed.words,
      words_skip mark (by decide), words_append, second.enclosed.words,
      words_skip separator (by decide), third.enclosed.words]

theorem Elvis.Written.words {e : Elvis} (written : e.Written ts) : words ts =
    words e.condition.tokens ++ words e.alternative.tokens := by
  cases written with
  | intro negation first mark second =>
    rw [words_append, negation.words, List.nil_append, words_append, first.enclosed.words,
      words_skip mark (by decide), second.enclosed.words]

theorem ElvisAssign.Written.words {e : ElvisAssign} (written : e.Written ts) : words ts =
    words [e.target] ++ words e.alternative.tokens := by
  cases written with
  | intro negation first target mark second =>
    rw [words_append, negation.words, List.nil_append, words_append, first.words, words_skip mark (by decide),
      second.enclosed.words]

theorem IncDec.Written.words {e : IncDec} (written : e.Written ts) : words ts = words [e.name] := by
  cases written with
  | @intro operator target mark =>
    refine (words_append [e.name] [operator]).trans ?_
    rw [words_skip mark (by split <;> decide), words_nil, List.append_nil]

theorem Fields.words {fields : List Token} (shape : Fields fields word) :
    words word = fields.map Token.text := by
  induction shape with
  | nil => rfl
  | cons mark kind _ ih =>
    rw [words_skip mark (by decide), words_cons, if_pos kind, ih]
    rfl

theorem Spread.Written.words {e : Spread} (written : e.Written ts) : words ts =
    words e.iterable.tokens ++ e.fields.map Token.text := by
  cases written with
  | intro first rest => rw [words_append, first.enclosed.words, rest.words]

/-- The identifiers of an entry. -/
def MapEntry.names (e : MapEntry) : List String := words [e.key] ++ words e.value.tokens

theorem MapEntry.Written.words {e : MapEntry} (written : e.Written word) : words word = e.names := by
  cases written with
  | @intro colon key mark =>
    refine (words_append [e.key] (colon :: e.value.tokens)).trans ?_
    rw [words_skip mark (by decide), MapEntry.names]

theorem Entries.words {es : List MapEntry} (listed : Entries es word) :
    words word = es.flatMap MapEntry.names := by
  induction listed with
  | last written => rw [written.words, List.flatMap_singleton]
  | closed written mark =>
    rw [words_append, written.words, words_skip mark (by decide), words_nil, List.append_nil,
      List.flatMap_singleton]
  | cons written mark _ ih =>
    rw [words_append, written.words, words_skip mark (by decide), ih, List.flatMap_cons]

theorem Listing.words {es : List MapEntry} (listed : Listing es word) :
    words word = es.flatMap MapEntry.names := by
  cases listed with
  | nothing => rfl
  | colon kind => exact words_skip kind (by decide) []
  | entries written => exact written.words

theorem MapLiteral.Composes.words {m : MapLiteral} (composes : m.Composes ts) : words ts =
    words m.typeTokens ++ m.entries.flatMap MapEntry.names := by
  obtain ⟨listed, whole⟩ := composes
  cases whole with
  | bare => rw [words_append, listed.words]
  | within opens closes =>
    rw [words_skip opens (by decide), words_append, words_append, listed.words,
      words_skip closes (by decide), words_nil, List.append_nil]

/-! ## Names of an output -/

/-- No name is lost, and those that are made up are written. -/
structure Introduces (ctx ctx' : Context) (ts out : List Token) : Prop where
  kept : words ts ⊆ words out
  made (name : String) : ctx'.Made name → ctx.Made name ∨ name ∈ words out

theorem Conditional.emit_words (e : Conditional) (ctx : Context) : words e.condition.tokens ++
    (words e.result.tokens ++ words e.alternative.tokens) ⊆ words (e.emit ctx).1 := by
  intro w
  simp only [Conditional.emit, words_code, words_tokens, List.mem_append]
  tauto

theorem ElvisAssign.emit_words (e : ElvisAssign) (ctx : Context) :
    words [e.target] ++ words e.alternative.tokens ⊆ words (e.emit ctx).1 := by
  intro w
  simp only [ElvisAssign.emit, words_code, words_tokens, List.mem_append]
  tauto

theorem IncDec.emit_words (e : IncDec) (ctx : Context) : words [e.name] ⊆ words (e.emit ctx).1 := by
  intro w
  simp only [IncDec.emit, words_code, words_tokens, List.mem_append]
  tauto

theorem Truthiness.emit_words (e : Truthiness) (ctx : Context) : words e.value.tokens ⊆ words (e.emit ctx).1 := by
  intro w
  simp only [Truthiness.emit, words_code, words_tokens, List.mem_append]
  tauto

theorem MapLiteral.emit_words (m : MapLiteral) (ctx : Context) :
    words m.typeTokens ++ m.entries.flatMap MapEntry.names ⊆ words (m.emit ctx).1 := by
  obtain ⟨type, entries⟩ := m
  intro w member
  cases type with
  | none =>
    cases entries with
    | nil => cases member
    | cons first more =>
      simp only [typeTokens, Option.elim, words_nil, List.nil_append, List.flatMap_cons] at member
      simp only [MapLiteral.emit, words_code, List.mem_append]
      refine .inl (words_foldl (f := MapEntry.names) (fun b e w => ?_) more _ ?_)
      · simp only [MapEntry.names, words_code, words_tokens, List.mem_append]
        tauto
      · simp only [MapEntry.names, List.mem_append, words_code, words_tokens] at member ⊢
        tauto
  | some t =>
    cases entries with
    | nil =>
      simp only [typeTokens, Option.elim, List.flatMap_nil, List.append_nil] at member
      simp only [MapLiteral.emit, words_code, words_tokens, List.mem_append]
      exact .inl (.inr member)
    | cons first more =>
      simp only [MapLiteral.emit, words_code, List.mem_append]
      refine .inl (words_foldl (f := MapEntry.names) (fun b e w => ?_) (first :: more) _ ?_)
      · simp only [MapEntry.names, words_code, words_tokens, List.mem_append]
        tauto
      · simp only [typeTokens, Option.elim, List.mem_append, words_code, words_tokens] at member ⊢
        tauto

/-- The variable that a map is filled in is written. -/
theorem MapLiteral.emit_made (m : MapLiteral) (made : (m.emit ctx).2.Made name) :
    ctx.Made name ∨ name ∈ words (m.emit ctx).1 := by
  obtain ⟨type, entries⟩ := m
  cases type with
  | none => cases entries <;> exact .inl (made_of_counters rfl made)
  | some t =>
    cases entries with
    | nil => exact .inl made
    | cons first more =>
      refine ((ctx.made_fresh "m" name).mp made).symm.imp_right fun fresh => mem_words_code _ ?_
      have legible : IsName (ctx.fresh "m").1.toList := isName_fresh (Nat.succ_pos _) (by decide)
      change name ∈ codeWords (" return " ++ (ctx.fresh "m").1 ++ " \x7d()")
      rw [codeWords_eq (isCode_return legible)]
      simp [words_cons, Token.text, Text.toString_utf8, fresh]

/-- The call of a loop, behind which the fields of the element are. -/
theorem Spread.mem_emit {e : Spread} (nonempty : e.fields ≠ []) (w : String)
    (member : w ∈ codeWords (" " ++ (ctx.sugar.2.fresh "yield").1 ++ "(" ++
      ((ctx.sugar.2.fresh "yield").2.fresh "it").1) ∨ w ∈ words e.iterable.tokens ∨
        ∃ f ∈ e.fields, w ∈ codeWords ("." ++ f.text)) : w ∈ words (e.emit ctx).1 := by
  obtain ⟨iterable, fields⟩ := e
  cases fields with
  | nil => exact absurd rfl nonempty
  | cons first more =>
    simp only [Spread.emit, words_code, List.mem_append]
    refine .inl (words_foldl (f := fun f => codeWords ("." ++ f.text)) (fun b f => ?_) (first :: more) _ ?_)
    · rw [words_code]
      exact List.Subset.refl _
    · rw [List.mem_append, List.mem_flatMap, words_code, List.mem_append, words_code, List.mem_append, words_tokens,
        List.mem_append]
      rcases member with call | inside | selected
      · exact .inl (.inr call)
      · exact .inl (.inl (.inl (.inr inside)))
      · exact .inr selected

theorem Spread.emit_words (e : Spread) (ctx : Context) (legible : ∀ f ∈ e.fields, IsName f.text.toList) :
    words e.iterable.tokens ++ e.fields.map Token.text ⊆ words (e.emit ctx).1 := by
  intro w member
  rcases List.mem_append.mp member with inside | field
  · by_cases empty : e.fields = []
    · obtain ⟨iterable, fields⟩ := e
      subst empty
      simp only [Spread.emit, words_code, words_tokens, List.mem_append]
      exact .inl (.inr inside)
    · exact Spread.mem_emit empty w (.inr (.inl inside))
  · obtain ⟨f, listed, rfl⟩ := List.mem_map.mp field
    refine Spread.mem_emit (List.ne_nil_of_mem listed) _ (.inr (.inr ⟨f, listed, ?_⟩))
    rw [codeWords_eq (isCode_field [⟨.none, ".", .period⟩] (show ".".toList = _ by decide) (by decide)
      (legible f listed))]
    simp [words_cons, Token.text, Text.toString_utf8]

/-- The function and the variable of a loop are written. -/
theorem Spread.emit_made (e : Spread) (made : (e.emit ctx).2.Made name) :
    ctx.Made name ∨ name ∈ words (e.emit ctx).1 := by
  by_cases empty : e.fields = []
  · obtain ⟨iterable, fields⟩ := e
    subst empty
    exact .inl (made_of_counters rfl made)
  have advanced : (((ctx.sugar.2.fresh "yield").2.fresh "it").2).Made name := by
    obtain ⟨iterable, fields⟩ := e
    cases fields with
    | nil => exact absurd rfl empty
    | cons => exact made
  have legible : IsName (ctx.sugar.2.fresh "yield").1.toList := isName_fresh (Nat.succ_pos _) (by decide)
  have legible' : IsName ((ctx.sugar.2.fresh "yield").2.fresh "it").1.toList :=
    isName_fresh (Nat.succ_pos _) (by decide)
  have call := codeWords_eq (isCode_yield legible legible')
  simp only [words_cons, Token.text, Text.toString_utf8] at call
  rcases (made_fresh _ "it" name).mp advanced with rfl | earlier
  · exact .inr (Spread.mem_emit empty _ (.inl (by rw [call]; simp)))
  rcases (made_fresh _ "yield" name).mp earlier with rfl | before
  · exact .inr (Spread.mem_emit empty _ (.inl (by rw [call]; simp)))
  · exact .inl (made_of_counters rfl before)

/-- A form loses no name of its body and writes all that it makes up. -/
theorem transform_introduces {f : Form} (known : f ∈ builtins) {out : List Token} (body : ∀ t ∈ ts, IsLegal t)
    (done : f.transform ctx ts = .ok (out, ctx')) : Introduces ctx ctx' ts out := by
  have proper : ∀ t ∈ ts, t.kind ≠ .eof := fun t member => (body t member).proper
  have maps {m : MapLiteral} (parsed : MapLiteral.parse ctx.stop ts = .ok m) :
      Introduces ctx (m.emit ctx).2 ts (m.emit ctx).1 :=
    ⟨(MapLiteral.parse_reads parsed).words ▸ m.emit_words ctx, fun name made => m.emit_made made⟩
  simp only [builtins, List.mem_cons, List.not_mem_nil, or_false] at known
  rcases known with rfl | rfl | rfl | rfl | rfl | rfl | rfl | rfl | rfl <;>
    obtain ⟨e, parsed, rfl, rfl⟩ := transform_of done
  · have written := (Conditional.parse_iff proper).mp parsed
    exact ⟨written.words ▸ e.emit_words ctx, fun name made => .inl (made_of_counters rfl made)⟩
  · have written := (Elvis.parse_iff proper).mp parsed
    refine ⟨fun w member => ?_, fun name made => .inl (made_of_counters rfl made)⟩
    rw [written.words] at member
    refine Conditional.emit_words ⟨e.condition, e.condition, e.alternative, e.negated⟩ ctx ?_
    exact List.mem_append_right _ member
  · have written := (ElvisAssign.parse_iff proper).mp parsed
    exact ⟨written.words ▸ e.emit_words ctx, fun name made => .inl (made_of_counters rfl made)⟩
  · have written := (IncDec.parse_iff proper).mp parsed
    exact ⟨written.words ▸ e.emit_words ctx, fun name made => .inl (made_of_counters rfl made)⟩
  · exact maps parsed
  · exact maps parsed
  · have written := (Spread.parse_iff proper).mp parsed
    refine ⟨written.words ▸ e.emit_words ctx fun f member => ?_, fun name made => e.emit_made made⟩
    obtain ⟨part, kind⟩ := (Spread.parse_parts parsed).2 f member
    exact ((body f (part.subset (List.mem_singleton_self f))).named kind).1
  · obtain ⟨single, kind⟩ := Interpolation.parse_single proper parsed
    refine ⟨?_, fun name made => .inl ?_⟩
    · rw [single, words_skip kind (by decide)]
      exact List.nil_subset _
    · obtain ⟨literal, template, _ | _⟩ := e <;> exact made_of_counters rfl made
  · have same := Truthiness.parse_tokens parsed
    exact ⟨same ▸ e.emit_words ctx, fun name made => .inl (made_of_counters rfl made)⟩

end Form

namespace Expander

open Context Form Invocation

variable {e : Expander} {expandOne : Invocation → Expansion (List Token)} {ctx ctx' : Context}
  {log log' : Array String}

/-! ## Names of a run -/

/-- Whatever an invocation is expanded to consists of tokens as texts are read into, and all names that are made
up on the way are among them. -/
def Writes (x : Expansion (List Token)) : Prop :=
  ∀ ctx log out ctx' log', Gives x ctx log out ctx' log' →
    ctx.Advances ctx' ∧ (∀ t ∈ out, IsLegal t) ∧ ∀ name, ctx'.Made name → ctx.Made name ∨ name ∈ words out

theorem ExpandsAll.writes {is : List Invocation} {edits : List (Invocation × List Token)}
    (all : ExpandsAll expandOne ctx log is edits ctx' log') (each : ∀ i ∈ is, Writes (expandOne i)) :
    ctx.Advances ctx' ∧ (∀ edit ∈ edits, ∀ t ∈ edit.2, IsLegal t) ∧
      ∀ name, ctx'.Made name → ctx.Made name ∨ ∃ edit ∈ edits, name ∈ words edit.2 := by
  induction all with
  | nil ctx log => exact ⟨.refl ctx, List.forall_mem_nil _, fun name => .inl⟩
  | @cons ctx ctx₁ ctx₂ log log₁ log₂ i produced is edits first rest ih =>
    obtain ⟨one, others⟩ := List.forall_mem_cons.mp each
    obtain ⟨advances, legal, made⟩ := one ctx log produced ctx₁ log₁ first
    obtain ⟨advances', legals, mades⟩ := ih others
    refine ⟨advances.trans advances', List.forall_mem_cons.mpr ⟨legal, legals⟩, fun name last => ?_⟩
    rcases mades name last with earlier | ⟨edit, member, written⟩
    · exact (made name earlier).imp_right fun written => ⟨(i, produced), List.mem_cons_self, written⟩
    · exact .inr ⟨edit, List.mem_cons_of_mem _ member, written⟩

theorem expandStream_writes (tells : ∀ i, Tells (expandOne i)) {body : List Token}
    (legal : ∀ t ∈ body, IsLegal t) (each : ∀ chunk ∈ (split body).chunks, Writes (expandOne chunk.2)) :
    Writes (expandStream expandOne body) := by
  intro ctx log out ctx' log' gives
  obtain ⟨done, ctx₁, log₁, expanded, rest⟩ := gives_bind gives
  obtain ⟨rfl, rfl, -⟩ := gives_pure rest
  obtain ⟨-, edits, all, rfl⟩ := gives_expandChunks tells expanded
  obtain ⟨advances, legals, made⟩ := all.writes (List.forall_mem_map.mpr each)
  obtain ⟨fronts, last⟩ := @splitFrom_forall IsLegal [] body (by simp) legal
  have whole : (((split body).chunks.map (·.1)).zip edits).map (·.2) = edits := by
    refine List.map_snd_zip ?_
    simpa using Nat.le_of_eq (congrArg List.length all.invocations)
  refine ⟨advances, List.forall_mem_append.mpr ⟨fun t member => ?_, last⟩, fun name given => ?_⟩
  · obtain ⟨⟨before, i, produced⟩, zipped, inner⟩ := List.mem_flatMap.mp member
    obtain ⟨front, edit⟩ := List.of_mem_zip zipped
    obtain ⟨chunk, listed, rfl⟩ := List.mem_map.mp front
    rcases List.mem_append.mp inner with plain | changed
    · exact fronts chunk listed t plain
    · exact legal_of_bare (legals _ edit) (withGap_bare ..) t changed
  · refine (made name given).imp_right fun ⟨edit, member, written⟩ => ?_
    rw [← words_congr (withGap_bare edit.1.name.gap edit.2)] at written
    rw [← whole] at member
    obtain ⟨⟨before, edit⟩, zipped, rfl⟩ := List.mem_map.mp member
    refine words_mono (fun t inside => ?_) written
    exact List.mem_append_left _ (List.mem_flatMap.mpr ⟨_, zipped, List.mem_append_right _ inside⟩)

/-- So do all invocations, whatever their bodies hold. -/
theorem expandInvocation_writes (builtin : e.IsBuiltin) {levels : Nat} {i : Invocation}
    (legal : ∀ t ∈ i.body, IsLegal t) : Writes (e.expandInvocation levels i) := by
  induction levels generalizing i with
  | zero =>
    intro ctx log out ctx' log' gives
    cases gives
  | succ levels ih =>
    intro ctx log out ctx' log' gives
    obtain ⟨n, form, level, found, body, ctx₁, log₁, inner, transformed⟩ := gives_expandInvocation gives
    obtain rfl := Nat.succ.inj level
    have known := builtin.mem found
    have stream := expandStream_writes (expandInvocation_tells builtin levels) legal fun chunk inside => by
      obtain ⟨word, written, part⟩ := written_of_mem_chunks inside
      exact ih fun t member => legal t (part.subset (written.invokes.2.subset member))
    obtain ⟨advances, legal', made⟩ := stream ctx log body ctx₁ log₁ inner
    have introduces := transform_introduces known legal' transformed
    have spanned : ctx₁.Advances { ctx₁ with span := i.span } := .of_counters rfl
    refine ⟨(advances.trans spanned).trans (transform_advances known transformed),
      transform_legal known legal' transformed, fun name last => ?_⟩
    rcases introduces.made name last with earlier | written
    · exact (made name (made_of_counters rfl earlier)).imp_right fun written => introduces.kept written
    · exact .inr written

variable {file : String} {source out : Bytes}

/-- The identifiers of a source. -/
def identifiers (file : String) (source : Bytes) : List String := words ((lex file source).toOption.getD [])

/-- All names that an expansion has made up are identifiers of its output, among the tokens in the place of the
invocations at the top level. None of them is an identifier of the source exactly if the source has none of the
names of the three bases up to the numbers that were reached. -/
theorem substitute_hygienic_iff (builtin : e.IsBuiltin)
    (done : (e.substitute file source).run.run log = (.ok (out, ctx), log')) :
    ∃ ts edits, lex file source = .ok ts ∧ edits.map (·.1) = (split ts).chunks.map (·.2) ∧
      out = splice source 0 edits ∧ (∀ name, ctx.Made name → ∃ edit ∈ edits, name ∈ words edit.2) ∧
      ((∀ name ∈ identifiers file source, ¬ ctx.Made name) ↔
        ∀ base ∈ bases, ∀ n, 0 < n → n ≤ ctx.countOf base →
          s!"{base}__{n}" ∉ identifiers file source) := by
  obtain ⟨ts, edits, log₁, read, rfl, expanded⟩ := expandsAll_of_substitute builtin done
  have legal := isLegal_of_lexAt read
  obtain ⟨advances, -, made⟩ := expanded.writes <| List.forall_mem_map.mpr fun chunk inside =>
    expandInvocation_writes builtin fun t member => by
      obtain ⟨word, written, part⟩ := written_of_mem_chunks inside
      exact legal t (part.subset (written.invokes.2.subset member))
  have unmade (name : String) : ¬ (Context.start file e.imports).Made name := by
    rintro ⟨base, n, pos, le, -⟩
    exact absurd le (Nat.not_le_of_lt pos)
  refine ⟨ts, edits, read, expanded.invocations, rfl, fun name last => (made name last).resolve_left (unmade name), ?_⟩
  constructor
  · intro apart base _ n pos le member
    exact apart _ member ⟨base, n, pos, le, rfl⟩
  · rintro apart name member ⟨base, n, pos, le, rfl⟩
    exact apart base (advances.base_of_start pos le) n pos le member

/-- An identifier whose number is not reached is met by no name. -/
theorem substitute_hygienic_behind :
    let e : Expander := ⟨.standard, ⟨"", ""⟩, 64, false, ".sgo", ⟨0, 3, 0, "", ""⟩⟩
    let source := Text.utf8 "hml!\x7bmap[a]b 1: m__2\x7d"
    ∃ out ctx log, (e.substitute "m.sgo" source).run.run #[] = (.ok (out, ctx), log) ∧
      ctx.Made "m__1" ∧ ∀ name ∈ identifiers "m.sgo" source, ¬ ctx.Made name := by
  intro e source
  have reached : ((e.substitute "m.sgo" source).run.run #[]).1.toOption.map
      (fun done => bases.map done.2.countOf) = some [1, 0, 0] := by decide +kernel
  have other : "m__1" ∉ identifiers "m.sgo" source := by decide +kernel
  generalize run : (e.substitute "m.sgo" source).run.run #[] = result at reached
  obtain ⟨_ | ⟨out, ctx⟩, log⟩ := result
  · cases reached
  simp only [Except.toOption, Option.map_some, bases, List.map_cons, List.map_nil, Option.some.injEq,
    List.cons.injEq, and_true] at reached
  obtain ⟨m, yield, it⟩ := reached
  have builtin : e.IsBuiltin := rfl
  refine ⟨out, ctx, log, rfl, ⟨"m", 1, by decide, by rw [m], rfl⟩, ?_⟩
  obtain ⟨-, -, -, -, -, -, apart⟩ := substitute_hygienic_iff builtin run
  refine apart.mpr fun base used n pos le => ?_
  simp only [bases, List.mem_cons, List.not_mem_nil, or_false] at used
  rcases used with rfl | rfl | rfl
  · obtain rfl : n = 1 := by omega
    exact other
  · omega
  · omega

/-- An entry of a filled map that names a variable `m__1` of the source gets the map itself. -/
theorem expandSource_captures :
    let e : Expander := ⟨.standard, ⟨"", ""⟩, 64, false, ".sgo", ⟨0, 3, 0, "", ""⟩⟩
    let source := Text.utf8 "package p\nvar x = hml!\x7bmap[a]b 1: m__1\x7d"
    let out := Text.utf8
      "package p\nvar x = func() map[a]b \x7b m__1 := make( map[a]b, 1); m__1[ 1] = m__1; return m__1 \x7d()"
    "m__1" ∈ identifiers "m.sgo" source ∧ ∃ ctx laidOut log,
      (e.substitute "m.sgo" source).run.run #[] = (.ok (out, ctx), log) ∧ ctx.Made "m__1" ∧
        (e.expandSource (.empty "") "m.sgo" source).run.run #[] = (.ok laidOut, log) := by
  intro e source out
  refine ⟨by decide +kernel, ?_⟩
  have given : ((e.substitute "m.sgo" source).run.run #[]).1.toOption.map (fun done =>
      (done.1, done.2.countOf "m", done.2.conditionals, done.2.requiredPaths)) = some (out, 1, [], []) := by
    decide +kernel
  have accepted : (Host.parseFile "m.sgo" out true).toOption.map
      (fun parsed => Host.Import.hasGroup parsed.file.decls) = some false := by decide +kernel
  obtain ⟨parsed, found, ungrouped⟩ := Option.map_eq_some_iff.mp accepted
  have laidOut : parsed.format = .ok (Text.utf8 parsed.lay) := by
    unfold Host.ParsedFile.format
    rw [ungrouped]
    rfl
  generalize run : (e.substitute "m.sgo" source).run.run #[] = result at given
  obtain ⟨_ | ⟨out', ctx⟩, log⟩ := result
  · cases given
  simp only [Except.toOption, Option.map_some, Option.some.injEq, Prod.mk.injEq] at given
  obtain ⟨rfl, m, complete, own⟩ := given
  have whole := expandSource_run rfl (.empty "") run complete own (eq_ok_of_toOption found)
  rw [laidOut] at whole
  exact ⟨ctx, _, log, rfl, ⟨"m", 1, by decide, by rw [m], rfl⟩, whole⟩

/-! ## Placeholders that are left

A placeholder is recognised by the shape of its call: an identifier, called with three arguments, called
with one. So an invocation behind a point, which makes the placeholder the name of a field or a method, stays a
placeholder.
-/

/-- The conditional of `x.cxp!((a)?(b):(c))` becomes the call of a method that nothing declares. -/
theorem expandSource_placeholder :
    let e : Expander := ⟨.standard, ⟨"", ""⟩, 64, false, ".sgo", ⟨0, 3, 0, "", ""⟩⟩
    let source := Text.utf8 "package p\ntype T [x.cxp!((a)?(b):(c))]int"
    Form.placeholder ∉ identifiers "m.sgo" source ∧ ∃ out log,
      (e.expandSource (.empty "") "m.sgo" source).run.run #[] = (.ok out, log) ∧
        Form.placeholder ∈ identifiers "m.sgo" out := by
  intro e source
  refine ⟨by decide +kernel, ?_⟩
  have given : ((e.expandSource (.empty "") "m.sgo" source).run.run #[]).1.toOption.any
      (fun out => Form.placeholder ∈ identifiers "m.sgo" out) = true := by decide +kernel
  generalize (e.expandSource (.empty "") "m.sgo" source).run.run #[] = result at given
  obtain ⟨_ | out, log⟩ := result
  · cases given
  · exact ⟨out, log, rfl, of_decide_eq_true given⟩

end Desugar.Expander

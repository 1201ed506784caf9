import Desugar.Proofs.Form.Code
import Desugar.Proofs.Form.Names
import Desugar.Proofs.Form.Parts

/-!
# What the forms emit is read again

Every form puts code and runs of the body's tokens together. Each boundary is one of few kinds: a run
stands behind a blank; code that stands behind a run begins with a blank or a delimiter; code behind
code stands behind a delimiter, or is a field behind a name. So the output is read as the tokens that it
is, unless a key of a map literal is a character literal that its line was left to end: a key is no
expression that the host has accepted.
-/
namespace Desugar

open Host Builder Lexer

namespace Builder

variable {b : Builder} {text : String} {ts : List Token}

theorem fits_empty (span : Span) (Y : List Char) : Fits (stream { span }) Y := .inr fun _ found => by cases found

/-- Code behind a blank or a delimiter of its own. -/
theorem Ready.behind (h : b.Ready) (code : ∃ ts, IsCode text ts) (calm : text.toList.head? ∈ idle) :
    (b.code text).Ready := by
  obtain ⟨ts, code⟩ := code
  exact h.code code (.inl calm)

theorem ready_first (span : Span) (code : ∃ ts, IsCode text ts) :
    (Builder.code { span } text).Ready := by
  obtain ⟨ts, code⟩ := code
  exact (ready_empty span).code code (fits_empty span _)

/-- Code behind code that ends in a delimiter. -/
theorem Ready.within {inner : String} (h : (b.code text).Ready)
    (opening : ∃ ts, IsCode text ts ∧ (ts.getLast?.map meaning).all (· ∈ delimiters) = true)
    (code : ∃ ts, IsCode inner ts) : ((b.code text).code inner).Ready := by
  obtain ⟨ts, outer, last⟩ := opening
  obtain ⟨us, code⟩ := code
  exact h.code code (fits_code outer last b _)

theorem isCode_close : ∃ ts, IsCode ")" ts :=
  ⟨_, isCode_known [⟨.none, ")", .rparen⟩] (by decide) (by decide) (by simp)⟩

theorem isCode_comma : ∃ ts, IsCode "," ts :=
  ⟨_, isCode_known [⟨.none, ",", .comma⟩] (by decide) (by decide) (by simp)⟩

end Builder

namespace Form

variable {ctx : Context}

theorem sugar_name (standard : ctx.imports = .standard) : packageName ctx.imports.sugar = "sugar" := by
  rw [standard]
  decide

theorem truth_name (standard : ctx.imports = .standard) : packageName ctx.imports.truth = "truth" := by
  rw [standard]
  decide

theorem IncDec.emit_legible {e : IncDec} (standard : ctx.imports = .standard) (name : Firm [e.name]) :
    Legible (e.emit ctx).1 := by
  have call : ∃ ts, IsCode ("sugar" ++ "." ++ (if e.increment then "Inc" else "Dec") ++ "(&") ts := by
    cases e.increment
    · exact ⟨_, isCode_known [⟨.none, "sugar", .identifier⟩, ⟨.none, ".", .period⟩,
        ⟨.none, "Dec", .identifier⟩, ⟨.none, "(", .lparen⟩, ⟨.none, "&", .operator⟩]
        (by decide) (by decide) (by simp)⟩
    · exact ⟨_, isCode_known [⟨.none, "sugar", .identifier⟩, ⟨.none, ".", .period⟩,
        ⟨.none, "Inc", .identifier⟩, ⟨.none, "(", .lparen⟩, ⟨.none, "&", .operator⟩]
        (by decide) (by decide) (by simp)⟩
  rw [← sugar_name standard] at call
  have ready := ((ready_first ctx.span call).tokens name).behind isCode_close (by decide)
  exact ready.legible

theorem Truthiness.emit_legible {e : Truthiness} (standard : ctx.imports = .standard)
    (value : Firm e.value.tokens) : Legible (e.emit ctx).1 := by
  have call : ∃ ts, IsCode ("truth" ++ ".Of(") ts :=
    ⟨_, isCode_known [⟨.none, "truth", .identifier⟩, ⟨.none, ".", .period⟩, ⟨.none, "Of", .identifier⟩,
      ⟨.none, "(", .lparen⟩] (by decide) (by decide) (by simp)⟩
  rw [← truth_name standard] at call
  have ready := ((ready_first ctx.span call).tokens value).behind isCode_close (by decide)
  exact ready.legible

theorem Conditional.emit_legible {e : Conditional} (standard : ctx.imports = .standard)
    (condition : Firm e.condition.tokens) (result : Firm e.result.tokens)
    (alternative : Firm e.alternative.tokens) : Legible (e.emit ctx).1 := by
  have test : ∃ ts, IsCode (")(" ++ sign e.negated ++ "truth" ++ ".Of(") ts :=
    ⟨_, isCode_test (isName_of_known (by decide)) e.negated⟩
  have calm : (")(" ++ sign e.negated ++ "truth" ++ ".Of(").toList.head? ∈ idle := by
    cases e.negated <;> decide
  have ends : ∃ ts, IsCode "))" ts :=
    ⟨_, isCode_known [⟨.none, ")", .rparen⟩, ⟨.none, ")", .rparen⟩] (by decide) (by decide)
      (by simp)⟩
  rw [← truth_name standard] at test calm
  have number : ∃ ts, IsCode _ ts := ⟨_, isCode_conditional (Nat.succ_pos ctx.conditionals.length)⟩
  have opened := (ready_first ctx.span number).tokens result
  have branches := (opened.behind isCode_comma (by decide)).tokens alternative
  have called := ((branches.behind test calm).tokens condition).behind ends (by decide)
  exact called.legible

theorem ElvisAssign.emit_legible {e : ElvisAssign} (standard : ctx.imports = .standard)
    (target : Firm [e.target]) (alternative : Firm e.alternative.tokens) : Legible (e.emit ctx).1 := by
  have test : ∃ ts, IsCode ("if " ++ sign (!e.negated) ++ "truth" ++ ".Of(") ts := by
    cases e.negated
    · exact ⟨_, isCode_known [⟨.none, "if", .keyword⟩, ⟨.space, "!", .not⟩, ⟨.none, "truth", .identifier⟩,
        ⟨.none, ".", .period⟩, ⟨.none, "Of", .identifier⟩, ⟨.none, "(", .lparen⟩]
        (by decide) (by decide) (by simp)⟩
    · exact ⟨_, isCode_known [⟨.none, "if", .keyword⟩, ⟨.space, "truth", .identifier⟩,
        ⟨.none, ".", .period⟩, ⟨.none, "Of", .identifier⟩, ⟨.none, "(", .lparen⟩]
        (by decide) (by decide) (by simp)⟩
  have block : ∃ ts, IsCode ") \x7b" ts :=
    ⟨_, isCode_known [⟨.none, ")", .rparen⟩, ⟨.space, "\x7b", .lbrace⟩] (by decide)
      (by decide) (by simp)⟩
  have assign : ∃ ts, IsCode " =" ts :=
    ⟨_, isCode_known [⟨.space, "=", .assign⟩] (by decide) (by decide) (by simp)⟩
  have ends : ∃ ts, IsCode " \x7d" ts :=
    ⟨_, isCode_known [⟨.space, "\x7d", .rbrace⟩] (by decide) (by decide) (by simp)⟩
  rw [← truth_name standard] at test
  have tested := (ready_first ctx.span test).tokens target
  have opened := (tested.behind block (by decide)).tokens target
  have assigned := (opened.behind assign (by decide)).tokens alternative
  exact (assigned.behind ends (by decide)).legible

/-! ## Map literals -/

/-- The parts of an entry are firm. -/
structure MapEntry.IsFirm (e : MapEntry) : Prop where
  key : Firm [e.key]
  value : Firm e.value.tokens

/-- Entries of a map whose type is inferred: every entry stands behind code that ends in a delimiter. -/
theorem MapLiteral.emit_inferred {first : MapEntry} {more : List MapEntry}
    (standard : ctx.imports = .standard) (entries : ∀ e ∈ first :: more, e.IsFirm) :
    Legible (MapLiteral.emit ⟨none, first :: more⟩ ctx).1 := by
  have opening : ∃ ts, IsCode ("sugar" ++ ".MapOf(") ts ∧
      (ts.getLast?.map meaning).all (· ∈ delimiters) = true :=
    ⟨_, isCode_known [⟨.none, "sugar", .identifier⟩, ⟨.none, ".", .period⟩, ⟨.none, "MapOf", .identifier⟩,
      ⟨.none, "(", .lparen⟩] (by decide) (by decide) (by simp), by decide⟩
  have entry : ∃ ts, IsCode ("sugar" ++ ".Entry(") ts :=
    ⟨_, isCode_known [⟨.none, "sugar", .identifier⟩, ⟨.none, ".", .period⟩, ⟨.none, "Entry", .identifier⟩,
      ⟨.none, "(", .lparen⟩] (by decide) (by decide) (by simp)⟩
  have comma : ∃ ts, IsCode "," ts ∧ (ts.getLast?.map meaning).all (· ∈ delimiters) = true :=
    ⟨_, isCode_known [⟨.none, ",", .comma⟩] (by decide) (by decide) (by simp),
      by decide⟩
  rw [← sugar_name standard] at opening entry
  have added {b : Builder} {text : String} {e : MapEntry} (h : (b.code text).Ready)
      (opening : ∃ ts, IsCode text ts ∧ (ts.getLast?.map meaning).all (· ∈ delimiters) = true)
      (parts : e.IsFirm) :=
    ((((h.within opening entry).tokens parts.key).behind isCode_comma (by decide)).tokens
      parts.value).behind isCode_close (by decide)
  obtain ⟨entry₁, entries⟩ := List.forall_mem_cons.mp entries
  have started := added (ready_first ctx.span (opening.imp fun _ h => h.1)) opening entry₁
  have all := List.foldlRecOn more _ started fun b ready e member =>
    added (ready.behind isCode_comma (by decide)) comma (entries e member)
  exact (all.behind isCode_close (by decide)).legible

/-- Entries of a map of a given type: every entry is a statement. -/
theorem MapLiteral.emit_filled {t : Expression} {first : MapEntry} {more : List MapEntry}
    (type : Firm t.tokens) (entries : ∀ e ∈ first :: more, e.IsFirm) :
    Legible (MapLiteral.emit ⟨some t, first :: more⟩ ctx).1 := by
  have function : ∃ ts, IsCode "func()" ts :=
    ⟨_, isCode_known [⟨.none, "func", .keyword⟩, ⟨.none, "(", .lparen⟩, ⟨.none, ")", .rparen⟩]
      (by decide) (by decide) (by simp)⟩
  have block : ∃ ts, IsCode " \x7b" ts :=
    ⟨_, isCode_known [⟨.space, "\x7b", .lbrace⟩] (by decide) (by decide) (by simp)⟩
  have assign : ∃ ts, IsCode "] =" ts :=
    ⟨_, isCode_known [⟨.none, "]", .rbracket⟩, ⟨.space, "=", .assign⟩] (by decide)
      (by decide) (by simp)⟩
  have ends : ∃ ts, IsCode ";" ts :=
    ⟨_, isCode_known [⟨.none, ";", .semicolon⟩] (by decide) (by decide) (by simp)⟩
  have name : IsName (ctx.fresh "m").1.toList := isName_fresh (Nat.succ_pos _) (by simp)
  have calm (rest : String) : (" " ++ (ctx.fresh "m").1 ++ rest).toList.head? ∈ idle := by
    simp [String.toList_append, idle]
  have size : ∃ ts, IsCode (", " ++ (first :: more).length.repr ++ ");") ts :=
    ⟨_, isCode_size (Nat.succ_pos _)⟩
  have calm_size : (", " ++ (first :: more).length.repr ++ ");").toList.head? ∈ idle := by
    simp [String.toList_append, idle]
  have opened := ((ready_first ctx.span function).tokens type).behind block (by decide)
  have made := ((opened.behind ⟨_, isCode_make name⟩ (calm _)).tokens type).behind size calm_size
  have all := List.foldlRecOn (first :: more) _ made fun b ready e member =>
    (((((ready.behind ⟨_, isCode_index name⟩ (calm _)).tokens (entries e member).key).behind assign
      (by decide)).tokens (entries e member).value).behind ends (by decide))
  have done := all.behind ⟨_, isCode_return name⟩ (by simp [String.toList_append, idle])
  exact done.legible

theorem MapLiteral.emit_legible {m : MapLiteral} (standard : ctx.imports = .standard)
    (type : ∀ t ∈ m.type, Firm t.tokens) (entries : ∀ e ∈ m.entries, e.IsFirm) :
    Legible (m.emit ctx).1 := by
  obtain ⟨type?, es⟩ := m
  cases type? with
  | none =>
    cases es with
    | nil =>
      have ready : (Builder.code { span := ctx.span } "make(map[any]any)").Ready := ready_first ctx.span
        ⟨_, isCode_known [⟨.none, "make", .identifier⟩, ⟨.none, "(", .lparen⟩, ⟨.none, "map", .map⟩,
          ⟨.none, "[", .lbracket⟩, ⟨.none, "any", .identifier⟩, ⟨.none, "]", .rbracket⟩,
          ⟨.none, "any", .identifier⟩, ⟨.none, ")", .rparen⟩] (by decide) (by decide)
          (by simp)⟩
      exact ready.legible
    | cons first more => exact emit_inferred standard entries
  | some t =>
    cases es with
    | nil =>
      have made : (Builder.code { span := ctx.span } "make(").Ready := ready_first ctx.span
        ⟨_, isCode_known [⟨.none, "make", .identifier⟩, ⟨.none, "(", .lparen⟩] (by decide)
          (by decide) (by simp)⟩
      exact ((made.tokens (type t rfl)).behind isCode_close (by decide)).legible
    | cons first more => exact emit_filled (type t rfl) entries

/-! ## Spreads -/

/-- A selection of fields at the end of some code: each field stands behind a point, and the point
behind a name. -/
theorem ready_selection {b : Builder} {fields : List Token} (h : b.Ready) (ends : EndsInName b.stream)
    (names : ∀ f ∈ fields, IsName f.text.toList) :
    (fields.foldl (fun b f => b.code ("." ++ f.text)) b).Ready := by
  have all := List.foldlRecOn (motive := fun b : Builder => b.Ready ∧ EndsInName b.stream) fields
    (fun b f => b.code ("." ++ f.text)) ⟨h, ends⟩ fun b step f member => by
      obtain ⟨ready, last, found, kind⟩ := step
      have code := isCode_field [⟨.none, ".", .period⟩] (show ".".toList = _ by decide) (by decide) (names f member)
      refine ⟨ready.code code (.inr fun t found' => .inr ?_), ?_⟩
      · obtain rfl := Option.some.inj (found.symm.trans found')
        exact ⟨kind, by simp [String.toList_append]⟩
      · exact endsInName_code code ⟨_, List.getLast?_append_of_ne_nil _ (by simp), rfl⟩ b
  exact all.1

/-- The first argument of the call: an element of the iterable in as many calls as there are fields, each
closed before its field. -/
theorem ready_element (span : Span) {ts fields : List Token} (iterable : Firm ts)
    (names : ∀ f ∈ fields, IsName f.text.toList) :
    (fields.foldl (fun b f => b.code (")." ++ f.text))
      ((((fields.foldl (fun b _ => b.code ("sugar" ++ ".Fill("))
        (Builder.code { span } ("sugar" ++ ".Spread("))).code ("sugar" ++ ".Elem(")).tokens ts).code
          ")")).Ready := by
  have spread : IsCode ("sugar" ++ ".Spread(") _ := isCode_known [⟨.none, "sugar", .identifier⟩,
    ⟨.none, ".", .period⟩, ⟨.none, "Spread", .identifier⟩, ⟨.none, "(", .lparen⟩] (by decide)
    (by decide) (by simp)
  have fill : IsCode ("sugar" ++ ".Fill(") _ := isCode_known [⟨.none, "sugar", .identifier⟩,
    ⟨.none, ".", .period⟩, ⟨.none, "Fill", .identifier⟩, ⟨.none, "(", .lparen⟩] (by decide)
    (by decide) (by simp)
  have element : IsCode ("sugar" ++ ".Elem(") _ := isCode_known [⟨.none, "sugar", .identifier⟩,
    ⟨.none, ".", .period⟩, ⟨.none, "Elem", .identifier⟩, ⟨.none, "(", .lparen⟩] (by decide)
    (by decide) (by simp)
  have filled := List.foldlRecOn (motive := fun b : Builder => b.Ready ∧ ∀ Y, Fits b.stream Y)
    fields (fun b _ => b.code ("sugar" ++ ".Fill("))
    ⟨ready_first span ⟨_, spread⟩, fits_code spread (by decide) _⟩
    fun b step f _ => ⟨step.1.code fill (step.2 _), fits_code fill (by decide) b⟩
  have argument := ((filled.1.code element (filled.2 _)).tokens iterable).behind isCode_close (by decide)
  refine List.foldlRecOn fields _ argument fun b ready f member => ?_
  have code := isCode_field [⟨.none, ")", .rparen⟩, ⟨.none, ".", .period⟩]
    (show ").".toList = _ by decide) (by decide) (names f member)
  exact ready.behind ⟨_, code⟩ (by simp [String.toList_append, idle])

theorem Spread.emit_legible {e : Spread} (standard : ctx.imports = .standard)
    (iterable : Firm e.iterable.tokens) (names : ∀ f ∈ e.fields, IsName f.text.toList) :
    Legible (e.emit ctx).1 := by
  obtain ⟨iterable', fs⟩ := e
  cases fs with
  | nil =>
    have clone : ∃ ts, IsCode ("sugar" ++ ".Clone(") ts :=
      ⟨_, isCode_known [⟨.none, "sugar", .identifier⟩, ⟨.none, ".", .period⟩,
        ⟨.none, "Clone", .identifier⟩, ⟨.none, "(", .lparen⟩] (by decide) (by decide)
        (by simp)⟩
    rw [← sugar_name standard] at clone
    exact (((ready_first ctx.span clone).tokens iterable).behind isCode_close
      (by decide)).legible
  | cons first more =>
    have block : ∃ ts, IsCode " \x7b" ts ∧ (ts.getLast?.map meaning).all (· ∈ delimiters) = true :=
      ⟨_, isCode_known [⟨.space, "\x7b", .lbrace⟩] (by decide) (by decide) (by simp),
        by decide⟩
    have ends : ∃ ts, IsCode ") \x7d \x7d)" ts :=
      ⟨_, isCode_known [⟨.none, ")", .rparen⟩, ⟨.space, "\x7d", .rbrace⟩, ⟨.space, "\x7d", .rbrace⟩,
        ⟨.none, ")", .rparen⟩] (by decide) (by decide) (by simp)⟩
    have yield : IsName (ctx.sugar.2.fresh "yield").1.toList := isName_fresh (Nat.succ_pos _) (by simp)
    have it : IsName ((ctx.sugar.2.fresh "yield").2.fresh "it").1.toList :=
      isName_fresh (Nat.succ_pos _) (by simp)
    have yields := isCode_yield yield it
    have element := ready_element ctx.span iterable names
    rw [← sugar_name standard] at element
    have looped := (element.behind ⟨_, isCode_loop yield it⟩
      (by simp [String.toList_append, idle])).tokens iterable
    have entered := (looped.behind (block.imp fun _ h => h.1) (by decide)).within block ⟨_, yields⟩
    have called := ready_selection entered (endsInName_code yields ⟨_, rfl, rfl⟩ _) names
    exact (called.behind ends (by decide)).legible

/-! ## Interpolated strings -/

theorem Interpolation.emit_legible {e : Interpolation} (literal : Legible [e.literal])
    (markers : ∀ x ∈ e.exprs, Firm x.tokens) : Legible (e.emit ctx).1 := by
  obtain ⟨literal', template, exprs⟩ := e
  cases exprs with
  | nil => exact literal
  | cons first more =>
    have format : packageName "fmt" = "fmt" := by decide
    have call : ∃ ts, IsCode ("fmt" ++ ".Sprintf(" ++ Text.quoteBytes template) ts := ⟨_, isCode_format template⟩
    rw [← format] at call
    have all := List.foldlRecOn (first :: more) _ (ready_first ctx.span call)
      fun b ready x member => (ready.behind isCode_comma (by decide)).tokens (markers x member)
    exact (all.behind isCode_close (by decide)).legible

/-! ## All forms -/

theorem transform_legible {f : Form} (known : f ∈ builtins) {ctx' : Context}
    (standard : ctx.imports = .standard) {ts out : List Token} (stable : Stable ts)
    (keys : f.name ∈ ["hml", "map"] → ∀ t ∈ ts, t.IsClosed)
    (done : f.transform ctx ts = .ok (out, ctx')) : Legible out := by
  have run {us : List Token} (part : us <:+: ts) : Legible us := (stable.part part).rereads
  have firm {e : Expression} (part : PartOf ts e) : Firm e.tokens := by
    obtain ⟨file, x, accepted⟩ := part.accepted
    exact (run part.run).firm accepted
  have name {t : Token} (part : [t] <:+: ts) (kind : t.kind = .identifier) :
      Firm [t] ∧ IsName t.text.toList := by
    obtain ⟨named, spelt⟩ := isName_of_legible (run part) kind
    exact ⟨⟨run part, List.forall_mem_singleton.mpr (Token.isClosed_of_head spelt named.other)⟩, named⟩
  have maps {m : MapLiteral} (parsed : MapLiteral.parse ctx.stop ts = .ok m)
      (closed : ∀ t ∈ ts, t.IsClosed) : Legible (m.emit ctx).1 := by
    obtain ⟨type, entries⟩ := MapLiteral.parse_parts parsed
    refine MapLiteral.emit_legible standard (fun t typed => firm (type t typed)) fun e member => ?_
    obtain ⟨key, value⟩ := entries e member
    exact ⟨⟨run key, fun t single => closed t (key.subset single)⟩, firm value⟩
  simp only [builtins, List.mem_cons, List.not_mem_nil, or_false] at known
  rcases known with rfl | rfl | rfl | rfl | rfl | rfl | rfl | rfl | rfl <;>
    obtain ⟨e, parsed, rfl, -⟩ := transform_of done
  · obtain ⟨condition, result, alternative⟩ := Conditional.parse_parts parsed
    exact Conditional.emit_legible standard (firm condition) (firm result) (firm alternative)
  · obtain ⟨condition, alternative⟩ := Elvis.parse_parts parsed
    exact Conditional.emit_legible standard (firm condition) (firm condition) (firm alternative)
  · obtain ⟨target, kind, alternative⟩ := ElvisAssign.parse_parts parsed
    exact ElvisAssign.emit_legible standard (name target kind).1 (firm alternative)
  · obtain ⟨counted, kind⟩ := IncDec.parse_parts parsed
    exact IncDec.emit_legible standard (name counted kind).1
  · exact maps parsed (keys (by simp [of]))
  · exact maps parsed (keys (by simp [of]))
  · obtain ⟨iterable, fields⟩ := Spread.parse_parts parsed
    exact Spread.emit_legible standard (firm iterable)
      fun f member => (name (fields f member).1 (fields f member).2).2
  · obtain ⟨literal, markers⟩ := Interpolation.parse_parts parsed
    refine Interpolation.emit_legible (run literal) fun x member => ?_
    obtain ⟨exact, offset, body, marker⟩ := markers x member
    obtain ⟨⟨o, us, read, same⟩, part⟩ := parseMarker_tokens marker
    obtain ⟨file, tree, accepted⟩ := part.accepted
    exact (Legible.congr (rereads_of_lexAt read) same).firm accepted
  · exact Truthiness.emit_legible standard (firm (Truthiness.parse_parts parsed))

/-- The output of a form is read as its own tokens again: same kinds, same literals. The body is one
whose runs are read as themselves; in a map literal, it has no character literal that is left open, since
a key is written before what would then become a part of it. -/
theorem lexAt_transform {f : Form} (known : f ∈ builtins) {ctx ctx' : Context}
    (standard : ctx.imports = .standard) {ts out : List Token} (stable : Stable ts)
    (keys : f.name ∈ ["hml", "map"] → ∀ t ∈ ts, t.IsClosed)
    (done : f.transform ctx ts = .ok (out, ctx')) (o : Origin) :
    ∃ out', lexAt o (renderTokens out) = .ok out' ∧
      out'.map (fun t => (t.kind, t.literal)) = out.map (fun t => (t.kind, t.literal)) := by
  obtain ⟨cs, rereads, plain⟩ := transform_legible known standard stable keys done
  obtain ⟨out', read, same, -⟩ := rereads.lexAt plain o
  exact ⟨out', read, same⟩

/-! ## One entry on two lines -/

def entryOn (key : Token) : List Token :=
  [key, ⟨.colon, [0x3A], .none, .newline⟩, ⟨.int, [0x31], .none, .space⟩]

def entryCall (key : Token) : List Token :=
  [⟨.identifier, Text.utf8 "sugar", .none, .none⟩, ⟨.period, [0x2E], .none, .none⟩,
    ⟨.identifier, Text.utf8 "MapOf", .none, .none⟩, ⟨.lparen, [0x28], .none, .none⟩,
    ⟨.identifier, Text.utf8 "sugar", .none, .none⟩, ⟨.period, [0x2E], .none, .none⟩,
    ⟨.identifier, Text.utf8 "Entry", .none, .none⟩, ⟨.lparen, [0x28], .none, .none⟩,
    { key with gap := .space }, ⟨.comma, [0x2C], .none, .none⟩, ⟨.int, [0x31], .none, .space⟩,
    ⟨.rparen, [0x29], .none, .none⟩, ⟨.rparen, [0x29], .none, .none⟩]

/-- A context from the start of a file in which only the runtime package has been asked for. -/
def requiring : Context :=
  { Context.start "m.sgo" .standard with required := ["github.com/orizon-lang/gosugar/sugar"] }

/-- `'a'` is a key that its quotes close. -/
theorem lexAt_transform_closedKey :
    let key : Token := ⟨.char, [0x27, 0x61, 0x27], .none, .none⟩
    Stable (entryOn key) ∧ (∀ t ∈ entryOn key, t.IsClosed) ∧
      ∃ out', lexAt { file := "m.sgo" } (renderTokens (entryCall key)) = .ok out' ∧
        out'.map (fun t => (t.kind, t.literal)) = (entryCall key).map fun t => (t.kind, t.literal) := by
  intro key
  have stable : Stable (entryOn key) := stable_of_isStable (by decide +kernel)
  have closed : ∀ t ∈ entryOn key, t.IsClosed := by
    have quoted : key.IsClosed := fun v quote => by
      obtain rfl : v = ['a', '\''] := by
        have spelt : Text.encode ['\'', 'a', '\''] = Text.encode ('\'' :: v) := quote
        exact (List.cons.inj (Text.encode_injective spelt)).2.symm
      decide
    have colon : Token.IsClosed ⟨.colon, [0x3A], .none, .newline⟩ :=
      Token.isClosed_of_head (w := [':']) (by decide) (by decide)
    have one : Token.IsClosed ⟨.int, [0x31], .none, .space⟩ :=
      Token.isClosed_of_head (w := ['1']) (by decide) (by decide)
    simp [entryOn, quoted, colon, one]
  have done : (of "hml" MapLiteral.parse MapLiteral.emit).transform (.start "m.sgo" .standard) (entryOn key) =
      .ok (entryCall key, requiring) := eq_ok_of_toOption (by decide +kernel)
  refine ⟨stable, closed, ?_⟩
  exact lexAt_transform (by simp [builtins]) (show (Context.start "m.sgo" .standard).imports = .standard from rfl)
    stable (fun _ => closed) done _

/-- The line behind `'\?` ends it. Written before what follows it, the key takes all of that along. -/
theorem lex_transform_openKey :
    let key : Token := ⟨.char, [0x27, 0x5C, 0x3F], .none, .none⟩
    Stable (entryOn key) ∧ ¬ key.IsClosed ∧
      (∃ ctx', (of "hml" MapLiteral.parse MapLiteral.emit).transform (.start "m.sgo" .standard) (entryOn key) =
        .ok (entryCall key, ctx')) ∧
      (lex "m.sgo" (renderTokens (entryCall key))).toOption.map (·.map meaning) ≠
        some ((entryCall key).map meaning) := by
  intro key
  have opened : ¬ key.IsClosed := fun closed => absurd (closed ['\\', '?'] (by decide +kernel)) (by decide)
  have done : (of "hml" MapLiteral.parse MapLiteral.emit).transform (.start "m.sgo" .standard) (entryOn key) =
      .ok (entryCall key, requiring) := eq_ok_of_toOption (by decide +kernel)
  exact ⟨stable_of_isStable (by decide +kernel), opened, ⟨_, done⟩, by decide +kernel⟩

/-! ## A range over a composite literal -/

/-- What is emitted is read again, but need not be accepted: the iterable of `(T{}) *.x` is an expression,
but behind `range` its brace opens the body of the loop. -/
theorem transform_spread_rejected :
    let body := (lex "m.sgo" (Text.utf8 "(T\x7b\x7d) *.x")).toOption.getD []
    ∃ out ctx', (of "spr" Spread.parse Spread.emit).transform (.start "m.sgo" .standard) body = .ok (out, ctx') ∧
      ∀ x, parseExpr "m.sgo" (renderTokens out) ≠ .ok x := by
  intro body
  have told : ((of "spr" Spread.parse Spread.emit).transform (.start "m.sgo" .standard) body).toOption.map
      (fun (out, _) => (parseExpr "m.sgo" (renderTokens out)).toOption.isSome) = some false := by decide +kernel
  generalize (of "spr" Spread.parse Spread.emit).transform (.start "m.sgo" .standard) body = result at told
  obtain _ | ⟨out, ctx'⟩ := result
  · cases told
  refine ⟨out, ctx', rfl, fun x accepted => ?_⟩
  have rejected := Option.some.inj told
  dsimp only at rejected
  rw [accepted] at rejected
  cases rejected

end Form

/-! ## What an output consists of -/

namespace Builder

/-- Built at a place of tokens that all have a property, whatever blanks are before them. -/
structure Consists (p : Token → Prop) (place : Span) (b : Builder) : Prop where
  span : b.span = place
  all : ∀ t ∈ b.stream, p t.bare

variable {p : Token → Prop} {place : Span} {b b' : Builder} {text : String} {ts : List Token}

theorem consists_start (p : Token → Prop) (place : Span) : Consists p place { span := place } :=
  ⟨rfl, by simp [stream]⟩

theorem Consists.adds (h : Consists p place b) (adds : b.Adds b' ts) (added : ∀ t ∈ ts, p t.bare) :
    Consists p place b' := by
  obtain ⟨span, us, stream, same⟩ := adds
  refine ⟨span.trans h.span, ?_⟩
  rw [stream]
  refine List.forall_mem_append.mpr ⟨h.all, fun t member => ?_⟩
  obtain ⟨u, inner, alike⟩ := List.mem_map.mp (same ▸ List.mem_map_of_mem member)
  exact alike ▸ added u inner

theorem Consists.tokens (h : Consists p place b) (all : ∀ t ∈ ts, p t.bare) : Consists p place (b.tokens ts) :=
  h.adds (adds_tokens b ts) all

theorem Consists.code (h : Consists p place b) (all : ∀ t ∈ codeAt place text, p t) :
    Consists p place (b.code text) := by
  refine h.adds (adds_code b text) fun t member => ?_
  rw [h.span] at member
  have bare : t.bare = t := by
    obtain ⟨u, -, rfl⟩ := List.mem_map.mp member
    rfl
  rw [bare]
  exact all t member

end Builder

namespace Form

variable {ctx : Context} {p : Token → Prop}

/-- All tokens of some pieces of code have a property where a context is. -/
def Coded (p : Token → Prop) (ctx : Context) (texts : List String) : Prop :=
  ∀ text ∈ texts, ∀ t ∈ codeAt ctx.span text, p t

theorem coded_cons {text : String} {texts : List String} : Coded p ctx (text :: texts) ↔
    (∀ t ∈ codeAt ctx.span text, p t) ∧ Coded p ctx texts := List.forall_mem_cons

/-- The pieces of code of a conditional. -/
def Conditional.code (e : Conditional) (ctx : Context) : List String :=
  [placeholder ++ "(" ++ (ctx.conditionals.length + 1).repr ++ ",", ",",
    ")(" ++ sign e.negated ++ packageName ctx.imports.truth ++ ".Of(", "))"]

theorem Conditional.emit_all {e : Conditional} (code : Coded p ctx (e.code ctx))
    (condition : ∀ t ∈ e.condition.tokens, p t.bare) (result : ∀ t ∈ e.result.tokens, p t.bare)
    (alternative : ∀ t ∈ e.alternative.tokens, p t.bare) : ∀ t ∈ (e.emit ctx).1, p t.bare := by
  simp only [Conditional.code, coded_cons] at code
  obtain ⟨call, comma, test, close, -⟩ := code
  have branches := ((((consists_start p ctx.span).code call).tokens result).code comma).tokens alternative
  exact (((branches.code test).tokens condition).code close).all

/-- The pieces of code of an assignment. -/
def ElvisAssign.code (e : ElvisAssign) (ctx : Context) : List String :=
  ["if " ++ sign (!e.negated) ++ packageName ctx.imports.truth ++ ".Of(", ") \x7b", " =", " \x7d"]

theorem ElvisAssign.emit_all {e : ElvisAssign} (code : Coded p ctx (e.code ctx)) (target : p e.target.bare)
    (alternative : ∀ t ∈ e.alternative.tokens, p t.bare) : ∀ t ∈ (e.emit ctx).1, p t.bare := by
  simp only [ElvisAssign.code, coded_cons] at code
  obtain ⟨test, block, assign, close, -⟩ := code
  have target : ∀ t ∈ [e.target], p t.bare := List.forall_mem_singleton.mpr target
  have opened := ((((consists_start p ctx.span).code test).tokens target).code block).tokens target
  exact (((opened.code assign).tokens alternative).code close).all

/-- The pieces of code of an increment. -/
def IncDec.code (e : IncDec) (ctx : Context) : List String :=
  [packageName ctx.imports.sugar ++ "." ++ (if e.increment then "Inc" else "Dec") ++ "(&", ")"]

theorem IncDec.emit_all {e : IncDec} (code : Coded p ctx (e.code ctx)) (name : p e.name.bare) :
    ∀ t ∈ (e.emit ctx).1, p t.bare := by
  simp only [IncDec.code, coded_cons] at code
  obtain ⟨call, close, -⟩ := code
  exact ((((consists_start p ctx.span).code call).tokens (List.forall_mem_singleton.mpr name)).code close).all

/-- The pieces of code of a conversion. -/
def Truthiness.code (ctx : Context) : List String := [packageName ctx.imports.truth ++ ".Of(", ")"]

theorem Truthiness.emit_all {e : Truthiness} (code : Coded p ctx (Truthiness.code ctx))
    (value : ∀ t ∈ e.value.tokens, p t.bare) : ∀ t ∈ (e.emit ctx).1, p t.bare := by
  simp only [Truthiness.code, coded_cons] at code
  obtain ⟨call, close, -⟩ := code
  exact ((((consists_start p ctx.span).code call).tokens value).code close).all

/-- The pieces of code of a map literal: those of an empty one, of one whose type is inferred, and of one that
is filled entry by entry. -/
def MapLiteral.code (m : MapLiteral) (ctx : Context) : List String :=
  let sugar := packageName ctx.imports.sugar
  let name := (ctx.fresh "m").1
  ["make(map[any]any)", "make(", ")", sugar ++ ".MapOf(", sugar ++ ".Entry(", ",", "func()", " \x7b",
    " " ++ name ++ " := make(", ", " ++ m.entries.length.repr ++ ");", " " ++ name ++ "[", "] =", ";",
    " return " ++ name ++ " \x7d()"]

theorem MapLiteral.emit_all {m : MapLiteral} (code : Coded p ctx (m.code ctx))
    (type : ∀ t ∈ m.type, ∀ u ∈ t.tokens, p u.bare)
    (entries : ∀ e ∈ m.entries, p e.key.bare ∧ ∀ t ∈ e.value.tokens, p t.bare) :
    ∀ t ∈ (m.emit ctx).1, p t.bare := by
  have start := consists_start p ctx.span
  have key {e : MapEntry} (member : e ∈ m.entries) : ∀ t ∈ [e.key], p t.bare :=
    List.forall_mem_singleton.mpr (entries e member).1
  simp only [MapLiteral.code, coded_cons] at code
  obtain ⟨whole, make, close, mapOf, entry, comma, func, block, fill, size, index, assign, ends, done, -⟩ := code
  obtain ⟨type?, es⟩ := m
  cases type? with
  | none =>
    cases es with
    | nil => exact (start.code whole).all
    | cons first more =>
      have added {b : Builder} {e : MapEntry} (h : Consists p ctx.span b) (member : e ∈ first :: more) :=
        ((((h.code entry).tokens (key member)).code comma).tokens (entries e member).2).code close
      have all := List.foldlRecOn more _ (added (start.code mapOf) List.mem_cons_self) fun b built e member =>
        added (built.code comma) (List.mem_cons_of_mem first member)
      exact (all.code close).all
  | some t =>
    have typed := type t rfl
    cases es with
    | nil => exact (((start.code make).tokens typed).code close).all
    | cons first more =>
      have made := (((((start.code func).tokens typed).code block).code fill).tokens typed).code size
      have all := List.foldlRecOn (first :: more) _ made fun b built e member =>
        ((((built.code index).tokens (key member)).code assign).tokens (entries e member).2).code ends
      exact (all.code done).all

/-- The pieces of code of a spread, apart from its fields. -/
def Spread.code (ctx : Context) : List String :=
  let sugar := packageName ctx.imports.sugar
  let yield := (ctx.sugar.2.fresh "yield").1
  let it := ((ctx.sugar.2.fresh "yield").2.fresh "it").1
  [sugar ++ ".Clone(", ")", sugar ++ ".Spread(", sugar ++ ".Fill(", sugar ++ ".Elem(",
    ", func(" ++ yield ++ " func(any)) \x7b for _, " ++ it ++ " := range", " \x7b",
    " " ++ yield ++ "(" ++ it, ") \x7d \x7d)"]

theorem Spread.emit_all {e : Spread} (code : Coded p ctx (Spread.code ctx))
    (fields : ∀ f ∈ e.fields, Coded p ctx [")." ++ f.text, "." ++ f.text])
    (iterable : ∀ t ∈ e.iterable.tokens, p t.bare) : ∀ t ∈ (e.emit ctx).1, p t.bare := by
  have start := consists_start p ctx.span
  simp only [Spread.code, coded_cons] at code fields
  obtain ⟨clone, close, spread, fill, element, loop, block, yield, ends, -⟩ := code
  obtain ⟨iterable', fs⟩ := e
  cases fs with
  | nil => exact (((start.code clone).tokens iterable).code close).all
  | cons first more =>
    have filled := List.foldlRecOn (first :: more) _ (start.code spread) fun b built _ _ => built.code fill
    have argument := ((filled.code element).tokens iterable).code close
    have selected := List.foldlRecOn (first :: more) _ argument fun b built f member =>
      built.code (fields f member).1
    have called := (((selected.code loop).tokens iterable).code block).code yield
    have all := List.foldlRecOn (first :: more) _ called fun b built f member => built.code (fields f member).2.1
    exact (all.code ends).all

/-- The pieces of code of an interpolation. -/
def Interpolation.code (s : Interpolation) : List String :=
  ["fmt" ++ ".Sprintf(" ++ Text.quoteBytes s.template, ",", ")"]

theorem Interpolation.emit_all {s : Interpolation} (code : Coded p ctx s.code) (literal : p s.literal.bare)
    (exprs : ∀ e ∈ s.exprs, ∀ t ∈ e.tokens, p t.bare) : ∀ t ∈ (s.emit ctx).1, p t.bare := by
  simp only [Interpolation.code, coded_cons] at code
  obtain ⟨format, comma, close, -⟩ := code
  obtain ⟨literal', template, es⟩ := s
  cases es with
  | nil => exact List.forall_mem_singleton.mpr literal
  | cons first more =>
    have all := List.foldlRecOn (first :: more) _ ((consists_start p ctx.span).code format)
      fun b built e member => (built.code comma).tokens (exprs e member)
    exact (all.code close).all

theorem isLegal_of_marker {literal : Token} {exact : Bool} {offset : Nat} {text : Bytes} {e : Expression}
    (marker : parseMarker literal exact offset text = .ok e) : ∀ t ∈ e.tokens, IsLegal t := by
  intro t member
  obtain ⟨⟨o, us, read, same⟩, -⟩ := parseMarker_tokens marker
  obtain ⟨u, found, alike⟩ := List.mem_map.mp (same ▸ List.mem_map_of_mem member)
  obtain ⟨kind, shape⟩ := Prod.mk.inj alike
  exact (isLegal_of_lexAt read u found).alike kind.symm (Prod.mk.inj shape).1.symm

/-- If a body consists of tokens as texts are read into, so does what a form emits for it. -/
theorem transform_legal {f : Form} (known : f ∈ builtins) {ctx' : Context} {ts out : List Token}
    (body : ∀ t ∈ ts, IsLegal t) (done : f.transform ctx ts = .ok (out, ctx')) : ∀ t ∈ out, IsLegal t := by
  have coded (texts : List String) : Coded IsLegal ctx texts := fun text _ t member =>
    (codeAt_spec ctx.span text t member).2
  have bare {t : Token} (h : IsLegal t) : IsLegal t.bare := h.alike rfl rfl
  have run {us : List Token} (part : us <:+: ts) : ∀ t ∈ us, IsLegal t.bare :=
    fun t member => bare (body t (part.subset member))
  have single {t : Token} (part : [t] <:+: ts) : IsLegal t.bare := run part t (List.mem_singleton_self t)
  have maps {m : MapLiteral} (parsed : MapLiteral.parse ctx.stop ts = .ok m) :
      ∀ t ∈ (m.emit ctx).1, IsLegal t.bare := by
    obtain ⟨type, entries⟩ := MapLiteral.parse_parts parsed
    exact m.emit_all (coded _) (fun t given => run (type t given).run)
      fun e member => ⟨single (entries e member).key, run (entries e member).value.run⟩
  suffices ∀ t ∈ out, IsLegal t.bare from fun t member => (this t member).alike rfl rfl
  simp only [builtins, List.mem_cons, List.not_mem_nil, or_false] at known
  rcases known with rfl | rfl | rfl | rfl | rfl | rfl | rfl | rfl | rfl <;>
    obtain ⟨e, parsed, rfl, -⟩ := transform_of done
  · obtain ⟨condition, result, alternative⟩ := Conditional.parse_parts parsed
    exact Conditional.emit_all (coded _) (run condition.run) (run result.run) (run alternative.run)
  · obtain ⟨condition, alternative⟩ := Elvis.parse_parts parsed
    exact Conditional.emit_all (coded _) (run condition.run) (run condition.run) (run alternative.run)
  · obtain ⟨target, -, alternative⟩ := ElvisAssign.parse_parts parsed
    exact ElvisAssign.emit_all (coded _) (single target) (run alternative.run)
  · exact IncDec.emit_all (coded _) (single (IncDec.parse_parts parsed).1)
  · exact maps parsed
  · exact maps parsed
  · exact Spread.emit_all (coded _) (fun f _ => coded _) (run (Spread.parse_parts parsed).1.run)
  · obtain ⟨literal, markers⟩ := Interpolation.parse_parts parsed
    refine Interpolation.emit_all (coded _) (single literal) fun x member t inside => ?_
    obtain ⟨verbatim, offset, text, marker⟩ := markers x member
    exact bare (isLegal_of_marker marker t inside)
  · exact Truthiness.emit_all (coded _) (run (Truthiness.parse_parts parsed).run)

end Form
end Desugar

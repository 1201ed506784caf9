import Desugar.Proofs.Form.Emission
import Desugar.Proofs.Form.Numbered

/-!
# Numbers in emitted code

Code that is put behind a run of tokens begins with no colon, and code that a run is put behind ends in no
number of a conditional. So if the numbers of conditionals are in place in the body of an invocation, they
are in what its form emits, and the number that the form itself emits is that of the invocation.
-/
namespace Desugar

namespace Builder

open Form Lexer

/-- Code that can stand behind a run of tokens. -/
def Resumes (text : String) : Prop := (codeAt .none text).head?.any (·.kind ≠ .colon) = true

/-- Code that ends in a closing delimiter. -/
def Finishes (text : String) : Prop := (codeAt .none text).getLast?.any (·.kind.isClose) = true

instance (text : String) : Decidable (Resumes text) := inferInstanceAs (Decidable (_ = true))

instance (text : String) : Decidable (Finishes text) := inferInstanceAs (Decidable (_ = true))

theorem Resumes.head {text : String} (resumes : Resumes text) (place : Span) :
    codeAt place text ≠ [] ∧ (codeAt place text).head?.map Token.kind ≠ some .colon := by
  have same := congrArg List.head? (codeAt_kinds place text)
  rw [List.head?_map, List.head?_map] at same
  obtain ⟨t, first, other⟩ := (Option.any_eq_true ..).mp resumes
  rw [first] at same
  rw [same]
  refine ⟨?_, by simpa using other⟩
  intro empty
  rw [empty] at same
  cases same

theorem Finishes.last {text : String} (finishes : Finishes text) (place : Span) :
    ∃ t ∈ (codeAt place text).getLast?, t.kind.isClose = true := by
  have same := congrArg List.getLast? (codeAt_kinds place text)
  rw [List.getLast?_map, List.getLast?_map] at same
  obtain ⟨t, last, isClose⟩ := (Option.any_eq_true ..).mp finishes
  rw [last] at same
  obtain ⟨u, found, alike⟩ := Option.map_eq_some_iff.mp same
  exact ⟨u, found, alike ▸ isClose⟩

end Builder

namespace Form

open Lexer

/-- Tokens as texts are read into, whose numbers lead back. -/
structure Sound (package : String) (places : List Span) (source ts : List Token) : Prop where
  numbered : Numbered package places source ts
  legal : ∀ t ∈ ts, IsLegal t

theorem Sound.proper {package : String} {places : List Span} {source ts : List Token}
    (h : Sound package places source ts) : ∀ t ∈ ts, t.kind ≠ .eof := fun t member => (h.legal t member).proper

/-- What a form emits: tokens whose numbers lead back, up to a closing delimiter. -/
structure Emitted (package : String) (places : List Span) (source ts : List Token) : Prop where
  sound : Sound package places source ts
  finishes : ∃ t ∈ ts.getLast?, t.kind.isClose = true

/-- The last token, if it is a string literal, is one of the source. -/
def EndsInSource (source ts : List Token) : Prop :=
  ∀ t ∈ ts.getLast?, t.kind = .string → ∃ literal ∈ source, literal.bare = t.bare

/-- Tokens whose numbers lead back, whatever stands before and behind them. -/
structure Whole (package : String) (places : List Span) (source ts : List Token) : Prop where
  sound : Sound package places source ts
  settled : Settled places ts
  own : EndsInSource source ts

/-- Code whose numbers lead back where it stands. -/
structure Fit (package : String) (places : List Span) (source : List Token) (place : Span) (text : String) : Prop where
  numbered : Numbered package places source (Builder.codeAt place text)
  settled : Settled places (Builder.codeAt place text)

variable {package : String} {places : List Span} {source ts us : List Token} {place : Span} {text : String}
  {b b' : Builder}

theorem legal_of_bare (legal : ∀ t ∈ ts, IsLegal t) (same : us.map Token.bare = ts.map Token.bare) :
    ∀ t ∈ us, IsLegal t := by
  intro t member
  obtain ⟨u, inner, alike⟩ := List.mem_map.mp (same ▸ List.mem_map_of_mem member)
  obtain ⟨kind, literal, -⟩ := kind_eq_of_bare alike
  exact (legal u inner).alike kind.symm literal.symm

/-- Where no conditional stands, no number is emitted. -/
theorem fit_elsewhere (package : String) (source : List Token) (elsewhere : place ∉ places) (text : String) :
    Fit package places source place text where
  numbered := numbered_of_forall fun t member _ listed =>
    absurd ((Builder.codeAt_spec place text t member).1 ▸ listed) elsewhere
  settled t last _ := by
    rw [(Builder.codeAt_spec place text t (List.mem_of_getLast? last)).1]
    exact elsewhere

/-- What holds of the last token, if there is one, holds of the last one behind it. -/
theorem forall_getLast?_append {p : Token → Prop} (h : ∀ t ∈ ts.getLast?, p t) (h' : ∀ t ∈ us.getLast?, p t) :
    ∀ t ∈ (ts ++ us).getLast?, p t := by
  intro t last
  rw [List.getLast?_append] at last
  cases behind : us.getLast? with
  | none =>
    rw [behind] at last
    exact h t last
  | some u =>
    rw [behind] at last
    exact h' t (behind.trans last)

theorem Settled.behind (h : Settled places us) (nonempty : us ≠ []) : Settled places (ts ++ us) := by
  intro t last
  rw [List.getLast?_append_of_ne_nil _ nonempty] at last
  exact h t last

end Form

namespace Builder

open Form

variable {package : String} {places : List Span} {source ts us : List Token} {place : Span} {text : String}
  {b b' : Builder}

/-- What has been built at a place, in front of code. -/
structure Builds (package : String) (places : List Span) (source : List Token) (place : Span) (b : Builder) :
    Prop where
  span : b.span = place
  sound : Sound package places source b.stream

/-- What has been built at a place, in front of anything. -/
structure Ends (package : String) (places : List Span) (source : List Token) (place : Span) (b : Builder) : Prop
    extends Builds package places source place b where
  settled : Settled places b.stream

theorem Builds.adds (h : Builds package places source place b) (adds : b.Adds b' ts)
    (sound : Sound package places source ts)
    (meets : Settled places b.stream ∨ ts.head?.map Token.kind ≠ some .colon) :
    Builds package places source place b' := by
  obtain ⟨span, us, stream, same⟩ := adds
  refine ⟨span.trans h.span, ?_, ?_⟩
  · rw [stream]
    refine h.sound.numbered.append (sound.numbered.congr same) (meets.imp_right fun apart => ?_)
    have heads := congrArg (fun ts => (ts.map Token.kind).head?) same
    simp only [List.map_map] at heads
    rw [← List.head?_map] at apart ⊢
    exact heads.trans_ne apart
  · intro t member
    rw [stream] at member
    rcases List.mem_append.mp member with before | added
    · exact h.sound.legal t before
    · exact legal_of_bare sound.legal same t added

theorem ends_start (package : String) (places : List Span) (source : List Token) (place : Span) :
    Ends package places source place { span := place } :=
  ⟨⟨rfl, numbered_nil, by simp [stream]⟩, by simp [Settled, stream]⟩

/-- Source tokens behind code. -/
theorem Ends.tokens (h : Ends package places source place b) (sound : Sound package places source ts) :
    Builds package places source place (b.tokens ts) :=
  h.toBuilds.adds (adds_tokens b ts) sound (.inl h.settled)

theorem sound_code (fit : Fit package places source place text) : Sound package places source (codeAt place text) :=
  ⟨fit.numbered, fun t member => (codeAt_spec place text t member).2⟩

/-- Code behind code. -/
theorem Ends.code (h : Ends package places source place b) (fit : Fit package places source place text) :
    Ends package places source place (b.code text) := by
  have adds := adds_code b text
  rw [h.span] at adds
  refine ⟨h.toBuilds.adds adds (sound_code fit) (.inl h.settled), ?_⟩
  obtain ⟨-, us, stream, same⟩ := adds
  rw [stream]
  exact forall_getLast?_append h.settled (fit.settled.congr same)

/-- Code behind source tokens. -/
theorem Builds.code (h : Builds package places source place b) (fit : Fit package places source place text)
    (resumes : Resumes text) : Ends package places source place (b.code text) := by
  have adds := adds_code b text
  rw [h.span] at adds
  obtain ⟨nonempty, apart⟩ := resumes.head place
  refine ⟨h.adds adds (sound_code fit) (.inr apart), ?_⟩
  obtain ⟨-, us, stream, same⟩ := adds
  rw [stream]
  refine (fit.settled.congr same).behind fun empty => nonempty ?_
  rw [empty] at same
  exact (List.map_eq_nil_iff.mp same.symm)

theorem Ends.emitted (h : Ends package places source place (b.code text)) (finishes : Finishes text) :
    Emitted package places source (b.code text).stream := by
  refine ⟨h.sound, ?_⟩
  obtain ⟨-, us, stream, same⟩ := adds_code b text
  obtain ⟨t, last, isClose⟩ := finishes.last b.span
  obtain ⟨u, found, alike⟩ := getLast?_of_bare same.symm last
  refine ⟨u, ?_, (kind_eq_of_bare alike).1 ▸ isClose⟩
  rw [stream, List.getLast?_append, found]
  rfl

end Builder

namespace Form

open Builder Lexer

variable {package : String} {places : List Span} {source ts us : List Token} {place stop : Span} {text : String}
  {ctx ctx' : Context}

/-! ## The code of the forms -/

/-- Code without parameters that is put behind source tokens. -/
def separators : List (String × List Spelt) :=
  [(",", [⟨.none, ",", .comma⟩]), (")", [⟨.none, ")", .rparen⟩]),
    ("))", [⟨.none, ")", .rparen⟩, ⟨.none, ")", .rparen⟩]),
    (") \x7b", [⟨.none, ")", .rparen⟩, ⟨.space, "\x7b", .lbrace⟩]), (" =", [⟨.space, "=", .assign⟩]),
    (" \x7d", [⟨.space, "\x7d", .rbrace⟩]), (" \x7b", [⟨.space, "\x7b", .lbrace⟩]),
    ("] =", [⟨.none, "]", .rbracket⟩, ⟨.space, "=", .assign⟩]), (";", [⟨.none, ";", .semicolon⟩])]

theorem separators_known : ∀ p ∈ separators, p.1.toList = Spelt.chars p.2 ∧
    Spelt.areKnown none p.2 = true ∧ p.2 ≠ [] ∧ ∀ s ∈ p.2, s.kind ∉ [.identifier, .int, .colon] := by
  decide

/-- Separators are neither words nor numbers. -/
theorem codeAt_separator (known : text ∈ separators.map Prod.fst) (place : Span) :
    codeAt place text ≠ [] ∧
      ∀ t ∈ codeAt place text, t.kind ≠ .identifier ∧ t.kind ≠ .int ∧ t.kind ≠ .colon := by
  obtain ⟨⟨text, code⟩, listed, rfl⟩ := List.mem_map.mp known
  obtain ⟨told, known, nonempty, other⟩ := separators_known _ listed
  rw [codeAt_eq (isCode_known code told known nonempty)]
  refine ⟨by simpa using nonempty, fun t member => ?_⟩
  rw [List.map_map] at member
  obtain ⟨s, inner, rfl⟩ := List.mem_map.mp member
  have other := other s inner
  simp only [List.mem_cons, List.not_mem_nil, or_false, not_or] at other
  exact other

theorem resumes_separator (known : text ∈ separators.map Prod.fst) : Resumes text := by
  obtain ⟨nonempty, other⟩ := codeAt_separator known .none
  unfold Resumes
  rw [List.head?_eq_some_head nonempty]
  simpa using (other _ (List.head_mem nonempty)).2.2

theorem fit_separator (text : String) (known : text ∈ separators.map Prod.fst) :
    Fit package places source place text := by
  obtain ⟨-, other⟩ := codeAt_separator known place
  constructor
  · exact numbered_of_forall fun t member isPlaceholder => absurd isPlaceholder.kind (other t member).1
  · exact fun t last int => absurd int (other t (List.mem_of_getLast? last)).2.1

theorem resumes_of_code {t : Token} (code : IsCode text (t :: ts)) (other : (t.kind != .colon) = true) :
    Resumes text := by
  unfold Resumes
  rw [codeAt_eq code]
  simpa using other

theorem finishes_of_code (code : IsCode text ts) (last : ts.getLast?.any (·.kind.isClose) = true) :
    Finishes text := by
  unfold Finishes
  rw [codeAt_eq code, List.getLast?_map, Option.any_map]
  exact last

theorem finishes_code (code : List Spelt) (told : text.toList = Spelt.chars code)
    (known : Spelt.areKnown none code = true) (last : (code.getLast?.any (·.kind.isClose)) = true) :
    Finishes text := by
  have nonempty : code ≠ [] := by
    rintro rfl
    cases last
  refine finishes_of_code (isCode_known code told known nonempty) ?_
  rw [List.getLast?_map, Option.any_map]
  exact last

theorem finishes_close : Finishes ")" := finishes_code [⟨.none, ")", .rparen⟩] rfl (by decide) rfl

/-- The call of a placeholder at the place that its number leads to. -/
theorem fit_call (source : List Token) {n : Nat} (listed : places[n]? = some place) :
    Fit package places source place (placeholder ++ "(" ++ (n + 1).repr ++ ",") := by
  have tokens := codeAt_eq (isCode_conditional (Nat.succ_pos n)) place
  constructor
  · rw [tokens]
    refine numbered_cons.mpr ⟨fun _ _ _ => .number rfl rfl rfl rfl listed (by simp), ?_⟩
    refine numbered_of_forall fun t member isPlaceholder => ?_
    have kind := isPlaceholder.kind
    simp only [List.map_cons, List.map_nil, List.mem_cons, List.not_mem_nil, or_false] at member
    rcases member with rfl | rfl | rfl <;> cases kind
  · rw [tokens]
    rintro t ⟨⟩ ⟨⟩

/-- Before a point stands the name of the package that conditions are tested with. -/
theorem fit_test {truth : String} (named : IsName truth.toList) (negated : Bool) :
    Fit truth places source place (")(" ++ sign negated ++ truth ++ ".Of(") := by
  have tokens := codeAt_eq (isCode_test named negated) place
  have apart {t : Token} {ts : List Token} (kind : t.kind ≠ .identifier) (h : Numbered truth places source ts) :
      Numbered truth places source (t :: ts) :=
    numbered_cons.mpr ⟨fun isPlaceholder => absurd isPlaceholder.kind kind, h⟩
  have call : Numbered truth places source [⟨.identifier, Text.utf8 truth, place, .none⟩,
      ⟨.period, Text.utf8 ".", place, .none⟩, ⟨.identifier, Text.utf8 "Of", place, .none⟩,
      ⟨.lparen, Text.utf8 "(", place, .none⟩] := by
    refine numbered_cons.mpr ⟨fun isPlaceholder _ _ => ?_, apart nofun ?_⟩
    · exact .package (Text.utf8_injective isPlaceholder.literal) rfl
    refine numbered_cons.mpr ⟨fun isPlaceholder => ?_, apart nofun numbered_nil⟩
    exact absurd isPlaceholder.literal (show Text.utf8 "Of" ≠ Text.utf8 placeholder by decide)
  constructor
  · rw [tokens]
    cases negated with
    | false => exact apart nofun (apart nofun call)
    | true => exact apart nofun (apart nofun (apart nofun call))
  · rw [tokens, List.map_append]
    refine Settled.behind ?_ (by simp)
    rintro t ⟨⟩ ⟨⟩

theorem resumes_test {truth : String} (named : IsName truth.toList) (negated : Bool) :
    Resumes (")(" ++ sign negated ++ truth ++ ".Of(") := by
  exact resumes_of_code (isCode_test named negated) rfl

theorem Conditional.emit_numbered {e : Conditional} (listed : places[ctx.conditionals.length]? = some ctx.span)
    (tested : packageName ctx.imports.truth = package) (named : IsName package.toList)
    (condition : Sound package places source e.condition.tokens)
    (result : Sound package places source e.result.tokens)
    (alternative : Sound package places source e.alternative.tokens) :
    Emitted package places source (e.emit ctx).1 := by
  subst tested
  have call := (ends_start (packageName ctx.imports.truth) places source ctx.span).code (fit_call source listed)
  have branch := (call.tokens result).code (fit_separator "," (by decide)) (resumes_separator (by decide))
  have test := (branch.tokens alternative).code (fit_test named e.negated) (resumes_test named e.negated)
  have close := (test.tokens condition).code (fit_separator "))" (by decide)) (resumes_separator (by decide))
  exact close.emitted (finishes_code [⟨.none, ")", .rparen⟩, ⟨.none, ")", .rparen⟩] rfl (by decide) rfl)

section
variable (elsewhere : ctx.span ∉ places)
include elsewhere

theorem ElvisAssign.emit_numbered {e : ElvisAssign} (target : Sound package places source [e.target])
    (alternative : Sound package places source e.alternative.tokens) :
    Emitted package places source (e.emit ctx).1 := by
  have fit := fit_elsewhere package source elsewhere
  have test := (ends_start package places source ctx.span).code
    (fit s!"if {sign !e.negated}{packageName ctx.imports.truth}.Of(")
  have block := (test.tokens target).code (fit ") \x7b") (resumes_separator (by decide))
  have assign := (block.tokens target).code (fit " =") (resumes_separator (by decide))
  have close := (assign.tokens alternative).code (fit " \x7d") (resumes_separator (by decide))
  exact close.emitted (finishes_code [⟨.space, "\x7d", .rbrace⟩] rfl (by decide) rfl)

theorem IncDec.emit_numbered {e : IncDec} (name : Sound package places source [e.name]) :
    Emitted package places source (e.emit ctx).1 := by
  have fit := fit_elsewhere package source elsewhere
  have call := (ends_start package places source ctx.span).code
    (fit (packageName ctx.imports.sugar ++ "." ++ (if e.increment then "Inc" else "Dec") ++ "(&"))
  have close := (call.tokens name).code (fit ")") (resumes_separator (by decide))
  exact close.emitted finishes_close

theorem Truthiness.emit_numbered {e : Truthiness} (value : Sound package places source e.value.tokens) :
    Emitted package places source (e.emit ctx).1 := by
  have fit := fit_elsewhere package source elsewhere
  have call := (ends_start package places source ctx.span).code (fit s!"{packageName ctx.imports.truth}.Of(")
  have close := (call.tokens value).code (fit ")") (resumes_separator (by decide))
  exact close.emitted finishes_close

theorem MapLiteral.emit_numbered {m : MapLiteral} (type : ∀ t ∈ m.type, Sound package places source t.tokens)
    (entries : ∀ e ∈ m.entries, Sound package places source [e.key] ∧ Sound package places source e.value.tokens) :
    Emitted package places source (m.emit ctx).1 := by
  have fit := fit_elsewhere package source elsewhere
  have start := ends_start package places source ctx.span
  obtain ⟨type?, es⟩ := m
  cases type? with
  | none =>
    cases es with
    | nil =>
      refine (start.code (fit "make(map[any]any)")).emitted (finishes_code [⟨.none, "make", .identifier⟩,
        ⟨.none, "(", .lparen⟩, ⟨.none, "map", .map⟩, ⟨.none, "[", .lbracket⟩, ⟨.none, "any", .identifier⟩,
        ⟨.none, "]", .rbracket⟩, ⟨.none, "any", .identifier⟩, ⟨.none, ")", .rparen⟩] ?_ (by decide) rfl)
      rfl
    | cons first more =>
      have entry {b : Builder} {e : MapEntry} (h : Ends package places source ctx.span b)
          (parts : Sound package places source [e.key] ∧ Sound package places source e.value.tokens) (text : String) :
          Ends package places source ctx.span
            (((((b.code text).tokens [e.key]).code ",").tokens e.value.tokens).code ")") := by
        have key := ((h.code (fit text)).tokens parts.1).code (fit ",") (resumes_separator (by decide))
        exact (key.tokens parts.2).code (fit ")") (resumes_separator (by decide))
      obtain ⟨entry₁, entries⟩ := List.forall_mem_cons.mp entries
      refine Ends.emitted (Ends.code (List.foldlRecOn more _ ?_ fun b built e member => ?_) (fit ")"))
        finishes_close
      · exact entry (start.code (fit _)) entry₁ _
      · exact entry (built.code (fit ",")) (entries e member) _
  | some t =>
    have typed : Sound package places source t.tokens := type t rfl
    cases es with
    | nil =>
      have made := ((start.code (fit "make(")).tokens typed).code (fit ")") (resumes_separator (by decide))
      exact made.emitted finishes_close
    | cons first more =>
      have name : IsName (ctx.fresh "m").1.toList := isName_fresh (Nat.succ_pos _) (by decide)
      refine Ends.emitted (Ends.code (List.foldlRecOn (first :: more) _ ?_ fun b built e member => ?_) (fit _))
        (finishes_of_code (isCode_return name) rfl)
      · have opened := ((start.code (fit "func()")).tokens typed).code (fit " \x7b")
          (resumes_separator (by decide))
        have size := resumes_of_code (isCode_size (Nat.succ_pos more.length)) rfl
        exact ((opened.code (fit _)).tokens typed).code (fit _) size
      · have parts := entries e member
        refine Builds.code (Ends.tokens ?_ parts.2) (fit ";") (resumes_separator (by decide))
        exact ((built.code (fit _)).tokens parts.1).code (fit "] =") (resumes_separator (by decide))

theorem Spread.emit_numbered {e : Spread} (iterable : Sound package places source e.iterable.tokens) :
    Emitted package places source (e.emit ctx).1 := by
  have fit := fit_elsewhere package source elsewhere
  have start := ends_start package places source ctx.span
  obtain ⟨iterable', fs⟩ := e
  cases fs with
  | nil =>
    have call := start.code (fit s!"{packageName ctx.imports.sugar}.Clone(")
    have close := (call.tokens iterable).code (fit ")") (resumes_separator (by decide))
    exact close.emitted finishes_close
  | cons first more =>
    have codes {b : Builder} (h : Ends package places source ctx.span b) (text : Token → String) :
        Ends package places source ctx.span ((first :: more).foldl (fun b f => b.code (text f)) b) :=
      List.foldlRecOn _ _ h fun b built f _ => built.code (fit (text f))
    refine Ends.emitted (Ends.code (codes ?_ _) (fit ") \x7d \x7d)")) (finishes_code
      [⟨.none, ")", .rparen⟩, ⟨.space, "\x7d", .rbrace⟩, ⟨.space, "\x7d", .rbrace⟩,
        ⟨.none, ")", .rparen⟩] rfl (by decide) rfl)
    refine Ends.code (Builds.code (Ends.tokens (Ends.code (codes ?_ _) (fit _)) iterable) (fit " \x7b")
      (resumes_separator (by decide))) (fit _)
    refine Builds.code (Ends.tokens ?_ iterable) (fit ")") (resumes_separator (by decide))
    exact (codes (start.code (fit _)) _).code (fit _)

/-- A literal without markers stays as it is. -/
theorem Interpolation.emit_numbered {s : Interpolation} (exprs : ∀ e ∈ s.exprs, Sound package places source e.tokens) :
    (s.emit ctx).1 = [s.literal] ∨ Emitted package places source (s.emit ctx).1 := by
  have fit := fit_elsewhere package source elsewhere
  have start := ends_start package places source ctx.span
  obtain ⟨literal, template, es⟩ := s
  cases es with
  | nil => exact .inl rfl
  | cons first more =>
    right
    have marker {b : Builder} {e : Expression} (h : Ends package places source ctx.span (b.code ","))
        (sound : Sound package places source e.tokens) :
        Builds package places source ctx.span ((b.code ",").tokens e.tokens) :=
      h.tokens sound
    obtain ⟨sound, exprs⟩ := List.forall_mem_cons.mp exprs
    refine Ends.emitted (Builds.code (List.foldlRecOn more _ ?_ fun b built e member => ?_) (fit ")")
      (resumes_separator (by decide))) finishes_close
    · exact marker ((start.code (fit _)).code (fit ",")) sound
    · exact marker (built.code (fit ",") (resumes_separator (by decide))) (exprs e member)

end

/-! ## From the body to the output -/

theorem Sound.part (h : Sound package places source ts) (numbered : Numbered package places source us)
    (part : us <:+: ts) : Sound package places source us := ⟨numbered, fun t member => h.legal t (part.subset member)⟩

theorem Conditional.parse_numbered {e : Conditional} (body : Sound package places source ts)
    (parsed : Conditional.parse stop ts = .ok e) : Sound package places source e.condition.tokens ∧
      Sound package places source e.result.tokens ∧ Sound package places source e.alternative.tokens := by
  obtain ⟨condition, result, alternative⟩ :=
    ((Conditional.parse_iff body.proper).mp parsed).numbered body.numbered
  obtain ⟨part₁, part₂, part₃⟩ := Conditional.parse_parts parsed
  exact ⟨body.part condition part₁.run, body.part result part₂.run, body.part alternative part₃.run⟩

theorem Elvis.parse_numbered {e : Elvis} (body : Sound package places source ts)
    (parsed : Elvis.parse stop ts = .ok e) : Sound package places source e.condition.tokens ∧
      Sound package places source e.alternative.tokens := by
  obtain ⟨condition, alternative⟩ := ((Elvis.parse_iff body.proper).mp parsed).numbered body.numbered
  obtain ⟨part₁, part₂⟩ := Elvis.parse_parts parsed
  exact ⟨body.part condition part₁.run, body.part alternative part₂.run⟩

theorem ElvisAssign.parse_numbered {e : ElvisAssign} (body : Sound package places source ts)
    (parsed : ElvisAssign.parse stop ts = .ok e) : Sound package places source [e.target] ∧
      Sound package places source e.alternative.tokens := by
  obtain ⟨target, alternative⟩ := ((ElvisAssign.parse_iff body.proper).mp parsed).numbered body.numbered
  obtain ⟨part₁, -, part₂⟩ := ElvisAssign.parse_parts parsed
  exact ⟨body.part target part₁, body.part alternative part₂.run⟩

theorem IncDec.parse_numbered {e : IncDec} (body : Sound package places source ts)
    (parsed : IncDec.parse stop ts = .ok e) : Sound package places source [e.name] :=
  body.part (((IncDec.parse_iff body.proper).mp parsed).numbered body.numbered) (IncDec.parse_parts parsed).1

theorem Spread.parse_numbered {e : Spread} (body : Sound package places source ts)
    (parsed : Spread.parse stop ts = .ok e) : Sound package places source e.iterable.tokens :=
  body.part (((Spread.parse_iff body.proper).mp parsed).numbered body.numbered) (Spread.parse_parts parsed).1.run

theorem Truthiness.parse_tokens {e : Truthiness} (parsed : Truthiness.parse stop ts = .ok e) :
    e.value.tokens = ts := by
  unfold Truthiness.parse at parsed
  cases accepted : parseExpression ts stop with
  | error d =>
    rw [accepted] at parsed
    cases parsed
  | ok value =>
    rw [accepted] at parsed
    obtain rfl := Except.ok.inj parsed
    exact (parseExpression_part accepted).1

theorem Truthiness.parse_numbered {e : Truthiness} (body : Sound package places source ts)
    (parsed : Truthiness.parse stop ts = .ok e) : Sound package places source e.value.tokens :=
  Truthiness.parse_tokens parsed ▸ body

theorem MapLiteral.parse_numbered {m : MapLiteral} (body : Sound package places source ts)
    (parsed : MapLiteral.parse stop ts = .ok m) : (∀ t ∈ m.type, Sound package places source t.tokens) ∧
      ∀ e ∈ m.entries, Sound package places source [e.key] ∧ Sound package places source e.value.tokens := by
  obtain ⟨type, entries⟩ := (MapLiteral.parse_reads parsed).numbered body.numbered
  obtain ⟨part, parts⟩ := MapLiteral.parse_parts parsed
  refine ⟨fun t typed => body.part (type t typed) (part t typed).run, fun e member => ?_⟩
  obtain ⟨key, value⟩ := entries e member
  exact ⟨body.part key (parts e member).key, body.part value (parts e member).value.run⟩

/-- An interpolation is read from one string literal. -/
theorem Interpolation.parse_single {s : Interpolation} (proper : ∀ t ∈ ts, t.kind ≠ .eof)
    (parsed : Interpolation.parse stop ts = .ok s) : ts = [s.literal] ∧ s.literal.kind = .string := by
  unfold Interpolation.parse at parsed
  dsimp only [Cursor.next] at parsed
  split at parsed
  · obtain ⟨a, b, parsed⟩ := bind_eq_ok parsed
    cases b
  rename_i kind
  obtain ⟨⟨⟩, ended, parsed⟩ := bind_eq_ok parsed
  split at parsed
  · cases parsed
  obtain ⟨⟨template, es⟩, -, parsed⟩ := bind_eq_ok parsed
  obtain rfl := Except.ok.inj parsed
  cases ts with
  | nil => cases (show TokenKind.eof = .string from not_not.mp kind)
  | cons t ts =>
    have front : t :: ts = [t] ++ (Cursor.ofTokens (t :: ts) stop).next.2.rest := rfl
    have whole := append_of_expectEnd proper front ended
    obtain rfl := (List.cons.inj whole).2
    exact ⟨rfl, not_not.mp kind⟩

/-- If the literal is one of the source, the tokens of its markers are known. -/
theorem Interpolation.parse_interpolated {s : Interpolation} (proper : ∀ t ∈ ts, t.kind ≠ .eof)
    (own : EndsInSource source ts) (parsed : Interpolation.parse stop ts = .ok s) :
    ∀ e ∈ s.exprs, ∀ t ∈ e.tokens, Interpolated source t := by
  obtain ⟨rfl, kind⟩ := Interpolation.parse_single proper parsed
  intro e member t inner
  obtain ⟨literal, listed, same⟩ := own s.literal rfl kind
  have moved : { literal with gap := s.literal.gap } = s.literal := by
    obtain ⟨kind', literal', span'⟩ := kind_eq_of_bare same
    rw [kind', literal', span']
  exact ⟨literal, listed, s.literal.gap, stop, s, by rwa [moved], e, member, t, inner, rfl⟩

theorem Interpolation.parse_numbered {s : Interpolation} (body : Sound package places source ts)
    (own : EndsInSource source ts) (parsed : Interpolation.parse stop ts = .ok s) :
    ∀ e ∈ s.exprs, Sound package places source e.tokens := by
  obtain ⟨-, markers⟩ := Interpolation.parse_parts parsed
  have known := Interpolation.parse_interpolated body.proper own parsed
  refine fun e member => ⟨numbered_of_forall fun t inner _ _ => known e member t inner, fun t inner => ?_⟩
  obtain ⟨verbatim, offset, text, marker⟩ := markers e member
  exact isLegal_of_marker marker t inner

/-! ## Where placeholders come from -/

/-- A token of the source, or of a marker in one of its string literals. -/
def Copied (source : List Token) (t : Token) : Prop := (∃ u ∈ source, u.bare = t.bare) ∨ Interpolated source t

/-- A package whose name can be written and is not that of the placeholder. -/
structure Ordinary (package : String) : Prop where
  named : IsName package.toList
  other : package ≠ placeholder

/-- Where a placeholder comes from: it is copied, it stands at one of the places listed, or it is a field that
is copied and that a spread has repeated. -/
def Traced (places spreads : List Span) (source : List Token) (t : Token) : Prop :=
  IsPlaceholder t → Copied source t ∨ t.span ∈ places ∨
    t.span ∈ spreads ∧ ∃ u, IsPlaceholder u ∧ Copied source u

variable {spreads : List Span}

theorem Traced.bare {t u : Token} (h : Traced places spreads source t) (same : u.bare = t.bare) :
    Traced places spreads source u := by
  obtain ⟨kind, literal, span⟩ := kind_eq_of_bare same
  intro isPlaceholder
  have origin := h ⟨kind ▸ isPlaceholder.kind, literal ▸ isPlaceholder.literal⟩
  simp only [Copied, Interpolated] at origin ⊢
  rwa [same, span]

/-- The words of code tell whether it has a placeholder. -/
theorem traced_of_words (free : placeholder ∉ codeWords text) :
    ∀ t ∈ codeAt place text, Traced places spreads source t := by
  intro t member isPlaceholder
  refine absurd ?_ free
  rw [← words_codeAt place, mem_words]
  refine ⟨t, member, isPlaceholder.kind, ?_⟩
  rw [Token.text, isPlaceholder.literal, Text.toString_utf8]

theorem free_known (code : List Spelt) (told : text.toList = Spelt.chars code)
    (known : Spelt.areKnown none code = true) (nonempty : code ≠ []) (other : placeholder ∉ Spelt.words code) :
    placeholder ∉ codeWords text := by
  rwa [codeWords_known code told known nonempty]

theorem free_separator (text : String) (known : text ∈ separators.map Prod.fst) : placeholder ∉ codeWords text := by
  intro member
  obtain ⟨t, inner, kind, -⟩ := mem_words.mp member
  exact ((codeAt_separator known .none).2 t inner).1 kind

/-- Code that is put behind the name of a package. -/
def selectors : List (String × List Spelt) :=
  (["Of", "MapOf", "Entry", "Clone", "Spread", "Fill", "Elem"].map fun name => (s!".{name}(",
    [⟨.none, ".", .period⟩, ⟨.none, name, .identifier⟩, ⟨.none, "(", .lparen⟩])) ++
  (["Inc", "Dec"].map fun name => (s!".{name}(&",
    [⟨.none, ".", .period⟩, ⟨.none, name, .identifier⟩, ⟨.none, "(", .lparen⟩, ⟨.none, "&", .operator⟩]))

theorem selectors_known : ∀ p ∈ selectors, p.1.toList = Spelt.chars p.2 ∧ Spelt.areKnown none p.2 = true ∧
    (Spelt.chars p.2).head? = some '.' ∧ placeholder ∉ Spelt.words p.2 := by decide

theorem free_selector {package : String} (h : Ordinary package) (front : String)
    (known : front ∈ selectors.map Prod.fst) : placeholder ∉ codeWords (package ++ front) := by
  obtain ⟨⟨front, code⟩, listed, rfl⟩ := List.mem_map.mp known
  obtain ⟨told, known, point, other⟩ := selectors_known _ listed
  rw [codeWords_eq (isCode_package h.named code told known point), words_cons, words_spelt]
  simpa [Token.text, Text.toString_utf8, h.other.symm] using other

/-- No name that is made up is that of the placeholder. -/
theorem fresh_ne_placeholder {base : String} (known : base ∈ Context.bases) (c : Context) :
    placeholder ≠ (c.fresh base).1 := by
  have heads : ∀ base ∈ Context.bases, base.toList.head?.any (· ≠ 'g') = true := by decide
  intro same
  have first : placeholder.toList.head? = (c.fresh base).1.toList.head? := by rw [← same]
  have other := heads base known
  rw [Context.fresh_fst, Context.toList_name] at first
  cases chars : base.toList with
  | nil => rw [chars] at other; cases other
  | cons c cs =>
    rw [chars] at first other
    have letter : some 'g' = some c := first
    obtain rfl := Option.some.inj letter
    simp at other

theorem coded_of_free {texts : List String} (free : ∀ text ∈ texts, placeholder ∉ codeWords text) :
    Coded (Traced places spreads source) ctx texts := fun text listed => traced_of_words (free text listed)

theorem ElvisAssign.code_free (e : ElvisAssign) (truth : Ordinary (packageName ctx.imports.truth)) :
    ∀ text ∈ e.code ctx, placeholder ∉ codeWords text := by
  simp only [ElvisAssign.code, List.forall_mem_cons, List.not_mem_nil, false_implies, implies_true, and_true]
  refine ⟨?_, free_separator _ (by decide), free_separator _ (by decide), free_separator _ (by decide)⟩
  rw [codeWords_eq (isCode_if truth.named (!e.negated))]
  have of : placeholder ≠ "Of" := by decide
  cases e.negated <;> simp [words_cons, Token.text, Text.toString_utf8, truth.other.symm, of]

theorem IncDec.code_free (e : IncDec) (sugar : Ordinary (packageName ctx.imports.sugar)) :
    ∀ text ∈ e.code ctx, placeholder ∉ codeWords text := by
  simp only [IncDec.code, List.forall_mem_cons, List.not_mem_nil, false_implies, implies_true, and_true]
  refine ⟨?_, free_separator _ (by decide)⟩
  obtain ⟨name, increment⟩ := e
  cases increment with
  | false =>
    rw [String.append_assoc, String.append_assoc]
    exact free_selector sugar ".Dec(&" (by decide)
  | true =>
    rw [String.append_assoc, String.append_assoc]
    exact free_selector sugar ".Inc(&" (by decide)

theorem Truthiness.code_free (truth : Ordinary (packageName ctx.imports.truth)) :
    ∀ text ∈ Truthiness.code ctx, placeholder ∉ codeWords text := by
  simp only [Truthiness.code, List.forall_mem_cons, List.not_mem_nil, false_implies, implies_true, and_true]
  exact ⟨free_selector truth ".Of(" (by decide), free_separator _ (by decide)⟩

theorem MapLiteral.code_free (m : MapLiteral) (sugar : Ordinary (packageName ctx.imports.sugar)) :
    ∀ text ∈ m.code ctx, placeholder ∉ codeWords text := by
  have name : IsName (ctx.fresh "m").1.toList := isName_fresh (Nat.succ_pos _) (by decide)
  have other : placeholder ≠ (ctx.fresh "m").1 := fresh_ne_placeholder (by decide) ctx
  simp only [MapLiteral.code, List.forall_mem_cons, List.not_mem_nil, false_implies, implies_true, and_true]
  refine ⟨?_, ?_, free_separator _ (by decide), free_selector sugar ".MapOf(" (by decide),
    free_selector sugar ".Entry(" (by decide), free_separator _ (by decide), ?_, free_separator _ (by decide),
    ?_, ?_, ?_, free_separator _ (by decide), free_separator _ (by decide), ?_⟩
  · exact free_known [⟨.none, "make", .identifier⟩, ⟨.none, "(", .lparen⟩, ⟨.none, "map", .map⟩,
      ⟨.none, "[", .lbracket⟩, ⟨.none, "any", .identifier⟩, ⟨.none, "]", .rbracket⟩,
      ⟨.none, "any", .identifier⟩, ⟨.none, ")", .rparen⟩] rfl (by decide) (by simp) (by decide)
  · exact free_known [⟨.none, "make", .identifier⟩, ⟨.none, "(", .lparen⟩] rfl (by decide) (by simp) (by decide)
  · exact free_known [⟨.none, "func", .keyword⟩, ⟨.none, "(", .lparen⟩, ⟨.none, ")", .rparen⟩] rfl (by decide)
      (by simp) (by decide)
  · have make : placeholder ≠ "make" := by decide
    rw [codeWords_eq (isCode_make name)]
    simp [words_cons, Token.text, Text.toString_utf8, other, make]
  · cases m.entries.length with
    | zero => decide +kernel
    | succ n =>
      rw [codeWords_eq (isCode_size (Nat.succ_pos n))]
      simp [words_cons]
  · rw [codeWords_eq (isCode_index name)]
    simp [words_cons, Token.text, Text.toString_utf8, other]
  · rw [codeWords_eq (isCode_return name)]
    simp [words_cons, Token.text, Text.toString_utf8, other]

theorem Spread.code_free (sugar : Ordinary (packageName ctx.imports.sugar)) :
    ∀ text ∈ Spread.code ctx, placeholder ∉ codeWords text := by
  have yield : IsName (ctx.sugar.2.fresh "yield").1.toList := isName_fresh (Nat.succ_pos _) (by decide)
  have it : IsName ((ctx.sugar.2.fresh "yield").2.fresh "it").1.toList := isName_fresh (Nat.succ_pos _) (by decide)
  have other : placeholder ≠ (ctx.sugar.2.fresh "yield").1 := fresh_ne_placeholder (by decide) _
  have other' : placeholder ≠ ((ctx.sugar.2.fresh "yield").2.fresh "it").1 := fresh_ne_placeholder (by decide) _
  simp only [Spread.code, List.forall_mem_cons, List.not_mem_nil, false_implies, implies_true, and_true]
  refine ⟨free_selector sugar ".Clone(" (by decide), free_separator _ (by decide),
    free_selector sugar ".Spread(" (by decide), free_selector sugar ".Fill(" (by decide),
    free_selector sugar ".Elem(" (by decide), ?_, free_separator _ (by decide), ?_, ?_⟩
  · have any : placeholder ≠ "any" := by decide
    have blank : placeholder ≠ "_" := by decide
    rw [codeWords_eq (isCode_loop yield it)]
    simp [words_cons, Token.text, Text.toString_utf8, other, other', any, blank]
  · rw [codeWords_eq (isCode_yield yield it)]
    simp [words_cons, Token.text, Text.toString_utf8, other, other']
  · exact free_known [⟨.none, ")", .rparen⟩, ⟨.space, "\x7d", .rbrace⟩, ⟨.space, "\x7d", .rbrace⟩,
      ⟨.none, ")", .rparen⟩] rfl (by decide) (by simp) (by decide)

/-- A field of a spread is repeated where the spread is. -/
theorem Spread.field_traced {f : Token} (legal : IsLegal f) (kind : f.kind = .identifier)
    (here : ctx.span ∈ spreads) (copied : IsPlaceholder f → ∃ u, IsPlaceholder u ∧ Copied source u) :
    Coded (Traced places spreads source) ctx [")." ++ f.text, "." ++ f.text] := by
  obtain ⟨name, spelt⟩ := legal.named kind
  by_cases same : f.text = placeholder
  · have isPlaceholder : IsPlaceholder f := ⟨kind, by rw [← spelt, same]; rfl⟩
    exact fun text _ t member _ =>
      .inr (.inr ⟨(codeAt_spec ctx.span text t member).1 ▸ here, copied isPlaceholder⟩)
  · have other : placeholder ≠ Text.toString f.literal := Ne.symm same
    refine coded_of_free ?_
    simp only [List.forall_mem_cons, List.not_mem_nil, false_implies, implies_true, and_true]
    constructor
    · rw [codeWords_eq (isCode_field [⟨.none, ")", .rparen⟩, ⟨.none, ".", .period⟩]
        (show ").".toList = _ by decide) (by decide) name)]
      simp [words_cons, Spelt.token, Token.text, Text.toString_utf8, other]
    · rw [codeWords_eq (isCode_field [⟨.none, ".", .period⟩] (show ".".toList = _ by decide) (by decide) name)]
      simp [words_cons, Spelt.token, Token.text, Text.toString_utf8, other]

theorem Interpolation.code_free (s : Interpolation) : ∀ text ∈ s.code, placeholder ∉ codeWords text := by
  simp only [Interpolation.code, List.forall_mem_cons, List.not_mem_nil, false_implies, implies_true, and_true]
  refine ⟨?_, free_separator _ (by decide), free_separator _ (by decide)⟩
  have names : placeholder ≠ "fmt" ∧ placeholder ≠ "Sprintf" := by decide
  rw [codeWords_eq (isCode_format s.template)]
  simp [words_cons, Token.text, Text.toString_utf8, names]

theorem Whole.append (h : Whole package places source ts) (h' : Whole package places source us) :
    Whole package places source (ts ++ us) where
  sound := ⟨h.sound.numbered.append h'.sound.numbered (.inl h.settled),
    List.forall_mem_append.mpr ⟨h.sound.legal, h'.sound.legal⟩⟩
  settled := forall_getLast?_append h.settled h'.settled
  own := forall_getLast?_append h.own h'.own

theorem Whole.congr (h : Whole package places source ts) (same : us.map Token.bare = ts.map Token.bare) :
    Whole package places source us where
  sound := ⟨h.sound.numbered.congr same, legal_of_bare h.sound.legal same⟩
  settled := h.settled.congr same
  own t last string := by
    obtain ⟨u, found, alike⟩ := getLast?_of_bare same last
    obtain ⟨literal, listed, own⟩ := h.own u found ((kind_eq_of_bare alike).1.trans string)
    exact ⟨literal, listed, own.trans alike⟩

/-- The names of the forms that are emitted as calls of a placeholder. -/
def conditionalNames : List String := ["cxp", "elv"]

theorem Emitted.whole (h : Emitted package places source ts) : Whole package places source ts := by
  obtain ⟨u, last, isClose⟩ := h.finishes
  refine ⟨h.sound, fun t found int => ?_, fun t found string => ?_⟩
  · obtain rfl := Option.some.inj ((Option.mem_def.mp found).symm.trans last)
    rw [int] at isClose
    cases isClose
  · obtain rfl := Option.some.inj ((Option.mem_def.mp found).symm.trans last)
    rw [string] at isClose
    cases isClose

/-- If the numbers of conditionals lead back in a body, they do in what a form emits for it, and the number
of a conditional leads to the place where it is invoked. -/
theorem transform_numbered {f : Form} (known : f ∈ builtins) {out : List Token}
    (tested : packageName ctx.imports.truth = package) (named : IsName package.toList)
    (body : Whole package places source ts)
    (listed : f.name ∈ conditionalNames → places[ctx.conditionals.length]? = some ctx.span)
    (elsewhere : f.name ∉ conditionalNames → ctx.span ∉ places)
    (done : f.transform ctx ts = .ok (out, ctx')) : Whole package places source out := by
  have sound := body.sound
  simp only [builtins, List.mem_cons, List.not_mem_nil, or_false] at known
  rcases known with rfl | rfl | rfl | rfl | rfl | rfl | rfl | rfl | rfl <;>
    obtain ⟨e, parsed, rfl, -⟩ := transform_of done
  · obtain ⟨condition, result, alternative⟩ := Conditional.parse_numbered sound parsed
    exact (e.emit_numbered (listed (by decide)) tested named condition result alternative).whole
  · obtain ⟨condition, alternative⟩ := Elvis.parse_numbered sound parsed
    exact (Conditional.emit_numbered (listed (by decide)) tested named condition condition alternative).whole
  · obtain ⟨target, alternative⟩ := ElvisAssign.parse_numbered sound parsed
    exact (e.emit_numbered (elsewhere (by decide)) target alternative).whole
  · exact (e.emit_numbered (elsewhere (by decide)) (IncDec.parse_numbered sound parsed)).whole
  · obtain ⟨type, entries⟩ := MapLiteral.parse_numbered sound parsed
    exact (e.emit_numbered (elsewhere (by decide)) type entries).whole
  · obtain ⟨type, entries⟩ := MapLiteral.parse_numbered sound parsed
    exact (e.emit_numbered (elsewhere (by decide)) type entries).whole
  · exact (e.emit_numbered (elsewhere (by decide)) (Spread.parse_numbered sound parsed)).whole
  · obtain ⟨single, -⟩ := Interpolation.parse_single sound.proper parsed
    have exprs := Interpolation.parse_numbered sound body.own parsed
    obtain plain | emitted := e.emit_numbered (elsewhere (by decide)) exprs
    · rw [plain, ← single]
      exact body
    · exact emitted.whole
  · exact (e.emit_numbered (elsewhere (by decide)) (Truthiness.parse_numbered sound parsed)).whole

/-- If it is known of each placeholder in a body where it comes from, it is of each one in what a form emits. -/
theorem transform_traced {f : Form} (known : f ∈ builtins) {out : List Token}
    (sugar : Ordinary (packageName ctx.imports.sugar)) (truth : Ordinary (packageName ctx.imports.truth))
    (body : Whole package places source ts) (traced : ∀ t ∈ ts, Traced places spreads source t)
    (listed : f.name ∈ conditionalNames → ctx.span ∈ places) (spread : f.name = "spr" → ctx.span ∈ spreads)
    (done : f.transform ctx ts = .ok (out, ctx')) : ∀ t ∈ out, Traced places spreads source t := by
  have proper := body.sound.proper
  have run {us : List Token} (part : us <:+: ts) : ∀ t ∈ us, Traced places spreads source t.bare :=
    fun t member => (traced t (part.subset member)).bare rfl
  have single {t : Token} (part : [t] <:+: ts) : Traced places spreads source t.bare :=
    run part t (List.mem_singleton_self t)
  have call (conditional : f.name ∈ conditionalNames) (texts : List String) :
      Coded (Traced places spreads source) ctx texts :=
    fun text _ t member _ => .inr (.inl ((codeAt_spec ctx.span text t member).1 ▸ listed conditional))
  have maps {m : MapLiteral} (parsed : MapLiteral.parse ctx.stop ts = .ok m) :
      ∀ t ∈ (m.emit ctx).1, Traced places spreads source t.bare := by
    obtain ⟨type, entries⟩ := MapLiteral.parse_parts parsed
    exact m.emit_all (coded_of_free (m.code_free sugar)) (fun t given => run (type t given).run)
      fun e member => ⟨single (entries e member).key, run (entries e member).value.run⟩
  suffices ∀ t ∈ out, Traced places spreads source t.bare from fun t member => (this t member).bare rfl
  simp only [builtins, List.mem_cons, List.not_mem_nil, or_false] at known
  rcases known with rfl | rfl | rfl | rfl | rfl | rfl | rfl | rfl | rfl <;>
    obtain ⟨e, parsed, rfl, -⟩ := transform_of done
  · obtain ⟨condition, result, alternative⟩ := Conditional.parse_parts parsed
    exact Conditional.emit_all (call (by decide) _) (run condition.run) (run result.run) (run alternative.run)
  · obtain ⟨condition, alternative⟩ := Elvis.parse_parts parsed
    exact Conditional.emit_all (call (by decide) _) (run condition.run) (run condition.run) (run alternative.run)
  · obtain ⟨target, -, alternative⟩ := ElvisAssign.parse_parts parsed
    exact e.emit_all (coded_of_free (e.code_free truth)) (single target) (run alternative.run)
  · exact e.emit_all (coded_of_free (e.code_free sugar)) (single (IncDec.parse_parts parsed).1)
  · exact maps parsed
  · exact maps parsed
  · obtain ⟨iterable, fields⟩ := Spread.parse_parts parsed
    have own := ((Spread.parse_iff proper).mp parsed).interpolated body.sound.numbered
    refine e.emit_all (coded_of_free (Spread.code_free sugar)) (fun f member => ?_) (run iterable.run)
    have inside : f ∈ ts := (fields f member).1.subset (List.mem_singleton_self f)
    refine Spread.field_traced (body.sound.legal f inside) (fields f member).2 (spread rfl) fun isPlaceholder => ?_
    obtain copied | place | ⟨-, spelt⟩ := traced f inside isPlaceholder
    · exact ⟨f, isPlaceholder, copied⟩
    · exact ⟨f, isPlaceholder, .inr (own f member isPlaceholder place)⟩
    · exact spelt
  · have markers := Interpolation.parse_interpolated proper body.own parsed
    exact e.emit_all (coded_of_free e.code_free) (single (Interpolation.parse_parts parsed).1)
      fun x member t inside _ => .inl (.inr (markers x member t inside))
  · exact e.emit_all (coded_of_free (Truthiness.code_free truth)) (run (Truthiness.parse_parts parsed).run)

/-- Tokens whose numbers lead back, and whose placeholders come from somewhere that is known. -/
structure Accounted (imports : Imports) (places spreads : List Span) (source ts : List Token) : Prop where
  whole : Whole (packageName imports.truth) places source ts
  traced : Ordinary (packageName imports.sugar) → Ordinary (packageName imports.truth) →
    ∀ t ∈ ts, Traced places spreads source t

namespace Accounted

variable {imports : Imports}

theorem nil : Accounted imports places spreads source [] where
  whole := ⟨⟨numbered_nil, by simp⟩, by simp [Settled], by simp [EndsInSource]⟩
  traced _ _ := List.forall_mem_nil _

theorem append (h : Accounted imports places spreads source ts) (h' : Accounted imports places spreads source us) :
    Accounted imports places spreads source (ts ++ us) where
  whole := h.whole.append h'.whole
  traced sugar truth := List.forall_mem_append.mpr ⟨h.traced sugar truth, h'.traced sugar truth⟩

theorem congr (h : Accounted imports places spreads source ts) (same : us.map Token.bare = ts.map Token.bare) :
    Accounted imports places spreads source us where
  whole := h.whole.congr same
  traced sugar truth t member := by
    obtain ⟨u, inner, alike⟩ := List.mem_map.mp (same ▸ List.mem_map_of_mem member)
    exact (h.traced sugar truth u inner).bare alike.symm

theorem flatMap {α : Type} {l : List α} {f : α → List Token}
    (each : ∀ a ∈ l, Accounted imports places spreads source (f a)) :
    Accounted imports places spreads source (l.flatMap f) := by
  induction l with
  | nil => exact nil
  | cons a l ih =>
    obtain ⟨here, later⟩ := List.forall_mem_cons.mp each
    exact here.append (ih later)

end Accounted

/-- What is known of a body is known of what a form emits for it, if the places listed are those of the
conditionals and the spreads. -/
theorem transform_accounted {f : Form} (known : f ∈ builtins) {out : List Token} {imports : Imports}
    (same : ctx.imports = imports) (named : IsName (packageName imports.truth).toList)
    (body : Accounted imports places spreads source ts)
    (listed : f.name ∈ conditionalNames → places[ctx.conditionals.length]? = some ctx.span)
    (elsewhere : f.name ∉ conditionalNames → ctx.span ∉ places) (spread : f.name = "spr" → ctx.span ∈ spreads)
    (done : f.transform ctx ts = .ok (out, ctx')) : Accounted imports places spreads source out := by
  subst same
  exact ⟨transform_numbered known rfl named body.whole listed elsewhere done,
    fun sugar truth => transform_traced known sugar truth body.whole (body.traced sugar truth)
      (fun conditional => List.mem_of_getElem? (listed conditional)) spread done⟩

/-- A conditional is emitted as a call of a placeholder at the place where it is invoked. -/
theorem transform_placeholder {f : Form} (known : f ∈ builtins) (conditional : f.name ∈ conditionalNames)
    {out : List Token} (done : f.transform ctx ts = .ok (out, ctx')) :
    ∃ t rest, out = t :: rest ∧ IsPlaceholder t ∧ t.span = ctx.span := by
  have call (e : Conditional) : ∃ t rest, (e.emit ctx).1 = t :: rest ∧ IsPlaceholder t ∧ t.span = ctx.span := by
    obtain ⟨-, us, first, same⟩ := adds_code { span := ctx.span }
      (placeholder ++ "(" ++ (ctx.conditionals.length + 1).repr ++ ",")
    rw [codeAt_eq (isCode_conditional (Nat.succ_pos ctx.conditionals.length))] at same
    obtain ⟨t, us, rfl, alike, -⟩ := List.map_eq_cons_iff.mp same
    obtain ⟨kind, literal, span⟩ := kind_eq_of_bare alike
    have behind : (t :: us) <+: (e.emit ctx).1 := by
      rw [show stream { span := ctx.span } = [] from rfl, List.nil_append] at first
      rw [← first]
      exact (((((front_tokens _ _).trans (front_code _ _)).trans (front_tokens _ _)).trans
        (front_code _ _)).trans (front_tokens _ _)).trans (front_code _ _)
    obtain ⟨rest, whole⟩ := behind
    exact ⟨t, us ++ rest, whole.symm, ⟨kind, literal⟩, span⟩
  simp only [builtins, List.mem_cons, List.not_mem_nil, or_false] at known
  rcases known with rfl | rfl | rfl | rfl | rfl | rfl | rfl | rfl | rfl
  · obtain ⟨e, -, rfl, -⟩ := transform_of done
    exact call e
  · obtain ⟨e, -, rfl, -⟩ := transform_of done
    exact call ⟨e.condition, e.condition, e.alternative, e.negated⟩
  all_goals exact absurd conditional (by decide)

/-- A conditional notes where it is invoked, and nothing else does. -/
theorem transform_conditionals {f : Form} (known : f ∈ builtins) {out : List Token}
    (done : f.transform ctx ts = .ok (out, ctx')) : ctx'.imports = ctx.imports ∧
      ctx'.conditionals = ctx.conditionals ++ (if f.name ∈ conditionalNames then [ctx.span] else []) := by
  have plain {α : List Span} : α = α ++ [] := (List.append_nil α).symm
  simp only [builtins, List.mem_cons, List.not_mem_nil, or_false] at known
  rcases known with rfl | rfl | rfl | rfl | rfl | rfl | rfl | rfl | rfl <;>
    obtain ⟨e, -, -, rfl⟩ := transform_of done
  · exact ⟨rfl, rfl⟩
  · exact ⟨rfl, rfl⟩
  · exact ⟨rfl, plain⟩
  · exact ⟨rfl, plain⟩
  · obtain ⟨_ | _, _ | _⟩ := e <;> exact ⟨rfl, plain⟩
  · obtain ⟨_ | _, _ | _⟩ := e <;> exact ⟨rfl, plain⟩
  · obtain ⟨_, _ | _⟩ := e <;> exact ⟨rfl, plain⟩
  · obtain ⟨_, _, _ | _⟩ := e <;> exact ⟨rfl, plain⟩
  · exact ⟨rfl, plain⟩

end Form
end Desugar

import Desugar.Proofs.Form.Parts
import Desugar.Proofs.Host.Naming
import Mathlib.Data.List.Forall2

/-!
# Tokens that stand elsewhere

A form reads the kinds and the texts of tokens and the gaps before them. Where they stand shows only in
complaints. So what is read of a text, and what a form makes of it, does not depend on the file that the
text is in, nor on the place of the invocation.
-/
namespace Desugar

open Host

/-! ## Tokens -/

/-- The same token, though it may stand elsewhere. -/
structure Token.Elsewhere (t t' : Token) : Prop where
  kind : t.kind = t'.kind
  literal : t.literal = t'.literal
  gap : t.gap = t'.gap

/-- The same token at the same offsets, though maybe of another file. -/
structure Token.InPlace (t t' : Token) : Prop extends t.Elsewhere t' where
  start : t.span.start.offset = t'.span.start.offset
  stop : t.span.stop.offset = t'.span.stop.offset

/-- The same tokens one after the other, though they may stand elsewhere. -/
abbrev Moved : List Token → List Token → Prop := List.Forall₂ Token.Elsewhere

theorem Token.Elsewhere.text {t t' : Token} (same : t.Elsewhere t') : t.text = t'.text :=
  congrArg Text.toString same.literal

theorem renderTail_moved {ts ts' : List Token} (moved : Moved ts ts') : renderTail ts = renderTail ts' := by
  induction moved with
  | nil => rfl
  | cons here _ ih =>
    unfold renderTail at ih ⊢
    rw [List.flatMap_cons, List.flatMap_cons, ih, here.gap, here.literal]

theorem renderTokens_moved {ts ts' : List Token} (moved : Moved ts ts') : renderTokens ts = renderTokens ts' := by
  cases moved with
  | nil => rfl
  | cons here rest =>
    change _ ++ renderTail _ = _ ++ renderTail _
    rw [renderTail_moved rest, here.literal]

theorem isEmpty_moved {ts ts' : List Token} (moved : Moved ts ts') : ts.isEmpty = ts'.isEmpty := by
  cases moved <;> rfl

theorem tail_moved {ts ts' : List Token} (moved : Moved ts ts') : Moved ts.tail ts'.tail := by
  cases moved with
  | nil => exact .nil
  | cons _ rest => exact rest

namespace Lexer

/-- Tokens of the same lexemes are the same, and stand at places that are related as those of offsets are. -/
theorem tokens_elsewhere {P : Position → Position → Prop} {o o' : Origin} {lines lines' : LineTable}
    (places : ∀ n, P (o.position lines n) (o'.position lines' n)) (bytes : Array UInt8) (last : Nat)
    (ls : List Lexeme) :
    List.Forall₂ (fun t t' => t.Elsewhere t' ∧ P t.span.start t'.span.start ∧ P t.span.stop t'.span.stop)
      (tokens o lines bytes last ls) (tokens o' lines' bytes last ls) := by
  induction size : ls.length using Nat.strongRecOn generalizing last ls with
  | ind n ih =>
    subst size
    cases ls with
    | nil => exact .nil
    | cons l rest =>
      rw [tokens_cons, tokens_cons]
      refine .cons ⟨⟨rfl, rfl, rfl⟩, places _, places _⟩ (ih _ (Nat.lt_succ_of_le ?_) _ _ rfl)
      split
      · exact (List.tail_suffix rest).length_le
      · exact Nat.le_refl _

/-- A text is read as the same tokens wherever it stands, or it is not read. -/
theorem lexAt_akin {P : Position → Position → Prop} (o o' : Origin) (text : Bytes)
    (places : ∀ n, P
      (Origin.position { o with base := o.base.filter Position.isValid } (scan o.file text).lines n)
      (Origin.position { o' with base := o'.base.filter Position.isValid } (scan o'.file text).lines n)) :
    Akin (List.Forall₂ fun t t' => t.Elsewhere t' ∧ P t.span.start t'.span.start ∧ P t.span.stop t'.span.stop)
      (lexAt o text) (lexAt o' text) := by
  obtain ⟨lexemes, -⟩ := scan_renames o.file o'.file text
  have faults : (Lexer.read o text).faults = [] ↔ (Lexer.read o' text).faults = [] := by
    have told (o o' : Origin) (lines lines' : LineTable) (f : Located) :
        diagnostic? o lines text.toArray f = none → diagnostic? o' lines' text.toArray f = none := by
      unfold diagnostic?
      split <;> simp
    unfold Lexer.read
    dsimp only
    rw [List.filterMap_eq_nil_iff, List.filterMap_eq_nil_iff, lexemes]
    exact ⟨fun clear f member => told _ _ _ _ f (clear f member),
      fun clear f member => told _ _ _ _ f (clear f member)⟩
  have read := tokens_elsewhere places text.toArray 0 ((scan o'.file text).lexemes.filter isProper)
  unfold lexAt
  dsimp only
  by_cases clear : (Lexer.read o text).faults = []
  · rw [clear, faults.mp clear]
    refine .ok ?_
    unfold Lexer.read
    dsimp only
    rw [lexemes]
    exact read
  · obtain ⟨f, failed⟩ : ∃ f, Failure.ofDiagnostics (Lexer.read o text).faults = some f := by
      unfold Failure.ofDiagnostics
      simp [clear]
    obtain ⟨f', failed'⟩ : ∃ f, Failure.ofDiagnostics (Lexer.read o' text).faults = some f := by
      unfold Failure.ofDiagnostics
      simp [mt faults.mpr clear]
    rw [failed, failed']
    exact .error f f'

theorem lexAt_elsewhere (o o' : Origin) (text : Bytes) : Akin Moved (lexAt o text) (lexAt o' text) := by
  have read := lexAt_akin (P := fun _ _ => True) o o' text fun _ => trivial
  generalize lexAt o text = x at read
  generalize lexAt o' text = y at read
  cases read with
  | ok related => exact .ok (related.imp fun _ _ h => h.1)
  | error => exact .error _ _

/-- Where a token stands in a file is told by the text alone. -/
theorem lex_inPlace (file file' : String) (text : Bytes) :
    Akin (List.Forall₂ Token.InPlace) (lex file text) (lex file' text) := by
  have size (name : String) : (scan name text).lines.size = text.length := rfl
  have offset (t : LineTable) (n : Nat) : (t.place n).offset = min n t.size := by
    unfold LineTable.place
    dsimp only
    split <;> rfl
  have read := lexAt_akin (P := fun p p' => p.offset = p'.offset) { file } { file := file' } text fun n => by
      change (((scan file text).lines.place n).offset : Int) = ((scan file' text).lines.place n).offset
      rw [offset, offset, size, size]
  unfold lex
  generalize lexAt { file } text = x at read
  generalize lexAt { file := file' } text = y at read
  cases read with
  | ok related => exact .ok (related.imp fun _ _ h => ⟨h.1, h.2.1, h.2.2⟩)
  | error => exact .error _ _

end Lexer

/-! ## Cursors -/

namespace Cursor

variable {c c' : Cursor} {ts ts' : List Token} {k : TokenKind}

theorem peek_elsewhere (moved : Moved c.rest c'.rest) : c.peek.Elsewhere c'.peek := by
  change (c.rest.getD 0 (.endMark c.stop)).Elsewhere (c'.rest.getD 0 (.endMark c'.stop))
  generalize c.rest = ts at moved
  generalize c'.rest = ts' at moved
  cases moved with
  | nil => exact ⟨rfl, rfl, rfl⟩
  | cons here => exact here

theorem ofTokens_moved (stop stop' : Span) (moved : Moved ts ts') :
    Moved (Cursor.ofTokens ts stop).rest (Cursor.ofTokens ts' stop').rest := moved

theorem next_moved (moved : Moved c.rest c'.rest) : Moved c.next.2.rest c'.next.2.rest := tail_moved moved

theorem accept_moved (moved : Moved c.rest c'.rest) (k : TokenKind) :
    (c.accept k).1.isSome = (c'.accept k).1.isSome ∧ Moved (c.accept k).2.rest (c'.accept k).2.rest := by
  unfold accept
  rw [(peek_elsewhere moved).kind]
  split
  · exact ⟨rfl, next_moved moved⟩
  · exact ⟨rfl, moved⟩

/-- A token that is taken, and what is left. -/
def Takes (x y : Token × Cursor) : Prop := x.1.Elsewhere y.1 ∧ Moved x.2.rest y.2.rest

theorem expect_akin (moved : Moved c.rest c'.rest) (k : TokenKind) : Akin Takes (c.expect k) (c'.expect k) := by
  unfold expect
  dsimp only
  rw [(peek_elsewhere moved).kind]
  split
  · exact .ok ⟨peek_elsewhere moved, next_moved moved⟩
  · exact .error _ _

theorem expectEnd_akin (moved : Moved c.rest c'.rest) : Akin (fun _ _ => True) c.expectEnd c'.expectEnd := by
  unfold expectEnd
  dsimp only
  rw [(peek_elsewhere moved).kind]
  split
  · exact .ok trivial
  · exact .error _ _

theorem groupBody_moved (closer : TokenKind) (stop stop' : Span) (open_ : List TokenKind) {inner inner' : List Token}
    (before : Moved inner inner') (moved : Moved ts ts') :
    Akin Moved (groupBody closer stop open_ inner ts).1 (groupBody closer stop' open_ inner' ts').1 ∧
      Moved (groupBody closer stop open_ inner ts).2 (groupBody closer stop' open_ inner' ts').2 := by
  induction moved generalizing open_ inner inner' with
  | nil => exact ⟨.error _ _, .nil⟩
  | @cons t t' ts ts' here rest ih =>
    have further (open_ : List TokenKind) := ih open_ (.cons here before)
    unfold groupBody
    rw [here.kind]
    split
    · exact further _
    split
    · split
      · split
        · exact ⟨.ok (List.forall₂_reverse_iff.mpr before), rest⟩
        · exact ⟨.error _ _, .cons here rest⟩
      · split
        · exact further _
        · exact ⟨.error _ _, .cons here rest⟩
    · exact further _

/-- The same group, though it may stand elsewhere. -/
structure Group.Elsewhere (g g' : Group) : Prop where
  opening : g.opening.Elsewhere g'.opening
  inner : Akin Moved g.inner g'.inner
  rest : Moved g.cursor.rest g'.cursor.rest

theorem group_elsewhere (moved : Moved c.rest c'.rest) (k : TokenKind) :
    (c.group k).Elsewhere (c'.group k) := by
  have expected := expect_akin moved k
  unfold group
  generalize c.expect k = x at expected
  generalize c'.expect k = y at expected
  cases expected with
  | error => exact ⟨peek_elsewhere moved, .error _ _, moved⟩
  | ok related =>
    obtain ⟨opening, rest⟩ := related
    obtain ⟨inner, left⟩ := groupBody_moved (k.closer?.getD .eof) _ _ [] .nil rest
    exact ⟨opening, inner, left⟩

theorem splitAtDepth_moved (stop : Token → Bool) (same : ∀ t t', Token.Elsewhere t t' → stop t = stop t')
    (depth : Int) (moved : Moved ts ts') :
    Moved (splitAtDepth stop depth ts).1 (splitAtDepth stop depth ts').1 ∧
      Moved (splitAtDepth stop depth ts).2 (splitAtDepth stop depth ts').2 := by
  induction moved generalizing depth with
  | nil => exact ⟨.nil, .nil⟩
  | cons here rest ih =>
    unfold splitAtDepth
    rw [same _ _ here, here.kind]
    split
    · exact ⟨.nil, .cons here rest⟩
    · exact ⟨.cons here (ih _).1, (ih _).2⟩

end Cursor

/-! ## Grammars -/

namespace Form

open Cursor

variable {c c' : Cursor} {ts ts' : List Token} {stop stop' place place' : Span}

/-- The same expression, though it may stand elsewhere. -/
def Expression.Elsewhere (e e' : Expression) : Prop := Moved e.tokens e'.tokens

theorem lift_akin {α β : Type} {R : α → β → Prop} {x : Except Diagnostic α} {y : Except Diagnostic β}
    (akin : Akin R x y) : Akin R (lift x) (lift y) := by
  cases akin with
  | ok related => exact .ok related
  | error => exact .error _ _

theorem parseExpression_akin (moved : Moved ts ts') :
    Akin Expression.Elsewhere (parseExpression ts place) (parseExpression ts' place') := by
  have text := renderTokens_moved moved
  cases moved with
  | nil => exact .error _ _
  | @cons t t' ts ts' here rest =>
    have parsed := parseExpr_renames t.span.start.file t'.span.start.file (renderTokens (t :: ts))
    unfold parseExpression
    dsimp only
    rw [← text]
    generalize parseExpr t.span.start.file (renderTokens (t :: ts)) = x at parsed
    generalize parseExpr t'.span.start.file (renderTokens (t :: ts)) = y at parsed
    cases parsed with
    | ok => exact .ok (.cons here rest)
    | error es es' => cases es <;> cases es' <;> exact .error _ _

theorem parseIdentifier_akin (moved : Moved ts ts') :
    Akin Token.Elsewhere (parseIdentifier ts place) (parseIdentifier ts' place') := by
  cases moved with
  | nil => exact .error _ _
  | cons here rest =>
    unfold parseIdentifier
    dsimp only
    rw [here.kind, here.literal]
    cases rest with
    | nil =>
      repeat' split
      all_goals first
        | exact .ok here
        | exact .error _ _
    | cons =>
      repeat' split
      all_goals first
        | exact .error _ _
        | contradiction

/-- An expression that is taken, and what is left. -/
def Yields (x y : Expression × Cursor) : Prop := x.1.Elsewhere y.1 ∧ Moved x.2.rest y.2.rest

theorem parenthesized_akin (moved : Moved c.rest c'.rest) : Akin Yields (parenthesized c) (parenthesized c') := by
  have group := group_elsewhere moved .lparen
  refine (lift_akin group.inner).bind fun inner inner' inside => ?_
  exact (parseExpression_akin inside).bind fun e e' same => .ok ⟨same, group.rest⟩

theorem negation_moved (moved : Moved c.rest c'.rest) :
    (negation c).1 = (negation c').1 ∧ Moved (negation c).2.rest (negation c').2.rest := accept_moved moved .not

structure Conditional.Elsewhere (e e' : Conditional) : Prop where
  condition : e.condition.Elsewhere e'.condition
  result : e.result.Elsewhere e'.result
  alternative : e.alternative.Elsewhere e'.alternative
  negated : e.negated = e'.negated

structure Elvis.Elsewhere (e e' : Elvis) : Prop where
  condition : e.condition.Elsewhere e'.condition
  alternative : e.alternative.Elsewhere e'.alternative
  negated : e.negated = e'.negated

structure ElvisAssign.Elsewhere (e e' : ElvisAssign) : Prop where
  target : e.target.Elsewhere e'.target
  alternative : e.alternative.Elsewhere e'.alternative
  negated : e.negated = e'.negated

structure IncDec.Elsewhere (e e' : IncDec) : Prop where
  name : e.name.Elsewhere e'.name
  increment : e.increment = e'.increment

structure Spread.Elsewhere (s s' : Spread) : Prop where
  iterable : s.iterable.Elsewhere s'.iterable
  fields : Moved s.fields s'.fields

structure Interpolation.Elsewhere (s s' : Interpolation) : Prop where
  literal : s.literal.Elsewhere s'.literal
  template : s.template = s'.template
  exprs : List.Forall₂ Expression.Elsewhere s.exprs s'.exprs

structure MapEntry.Elsewhere (e e' : MapEntry) : Prop where
  key : e.key.Elsewhere e'.key
  value : e.value.Elsewhere e'.value

structure MapLiteral.Elsewhere (m m' : MapLiteral) : Prop where
  type : Option.Rel Expression.Elsewhere m.type m'.type
  entries : List.Forall₂ MapEntry.Elsewhere m.entries m'.entries

theorem Conditional.parse_akin (moved : Moved ts ts') :
    Akin Conditional.Elsewhere (Conditional.parse stop ts) (Conditional.parse stop' ts') := by
  obtain ⟨negated, left⟩ := negation_moved (ofTokens_moved stop stop' moved)
  refine (parenthesized_akin left).bind fun _ _ condition => ?_
  refine (lift_akin (expect_akin condition.2 _)).bind fun _ _ question => ?_
  refine (parenthesized_akin question.2).bind fun _ _ result => ?_
  refine (lift_akin (expect_akin result.2 _)).bind fun _ _ colon => ?_
  refine (parenthesized_akin colon.2).bind fun _ _ alternative => ?_
  refine (lift_akin (expectEnd_akin alternative.2)).bind fun _ _ _ => ?_
  exact .ok ⟨condition.1, result.1, alternative.1, negated⟩

theorem Elvis.parse_akin (moved : Moved ts ts') :
    Akin Elvis.Elsewhere (Elvis.parse stop ts) (Elvis.parse stop' ts') := by
  obtain ⟨negated, left⟩ := negation_moved (ofTokens_moved stop stop' moved)
  refine (parenthesized_akin left).bind fun _ _ condition => ?_
  refine (lift_akin (expect_akin condition.2 _)).bind fun _ _ elvis => ?_
  refine (parenthesized_akin elvis.2).bind fun _ _ alternative => ?_
  refine (lift_akin (expectEnd_akin alternative.2)).bind fun _ _ _ => ?_
  exact .ok ⟨condition.1, alternative.1, negated⟩

theorem ElvisAssign.parse_akin (moved : Moved ts ts') :
    Akin ElvisAssign.Elsewhere (ElvisAssign.parse stop ts) (ElvisAssign.parse stop' ts') := by
  obtain ⟨negated, left⟩ := negation_moved (ofTokens_moved stop stop' moved)
  have group := group_elsewhere left .lparen
  refine (lift_akin group.inner).bind fun _ _ inner => ?_
  refine (parseIdentifier_akin inner).bind fun _ _ target => ?_
  refine (lift_akin (expect_akin group.rest _)).bind fun _ _ assign => ?_
  refine (parenthesized_akin assign.2).bind fun _ _ alternative => ?_
  refine (lift_akin (expectEnd_akin alternative.2)).bind fun _ _ _ => ?_
  exact .ok ⟨target, alternative.1, negated⟩

theorem IncDec.parse_akin (moved : Moved ts ts') :
    Akin IncDec.Elsewhere (IncDec.parse stop ts) (IncDec.parse stop' ts') := by
  have whole := ofTokens_moved stop stop' moved
  have left := next_moved whole
  have op := peek_elsewhere left
  refine (parseIdentifier_akin (.cons (peek_elsewhere whole) .nil)).bind fun first first' name => ?_
  have done (increment : Bool) : Akin IncDec.Elsewhere
      (lift (Cursor.ofTokens ts stop).next.2.next.2.expectEnd >>= fun _ => .ok ⟨first, increment⟩)
      (lift (Cursor.ofTokens ts' stop').next.2.next.2.expectEnd >>= fun _ => .ok ⟨first', increment⟩) :=
    (lift_akin (expectEnd_akin (next_moved left))).bind fun _ _ _ => .ok ⟨name, rfl⟩
  dsimp only [next] at op ⊢
  rw [op.kind]
  split
  · exact done true
  · exact done false
  · exact .error _ _

theorem Truthiness.parse_akin (moved : Moved ts ts') :
    Akin (fun t t' => t.value.Elsewhere t'.value) (Truthiness.parse stop ts) (Truthiness.parse stop' ts') :=
  (parseExpression_akin moved).map fun _ _ same => same

theorem parseFields_akin (moved : Moved ts ts') :
    Akin (fun x y => Moved x.1 y.1 ∧ Moved x.2 y.2) (parseFields stop ts) (parseFields stop' ts') := by
  induction size : ts.length using Nat.strongRecOn generalizing ts ts' with
  | ind n ih =>
    subst size
    cases moved with
    | nil => exact .ok ⟨.nil, .nil⟩
    | cons here rest =>
      unfold parseFields
      rw [here.kind]
      split
      · cases rest with
        | nil => exact .error _ _
        | cons field left =>
          dsimp only
          rw [field.kind]
          split
          · refine (ih _ (by simp only [List.length_cons]; omega) left rfl).bind fun _ _ fields => ?_
            exact .ok ⟨.cons field fields.1, fields.2⟩
          · exact .error _ _
      · exact .ok ⟨.nil, .cons here rest⟩

theorem Spread.parse_akin (moved : Moved ts ts') :
    Akin Spread.Elsewhere (Spread.parse stop ts) (Spread.parse stop' ts') := by
  refine (parenthesized_akin (ofTokens_moved stop stop' moved)).bind
    fun _ _ iterable => ?_
  refine (parseFields_akin iterable.2).bind fun _ _ fields => ?_
  refine (lift_akin (expectEnd_akin (ofTokens_moved stop stop' fields.2))).bind fun _ _ _ => ?_
  exact .ok ⟨iterable.1, fields.1⟩

/-! Map literals -/

theorem keyKind?_elsewhere {t t' : Token} (same : t.Elsewhere t') : keyKind? t = keyKind? t' := by
  unfold keyKind? Token.isLiteral
  rw [same.kind]

theorem unwrapBrackets_moved (stop stop' : Span) (moved : Moved ts ts') :
    Moved (unwrapBrackets stop ts) (unwrapBrackets stop' ts') := by
  have group := group_elsewhere (ofTokens_moved stop stop' moved) .lbracket
  have atEnd : ((Cursor.ofTokens ts stop).group .lbracket).cursor.atEnd =
      ((Cursor.ofTokens ts' stop').group .lbracket).cursor.atEnd := isEmpty_moved group.rest
  unfold unwrapBrackets
  dsimp only
  rw [atEnd]
  have inner := group.inner
  generalize ((Cursor.ofTokens ts stop).group .lbracket).inner = x at inner
  generalize ((Cursor.ofTokens ts' stop').group .lbracket).inner = y at inner
  cases inner with
  | error => exact moved
  | ok inside =>
    dsimp only
    split
    · exact inside
    · exact moved

theorem valueTypeLength_moved (depth : Int) (first : Bool) (moved : Moved ts ts') :
    valueTypeLength depth first ts = valueTypeLength depth first ts' := by
  induction moved generalizing depth first with
  | nil => rfl
  | @cons t t' ts ts' here rest ih =>
    have next : ts.head?.map Token.kind = ts'.head?.map Token.kind := by
      cases rest with
      | nil => rfl
      | cons here => exact congrArg some here.kind
    unfold valueTypeLength
    rw [next, isEmpty_moved rest, keyKind?_elsewhere here, here.kind]
    dsimp only
    rw [ih]

theorem parseMapType_akin (moved : Moved c.rest c'.rest) : Akin Yields (parseMapType c) (parseMapType c') := by
  have group := group_elsewhere (next_moved moved) .lbracket
  have value := valueTypeLength_moved 0 true group.rest
  have length := moved.length_eq
  have left := group.rest.length_eq
  refine (lift_akin group.inner).bind fun _ _ _ => ?_
  dsimp only
  rw [value, length, left]
  refine (parseExpression_akin (List.forall₂_take _ moved)).bind fun _ _ type => ?_
  exact .ok ⟨type, List.forall₂_drop _ moved⟩

theorem parseEntries_akin (moved : Moved ts ts') :
    Akin (List.Forall₂ MapEntry.Elsewhere) (parseEntries stop ts) (parseEntries stop' ts') := by
  induction size : ts.length using Nat.strongRecOn generalizing ts ts' with
  | ind n ih =>
    subst size
    cases moved with
    | nil =>
      rw [parseEntries, parseEntries]
      exact .ok .nil
    | @cons _ _ ts _ key rest =>
      rw [parseEntries, parseEntries, keyKind?_elsewhere key]
      split
      · exact .error _ _
      · obtain ⟨value, left⟩ := splitAtDepth_moved (fun t => decide (t.kind = .comma))
          (fun _ _ same => by rw [same.kind]) 0 (tail_moved rest)
        refine (lift_akin (expect_akin (ofTokens_moved stop stop' rest) _)).bind
          fun _ _ colon => ?_
        refine (parseExpression_akin value).bind fun _ _ value => ?_
        refine (ih _ ?_ (tail_moved left) rfl).bind fun _ _ entries => .ok (.cons ⟨key, value⟩ entries)
        have shorter := splitAtDepth_rest_length (fun t => decide (t.kind = .comma)) 0 ts.tail
        simp only [List.length_tail, List.length_cons] at *
        omega

theorem listing_akin {type type' : Option Expression} (types : Option.Rel Expression.Elsewhere type type')
    (moved : Moved ts ts') : Akin MapLiteral.Elsewhere (listing stop type ts) (listing stop' type' ts') := by
  have entries : Akin MapLiteral.Elsewhere (parseEntries stop ts >>= fun entries => .ok ⟨type, entries⟩)
      (parseEntries stop' ts' >>= fun entries => .ok ⟨type', entries⟩) :=
    (parseEntries_akin moved).bind fun _ _ entries => .ok ⟨types, entries⟩
  unfold listing
  cases moved with
  | nil => exact .ok ⟨types, .nil⟩
  | cons here rest =>
    cases rest with
    | nil =>
      dsimp only
      rw [here.kind]
      split
      · exact .ok ⟨types, .nil⟩
      · exact entries
    | cons => exact entries

theorem MapLiteral.parse_akin (moved : Moved ts ts') :
    Akin MapLiteral.Elsewhere (MapLiteral.parse stop ts) (MapLiteral.parse stop' ts') := by
  have inside := ofTokens_moved stop stop' (unwrapBrackets_moved stop stop' moved)
  rw [MapLiteral.parse_eq, MapLiteral.parse_eq]
  dsimp only
  rw [(peek_elsewhere inside).kind]
  split
  · exact (parseMapType_akin inside).bind fun _ _ type => listing_akin (.some type.1) type.2
  · exact listing_akin .none inside

/-! Interpolations -/

section
variable {literal literal' : Token} (exact : Bool) (offset : Nat)

theorem checkText_akin (text : Bytes) :
    Akin (fun _ _ => True) (checkText literal exact offset text) (checkText literal' exact offset text) := by
  unfold checkText
  split
  · exact .ok trivial
  · dsimp only
    split <;> exact .error _ _

theorem parseMarker_akin (body : Bytes) :
    Akin Expression.Elsewhere (parseMarker literal exact offset body) (parseMarker literal' exact offset body) := by
  refine (Lexer.lexAt_elsewhere _ _ body).bind fun tokens tokens' moved => ?_
  dsimp only
  rw [isEmpty_moved moved]
  split
  · exact .error _ _
  · refine parseExpression_akin ?_
    cases exact with
    | true => exact moved
    | false => exact List.rel_map (fun _ _ same => ⟨same.kind, same.literal, same.gap⟩) moved

theorem parsePieces_akin (ps : List Piece) :
    Akin (fun x y => x.1 = y.1 ∧ List.Forall₂ Expression.Elsewhere x.2 y.2) (parsePieces literal exact offset ps)
      (parsePieces literal' exact offset ps) := by
  induction ps generalizing offset with
  | nil => exact .ok ⟨rfl, .nil⟩
  | cons p ps ih =>
    cases p with
    | text bytes =>
      refine (checkText_akin exact offset bytes).bind fun _ _ _ => ?_
      exact (ih _).bind fun _ _ rest => .ok ⟨congrArg (escapePercent bytes ++ ·) rest.1, rest.2⟩
    | marker body =>
      refine (parseMarker_akin exact offset body).bind fun _ _ here => ?_
      exact (ih _).bind fun _ _ rest => .ok ⟨congrArg (0x25 :: 0x76 :: ·) rest.1, .cons here rest.2⟩

end

theorem Interpolation.parse_akin (moved : Moved ts ts') :
    Akin Interpolation.Elsewhere (Interpolation.parse stop ts) (Interpolation.parse stop' ts') := by
  have whole := ofTokens_moved stop stop' moved
  have literal := peek_elsewhere whole
  unfold Interpolation.parse
  dsimp only [next]
  rw [literal.kind, literal.literal]
  split
  · exact .error _ _
  · refine (lift_akin (expectEnd_akin (next_moved whole))).bind fun _ _ _ => ?_
    split
    · exact .error _ _
    · exact (parsePieces_akin _ _ _).bind fun _ _ pieces => .ok ⟨literal, pieces.1, pieces.2⟩

end Form

/-! ## Emission -/

/-- What is built is the same, though it may stand elsewhere. -/
def Builder.Elsewhere (b b' : Builder) : Prop := Moved b.built b'.built

namespace Builder.Elsewhere

variable {b b' : Builder}

theorem start (span span' : Span) : Builder.Elsewhere { span } { span := span' } := .nil

theorem push (same : b.Elsewhere b') {t t' : Token} (token : t.Elsewhere t') : (b.push t).Elsewhere (b'.push t') := by
  have built : Moved b.built b'.built := same
  unfold Builder.push Builder.Elsewhere
  generalize b.built = ts at built
  generalize b'.built = ts' at built
  cases built with
  | nil => exact .cons token .nil
  | cons last rest =>
    dsimp only
    rw [token.gap, token.kind, last.kind]
    split
    · exact .cons ⟨rfl, token.literal, rfl⟩ (.cons last rest)
    · exact .cons token (.cons last rest)

theorem foldl {α β : Type} {R : α → β → Prop} {step : Builder → α → Builder} {step' : Builder → β → Builder}
    (each : ∀ {b b' : Builder} {x y}, b.Elsewhere b' → R x y → (step b x).Elsewhere (step' b' y))
    {xs : List α} {ys : List β} (all : List.Forall₂ R xs ys) (same : b.Elsewhere b') :
    (xs.foldl step b).Elsewhere (ys.foldl step' b') := by
  induction all generalizing b b' with
  | nil => exact same
  | cons here _ ih => exact ih (each same here)

theorem tokens (same : b.Elsewhere b') {ts ts' : List Token} (moved : Moved ts ts') :
    (b.tokens ts).Elsewhere (b'.tokens ts') := by
  cases moved with
  | nil => exact same
  | @cons t t' ts ts' here rest =>
    have first : (b.push { t with gap := .space }).Elsewhere (b'.push { t' with gap := .space }) :=
      same.push ⟨here.kind, here.literal, rfl⟩
    exact foldl (R := Token.Elsewhere) (fun same token => same.push token) rest first

theorem code (same : b.Elsewhere b') (text : String) : (b.code text).Elsewhere (b'.code text) := by
  unfold Builder.code
  split
  · refine foldl (R := Eq) (fun same token => same.push ?_) (List.forall₂_same.mpr fun _ _ => rfl) same
    subst token
    exact ⟨rfl, rfl, rfl⟩
  · exact same

theorem entry (same : b.Elsewhere b') {e e' : Form.MapEntry} (written : e.Elsewhere e')
    (opening between closing : String) :
    ((((b.code opening).tokens [e.key]).code between).tokens e.value.tokens |>.code closing).Elsewhere
      ((((b'.code opening).tokens [e'.key]).code between).tokens e'.value.tokens |>.code closing) :=
  ((((same.code opening).tokens (.cons written.key .nil)).code between).tokens written.value).code closing

theorem stream (same : b.Elsewhere b') : Moved b.stream b'.stream := List.forall₂_reverse_iff.mpr same

end Builder.Elsewhere

/-- Two contexts that differ at most in places. -/
structure Context.Matches (c c' : Context) : Prop where
  imports : c.imports = c'.imports
  required : c.required = c'.required
  counters : c.counters = c'.counters
  conditionals : c.conditionals.length = c'.conditionals.length

namespace Context.Matches

variable {c c' : Context}

theorem require (same : c.Matches c') (path : String) :
    (c.require path).1 = (c'.require path).1 ∧ (c.require path).2.Matches (c'.require path).2 := by
  refine ⟨rfl, same.imports, ?_, same.counters, same.conditionals⟩
  unfold Context.require
  dsimp only
  rw [same.required]

theorem sugar (same : c.Matches c') : c.sugar.1 = c'.sugar.1 ∧ c.sugar.2.Matches c'.sugar.2 := by
  unfold Context.sugar
  rw [same.imports]
  exact same.require _

theorem truth (same : c.Matches c') : c.truth.1 = c'.truth.1 ∧ c.truth.2.Matches c'.truth.2 := by
  unfold Context.truth
  rw [same.imports]
  exact same.require _

theorem fresh (same : c.Matches c') (base : String) :
    (c.fresh base).1 = (c'.fresh base).1 ∧ (c.fresh base).2.Matches (c'.fresh base).2 := by
  unfold Context.fresh
  rw [same.counters]
  exact ⟨rfl, same.imports, same.required, rfl, same.conditionals⟩

theorem conditional (same : c.Matches c') :
    c.conditional.1 = c'.conditional.1 ∧ c.conditional.2.Matches c'.conditional.2 := by
  unfold Context.conditional
  rw [same.conditionals]
  exact ⟨rfl, same.imports, same.required, same.counters, by simp [same.conditionals]⟩

theorem requiredPaths (same : c.Matches c') : c.requiredPaths = c'.requiredPaths := by
  unfold Context.requiredPaths
  rw [same.required]

end Context.Matches

namespace Form

/-- The same output, though it may stand elsewhere, and contexts that differ at most in places. -/
def Emits (x y : List Token × Context) : Prop := Moved x.1 y.1 ∧ x.2.Matches y.2

variable {c c' : Context}

section
variable (same : c.Matches c')
include same

theorem Conditional.emit_moved {e e' : Conditional} (parsed : e.Elsewhere e') : Emits (e.emit c) (e'.emit c') := by
  obtain ⟨number, same⟩ := same.conditional
  obtain ⟨truth, same⟩ := same.truth
  have b := Builder.Elsewhere.start c.conditional.2.truth.2.span c'.conditional.2.truth.2.span
  unfold Conditional.emit
  dsimp only
  rw [number, truth, parsed.negated]
  exact ⟨(((((((b.code _).tokens parsed.result).code _).tokens parsed.alternative).code _).tokens
    parsed.condition).code _).stream, same⟩

theorem Elvis.emit_moved {e e' : Elvis} (parsed : e.Elsewhere e') : Emits (e.emit c) (e'.emit c') :=
  Conditional.emit_moved same ⟨parsed.condition, parsed.condition, parsed.alternative, parsed.negated⟩

theorem ElvisAssign.emit_moved {e e' : ElvisAssign} (parsed : e.Elsewhere e') : Emits (e.emit c) (e'.emit c') := by
  obtain ⟨truth, same⟩ := same.truth
  have b := Builder.Elsewhere.start c.truth.2.span c'.truth.2.span
  have target : Moved [e.target] [e'.target] := .cons parsed.target .nil
  unfold ElvisAssign.emit
  dsimp only
  rw [truth, parsed.negated]
  exact ⟨(((((((b.code _).tokens target).code _).tokens target).code _).tokens parsed.alternative).code _).stream,
    same⟩

theorem IncDec.emit_moved {e e' : IncDec} (parsed : e.Elsewhere e') : Emits (e.emit c) (e'.emit c') := by
  obtain ⟨sugar, same⟩ := same.sugar
  have b := Builder.Elsewhere.start c.sugar.2.span c'.sugar.2.span
  unfold IncDec.emit
  dsimp only
  rw [sugar, parsed.increment]
  exact ⟨(((b.code _).tokens (.cons parsed.name .nil)).code _).stream, same⟩

theorem Truthiness.emit_moved {e e' : Truthiness} (parsed : e.value.Elsewhere e'.value) :
    Emits (e.emit c) (e'.emit c') := by
  obtain ⟨truth, same⟩ := same.truth
  have b := Builder.Elsewhere.start c.truth.2.span c'.truth.2.span
  unfold Truthiness.emit
  dsimp only
  rw [truth]
  exact ⟨(((b.code _).tokens parsed).code _).stream, same⟩

theorem Spread.emit_moved {s s' : Spread} (parsed : s.Elsewhere s') : Emits (s.emit c) (s'.emit c') := by
  obtain ⟨sugar, same⟩ := same.sugar
  obtain ⟨yield, same'⟩ := same.fresh "yield"
  obtain ⟨it, same'⟩ := same'.fresh "it"
  have b := Builder.Elsewhere.start c.sugar.2.span c'.sugar.2.span
  have fields := parsed.fields
  unfold Spread.emit
  dsimp only
  rw [sugar, yield, it]
  generalize s.fields = fs at fields
  generalize s'.fields = fs' at fields
  cases fields with
  | nil => exact ⟨(((b.code _).tokens parsed.iterable).code _).stream, same⟩
  | cons here rest =>
    have all := List.Forall₂.cons here rest
    refine ⟨?_, same'⟩
    dsimp only
    refine Builder.Elsewhere.stream (.code (.foldl (fun same field => ?_) all ?_) _)
    · rw [field.text]
      exact same.code _
    refine .code (.code (.tokens (.code (.foldl (fun same field => ?_) all ?_) _) parsed.iterable) _) _
    · rw [field.text]
      exact same.code _
    refine .code (.tokens (.code (.foldl (fun same _ => ?_) all (b.code _)) _) parsed.iterable) _
    exact same.code _

theorem Interpolation.emit_moved {s s' : Interpolation} (parsed : s.Elsewhere s') :
    Emits (s.emit c) (s'.emit c') := by
  obtain ⟨fmt, same'⟩ := same.require "fmt"
  have b := Builder.Elsewhere.start (c.require "fmt").2.span (c'.require "fmt").2.span
  have exprs := parsed.exprs
  unfold Interpolation.emit
  dsimp only
  rw [fmt, parsed.template]
  generalize s.exprs = es at exprs
  generalize s'.exprs = es' at exprs
  cases exprs with
  | nil => exact ⟨.cons parsed.literal .nil, same⟩
  | cons here rest =>
    have all := List.Forall₂.cons here rest
    refine ⟨?_, same'⟩
    dsimp only
    refine Builder.Elsewhere.stream (.code (.foldl (fun same here => ?_) all (b.code _)) _)
    exact (same.code ",").tokens here

theorem MapLiteral.emit_moved {m m' : MapLiteral} (parsed : m.Elsewhere m') : Emits (m.emit c) (m'.emit c') := by
  obtain ⟨sugar, same₁⟩ := same.sugar
  obtain ⟨name, same₂⟩ := same.fresh "m"
  have b := Builder.Elsewhere.start c.span c'.span
  obtain ⟨type, entries⟩ := m
  obtain ⟨type', entries'⟩ := m'
  obtain ⟨types, written⟩ := parsed
  unfold MapLiteral.emit
  dsimp only at types written ⊢
  rw [sugar, name]
  cases types with
  | none =>
    cases written with
    | nil => exact ⟨(b.code _).stream, same⟩
    | cons first more =>
      refine ⟨?_, same₁⟩
      dsimp only
      refine Builder.Elsewhere.stream (.code (.foldl (fun same here => ?_) more ((b.code _).entry first _ _ _)) _)
      exact (same.code ",").entry here _ _ _
  | some type =>
    cases written with
    | nil => exact ⟨(((b.code _).tokens type).code _).stream, same⟩
    | cons first more =>
      have all := List.Forall₂.cons first more
      refine ⟨?_, same₂⟩
      dsimp only
      rw [all.length_eq]
      refine Builder.Elsewhere.stream (.code (.foldl (fun same here => ?_) all ?_) _)
      · exact same.entry here _ _ _
      · exact ((((((b.code _).tokens type).code _).code _).tokens type).code _)


end

variable {α : Type} {R : α → α → Prop} {name : String} {parse : Span → List Token → Except Failure α}
  {emit : α → Context → List Token × Context}

theorem of_akin (parsing : ∀ {stop stop' : Span} {ts ts' : List Token}, Moved ts ts' →
    Akin R (parse stop ts) (parse stop' ts')) (emission : ∀ {a a' : α}, R a a' → Emits (emit a c) (emit a' c'))
    {ts ts' : List Token} (moved : Moved ts ts') :
    Akin Emits ((Form.of name parse emit).transform c ts) ((Form.of name parse emit).transform c' ts') :=
  (parsing moved).map fun _ _ => emission

/-- What a form makes of a body does not depend on where that stands. -/
theorem transform_akin {f : Form} (known : f ∈ builtins) (same : c.Matches c') {ts ts' : List Token}
    (moved : Moved ts ts') : Akin Emits (f.transform c ts) (f.transform c' ts') := by
  simp only [builtins, List.mem_cons, List.not_mem_nil, or_false] at known
  rcases known with rfl | rfl | rfl | rfl | rfl | rfl | rfl | rfl | rfl
  · exact of_akin Conditional.parse_akin (Conditional.emit_moved same) moved
  · exact of_akin Elvis.parse_akin (Elvis.emit_moved same) moved
  · exact of_akin ElvisAssign.parse_akin (ElvisAssign.emit_moved same) moved
  · exact of_akin IncDec.parse_akin (IncDec.emit_moved same) moved
  · exact of_akin MapLiteral.parse_akin (MapLiteral.emit_moved same) moved
  · exact of_akin MapLiteral.parse_akin (MapLiteral.emit_moved same) moved
  · exact of_akin Spread.parse_akin (Spread.emit_moved same) moved
  · exact of_akin Interpolation.parse_akin (Interpolation.emit_moved same) moved
  · exact of_akin Truthiness.parse_akin (Truthiness.emit_moved same) moved

end Form
end Desugar

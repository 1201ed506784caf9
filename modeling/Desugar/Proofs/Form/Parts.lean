import Desugar.Form.Registry
import Desugar.Proofs.Except
import Mathlib.Data.List.Infix

/-!
# Parts of an invocation's body

What a grammar takes from the body of an invocation are runs of its tokens: the inside of parentheses,
the tokens up to a comma, single names and keys. Those that are expressions are accepted as written out.
-/
namespace Desugar

namespace Cursor

variable {c : Cursor} {k : TokenKind} {ts : List Token}

theorem rest_next (c : Cursor) : c.next.2.rest <:+ c.rest := List.tail_suffix c.rest

theorem rest_accept (c : Cursor) (k : TokenKind) : (c.accept k).2.rest <:+ c.rest := by
  unfold accept
  split
  · exact rest_next c
  · exact List.suffix_rfl

theorem rest_expect {t : Token} {c' : Cursor} (h : c.expect k = .ok (t, c')) : c'.rest <:+ c.rest := by
  unfold expect at h
  dsimp only at h
  split at h
  · obtain ⟨-, rfl⟩ := Prod.mk.inj (Except.ok.inj h)
    exact rest_next c
  · cases h

/-- A group that is closed is its inside, the closing token and what is left. -/
theorem groupBody_split {closer : TokenKind} {stop : Span} {open_ : List TokenKind}
    {inner inside rest : List Token} (h : groupBody closer stop open_ inner ts = (.ok inside, rest)) :
    ∃ body t, ts = body ++ t :: rest ∧ inside = inner.reverse ++ body := by
  induction ts generalizing open_ inner with
  | nil => simp [groupBody] at h
  | cons t ts ih =>
    have further {open_ : List TokenKind} (more : groupBody closer stop open_ (t :: inner) ts =
        (.ok inside, rest)) :
        ∃ body t', t :: ts = body ++ t' :: rest ∧ inside = inner.reverse ++ body := by
      obtain ⟨body, t', rfl, rfl⟩ := ih more
      exact ⟨t :: body, t', rfl, by simp⟩
    unfold groupBody at h
    split at h
    · exact further h
    split at h
    · split at h
      · split at h
        · obtain ⟨same, rfl⟩ := Prod.mk.inj h
          obtain rfl := Except.ok.inj same
          exact ⟨[], t, rfl, by simp⟩
        · cases h
      · split at h
        · exact further h
        · cases h
    · exact further h

/-- The inside of a group is a run of tokens, and what is left is the end of the stream. -/
theorem group_split {inside : List Token} (h : (c.group k).inner = .ok inside) :
    inside <:+: c.rest ∧ (c.group k).cursor.rest <:+ c.rest := by
  unfold group at h ⊢
  split at h
  · cases h
  · rename_i t c' expected
    have behind := rest_expect expected
    dsimp only at h ⊢
    generalize read : groupBody (k.closer?.getD .eof) c'.stop [] [] c'.rest = g at h ⊢
    obtain ⟨inner, rest⟩ := g
    obtain rfl : inner = .ok inside := h
    obtain ⟨body, t', split, same⟩ := groupBody_split read
    obtain rfl : inside = body := same
    have whole : inside ++ t' :: rest <:+ c.rest := split ▸ behind
    refine ⟨?_, ?_⟩
    · exact (List.prefix_append inside (t' :: rest)).isInfix.trans whole.isInfix
    · exact ((List.suffix_cons t' rest).trans (List.suffix_append inside _)).trans whole

theorem splitAtDepth_append (stop : Token → Bool) (depth : Int) (ts : List Token) :
    (splitAtDepth stop depth ts).1 ++ (splitAtDepth stop depth ts).2 = ts := by
  induction ts generalizing depth with
  | nil => rfl
  | cons t ts ih =>
    unfold splitAtDepth
    split
    · rfl
    · simp only [List.cons_append, ih]

end Cursor

namespace Form

open Cursor

variable {c c' : Cursor} {ts : List Token} {stop place : Span}

theorem lift_eq_ok {α : Type} {x : Except Diagnostic α} {a : α} (h : lift x = .ok a) : x = .ok a := by
  cases x with
  | error d => cases h
  | ok b => exact congrArg Except.ok (Except.ok.inj h)

/-- An expression that is a run of some tokens, and that the host accepts as it is written out. -/
structure PartOf (ts : List Token) (e : Expression) : Prop where
  run : e.tokens <:+: ts
  accepted : ∃ file x, Host.parseExpr file (renderTokens e.tokens) = .ok x

theorem PartOf.mono {us : List Token} {e : Expression} (h : PartOf us e) (part : us <:+: ts) :
    PartOf ts e := ⟨h.run.trans part, h.accepted⟩

theorem parseExpression_part {e : Expression} (h : parseExpression ts place = .ok e) :
    e.tokens = ts ∧ PartOf ts e := by
  unfold parseExpression at h
  split at h
  · cases h
  split at h
  · rename_i x accepted
    obtain rfl := Except.ok.inj h
    exact ⟨rfl, List.infix_rfl, _, x, accepted⟩
  · cases h
  · cases h

theorem parseIdentifier_eq {t : Token} (h : parseIdentifier ts place = .ok t) :
    ts = [t] ∧ t.kind = .identifier := by
  unfold parseIdentifier at h
  split at h
  · cases h
  rename_i first rest
  dsimp only at h
  split at h
  · cases h
  rename_i kind
  split at h
  · cases h
  rename_i alone
  split at h
  · cases h
  · obtain rfl := Except.ok.inj h
    exact ⟨by simpa using alone, not_not.mp kind⟩

theorem parenthesized_split {e : Expression} (h : parenthesized c = .ok (e, c')) :
    PartOf c.rest e ∧ c'.rest <:+ c.rest := by
  obtain ⟨inside, lifted, h⟩ := bind_eq_ok h
  obtain ⟨e', parsed, h⟩ := bind_eq_ok h
  obtain ⟨rfl, rfl⟩ := Prod.mk.inj (Except.ok.inj h)
  obtain ⟨part, rest⟩ := group_split (lift_eq_ok lifted)
  exact ⟨(parseExpression_part parsed).2.mono part, rest⟩

theorem rest_negation (c : Cursor) : (negation c).2.rest <:+ c.rest := rest_accept c .not

theorem Conditional.parse_parts {e : Conditional} (h : Conditional.parse stop ts = .ok e) :
    PartOf ts e.condition ∧ PartOf ts e.result ∧ PartOf ts e.alternative := by
  have first := rest_negation (.ofTokens ts stop)
  unfold Conditional.parse at h
  dsimp only at h
  obtain ⟨⟨condition, c₁⟩, parsed₁, h⟩ := bind_eq_ok h
  obtain ⟨⟨question, c₂⟩, expected₂, h⟩ := bind_eq_ok h
  obtain ⟨⟨result, c₃⟩, parsed₃, h⟩ := bind_eq_ok h
  obtain ⟨⟨colon, c₄⟩, expected₄, h⟩ := bind_eq_ok h
  obtain ⟨⟨alternative, c₅⟩, parsed₅, h⟩ := bind_eq_ok h
  obtain ⟨-, -, h⟩ := bind_eq_ok h
  obtain rfl := Except.ok.inj h
  obtain ⟨part₁, rest₁⟩ := parenthesized_split parsed₁
  obtain ⟨part₃, rest₃⟩ := parenthesized_split parsed₃
  obtain ⟨part₅, -⟩ := parenthesized_split parsed₅
  have rest₂ := (rest_expect (lift_eq_ok expected₂)).trans (rest₁.trans first)
  have rest₄ := (rest_expect (lift_eq_ok expected₄)).trans (rest₃.trans rest₂)
  exact ⟨part₁.mono first.isInfix, part₃.mono rest₂.isInfix, part₅.mono rest₄.isInfix⟩

theorem Elvis.parse_parts {e : Elvis} (h : Elvis.parse stop ts = .ok e) :
    PartOf ts e.condition ∧ PartOf ts e.alternative := by
  have first := rest_negation (.ofTokens ts stop)
  unfold Elvis.parse at h
  dsimp only at h
  obtain ⟨⟨condition, c₁⟩, parsed₁, h⟩ := bind_eq_ok h
  obtain ⟨⟨elvis, c₂⟩, expected₂, h⟩ := bind_eq_ok h
  obtain ⟨⟨alternative, c₃⟩, parsed₃, h⟩ := bind_eq_ok h
  obtain ⟨-, -, h⟩ := bind_eq_ok h
  obtain rfl := Except.ok.inj h
  obtain ⟨part₁, rest₁⟩ := parenthesized_split parsed₁
  obtain ⟨part₃, -⟩ := parenthesized_split parsed₃
  have rest₂ := (rest_expect (lift_eq_ok expected₂)).trans (rest₁.trans first)
  exact ⟨part₁.mono first.isInfix, part₃.mono rest₂.isInfix⟩

theorem ElvisAssign.parse_parts {e : ElvisAssign} (h : ElvisAssign.parse stop ts = .ok e) :
    [e.target] <:+: ts ∧ e.target.kind = .identifier ∧ PartOf ts e.alternative := by
  have first := rest_negation (.ofTokens ts stop)
  unfold ElvisAssign.parse at h
  dsimp only at h
  obtain ⟨inner, grouped, h⟩ := bind_eq_ok h
  obtain ⟨target, named, h⟩ := bind_eq_ok h
  obtain ⟨⟨assign, c₂⟩, expected₂, h⟩ := bind_eq_ok h
  obtain ⟨⟨alternative, c₃⟩, parsed₃, h⟩ := bind_eq_ok h
  obtain ⟨-, -, h⟩ := bind_eq_ok h
  obtain rfl := Except.ok.inj h
  obtain ⟨part₁, rest₁⟩ := group_split (lift_eq_ok grouped)
  obtain ⟨rfl, kind⟩ := parseIdentifier_eq named
  obtain ⟨part₃, -⟩ := parenthesized_split parsed₃
  have rest₂ := (rest_expect (lift_eq_ok expected₂)).trans (rest₁.trans first)
  exact ⟨part₁.trans first.isInfix, kind, part₃.mono rest₂.isInfix⟩

theorem first_isInfix (known : (Cursor.ofTokens ts stop).peek.kind ≠ .eof) :
    [(Cursor.ofTokens ts stop).peek] <:+: ts := by
  cases ts with
  | nil => exact absurd rfl known
  | cons t ts => exact (List.prefix_append [t] ts).isInfix

theorem IncDec.parse_parts {e : IncDec} (h : IncDec.parse stop ts = .ok e) :
    [e.name] <:+: ts ∧ e.name.kind = .identifier := by
  unfold IncDec.parse at h
  dsimp only [Cursor.next] at h
  obtain ⟨name, named, h⟩ := bind_eq_ok h
  obtain ⟨same, kind⟩ := parseIdentifier_eq named
  obtain rfl : (Cursor.ofTokens ts stop).peek = name := List.head_eq_of_cons_eq same
  have part : [(Cursor.ofTokens ts stop).peek] <:+: ts := first_isInfix (by rw [kind]; decide)
  split at h
  · obtain ⟨increment, -, h⟩ := bind_eq_ok h
    obtain ⟨-, -, h⟩ := bind_eq_ok h
    obtain rfl := Except.ok.inj h
    exact ⟨part, kind⟩
  · obtain ⟨increment, -, h⟩ := bind_eq_ok h
    obtain ⟨-, -, h⟩ := bind_eq_ok h
    obtain rfl := Except.ok.inj h
    exact ⟨part, kind⟩
  · obtain ⟨increment, thrown, -⟩ := bind_eq_ok h
    cases thrown

theorem Truthiness.parse_parts {e : Truthiness} (h : Truthiness.parse stop ts = .ok e) :
    PartOf ts e.value := by
  unfold Truthiness.parse at h
  cases parsed : parseExpression ts stop with
  | error d => rw [parsed] at h; cases h
  | ok value =>
    rw [parsed] at h
    obtain rfl := Except.ok.inj h
    exact (parseExpression_part parsed).2

/-! ## Map literals -/

theorem unwrapBrackets_isInfix (stop : Span) (ts : List Token) : unwrapBrackets stop ts <:+: ts := by
  unfold unwrapBrackets
  dsimp only
  split
  · rename_i inner inside
    split
    · exact (group_split inside).1
    · exact List.infix_rfl
  · exact List.infix_rfl

theorem parseMapType_split {e : Expression} (h : parseMapType c = .ok (e, c')) :
    PartOf c.rest e ∧ c'.rest <:+ c.rest := by
  unfold parseMapType at h
  dsimp only at h
  obtain ⟨-, -, h⟩ := bind_eq_ok h
  obtain ⟨e', parsed, h⟩ := bind_eq_ok h
  obtain ⟨rfl, rfl⟩ := Prod.mk.inj (Except.ok.inj h)
  exact ⟨(parseExpression_part parsed).2.mono (List.take_prefix _ _).isInfix, List.drop_suffix _ _⟩

/-- The keys and the values of a map literal are runs of its tokens. -/
structure EntryOf (ts : List Token) (e : MapEntry) : Prop where
  key : [e.key] <:+: ts
  value : PartOf ts e.value

theorem EntryOf.mono {us : List Token} {e : MapEntry} (h : EntryOf us e) (part : us <:+: ts) :
    EntryOf ts e := ⟨h.key.trans part, h.value.mono part⟩

theorem parseEntries_parts {entries : List MapEntry} (h : parseEntries stop ts = .ok entries) :
    ∀ e ∈ entries, EntryOf ts e := by
  induction ts using parseEntries.induct generalizing entries with
  | case1 =>
    obtain rfl := Except.ok.inj (parseEntries.eq_1 stop ▸ h)
    simp
  | case2 key rest absent =>
    rw [parseEntries, absent] at h
    cases h
  | case3 key rest kind known ih =>
    rw [parseEntries, known] at h
    dsimp only at h
    obtain ⟨⟨colon, c⟩, -, h⟩ := bind_eq_ok h
    obtain ⟨value, parsed, h⟩ := bind_eq_ok h
    obtain ⟨more, read, h⟩ := bind_eq_ok h
    obtain rfl := Except.ok.inj h
    have whole := splitAtDepth_append (fun t => t.kind = .comma) 0 rest.tail
    generalize cut : Cursor.splitAtDepth (fun t => t.kind = .comma) 0 rest.tail = parts at *
    have behind : rest.tail <:+ key :: rest := (List.tail_suffix rest).trans (List.suffix_cons key rest)
    rw [List.forall_mem_cons]
    constructor
    · have front := (whole ▸ List.prefix_append parts.1 parts.2).isInfix.trans behind.isInfix
      exact ⟨(List.prefix_append [key] rest).isInfix, (parseExpression_part parsed).2.mono front⟩
    · intro e member
      refine (ih read e member).mono ?_
      exact ((List.tail_suffix parts.2).trans (whole ▸ List.suffix_append parts.1 parts.2)).isInfix.trans
        behind.isInfix

/-- What is read behind the type. -/
def listing (stop : Span) (type : Option Expression) (ts : List Token) : Except Failure MapLiteral :=
  match ts with
  | [] => return { type, entries := [] }
  | [t] =>
    if t.kind = .colon then return { type, entries := [] }
    else do return { type, entries := ← parseEntries stop ts }
  | ts => do return { type, entries := ← parseEntries stop ts }

theorem MapLiteral.parse_eq (stop : Span) (ts : List Token) : MapLiteral.parse stop ts =
    let c := ofTokens (unwrapBrackets stop ts) stop
    if c.peek.kind = .map then do
      let (t, c) ← parseMapType c
      listing stop (some t) c.rest
    else listing stop none c.rest := by
  unfold MapLiteral.parse
  dsimp only
  split
  · simp only [pure_bind]
    rfl
  · rfl

theorem listing_parts {type : Option Expression} {us : List Token} {m : MapLiteral}
    (types : ∀ t ∈ type, PartOf ts t) (rest : us <:+: ts) (h : listing stop type us = .ok m) :
    (∀ t ∈ m.type, PartOf ts t) ∧ ∀ e ∈ m.entries, EntryOf ts e := by
  have listed {entries : List MapEntry} (read : parseEntries stop us = .ok entries) :
      ∀ e ∈ entries, EntryOf ts e :=
    fun e member => (parseEntries_parts read e member).mono rest
  unfold listing at h
  split at h
  · obtain rfl := Except.ok.inj h
    exact ⟨types, by simp⟩
  · split at h
    · obtain rfl := Except.ok.inj h
      exact ⟨types, by simp⟩
    · obtain ⟨entries, read, h⟩ := bind_eq_ok h
      obtain rfl := Except.ok.inj h
      exact ⟨types, listed read⟩
  · obtain ⟨entries, read, h⟩ := bind_eq_ok h
    obtain rfl := Except.ok.inj h
    exact ⟨types, listed read⟩

theorem MapLiteral.parse_parts {m : MapLiteral} (h : MapLiteral.parse stop ts = .ok m) :
    (∀ t ∈ m.type, PartOf ts t) ∧ ∀ e ∈ m.entries, EntryOf ts e := by
  have inside := unwrapBrackets_isInfix stop ts
  rw [MapLiteral.parse_eq] at h
  dsimp only at h
  split at h
  · obtain ⟨⟨t, c⟩, typed, h⟩ := bind_eq_ok h
    obtain ⟨part, behind⟩ := parseMapType_split typed
    exact listing_parts (by simpa using part.mono inside) (behind.isInfix.trans inside) h
  · exact listing_parts (by simp) inside h

/-! ## Spreads -/

theorem parseFields_parts {fields rest : List Token} (h : parseFields stop ts = .ok (fields, rest)) :
    ∀ f ∈ fields, [f] <:+: ts ∧ f.kind = .identifier := by
  induction ts using parseFields.induct generalizing fields rest with
  | case1 =>
    obtain ⟨rfl, -⟩ := Prod.mk.inj (Except.ok.inj h)
    simp
  | case2 t dot =>
    unfold parseFields at h
    rw [if_pos dot] at h
    cases h
  | case3 t dot field rest' named ih =>
    unfold parseFields at h
    rw [if_pos dot] at h
    dsimp only at h
    rw [if_pos named] at h
    obtain ⟨⟨more, left⟩, read, h⟩ := bind_eq_ok h
    obtain ⟨rfl, rfl⟩ := Prod.mk.inj (Except.ok.inj h)
    have behind : field :: rest' <:+ t :: field :: rest' := List.suffix_cons t _
    rw [List.forall_mem_cons]
    constructor
    · exact ⟨(List.prefix_append [field] rest').isInfix.trans behind.isInfix, named⟩
    · intro f member
      obtain ⟨part, kind⟩ := ih read f member
      exact ⟨part.trans ((List.suffix_cons field rest').trans behind).isInfix, kind⟩
  | case4 t dot field rest' other =>
    unfold parseFields at h
    rw [if_pos dot] at h
    dsimp only at h
    rw [if_neg other] at h
    cases h
  | case5 t rest' other =>
    unfold parseFields at h
    rw [if_neg other] at h
    obtain ⟨rfl, -⟩ := Prod.mk.inj (Except.ok.inj h)
    simp

theorem Spread.parse_parts {e : Spread} (h : Spread.parse stop ts = .ok e) :
    PartOf ts e.iterable ∧ ∀ f ∈ e.fields, [f] <:+: ts ∧ f.kind = .identifier := by
  unfold Spread.parse at h
  obtain ⟨⟨iterable, c⟩, parsed, h⟩ := bind_eq_ok h
  obtain ⟨⟨fields, rest⟩, named, h⟩ := bind_eq_ok h
  obtain ⟨-, -, h⟩ := bind_eq_ok h
  obtain rfl := Except.ok.inj h
  obtain ⟨part, behind⟩ := parenthesized_split parsed
  refine ⟨part, fun f member => ?_⟩
  obtain ⟨here, kind⟩ := parseFields_parts named f member
  exact ⟨here.trans behind.isInfix, kind⟩

/-! ## Interpolated strings -/

/-- The tokens of a marker are read off its own text, apart from where they stand, and are accepted as
an expression. -/
theorem parseMarker_tokens {literal : Token} {exact : Bool} {offset : Nat} {body : Bytes}
    {e : Expression} (h : parseMarker literal exact offset body = .ok e) :
    (∃ o ts, Lexer.lexAt o body = .ok ts ∧
      e.tokens.map (fun t => (t.kind, t.literal, t.gap)) = ts.map fun t => (t.kind, t.literal, t.gap)) ∧
      PartOf e.tokens e := by
  unfold parseMarker at h
  dsimp only at h
  obtain ⟨ts, read, h⟩ := bind_eq_ok h
  split at h
  · obtain ⟨a, b, h⟩ := bind_eq_ok h
    cases b
  obtain ⟨tokens, part⟩ := parseExpression_part h
  refine ⟨⟨_, ts, read, ?_⟩, List.infix_rfl, part.accepted⟩
  rw [tokens]
  split
  · rfl
  · rw [List.map_map]
    rfl

theorem parsePieces_markers {literal : Token} {exact : Bool} {offset : Nat} {ps : List Piece}
    {template : Bytes} {es : List Expression}
    (h : parsePieces literal exact offset ps = .ok (template, es)) :
    ∀ e ∈ es, ∃ offset body, parseMarker literal exact offset body = .ok e := by
  induction ps generalizing offset template es with
  | nil =>
    obtain ⟨-, rfl⟩ := Prod.mk.inj (Except.ok.inj h)
    simp
  | cons p ps ih =>
    cases p with
    | text bytes =>
      obtain ⟨-, -, h⟩ := bind_eq_ok h
      obtain ⟨⟨template', es'⟩, read, h⟩ := bind_eq_ok h
      obtain ⟨-, rfl⟩ := Prod.mk.inj (Except.ok.inj h)
      exact ih read
    | marker body =>
      obtain ⟨e, parsed, h⟩ := bind_eq_ok h
      obtain ⟨⟨template', es'⟩, read, h⟩ := bind_eq_ok h
      obtain ⟨-, rfl⟩ := Prod.mk.inj (Except.ok.inj h)
      rw [List.forall_mem_cons]
      exact ⟨⟨_, _, parsed⟩, ih read⟩

theorem Interpolation.parse_parts {e : Interpolation} (h : Interpolation.parse stop ts = .ok e) :
    [e.literal] <:+: ts ∧ ∀ x ∈ e.exprs, ∃ exact offset body,
      parseMarker e.literal exact offset body = .ok x := by
  unfold Interpolation.parse at h
  dsimp only [Cursor.next] at h
  split at h
  · obtain ⟨a, b, h⟩ := bind_eq_ok h
    cases b
  rename_i kind
  obtain ⟨-, -, h⟩ := bind_eq_ok h
  split at h
  · cases h
  obtain ⟨⟨template, es⟩, read, h⟩ := bind_eq_ok h
  obtain rfl := Except.ok.inj h
  refine ⟨first_isInfix (by rw [not_not.mp kind]; decide), fun x member => ?_⟩
  obtain ⟨offset, body, parsed⟩ := parsePieces_markers read x member
  exact ⟨_, offset, body, parsed⟩

end Form
end Desugar

import Desugar.Proofs.Form.MapGrammar

/-!
# A lone colon behind a map type

A colon behind a map type stands for no entries. But the end of the type is looked for as the first key
that a colon follows, and the last token of a type can look like a key: behind a type of several tokens
that ends in a name, as `*T`, `[]T` or `p.T` do, the colon is read as the colon of an entry, for which
there is no value. So a lone colon is read as what it stands for exactly behind a type of one token and
behind a type that ends in no name.
-/
namespace Desugar.Form

open Invocation Cursor

/-- `map [ K ] V`, told by its tokens alone, where `V` has no colon outside of brackets. -/
inductive TypeShape (value : List Token) : List Token → Prop where
  | intro {keyword opener closer : Token} {key : List Token} (kind : keyword.kind = .map)
      (opens : opener.kind = .lbracket) (closes : closer.kind = .rbracket) (nested : Nested key)
      (nonempty : value ≠ []) (free : Lacks .colon value) :
      TypeShape value (keyword :: opener :: (key ++ closer :: value))

/-- A token that can be a key. -/
def isKey (t : Token) : Bool := (keyKind? t).isSome

/-- The last token of a value type is taken for a key if a colon follows it: it looks like one, and is not
all of the type. -/
def endsInKey (value : List Token) : Bool := value.length ≠ 1 && value.getLast?.any isKey

variable {c : Cursor} {ts us value whole : List Token} {colon : Token} {stop : Span} {m : MapLiteral}

theorem isKey_of_pair {opener closer : Token} (pair : opener.kind.closer? = some closer.kind) :
    isKey opener = false ∧ isKey closer = false := by
  obtain ⟨closes, -⟩ := closer_of_closer? pair
  constructor
  · cases key : keyKind? opener with
    | none => simp [isKey, key]
    | some k =>
      rw [(keyKind?_other key).2.2.2.1] at pair
      cases pair
  · cases key : keyKind? closer with
    | none => simp [isKey, key]
    | some k =>
      rw [(keyKind?_other key).2.2.2.2] at closes
      cases closes

theorem Lacks.head_ne {kind : TokenKind} {t : Token} (free : Lacks kind (t :: ts)) (opens : kind.closer? = none) :
    t.kind ≠ kind := by
  generalize whole : t :: ts = us at free
  cases free with
  | nil => cases whole
  | plain _ _ other =>
    obtain ⟨rfl, -⟩ := List.cons.inj whole
    exact other
  | group pair =>
    obtain ⟨rfl, -⟩ := List.cons.inj whole
    intro same
    rw [same, opens] at pair
    cases pair

/-- Before a lone colon, all tokens belong to the value type but a last one that looks like a key and is
not the first. -/
theorem valueTypeLength_colon (free : Lacks .colon ts) (mark : colon.kind = .colon) (first : Bool) :
    valueTypeLength 0 first (ts ++ [colon]) +
      (if (!(first && ts.length = 1) && ts.getLast?.any isKey) = true then 1 else 0) = ts.length := by
  have alone : valueTypeLength 0 false [colon] = 0 := by simp [valueTypeLength, mark]
  induction free generalizing first with
  | nil => simp [valueTypeLength, mark]
  | @plain t ts opens closes other free ih =>
    have still : depthBehind t 0 = 0 := depthBehind_plain opens closes 0
    cases ts with
    | nil => cases first <;> cases key : keyKind? t <;> simp_all [valueTypeLength, isKey, depthBehind]
    | cons u ts =>
      have apart : ((u :: ts) ++ [colon]).head?.map Token.kind ≠ some .colon := by
        simpa using free.head_ne rfl
      have rest := ih false
      rw [List.cons_append, valueTypeLength_pass fun _ => ⟨other, .inr apart⟩, still]
      simp only [List.getLast?_cons_cons, List.length_cons] at rest ⊢
      simp at rest ⊢
      omega
  | @group opener closer body rest pair nested free ih =>
    obtain ⟨deeper, back⟩ := depthBehind_pair pair 0
    obtain ⟨noKey, noKey'⟩ := isKey_of_pair pair
    have noColon : opener.kind ≠ .colon := by
      intro colon
      rw [colon] at pair
      cases pair
    have last : (opener :: body ++ closer :: rest).getLast?.any isKey = rest.getLast?.any isKey := by
      rw [List.getLast?_append_of_ne_nil _ (List.cons_ne_nil _ _)]
      cases rest <;> simp [noKey']
    have behind := ih false
    rw [last, List.cons_append, List.cons_append, List.append_assoc, List.cons_append,
      valueTypeLength_pass fun _ => ⟨noColon, .inl (by simpa [isKey] using noKey)⟩, deeper,
      valueTypeLength_nested nested (by decide), back]
    simp only [List.length_append, List.length_cons]
    simp at behind ⊢
    omega

theorem valueTypeLength_endsInKey (free : Lacks .colon value) (mark : colon.kind = .colon) :
    valueTypeLength 0 true (value ++ [colon]) + (endsInKey value).toNat = value.length := by
  have size := valueTypeLength_colon free mark true
  by_cases one : value.length = 1
  · simpa [endsInKey, one] using size
  · cases last : value.getLast?.any isKey <;> simpa [endsInKey, one, last] using size

theorem TypeShape.nested (shape : TypeShape value ts) : Nested ts := by
  obtain ⟨kind, opens, closes, nested, nonempty, free⟩ := shape
  rename_i keyword opener closer key
  have group : Nested (opener :: key ++ closer :: value) :=
    .group (by rw [opens, closes]; rfl) nested free.nested
  exact .plain (by rw [kind]; rfl) (by rw [kind]; rfl) group

/-- All tokens are read as the type but those of the value type that are not taken for a part of it. -/
theorem parseMapType_shape {n : Nat} (shape : TypeShape value ts) (front : c.rest = ts ++ us)
    (size : valueTypeLength 0 true (value ++ us) = n) (short : n ≤ value.length) :
    ∃ lead, ts = lead ++ value ∧ ∃ place, parseMapType c = (do
      let e ← parseExpression (lead ++ value.take n) place
      return (e, c.moveTo (value.drop n ++ us))) := by
  obtain ⟨kind, opens, closes, nested, nonempty, free⟩ := shape
  rename_i keyword opener closer key
  have within : c.next.2.rest = opener :: (key ++ closer :: (value ++ us)) := by
    simp [next, moveTo, front]
  obtain ⟨inner, left⟩ := (group_iff closer?_lbracket).mpr
    ⟨opener, closer, opens, closes, nested, within⟩
  generalize told : keyword :: opener :: (key ++ [closer]) = lead
  have split : keyword :: opener :: (key ++ closer :: value) = lead ++ value := by simp [← told]
  have length : c.rest.length - (value ++ us).length + n = lead.length + n := by
    rw [front, split]
    simp only [List.length_append]
    omega
  refine ⟨lead, split, c.peek.span, ?_⟩
  unfold parseMapType
  dsimp only
  rw [inner, left, size, length, front, split, List.append_assoc, List.take_length_add_append,
    List.drop_length_add_append, List.take_append_of_le_length short, List.drop_append_of_le_length short]
  rfl

/-- What a literal that starts with a map type is read as. -/
theorem parse_shape {n : Nat} (shape : TypeShape value ts) (nested : Nested us)
    (size : valueTypeLength 0 true (value ++ us) = n) (short : n ≤ value.length)
    (bracketed : Bracketed (ts ++ us) whole) (stop : Span) :
    ∃ lead, ts = lead ++ value ∧ ∃ place, MapLiteral.parse stop whole = (do
      let e ← parseExpression (lead ++ value.take n) place
      listing stop (some e) (value.drop n ++ us)) := by
  have unwrapped : unwrapBrackets stop whole = ts ++ us := by
    refine unwrapBrackets_complete (nested_append shape.nested nested) ?_ bracketed stop
    cases shape with
    | intro kind => simp [kind]
  obtain ⟨lead, split, place, typed⟩ := parseMapType_shape (c := ofTokens (ts ++ us) stop) shape rfl size short
  have named : (ofTokens (ts ++ us) stop).peek.kind = .map := by
    cases shape with
    | intro kind => exact kind
  refine ⟨lead, split, place, ?_⟩
  rw [MapLiteral.parse_eq, unwrapped]
  dsimp only
  rw [if_pos named, typed]
  cases parseExpression (lead ++ value.take n) place <;> rfl

/-- A key and a colon are no entry, as an expression takes at least one token. -/
theorem listing_open {type : Option Expression} {key : Token} (mark : colon.kind = .colon) :
    listing stop type [key, colon] ≠ .ok m := by
  intro read
  obtain ⟨entries, parsed, -⟩ := bind_eq_ok read
  rw [parseEntries] at parsed
  split at parsed
  · cases parsed
  · obtain ⟨c', expected, -⟩ := expect_complete (c := ofTokens [colon] stop) mark rfl
    simp only [expected, lift_ok, ok_bind, List.tail_cons, splitAtDepth, parseExpression] at parsed
    cases parsed

theorem accepted_iff {e : Expression} {place : Span} :
    parseExpression ts place = .ok e ↔ e = ⟨ts⟩ ∧ Expression.Accepted ⟨ts⟩ := by
  constructor
  · intro parsed
    obtain ⟨rfl, accepted⟩ := accepted_of_parse parsed
    exact ⟨rfl, accepted⟩
  · rintro ⟨rfl, accepted⟩
    exact accepted.parse place

/-- If what is left behind the type stands for no entries, the literal is the type alone. -/
theorem typed_alone {place : Span} (nothing : ∀ e, listing stop (some e) us = .ok ⟨some e, []⟩) :
    (do let e ← parseExpression ts place; listing stop (some e) us) = .ok m ↔
      m = ⟨some ⟨ts⟩, []⟩ ∧ Expression.Accepted ⟨ts⟩ := by
  constructor
  · intro read
    obtain ⟨e, parsed, listed⟩ := bind_eq_ok read
    obtain ⟨rfl, accepted⟩ := accepted_iff.mp parsed
    rw [nothing] at listed
    exact ⟨(Except.ok.inj listed).symm, accepted⟩
  · rintro ⟨rfl, accepted⟩
    rw [accepted.parse place, ok_bind, nothing]

theorem listing_colon {type : Option Expression} (mark : colon.kind = .colon) :
    listing stop type [colon] = .ok ⟨type, []⟩ := by
  rw [listing, if_pos mark]
  rfl

theorem parse_alone_iff (shape : TypeShape value ts) (bracketed : Bracketed ts whole) (stop : Span) :
    MapLiteral.parse stop whole = .ok m ↔ m = ⟨some ⟨ts⟩, []⟩ ∧ Expression.Accepted ⟨ts⟩ := by
  have free : Lacks .colon value := by cases shape; assumption
  have size : valueTypeLength 0 true (value ++ []) = value.length := by
    rw [valueTypeLength_free free (by simp)]
    rfl
  have bracketed : Bracketed (ts ++ []) whole := by rwa [List.append_nil]
  obtain ⟨lead, split, place, parsed⟩ := parse_shape shape .nil size (Nat.le_refl _) bracketed stop
  rw [parsed, List.take_length, List.drop_length, ← split]
  exact typed_alone fun _ => rfl

/-- A map type alone, in brackets or not, is read as that type without entries if it is accepted as an
expression, and not at all otherwise. With a lone colon behind it the same is read, unless the last token
of a value type of several tokens looks like a key: then nothing is read. -/
theorem loneColon_iff (shape : TypeShape value ts) (mark : colon.kind = .colon) (stop : Span) (m : MapLiteral) :
    (∀ whole, Bracketed ts whole →
      (MapLiteral.parse stop whole = .ok m ↔ m = ⟨some ⟨ts⟩, []⟩ ∧ Expression.Accepted ⟨ts⟩)) ∧
    ∀ whole, Bracketed (ts ++ [colon]) whole →
      (MapLiteral.parse stop whole = .ok m ↔
        m = ⟨some ⟨ts⟩, []⟩ ∧ Expression.Accepted ⟨ts⟩ ∧ endsInKey value = false) := by
  have free : Lacks .colon value := by cases shape; assumption
  have nonempty : value ≠ [] := by cases shape; assumption
  constructor
  · intro whole bracketed
    exact parse_alone_iff shape bracketed stop
  · intro whole bracketed
    have nested : Nested [colon] := .plain (by rw [mark]; rfl) (by rw [mark]; rfl) .nil
    have size := valueTypeLength_endsInKey free mark
    have short : valueTypeLength 0 true (value ++ [colon]) ≤ value.length := by omega
    obtain ⟨lead, split, place, parsed⟩ := parse_shape shape nested rfl short bracketed stop
    rw [parsed]
    cases ends : endsInKey value with
    | false =>
      rw [ends] at size
      rw [show valueTypeLength 0 true (value ++ [colon]) = value.length from size, List.take_length,
        List.drop_length, ← split]
      have nothing (e : Expression) : listing stop (some e) [colon] = .ok ⟨some e, []⟩ := listing_colon mark
      simpa using typed_alone nothing
    | true =>
      -- The last token is left to the entries, as the key of an entry that has no value.
      obtain ⟨init, key, rfl⟩ := List.eq_nil_or_concat' value |>.resolve_left nonempty
      have left : valueTypeLength 0 true (init ++ [key] ++ [colon]) = init.length := by
        simpa [ends] using size
      constructor
      · intro read
        obtain ⟨e, -, listed⟩ := bind_eq_ok read
        rw [left, List.drop_left] at listed
        exact absurd listed (listing_open mark)
      · rintro ⟨-, -, never⟩
        cases never

/-- `map[k]` and a value type. -/
def mapTo (value : List Token) : List Token :=
  tokensOf [(.map, "map"), (.lbracket, "["), (.identifier, "k"), (.rbracket, "]")] ++ value

theorem mapTo_shape (nonempty : value ≠ []) (free : Lacks .colon value) : TypeShape value (mapTo value) := by
  have key : Nested (tokensOf [(.identifier, "k")]) := .plain rfl rfl .nil
  exact .intro rfl rfl rfl key nonempty free

/-- `struct{}`. -/
def emptyStruct : List Token := tokensOf [(.keyword, "struct"), (.lbrace, "\x7b"), (.rbrace, "\x7d")]

/-- Behind a type that ends in a brace, the colon is read as no entries. -/
theorem loneColon_iff_emptyStruct :
    let whole := tokensOf [(.lbracket, "[")] ++ (mapTo emptyStruct ++ tokensOf [(.colon, ":"), (.rbracket, "]")])
    MapLiteral.parse .none whole = .ok ⟨some ⟨mapTo emptyStruct⟩, []⟩ := by
  intro whole
  have braces : Lacks .colon emptyStruct := .plain rfl rfl (by decide) (@Lacks.group .colon _ _ [] [] rfl .nil .nil)
  have accepted : Expression.Accepted ⟨mapTo emptyStruct⟩ := ⟨.none, eq_ok_of_toOption (by decide +kernel)⟩
  have mark : (⟨.colon, Text.utf8 ":", .none, .none⟩ : Token).kind = .colon := rfl
  have bracketed : Bracketed (mapTo emptyStruct ++ [⟨.colon, Text.utf8 ":", .none, .none⟩]) whole :=
    @Bracketed.within _ ⟨.lbracket, Text.utf8 "[", .none, .none⟩ ⟨.rbracket, Text.utf8 "]", .none, .none⟩ rfl rfl
  exact ((loneColon_iff (mapTo_shape (by decide) braces) mark .none _).2 _ bracketed).mpr ⟨rfl, accepted, rfl⟩

/-- `*T`. -/
def pointer : List Token := tokensOf [(.operator, "*"), (.identifier, "T")]

/-- Behind a pointer, which alone is read as a type, the colon is taken for the one of an entry. -/
theorem loneColon_pointer :
    MapLiteral.parse .none (mapTo pointer) = .ok ⟨some ⟨mapTo pointer⟩, []⟩ ∧
      ∀ m, MapLiteral.parse .none (mapTo pointer ++ tokensOf [(.colon, ":")]) ≠ .ok m := by
  have rejected : (MapLiteral.parse .none (mapTo pointer ++ tokensOf [(.colon, ":")])).toOption = none := by
    decide +kernel
  have plain : Lacks .colon pointer := .plain rfl rfl (by decide) (.plain rfl rfl (by decide) .nil)
  have accepted : Expression.Accepted ⟨mapTo pointer⟩ := ⟨.none, eq_ok_of_toOption (by decide +kernel)⟩
  refine ⟨(parse_alone_iff (mapTo_shape (by decide) plain) .bare .none).mpr ⟨rfl, accepted⟩, fun m read => ?_⟩
  rw [read] at rejected
  cases rejected

end Desugar.Form

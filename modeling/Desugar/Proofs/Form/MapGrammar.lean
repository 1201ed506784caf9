import Desugar.Proofs.Form.Grammar
import Desugar.Proofs.Token.Reported

/-!
# The grammar of map literals

A map literal is a map type, if any, and entries with commas between them, all of it in brackets or
not. Where the type ends is not written: it is looked for, outside of brackets, as the first key that a
colon follows. So a literal is read as what it was written from if its type has no colon of its own
outside of brackets and its values have no comma there. Whatever is read, and from whatever stream, no
token of the stream is lost.
-/
namespace Desugar.Form

open Invocation Cursor

/-! ## Shapes -/

/-- Tokens whose delimiters close in pairs, of which none outside of all pairs is of a kind. -/
inductive Lacks (kind : TokenKind) : List Token → Prop where
  | nil : Lacks kind []
  | plain {t : Token} {ts : List Token} (opens : t.kind.closer? = none)
      (closes : t.kind.isClose = false) (other : t.kind ≠ kind) : Lacks kind ts → Lacks kind (t :: ts)
  | group {opener closer : Token} {body rest : List Token}
      (pair : opener.kind.closer? = some closer.kind) (nested : Nested body) :
      Lacks kind rest → Lacks kind (opener :: body ++ closer :: rest)

/-- Tokens that are accepted as an expression. -/
def Expression.Accepted (e : Expression) : Prop := ∃ place, parseExpression e.tokens place = .ok e

/-- `key : value`, where the key is one name or one literal. -/
inductive MapEntry.Written (e : MapEntry) : List Token → Prop where
  | intro {colon : Token} (key : keyKind? e.key = some e.kind) (mark : colon.kind = .colon) :
      Written e (e.key :: colon :: e.value.tokens)

/-- Entries with a comma between two of them, and maybe one at the end. -/
inductive Entries : List MapEntry → List Token → Prop where
  | last {e : MapEntry} {word : List Token} (written : e.Written word) : Entries [e] word
  | closed {e : MapEntry} {word : List Token} {comma : Token} (written : e.Written word)
      (mark : comma.kind = .comma) : Entries [e] (word ++ [comma])
  | cons {e : MapEntry} {es : List MapEntry} {word rest : List Token} {comma : Token}
      (written : e.Written word) (mark : comma.kind = .comma) :
      Entries es rest → Entries (e :: es) (word ++ comma :: rest)

/-- What stands behind the type, if there is one: nothing, a colon for no entries, or entries. -/
inductive Listing : List MapEntry → List Token → Prop where
  | nothing : Listing [] []
  | colon {mark : Token} (kind : mark.kind = .colon) : Listing [] [mark]
  | entries {es : List MapEntry} {word : List Token} (written : Entries es word) : Listing es word

/-- A word as it is, or in brackets. -/
inductive Bracketed (word : List Token) : List Token → Prop where
  | bare : Bracketed word word
  | within {opener closer : Token} (opens : opener.kind = .lbracket)
      (closes : closer.kind = .rbracket) : Bracketed word (opener :: (word ++ [closer]))

/-- The tokens of a type, if there is one. -/
def MapLiteral.typeTokens (m : MapLiteral) : List Token := m.type.elim [] Expression.tokens

/-- The tokens that a map literal is put together from: its type, its keys and its values, with colons,
commas and brackets. -/
inductive MapLiteral.Composes (m : MapLiteral) : List Token → Prop where
  | intro {listing ts : List Token} (listed : Listing m.entries listing)
      (whole : Bracketed (m.typeTokens ++ listing) ts) : Composes m ts

/-- `map [ K ] V`, where `V` has no colon outside of brackets. -/
inductive MapType (t : Expression) : Prop where
  | intro {keyword opener closer : Token} {key value : List Token} (kind : keyword.kind = .map)
      (opens : opener.kind = .lbracket) (closes : closer.kind = .rbracket) (nested : Nested key)
      (nonempty : value ≠ []) (free : Lacks .colon value) (accepted : t.Accepted)
      (tokens : t.tokens = keyword :: opener :: (key ++ closer :: value))

/-- A literal without a lone colon, whose types and values are told apart by their tokens. -/
inductive MapLiteral.Written (m : MapLiteral) : List Token → Prop where
  | intro {listing ts : List Token} (type : ∀ t ∈ m.type, MapType t)
      (listed : (m.entries = [] ∧ listing = []) ∨ Entries m.entries listing)
      (values : ∀ e ∈ m.entries, Lacks .comma e.value.tokens ∧ e.value.Accepted)
      (whole : Bracketed (m.typeTokens ++ listing) ts) : Written m ts

variable {c c' : Cursor} {ts us rest inside word : List Token} {stop place : Span} {kind : TokenKind}
  {m : MapLiteral}

theorem Lacks.nested (free : Lacks kind ts) : Nested ts := by
  induction free with
  | nil => exact .nil
  | plain opens closes _ _ ih => exact .plain opens closes ih
  | group pair nested _ ih => exact .group pair nested ih

theorem nested_append (first : Nested ts) (second : Nested us) : Nested (ts ++ us) := by
  induction first with
  | nil => exact second
  | plain opens closes _ ih => exact .plain opens closes ih
  | @group opener closer body rest pair nested _ _ ih =>
    have whole : Nested (opener :: body ++ closer :: (rest ++ us)) := .group pair nested ih
    simpa using whole

theorem Expression.Accepted.parse {e : Expression} (accepted : e.Accepted) (place : Span) :
    parseExpression e.tokens place = .ok e := by
  obtain ⟨place', parsed⟩ := accepted
  exact parseExpression_anywhere parsed place

theorem accepted_of_parse {e : Expression} (parsed : parseExpression ts place = .ok e) :
    e.tokens = ts ∧ e.Accepted := by
  obtain ⟨same, -⟩ := parseExpression_part parsed
  exact ⟨same, place, same ▸ parsed⟩

theorem keyKind?_other {t : Token} {k : KeyKind} (key : keyKind? t = some k) :
    t.kind ≠ .lbracket ∧ t.kind ≠ .map ∧ t.kind ≠ .colon ∧ t.kind.closer? = none ∧
      t.kind.isClose = false := by
  unfold keyKind? Token.isLiteral at key
  cases same : t.kind <;> simp [same, TokenKind.isLiteral] at key <;>
    simp [TokenKind.closer?, TokenKind.isClose]

/-! ## Scanning at a depth -/

/-- The depth behind a token. -/
def depthBehind (t : Token) (depth : Int) : Int :=
  if t.kind.isOpen then depth + 1 else if t.kind.isClose then depth - 1 else depth

theorem depthBehind_plain {t : Token} (opens : t.kind.closer? = none) (closes : t.kind.isClose = false)
    (depth : Int) : depthBehind t depth = depth := by
  simp [depthBehind, TokenKind.isOpen, opens, closes]

theorem depthBehind_pair {opener closer : Token} (pair : opener.kind.closer? = some closer.kind)
    (depth : Int) : depthBehind opener depth = depth + 1 ∧ depthBehind closer (depth + 1) = depth := by
  obtain ⟨closes, opens⟩ := closer_of_closer? pair
  simp [depthBehind, TokenKind.isOpen, pair, opens, closes]

theorem splitAtDepth_pass {split : Token → Bool} {t : Token} {depth : Int}
    (goesOn : depth = 0 → split t = false) (ts : List Token) :
    splitAtDepth split depth (t :: ts) = (t :: (splitAtDepth split (depthBehind t depth) ts).1,
      (splitAtDepth split (depthBehind t depth) ts).2) := by
  by_cases outside : depth = 0
  · simp [splitAtDepth, depthBehind, goesOn outside]
  · simp [splitAtDepth, depthBehind, outside]

/-- Nested tokens inside of brackets are taken whole. -/
theorem splitAtDepth_nested (split : Token → Bool) (nested : Nested ts) {depth : Int} (inside : 0 < depth)
    (us : List Token) : splitAtDepth split depth (ts ++ us) =
      (ts ++ (splitAtDepth split depth us).1, (splitAtDepth split depth us).2) := by
  induction nested generalizing depth us with
  | nil => rfl
  | plain opens closes _ ih =>
    rw [List.cons_append, splitAtDepth_pass (by omega), depthBehind_plain opens closes, ih inside]
    rfl
  | @group opener closer body rest pair _ _ ihBody ihRest =>
    obtain ⟨deeper, back⟩ := depthBehind_pair pair depth
    rw [List.cons_append, List.cons_append, List.append_assoc, List.cons_append,
      splitAtDepth_pass (by omega), deeper, ihBody (by omega), splitAtDepth_pass (by omega), back,
      ihRest inside]
    simp

/-- Tokens without a comma outside of brackets are taken whole. -/
theorem splitAtDepth_free (free : Lacks .comma ts) (us : List Token) :
    splitAtDepth (fun t => t.kind = .comma) 0 (ts ++ us) =
      (ts ++ (splitAtDepth (fun t => t.kind = .comma) 0 us).1,
        (splitAtDepth (fun t => t.kind = .comma) 0 us).2) := by
  induction free with
  | nil => rfl
  | plain opens closes other _ ih =>
    rw [List.cons_append, splitAtDepth_pass (by simp [other]), depthBehind_plain opens closes, ih]
    rfl
  | @group opener closer body rest pair nested _ ih =>
    obtain ⟨deeper, back⟩ := depthBehind_pair pair 0
    have other : opener.kind ≠ .comma := by
      intro comma
      rw [comma] at pair
      cases pair
    rw [List.cons_append, List.cons_append, List.append_assoc, List.cons_append,
      splitAtDepth_pass (by simp [other]), deeper, splitAtDepth_nested _ nested (by omega),
      splitAtDepth_pass (by omega), back, ih]
    simp

/-- What is left begins with what was looked for. -/
theorem splitAtDepth_stops (split : Token → Bool) (depth : Int) (ts : List Token) :
    (splitAtDepth split depth ts).2 = [] ∨
      ∃ t us, (splitAtDepth split depth ts).2 = t :: us ∧ split t = true := by
  induction ts generalizing depth with
  | nil => exact .inl rfl
  | cons t ts ih =>
    unfold splitAtDepth
    split
    · rename_i found
      exact .inr ⟨t, ts, rfl, by simpa using (Bool.and_eq_true_iff.mp found).2⟩
    · exact ih _

/-- A token that ends no type: inside of brackets, or neither a key with a colon behind it nor a colon. -/
theorem valueTypeLength_pass {t : Token} {depth : Int} {first : Bool}
    (goesOn : depth = 0 → t.kind ≠ .colon ∧
      (keyKind? t = none ∨ ts.head?.map Token.kind ≠ some .colon)) :
    valueTypeLength depth first (t :: ts) = valueTypeLength (depthBehind t depth) false ts + 1 := by
  rw [valueTypeLength]
  by_cases outside : depth = 0
  · obtain ⟨noColon, free | behind⟩ := goesOn outside
    · simp [noColon, free, depthBehind]
    · simp [noColon, behind, depthBehind]
  · simp [outside, depthBehind]

/-- Nested tokens inside of brackets belong to the type. -/
theorem valueTypeLength_nested (nested : Nested ts) {depth : Int} (inside : 0 < depth) (first : Bool)
    (t : Token) (us : List Token) : valueTypeLength depth first (ts ++ t :: us) =
      ts.length + (valueTypeLength (depthBehind t depth) false us + 1) := by
  induction nested generalizing depth first t us with
  | nil => rw [List.nil_append, valueTypeLength_pass (by omega), List.length_nil, Nat.zero_add]
  | plain opens closes _ ih =>
    rw [List.cons_append, valueTypeLength_pass (by omega), depthBehind_plain opens closes, ih inside,
      List.length_cons]
    omega
  | @group opener closer body rest pair _ _ ihBody ihRest =>
    obtain ⟨deeper, back⟩ := depthBehind_pair pair depth
    rw [List.cons_append, List.cons_append, List.append_assoc, List.cons_append,
      valueTypeLength_pass (by omega), deeper, ihBody (by omega), back, ihRest inside]
    simp only [List.length_append, List.length_cons]
    omega

theorem head_ne_of_lacks (free : Lacks .colon ts) (behind : us.head?.map Token.kind ≠ some .colon) :
    (ts ++ us).head?.map Token.kind ≠ some .colon := by
  cases free with
  | nil => exact behind
  | plain opens closes other _ => simpa using other
  | @group opener closer body rest pair _ _ =>
    intro colon
    rw [List.cons_append, List.cons_append, List.head?_cons, Option.map_some, Option.some.injEq] at colon
    rw [colon] at pair
    cases pair

/-- Tokens without a colon outside of brackets belong to the type. -/
theorem valueTypeLength_free (free : Lacks .colon ts) (behind : us.head?.map Token.kind ≠ some .colon)
    (first : Bool) : valueTypeLength 0 first (ts ++ us) =
      ts.length + valueTypeLength 0 (first && ts.isEmpty) us := by
  induction free generalizing first with
  | nil => simp
  | plain opens closes other free ih =>
    rw [List.cons_append, valueTypeLength_pass fun _ => ⟨other, .inr (head_ne_of_lacks free behind)⟩,
      depthBehind_plain opens closes, ih, List.length_cons]
    simp only [Bool.false_and, List.isEmpty_cons, Bool.and_false]
    omega
  | @group opener closer body rest pair nested free ih =>
    obtain ⟨deeper, back⟩ := depthBehind_pair pair 0
    have noColon : opener.kind ≠ .colon := by
      intro colon
      rw [colon] at pair
      cases pair
    have noKey : keyKind? opener = none := by
      cases key : keyKind? opener with
      | none => rfl
      | some k =>
        rw [(keyKind?_other key).2.2.2.1] at pair
        cases pair
    rw [List.cons_append, List.cons_append, List.append_assoc, List.cons_append,
      valueTypeLength_pass fun _ => ⟨noColon, .inl noKey⟩, deeper,
      valueTypeLength_nested nested (by decide), back, ih]
    simp only [List.length_append, List.length_cons, Bool.false_and, List.isEmpty_cons, Bool.and_false]
    omega

/-! ## Parts of a map literal -/

/-- What can stand behind a type without being taken for a part of it. -/
theorem Entries.head {es : List MapEntry} (listed : Entries es ts) :
    ∃ key colon us k, ts = key :: colon :: us ∧ keyKind? key = some k ∧ colon.kind = .colon := by
  cases listed with
  | last written => cases written with | intro key mark => exact ⟨_, _, _, _, rfl, key, mark⟩
  | closed written => cases written with | intro key mark => exact ⟨_, _, _, _, rfl, key, mark⟩
  | cons written => cases written with | intro key mark => exact ⟨_, _, _, _, rfl, key, mark⟩

theorem valueTypeLength_entries {es : List MapEntry} (listed : Entries es ts) :
    valueTypeLength 0 false ts = 0 := by
  obtain ⟨key, colon, us, k, rfl, kind, mark⟩ := listed.head
  simp [valueTypeLength, kind, mark]

theorem closer?_lbracket : TokenKind.lbracket.closer? = some .rbracket := rfl

theorem parseMapType_complete {t : Expression} (type : MapType t) (front : c.rest = t.tokens ++ us)
    (behind : us.head?.map Token.kind ≠ some .colon) (ends : valueTypeLength 0 false us = 0) :
    ∃ c', parseMapType c = .ok (t, c') ∧ c'.rest = us := by
  obtain ⟨kind, opens, closes, nested, filled, free, accepted, tokens⟩ := type
  rename_i keyword opener closer key value
  have within : c.next.2.rest = opener :: (key ++ closer :: (value ++ us)) := by
    simp [next, moveTo, front, tokens]
  obtain ⟨inner, left⟩ := (group_iff closer?_lbracket).mpr
    ⟨opener, closer, opens, closes, nested, within⟩
  have size : valueTypeLength 0 true (value ++ us) = value.length := by
    have nonempty : value.isEmpty = false := by simpa using filled
    rw [valueTypeLength_free free behind, nonempty, Bool.and_false, ends, Nat.add_zero]
  have length : c.rest.length - (value ++ us).length + value.length = t.tokens.length := by
    rw [front, tokens]
    simp only [List.length_append, List.length_cons]
    omega
  refine ⟨c.moveTo us, ?_, rfl⟩
  unfold parseMapType
  dsimp only
  rw [inner, left, size, length, front]
  simp [accepted.parse]

theorem unwrapBrackets_reads (stop : Span) (ts : List Token) : Bracketed (unwrapBrackets stop ts) ts := by
  unfold unwrapBrackets
  dsimp only
  split
  · rename_i inner inside
    split
    · rename_i ended
      obtain ⟨opener, last, opens, closes, -, front⟩ :=
        (group_iff closer?_lbracket).mp ⟨inside, List.isEmpty_iff.mp ended⟩
      rw [rest_ofTokens] at front
      subst front
      exact .within opens closes
    · exact .bare
  · exact .bare

theorem unwrapBrackets_complete (nested : Nested word) (other : word.head?.map Token.kind ≠ some .lbracket)
    (whole : Bracketed word ts) (stop : Span) : unwrapBrackets stop ts = word := by
  cases whole with
  | bare =>
    unfold unwrapBrackets
    dsimp only
    split
    · rename_i inner inside
      obtain ⟨opener, last, opens, -, -, front⟩ :=
        (group_iff closer?_lbracket).mp ⟨inside, rfl⟩
      rw [rest_ofTokens] at front
      rw [front, List.head?_cons, Option.map_some, opens] at other
      exact absurd rfl other
    · rfl
  | @within opener closer opens closes =>
    obtain ⟨inner, left⟩ := (group_iff (c := ofTokens (opener :: (word ++ [closer])) stop)
      closer?_lbracket).mpr ⟨opener, closer, opens, closes, nested, rfl⟩
    unfold unwrapBrackets
    dsimp only
    rw [inner]
    simp only [atEnd, left, List.isEmpty_nil, if_true]

theorem parseEntries_reads {es : List MapEntry} (parsed : parseEntries stop ts = .ok es) :
    (es = [] ∧ ts = []) ∨ Entries es ts := by
  induction ts using parseEntries.induct generalizing es with
  | case1 =>
    obtain rfl := Except.ok.inj (parseEntries.eq_1 stop ▸ parsed)
    exact .inl ⟨rfl, rfl⟩
  | case2 key rest absent =>
    rw [parseEntries, absent] at parsed
    cases parsed
  | case3 key rest kind known ih =>
    rw [parseEntries, known] at parsed
    dsimp only at parsed
    obtain ⟨⟨colon, c⟩, expected, parsed⟩ := bind_eq_ok parsed
    obtain ⟨value, accepted, parsed⟩ := bind_eq_ok parsed
    obtain ⟨more, read, parsed⟩ := bind_eq_ok parsed
    obtain rfl := Except.ok.inj parsed
    obtain ⟨front, mark⟩ := expect_reads (lift_eq_ok expected) (by decide)
    rw [rest_ofTokens] at front
    subst front
    obtain ⟨tokens, -⟩ := parseExpression_part accepted
    have cut := splitAtDepth_append (fun t => t.kind = .comma) 0 c.rest
    have stops := splitAtDepth_stops (fun t => t.kind = .comma) 0 c.rest
    dsimp only [List.tail_cons] at read tokens ih
    rw [← tokens] at cut
    have written : MapEntry.Written ⟨kind, key, value⟩ (key :: colon :: value.tokens) := .intro known mark
    right
    rcases stops with empty | ⟨comma, us, found, isComma⟩
    · rw [empty, List.append_nil] at cut
      rw [empty] at read ih
      obtain ⟨rfl, -⟩ | listed := ih read
      · rw [← cut]
        exact .last written
      · obtain ⟨_, _, _, _, ⟨⟩, -⟩ := listed.head
    · rw [found] at cut read ih
      rw [← cut]
      obtain ⟨rfl, rfl⟩ | listed := ih read
      · exact .closed written (of_decide_eq_true isComma)
      · exact .cons written (of_decide_eq_true isComma) listed

theorem parseEntries_step {e : MapEntry} (written : e.Written word) (free : Lacks .comma e.value.tokens)
    (accepted : e.value.Accepted) (ends : us = [] ∨ ∃ comma behind, us = comma :: behind ∧
      comma.kind = .comma) :
    parseEntries stop (word ++ us) = (do
      let more ← parseEntries stop us.tail
      return e :: more) := by
  obtain ⟨key, mark⟩ := written
  rename_i colon
  obtain ⟨c', expected, -⟩ := expect_complete (c := ofTokens (colon :: (e.value.tokens ++ us)) stop) mark rfl
  have cut : splitAtDepth (fun t => t.kind = .comma) 0 (e.value.tokens ++ us) = (e.value.tokens, us) := by
    have stops : splitAtDepth (fun t => t.kind = .comma) 0 us = ([], us) := by
      obtain rfl | ⟨comma, behind, rfl, isComma⟩ := ends
      · rfl
      · simp [splitAtDepth, isComma]
    rw [splitAtDepth_free free, stops, List.append_nil]
  rw [List.cons_append, List.cons_append, parseEntries, key]
  simp [expected, cut, accepted.parse]

theorem parseEntries_complete {es : List MapEntry} (listed : Entries es ts)
    (values : ∀ e ∈ es, Lacks .comma e.value.tokens ∧ e.value.Accepted) (stop : Span) :
    parseEntries stop ts = .ok es := by
  have nothing : parseEntries stop [] = .ok [] := parseEntries.eq_1 stop
  induction listed with
  | @last e word written =>
    obtain ⟨free, accepted⟩ := values e List.mem_cons_self
    have step := @parseEntries_step [] word stop e written free accepted (.inl rfl)
    rwa [List.append_nil, List.tail_nil, nothing] at step
  | @closed e word comma written mark =>
    obtain ⟨free, accepted⟩ := values e List.mem_cons_self
    rw [parseEntries_step written free accepted (.inr ⟨comma, [], rfl, mark⟩), List.tail_cons, nothing]
    rfl
  | @cons e es word rest comma written mark _ ih =>
    obtain ⟨free, accepted⟩ := values e List.mem_cons_self
    rw [parseEntries_step written free accepted (.inr ⟨comma, rest, rfl, mark⟩), List.tail_cons,
      ih fun e member => values e (List.mem_cons_of_mem _ member)]
    rfl

/-! ## The literal -/

theorem listing_reads {type : Option Expression} (read : listing stop type ts = .ok m) :
    m.type = type ∧ Listing m.entries ts := by
  have entries (read : (do return { type, entries := ← parseEntries stop ts } : Except Failure MapLiteral) =
      .ok m) : m.type = type ∧ Listing m.entries ts := by
    obtain ⟨es, parsed, same⟩ := bind_eq_ok read
    obtain rfl := Except.ok.inj same
    refine ⟨rfl, ?_⟩
    obtain ⟨rfl, rfl⟩ | listed := parseEntries_reads parsed
    · exact .nothing
    · exact .entries listed
  unfold listing at read
  split at read
  · obtain rfl := Except.ok.inj read
    exact ⟨rfl, .nothing⟩
  · split at read
    · rename_i kind
      obtain rfl := Except.ok.inj read
      exact ⟨rfl, .colon kind⟩
    · exact entries read
  · exact entries read

theorem listing_complete {type : Option Expression} {es : List MapEntry}
    (listed : (es = [] ∧ ts = []) ∨ Entries es ts)
    (values : ∀ e ∈ es, Lacks .comma e.value.tokens ∧ e.value.Accepted) (stop : Span) :
    listing stop type ts = .ok ⟨type, es⟩ := by
  obtain ⟨rfl, rfl⟩ | listed := listed
  · rfl
  · have parsed := parseEntries_complete listed values stop
    obtain ⟨key, colon, us, k, rfl, -⟩ := listed.head
    simp [listing, parsed]

theorem MapType.nested {t : Expression} (type : MapType t) : Nested t.tokens := by
  obtain ⟨kind, opens, closes, nested, nonempty, free, accepted, tokens⟩ := type
  rename_i keyword opener closer key value
  have group : Nested (opener :: key ++ closer :: value) :=
    .group (by rw [opens, closes]; rfl) nested free.nested
  rw [tokens]
  exact .plain (by rw [kind]; rfl) (by rw [kind]; rfl) group

theorem MapType.head {t : Expression} (type : MapType t) :
    ∃ rest, ∃ keyword : Token, t.tokens = keyword :: rest ∧ keyword.kind = .map := by
  obtain ⟨kind, -, -, -, -, -, -, tokens⟩ := type
  exact ⟨_, _, tokens, kind⟩

theorem Entries.nested {es : List MapEntry} (listed : Entries es ts)
    (values : ∀ e ∈ es, Lacks .comma e.value.tokens ∧ e.value.Accepted) : Nested ts := by
  have entry {e : MapEntry} {word : List Token} (written : e.Written word)
      (free : Lacks .comma e.value.tokens) : Nested word := by
    obtain ⟨key, mark⟩ := written
    obtain ⟨-, -, -, opens, closes⟩ := keyKind?_other key
    exact .plain opens closes (.plain (by rw [mark]; rfl) (by rw [mark]; rfl) free.nested)
  have comma {t : Token} (mark : t.kind = .comma) {ts : List Token} (nested : Nested ts) :
      Nested (t :: ts) := .plain (by rw [mark]; rfl) (by rw [mark]; rfl) nested
  induction listed with
  | last written => exact entry written (values _ List.mem_cons_self).1
  | closed written mark => exact nested_append (entry written (values _ List.mem_cons_self).1) (comma mark .nil)
  | cons written mark _ ih =>
    exact nested_append (entry written (values _ List.mem_cons_self).1)
      (comma mark (ih fun e member => values e (List.mem_cons_of_mem _ member)))

theorem parseMapType_reads {t : Expression} (read : parseMapType c = .ok (t, c')) :
    c.rest = t.tokens ++ c'.rest := by
  unfold parseMapType at read
  dsimp only at read
  obtain ⟨-, -, read⟩ := bind_eq_ok read
  obtain ⟨e, parsed, read⟩ := bind_eq_ok read
  obtain ⟨rfl, rfl⟩ := Prod.mk.inj (Except.ok.inj read)
  rw [(parseExpression_part parsed).1]
  exact (List.take_append_drop _ _).symm

theorem MapLiteral.parse_reads (read : MapLiteral.parse stop ts = .ok m) : m.Composes ts := by
  have whole := unwrapBrackets_reads stop ts
  rw [MapLiteral.parse_eq] at read
  dsimp only at read
  split at read
  · obtain ⟨⟨t, c⟩, typed, read⟩ := bind_eq_ok read
    have front := parseMapType_reads typed
    obtain ⟨type, listed⟩ := listing_reads read
    rw [rest_ofTokens] at front
    refine .intro listed ?_
    rw [MapLiteral.typeTokens, type, Option.elim_some, ← front]
    exact whole
  · obtain ⟨absent, listed⟩ := listing_reads read
    refine .intro listed ?_
    rw [MapLiteral.typeTokens, absent]
    exact whole

theorem MapLiteral.parse_complete (written : m.Written ts) (stop : Span) :
    MapLiteral.parse stop ts = .ok m := by
  obtain ⟨type, listed, values, whole⟩ := written
  rename_i behind
  obtain ⟨type?, es⟩ := m
  dsimp only at type listed values
  have nested : Nested behind := by
    obtain ⟨-, rfl⟩ | listed := listed
    · exact .nil
    · exact listed.nested values
  have start : behind.head?.map Token.kind ≠ some .lbracket ∧ behind.head?.map Token.kind ≠ some .map ∧
      behind.head?.map Token.kind ≠ some .colon := by
    obtain ⟨-, rfl⟩ | listed := listed
    · simp
    · obtain ⟨key, colon, us, k, rfl, kind, -⟩ := listed.head
      obtain ⟨noBracket, noMap, noColon, -⟩ := keyKind?_other kind
      simp [noBracket, noMap, noColon]
  rw [MapLiteral.parse_eq]
  cases type? with
  | none =>
    rw [unwrapBrackets_complete nested start.1 whole stop]
    have noType : (ofTokens behind stop).peek.kind ≠ .map := by
      cases behind with
      | nil => exact fun starts => nomatch starts
      | cons first rest => exact fun keyword => start.2.1 (congrArg some keyword)
    rw [if_neg noType]
    exact listing_complete listed values stop
  | some t =>
    have type := type t rfl
    have ends : valueTypeLength 0 false behind = 0 := by
      obtain ⟨-, rfl⟩ | listed := listed
      · rfl
      · exact valueTypeLength_entries listed
    obtain ⟨rest, keyword, front, kind⟩ := type.head
    have other : (t.tokens ++ behind).head?.map Token.kind ≠ some .lbracket := by
      simp [front, kind]
    rw [unwrapBrackets_complete (nested_append type.nested nested) other whole stop]
    have typed : (ofTokens (t.tokens ++ behind) stop).peek.kind = .map := by
      rw [front]
      exact kind
    obtain ⟨c', parsed, rest⟩ := parseMapType_complete (c := ofTokens (t.tokens ++ behind) stop) type rfl
      start.2.2 ends
    rw [if_pos typed, parsed, ok_bind]
    dsimp only
    rw [rest]
    exact listing_complete listed values stop

/-- A map literal that is written with its parts told apart is read as it was written, and whatever is
read as a map literal is put together from all the tokens that there are. -/
theorem mapLiteral_lossless (ts : List Token) (m : MapLiteral) :
    (m.Written ts → ∀ stop, MapLiteral.parse stop ts = .ok m) ∧
      ∀ stop, MapLiteral.parse stop ts = .ok m → m.Composes ts :=
  ⟨fun written stop => MapLiteral.parse_complete written stop, fun _ read => MapLiteral.parse_reads read⟩

/-- Tokens without gaps. -/
def tokensOf (parts : List (TokenKind × String)) : List Token :=
  parts.map fun (kind, text) => ⟨kind, Text.utf8 text, .none, .none⟩

/-- What `[map[a]struct{}x:f(b,c),1:y,]` is read as. -/
def twoEntries : MapLiteral :=
  { type := some ⟨tokensOf [(.map, "map"), (.lbracket, "["), (.identifier, "a"), (.rbracket, "]"),
      (.keyword, "struct"), (.lbrace, "\x7b"), (.rbrace, "\x7d")]⟩
    entries :=
      [⟨.variable, ⟨.identifier, Text.utf8 "x", .none, .none⟩, ⟨tokensOf [(.identifier, "f"), (.lparen, "("),
        (.identifier, "b"), (.comma, ","), (.identifier, "c"), (.rparen, ")")]⟩⟩,
      ⟨.literal, ⟨.int, Text.utf8 "1", .none, .none⟩, ⟨tokensOf [(.identifier, "y")]⟩⟩] }

/-- A type that ends in braces, a value with a comma in parentheses, and a comma at the end. -/
theorem mapLiteral_lossless_twoEntries :
    let ts := tokensOf [(.lbracket, "["), (.map, "map"), (.lbracket, "["), (.identifier, "a"),
      (.rbracket, "]"), (.keyword, "struct"), (.lbrace, "\x7b"), (.rbrace, "\x7d"), (.identifier, "x"),
      (.colon, ":"), (.identifier, "f"), (.lparen, "("), (.identifier, "b"), (.comma, ","),
      (.identifier, "c"), (.rparen, ")"), (.comma, ","), (.int, "1"), (.colon, ":"), (.identifier, "y"),
      (.comma, ","), (.rbracket, "]")]
    twoEntries.Written ts ∧ MapLiteral.parse .none ts = .ok twoEntries ∧ twoEntries.Composes ts := by
  intro ts
  have accepts {e : Expression} (parsed : (parseExpression e.tokens .none).toOption = some e) : e.Accepted :=
    ⟨.none, eq_ok_of_toOption parsed⟩
  have call : Lacks .comma (tokensOf [(.identifier, "f"), (.lparen, "("), (.identifier, "b"), (.comma, ","),
      (.identifier, "c"), (.rparen, ")")]) :=
    .plain rfl rfl (by decide) (@Lacks.group .comma _ _ (tokensOf [(.identifier, "b"), (.comma, ","),
      (.identifier, "c")]) [] rfl (.plain rfl rfl (.plain rfl rfl (.plain rfl rfl .nil))) .nil)
  have braces : Lacks .colon (tokensOf [(.keyword, "struct"), (.lbrace, "\x7b"), (.rbrace, "\x7d")]) :=
    .plain rfl rfl (by decide) (@Lacks.group .colon _ _ [] [] rfl .nil .nil)
  have type : ∀ t ∈ twoEntries.type, MapType t := by
    rintro t ⟨⟩
    have key : Nested (tokensOf [(.identifier, "a")]) := .plain rfl rfl .nil
    exact .intro rfl rfl rfl key (by decide) braces (accepts (by decide +kernel)) rfl
  have values : ∀ e ∈ twoEntries.entries, Lacks .comma e.value.tokens ∧ e.value.Accepted := by
    rintro e (_ | ⟨_, _ | ⟨_, ⟨⟩⟩⟩)
    · exact ⟨call, accepts (by decide +kernel)⟩
    · exact ⟨.plain rfl rfl (by decide) .nil, accepts (by decide +kernel)⟩
  have mark {e : MapEntry} (key : keyKind? e.key = some e.kind) :
      e.Written (e.key :: ⟨.colon, Text.utf8 ":", .none, .none⟩ :: e.value.tokens) := .intro key rfl
  have comma : (⟨.comma, Text.utf8 ",", .none, .none⟩ : Token).kind = .comma := rfl
  have listed : Entries twoEntries.entries _ := .cons (mark rfl) comma (.closed (mark rfl) comma)
  have opens : (⟨.lbracket, Text.utf8 "[", .none, .none⟩ : Token).kind = .lbracket := rfl
  have closes : (⟨.rbracket, Text.utf8 "]", .none, .none⟩ : Token).kind = .rbracket := rfl
  have written : twoEntries.Written ts := .intro type (.inr listed) values (.within opens closes)
  have read := (mapLiteral_lossless ts twoEntries).1 written .none
  exact ⟨written, read, (mapLiteral_lossless ts twoEntries).2 .none read⟩

end Desugar.Form

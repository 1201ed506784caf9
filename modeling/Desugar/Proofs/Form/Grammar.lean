import Mathlib
import Desugar.Proofs.Expand.TopLevel
import Desugar.Proofs.Form.Parts

/-!
# Grammars of fixed forms

Five forms have a body of a fixed shape. The shapes are told here as relations between what is read and
the tokens it is read from: parentheses enclose tokens in which delimiters close in pairs, and an
expression is what the host accepts. The parsers succeed on these streams and on no others, and since
they read one value off a stream, a stream has one shape at most.
-/
namespace Desugar.Form

open Invocation Cursor

/-! ## Shapes -/

/-- Tokens between parentheses. -/
inductive Enclosed (inner : List Token) : List Token → Prop where
  | intro {opener closer : Token} (opens : opener.kind = .lparen) (closes : closer.kind = .rparen)
      (nested : Nested inner) : Enclosed inner (opener :: (inner ++ [closer]))

/-- An expression between parentheses, which the host accepts wherever it is reported. -/
structure Operand (e : Expression) (ts : List Token) : Prop where
  enclosed : Enclosed e.tokens ts
  accepted : ∀ place, parseExpression e.tokens place = .ok e

/-- An exclamation mark, or nothing. -/
inductive Negation : Bool → List Token → Prop where
  | absent : Negation false []
  | present {mark : Token} (kind : mark.kind = .not) : Negation true [mark]

/-- A name that can be assigned to. -/
structure IsTarget (t : Token) : Prop where
  kind : t.kind = .identifier
  named : t.literal ≠ [0x5F]

/-- `[!] (condition) ? (result) : (alternative)` -/
inductive Conditional.Written (e : Conditional) : List Token → Prop where
  | intro {sign condition result alternative : List Token} {question colon : Token}
      (negation : Negation e.negated sign) (first : Operand e.condition condition)
      (mark : question.kind = .question) (second : Operand e.result result)
      (separator : colon.kind = .colon) (third : Operand e.alternative alternative) :
      Written e (sign ++ (condition ++ question :: (result ++ colon :: alternative)))

/-- `[!] (condition) ?: (alternative)` -/
inductive Elvis.Written (e : Elvis) : List Token → Prop where
  | intro {sign condition alternative : List Token} {operator : Token}
      (negation : Negation e.negated sign) (first : Operand e.condition condition)
      (mark : operator.kind = .elvis) (second : Operand e.alternative alternative) :
      Written e (sign ++ (condition ++ operator :: alternative))

/-- `[!] (name) ?= (alternative)` -/
inductive ElvisAssign.Written (e : ElvisAssign) : List Token → Prop where
  | intro {sign name alternative : List Token} {operator : Token}
      (negation : Negation e.negated sign) (first : Enclosed [e.target] name)
      (target : IsTarget e.target) (mark : operator.kind = .elvisAssign)
      (second : Operand e.alternative alternative) :
      Written e (sign ++ (name ++ operator :: alternative))

/-- `name ++` or `name --` -/
inductive IncDec.Written (e : IncDec) : List Token → Prop where
  | intro {operator : Token} (target : IsTarget e.name)
      (mark : operator.kind = if e.increment then .increment else .decrement) :
      Written e [e.name, operator]

/-- Any number of `*. name`. -/
inductive Fields : List Token → List Token → Prop where
  | nil : Fields [] []
  | cons {dot field : Token} {fields ts : List Token} (mark : dot.kind = .spreadDot)
      (kind : field.kind = .identifier) : Fields fields ts → Fields (field :: fields) (dot :: field :: ts)

/-- `(iterable) *. name …` -/
inductive Spread.Written (e : Spread) : List Token → Prop where
  | intro {iterable fields : List Token} (first : Operand e.iterable iterable)
      (rest : Fields e.fields fields) : Written e (iterable ++ fields)

/-- A parser that succeeds on the streams of one shape only, with the value that the stream is written
from; a stream is written from one value at most. -/
structure ReadsExactly {α : Type} (parse : Span → List Token → Except Failure α)
    (Written : α → List Token → Prop) (ts : List Token) : Prop where
  accepts : ∀ stop a, parse stop ts = .ok a ↔ Written a ts
  unique : ∀ a b, Written a ts → Written b ts → a = b

/-! ## Steps of a cursor -/

variable {c c' : Cursor} {ts rest inside : List Token} {stop place : Span} {t : Token}

theorem rest_ofTokens (ts : List Token) (stop : Span) : (ofTokens ts stop).rest = ts := rfl

@[simp] theorem lift_ok {α : Type} (a : α) : lift (.ok a) = .ok a := rfl

@[simp] theorem ok_bind {α β : Type} (a : α) (f : α → Except Failure β) : (.ok a >>= f) = f a := rfl

theorem peek_of_nil (empty : c.rest = []) : c.peek = .endMark c.stop := by
  simp [peek, peekAt, empty]

theorem peek_of_cons (front : c.rest = t :: rest) : c.peek = t := by
  simp [peek, peekAt, front]

theorem expect_reads {k : TokenKind} (taken : c.expect k = .ok (t, c')) (proper : k ≠ .eof) :
    c.rest = t :: c'.rest ∧ t.kind = k := by
  unfold expect next at taken
  dsimp only at taken
  split at taken
  · rename_i kind
    obtain ⟨rfl, rfl⟩ := Prod.mk.inj (Except.ok.inj taken)
    cases front : c.rest with
    | nil =>
      rw [peek_of_nil front] at kind
      exact absurd kind.symm proper
    | cons first rest =>
      constructor
      · simp [peek_of_cons front, moveTo]
      · exact kind
  · cases taken

theorem expect_complete {k : TokenKind} (kind : t.kind = k) (front : c.rest = t :: rest) :
    ∃ c', c.expect k = .ok (t, c') ∧ c'.rest = rest := by
  refine ⟨c.moveTo rest, ?_, rfl⟩
  simp [expect, next, peek_of_cons front, front, kind]

/-- Where the end mark is no token, nothing is left at the end. -/
theorem expectEnd_iff (proper : ∀ t ∈ c.rest, t.kind ≠ .eof) : c.expectEnd = .ok () ↔ c.rest = [] := by
  cases front : c.rest with
  | nil => simp [expectEnd, peek_of_nil front, Token.endMark]
  | cons first rest => simp [expectEnd, peek_of_cons front, proper first (by simp [front])]

/-- Groups are closed as invocations are. -/
theorem groupBody_iff {closer want : TokenKind} {opened outer : List TokenKind} {inner : List Token}
    (stack : opened ++ [closer] = want :: outer) :
    groupBody closer stop opened inner ts = (.ok inside, rest) ↔
      ∃ body last, closing want outer ts = .ok (some (body, last, rest)) ∧
        inside = inner.reverse ++ body := by
  induction ts generalizing opened inner want outer with
  | nil => simp [groupBody, closing]
  | cons t ts ih =>
    -- A token that closes nothing outside is read by both, and becomes part of the body.
    have further {opened : List TokenKind} {want : TokenKind} {outer : List TokenKind}
        (stack : opened ++ [closer] = want :: outer) :
        groupBody closer stop opened (t :: inner) ts = (.ok inside, rest) ↔
          ∃ body last, prepend t (closing want outer ts) = .ok (some (body, last, rest)) ∧
            inside = inner.reverse ++ body := by
      rw [ih stack]
      constructor
      · rintro ⟨body, last, found, rfl⟩
        exact ⟨t :: body, last, by simp [found, prepend, Except.map], by simp⟩
      · rintro ⟨body, last, found, rfl⟩
        obtain ⟨front, rfl, behind⟩ := prepend_eq_ok found
        exact ⟨front, last, behind, by simp⟩
    cases opens : t.kind.closer? with
    | some k =>
      rw [closing_opener opens, ← further (by simp [stack] : (k :: opened) ++ [closer] = _)]
      simp [groupBody, opens]
    | none =>
      cases closes : t.kind.isClose with
      | false =>
        rw [closing_plain opens closes, ← further stack]
        simp [groupBody, opens, closes]
      | true =>
        cases opened with
        | nil =>
          obtain ⟨rfl, rfl⟩ := List.cons.inj stack
          by_cases same : t.kind = closer
          · subst same
            simp [groupBody, opens, closes, closing_last closes, eq_comm, and_comm]
          · simp [groupBody, opens, closes, closing_wrong closes same, same]
        | cons next opened =>
          obtain ⟨rfl, behind⟩ := List.cons.inj stack
          by_cases same : t.kind = next
          · subst same
            cases outer with
            | nil => simp at behind
            | cons want outer =>
              rw [closing_inner closes, ← further behind]
              simp [groupBody, opens, closes]
          · simp [groupBody, opens, closes, closing_wrong closes same, same]

/-- A delimiter is closed behind nested tokens, and nowhere else. -/
theorem groupBody_closed_iff {closer : TokenKind} (isClose : closer.isClose = true) :
    groupBody closer stop [] [] ts = (.ok inside, rest) ↔
      ∃ last, Nested inside ∧ last.kind = closer ∧ ts = inside ++ last :: rest := by
  rw [groupBody_iff (List.nil_append _)]
  constructor
  · rintro ⟨body, last, found, rfl⟩
    obtain ⟨rfl, -, closes⟩ := closes_of_closing found
    obtain ⟨nested, kind⟩ := closes.of_last
    exact ⟨last, nested, kind, rfl⟩
  · rintro ⟨last, nested, rfl, rfl⟩
    exact ⟨inside, last, closing_of_nested nested isClose rest, rfl⟩

/-- A group is a delimiter, nested tokens and the delimiter that closes it. -/
theorem group_iff {k closer : TokenKind} (pair : k.closer? = some closer) :
    (c.group k).inner = .ok inside ∧ (c.group k).cursor.rest = rest ↔
      ∃ opener last, opener.kind = k ∧ last.kind = closer ∧ Nested inside ∧
        c.rest = opener :: (inside ++ last :: rest) := by
  have isClose := (closer_of_closer? pair).1
  constructor
  · rintro ⟨inner, rfl⟩
    unfold group at inner ⊢
    split at inner
    · cases inner
    · rename_i opener c' expected
      obtain ⟨front, opens⟩ := expect_reads expected (by rintro rfl; cases pair)
      generalize read : groupBody closer c'.stop [] [] c'.rest = body
      obtain ⟨found, rest⟩ := body
      simp only [pair, Option.getD_some, read] at inner ⊢
      subst inner
      obtain ⟨last, nested, closes, split⟩ := (groupBody_closed_iff isClose).mp read
      exact ⟨opener, last, opens, closes, nested, by simp [front, split, moveTo]⟩
  · rintro ⟨opener, last, opens, closes, nested, front⟩
    obtain ⟨c', expected, behind⟩ := expect_complete opens front
    have read : groupBody closer c'.stop [] [] c'.rest = (.ok inside, rest) :=
      (groupBody_closed_iff isClose).mpr ⟨last, nested, closes, behind⟩
    constructor
    · simp [group, expected, pair, read]
    · simp [group, expected, pair, read, moveTo]

theorem group_reads (inner : (c.group .lparen).inner = .ok inside) :
    ∃ word, Enclosed inside word ∧ c.rest = word ++ (c.group .lparen).cursor.rest := by
  obtain ⟨opener, last, opens, closes, nested, front⟩ := (group_iff rfl).mp ⟨inner, rfl⟩
  exact ⟨_, .intro opens closes nested, by simp [front]⟩

theorem group_complete {word : List Token} (enclosed : Enclosed inside word)
    (front : c.rest = word ++ rest) :
    (c.group .lparen).inner = .ok inside ∧ (c.group .lparen).cursor.rest = rest := by
  cases enclosed with
  | @intro opener closer opens closes nested =>
    exact (group_iff rfl).mpr ⟨opener, closer, opens, closes, nested, by simp [front]⟩

/-- The place is for complaints only. -/
theorem parseExpression_anywhere {e : Expression} (parsed : parseExpression ts place = .ok e)
    (place' : Span) : parseExpression ts place' = .ok e := by
  cases ts with
  | nil => cases parsed
  | cons first more => exact parsed

theorem parenthesized_reads {e : Expression} (parsed : parenthesized c = .ok (e, c')) :
    ∃ word, Operand e word ∧ c.rest = word ++ c'.rest := by
  obtain ⟨inside, inner, parsed⟩ := bind_eq_ok parsed
  obtain ⟨e', accepted, parsed⟩ := bind_eq_ok parsed
  obtain ⟨rfl, rfl⟩ := Prod.mk.inj (Except.ok.inj parsed)
  obtain ⟨word, enclosed, front⟩ := group_reads (lift_eq_ok inner)
  obtain ⟨rfl, -⟩ := parseExpression_part accepted
  exact ⟨word, ⟨enclosed, parseExpression_anywhere accepted⟩, front⟩

theorem parenthesized_complete {e : Expression} {word : List Token} (operand : Operand e word)
    (front : c.rest = word ++ rest) :
    ∃ c', parenthesized c = .ok (e, c') ∧ c'.rest = rest := by
  obtain ⟨inner, behind⟩ := group_complete operand.enclosed front
  refine ⟨(c.group .lparen).cursor, ?_, behind⟩
  simp [parenthesized, inner, operand.accepted]

theorem parseIdentifier_iff : parseIdentifier ts place = .ok t ↔ ts = [t] ∧ IsTarget t := by
  constructor
  · intro parsed
    obtain ⟨rfl, kind⟩ := parseIdentifier_eq parsed
    refine ⟨rfl, kind, fun blank => ?_⟩
    simp [parseIdentifier, kind, blank] at parsed
  · rintro ⟨rfl, kind, named⟩
    simp [parseIdentifier, kind, named]

theorem negation_reads {negated : Bool} (read : negation c = (negated, c')) :
    ∃ sign, Negation negated sign ∧ c.rest = sign ++ c'.rest := by
  unfold negation accept next at read
  by_cases mark : c.peek.kind = .not
  · cases front : c.rest with
    | nil => simp [peek_of_nil front, Token.endMark] at mark
    | cons first rest =>
      rw [if_pos mark] at read
      obtain ⟨rfl, rfl⟩ := Prod.mk.inj read
      rw [peek_of_cons front] at mark
      exact ⟨[first], .present mark, by simp [moveTo, front]⟩
  · rw [if_neg mark] at read
    obtain ⟨rfl, rfl⟩ := Prod.mk.inj read
    exact ⟨[], .absent, rfl⟩

theorem negation_complete {negated : Bool} {sign : List Token} (shape : Negation negated sign)
    (front : c.rest = sign ++ rest) (other : rest.head?.map Token.kind ≠ some .not) :
    ∃ c', negation c = (negated, c') ∧ c'.rest = rest := by
  cases shape with
  | absent =>
    rw [List.nil_append] at front
    refine ⟨c, ?_, front⟩
    cases rest with
    | nil => simp [negation, accept, peek_of_nil front, Token.endMark]
    | cons t rest =>
      have unmarked : t.kind ≠ .not := by simpa using other
      simp [negation, accept, peek_of_cons front, unmarked]
  | present kind =>
    rw [List.singleton_append] at front
    exact ⟨c.next.2, by simp [negation, accept, peek_of_cons front, kind], by simp [next, front, moveTo]⟩

theorem parseFields_reads {fields : List Token} (parsed : parseFields stop ts = .ok (fields, rest)) :
    ∃ front, Fields fields front ∧ ts = front ++ rest := by
  fun_induction parseFields stop ts generalizing fields with
  | case1 =>
    obtain ⟨rfl, rfl⟩ := Prod.mk.inj (Except.ok.inj parsed)
    exact ⟨[], .nil, rfl⟩
  | case2 => cases parsed
  | case3 dot mark field ts kind ih =>
    obtain ⟨⟨more, left⟩, behind, parsed⟩ := bind_eq_ok parsed
    obtain ⟨rfl, rfl⟩ := Prod.mk.inj (Except.ok.inj parsed)
    obtain ⟨front, shape, rfl⟩ := ih behind
    exact ⟨dot :: field :: front, .cons mark kind shape, rfl⟩
  | case4 => cases parsed
  | case5 =>
    obtain ⟨rfl, rfl⟩ := Prod.mk.inj (Except.ok.inj parsed)
    exact ⟨[], .nil, rfl⟩

theorem parseFields_complete {fields : List Token} (shape : Fields fields ts) (stop : Span) :
    parseFields stop ts = .ok (fields, []) := by
  induction shape with
  | nil => simp [parseFields]
  | cons mark kind _ ih => simp [parseFields, mark, kind, ih]

/-! ## The five grammars -/

/-- What is left is nothing once the end has been seen. -/
theorem append_of_expectEnd {front : List Token} (proper : ∀ t ∈ ts, t.kind ≠ .eof)
    (whole : ts = front ++ c.rest) (ended : lift c.expectEnd = .ok ()) : ts = front := by
  have empty := (expectEnd_iff fun t left => proper t (by simp [whole, left])).mp (lift_eq_ok ended)
  rw [whole, empty, List.append_nil]

theorem lift_expectEnd (empty : c.rest = []) : lift c.expectEnd = .ok () := by
  rw [(expectEnd_iff (by simp [empty])).mpr empty]
  rfl

theorem Enclosed.head_ne_not {word : List Token} (enclosed : Enclosed inside word) (rest : List Token) :
    (word ++ rest).head?.map Token.kind ≠ some .not := by
  cases enclosed with
  | intro opens => simp [opens]

theorem Conditional.parse_iff {e : Conditional} (proper : ∀ t ∈ ts, t.kind ≠ .eof) :
    Conditional.parse stop ts = .ok e ↔ e.Written ts := by
  unfold Conditional.parse
  constructor
  · intro parsed
    generalize read : negation (.ofTokens ts stop) = n at parsed
    obtain ⟨negated, c₀⟩ := n
    obtain ⟨⟨condition, c₁⟩, first, parsed⟩ := bind_eq_ok parsed
    obtain ⟨⟨question, c₂⟩, mark, parsed⟩ := bind_eq_ok parsed
    obtain ⟨⟨result, c₃⟩, second, parsed⟩ := bind_eq_ok parsed
    obtain ⟨⟨colon, c₄⟩, separator, parsed⟩ := bind_eq_ok parsed
    obtain ⟨⟨alternative, c₅⟩, third, parsed⟩ := bind_eq_ok parsed
    obtain ⟨⟨⟩, ended, parsed⟩ := bind_eq_ok parsed
    obtain rfl := Except.ok.inj parsed
    obtain ⟨sign, negation, front₀⟩ := negation_reads read
    obtain ⟨w₁, operand₁, front₁⟩ := parenthesized_reads first
    obtain ⟨front₂, kind₂⟩ := expect_reads (lift_eq_ok mark) (by decide)
    obtain ⟨w₃, operand₃, front₃⟩ := parenthesized_reads second
    obtain ⟨front₄, kind₄⟩ := expect_reads (lift_eq_ok separator) (by decide)
    obtain ⟨w₅, operand₅, front₅⟩ := parenthesized_reads third
    have whole : (ofTokens ts stop).rest =
        (sign ++ (w₁ ++ question :: (w₃ ++ colon :: w₅))) ++ c₅.rest := by
      simp [front₀, front₁, front₂, front₃, front₄, front₅]
    rw [append_of_expectEnd proper whole ended]
    exact .intro negation operand₁ kind₂ operand₃ kind₄ operand₅
  · rintro ⟨negation, first, mark, second, separator, third⟩
    obtain ⟨c₀, read, rest₀⟩ := negation_complete (c := ofTokens _ stop) negation (rest_ofTokens _ _)
      (first.enclosed.head_ne_not _)
    obtain ⟨c₁, parsed₁, rest₁⟩ := parenthesized_complete first rest₀
    obtain ⟨c₂, expected₂, rest₂⟩ := expect_complete mark rest₁
    obtain ⟨c₃, parsed₃, rest₃⟩ := parenthesized_complete second rest₂
    obtain ⟨c₄, expected₄, rest₄⟩ := expect_complete separator rest₃
    obtain ⟨c₅, parsed₅, rest₅⟩ := parenthesized_complete third (rest₄.trans (List.append_nil _).symm)
    simp [read, parsed₁, expected₂, parsed₃, expected₄, parsed₅, lift_expectEnd rest₅]

theorem Elvis.parse_iff {e : Elvis} (proper : ∀ t ∈ ts, t.kind ≠ .eof) :
    Elvis.parse stop ts = .ok e ↔ e.Written ts := by
  unfold Elvis.parse
  constructor
  · intro parsed
    generalize read : negation (.ofTokens ts stop) = n at parsed
    obtain ⟨negated, c₀⟩ := n
    obtain ⟨⟨condition, c₁⟩, first, parsed⟩ := bind_eq_ok parsed
    obtain ⟨⟨operator, c₂⟩, mark, parsed⟩ := bind_eq_ok parsed
    obtain ⟨⟨alternative, c₃⟩, second, parsed⟩ := bind_eq_ok parsed
    obtain ⟨⟨⟩, ended, parsed⟩ := bind_eq_ok parsed
    obtain rfl := Except.ok.inj parsed
    obtain ⟨sign, negation, front₀⟩ := negation_reads read
    obtain ⟨w₁, operand₁, front₁⟩ := parenthesized_reads first
    obtain ⟨front₂, kind₂⟩ := expect_reads (lift_eq_ok mark) (by decide)
    obtain ⟨w₃, operand₃, front₃⟩ := parenthesized_reads second
    have whole : (ofTokens ts stop).rest = (sign ++ (w₁ ++ operator :: w₃)) ++ c₃.rest := by
      simp [front₀, front₁, front₂, front₃]
    rw [append_of_expectEnd proper whole ended]
    exact .intro negation operand₁ kind₂ operand₃
  · rintro ⟨negation, first, mark, second⟩
    obtain ⟨c₀, read, rest₀⟩ := negation_complete (c := ofTokens _ stop) negation (rest_ofTokens _ _)
      (first.enclosed.head_ne_not _)
    obtain ⟨c₁, parsed₁, rest₁⟩ := parenthesized_complete first rest₀
    obtain ⟨c₂, expected₂, rest₂⟩ := expect_complete mark rest₁
    obtain ⟨c₃, parsed₃, rest₃⟩ := parenthesized_complete second (rest₂.trans (List.append_nil _).symm)
    simp [read, parsed₁, expected₂, parsed₃, lift_expectEnd rest₃]

theorem ElvisAssign.parse_iff {e : ElvisAssign} (proper : ∀ t ∈ ts, t.kind ≠ .eof) :
    ElvisAssign.parse stop ts = .ok e ↔ e.Written ts := by
  unfold ElvisAssign.parse
  constructor
  · intro parsed
    generalize read : negation (.ofTokens ts stop) = n at parsed
    obtain ⟨negated, c₀⟩ := n
    obtain ⟨inside, inner, parsed⟩ := bind_eq_ok parsed
    obtain ⟨target, named, parsed⟩ := bind_eq_ok parsed
    obtain ⟨⟨operator, c₂⟩, mark, parsed⟩ := bind_eq_ok parsed
    obtain ⟨⟨alternative, c₃⟩, second, parsed⟩ := bind_eq_ok parsed
    obtain ⟨⟨⟩, ended, parsed⟩ := bind_eq_ok parsed
    obtain rfl := Except.ok.inj parsed
    obtain ⟨sign, negation, front₀⟩ := negation_reads read
    obtain ⟨w₁, enclosed, front₁⟩ := group_reads (lift_eq_ok inner)
    obtain ⟨rfl, isTarget⟩ := parseIdentifier_iff.mp named
    obtain ⟨front₂, kind₂⟩ := expect_reads (lift_eq_ok mark) (by decide)
    obtain ⟨w₃, operand₃, front₃⟩ := parenthesized_reads second
    have whole : (ofTokens ts stop).rest = (sign ++ (w₁ ++ operator :: w₃)) ++ c₃.rest := by
      simp [front₀, front₁, front₂, front₃]
    rw [append_of_expectEnd proper whole ended]
    exact .intro negation enclosed isTarget kind₂ operand₃
  · rintro ⟨negation, enclosed, target, mark, second⟩
    obtain ⟨c₀, read, rest₀⟩ := negation_complete (c := ofTokens _ stop) negation (rest_ofTokens _ _)
      (enclosed.head_ne_not _)
    obtain ⟨inner, rest₁⟩ := group_complete enclosed rest₀
    have named (place : Span) : parseIdentifier [e.target] place = .ok e.target :=
      parseIdentifier_iff.mpr ⟨rfl, target⟩
    obtain ⟨c₂, expected₂, rest₂⟩ := expect_complete mark rest₁
    obtain ⟨c₃, parsed₃, rest₃⟩ := parenthesized_complete second (rest₂.trans (List.append_nil _).symm)
    simp [read, inner, named, expected₂, parsed₃, lift_expectEnd rest₃]

theorem IncDec.parse_reads {e : IncDec} (parsed : IncDec.parse stop ts = .ok e) :
    ∃ (operator : Token) (c : Cursor), ts = [e.name, operator] ++ c.rest ∧ IsTarget e.name ∧
      operator.kind = (if e.increment then .increment else .decrement) ∧
        lift c.expectEnd = .ok () := by
  unfold IncDec.parse at parsed
  dsimp only at parsed
  obtain ⟨name, named, parsed⟩ := bind_eq_ok parsed
  obtain ⟨first, target⟩ := parseIdentifier_iff.mp named
  -- The end mark is neither a name nor an operator, so two tokens have been read.
  rcases ts with _ | ⟨name', _ | ⟨operator, left⟩⟩
  · obtain rfl := List.head_eq_of_cons_eq first
    cases target.kind
  · cases parsed
  · obtain rfl : name' = name := List.head_eq_of_cons_eq first
    refine ⟨operator, ((ofTokens (name' :: operator :: left) stop).next.2).next.2, ?_⟩
    split at parsed
    · rename_i kind
      obtain ⟨increment, chosen, parsed⟩ := bind_eq_ok parsed
      obtain ⟨⟨⟩, ended, parsed⟩ := bind_eq_ok parsed
      obtain rfl := Except.ok.inj chosen
      obtain rfl := Except.ok.inj parsed
      exact ⟨rfl, target, kind, ended⟩
    · rename_i kind
      obtain ⟨increment, chosen, parsed⟩ := bind_eq_ok parsed
      obtain ⟨⟨⟩, ended, parsed⟩ := bind_eq_ok parsed
      obtain rfl := Except.ok.inj chosen
      obtain rfl := Except.ok.inj parsed
      exact ⟨rfl, target, kind, ended⟩
    · cases parsed

theorem IncDec.parse_iff {e : IncDec} (proper : ∀ t ∈ ts, t.kind ≠ .eof) :
    IncDec.parse stop ts = .ok e ↔ e.Written ts := by
  constructor
  · intro parsed
    obtain ⟨operator, c, whole, target, kind, ended⟩ := IncDec.parse_reads parsed
    rw [append_of_expectEnd proper whole ended]
    exact .intro target kind
  · intro written
    cases written with
    | @intro operator target mark =>
      have named (place : Span) : parseIdentifier [e.name] place = .ok e.name :=
        parseIdentifier_iff.mpr ⟨rfl, target⟩
      obtain ⟨name, increment⟩ := e
      cases increment <;>
        simp_all [IncDec.parse, next, peek, peekAt, ofTokens, moveTo, lift_expectEnd]

theorem Spread.parse_iff {e : Spread} (proper : ∀ t ∈ ts, t.kind ≠ .eof) :
    Spread.parse stop ts = .ok e ↔ e.Written ts := by
  unfold Spread.parse
  constructor
  · intro parsed
    obtain ⟨⟨iterable, c₁⟩, first, parsed⟩ := bind_eq_ok parsed
    obtain ⟨⟨fields, left⟩, behind, parsed⟩ := bind_eq_ok parsed
    obtain ⟨⟨⟩, ended, parsed⟩ := bind_eq_ok parsed
    obtain rfl := Except.ok.inj parsed
    obtain ⟨w₁, operand₁, front₁⟩ := parenthesized_reads first
    obtain ⟨w₂, fields₂, front₂⟩ := parseFields_reads behind
    have whole : (ofTokens ts stop).rest = (w₁ ++ w₂) ++ (ofTokens left stop).rest := by
      simp [front₁, front₂, rest_ofTokens]
    rw [append_of_expectEnd proper whole ended]
    exact .intro operand₁ fields₂
  · rintro @⟨iterable, fields, first, rest⟩
    obtain ⟨c₁, parsed₁, rest₁⟩ := parenthesized_complete first (rest_ofTokens (iterable ++ fields) stop)
    simp [parsed₁, rest₁, parseFields_complete rest stop, lift_expectEnd (rest_ofTokens [] stop)]

theorem ReadsExactly.of_iff {α : Type} {parse : Span → List Token → Except Failure α}
    {Written : α → List Token → Prop} (exact : ∀ stop a, parse stop ts = .ok a ↔ Written a ts) :
    ReadsExactly parse Written ts where
  accepts := exact
  unique a b first second := by
    have same := (exact .none a).mpr first
    rw [(exact .none b).mpr second] at same
    exact (Except.ok.inj same).symm

/-- The forms of fixed shape are read from the streams of their shape and from no others, and a stream
is taken apart in one way only. -/
theorem fixed_grammars_exact {ts : List Token} (proper : ∀ t ∈ ts, t.kind ≠ .eof) :
    ReadsExactly Conditional.parse Conditional.Written ts ∧
    ReadsExactly Elvis.parse Elvis.Written ts ∧
    ReadsExactly ElvisAssign.parse ElvisAssign.Written ts ∧
    ReadsExactly IncDec.parse IncDec.Written ts ∧
    ReadsExactly Spread.parse Spread.Written ts := by
  refine ⟨.of_iff ?_, .of_iff ?_, .of_iff ?_, .of_iff ?_, .of_iff ?_⟩
  · exact fun _ _ => Conditional.parse_iff proper
  · exact fun _ _ => Elvis.parse_iff proper
  · exact fun _ _ => ElvisAssign.parse_iff proper
  · exact fun _ _ => IncDec.parse_iff proper
  · exact fun _ _ => Spread.parse_iff proper

/-- The tokens of `!(x)?=(y)`. -/
def assignment : List Token :=
  [(.not, "!"), (.lparen, "("), (.identifier, "x"), (.rparen, ")"), (.elvisAssign, "?="), (.lparen, "("),
    (.identifier, "y"), (.rparen, ")")].map fun (kind, text) => ⟨kind, Text.utf8 text, .none, .none⟩

theorem fixed_grammars_exact_assignment : (∀ t ∈ assignment, t.kind ≠ .eof) ∧
    ElvisAssign.Written ⟨⟨.identifier, Text.utf8 "x", .none, .none⟩,
      ⟨[⟨.identifier, Text.utf8 "y", .none, .none⟩]⟩, true⟩ assignment := by
  have proper : ∀ t ∈ assignment, t.kind ≠ .eof := by decide
  refine ⟨proper, ((fixed_grammars_exact proper).2.2.1.accepts .none _).mp ?_⟩
  cbv

end Desugar.Form

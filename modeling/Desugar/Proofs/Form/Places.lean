import Desugar.Proofs.Form.Offsets
import Desugar.Proofs.Form.Parts

/-!
# Places of complaints and of output

Whatever a form but the interpolation complains about, and wherever the tokens that it emits stand, is
within the range of offsets that the tokens of its body and its invocation stand in. Complaints are placed
at a token, at the end of the invocation, or from one token to another; code stands at the invocation.
Interpolations are apart: their markers have places of their own inside of a literal.
-/
namespace Desugar

variable {file : String} {lo hi : Int}

/-- A valid span of a file between two offsets. -/
structure Span.Within (file : String) (lo hi : Int) (s : Span) : Prop where
  valid : s.isValid = true
  of : s.start.file = file
  start : lo ≤ s.start.offset
  stop : s.stop.offset ≤ hi

namespace Span.Within

variable {s t : Span}

theorem union (first : s.Within file lo hi) (second : t.Within file lo hi) :
    (s.union t).Within file lo hi := by
  have valid := first.valid
  have valid' := second.valid
  have same : s.start.file = t.start.file := first.of.trans second.of.symm
  simp only [isValid, Bool.and_eq_true, decide_eq_true_eq] at valid valid'
  obtain ⟨⟨⟨starts, stops⟩, file₁⟩, order₁⟩ := valid
  obtain ⟨⟨⟨starts', stops'⟩, file₂⟩, order₂⟩ := valid'
  have := first.start
  have := first.stop
  have := second.start
  have := second.stop
  have ends : t.stop.file = s.stop.file := by rw [← file₁, ← file₂, same]
  have shape : s.union t = ⟨if t.start.offset < s.start.offset then t.start else s.start,
      if s.stop.offset < t.stop.offset then t.stop else s.stop⟩ := by
    simp [Span.union, first.valid, second.valid, same, Position.after, Position.before, ends]
  rw [shape]
  constructor
  · simp only [isValid, Bool.and_eq_true, decide_eq_true_eq]
    split <;> split <;> simp_all <;> omega
  · dsimp only
    split
    · exact second.of
    · exact first.of
  · dsimp only
    split <;> omega
  · dsimp only
    split <;> omega

/-- The place behind a span. -/
theorem behind (h : s.Within file lo hi) : (Span.point s.stop).Within file lo hi := by
  have valid := h.valid
  simp only [isValid, Bool.and_eq_true, decide_eq_true_eq] at valid
  obtain ⟨⟨⟨starts, stops⟩, same⟩, order⟩ := valid
  refine ⟨?_, same.symm.trans h.of, ?_, h.stop⟩
  · simp [point, isValid, stops]
  · exact Int.le_trans h.start order

end Span.Within

/-- Tokens that stand in a range. -/
def AllWithin (file : String) (lo hi : Int) (ts : List Token) : Prop :=
  ∀ t ∈ ts, t.span.Within file lo hi

theorem AllWithin.mono {ts us : List Token} (h : AllWithin file lo hi ts) (part : us ⊆ ts) :
    AllWithin file lo hi us := fun t member => h t (part member)

theorem allWithin_cons {t : Token} {ts : List Token} : AllWithin file lo hi (t :: ts) ↔
    t.span.Within file lo hi ∧ AllWithin file lo hi ts := List.forall_mem_cons

theorem spanOf_within {ts : List Token} (nonempty : ts ≠ []) (all : AllWithin file lo hi ts) :
    (spanOf ts).Within file lo hi := by
  unfold spanOf
  rw [List.head?_eq_some_head nonempty, List.getLast?_eq_some_getLast nonempty]
  exact (all _ (List.head_mem nonempty)).union (all _ (List.getLast_mem nonempty))

/-- What comes of a computation: a result of some kind, or a failure all of whose diagnostics stand in a
range. -/
def EndsIn {α : Type} (file : String) (lo hi : Int) (result : α → Prop) : Except Failure α → Prop
  | .ok a => result a
  | .error f => ∀ d ∈ f.toDiagnostics, d.span.Within file lo hi

namespace EndsIn

variable {α β : Type} {result : α → Prop} {other : β → Prop}

theorem ok {a : α} (h : result a) : EndsIn file lo hi result (.ok a) := h

theorem diagnostic {d : Diagnostic} (h : d.span.Within file lo hi) :
    EndsIn file lo hi result (.error (.diagnostic d)) := by
  intro e member
  obtain rfl := List.mem_singleton.mp member
  exact h

theorem bind {x : Except Failure α} {f : α → Except Failure β} (first : EndsIn file lo hi result x)
    (second : ∀ a, result a → EndsIn file lo hi other (f a)) : EndsIn file lo hi other (x >>= f) := by
  cases x with
  | error e => exact first
  | ok a => exact second a first

theorem map {x : Except Failure α} {f : α → β} (h : EndsIn file lo hi result x)
    (each : ∀ a, result a → other (f a)) : EndsIn file lo hi other (x.map f) := by
  cases x with
  | error e => exact h
  | ok a => exact each a h

end EndsIn

/-! ## Reading -/

namespace Cursor

/-- What is left to be read stands in a range, and so does what is missing. -/
structure Within (file : String) (lo hi : Int) (c : Cursor) : Prop where
  rest : AllWithin file lo hi c.rest
  stop : c.stop.Within file lo hi

variable {c : Cursor} {k : TokenKind}

theorem Within.peek (h : c.Within file lo hi) : c.peek.span.Within file lo hi := by
  cases front : c.rest with
  | nil => simpa [Cursor.peek, peekAt, front, Token.endMark] using h.stop
  | cons t rest =>
    have here := h.rest t (by simp [front])
    simpa [Cursor.peek, peekAt, front] using here

theorem Within.moveTo (h : c.Within file lo hi) {rest : List Token} (part : rest ⊆ c.rest) :
    (c.moveTo rest).Within file lo hi := ⟨h.rest.mono part, h.stop⟩

theorem Within.next (h : c.Within file lo hi) : c.next.2.Within file lo hi :=
  h.moveTo (List.tail_subset c.rest)

theorem groupBody_within {closer : TokenKind} {stop : Span} {open_ : List TokenKind}
    {inner ts : List Token} (past : stop.Within file lo hi) (before : AllWithin file lo hi inner)
    (all : AllWithin file lo hi ts) :
    EndsIn file lo hi (AllWithin file lo hi) (Form.lift (groupBody closer stop open_ inner ts).1) ∧
      AllWithin file lo hi (groupBody closer stop open_ inner ts).2 := by
  induction ts generalizing open_ inner with
  | nil =>
    unfold groupBody
    exact ⟨.diagnostic past, by simp [AllWithin]⟩
  | cons t ts ih =>
    obtain ⟨here, later⟩ := allWithin_cons.mp all
    have taken : AllWithin file lo hi (t :: inner) := allWithin_cons.mpr ⟨here, before⟩
    unfold groupBody
    split
    · exact ih taken later
    · split
      · split
        · split
          · exact ⟨fun u member => before u (List.mem_reverse.mp member), later⟩
          · exact ⟨.diagnostic here, all⟩
        · split
          · exact ih taken later
          · exact ⟨.diagnostic here, all⟩
      · exact ih taken later

/-- What a group gives: where it opens, what is inside and what is left. -/
theorem Within.group (h : c.Within file lo hi) : (c.group k).opening.span.Within file lo hi ∧
    EndsIn file lo hi (AllWithin file lo hi) (Form.lift (c.group k).inner) ∧
      (c.group k).cursor.Within file lo hi := by
  unfold Cursor.group expect
  dsimp only
  by_cases kind : c.peek.kind = k
  · rw [if_pos kind]
    have inside := @groupBody_within file lo hi (k.closer?.getD .eof) _ [] [] _
      h.next.stop (by simp [AllWithin]) h.next.rest
    exact ⟨h.peek, inside.1, inside.2, h.stop⟩
  · rw [if_neg kind]
    exact ⟨h.peek, .diagnostic h.peek, h⟩

end Cursor

namespace Form

open Cursor

variable {c : Cursor} {ts : List Token} {stop place : Span}

theorem expect_ends (h : c.Within file lo hi) (k : TokenKind) :
    EndsIn file lo hi (fun r => r.1.span.Within file lo hi ∧ r.2.Within file lo hi)
      (lift (c.expect k)) := by
  unfold expect
  dsimp only
  split
  · exact ⟨h.peek, h.next⟩
  · exact .diagnostic h.peek

theorem expectEnd_ends (h : c.Within file lo hi) :
    EndsIn file lo hi (fun _ => True) (lift c.expectEnd) := by
  unfold expectEnd
  dsimp only
  split
  · trivial
  · exact .diagnostic h.peek

theorem spanAt_within (nonempty : ts ≠ []) (all : AllWithin file lo hi ts) (offset : Int) :
    (spanAt ts offset).Within file lo hi := by
  obtain ⟨t, member, on | behind⟩ := spanAt_mem nonempty offset
  · exact on ▸ all t member
  · exact behind ▸ (all t member).behind

/-- The tokens of an expression stand in a range. -/
def Expression.Within (file : String) (lo hi : Int) (e : Expression) : Prop :=
  AllWithin file lo hi e.tokens

theorem parseExpression_ends (all : AllWithin file lo hi ts) (near : place.Within file lo hi) :
    EndsIn file lo hi (Expression.Within file lo hi) (parseExpression ts place) := by
  unfold parseExpression
  split
  · exact .diagnostic near
  · split
    · exact all
    · exact .diagnostic (spanOf_within (List.cons_ne_nil _ _) all)
    · exact .diagnostic (spanAt_within (List.cons_ne_nil _ _) all _)

theorem parseIdentifier_ends (all : AllWithin file lo hi ts) (near : place.Within file lo hi) :
    EndsIn file lo hi (fun t => t.span.Within file lo hi) (parseIdentifier ts place) := by
  unfold parseIdentifier
  split
  · exact .diagnostic near
  · rename_i t rest
    obtain ⟨here, later⟩ := allWithin_cons.mp all
    dsimp only
    split
    · exact .diagnostic here
    · split
      · rename_i more
        exact .diagnostic (spanOf_within (by simpa using more) later)
      · split
        · exact .diagnostic here
        · exact here

theorem parenthesized_ends (h : c.Within file lo hi) :
    EndsIn file lo hi (fun r => r.1.Within file lo hi ∧ r.2.Within file lo hi) (parenthesized c) := by
  obtain ⟨opening, inner, left⟩ := h.group (k := .lparen)
  refine inner.bind fun inside all => ?_
  exact (parseExpression_ends all opening).bind fun e read => ⟨read, left⟩

theorem negation_within (h : c.Within file lo hi) : (negation c).2.Within file lo hi := by
  change (c.accept .not).2.Within file lo hi
  unfold accept
  split
  · exact h.next
  · exact h

/-! ## The grammars -/

section
variable (all : AllWithin file lo hi ts) (past : stop.Within file lo hi)
include all past

theorem Conditional.parse_ends : EndsIn file lo hi (fun e : Conditional =>
    e.condition.Within file lo hi ∧ e.result.Within file lo hi ∧ e.alternative.Within file lo hi)
      (Conditional.parse stop ts) := by
  have start : (Cursor.ofTokens ts stop).Within file lo hi := ⟨all, past⟩
  refine (parenthesized_ends (negation_within start)).bind fun _ ⟨condition, h₁⟩ => ?_
  refine (expect_ends h₁ _).bind fun _ ⟨_, h₂⟩ => ?_
  refine (parenthesized_ends h₂).bind fun _ ⟨result, h₃⟩ => ?_
  refine (expect_ends h₃ _).bind fun _ ⟨_, h₄⟩ => ?_
  refine (parenthesized_ends h₄).bind fun _ ⟨alternative, h₅⟩ => ?_
  exact (expectEnd_ends h₅).bind fun _ _ => ⟨condition, result, alternative⟩

theorem Elvis.parse_ends : EndsIn file lo hi (fun e : Elvis =>
    e.condition.Within file lo hi ∧ e.alternative.Within file lo hi) (Elvis.parse stop ts) := by
  have start : (Cursor.ofTokens ts stop).Within file lo hi := ⟨all, past⟩
  refine (parenthesized_ends (negation_within start)).bind fun _ ⟨condition, h₁⟩ => ?_
  refine (expect_ends h₁ _).bind fun _ ⟨_, h₂⟩ => ?_
  refine (parenthesized_ends h₂).bind fun _ ⟨alternative, h₃⟩ => ?_
  exact (expectEnd_ends h₃).bind fun _ _ => ⟨condition, alternative⟩

theorem ElvisAssign.parse_ends : EndsIn file lo hi (fun e : ElvisAssign =>
    e.target.span.Within file lo hi ∧ e.alternative.Within file lo hi)
      (ElvisAssign.parse stop ts) := by
  have start : (Cursor.ofTokens ts stop).Within file lo hi := ⟨all, past⟩
  obtain ⟨opening, inner, left⟩ := (negation_within start).group (k := .lparen)
  refine inner.bind fun inside named => ?_
  refine (parseIdentifier_ends named opening).bind fun target on => ?_
  refine (expect_ends left _).bind fun _ ⟨_, h₂⟩ => ?_
  refine (parenthesized_ends h₂).bind fun _ ⟨alternative, h₃⟩ => ?_
  exact (expectEnd_ends h₃).bind fun _ _ => ⟨on, alternative⟩

theorem IncDec.parse_ends : EndsIn file lo hi (fun e : IncDec => e.name.span.Within file lo hi)
    (IncDec.parse stop ts) := by
  have start : (Cursor.ofTokens ts stop).Within file lo hi := ⟨all, past⟩
  have first : AllWithin file lo hi [(Cursor.ofTokens ts stop).peek] := by
    simpa [AllWithin] using start.peek
  refine (parseIdentifier_ends first start.peek).bind fun name on => ?_
  dsimp only
  split
  · exact (expectEnd_ends start.next.next).bind fun _ _ => on
  · exact (expectEnd_ends start.next.next).bind fun _ _ => on
  · exact .diagnostic start.next.peek

theorem Truthiness.parse_ends : EndsIn file lo hi (fun e : Truthiness => e.value.Within file lo hi)
    (Truthiness.parse stop ts) :=
  (parseExpression_ends all past).map fun _ read => read

end

theorem parseMapType_ends (h : c.Within file lo hi) :
    EndsIn file lo hi (fun r => r.1.Within file lo hi ∧ r.2.Within file lo hi) (parseMapType c) := by
  obtain ⟨-, inner, -⟩ := h.next.group (k := .lbracket)
  unfold parseMapType
  refine inner.bind fun _ _ => ?_
  refine (parseExpression_ends (h.rest.mono (List.take_subset _ _)) h.peek).bind fun e read => ?_
  exact ⟨read, h.moveTo (List.drop_subset _ _)⟩

/-- The key and the value of an entry stand in a range. -/
structure MapEntry.Within (file : String) (lo hi : Int) (e : MapEntry) : Prop where
  key : e.key.span.Within file lo hi
  value : e.value.Within file lo hi

theorem parseEntries_ends (all : AllWithin file lo hi ts) (past : stop.Within file lo hi) :
    EndsIn file lo hi (fun es => ∀ e ∈ es, e.Within file lo hi) (parseEntries stop ts) := by
  fun_induction parseEntries stop ts with
  | case1 => exact .ok (by simp)
  | case2 key rest absent =>
    exact .diagnostic (allWithin_cons.mp all).1
  | case3 key rest kind known ih =>
    obtain ⟨here, later⟩ := allWithin_cons.mp all
    have whole := splitAtDepth_append (fun t => t.kind = .comma) 0 rest.tail
    have behind : AllWithin file lo hi rest.tail := later.mono (List.tail_subset rest)
    rw [← whole] at behind
    have start : (Cursor.ofTokens rest stop).Within file lo hi := ⟨later, past⟩
    refine (expect_ends start _).bind fun r ⟨colon, _⟩ => ?_
    refine (parseExpression_ends (behind.mono (List.subset_append_left _ _)) colon).bind
      fun value read => ?_
    refine (ih ?_).bind fun entries more => ?_
    · exact behind.mono (List.Subset.trans (List.tail_subset _) (List.subset_append_right _ _))
    · exact List.forall_mem_cons.mpr ⟨⟨here, read⟩, more⟩

theorem listing_ends {type : Option Expression} (typed : ∀ t ∈ type, t.Within file lo hi)
    (all : AllWithin file lo hi ts) (past : stop.Within file lo hi) :
    EndsIn file lo hi (fun m : MapLiteral => (∀ t ∈ m.type, t.Within file lo hi) ∧
      ∀ e ∈ m.entries, e.Within file lo hi) (listing stop type ts) := by
  unfold listing
  split
  · exact .ok ⟨typed, by simp⟩
  · split
    · exact .ok ⟨typed, by simp⟩
    · exact (parseEntries_ends all past).bind fun _ read => ⟨typed, read⟩
  · exact (parseEntries_ends all past).bind fun _ read => ⟨typed, read⟩

theorem MapLiteral.parse_ends (all : AllWithin file lo hi ts) (past : stop.Within file lo hi) :
    EndsIn file lo hi (fun m : MapLiteral => (∀ t ∈ m.type, t.Within file lo hi) ∧
      ∀ e ∈ m.entries, e.Within file lo hi) (MapLiteral.parse stop ts) := by
  have start : (Cursor.ofTokens (unwrapBrackets stop ts) stop).Within file lo hi :=
    ⟨all.mono (unwrapBrackets_isInfix stop ts).subset, past⟩
  rw [MapLiteral.parse_eq]
  dsimp only
  split
  · exact (parseMapType_ends start).bind fun _ read => listing_ends (by simpa using read.1) read.2.rest past
  · exact listing_ends (by simp) start.rest past

theorem parseFields_ends (all : AllWithin file lo hi ts) (past : stop.Within file lo hi) :
    EndsIn file lo hi (fun r => AllWithin file lo hi r.2) (parseFields stop ts) := by
  fun_induction parseFields stop ts with
  | case1 => exact .ok (by simp [AllWithin])
  | case2 t dot => exact .diagnostic past
  | case3 t dot field rest named ih =>
    have later := (allWithin_cons.mp (allWithin_cons.mp all).2).2
    exact (ih later).bind fun _ left => left
  | case4 t dot field rest other =>
    exact .diagnostic (allWithin_cons.mp (allWithin_cons.mp all).2).1
  | case5 t rest other => exact all

theorem Spread.parse_ends (all : AllWithin file lo hi ts) (past : stop.Within file lo hi) :
    EndsIn file lo hi (fun e : Spread => e.iterable.Within file lo hi) (Spread.parse stop ts) := by
  have start : (Cursor.ofTokens ts stop).Within file lo hi := ⟨all, past⟩
  refine (parenthesized_ends start).bind fun _ ⟨iterable, h₁⟩ => ?_
  refine (parseFields_ends h₁.rest past).bind fun _ left => ?_
  exact (expectEnd_ends ⟨left, past⟩).bind fun _ _ => iterable

end Form

/-! ## Writing -/

namespace Builder

/-- What has been built stands in a range, and so does code that is added. -/
structure Within (file : String) (lo hi : Int) (b : Builder) : Prop where
  span : b.span.Within file lo hi
  built : AllWithin file lo hi b.built

variable {b : Builder}

theorem Within.push (h : b.Within file lo hi) {t : Token} (on : t.span.Within file lo hi) :
    (b.push t).Within file lo hi := by
  have added {gap : Gap} : AllWithin file lo hi ({ t with gap } :: b.built) :=
    allWithin_cons.mpr ⟨on, h.built⟩
  unfold Builder.push
  split
  · split
    · exact ⟨h.span, added⟩
    · exact ⟨h.span, added⟩
  · exact ⟨h.span, List.forall_mem_singleton.mpr on⟩

theorem Within.code (h : b.Within file lo hi) (text : String) : (b.code text).Within file lo hi := by
  unfold Builder.code
  split
  · rename_i ts _
    exact List.foldlRecOn ts _ h fun b h' t _ => h'.push h'.span
  · exact h

theorem Within.tokens (h : b.Within file lo hi) {ts : List Token} (all : AllWithin file lo hi ts) :
    (b.tokens ts).Within file lo hi := by
  cases ts with
  | nil => exact h
  | cons t ts =>
    obtain ⟨here, later⟩ := allWithin_cons.mp all
    exact List.foldlRecOn ts _ (h.push here) fun b h' t member => h'.push (later t member)

theorem Within.stream (h : b.Within file lo hi) : AllWithin file lo hi b.stream :=
  h.built.mono (List.reverse_subset.mpr (List.Subset.refl _))

theorem within_empty {span : Span} (on : span.Within file lo hi) :
    Within file lo hi { span } := ⟨on, by simp [AllWithin]⟩

end Builder

namespace Form

open Builder

variable {ctx : Context}

section
variable (on : ctx.span.Within file lo hi)
include on

theorem IncDec.emit_within {e : IncDec} (name : e.name.span.Within file lo hi) :
    AllWithin file lo hi (e.emit ctx).1 := by
  have named : AllWithin file lo hi [e.name] := by simpa [AllWithin] using name
  exact ((((within_empty on).code _).tokens named).code _).stream

theorem Truthiness.emit_within {e : Truthiness} (value : e.value.Within file lo hi) :
    AllWithin file lo hi (e.emit ctx).1 :=
  ((((within_empty on).code _).tokens value).code _).stream

theorem Conditional.emit_within {e : Conditional} (condition : e.condition.Within file lo hi)
    (result : e.result.Within file lo hi) (alternative : e.alternative.Within file lo hi) :
    AllWithin file lo hi (e.emit ctx).1 :=
  ((((((((within_empty on).code _).tokens result).code _).tokens alternative).code _).tokens
    condition).code _).stream

theorem ElvisAssign.emit_within {e : ElvisAssign} (target : e.target.span.Within file lo hi)
    (alternative : e.alternative.Within file lo hi) : AllWithin file lo hi (e.emit ctx).1 := by
  have named : AllWithin file lo hi [e.target] := by simpa [AllWithin] using target
  exact ((((((((within_empty on).code _).tokens named).code _).tokens named).code _).tokens
    alternative).code _).stream

theorem MapLiteral.emit_within {m : MapLiteral} (type : ∀ t ∈ m.type, t.Within file lo hi)
    (entries : ∀ e ∈ m.entries, e.Within file lo hi) : AllWithin file lo hi (m.emit ctx).1 := by
  have key {e : MapEntry} (h : e.Within file lo hi) : AllWithin file lo hi [e.key] := by
    simpa [AllWithin] using h.key
  obtain ⟨type?, es⟩ := m
  cases type? with
  | none =>
    cases es with
    | nil => exact ((within_empty on).code _).stream
    | cons first more =>
      have entry {b : Builder} {e : MapEntry} (h : b.Within file lo hi) (parts : e.Within file lo hi)
          (text : String) : (((((b.code text).tokens [e.key]).code ",").tokens e.value.tokens).code
            ")").Within file lo hi :=
        ((((h.code text).tokens (key parts)).code ",").tokens parts.value).code ")"
      obtain ⟨entry₁, entries⟩ := List.forall_mem_cons.mp entries
      refine (Within.code (List.foldlRecOn more _ ?_ fun b within e member => ?_) ")").stream
      · exact entry ((within_empty on).code _) entry₁ _
      · exact entry (within.code ",") (entries e member) _
  | some t =>
    have typed : AllWithin file lo hi t.tokens := type t rfl
    cases es with
    | nil => exact ((((within_empty on).code _).tokens typed).code _).stream
    | cons first more =>
      refine (Within.code (List.foldlRecOn (first :: more) _ ?_ fun b within e member => ?_) _).stream
      · exact (((((within_empty on).code _).tokens typed).code _).code _).tokens typed |>.code _
      · have parts := entries e member
        exact ((((within.code _).tokens (key parts)).code _).tokens parts.value).code _

theorem Spread.emit_within {e : Spread} (iterable : e.iterable.Within file lo hi) :
    AllWithin file lo hi (e.emit ctx).1 := by
  obtain ⟨iterable', fs⟩ := e
  cases fs with
  | nil => exact ((((within_empty on).code _).tokens iterable).code _).stream
  | cons first more =>
    have codes {b : Builder} (h : b.Within file lo hi) (text : Token → String) :
        ((first :: more).foldl (fun b f => b.code (text f)) b).Within file lo hi :=
      List.foldlRecOn _ _ h fun b within f _ => within.code (text f)
    refine ((codes ((Within.code ?_ _).code _) _).code _).stream
    refine ((codes ?_ _).code _).tokens iterable
    exact (((codes ((within_empty on).code _) _).code _).tokens iterable).code _

end

/-- A form but the interpolation complains about places in the range of its body and its invocation,
and emits tokens that stand there. -/
theorem transform_ends {f : Form} (known : f ∈ builtins) (other : f.name ≠ "sin") {ts : List Token}
    (all : AllWithin file lo hi ts) (on : ctx.span.Within file lo hi) :
    EndsIn file lo hi (fun r => AllWithin file lo hi r.1) (f.transform ctx ts) := by
  have past : ctx.stop.Within file lo hi := on.behind
  simp only [builtins, List.mem_cons, List.not_mem_nil, or_false] at known
  rcases known with rfl | rfl | rfl | rfl | rfl | rfl | rfl | rfl | rfl
  · exact (Conditional.parse_ends all past).map fun e ⟨c, r, a⟩ => e.emit_within on c r a
  · exact (Elvis.parse_ends all past).map fun e ⟨c, a⟩ => Conditional.emit_within on c c a
  · exact (ElvisAssign.parse_ends all past).map fun e ⟨t, a⟩ => e.emit_within on t a
  · exact (IncDec.parse_ends all past).map fun e name => e.emit_within on name
  · exact (MapLiteral.parse_ends all past).map fun m ⟨t, es⟩ => m.emit_within on t es
  · exact (MapLiteral.parse_ends all past).map fun m ⟨t, es⟩ => m.emit_within on t es
  · exact (Spread.parse_ends all past).map fun e iterable => e.emit_within on iterable
  · exact absurd rfl other
  · exact (Truthiness.parse_ends all past).map fun e value => e.emit_within on value

end Form
end Desugar

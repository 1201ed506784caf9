import Desugar.Form.Registry
import Desugar.Proofs.Form.Code
import Desugar.Proofs.Form.Complaints
import Desugar.Proofs.Form.MapGrammar
import Desugar.Proofs.Text.PlainFormat
import Desugar.Proofs.Text.Splitting
import Desugar.Proofs.Text.Unquoting

/-!
# What an interpolated string stands for

The value of a string literal falls apart, in one way only, into texts without an opening and markers
between them. The format that is made of it has a verb in the place of each marker, and filled in with any
texts it is the value with these in the place of its markers. What is called a mistake in a marker is one:
an opening without an end, or with nothing inside that would be a token.
-/
namespace Desugar.Form

open Lexer Builder

/-- What a marker begins with. -/
def opening : Bytes := [0x24, 0x7B]

/-- A marker with what is inside of it. -/
def marker (body : Bytes) : Bytes := 0x24 :: 0x7B :: (body ++ [0x7D])

/-- A value that is cut at markers. -/
structure Cut where
  /-- What stands before the first marker. -/
  first : Bytes
  /-- The inside of each marker with the text behind it. -/
  rest : List (Bytes × Bytes)
  deriving DecidableEq, Repr

namespace Cut

def texts (c : Cut) : List Bytes := c.first :: c.rest.map Prod.snd

def value (c : Cut) : Bytes := c.first ++ c.rest.flatMap fun part => marker part.1 ++ part.2

/-- The value with other texts in the place of its markers. -/
def filled (c : Cut) (rs : List Bytes) : Bytes :=
  c.first ++ (List.zipWith (fun r part => r ++ part.2) rs c.rest).flatten

/-- Markers with the offsets where they open, the first text behind them starting at `offset`. -/
def markersFrom (offset : Nat) : List (Bytes × Bytes) → List (Nat × Bytes)
  | [] => []
  | (body, text) :: rest => (offset, body) :: markersFrom (offset + body.length + 3 + text.length) rest

/-- The inside of each marker with the offset in the value where the marker opens. -/
def markers (c : Cut) : List (Nat × Bytes) := markersFrom c.first.length c.rest

/-- The texts hold no opening, and markers hold something and end where they are closed. -/
structure Proper (c : Cut) : Prop where
  texts : ∀ s ∈ c.texts, ¬ opening <:+: s
  bodies : ∀ part ∈ c.rest, part.1 ≠ [] ∧ 0x7D ∉ part.1

/-- The pieces of the value. -/
def pieces (c : Cut) : List Piece := .text c.first :: c.rest.flatMap fun part => [.marker part.1, .text part.2]

/-- The format that is made of the value. -/
def template (c : Cut) : Bytes :=
  escapePercent c.first ++ c.rest.flatMap fun part => 0x25 :: 0x76 :: escapePercent part.2

end Cut

/-- The tokens of an expression are those of the inside of a marker that opens at an offset of the value,
where they stand in the literal if its value is told by its own text, and else all at the literal. -/
structure InMarker (literal : Token) (exact : Bool) (marker : Nat × Bytes) (e : Expression) : Prop where
  lexes : ∃ tokens, tokens ≠ [] ∧
    Lexer.lexAt { file := (locate literal exact (marker.1 + 2)).file, base := some (locate literal exact (marker.1 + 2)) }
      marker.2 = .ok tokens ∧
    e.tokens = if exact then tokens else tokens.map fun t => { t with span := literal.span }
  accepted : e.Accepted

/-- An opening at the front of a text that starts no marker with a token in it. -/
inductive Faulty : Bytes → Prop where
  | unterminated {rest : Bytes} (unclosed : 0x7D ∉ rest) : Faulty (opening ++ rest)
  | empty {rest : Bytes} : Faulty (opening ++ 0x7D :: rest)
  | blank {body rest : Bytes} {o : Lexer.Origin} (inside : 0x7D ∉ body) (read : Lexer.lexAt o body = .ok []) :
      Faulty (marker body ++ rest)

variable {c c' : Cut} {s t t' body text : Bytes} {n : Nat}

/-! ## Openings -/

theorem opening_ne_nil : opening ≠ [] := by decide

/-- Behind a text without an opening, the first opening is the one that starts what follows. -/
theorem indexOf_append (free : ¬ opening <:+: s) (front : t = [] ∨ opening <+: t) :
    Text.indexOf opening (s ++ t) = if t = [] then none else some s.length := by
  induction s with
  | nil =>
    rcases front with rfl | front
    · rfl
    · cases t with
      | nil => simp [opening] at front
      | cons b t =>
        rw [List.nil_append, Text.indexOf, if_pos (List.isPrefixOf_iff_prefix.mpr front), if_neg (by simp)]
        rfl
  | cons b s ih =>
    rw [List.infix_cons_iff, not_or] at free
    have other : ¬ opening <+: b :: (s ++ t) := by
      rintro ⟨rest, same⟩
      obtain ⟨rfl, behind⟩ := List.cons.inj same
      have head : some 0x7B = (s ++ t).head? := congrArg List.head? behind
      cases s with
      | nil =>
        -- What follows is nothing or starts as an opening does, so it does not go on with a brace.
        rcases front with rfl | ⟨rest', rfl⟩
        · cases head
        · exact absurd (Option.some.inj head) (by decide)
      | cons d s =>
        obtain rfl : 0x7B = d := Option.some.inj head
        exact free.1 ⟨s, rfl⟩
    rw [List.cons_append, Text.indexOf, if_neg (by rwa [List.isPrefixOf_iff_prefix]), ih free.2]
    split <;> rfl

/-- Two texts without an opening are the same if what follows them starts with one. -/
theorem append_inj_of_opening {s' : Bytes} (free : ¬ opening <:+: s) (free' : ¬ opening <:+: s')
    (front : t = [] ∨ opening <+: t) (front' : t' = [] ∨ opening <+: t') (same : s ++ t = s' ++ t') :
    s = s' ∧ t = t' := by
  have first := indexOf_append free front
  rw [same, indexOf_append free' front'] at first
  by_cases empty : t = []
  · rw [if_pos empty] at first
    by_cases empty' : t' = []
    · subst empty empty'
      simpa using same
    · rw [if_neg empty'] at first
      cases first
  · rw [if_neg empty] at first
    by_cases empty' : t' = []
    · rw [if_pos empty'] at first
      cases first
    · rw [if_neg empty', Option.some.injEq] at first
      exact List.append_inj same first.symm

theorem opening_marker : opening <+: marker body ++ t := ⟨body ++ [0x7D] ++ t, rfl⟩

/-- A marker is closed by the first brace. -/
theorem marker_inj {body' : Bytes} (inside : 0x7D ∉ body) (inside' : 0x7D ∉ body')
    (same : marker body ++ t = marker body' ++ t') : body = body' ∧ t = t' := by
  have taken {b r : Bytes} (inside : 0x7D ∉ b) : (b ++ 0x7D :: r).takeWhile (· != 0x7D) = b := by
    rw [List.takeWhile_append_of_pos fun x member => ?_, List.takeWhile_cons_of_neg (by decide), List.append_nil]
    simp only [bne_iff_ne]
    rintro rfl
    exact inside member
  have split : body ++ 0x7D :: t = body' ++ 0x7D :: t' := by simpa [marker] using same
  obtain rfl : body = body' := by rw [← taken inside, split, taken inside']
  exact ⟨rfl, (List.cons.inj (List.append_cancel_left split)).2⟩

/-! ## The only cut -/

theorem front_of_rest (parts : List (Bytes × Bytes)) :
    (parts.flatMap fun part => marker part.1 ++ part.2) = [] ∨
      opening <+: parts.flatMap fun part => marker part.1 ++ part.2 := by
  cases parts with
  | nil => exact .inl rfl
  | cons part parts =>
    right
    rw [List.flatMap_cons, List.append_assoc]
    exact opening_marker

theorem Cut.Proper.tail {part : Bytes × Bytes} {parts : List (Bytes × Bytes)}
    (proper : Cut.Proper ⟨s, part :: parts⟩) : Cut.Proper ⟨part.2, parts⟩ :=
  ⟨fun t member => proper.texts t (List.mem_cons_of_mem _ member),
    fun p member => proper.bodies p (List.mem_cons_of_mem _ member)⟩

/-- A value is cut in one way only. -/
theorem Cut.eq_of_value (proper : c.Proper) (proper' : c'.Proper) (same : c.value = c'.value) : c = c' := by
  obtain ⟨s, parts⟩ := c
  obtain ⟨s', parts'⟩ := c'
  induction parts generalizing s s' parts' with
  | nil =>
    obtain ⟨rfl, behind⟩ := append_inj_of_opening (proper.texts s List.mem_cons_self)
      (proper'.texts s' List.mem_cons_self) (front_of_rest []) (front_of_rest parts') same
    cases parts' with
    | nil => rfl
    | cons part' parts' => cases behind
  | cons part parts ih =>
    obtain ⟨rfl, behind⟩ := append_inj_of_opening (proper.texts s List.mem_cons_self)
      (proper'.texts s' List.mem_cons_self) (front_of_rest (part :: parts)) (front_of_rest parts') same
    cases parts' with
    | nil => cases behind
    | cons part' parts' =>
      rw [List.flatMap_cons, List.flatMap_cons, List.append_assoc, List.append_assoc] at behind
      obtain ⟨body, rest⟩ := marker_inj (proper.bodies part List.mem_cons_self).2
        (proper'.bodies part' List.mem_cons_self).2 behind
      obtain ⟨text, others⟩ := Cut.mk.inj (ih part.2 proper.tail part'.2 parts' proper'.tail rest)
      rw [others, Prod.ext body text]

/-! ## Cutting -/

/-- A marker at the front of a text is closed by the first brace behind it. -/
theorem markerLength?_eq_some (found : markerLength? text = some n) :
    ∃ body rest, text = marker body ++ rest ∧ body.length = n ∧ body ≠ [] ∧ 0x7D ∉ body := by
  unfold markerLength? at found
  split at found
  · rename_i rest
    dsimp only at found
    split at found
    · cases found
    rename_i proper
    simp only [Bool.or_eq_true, decide_eq_true_eq, not_or] at proper
    obtain rfl := Option.some.inj found
    have split := List.takeWhile_append_dropWhile (p := (· != 0x7D)) (l := rest)
    have inside : 0x7D ∉ rest.takeWhile (· != 0x7D) := fun member => by
      simpa using List.all_eq_true.mp List.all_takeWhile _ member
    cases behind : rest.dropWhile (· != 0x7D) with
    | nil =>
      rw [behind, List.append_nil] at split
      exact absurd (congrArg List.length split) proper.2
    | cons b rest' =>
      have brace : b = 0x7D := by
        have stops := List.head?_dropWhile_not (fun b : UInt8 => b != 0x7D) rest
        rw [behind] at stops
        simpa using stops
      subst brace
      rw [behind] at split
      refine ⟨_, rest', ?_, rfl, fun empty => proper.1 (by rw [empty]; rfl), inside⟩
      simpa [marker] using split.symm
  · cases found

/-- An opening where no marker starts is not closed, or holds nothing. -/
theorem faulty_of_opening (front : opening <+: text) (absent : markerLength? text = none) : Faulty text := by
  obtain ⟨rest, rfl⟩ := front
  unfold markerLength? at absent
  simp only [opening, List.cons_append, List.nil_append] at absent
  split at absent
  · rename_i empty
    rcases Bool.or_eq_true _ _ |>.mp empty with zero | all
    · cases rest with
      | nil => exact .unterminated (by simp)
      | cons b rest =>
        obtain rfl : b = 0x7D := by
          by_contra other
          rw [List.takeWhile_cons_of_pos (by simpa using other)] at zero
          simp at zero
        exact .empty
    · refine .unterminated fun member => ?_
      have all := List.takeWhile_eq_self_iff.mp (List.takeWhile_prefix _ |>.eq_of_length (by simpa using all))
      simpa using all _ member
  · cases absent

theorem pieces_marker (before body rest : Bytes) (found : markerLength? (marker body ++ rest) = some body.length) :
    Form.pieces before (marker body ++ rest) = .text before.reverse :: .marker body :: Form.pieces [] rest := by
  have front : marker body ++ rest = 0x24 :: 0x7B :: (body ++ 0x7D :: rest) := by simp [marker]
  rw [front] at found ⊢
  rw [Form.pieces, found]
  have behind : (0x7B :: (body ++ 0x7D :: rest)).drop (body.length + 2) = rest := by simp
  dsimp only
  rw [behind, List.drop_succ_cons, List.drop_succ_cons, List.drop_zero, List.take_left]

/-- What a text is cut into. -/
theorem exists_cut (before text : Bytes) : ∃ c : Cut, Form.pieces before text = c.pieces ∧
    c.value = before.reverse ++ text ∧ ∀ part ∈ c.rest, part.1 ≠ [] ∧ 0x7D ∉ part.1 := by
  induction size : text.length using Nat.strongRecOn generalizing before text with
  | ind n ih =>
    subst size
    cases text with
    | nil => exact ⟨⟨before.reverse, []⟩, by simp [Form.pieces, Cut.pieces], by simp [Cut.value], by simp⟩
    | cons b text =>
      cases found : markerLength? (b :: text) with
      | none =>
        obtain ⟨c, cut, value, bodies⟩ := ih text.length (Nat.lt_succ_self _) (b :: before) text rfl
        refine ⟨c, ?_, by rw [value]; simp, bodies⟩
        rw [Form.pieces, found]
        exact cut
      | some n =>
        obtain ⟨body, rest, front, rfl, nonempty, inside⟩ := markerLength?_eq_some found
        have shorter : rest.length < (b :: text).length := by
          rw [front, List.length_append]
          simp [marker]
        obtain ⟨c, cut, value, bodies⟩ := ih rest.length shorter [] rest rfl
        rw [List.reverse_nil, List.nil_append] at value
        refine ⟨⟨before.reverse, (body, c.first) :: c.rest⟩, ?_, ?_,
          List.forall_mem_cons.mpr ⟨⟨nonempty, inside⟩, bodies⟩⟩
        · rw [front] at found ⊢
          rw [pieces_marker before body rest found, cut]
          rfl
        · rw [front, ← value]
          simp [Cut.value]

/-! ## Reading the pieces -/

variable {literal : Token} {exact : Bool} {offset : Nat} {template : Bytes} {es : List Expression}

theorem inMarker_of_parse {e : Expression} (parsed : parseMarker literal exact offset body = .ok e) :
    InMarker literal exact (offset, body) e := by
  unfold parseMarker at parsed
  dsimp only at parsed
  obtain ⟨tokens, read, parsed⟩ := bind_eq_ok parsed
  split at parsed
  · obtain ⟨a, b, parsed⟩ := bind_eq_ok parsed
    cases b
  rename_i nonempty
  obtain ⟨same, accepted⟩ := accepted_of_parse parsed
  exact ⟨⟨tokens, by simpa using nonempty, read, same⟩, accepted⟩

/-- If all pieces behind some text are read, the texts hold no opening, the template is made of all of them and each
marker holds an expression. -/
theorem parsePieces_cut (read : parsePieces literal exact offset c.pieces = .ok (template, es)) :
    (∀ s ∈ c.texts, ¬ opening <:+: s) ∧ template = c.template ∧
      List.Forall₂ (InMarker literal exact) (Cut.markersFrom (offset + c.first.length) c.rest) es := by
  have checked {offset : Nat} {s : Bytes} (fine : checkText literal exact offset s = .ok ()) : ¬ opening <:+: s := by
    unfold checkText at fine
    split at fine
    · rename_i absent
      exact (Text.indexOf_eq_none opening_ne_nil).mp absent
    · dsimp only at fine
      split at fine <;> cases fine
  obtain ⟨first, parts⟩ := c
  induction parts generalizing first offset template es with
  | nil =>
    obtain ⟨⟨⟩, fine, read⟩ := bind_eq_ok read
    obtain ⟨⟨template', es'⟩, nothing, read⟩ := bind_eq_ok read
    obtain ⟨rfl, rfl⟩ := Prod.mk.inj (Except.ok.inj nothing)
    obtain ⟨rfl, rfl⟩ := Prod.mk.inj (Except.ok.inj read)
    exact ⟨List.forall_mem_singleton.mpr (checked fine), rfl, .nil⟩
  | cons part parts ih =>
    obtain ⟨⟨⟩, fine, read⟩ := bind_eq_ok read
    obtain ⟨⟨template', es'⟩, behind, read⟩ := bind_eq_ok read
    obtain ⟨rfl, rfl⟩ := Prod.mk.inj (Except.ok.inj read)
    obtain ⟨e, parsed, behind⟩ := bind_eq_ok behind
    obtain ⟨⟨template'', es''⟩, rest, behind⟩ := bind_eq_ok behind
    obtain ⟨rfl, rfl⟩ := Prod.mk.inj (Except.ok.inj behind)
    obtain ⟨texts, rfl, markers⟩ := ih part.2 rest
    exact ⟨List.forall_mem_cons.mpr ⟨checked fine, texts⟩, rfl, .cons (inMarker_of_parse parsed) markers⟩

/-! ## Filling in the format -/

theorem fillPlain_escapePercent (text rest : Bytes) (rs : List Bytes) :
    Text.fillPlain (escapePercent text ++ rest) rs = (text ++ ·) <$> Text.fillPlain rest rs := by
  induction text with
  | nil => simp [escapePercent]
  | cons b text ih =>
    have split : escapePercent (b :: text) ++ rest =
        (if b = 0x25 then [b, b] else [b]) ++ (escapePercent text ++ rest) := by
      simp [escapePercent]
    rw [split]
    by_cases percent : b = 0x25
    · subst percent
      rw [if_pos rfl]
      change Text.fillPlain (0x25 :: 0x25 :: (escapePercent text ++ rest)) rs = _
      rw [Text.fillPlain_percent, ih, Option.map_eq_map, Option.map_eq_map, Option.map_map]
      rfl
    · rw [if_neg percent, List.singleton_append, Text.fillPlain_other percent, ih, Option.map_eq_map,
        Option.map_eq_map, Option.map_map]
      rfl

/-- Filled in with as many texts as there are markers, the format is the value with these in their place; it
is filled in with no other number of texts. -/
theorem fillPlain_template (c : Cut) (rs : List Bytes) :
    Text.fillPlain c.template rs = if rs.length = c.rest.length then some (c.filled rs) else none := by
  obtain ⟨first, parts⟩ := c
  unfold Cut.template
  rw [fillPlain_escapePercent]
  induction parts generalizing first rs with
  | nil =>
    cases rs with
    | nil => simp [Text.fillPlain, Cut.filled]
    | cons r rs => simp [Text.fillPlain]
  | cons part parts ih =>
    rw [List.flatMap_cons, List.cons_append, List.cons_append]
    cases rs with
    | nil => simp [Text.fillPlain]
    | cons r rs =>
      have behind := ih rs part.2
      dsimp only at behind
      rw [Text.fillPlain_verb, fillPlain_escapePercent, behind]
      by_cases size : rs.length = parts.length
      · simp [size, Cut.filled]
      · simp [size]

/-! ## What is emitted -/

/-- The call that is emitted: the format as a string literal, and the expressions. -/
theorem Interpolation.emit_meaning (e : Interpolation) (ctx : Context) (nonempty : e.exprs ≠ []) :
    (e.emit ctx).1.map meaning =
      [(.identifier, Text.utf8 "fmt"), (.period, Text.utf8 "."), (.identifier, Text.utf8 "Sprintf"),
        (.lparen, Text.utf8 "("), (.string, Text.utf8 (Text.quoteBytes e.template))] ++
      (e.exprs.flatMap fun x => (.comma, Text.utf8 ",") :: x.tokens.map meaning) ++ [(.rparen, Text.utf8 ")")] := by
  have close : IsCode ")" _ := isCode_known [⟨.none, ")", .rparen⟩] (by decide) (by decide) (by simp)
  have comma : IsCode "," _ := isCode_known [⟨.none, ",", .comma⟩] (by decide) (by decide) (by simp)
  have operands (xs : List Expression) (b : Builder) :
      (xs.foldl (fun b x => (b.code ",").tokens x.tokens) b).stream.map meaning =
        b.stream.map meaning ++ xs.flatMap fun x => (.comma, Text.utf8 ",") :: x.tokens.map meaning := by
    induction xs generalizing b with
    | nil => simp
    | cons x xs ih =>
      rw [List.foldl_cons, ih, stream_tokens, stream_code comma, List.flatMap_cons, List.append_assoc,
        List.append_assoc]
      rfl
  obtain ⟨literal, template, exprs⟩ := e
  cases exprs with
  | nil => exact absurd rfl nonempty
  | cons first more =>
    have named : (ctx.require "fmt").1 = "fmt" := by
      change packageName "fmt" = "fmt"
      decide
    unfold Interpolation.emit
    dsimp only
    have call : ∀ b : Builder, (b.code (toString "fmt" ++ toString ".Sprintf(" ++
        toString (Text.quoteBytes template))).stream.map meaning = b.stream.map meaning ++ _ :=
      stream_code (isCode_format template)
    rw [stream_code close, operands, named, call]
    rfl

/-! ## What is called a mistake in a marker -/

/-- If a failure tells of a mistake in a marker, there is one. -/
def Blames {α : Type} (faulty : Prop) (x : Except Failure α) : Prop :=
  ∀ f, x = .error f → ∀ d ∈ f.toDiagnostics, d.category = .marker → faulty

namespace Blames

variable {α β : Type} {faulty : Prop}

theorem ok (a : α) : Blames faulty (.ok a) := by
  rintro f ⟨⟩

theorem diagnostic {d : Diagnostic} (told : d.category = .marker → faulty) :
    Blames faulty (.error (.diagnostic d) : Except Failure α) := by
  rintro f ⟨⟩ d' member
  obtain rfl := List.mem_singleton.mp member
  exact told

theorem bind {x : Except Failure α} {f : α → Except Failure β} (first : Blames faulty x)
    (second : ∀ a, x = .ok a → Blames faulty (f a)) : Blames faulty (x >>= f) := by
  intro e failed
  cases result : x with
  | error e' =>
    rw [result] at failed
    obtain rfl := Except.error.inj failed
    exact first e' result
  | ok a =>
    rw [result] at failed
    exact second a result e failed

theorem mono {faulty' : Prop} {x : Except Failure α} (h : Blames faulty x) (sub : faulty → faulty') :
    Blames faulty' x := fun f failed d member told => sub (h f failed d member told)

end Blames

theorem lexAt_blames (o : Lexer.Origin) (text : Bytes) : Blames False (Lexer.lexAt o text) := by
  intro f failed d member told
  rw [lexAt_eq] at failed
  split at failed
  · cases failed
  · obtain rfl := Except.error.inj failed
    obtain ⟨l, -, g, -, -, rfl⟩ := (mem_faults o text d).mp (List.mem_mergeSort.mp member)
    cases told

theorem parseExpression_blames (ts : List Token) (place : Span) : Blames False (parseExpression ts place) := by
  unfold parseExpression
  split
  · exact .diagnostic (by rintro ⟨⟩)
  · split
    · exact .ok _
    · exact .diagnostic (by rintro ⟨⟩)
    · exact .diagnostic (by rintro ⟨⟩)

theorem checkText_blames :
    Blames (∃ i < text.length, opening <+: text.drop i) (checkText literal exact offset text) := by
  unfold checkText
  split
  · exact .ok _
  · rename_i i found
    have fault : ∃ i < text.length, opening <+: text.drop i :=
      ⟨i, (Text.prefix_of_indexOf opening_ne_nil found).2, (Text.prefix_of_indexOf opening_ne_nil found).1⟩
    dsimp only
    split
    · exact .diagnostic fun _ => fault
    · exact .diagnostic fun _ => fault

theorem parseMarker_blames :
    Blames (∃ o, Lexer.lexAt o body = .ok []) (parseMarker literal exact offset body) := by
  refine ((lexAt_blames _ _).mono False.elim).bind fun tokens read => ?_
  dsimp only
  split
  · rename_i empty
    rw [List.isEmpty_iff] at empty
    exact .diagnostic fun _ => ⟨_, empty ▸ read⟩
  · exact (parseExpression_blames _ _).mono False.elim

/-- What is told of a marker in the pieces of a text is true of the text, if no marker starts in what stands
before it. -/
theorem pieces_blames (before text : Bytes)
    (free : ∀ i < before.length, markerLength? ((before.reverse ++ text).drop i) = none) :
    Blames (∃ t, t <:+ before.reverse ++ text ∧ Faulty t)
      (parsePieces literal exact offset (Form.pieces before text)) := by
  have checked {before text : Bytes} {offset : Nat}
      (free : ∀ i < before.length, markerLength? ((before.reverse ++ text).drop i) = none) :
      Blames (∃ t, t <:+ before.reverse ++ text ∧ Faulty t) (checkText literal exact offset before.reverse) := by
    refine checkText_blames.mono ?_
    rintro ⟨i, inside, front⟩
    rw [List.length_reverse] at inside
    refine ⟨_, List.drop_suffix i _, faulty_of_opening ?_ (free i inside)⟩
    rw [List.drop_append_of_le_length (by rw [List.length_reverse]; omega)]
    exact front.trans (List.prefix_append _ _)
  induction size : text.length using Nat.strongRecOn generalizing before text offset with
  | ind n ih =>
    subst size
    cases text with
    | nil =>
      rw [Form.pieces]
      exact (checked free).bind fun _ _ => .ok _
    | cons b text =>
      cases found : markerLength? (b :: text) with
      | none =>
        rw [Form.pieces, found]
        have whole : (b :: before).reverse ++ text = before.reverse ++ b :: text := by simp
        rw [← whole] at free ⊢
        refine ih text.length (Nat.lt_succ_self _) (b :: before) text (fun i inside => ?_) rfl
        by_cases last : i = before.length
        · rw [whole, last, ← List.length_reverse, List.drop_left]
          exact found
        · exact free i (by rw [List.length_cons] at inside; omega)
      | some n =>
        obtain ⟨body, rest, front, rfl, nonempty, inside⟩ := markerLength?_eq_some found
        rw [front] at found free ⊢
        have shorter : rest.length < (b :: text).length := by
          rw [front, List.length_append]
          simp [marker]
        have behind : ∀ {offset : Nat}, Blames (∃ t, t <:+ before.reverse ++ (marker body ++ rest) ∧ Faulty t)
            (parsePieces literal exact offset (Form.pieces [] rest)) := by
          intro offset
          refine (ih rest.length shorter [] rest (by simp) rfl).mono ?_
          rintro ⟨t, part, fault⟩
          rw [List.reverse_nil, List.nil_append] at part
          exact ⟨t, part.trans ((List.suffix_append _ _).trans (List.suffix_append _ _)), fault⟩
        rw [pieces_marker before body rest found]
        refine (checked free).bind fun _ _ => Blames.bind (Blames.bind ?_ fun e _ => ?_) fun _ _ => .ok _
        · refine parseMarker_blames.mono ?_
          rintro ⟨o, read⟩
          exact ⟨marker body ++ rest, List.suffix_append _ _, .blank inside read⟩
        · exact behind.bind fun _ _ => .ok _

/-! ## Interpolated strings -/

variable {stop : Span} {ts : List Token}

/-- An interpolation is read from the pieces of the value of a string literal, or fails without telling of a
marker. -/
theorem Interpolation.parse_cases (stop : Span) (ts : List Token) :
    (∃ f, Interpolation.parse stop ts = .error f ∧ ∀ d ∈ f.toDiagnostics, d.category ≠ .marker) ∨
      ∃ literal value, ts.head? = some literal ∧ literal.kind = .string ∧
        Text.unquote? literal.literal = some value ∧ Interpolation.parse stop ts = (do
          let (template, exprs) ←
            parsePieces literal (value == literal.literal.tail.dropLast) 0 (Form.pieces [] value)
          return { literal, template, exprs }) := by
  have single {d : Diagnostic} (other : d.category ≠ .marker) :
      ∀ d' ∈ (Failure.diagnostic d).toDiagnostics, d'.category ≠ .marker := List.forall_mem_singleton.mpr other
  unfold Interpolation.parse
  dsimp only [Cursor.next]
  by_cases kind : (Cursor.ofTokens ts stop).peek.kind = .string
  · rw [if_neg (not_not.mpr kind)]
    have front : ts.head? = some (Cursor.ofTokens ts stop).peek := by
      cases ts with
      | nil => cases kind
      | cons t ts => rfl
    generalize (Cursor.ofTokens ts stop).peek = literal at kind front
    cases ended : ((Cursor.ofTokens ts stop).moveTo (Cursor.ofTokens ts stop).rest.tail).expectEnd with
    | error d =>
      unfold Cursor.expectEnd at ended
      dsimp only at ended
      split at ended
      · cases ended
      · obtain rfl := Except.error.inj ended
        exact .inl ⟨_, rfl, single nofun⟩
    | ok =>
      cases told : Text.unquote? literal.literal with
      | none => exact .inl ⟨_, rfl, single nofun⟩
      | some value => exact .inr ⟨literal, value, front, kind, told, rfl⟩
  · rw [if_pos kind]
    exact .inl ⟨_, rfl, single nofun⟩

theorem Cut.length_markersFrom (offset : Nat) (parts : List (Bytes × Bytes)) :
    (markersFrom offset parts).length = parts.length := by
  induction parts generalizing offset with
  | nil => rfl
  | cons part parts ih => rw [markersFrom, List.length_cons, ih, List.length_cons]

/-- What an interpolation that is read stands for. -/
structure Interpolation.Intended (e : Interpolation) (value : Bytes) (c : Cut) : Prop where
  proper : c.Proper
  whole : c.value = value
  /-- There is no other cut of the value. -/
  unique : ∀ c' : Cut, c'.Proper → c'.value = value → c' = c
  markers : List.Forall₂ (InMarker e.literal (value == e.literal.literal.tail.dropLast)) c.markers e.exprs
  /-- The format shows one text for each expression, in the place of its marker. -/
  filled : ∀ rs, Text.fillPlain e.template rs = if rs.length = e.exprs.length then some (c.filled rs) else none
  /-- So does the call that fills in a format. -/
  formatted : ∀ (format : String) (strings : List String), e.template = Text.utf8 format →
    strings.length = e.exprs.length → Text.utf8 (Text.format format strings) = c.filled (strings.map Text.utf8)
  /-- The literal that is written for the format is read as the format. -/
  quoted : e.exprs ≠ [] → ∀ ctx, ∃ literal, Text.unquote? literal = some e.template ∧ (e.emit ctx).1.map meaning =
    [(.identifier, Text.utf8 "fmt"), (.period, Text.utf8 "."), (.identifier, Text.utf8 "Sprintf"),
      (.lparen, Text.utf8 "("), (.string, literal)] ++
    (e.exprs.flatMap fun x => (.comma, Text.utf8 ",") :: x.tokens.map meaning) ++ [(.rparen, Text.utf8 ")")]

theorem Interpolation.intended_of_read {e : Interpolation} {value : Bytes}
    (read : parsePieces e.literal (value == e.literal.literal.tail.dropLast) 0 (Form.pieces [] value) =
      .ok (e.template, e.exprs)) : ∃ c, e.Intended value c := by
  obtain ⟨c, cut, whole, bodies⟩ := exists_cut [] value
  rw [List.reverse_nil, List.nil_append] at whole
  rw [cut] at read
  obtain ⟨texts, template, markers⟩ := parsePieces_cut read
  rw [Nat.zero_add] at markers
  have proper : c.Proper := ⟨texts, bodies⟩
  have count : e.exprs.length = c.rest.length := by rw [← markers.length_eq, Cut.length_markersFrom]
  have filled (rs : List Bytes) :
      Text.fillPlain e.template rs = if rs.length = e.exprs.length then some (c.filled rs) else none := by
    rw [template, fillPlain_template, count]
  refine ⟨c, proper, whole, fun c' proper' same => Cut.eq_of_value proper' proper (same.trans whole.symm), markers,
    filled, fun format strings same size => ?_, fun nonempty ctx => ?_⟩
  · apply Text.utf8_format
    rw [← same, filled, if_pos (by rw [List.length_map, size])]
  · exact ⟨_, Text.unquote?_quoteBytes e.template, e.emit_meaning ctx nonempty⟩

/-- An interpolation that is read stands for the value of its literal with the shown expressions in the place of
the markers. If a literal is rejected for a marker, its value has an opening that is not closed, that holds
nothing, or that holds no token. -/
theorem interpolation_intended (stop : Span) (ts : List Token) :
    (∀ e, Interpolation.parse stop ts = .ok e → ts.head? = some e.literal ∧ e.literal.kind = .string ∧
      ∃ value c, Text.unquote? e.literal.literal = some value ∧ e.Intended value c) ∧
    ∀ f, Interpolation.parse stop ts = .error f → ∀ d ∈ f.toDiagnostics, d.category = .marker →
      ∃ literal value t, ts.head? = some literal ∧ literal.kind = .string ∧
        Text.unquote? literal.literal = some value ∧ t <:+ value ∧ Faulty t := by
  obtain ⟨f, failed, other⟩ | ⟨literal, value, front, kind, told, parse⟩ := Interpolation.parse_cases stop ts
  · rw [failed]
    refine ⟨fun e read => (by cases read), fun f' same d member marker => ?_⟩
    obtain rfl := Except.error.inj same
    exact absurd marker (other d member)
  rw [parse]
  constructor
  · intro e parsed
    obtain ⟨⟨template, es⟩, read, parsed⟩ := bind_eq_ok parsed
    obtain rfl := Except.ok.inj parsed
    obtain ⟨c, intended⟩ := Interpolation.intended_of_read (e := ⟨literal, template, es⟩) read
    exact ⟨front, kind, value, c, told, intended⟩
  · refine Blames.bind ((pieces_blames [] value (by simp)).mono ?_) fun _ _ => .ok _
    rintro ⟨t, part, fault⟩
    exact ⟨literal, value, t, front, kind, told, part, fault⟩

/-- `"a${x}%"`. -/
def shownThenPercent : Token := ⟨.string, Text.utf8 "\"a$\x7bx\x7d%\"", .none, .none⟩

/-- The percent sign behind a marker is shown as it is. -/
theorem interpolation_intended_percent :
    ∃ e, Interpolation.parse .none [shownThenPercent] = .ok e ∧
      Text.fillPlain e.template [Text.utf8 "1"] = some (Text.utf8 "a1%") := by
  have told : Text.unquote? shownThenPercent.literal = some (Text.utf8 "a$\x7bx\x7d%") := by decide +kernel
  have accepted : (Interpolation.parse .none [shownThenPercent]).toOption.isSome = true := by decide +kernel
  obtain ⟨e, found⟩ := Option.isSome_iff_exists.mp accepted
  have parsed := eq_ok_of_toOption found
  obtain ⟨front, -, value, c, told', intended⟩ := (interpolation_intended .none [shownThenPercent]).1 e parsed
  rw [← Option.some.inj front] at told'
  obtain rfl := Option.some.inj (told.symm.trans told')
  -- The only cut is the one at the marker.
  obtain rfl := intended.unique ⟨Text.utf8 "a", [(Text.utf8 "x", Text.utf8 "%")]⟩ ⟨by decide, by decide⟩ (by decide)
  have one : [Text.utf8 "1"].length = e.exprs.length := intended.markers.length_eq
  refine ⟨e, parsed, ?_⟩
  rw [intended.filled, if_pos one]
  decide

end Desugar.Form

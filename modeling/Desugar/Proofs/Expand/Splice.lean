import Mathlib
import Desugar.Expand.Expander
import Desugar.Proofs.Expand.TopLevel
import Desugar.Proofs.Token.Layout

/-!
# Expansions in the place of invocations

If every invocation at the top level of a source is expanded, the text that is handed on to be laid out
is the source with each of them replaced by its expansion. The source is told as a list of pieces:
what is kept, and invocations from the first byte of the name up to the last byte of the closing
delimiter. Names and closing delimiters are no raw strings, so they end where their tokens say that
they do, whatever stands between them.
-/
namespace Desugar.Expander

open Invocation

/-- An expansion that gives `a`, and what it leaves of a context and of the trace so far. -/
def Gives {α : Type} (x : Expansion α) (ctx : Context) (log : Array String) (a : α) (ctx' : Context)
    (log' : Array String) : Prop := (x.run.run ctx).run log = ((.ok a, ctx'), log')

/-- Invocations expanded one after the other, each in the context that those before it leave. -/
inductive ExpandsAll (expandOne : Invocation → Expansion (List Token)) :
    Context → Array String → List Invocation → List (Invocation × List Token) → Context →
      Array String → Prop where
  | nil (ctx : Context) (log : Array String) : ExpandsAll expandOne ctx log [] [] ctx log
  | cons {ctx ctx₁ ctx₂ : Context} {log log₁ log₂ : Array String} {i : Invocation}
      {produced : List Token} {is : List Invocation} {edits : List (Invocation × List Token)}
      (first : Gives (expandOne i) ctx log produced ctx₁ log₁)
      (rest : ExpandsAll expandOne ctx₁ log₁ is edits ctx₂ log₂) :
      ExpandsAll expandOne ctx log (i :: is) ((i, produced) :: edits) ctx₂ log₂

theorem Gives.pure {α : Type} (a : α) (ctx : Context) (log : Array String) :
    Gives (pure a) ctx log a ctx log := rfl

theorem Gives.bind {α β : Type} {x : Expansion α} {f : α → Expansion β} {a : α} {b : β}
    {ctx ctx₁ ctx₂ : Context} {log log₁ log₂ : Array String} (first : Gives x ctx log a ctx₁ log₁)
    (second : Gives (f a) ctx₁ log₁ b ctx₂ log₂) : Gives (x >>= f) ctx log b ctx₂ log₂ := by
  unfold Gives at *
  rw [ExceptT.run_bind, StateT.run_bind, StateT.run_bind, first]
  exact second

/-- What succeeds is tried with success. -/
theorem Gives.tried {α : Type} {x : Expansion α} {a : α} {ctx ctx' : Context} {log log' : Array String}
    (h : Gives x ctx log a ctx' log') :
    Gives (ExceptT.lift (ExceptT.run x)) ctx log (.ok a) ctx' log' := by
  unfold Gives at *
  rw [ExceptT.run_lift, StateT.run_map, StateT.run_map, h]
  rfl

/-- A loop over chunks that notes each expansion as it succeeds. -/
theorem gives_forIn {expandOne : Invocation → Expansion (List Token)}
    {note : List Token × Invocation → List (List Token × Invocation × List Token) × List Diagnostic →
      Expansion (ForInStep (List (List Token × Invocation × List Token) × List Diagnostic))}
    (step : ∀ {before i produced ctx log ctx' log' done},
      Gives (expandOne i) ctx log produced ctx' log' →
        Gives (note (before, i) (done, [])) ctx log
          (.yield ((before, i, produced) :: done, [])) ctx' log')
    {chunks : List (List Token × Invocation)} {ctx ctx' : Context} {log log' : Array String}
    {edits : List (Invocation × List Token)}
    (all : ExpandsAll expandOne ctx log (chunks.map (·.2)) edits ctx' log')
    (done : List (List Token × Invocation × List Token)) :
    Gives (forIn chunks (done, []) note) ctx log
      (((chunks.map (·.1)).zip edits).reverse ++ done, []) ctx' log' := by
  induction chunks generalizing ctx log edits done with
  | nil =>
    cases all
    exact .pure _ _ _
  | cons chunk chunks ih =>
    obtain ⟨before, i⟩ := chunk
    cases all with
    | @cons _ _ _ _ _ _ _ produced _ edits first rest =>
      rw [List.forIn_cons]
      refine (step first).bind ?_
      have whole := ih rest ((before, i, produced) :: done)
      simpa using whole

/-- Chunks are expanded if all their invocations are, one after the other. -/
theorem expandChunks_gives {expandOne : Invocation → Expansion (List Token)} {s : Split}
    {ctx ctx' : Context} {log log' : Array String} {edits : List (Invocation × List Token)}
    (complete : s.failure = none)
    (all : ExpandsAll expandOne ctx log (s.chunks.map (·.2)) edits ctx' log') :
    Gives (expandChunks expandOne s) ctx log ((s.chunks.map (·.1)).zip edits) ctx' log' := by
  unfold expandChunks
  refine Gives.bind (gives_forIn ?_ all []) ?_
  · intro before i produced ctx log ctx' log' done success
    exact success.tried.bind (.pure _ _ _)
  · simp only [complete, Option.toList_none, List.append_nil, List.reverse_reverse]
    exact .pure _ _ _

theorem ExpandsAll.invocations {expandOne : Invocation → Expansion (List Token)} {ctx ctx' : Context}
    {log log' : Array String} {is : List Invocation} {edits : List (Invocation × List Token)}
    (all : ExpandsAll expandOne ctx log is edits ctx' log') : edits.map (·.1) = is := by
  induction all with
  | nil => rfl
  | cons _ _ ih => rw [List.map_cons, ih]

theorem Gives.trace (message : String) (ctx : Context) (log : Array String) :
    Gives (Desugar.trace message) ctx log () ctx (log.push message) := rfl

/-- An invocation in whose body no other one stands is expanded by its form. -/
theorem expandInvocation_gives {e : Expander} {n : Nat} {i : Invocation} {form : Form}
    {ctx ctx' : Context} {out : List Token} (log : Array String)
    (known : e.registry.lookup i.name.text = some form) (plain : TopLevel i.body [])
    (transformed : form.transform { ctx with span := i.span } i.body = .ok (out, ctx')) :
    Gives (e.expandInvocation (n + 1) i) ctx log out ctx'
      (log.push s!"{i.name.span.start.render}: {i.name.text}! -> {Text.toString (renderTokens out)}")
    := by
  have whole : Gives (expandStream (e.expandInvocation n) i.body) ctx log i.body ctx log := by
    unfold expandStream
    rw [split_plain plain]
    exact (expandChunks_gives rfl (.nil ctx log)).bind (.pure _ _ _)
  unfold expandInvocation
  simp only [known]
  refine whole.bind (Gives.bind (a := ctx) (.pure _ _ _) ?_)
  rw [transformed]
  exact Gives.bind rfl ((Gives.trace _ _ _).bind (.pure _ _ _))

/-! What the text is made of -/

/-- A piece of a source: what is kept, and an invocation with its expansion. -/
inductive Piece where
  | kept (text : Bytes)
  | invocation (i : Invocation) (text : Bytes) (produced : List Token)

namespace Piece

/-- The bytes of the source that a piece is. -/
def source : Piece → Bytes
  | kept text => text
  | invocation _ text _ => text

/-- The bytes that stand for a piece. -/
def output : Piece → Bytes
  | kept text => text
  | invocation _ _ produced => renderTokens produced

def edit? : Piece → Option (Invocation × List Token)
  | kept _ => none
  | invocation i _ produced => some (i, produced)

end Piece

/-- Pieces that follow each other from an offset on, each invocation from the first byte of its name up
to the last byte of its closing delimiter. -/
inductive Placed : Nat → List Piece → Prop where
  | nil (last : Nat) : Placed last []
  | kept {last next : Nat} {text : Bytes} {ps : List Piece} (length : last + text.length = next) :
      Placed next ps → Placed last (.kept text :: ps)
  | invocation {last next : Nat} {i : Invocation} {text : Bytes} {produced : List Token}
      {ps : List Piece} (length : last + text.length = next) (long : last < next)
      (starts : i.name.span.start.offset = last) (stops : i.closer.span.stop.offset = next)
      (name : i.name.literal <+: text) (closer : i.closer.literal <:+ text) :
      Placed next ps → Placed last (.invocation i text produced :: ps)

/-- Invocations that stand one behind the other from an offset on, within so many bytes. -/
inductive InOrder (size : Nat) : Nat → List Invocation → Prop where
  | nil {last : Nat} (bound : last ≤ size) : InOrder size last []
  | cons {last start stop : Nat} {i : Invocation} {is : List Invocation}
      (starts : i.name.span.start.offset = start) (stops : i.closer.span.stop.offset = stop)
      (order : last ≤ start) (long : start < stop) (bound : stop ≤ size)
      (rest : InOrder size stop is) : InOrder size last (i :: is)

theorem InOrder.before {size last last' : Nat} {is : List Invocation} (order : InOrder size last' is)
    (le : last ≤ last') : InOrder size last is := by
  cases order with
  | nil bound => exact .nil (Nat.le_trans le bound)
  | cons starts stops order long bound rest =>
    exact .cons starts stops (Nat.le_trans le order) long bound rest

theorem InOrder.le {size last : Nat} {is : List Invocation} (order : InOrder size last is) :
    last ≤ size := by
  cases order <;> omega

theorem Placed.inOrder {last size : Nat} {ps : List Piece} (placed : Placed last ps)
    (length : last + (ps.flatMap Piece.source).length = size) :
    InOrder size last ((ps.filterMap Piece.edit?).map (·.1)) := by
  induction placed with
  | nil last => exact .nil (by simpa using Nat.le_of_eq length)
  | kept whole _ ih =>
    subst whole
    have rest := ih (by simpa [Piece.source, Nat.add_assoc] using length)
    exact rest.before (Nat.le_add_right _ _)
  | invocation whole long starts stops _ _ _ ih =>
    subst whole
    have rest := ih (by simpa [Piece.source, Nat.add_assoc] using length)
    exact .cons starts stops (Nat.le_refl _) long rest.le rest

/-! Where invocations stand -/

section
open Lexer Host Host.Scan

variable {text : Bytes} {told last : Nat}

/-- Tokens that are no raw string are told as they stand. -/
theorem laid_cons {t : Token} {ts : List Token} (laid : Laid text told last (t :: ts))
    (kind : t.kind ≠ .string) : ∃ start stop : Nat, t.span.start.offset = start ∧
      t.span.stop.offset = stop ∧ last ≤ start ∧ start < stop ∧ stop ≤ text.length ∧
        t.literal = Text.slice text start stop ∧ Laid text stop stop ts := by
  cases laid with
  | @token _ _ start stop _ _ starts stops long bound literal raw blank _ rest =>
    have plain : text[start]? ≠ some 0x60 := fun quote => kind (raw quote).1
    rw [slice_eq_of_other long plain] at literal
    have ends : start + t.literal.length = stop := by
      rw [literal, length_slice bound]
      omega
    rw [ends] at stops rest
    exact ⟨start, stop, starts, stops, blank.le, long, bound, literal, rest⟩

theorem laid_append {ts us : List Token} (laid : Laid text told last (ts ++ us)) :
    ∃ told' last', last ≤ last' ∧ Laid text told' last' us := by
  induction ts generalizing told last with
  | nil => exact ⟨told, last, Nat.le_refl _, laid⟩
  | cons t ts ih =>
    cases laid with
    | token _ _ long _ _ _ blank _ rest =>
      obtain ⟨told', last', le, behind⟩ := ih rest
      have forward := blank.le
      exact ⟨told', last', by omega, behind⟩

theorem slice_append_drop {p q : Nat} (order : p ≤ q) :
    Text.slice text p q ++ text.drop q = text.drop p := by
  unfold Text.slice
  have behind : text.drop q = (text.drop p).drop (q - p) := by
    rw [List.drop_drop, Nat.add_sub_cancel' order]
  rw [behind, List.take_append_drop]

theorem slice_prefix {p m q : Nat} (first : p ≤ m) (second : m ≤ q) :
    Text.slice text p m <+: Text.slice text p q := by
  rw [← Text.slice_append_slice text first second]
  exact List.prefix_append _ _

theorem slice_suffix {p m q : Nat} (first : p ≤ m) (second : m ≤ q) :
    Text.slice text m q <:+ Text.slice text p q := by
  rw [← Text.slice_append_slice text first second]
  exact List.suffix_append _ _

/-- An invocation stands from its name's first byte up to its closing delimiter's last one. -/
theorem laid_written {i : Invocation} {word rest : List Token} (written : Written i word)
    (laid : Laid text told last (word ++ rest)) : ∃ start stop : Nat,
      i.name.span.start.offset = start ∧ i.closer.span.stop.offset = stop ∧ last ≤ start ∧
        start < stop ∧ stop ≤ text.length ∧ i.name.literal <+: Text.slice text start stop ∧
          i.closer.literal <:+ Text.slice text start stop ∧ Laid text stop stop rest := by
  cases written with
  | @intro name bang opener closer body named mark touches pair nested =>
    have kind : name.kind ≠ .string := by
      rintro string
      rw [string] at named
      rcases named with named | named <;> cases named
    have kind' : closer.kind ≠ .string := by
      intro string
      have isClose := (closer_of_closer? pair).1
      rw [string] at isClose
      cases isClose
    obtain ⟨start, next, starts, -, order, long, -, literal, behind⟩ := laid_cons laid kind
    have front : bang :: opener :: (body ++ [closer]) ++ rest =
        (bang :: opener :: body) ++ closer :: rest := by simp
    rw [List.append_eq, front] at behind
    obtain ⟨told', last', le, closing⟩ := laid_append behind
    obtain ⟨before, stop, -, stops, order', long', bound, literal', last⟩ := laid_cons closing kind'
    refine ⟨start, stop, starts, stops, order, by omega, bound, ?_, ?_, last⟩
    · rw [literal]
      exact slice_prefix (by omega) (by omega)
    · rw [literal']
      exact slice_suffix (by omega) (by omega)

/-- Expansions in the place of invocations: what the text is made of, from an offset on that no token to
come stands before. -/
theorem splice_pieces {ts : List Token} {is : List Invocation} (topLevel : TopLevel ts is)
    (laid : Laid text told last ts) {offset : Nat} (behind : offset ≤ last)
    (edits : List (Invocation × List Token)) (same : edits.map (·.1) = is) :
    ∃ ps : List Piece, ps.flatMap Piece.source = text.drop offset ∧ Placed offset ps ∧
      ps.filterMap Piece.edit? = edits ∧ splice text offset edits = ps.flatMap Piece.output := by
  induction topLevel generalizing told last offset edits with
  | nil =>
    rw [List.map_eq_nil_iff] at same
    subst same
    exact ⟨[.kept (text.drop offset)], by simp [Piece.source], .kept rfl (.nil _), rfl,
      by simp [splice, Piece.output]⟩
  | @skip t ts is other _ ih =>
    have front : Laid text told last ([t] ++ ts) := laid
    obtain ⟨told', last', le, rest⟩ := laid_append front
    exact ih rest (Nat.le_trans behind le) edits same
  | @found i word rest is written _ ih =>
    obtain ⟨⟨i', produced⟩, edits, rfl, first, others⟩ := List.map_eq_cons_iff.mp same
    dsimp only at first
    subst first
    obtain ⟨start, stop, starts, stops, order, long, bound, name, closer, laid⟩ :=
      laid_written written laid
    obtain ⟨ps, whole, placed, changes, spliced⟩ := ih laid (Nat.le_refl _) edits others
    have keptLength : offset + (Text.slice text offset start).length = start := by
      rw [length_slice (by omega)]
      omega
    have wordLength : start + (Text.slice text start stop).length = stop := by
      rw [length_slice bound]
      omega
    refine ⟨.kept (Text.slice text offset start) ::
      .invocation i' (Text.slice text start stop) produced :: ps, ?_, ?_, ?_, ?_⟩
    · rw [List.flatMap_cons, List.flatMap_cons, whole]
      simp only [Piece.source]
      rw [slice_append_drop (by omega), slice_append_drop (by omega)]
    · exact .kept keptLength (.invocation wordLength long starts stops name closer placed)
    · rw [List.filterMap_cons, List.filterMap_cons, changes]
      rfl
    · rw [List.flatMap_cons, List.flatMap_cons, ← spliced, splice, starts, stops]
      simp [Piece.output]

end

/-- A source whose invocations are expanded one after the other. -/
theorem substitute_run (e : Expander) {file : String} {source : Bytes} {tokens : List Token}
    {edits : List (Invocation × List Token)} {ctx : Context} {log log' : Array String}
    (checked : Directive.check e.version file source = none)
    (read : Lexer.lex file source = .ok tokens) (complete : (split tokens).failure = none)
    (expanded : ExpandsAll (e.expandInvocation e.maxDepth) (Context.start file e.imports) log
      ((split tokens).chunks.map (·.2)) edits ctx log') :
    (e.substitute file source).run.run log = (.ok (splice source 0 edits, ctx),
      log'.push s!"{file}: expanded {edits.length} invocations") := by
  have lifted {α : Type} (a : α) : (liftM (Except.ok a : Except Failure α) : Traced α) = pure a := rfl
  have gives := expandChunks_gives complete expanded
  have done : (((split tokens).chunks.map (·.1)).zip edits).map (·.2) = edits := by
    rw [List.map_snd_zip]
    simpa using Nat.le_of_eq (congrArg List.length expanded.invocations)
  have count : (((split tokens).chunks.map (·.1)).zip edits).length = edits.length := by
    simpa using congrArg List.length done
  unfold substitute
  simp only [checked, read, lifted, pure_bind]
  rw [ExceptT.run_bind, ExceptT.run_lift, StateT.run_bind, StateT.run_map, gives]
  change (Except.ok (splice source 0 (((split tokens).chunks.map (·.1)).zip edits |>.map (·.2)), ctx),
    log'.push s!"{file}: expanded {(((split tokens).chunks.map (·.1)).zip edits).length} invocations")
      = _
  rw [done, count]

theorem prepare_run (e : Expander) {file : String} {source out : Bytes} {ctx : Context}
    {log log' : Array String}
    (substituted : (e.substitute file source).run.run log = (.ok (out, ctx), log')) :
    (e.prepare file source).run.run log =
      ((fun laidOut => (laidOut, ctx)) <$> format file out ctx.requiredPaths).run.run log' := by
  unfold prepare
  rw [ExceptT.run_bind, StateT.run_bind, substituted]
  rfl

/-- What is handed on to be laid out is the source with its invocations at the top level replaced by
their expansions: the source falls into pieces, of which the others are kept. -/
theorem prepare_replaces (e : Expander) {file : String} {source : Bytes} {tokens : List Token}
    {is : List Invocation} {edits : List (Invocation × List Token)} {ctx : Context}
    {log log' : Array String} (checked : Directive.check e.version file source = none)
    (read : Lexer.lex file source = .ok tokens) (topLevel : TopLevel tokens is)
    (expanded : ExpandsAll (e.expandInvocation e.maxDepth) (Context.start file e.imports) log is edits
      ctx log') :
    ∃ ps : List Piece, ps.flatMap Piece.source = source ∧ Placed 0 ps ∧
      ps.filterMap Piece.edit? = edits ∧ InOrder source.length 0 is ∧
        (e.substitute file source).run.run log = (.ok (ps.flatMap Piece.output, ctx),
          log'.push s!"{file}: expanded {edits.length} invocations") ∧
        (e.prepare file source).run.run log = ((fun laidOut => (laidOut, ctx)) <$>
          format file (ps.flatMap Piece.output) ctx.requiredPaths).run.run
            (log'.push s!"{file}: expanded {edits.length} invocations") := by
  obtain ⟨complete, rfl⟩ := (topLevel_iff tokens is).mp topLevel
  obtain ⟨ps, whole, placed, changes, spliced⟩ :=
    splice_pieces topLevel (Lexer.lex_laid read) (Nat.le_refl 0) edits expanded.invocations
  have substituted := substitute_run e checked read complete expanded
  rw [spliced] at substituted
  have order : InOrder source.length 0 (edits.map (·.1)) := by
    rw [← changes]
    exact placed.inOrder (by rw [whole, Nat.zero_add]; rfl)
  rw [expanded.invocations] at order
  exact ⟨ps, whole, placed, changes, order, substituted, prepare_run e substituted⟩

/-- A token on the first line of a file. -/
def tokenAt (start stop : Nat) (kind : TokenKind) (text : String) : Token :=
  ⟨kind, Text.utf8 text, ⟨⟨"m.sgo", 1, start + 1, start⟩, ⟨"m.sgo", 1, stop + 1, stop⟩⟩, .none⟩

/-- The invocation in `x:=hml!{}`. -/
def emptyMap : Invocation := ⟨tokenAt 3 6 .identifier "hml", tokenAt 8 9 .rbrace "\x7d", []⟩

/-- What an invocation without entries becomes. -/
def emptyMapCall : List Token :=
  [tokenAt 3 9 .identifier "make", tokenAt 3 9 .lparen "(", tokenAt 3 9 .map "map",
    tokenAt 3 9 .lbracket "[", tokenAt 3 9 .identifier "any", tokenAt 3 9 .rbracket "]",
    tokenAt 3 9 .identifier "any", tokenAt 3 9 .rparen ")"]

theorem prepare_replaces_emptyMap :
    ∃ (e : Expander) (ctx : Context) (log : Array String) (ps : List Piece),
      ps.flatMap Piece.source = Text.utf8 "x:=hml!\x7b\x7d" ∧ Placed 0 ps ∧
        ps.filterMap Piece.edit? = [(emptyMap, emptyMapCall)] ∧
        (e.substitute "m.sgo" (Text.utf8 "x:=hml!\x7b\x7d")).run.run #[] =
          (.ok (ps.flatMap Piece.output, ctx), log) := by
  let e : Expander := ⟨.standard, ⟨"", ""⟩, 64, false, ".sgo", ⟨0, 3, 0, "", ""⟩⟩
  have checked : Directive.check e.version "m.sgo" (Text.utf8 "x:=hml!\x7b\x7d") = none :=
    Option.isNone_iff_eq_none.mp (by decide +kernel)
  have read : Lexer.lex "m.sgo" (Text.utf8 "x:=hml!\x7b\x7d") = .ok ([tokenAt 0 1 .identifier "x",
      tokenAt 1 3 .operator ":="] ++ [emptyMap.name, tokenAt 6 7 .not "!", tokenAt 7 8 .lbrace "\x7b",
      emptyMap.closer]) := eq_ok_of_toOption (by decide +kernel)
  have topLevel : TopLevel ([tokenAt 0 1 .identifier "x", tokenAt 1 3 .operator ":="] ++
      [emptyMap.name, tokenAt 6 7 .not "!", tokenAt 7 8 .lbrace "\x7b", emptyMap.closer])
      [emptyMap] := by
    have written : Written emptyMap [emptyMap.name, tokenAt 6 7 .not "!", tokenAt 7 8 .lbrace "\x7b",
        emptyMap.closer] := .intro (.inl rfl) rfl rfl rfl .nil
    refine .skip ?_ (.skip ?_ (@TopLevel.found _ _ [] [] written .nil))
    · rintro ⟨-, mark, -, -⟩
      cases mark
    · rintro ⟨named, -, -, -⟩
      rcases named with named | named <;> cases named
  have known : e.registry.lookup emptyMap.name.text =
      some (.of "hml" Form.MapLiteral.parse Form.MapLiteral.emit) := by cbv
  have transformed : (Form.of "hml" Form.MapLiteral.parse Form.MapLiteral.emit).transform
      { Context.start "m.sgo" ⟨"", ""⟩ with span := emptyMap.span } emptyMap.body =
      .ok (emptyMapCall, { Context.start "m.sgo" ⟨"", ""⟩ with span := emptyMap.span }) :=
    eq_ok_of_toOption (by decide +kernel)
  have expanded := expandInvocation_gives (e := e) (n := 63) #[] known .nil transformed
  obtain ⟨ps, whole, placed, changes, -, substituted, -⟩ :=
    prepare_replaces e checked read topLevel (.cons expanded (.nil _ _))
  exact ⟨e, _, _, ps, whole, placed, changes, substituted⟩

end Desugar.Expander

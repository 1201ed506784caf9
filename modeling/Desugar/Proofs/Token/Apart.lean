import Desugar.Proofs.Host.Accepted
import Desugar.Proofs.Token.Reported

/-!
# Exclamation marks behind names

In an orderly text no exclamation mark is the lexeme behind a name. Then no exclamation mark that is a
token touches a name: comments and automatic semicolons are no tokens, but where the bytes of the mark
stand directly behind the name, the scanner reads it as the very next lexeme.
-/
namespace Desugar.Lexer

open Host Host.Scan Host.Reader

variable {text : Bytes} {o : Origin} {lines : LineTable}

/-- The second token is no exclamation mark that touches a name. -/
def Apart (t u : Token) : Prop :=
  (t.kind = .identifier ∨ t.kind = .map) → u.kind = .not → u.gap ≠ .none

/-- A token is its lexeme unless a question mark or a star is in it. -/
theorem classify_plain {bytes : Array UInt8} {l : Lexeme}
    (plain : (classify bytes l).1 ∉ [.elvis, .elvisAssign, .question, .spreadDot]) :
    classify bytes l = (.ofHost l.kind, l.text, false) := by
  unfold classify at plain ⊢
  split
  · rename_i question
    rw [if_pos question] at plain
    split at plain
    · exact absurd plain (by decide)
    split at plain
    · exact absurd plain (by decide)
    · exact absurd plain (by simp)
  · rename_i question
    rw [if_neg question] at plain
    split
    · rename_i star
      rw [if_pos star] at plain
      exact absurd plain (by decide)
    · rfl

theorem ofHost_not {k : Kind} (same : TokenKind.ofHost k = .not) : k = .not := by
  cases k <;> first | rfl | cases same

theorem ofHost_name {k : Kind} (same : TokenKind.ofHost k = .identifier ∨ TokenKind.ofHost k = .map) :
    k.isName = true := by
  cases k <;> first | rfl | rcases same with same | same <;> cases same

/-- What becomes a token stands where it is read or behind. -/
theorem next_stands {s : State} (h : s.reader.At text) (masked : Masked text (Scan.next s).1.faults)
    (proper : isProper (Scan.next s).1 = true) : s.reader.offset ≤ (Scan.next s).1.offset ∧
      (Scan.next s).1.StandsAt text (Scan.next s).2.reader.offset := by
  obtain ⟨comment, eof, automatic⟩ := (isProper_iff _).mp proper
  cases next_step h masked with
  | proper _ blank stands => exact ⟨blank.le, stands⟩
  | skipped kind =>
    rcases kind with kind | kind | kind
    · exact absurd kind comment
    · exact absurd kind eof
    · rw [kind] at automatic
      cases automatic

theorem Reads.stands {s : State} {ls : List Lexeme} (reads : Reads s ls) (h : s.reader.At text)
    (masked : ∀ l ∈ ls, Masked text l.faults) :
    ∀ l ∈ ls, isProper l = true → s.reader.offset ≤ l.offset ∧ ∃ q, l.StandsAt text q := by
  induction reads with
  | stop eof =>
    exact List.forall_mem_singleton.mpr fun proper =>
      (next_stands h (masked _ List.mem_cons_self) proper).imp_right fun stands => ⟨_, stands⟩
  | @step s ls more rest ih =>
    obtain ⟨here, later⟩ := List.forall_mem_cons.mp masked
    refine List.forall_mem_cons.mpr ⟨fun proper => ?_, fun l member proper => ?_⟩
    · exact (next_stands h here proper).imp_right fun stands => ⟨_, stands⟩
    · obtain ⟨behind, stands⟩ := ih ((next_handedOver s).at h) later l member proper
      have forward : s.reader.offset ≤ (Scan.next s).2.reader.offset := by
        cases next_step h here with
        | proper _ blank stands => exact Nat.le_trans blank.le (Nat.le_of_lt stands.long)
        | skipped _ blank => exact blank.le
      exact ⟨Nat.le_trans forward behind, stands⟩

/-- A name ends where it is told to. -/
theorem stop_of_name {l : Lexeme} {q : Nat} (stands : l.StandsAt text q) (name : l.kind.isName = true) :
    l.offset + l.text.length = q := by
  have plain : text[l.offset]? ≠ some 0x60 := by
    intro quote
    rw [(stands.raw quote).1] at name
    cases name
  have long := stands.long
  rw [stands.told, spelling, head?_slice long, if_neg plain, length_slice stands.bound]
  omega

/-- An exclamation mark that stands where reading goes on is the lexeme that is read. -/
theorem Reads.bang {s : State} {ls : List Lexeme} (reads : Reads s ls) (h : s.reader.At text)
    (masked : ∀ l ∈ ls, Masked text l.faults) (pending : s.pending = none) {t : Token}
    (first : (tokens o lines text.toArray s.reader.offset (ls.filter isProper)).head? = some t)
    (mark : t.kind = .not) (touches : t.gap = .none) : ∃ l ∈ ls.head?, l.kind = .not := by
  cases proper : ls.filter isProper with
  | nil =>
    rw [proper] at first
    cases first
  | cons l rest =>
    rw [proper, tokens_cons, List.head?_cons] at first
    obtain rfl := Option.some.inj first
    have mark : (classify text.toArray l).1 = .not := mark
    have touches : Gap.ofText (text.toArray.extract s.reader.offset l.offset).toList = .none := touches
    have whole : classify text.toArray l = (.ofHost l.kind, l.text, false) :=
      classify_plain (by rw [mark]; decide)
    have kind : l.kind = .not := ofHost_not (by rw [whole] at mark; exact mark)
    have kept : l ∈ ls.filter isProper := proper ▸ List.mem_cons_self
    obtain ⟨listed, isProper⟩ := List.mem_filter.mp kept
    obtain ⟨behind, q, stands⟩ := reads.stands h masked l listed isProper
    have spelt : l.text = [0x21] := by
      rw [stands.operator (by rw [kind]; rfl), kind]
      decide
    obtain ⟨byte, -⟩ := standsAt_single stands spelt (by decide)
    have here : l.offset = s.reader.offset := by
      rw [slice_toArray] at touches
      unfold Gap.ofText at touches
      split at touches
      · rename_i empty
        have lengths := congrArg List.length (List.isEmpty_iff.mp empty)
        have inside := (List.getElem?_eq_some_iff.mp byte).1
        rw [length_slice (by omega), List.length_nil] at lengths
        omega
      · split at touches <;> cases touches
    have next := next_of_bang h pending (here ▸ byte)
    have same : (Scan.next s).1 = l := by
      cases reads with
      | stop =>
        rw [List.filter_cons_of_pos next] at proper
        exact (List.cons.inj proper).1
      | step =>
        rw [List.filter_cons_of_pos next] at proper
        exact (List.cons.inj proper).1
    cases reads with
    | stop => exact ⟨_, rfl, same ▸ kind⟩
    | step => exact ⟨_, rfl, same ▸ kind⟩

/-- The tokens of orderly lexemes are apart, also where the first lexeme is a mark that the token before
has taken along. -/
theorem apart_of_reads {s : State} {ls : List Lexeme} (reads : Reads s ls) (h : s.reader.At text)
    (orderly : Orderly ls) :
    (∀ told, (tokens o lines text.toArray told (ls.filter isProper)).IsChain Apart) ∧
      (s.pending = none → ∀ mark, IsMark mark → glues text.toArray s.reader.offset mark = true →
        ∀ told, (tokens o lines text.toArray told (ls.filter isProper).tail).IsChain Apart) := by
  induction reads with
  | @stop s eof =>
    have skips : ¬ isProper (Scan.next s).1 = true := fun proper => ((isProper_iff _).mp proper).2.1 eof
    rw [List.filter_cons_of_neg skips]
    exact ⟨fun _ => .nil, fun _ _ _ _ _ => .nil⟩
  | @step s ls more rest ih =>
    obtain ⟨clear, apart⟩ := orderly
    obtain ⟨here, later⟩ := List.forall_mem_cons.mp clear
    have after := (next_handedOver s).at h
    obtain ⟨plain, glued⟩ := ih after ⟨later, apart.tail⟩
    by_cases proper : isProper (Scan.next s).1 = true
    · rw [List.filter_cons_of_pos proper]
      refine ⟨fun told => ?_, fun _ mark isMark glue told => plain told⟩
      have pending := (next_pending s).resolve_left ((isProper_iff _).mp proper).1
      obtain ⟨-, stands⟩ := next_stands h (by simp [Masked, here]) proper
      rw [tokens_cons]
      by_cases name : (classify text.toArray (Scan.next s).1).1 = .identifier ∨
          (classify text.toArray (Scan.next s).1).1 = .map
      · have whole : classify text.toArray (Scan.next s).1 =
            (.ofHost (Scan.next s).1.kind, (Scan.next s).1.text, false) := by
          refine classify_plain ?_
          rcases name with name | name <;> rw [name] <;> decide
        rw [whole] at name ⊢
        refine List.isChain_cons.mpr ⟨fun t first _ mark touches => ?_, plain _⟩
        have isName := ofHost_name name
        rw [stop_of_name stands isName] at first
        obtain ⟨l, found, bang⟩ := rest.bang after (fun l member => by simp [Masked, later l member])
          pending first mark touches
        exact (List.isChain_cons.mp apart).1 l found isName bang
      · refine List.isChain_cons.mpr ⟨fun _ _ named => absurd named name, ?_⟩
        have becomes := classify_becomes stands
        generalize classify text.toArray (Scan.next s).1 = c at becomes
        cases becomes with
        | plain => exact plain _
        | glued single other isMark glue =>
          obtain ⟨-, stop⟩ := standsAt_single stands single other
          exact glued pending _ isMark (stop ▸ glue) _
    · rw [List.filter_cons_of_neg proper]
      refine ⟨plain, fun pending mark isMark glue => ?_⟩
      exact absurd (next_of_glues h pending isMark glue).1 proper

/-- An orderly text is read as tokens that are apart. -/
theorem lex_of_orderly {file : String} (orderly : Orderly (scan file text).lexemes) :
    ∃ ts, lex file text = .ok ts ∧ ts.IsChain Apart := by
  have reads := reads_scan file text
  have stands : (ofText text).At text := by
    rcases ofText_cases text with ⟨stands, -⟩ | ⟨wide, -⟩
    · exact stands
    · obtain ⟨l, member, noted⟩ := reads.head wide
      rw [orderly.clear l member] at noted
      cases noted
  have clear : (Lexer.read { file } text).faults = [] := by
    refine List.eq_nil_iff_forall_not_mem.mpr fun d reported => ?_
    obtain ⟨l, member, f, noted, -⟩ := (mem_faults _ _ d).mp reported
    rw [orderly.clear l member] at noted
    cases noted
  refine ⟨_, (lexAt_eq _ _).trans (if_pos clear), ?_⟩
  exact (apart_of_reads reads stands orderly).1 0

end Desugar.Lexer

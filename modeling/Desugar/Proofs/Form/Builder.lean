import Desugar.Form.Builder
import Desugar.Proofs.Token.Closed
import Desugar.Proofs.Token.Spelling
import Desugar.Proofs.Token.Stable

/-!
# Built streams are read again

A stream is built from runs of tokens, each of which is read again on its own. Put together, each run
is still read as it was: a run that a word ends is followed by a blank, a delimiter or, behind an
identifier, a point, and inside of a run only blanks are added. The one token that does not end where it
did is a character literal that its line was left to end.
-/
namespace Desugar

open Host Host.Scan Lexer

namespace Lexer

/-- The tokens that nothing makes longer. -/
def delimiters : List (TokenKind × Bytes) :=
  [(.lparen, [0x28]), (.rparen, [0x29]), (.lbracket, [0x5B]), (.rbracket, [0x5D]), (.lbrace, [0x7B]),
    (.rbrace, [0x7D]), (.comma, [0x2C]), (.semicolon, [0x3B])]

/-- Tokens with a space before each word that would touch the word before it; `word` says whether a word
stands before the first of them. -/
def spaced (word : Bool) : List Token → List Token
  | [] => []
  | t :: ts =>
    (if t.gap = .none && word && t.kind.isWordlike then { t with gap := .space } else t) ::
      spaced t.kind.isWordlike ts

theorem spaced_literals (word : Bool) (ts : List Token) :
    (spaced word ts).map meaning = ts.map meaning := by
  induction ts generalizing word with
  | nil => rfl
  | cons t ts ih =>
    rw [spaced, List.map_cons, ih, List.map_cons]
    split <;> rfl

theorem spaced_getLast? (word : Bool) (ts : List Token) :
    (spaced word ts).getLast?.map meaning = ts.getLast?.map meaning := by
  rw [← List.getLast?_map, spaced_literals, List.getLast?_map]

/-! ## What stands behind a run -/

/-- What follows a run is apart from its last token: a blank or a delimiter follows, or the run ends in a
delimiter, or in an identifier before a point. -/
def Fits (ts : List Token) (Y : List Char) : Prop :=
  Y.head? ∈ idle ∨ ∀ t, ts.getLast? = some t →
    meaning t ∈ delimiters ∨ (t.kind = .identifier ∧ Y.head? = some '.')

theorem Fits.congr {ts ts' : List Token} {Y : List Char} (h : Fits ts Y)
    (same : ts'.getLast?.map meaning = ts.getLast?.map meaning) : Fits ts' Y := by
  refine h.imp_right fun last t found => ?_
  rw [found, Option.map_some, eq_comm, Option.map_eq_some_iff] at same
  obtain ⟨t', found', alike⟩ := same
  obtain ⟨kinds, -⟩ := Prod.mk.inj alike
  rw [← alike, ← kinds]
  exact last t' found'

/-- A delimiter is one before everything. -/
theorem tokenAs_delimiter {t : Token} (delimiter : meaning t ∈ delimiters) {w : List Char}
    (spelt : Text.encode w = t.literal) (Y : List Char) :
    TokenAs w Y t.kind ∧ w.head?.all (· ∉ [':', '=', '.']) = true := by
  have table : ∀ e ∈ delimiters, ∃ p ∈ Kind.operators, Text.encode (word p) = e.2 ∧
      TokenKind.ofHost p.1 = e.1 ∧ p.1 ≠ .mul ∧
      (word p).head? ∉ [some '/', some ':', some '=', some '.'] ∧
      ∀ q ∈ Kind.operators, word p <+: word q → (word q).length ≤ (word p).length := by
    decide
  obtain ⟨p, known, told, kind, other, head, longest⟩ := table _ delimiter
  have kind : TokenKind.ofHost p.1 = t.kind := kind
  obtain rfl : word p = w := Text.encode_injective (told.trans spelt.symm)
  simp only [List.mem_cons, List.not_mem_nil, or_false, not_or] at head
  obtain ⟨slash, colon, equals, point⟩ := head
  constructor
  · rw [← kind]
    refine tokenAs_operator known (fun q known' front longer => ?_) other slash
      fun mark => absurd mark point
    have := longest q known' front
    omega
  · cases spelling : word p with
    | nil => rfl
    | cons d v =>
      rw [spelling] at colon equals point
      simp only [List.head?_cons, Option.some.injEq] at colon equals point
      simp [colon, equals, point]

/-- How a run goes on where blanks may have been added and something follows. -/
def Behind (word : Bool) (X X' : List Char) : Prop :=
  Continues X X' ∨ (word = true ∧ X.head? ≠ some '?' ∧ ∃ Z, X' = ' ' :: Z)

theorem Behind.head {word : Bool} {X X' : List Char} (h : Behind word X X') :
    X'.head? = X.head? ∨ X'.head? ∈ idle := by
  rcases h with ⟨same | ⟨calm, -⟩, -⟩ | ⟨-, -, Z, rfl⟩
  · exact .inl same
  · exact .inr calm
  · exact .inr (by simp [Host.idle])

/-- No word is a mark by itself. -/
theorem TokenAs.not_mark {c : Char} {X : List Char} {kind : TokenKind} (h : TokenAs [c] X kind)
    (plain : ∀ x ∈ [c] ++ X, IsPlain x) (word : kind.isWordlike = true) : c ∉ [':', '=', '.'] := by
  intro isMark
  have classes : ∀ c ∈ [':', '=', '.'], isLetter c = false ∧ isDecimal c = false ∧
      c ∉ ['\n', '"', '\'', Char.ofNat 0x60, '/'] := by decide
  have letter := classes c isMark
  cases h with
  | glued same => cases same
  | @plain k literal reads proper single becomes =>
    obtain ⟨text, start, upon, fresh, s, gives⟩ := gives_alone reads plain
    obtain ⟨-, -, same⟩ := classifyBefore_word becomes word X
    by_cases digit : (isDecimal c || c == '.' && 0x30 ≤ start.peek && start.peek ≤ 0x39) = true
    · -- A number that begins with a point takes a digit along.
      have point : c = '.' := by
        rw [letter.2.1, Bool.false_or, Bool.and_assoc, Bool.and_eq_true] at digit
        exact beq_iff_eq.mp digit.1
      subst point
      have behind := peek_digit X upon
      rw [letter.2.1, Bool.false_or, Bool.and_assoc, Bool.and_eq_true, behind] at digit
      cases X with
      | nil => exact absurd digit.2 (by decide)
      | cons d X =>
        have isDigit : isDecimal d = true := digit.2
        have short := number_point start (by rw [upon.sees]; rfl) upon.next.1.char? isDigit
        have read : (lexeme s start '.').2.reader.rest = (number start).1.rest := by
          unfold lexeme
          rw [if_neg (by simp [letter.1]), if_pos (by rw [Bool.and_assoc, behind]; simp [isDigit])]
          rfl
        rw [← read, gives.upon.front, upon.next.1.next.1.front] at short
        have := Text.length_encodeChar_pos d
        simp only [Text.encode_cons, List.length_append] at short
        omega
    · rw [lexeme_eq_symbol s letter.1 (by simpa using digit) letter.2.2] at gives
      unfold symbol at gives
      have operators : ∀ p ∈ Kind.operators, (TokenKind.ofHost p.1).isWordlike = false := by decide
      split at gives
      · rename_i n kind found
        obtain ⟨p, known, rfl, -⟩ := operator?_longest (upon.front ▸ found)
        have kind : p.1 = k := gives.kind
        rw [← same, ← kind, operators p known] at word
        cases word
      · have kind : Kind.illegal = k := gives.kind
        rw [← same, ← kind] at word
        exact absurd word (by decide)

/-- Behind the same first character, unless it is a mark by itself, nothing is looked at. -/
theorem Continues.of_word {w : List Char} (starts : StartsWord w)
    (other : w.tail = [] → w.head?.all (· ∉ [':', '=', '.']) = true) (X X' : List Char) :
    Continues (w ++ X) (w ++ X') := by
  obtain ⟨c, v, rfl, -⟩ := starts
  cases v with
  | nil => exact .of_head (by simpa using other rfl) X X'
  | cons y v => exact ⟨.inl rfl, fun _ _ _ => .inl rfl⟩

theorem idle_marks : ∀ x ∈ idle, ∀ c, x = some c → c ∉ [':', '=', '.'] := by
  intro x calm c same
  subst same
  simp only [idle, List.mem_cons, reduceCtorEq, Option.some.injEq, List.not_mem_nil, or_false,
    false_or] at calm
  rcases calm with rfl | rfl | rfl | rfl | rfl | rfl <;> decide

/-- The last token of a run is read before what fits behind it. -/
theorem TokenAs.last {t : Token} {w Y : List Char} (h : TokenAs w [] t.kind) (starts : StartsWord w)
    (spelt : Text.encode w = t.literal) (plain : ∀ c ∈ w ++ [], IsPlain c) (closed : Lexer.IsClosed w)
    (fits : Fits [t] Y) : TokenAs w Y t.kind ∧ Continues (w ++ []) (w ++ Y) := by
  rcases fits with calm | last
  · have goes : Continues [] Y := by
      refine ⟨.inr ⟨calm, by decide⟩, fun c isMark head => ?_⟩
      rw [head] at calm
      exact absurd isMark (idle_marks _ calm c rfl)
    exact ⟨h.mono starts plain goes closed, goes.append w⟩
  rcases last t rfl with delimiter | ⟨identifier, point⟩
  · obtain ⟨token, other⟩ := tokenAs_delimiter delimiter spelt Y
    exact ⟨token, .of_word starts (fun _ => other) [] Y⟩
  · rw [identifier] at h ⊢
    obtain ⟨letter, before⟩ := h.identifier starts plain
    refine ⟨before Y (by rw [point]; decide), .of_word starts (fun _ => ?_) [] Y⟩
    have marks : ∀ c ∈ [':', '=', '.'], isLetter c = false := by decide
    cases head : w.head? with
    | none => rfl
    | some c =>
      rw [head] at letter
      rw [Option.all_some, decide_eq_true_eq]
      intro isMark
      rw [Option.any_some, marks c isMark] at letter
      cases letter

/-- A run is read before what fits behind it, wherever blanks are added. -/
theorem Rereads.before {us : List Token} {cs : List Char} (h : Rereads us cs)
    (plain : ∀ c ∈ cs, IsPlain c) (closed : ∀ t ∈ us, t.IsClosed) {vs : List Token} {Y : List Char}
    (rest : Rereads vs Y) (plain' : ∀ c ∈ Y, IsPlain c) (fits : Fits us Y) (word : Bool) :
    ∃ cs', Rereads (spaced word us ++ vs) cs' ∧ (∀ c ∈ cs', IsPlain c) ∧
      (us = [] → cs' = Y) ∧ (us ≠ [] → Behind word cs cs') := by
  induction h generalizing word with
  | nil => exact ⟨Y, rest, plain', fun _ => rfl, fun nonempty => absurd rfl nonempty⟩
  | @cons t us w X starts spelt token tail ih =>
    have inside : ∀ c ∈ w ++ X, IsPlain c := fun c member => plain c (List.mem_append_right _ member)
    obtain ⟨isClosed, closed⟩ := List.forall_mem_cons.mp closed
    have isClosed := isClosed.word spelt
    have later : Fits us Y := by
      refine fits.imp_right fun last t' found => last t' ?_
      rw [List.getLast?_cons, found]
      rfl
    obtain ⟨X', rereads, plain'', done, behind⟩ :=
      ih (fun c member => inside c (List.mem_append_right _ member)) closed later t.kind.isWordlike
    have again : TokenAs w X' t.kind ∧ Continues (w ++ X) (w ++ X') := by
      by_cases last : us = []
      · subst last
        cases tail
        rw [done rfl]
        exact token.last starts spelt inside isClosed fits
      rcases behind last with goes | ⟨isWord, question, Z, rfl⟩
      · exact ⟨token.mono starts inside goes isClosed, goes.append w⟩
      · refine ⟨token.beforeBlank starts inside isWord question isClosed Z,
          .of_word starts (fun single => ?_) _ _⟩
        obtain ⟨c, v, rfl, -⟩ := starts
        obtain rfl : v = [] := single
        simpa using token.not_mark inside isWord
    rw [spaced]
    by_cases touch : (t.gap = .none && word && t.kind.isWordlike) = true
    · rw [if_pos touch]
      simp only [Bool.and_eq_true, decide_eq_true_eq] at touch
      obtain ⟨⟨touch, before⟩, isWord⟩ := touch
      refine ⟨_, .cons (t := { t with gap := .space }) starts spelt again.1 rereads, ?_, nofun, fun _ => ?_⟩
      · intro c member
        rcases List.mem_append.mp member with gap | member
        · exact gapChars_plain _ c gap
        rcases List.mem_append.mp member with here | there
        · exact inside c (List.mem_append_left _ here)
        · exact plain'' c there
      · refine .inr ⟨before, ?_, _, rfl⟩
        have front := token.head_ne inside isWord
        obtain ⟨c, v, rfl, -⟩ := starts
        rw [touch]
        exact front
    · rw [if_neg touch]
      refine ⟨_, .cons starts spelt again.1 rereads, ?_, nofun, fun _ => .inl (again.2.append _)⟩
      intro c member
      rcases List.mem_append.mp member with gap | member
      · exact gapChars_plain _ c gap
      rcases List.mem_append.mp member with here | there
      · exact inside c (List.mem_append_left _ here)
      · exact plain'' c there

/-- Tokens of known characters are told by what they are apart from their places. -/
theorem Rereads.congr {ts ts' : List Token} {cs : List Char} (h : Rereads ts cs)
    (same : ts'.map shape = ts.map shape) : Rereads ts' cs := by
  induction h generalizing ts' with
  | nil =>
    obtain rfl : ts' = [] := by simpa using same
    exact .nil
  | @cons t ts w X starts spelt token rest ih =>
    cases ts' with
    | nil => cases same
    | cons t' ts' =>
      obtain ⟨here, later⟩ := List.cons.inj same
      obtain ⟨kind, literal, gap⟩ : t'.kind = t.kind ∧ t'.literal = t.literal ∧ t'.gap = t.gap := by
        simpa [shape] using here
      rw [← gap]
      exact .cons starts (spelt.trans literal.symm) (kind ▸ token) (ih later)

/-- Tokens that are told by their own characters, each before what follows it. -/
def Legible (ts : List Token) : Prop := ∃ cs, Rereads ts cs ∧ ∀ c ∈ cs, IsPlain c

theorem Legible.congr {ts ts' : List Token} (h : Legible ts) (same : ts'.map shape = ts.map shape) :
    Legible ts' := by
  obtain ⟨cs, rereads, plain⟩ := h
  exact ⟨cs, rereads.congr same, plain⟩

/-- Tokens that stay what they are wherever a blank is put between them. -/
structure Firm (ts : List Token) : Prop where
  legible : Legible ts
  closed : ∀ t ∈ ts, t.IsClosed

/-- What is written out as an expression is firm. -/
theorem Legible.firm {ts : List Token} (h : Legible ts) {name : String} {x : Expr}
    (accepted : parseExpr name (renderTokens ts) = .ok x) : Firm ts := by
  refine ⟨h, ?_⟩
  obtain ⟨cs, rereads, plain⟩ := h
  cases rereads with
  | nil => simp
  | @cons t ts w X starts spelt token rest =>
    -- The gap before the first token is not written.
    have first : Rereads ({ t with gap := .none } :: ts) (w ++ X) := .cons starts spelt token rest
    have told : renderTokens (t :: ts) = Text.encode (w ++ X) := by
      rw [renderTokens, Text.encode_append, spelt, rest.encode]
    have inside : ∀ c ∈ w ++ X, IsPlain c := fun c member => plain c (List.mem_append_right _ member)
    obtain ⟨here, later⟩ := List.forall_mem_cons.mp (first.closed_of_parseExpr inside (told ▸ accepted))
    exact List.forall_mem_cons.mpr ⟨here, later⟩

end Lexer

namespace Builder

/-- Whether the last token so far is a word. -/
def endsWord (b : Builder) : Bool := b.built.head?.any (·.kind.isWordlike)

theorem push_eq (b : Builder) (t : Token) :
    (b.push t).built = (spaced b.endsWord [t]).reverse ++ b.built ∧ (b.push t).span = b.span ∧
      (b.push t).endsWord = t.kind.isWordlike := by
  unfold push endsWord
  cases b.built with
  | nil => simp [spaced]
  | cons last built =>
    simp only [List.head?_cons, Option.any_some, spaced]
    split <;> simp_all

theorem stream_foldl_push (ts : List Token) (b : Builder) :
    (ts.foldl push b).stream = b.stream ++ spaced b.endsWord ts := by
  induction ts generalizing b with
  | nil => simp [spaced]
  | cons t ts ih =>
    obtain ⟨built, -, ends⟩ := push_eq b t
    rw [List.foldl_cons, ih, ends, stream, built, stream, List.reverse_append, List.reverse_reverse,
      List.append_assoc]
    rfl

/-- Whatever fits behind the tokens so far is read behind them. -/
def Ready (b : Builder) : Prop :=
  ∀ vs Y, Rereads vs Y → (∀ c ∈ Y, IsPlain c) → Fits b.stream Y → Legible (b.stream ++ vs)

theorem ready_empty (span : Span) : Ready { span } := fun _ Y rereads plain _ => ⟨Y, rereads, plain⟩

theorem Ready.legible {b : Builder} (h : b.Ready) : Legible b.stream := by
  have := h [] [] .nil (by simp) (.inl (by decide))
  rwa [List.append_nil] at this

/-- A run that fits behind the tokens so far can be added. -/
theorem Ready.push {b : Builder} (h : b.Ready) {us : List Token} {cs : List Char}
    (rereads : Rereads us cs) (plain : ∀ c ∈ cs, IsPlain c) (closed : ∀ u ∈ us, u.IsClosed)
    (fits : Fits b.stream cs) : (us.foldl Builder.push b).Ready := by
  unfold Ready
  rw [stream_foldl_push]
  intro vs Y rest plain' behind
  cases us with
  | nil =>
    simp only [spaced, List.append_nil] at behind ⊢
    exact h vs Y rest plain' behind
  | cons t us =>
    have last : Fits (t :: us) Y := by
      refine behind.congr ?_
      rw [List.getLast?_append_of_ne_nil _ (by simp [spaced]), spaced_getLast?]
    obtain ⟨cs', rereads', plain'', -, moved⟩ :=
      rereads.before plain closed rest plain' last b.endsWord
    have meets : Fits b.stream cs' := by
      rcases (moved nofun).head with same | calm
      · unfold Fits
        rwa [same]
      · exact .inl calm
    rw [List.append_assoc]
    exact h _ cs' rereads' plain'' meets

/-! ## Code and source tokens -/

/-- A piece of code and the tokens that it is. -/
structure IsCode (text : String) (ts : List Token) : Prop where
  rereads : Rereads ts text.toList
  plain : ∀ c ∈ text.toList, IsPlain c
  closed : ∀ t ∈ ts, t.IsClosed
  nonempty : ts ≠ []

theorem foldl_push_here (ts : List Token) (b : Builder) :
    ts.foldl (fun b t => b.push { t with span := b.span }) b =
      (ts.map fun t => { t with span := b.span }).foldl push b := by
  induction ts generalizing b with
  | nil => rfl
  | cons t ts ih => rw [List.foldl_cons, ih, List.map_cons, List.foldl_cons, (push_eq b _).2.1]

/-- The tokens of code stand at the span of the builder. -/
theorem code_eq {text : String} {ts : List Token} (h : IsCode text ts) (b : Builder) :
    ∃ us : List Token, b.code text = us.foldl push b ∧ us.map shape = ts.map shape := by
  obtain ⟨ts', read, same⟩ := lexAt_of_rereads h.rereads h.plain { file := "" }
  refine ⟨ts'.map fun t => { t with span := b.span }, ?_, ?_⟩
  · unfold code Lexer.lex
    rw [Text.utf8_eq_encode, read]
    exact foldl_push_here ts' b
  · rw [List.map_map]
    exact same

theorem Ready.code {b : Builder} (h : b.Ready) {text : String} {ts : List Token} (code : IsCode text ts)
    (fits : Fits b.stream text.toList) : (b.code text).Ready := by
  obtain ⟨us, built, same⟩ := code_eq code b
  rw [built]
  refine h.push (code.rereads.congr same) code.plain (fun u member v quote => ?_) fits
  obtain ⟨t, member', alike⟩ := List.mem_map.mp (same ▸ List.mem_map_of_mem member)
  have literal : t.literal = u.literal := congrArg (fun s => s.2.1) alike
  exact code.closed t member' v (literal.trans quote)

/-- The tokens of code are added at the end, apart from blanks between them. -/
theorem stream_code {text : String} {ts : List Token} (code : IsCode text ts) (b : Builder) :
    (b.code text).stream.map meaning = b.stream.map meaning ++ ts.map meaning := by
  obtain ⟨us, built, same⟩ := code_eq code b
  have kept : us.map meaning = ts.map meaning := by
    have := congrArg (List.map fun s => (s.1, s.2.1)) same
    rw [List.map_map, List.map_map] at this
    exact this
  rw [built, stream_foldl_push, List.map_append, spaced_literals, kept]

/-- So are tokens of the source. -/
theorem stream_tokens (b : Builder) (ts : List Token) :
    (b.tokens ts).stream.map meaning = b.stream.map meaning ++ ts.map meaning := by
  cases ts with
  | nil => exact (List.append_nil _).symm
  | cons t ts =>
    have added : b.tokens (t :: ts) = ({ t with gap := .space } :: ts).foldl Builder.push b := rfl
    rw [added, stream_foldl_push, List.map_append, spaced_literals]
    rfl

theorem getLast?_code {text : String} {ts : List Token} (code : IsCode text ts) (b : Builder) :
    (b.code text).stream.getLast?.map meaning = ts.getLast?.map meaning := by
  have nonempty : ts.map meaning ≠ [] := by simpa using code.nonempty
  rw [← List.getLast?_map, stream_code code b, List.getLast?_append_of_ne_nil _ nonempty, List.getLast?_map]

/-- Behind code that ends in a delimiter everything fits. -/
theorem fits_code {text : String} {ts : List Token} (code : IsCode text ts)
    (last : (ts.getLast?.map meaning).all (· ∈ delimiters) = true) (b : Builder) (Y : List Char) :
    Fits (b.code text).stream Y := by
  refine .inr fun t found => .inl ?_
  have same := getLast?_code code b
  rw [found, Option.map_some] at same
  rw [← same] at last
  simpa using last

/-- Source tokens stand behind a space, so they fit everywhere. -/
theorem Ready.tokens {b : Builder} (h : b.Ready) {ts : List Token} (firm : Firm ts) :
    (b.tokens ts).Ready := by
  obtain ⟨⟨cs, rereads, plain⟩, closed⟩ := firm
  cases rereads with
  | nil => exact h
  | @cons t ts w X starts spelt token rest =>
    have moved : Rereads ({ t with gap := .space } :: ts) (gapChars .space ++ (w ++ X)) :=
      .cons starts spelt token rest
    obtain ⟨here, later⟩ := List.forall_mem_cons.mp closed
    refine Ready.push h moved (fun c member => ?_) (List.forall_mem_cons.mpr ⟨here, later⟩)
      (.inl (by simp [gapChars, Host.idle]))
    rcases List.mem_append.mp member with gap | member
    · exact gapChars_plain .space c gap
    · exact plain c (List.mem_append_right _ member)

end Builder
end Desugar

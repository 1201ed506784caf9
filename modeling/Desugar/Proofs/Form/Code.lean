import Desugar.Form.Registry
import Desugar.Proofs.Form.Builder
import Desugar.Proofs.Text.Decimal
import Desugar.Proofs.Token.Reported

/-!
# Pieces of emitted code

The forms write code between the tokens that they take from a body: calls of known functions, the
numbers of conditionals, made up names and the fields of a spread. Every piece is tokens of its own.
-/
namespace Desugar

open Host Host.Scan

/-- A token apart from the blanks before it. -/
def Token.bare (t : Token) : Token := { t with gap := .none }

theorem kind_eq_of_bare {t u : Token} (same : u.bare = t.bare) :
    u.kind = t.kind ∧ u.literal = t.literal ∧ u.span = t.span := by
  cases t
  cases u
  simp only [Token.bare, Token.mk.injEq] at same
  exact ⟨same.1, same.2.1, same.2.2.1⟩

/-- The texts of the identifiers among some tokens. -/
def words (ts : List Token) : List String := (ts.filter (·.kind = .identifier)).map Token.text

@[simp] theorem words_nil : words [] = [] := rfl

theorem words_cons (t : Token) (ts : List Token) :
    words (t :: ts) = (if t.kind = .identifier then [t.text] else []) ++ words ts := by
  unfold words
  rw [List.filter_cons]
  split <;> simp_all

@[simp] theorem words_append (ts us : List Token) : words (ts ++ us) = words ts ++ words us := by
  simp [words]

theorem words_skip {t : Token} {kind : TokenKind} (mark : t.kind = kind) (other : kind ≠ .identifier)
    (ts : List Token) : words (t :: ts) = words ts := by
  simp [words_cons, mark, other]

theorem words_bare (ts : List Token) : words (ts.map Token.bare) = words ts := by
  induction ts with
  | nil => rfl
  | cons t ts ih =>
    rw [List.map_cons, words_cons, words_cons, ih]
    rfl

theorem words_congr {ts us : List Token} (same : us.map Token.bare = ts.map Token.bare) : words us = words ts := by
  rw [← words_bare, same, words_bare]

theorem mem_words {ts : List Token} {word : String} :
    word ∈ words ts ↔ ∃ t ∈ ts, t.kind = .identifier ∧ t.text = word := by
  simp [words, and_assoc]

theorem words_mono {ts us : List Token} (part : ts ⊆ us) : words ts ⊆ words us := by
  intro word member
  obtain ⟨t, inner, told⟩ := mem_words.mp member
  exact mem_words.mpr ⟨t, part inner, told⟩

namespace Lexer

variable {w Y : List Char} {ts : List Token}

/-! ## Names -/

/-- Characters that are an identifier before everything that is no part of a word. -/
structure IsName (w : List Char) : Prop where
  letter : w.head?.any isLetter = true
  plain : ∀ c ∈ w, IsPlain c
  token : ∀ Y : List Char, Y.head?.any isWordChar = false → TokenAs w Y .identifier

theorem IsName.starts (h : IsName w) : StartsWord w := by
  have blanks : ∀ c ∈ [' ', '\t', '\r', '\n'], isLetter c = false := by decide
  cases w with
  | nil => cases h.letter
  | cons c v =>
    refine ⟨c, v, rfl, fun blank => ?_⟩
    have letter : isLetter c = true := h.letter
    rw [blanks c blank] at letter
    cases letter

/-- A name is no literal. -/
theorem IsName.other (h : IsName w) : w.head? ≠ some '\'' := by
  intro quote
  have letter := h.letter
  rw [quote] at letter
  exact absurd letter (by decide)

theorem isPlain_of_wordChar {c : Char} (inside : isWordChar c = true) : IsPlain c := by
  constructor
  · rintro rfl
    exact absurd inside (by decide +kernel)
  · rintro rfl
    exact absurd inside (by decide +kernel)

theorem isName_of_known (known : isKnownWord w none .identifier = true) : IsName w := by
  unfold isKnownWord at known
  split at known
  · cases known
  rename_i c v
  simp only [Option.any_none, Bool.not_false, Bool.and_true, Bool.and_eq_true, List.all_eq_true,
    decide_eq_true_eq] at known
  obtain ⟨⟨letter, inside⟩, kind⟩ := known
  refine ⟨letter, List.forall_mem_cons.mpr ⟨?_, fun x member => ?_⟩, fun Y stop => ?_⟩
  · exact isPlain_of_wordChar (by simp [isWordChar, show Text.isLetter c = true from letter])
  · exact isPlain_of_wordChar (inside x member)
  · exact kind ▸ tokenAs_word letter inside stop

/-- No reserved word has an underscore. -/
theorem ofWord_underscore (mark : '_' ∈ w) : Kind.ofWord (String.ofList w) = .ident := by
  have table : ∀ p ∈ Kind.keywords, '_' ∉ p.1.toList := by decide
  refine (ofWord_mem (String.ofList w)).resolve_right fun listed => table _ listed ?_
  rwa [String.toList_ofList]

theorem IsName.head (h : IsName w) (Y : List Char) : (w ++ Y).head?.any isLetter = true := by
  cases w with
  | nil => cases h.letter
  | cons c v => exact h.letter

/-- Every identifier among tokens that are read off a text is a name, which is spelt as it reads. -/
theorem Rereads.names {cs : List Char} (h : Rereads ts cs) (plain : ∀ c ∈ cs, IsPlain c) :
    ∀ t ∈ ts, t.kind = .identifier → IsName t.text.toList ∧ Text.encode t.text.toList = t.literal := by
  induction h with
  | nil => exact List.forall_mem_nil _
  | @cons t ts w X starts spelt token _ ih =>
    have inside : ∀ c ∈ w ++ X, IsPlain c := fun c member => plain c (List.mem_append_right _ member)
    refine List.forall_mem_cons.mpr
      ⟨fun kind => ?_, ih fun c member => inside c (List.mem_append_right _ member)⟩
    rw [kind] at token
    obtain ⟨letter, before⟩ := token.identifier starts inside
    have chars : t.text.toList = w := by
      rw [Token.text, ← spelt, Text.toString_encode, String.toList_ofList]
    rw [chars]
    exact ⟨⟨letter, fun c member => inside c (List.mem_append_left _ member), before⟩, spelt⟩

/-- A token of the source that is an identifier is a name. -/
theorem isName_of_legible {t : Token} (legible : Legible [t]) (kind : t.kind = .identifier) :
    IsName t.text.toList ∧ Text.encode t.text.toList = t.literal := by
  obtain ⟨cs, rereads, plain⟩ := legible
  exact rereads.names plain t List.mem_cons_self kind

/-! ## Tokens as texts are read into -/

theorem ofHost_ne_eof (k : Host.Kind) : TokenKind.ofHost k ≠ .eof := by
  cases k <;> decide

/-- The end mark is no token. -/
theorem proper_of_lexAt {o : Origin} {text : Bytes} {ts : List Token} (read : lexAt o text = .ok ts) :
    ∀ t ∈ ts, t.kind ≠ .eof := by
  intro t member
  obtain ⟨ls, lines, -, -, rfl⟩ := reads_of_lexAt read
  obtain ⟨l, -, kind, -⟩ := lexeme_of_mem_tokens member
  rw [kind]
  unfold classify
  split
  · split
    · nofun
    · split <;> nofun
  · split
    · nofun
    · exact ofHost_ne_eof l.kind

/-- A token as texts are read into: not the end mark, and if it is an identifier, a name that is spelt as it
reads. -/
structure IsLegal (t : Token) : Prop where
  proper : t.kind ≠ .eof
  named : t.kind = .identifier → IsName t.text.toList ∧ Text.encode t.text.toList = t.literal

theorem IsLegal.alike {t u : Token} (h : IsLegal t) (kind : u.kind = t.kind) (literal : u.literal = t.literal) :
    IsLegal u := by
  have text : u.text = t.text := congrArg Text.toString literal
  constructor
  · rw [kind]
    exact h.proper
  · rw [kind, text, literal]
    exact h.named

theorem isLegal_of_lexAt {o : Origin} {text : Bytes} {ts : List Token} (read : lexAt o text = .ok ts) :
    ∀ t ∈ ts, IsLegal t := by
  obtain ⟨cs, rereads, plain⟩ := rereads_of_lexAt read
  exact fun t member => ⟨proper_of_lexAt read t member, rereads.names plain t member⟩

/-! ## Numbers -/

theorem isDecimal_of_isDigit {c : Char} (digit : c.isDigit = true) : isDecimal c = true := by
  simpa [Char.isDigit, isDecimal, Char.le_def] using digit

/-- A number is written in decimal digits, the first one not zero. -/
theorem repr_chars {n : Nat} (pos : 0 < n) :
    ∃ d ds, n.repr.toList = d :: ds ∧ d ≠ '0' ∧ ∀ x ∈ d :: ds, isDecimal x = true := by
  have digits : ∀ x ∈ Nat.toDigits 10 n, isDecimal x = true := fun x member =>
    isDecimal_of_isDigit (Nat.isDigit_of_mem_toDigits (by decide) (by decide) member)
  have first := toDigits_head n pos
  rw [Nat.toList_repr]
  cases chars : Nat.toDigits 10 n with
  | nil => exact absurd chars Nat.toDigits_ne_nil
  | cons d ds =>
    rw [chars] at digits first
    exact ⟨d, ds, rfl, fun zero => first (by rw [zero]; rfl), digits⟩

/-- The names that are made up: letters, underscores and a number. -/
theorem isName_fresh {base : String} {n : Nat} (pos : 0 < n)
    (known : base ∈ ["m", "yield", "it"]) : IsName (s!"{base}__{n}").toList := by
  have letters : ∀ base ∈ ["m", "yield", "it"], base.toList.head?.any isLetter = true ∧
      ∀ c ∈ base.toList, isWordChar c = true := by decide
  obtain ⟨letter, inside⟩ := letters base known
  obtain ⟨d, ds, chars, -, decimal⟩ := repr_chars pos
  have told : (s!"{base}__{n}").toList = base.toList ++ ('_' :: '_' :: d :: ds) := by
    change (base ++ "__" ++ n.repr).toList = _
    simp [String.toList_append, chars]
  rw [told]
  have word : ∀ c ∈ base.toList ++ ('_' :: '_' :: d :: ds), isWordChar c = true := by
    intro c member
    rcases List.mem_append.mp member with front | behind
    · exact inside c front
    rcases List.mem_cons.mp behind with rfl | behind
    · decide
    rcases List.mem_cons.mp behind with rfl | behind
    · decide
    · exact (isDecimal_class (decimal c behind)).2
  cases base_chars : base.toList with
  | nil => rw [base_chars] at letter; cases letter
  | cons c v =>
    rw [base_chars] at word letter
    refine ⟨letter, fun c member => isPlain_of_wordChar (word c member), fun Y stop => ?_⟩
    have token := tokenAs_word (w := v ++ ('_' :: '_' :: d :: ds)) letter
      (fun x member => word x (List.mem_cons_of_mem c member)) stop
    rw [ofWord_underscore (by simp)] at token
    exact token


/-! ## Writing code -/

/-- Known words are plain and have no quotes. -/
theorem plain_of_isKnown {kind : TokenKind} {next : Option Char}
    (known : (isKnownWord w next kind || isKnownOperator w next kind) = true) :
    ∀ c ∈ w, IsPlain c ∧ c ≠ '\'' := by
  have operators : ∀ p ∈ Kind.operators, ∀ c ∈ Scan.word p, IsPlain c ∧ c ≠ '\'' := by decide
  have wordy {c : Char} (inside : isWordChar c = true) : IsPlain c ∧ c ≠ '\'' :=
    ⟨isPlain_of_wordChar inside, by rintro rfl; exact absurd inside (by decide +kernel)⟩
  rw [Bool.or_eq_true] at known
  rcases known with isWord | operator
  · unfold isKnownWord at isWord
    split at isWord
    · cases isWord
    · rename_i first v
      simp only [Bool.and_eq_true, List.all_eq_true] at isWord
      obtain ⟨⟨⟨letter, inside⟩, -⟩, -⟩ := isWord
      refine List.forall_mem_cons.mpr ⟨wordy ?_, fun c member => wordy (inside c member)⟩
      simp [isWordChar, show Text.isLetter first = true from letter]
  · obtain ⟨p, listed, same⟩ := List.any_eq_true.mp operator
    simp only [Bool.and_eq_true, decide_eq_true_eq] at same
    exact same.1.1.1.1.1 ▸ operators p listed

theorem Spelt.plain_of_known {next : Option Char} {code : List Spelt} (known : areKnown next code = true) :
    (∀ c ∈ chars code, IsPlain c) ∧ ∀ s ∈ code, s.token.IsClosed := by
  induction code with
  | nil => simp [chars]
  | cons s code ih =>
    simp only [areKnown, Bool.and_eq_true] at known
    obtain ⟨here, later⟩ := known
    have here := plain_of_isKnown here
    obtain ⟨plain, closed⟩ := ih later
    constructor
    · intro c member
      rcases List.mem_append.mp member with gap | member
      · exact gapChars_plain s.gap c gap
      rcases List.mem_append.mp member with front | behind
      · exact (here c front).1
      · exact plain c behind
    · refine List.forall_mem_cons.mpr ⟨Token.isClosed_of_head rfl fun quote => ?_, closed⟩
      exact (here _ (List.mem_of_mem_head? quote)).2 rfl

/-- What is known of code before a character is known of it before every one of the same class. -/
theorem Spelt.areKnown_alike {c d : Char} (word : isWordChar c = true) (word' : isWordChar d = true)
    (alike : isDecimal c = isDecimal d) {code : List Spelt} (known : areKnown (some d) code = true) :
    areKnown (some c) code = true := by
  have operators : ∀ q ∈ Kind.operators, ∀ c ∈ Scan.word q, isWordChar c = false := by decide
  have differs {x : Char} (wordy : isWordChar x = true) {q : Host.Kind × String}
      (listed : q ∈ Kind.operators) (n : Nat) : (Scan.word q)[n]? ≠ some x := by
    intro found
    rw [operators q listed x (List.mem_of_getElem? found)] at wordy
    cases wordy
  induction code with
  | nil => rfl
  | cons s code ih =>
    simp only [areKnown, Bool.and_eq_true] at known ⊢
    obtain ⟨here, later⟩ := known
    refine ⟨?_, ih later⟩
    cases head : (chars code).head? with
    | some x =>
      rw [head] at here
      exact here
    | none =>
      rw [head, Option.none_or, Bool.or_eq_true] at here
      rw [Option.none_or, Bool.or_eq_true]
      refine here.imp (fun isWord => ?_) fun operator => ?_
      · unfold isKnownWord at isWord ⊢
        simpa only [Option.any_some, word, word'] using isWord
      · unfold isKnownOperator at operator ⊢
        obtain ⟨p, listed, same⟩ := List.any_eq_true.mp operator
        refine List.any_eq_true.mpr ⟨p, listed, ?_⟩
        simp only [Option.any_some, alike, Bool.and_eq_true, List.all_eq_true, Bool.or_eq_true,
          decide_eq_true_eq] at same ⊢
        exact ⟨same.1, fun q listed' => .inr (differs word listed' _)⟩

/-- The characters are the tokens written out, all of them are plain and no token is left open. -/
structure Writes (cs : List Char) (ts : List Token) : Prop where
  rereads : Rereads ts cs
  plain : ∀ c ∈ cs, IsPlain c
  closed : ∀ t ∈ ts, t.IsClosed

namespace Writes

theorem nil : Writes [] [] := ⟨.nil, by simp, by simp⟩

theorem known (code : List Spelt) (next : Option Char) (head : Y.head? = next)
    (known : Spelt.areKnown next code = true) (rest : Writes Y ts) :
    Writes (Spelt.chars code ++ Y) (code.map Spelt.token ++ ts) := by
  subst head
  obtain ⟨plain, closed⟩ := Spelt.plain_of_known known
  refine ⟨.known known rest.rereads, List.forall_mem_append.mpr ⟨plain, rest.plain⟩,
    List.forall_mem_append.mpr ⟨fun t member => ?_, rest.closed⟩⟩
  obtain ⟨s, listed, rfl⟩ := List.mem_map.mp member
  exact closed s listed

theorem code (code : List Spelt) (known : Spelt.areKnown none code = true) :
    Writes (Spelt.chars code) (code.map Spelt.token) := by
  have writes := Writes.known code none rfl known .nil
  rwa [List.append_nil, List.append_nil] at writes

theorem token {t : Token} (starts : StartsWord w) (spelt : Text.encode w = t.literal)
    (reads : TokenAs w Y t.kind) (plain : ∀ c ∈ w, IsPlain c) (other : w.head? ≠ some '\'')
    (rest : Writes Y ts) : Writes (gapChars t.gap ++ (w ++ Y)) (t :: ts) :=
  ⟨.cons starts spelt reads rest.rereads,
    List.forall_mem_append.mpr ⟨gapChars_plain t.gap, List.forall_mem_append.mpr ⟨plain, rest.plain⟩⟩,
    List.forall_mem_cons.mpr ⟨Token.isClosed_of_head spelt other, rest.closed⟩⟩

theorem name (h : IsName w) (g : Gap) (next : Option Char) (head : Y.head? = next)
    (stop : next.any isWordChar = false) (rest : Writes Y ts) :
    Writes (gapChars g ++ (w ++ Y)) (⟨.identifier, Text.encode w, .none, g⟩ :: ts) :=
  token (t := ⟨.identifier, Text.encode w, .none, g⟩) h.starts rfl (h.token Y (head ▸ stop)) h.plain h.other
    rest

theorem number {n : Nat} (pos : 0 < n) (g : Gap) (next : Option Char) (head : Y.head? = next)
    (calm : next ∈ idle) (rest : Writes Y ts) :
    Writes (gapChars g ++ (n.repr.toList ++ Y)) (⟨.int, Text.encode n.repr.toList, .none, g⟩ :: ts) := by
  obtain ⟨d, ds, chars, nonzero, decimal⟩ := repr_chars pos
  have inside : ∀ c ∈ n.repr.toList, isWordChar c = true := fun c member =>
    (isDecimal_class (decimal c (chars ▸ member))).2
  refine token (t := ⟨.int, Text.encode n.repr.toList, .none, g⟩) ⟨d, ds, chars, fun blank => ?_⟩ rfl ?_
    (fun c member => isPlain_of_wordChar (inside c member)) (fun quote => ?_) rest
  · have blanks : ∀ c ∈ [' ', '\t', '\r', '\n'], isDecimal c = false := by decide
    have digit := decimal d List.mem_cons_self
    rw [blanks d blank] at digit
    cases digit
  · rw [chars]
    exact tokenAs_decimal decimal nonzero (head ▸ calm)
  · exact absurd (inside _ (List.mem_of_mem_head? quote)) (by decide)

theorem quoted (bs : Bytes) (rest : Writes Y ts) :
    Writes ((Text.quoteBytes bs).toList ++ Y)
      (⟨.string, Text.encode (Text.quoteBytes bs).toList, .none, .none⟩ :: ts) :=
  token (t := ⟨.string, Text.encode (Text.quoteBytes bs).toList, .none, .none⟩)
    ⟨'"', _, by simp [Text.quoteBytes]; rfl, by decide⟩ rfl (tokenAs_quoted bs Y) (quoteBytes_plain bs)
    (by simp [Text.quoteBytes]) rest

/-- Code that is known before one letter is known before every one. -/
theorem beforeLetter (code : List Spelt) (known : Spelt.areKnown (some 'a') code = true)
    (letter : Y.head?.any isLetter = true) (rest : Writes Y ts) :
    Writes (Spelt.chars code ++ Y) (code.map Spelt.token ++ ts) := by
  refine .known code _ rfl ?_ rest
  cases head : Y.head? with
  | none => rw [head] at letter; cases letter
  | some c =>
    rw [head] at letter
    have letter : isLetter c = true := letter
    have noDigit : isDecimal c = false := by
      by_contra digit
      rw [(isDecimal_class (by simpa using digit)).1] at letter
      cases letter
    exact Spelt.areKnown_alike (by simpa [isWordChar] using .inl letter) (by decide) noDigit known

/-- Code that is known before one digit is known before every one. -/
theorem beforeDigit (code : List Spelt) (known : Spelt.areKnown (some '1') code = true)
    (digit : Y.head?.any isDecimal = true) (rest : Writes Y ts) :
    Writes (Spelt.chars code ++ Y) (code.map Spelt.token ++ ts) := by
  refine .known code _ rfl ?_ rest
  cases head : Y.head? with
  | none => rw [head] at digit; cases digit
  | some c =>
    rw [head] at digit
    have digit : isDecimal c = true := digit
    exact Spelt.areKnown_alike (isDecimal_class digit).2 (by decide) (digit.trans (by decide)) known

end Writes

end Lexer

namespace Builder

open Lexer

/-! ## Where code stands -/

/-- The tokens of code that stands at a place. -/
def codeAt (place : Span) (text : String) : List Token :=
  ((Lexer.lex "" (Text.utf8 text)).toOption.getD []).map fun t => ⟨t.kind, t.literal, place, .none⟩

theorem codeAt_eq {text : String} {ts : List Token} (code : IsCode text ts) (place : Span) :
    codeAt place text = ts.map fun t => ⟨t.kind, t.literal, place, .none⟩ := by
  obtain ⟨ts', read, same⟩ := lexAt_of_rereads code.rereads code.plain { file := "" }
  unfold codeAt Lexer.lex
  rw [Text.utf8_eq_encode, read]
  have told := congrArg (List.map fun (kind, literal, _) => (⟨kind, literal, place, .none⟩ : Token)) same
  rw [List.map_map, List.map_map] at told
  exact told

theorem span_foldl_push (ts : List Token) (b : Builder) : (ts.foldl push b).span = b.span := by
  induction ts generalizing b with
  | nil => rfl
  | cons t ts ih => rw [List.foldl_cons, ih, (push_eq b t).2.1]

theorem spaced_bare (word : Bool) (ts : List Token) :
    (spaced word ts).map Token.bare = ts.map Token.bare := by
  induction ts generalizing word with
  | nil => rfl
  | cons t ts ih =>
    rw [spaced, List.map_cons, ih, List.map_cons]
    split <;> rfl

/-- What is added to the tokens so far. -/
structure Adds (b b' : Builder) (ts : List Token) : Prop where
  span : b'.span = b.span
  stream : ∃ us, b'.stream = b.stream ++ us ∧ us.map Token.bare = ts.map Token.bare

theorem adds_foldl_push (b : Builder) (ts : List Token) : b.Adds (ts.foldl push b) ts :=
  ⟨span_foldl_push ts b, _, stream_foldl_push ts b, spaced_bare _ ts⟩

theorem adds_tokens (b : Builder) (ts : List Token) : b.Adds (b.tokens ts) ts := by
  cases ts with
  | nil => exact adds_foldl_push b []
  | cons t ts =>
    obtain ⟨span, us, stream, same⟩ := adds_foldl_push b ({ t with gap := .space } :: ts)
    exact ⟨span, us, stream, same⟩

theorem adds_code (b : Builder) (text : String) : b.Adds (b.code text) (codeAt b.span text) := by
  unfold Builder.code codeAt
  cases Lexer.lex "" (Text.utf8 text) with
  | error f => exact adds_foldl_push b []
  | ok ts =>
    dsimp only
    rw [foldl_push_here]
    obtain ⟨span, us, stream, same⟩ := adds_foldl_push b (ts.map fun t => { t with span := b.span })
    refine ⟨span, us, stream, ?_⟩
    rw [same, List.map_map, Except.toOption, Option.getD_some, List.map_map]
    rfl

theorem Adds.front {b b' : Builder} {ts : List Token} (h : b.Adds b' ts) : b.stream <+: b'.stream := by
  obtain ⟨-, us, stream, -⟩ := h
  exact ⟨us, stream.symm⟩

theorem front_tokens (b : Builder) (ts : List Token) : b.stream <+: (b.tokens ts).stream := (adds_tokens b ts).front

theorem front_code (b : Builder) (text : String) : b.stream <+: (b.code text).stream := (adds_code b text).front

theorem codeAt_spec (place : Span) (text : String) :
    ∀ t ∈ codeAt place text, t.span = place ∧ IsLegal t := by
  intro t member
  obtain ⟨u, inner, rfl⟩ := List.mem_map.mp member
  refine ⟨rfl, ?_⟩
  cases read : Lexer.lex "" (Text.utf8 text) with
  | error f =>
    rw [read] at inner
    cases inner
  | ok ts =>
    rw [read] at inner
    exact (isLegal_of_lexAt read u inner).alike rfl rfl

theorem codeAt_kinds (place : Span) (text : String) :
    (codeAt place text).map Token.kind = (codeAt .none text).map Token.kind := by
  simp [codeAt]

/-! ## Code of the forms -/

theorem isCode_of_writes {text : String} {cs : List Char} {ts : List Token} (writes : Writes cs ts)
    (told : text.toList = cs) (nonempty : ts ≠ []) : IsCode text ts :=
  ⟨told ▸ writes.rereads, told ▸ writes.plain, writes.closed, nonempty⟩

/-- Code without parameters. -/
theorem isCode_known {text : String} (code : List Spelt) (told : text.toList = Spelt.chars code)
    (known : Spelt.areKnown none code = true) (nonempty : code ≠ []) :
    IsCode text (code.map Spelt.token) :=
  isCode_of_writes (.code code known) told (by simpa using nonempty)

theorem isCode_conditional {n : Nat} (pos : 0 < n) : IsCode (Form.placeholder ++ "(" ++ n.repr ++ ",")
    [⟨.identifier, Text.utf8 Form.placeholder, .none, .none⟩, ⟨.lparen, Text.utf8 "(", .none, .none⟩,
      ⟨.int, Text.utf8 n.repr, .none, .none⟩, ⟨.comma, Text.utf8 ",", .none, .none⟩] := by
  have digit : (n.repr.toList ++ Spelt.chars [⟨.none, ",", .comma⟩]).head?.any isDecimal = true := by
    obtain ⟨d, ds, chars, -, decimal⟩ := repr_chars pos
    rw [chars]
    exact decimal d List.mem_cons_self
  have writes := Writes.beforeDigit [⟨.none, "gosugar__cond", .identifier⟩, ⟨.none, "(", .lparen⟩]
    (by decide) digit
    (.number pos .none (some ',') (by simp [Spelt.chars, gapChars]) (by decide)
      (.code [⟨.none, ",", .comma⟩] (by decide)))
  refine isCode_of_writes writes ?_ (by simp)
  simp [Form.placeholder, String.toList_append, Spelt.chars, gapChars]

/-- The name of a package, and code that begins with a point behind it. -/
theorem isCode_package {package front : String} (h : IsName package.toList) (code : List Spelt)
    (told : front.toList = Spelt.chars code) (known : Spelt.areKnown none code = true)
    (point : (Spelt.chars code).head? = some '.') : IsCode (package ++ front)
      (⟨.identifier, Text.utf8 package, .none, .none⟩ :: code.map Spelt.token) := by
  have writes := Writes.name h .none (some '.') point (by decide) (.code code known)
  refine isCode_of_writes writes ?_ (by simp)
  simp [String.toList_append, told, gapChars]

/-- The test in front of an assignment. -/
theorem isCode_if {truth : String} (h : IsName truth.toList) (negated : Bool) :
    IsCode ("if " ++ Form.sign negated ++ truth ++ ".Of(")
      ([⟨.keyword, Text.utf8 "if", .none, .none⟩] ++
        (if negated then [⟨.not, Text.utf8 "!", .none, .space⟩] else []) ++
        [⟨.identifier, Text.utf8 truth, .none, if negated then .none else .space⟩,
          ⟨.period, Text.utf8 ".", .none, .none⟩, ⟨.identifier, Text.utf8 "Of", .none, .none⟩,
          ⟨.lparen, Text.utf8 "(", .none, .none⟩]) := by
  have call (g : Gap) := Writes.name h g (some '.') (by simp [Spelt.chars, gapChars]) (by decide)
    (.code [⟨.none, ".", .period⟩, ⟨.none, "Of", .identifier⟩, ⟨.none, "(", .lparen⟩] (by decide))
  cases negated with
  | false =>
    have writes := Writes.known [⟨.none, "if", .keyword⟩] (some ' ') rfl (by decide) (call .space)
    refine isCode_of_writes writes ?_ (by simp)
    simp [Form.sign, String.toList_append, Spelt.chars, gapChars]
  | true =>
    have writes := Writes.beforeLetter [⟨.none, "if", .keyword⟩, ⟨.space, "!", .not⟩] (by decide) (h.head _)
      (call .none)
    refine isCode_of_writes writes ?_ (by simp)
    simp [Form.sign, String.toList_append, Spelt.chars, gapChars]

/-- The call around a condition, behind the branches. -/
theorem isCode_test {truth : String} (h : IsName truth.toList) (negated : Bool) :
    IsCode (")(" ++ Form.sign negated ++ truth ++ ".Of(")
      ([⟨.rparen, Text.utf8 ")", .none, .none⟩, ⟨.lparen, Text.utf8 "(", .none, .none⟩] ++
        (if negated then [⟨.not, Text.utf8 "!", .none, .none⟩] else []) ++
        [⟨.identifier, Text.utf8 truth, .none, .none⟩, ⟨.period, Text.utf8 ".", .none, .none⟩,
          ⟨.identifier, Text.utf8 "Of", .none, .none⟩, ⟨.lparen, Text.utf8 "(", .none, .none⟩]) := by
  have call := Writes.name h .none (some '.') (by simp [Spelt.chars, gapChars]) (by decide)
    (.code [⟨.none, ".", .period⟩, ⟨.none, "Of", .identifier⟩, ⟨.none, "(", .lparen⟩] (by decide))
  cases negated with
  | false =>
    have writes := Writes.beforeLetter [⟨.none, ")", .rparen⟩, ⟨.none, "(", .lparen⟩] (by decide) (h.head _) call
    refine isCode_of_writes writes ?_ (by simp)
    simp [Form.sign, String.toList_append, Spelt.chars, gapChars]
  | true =>
    have writes := Writes.beforeLetter [⟨.none, ")", .rparen⟩, ⟨.none, "(", .lparen⟩, ⟨.none, "!", .not⟩]
      (by decide) (h.head _) call
    refine isCode_of_writes writes ?_ (by simp)
    simp [Form.sign, String.toList_append, Spelt.chars, gapChars]

/-! ## Maps that are filled entry by entry -/

section Filled

variable {name : String}

theorem isCode_make (h : IsName name.toList) : IsCode (" " ++ name ++ " := make(")
    [⟨.identifier, Text.utf8 name, .none, .space⟩, ⟨.operator, Text.utf8 ":=", .none, .space⟩,
      ⟨.identifier, Text.utf8 "make", .none, .space⟩, ⟨.lparen, Text.utf8 "(", .none, .none⟩] := by
  have writes := Writes.name h .space (some ' ') (by simp [Spelt.chars, gapChars]) (by decide)
    (.code [⟨.space, ":=", .operator⟩, ⟨.space, "make", .identifier⟩, ⟨.none, "(", .lparen⟩]
      (by decide))
  refine isCode_of_writes writes ?_ (by simp)
  simp [String.toList_append, Spelt.chars, gapChars]

theorem isCode_size {n : Nat} (pos : 0 < n) : IsCode (", " ++ n.repr ++ ");")
    [⟨.comma, Text.utf8 ",", .none, .none⟩, ⟨.int, Text.utf8 n.repr, .none, .space⟩,
      ⟨.rparen, Text.utf8 ")", .none, .none⟩, ⟨.semicolon, Text.utf8 ";", .none, .none⟩] := by
  have writes := Writes.known [⟨.none, ",", .comma⟩] (some ' ') rfl (by decide)
    (.number pos .space (some ')') (by simp [Spelt.chars, gapChars]) (by decide)
      (.code [⟨.none, ")", .rparen⟩, ⟨.none, ";", .semicolon⟩] (by decide)))
  refine isCode_of_writes writes ?_ (by simp)
  simp [String.toList_append, Spelt.chars, gapChars]

theorem isCode_index (h : IsName name.toList) : IsCode (" " ++ name ++ "[")
    [⟨.identifier, Text.utf8 name, .none, .space⟩, ⟨.lbracket, Text.utf8 "[", .none, .none⟩] := by
  have writes := Writes.name h .space (some '[') (by simp [Spelt.chars, gapChars]) (by decide)
    (.code [⟨.none, "[", .lbracket⟩] (by decide))
  refine isCode_of_writes writes ?_ (by simp)
  simp [String.toList_append, Spelt.chars, gapChars]

theorem isCode_return (h : IsName name.toList) : IsCode (" return " ++ name ++ " \x7d()")
    [⟨.keyword, Text.utf8 "return", .none, .space⟩, ⟨.identifier, Text.utf8 name, .none, .space⟩,
      ⟨.rbrace, Text.utf8 "\x7d", .none, .space⟩, ⟨.lparen, Text.utf8 "(", .none, .none⟩,
      ⟨.rparen, Text.utf8 ")", .none, .none⟩] := by
  have writes := Writes.known [⟨.space, "return", .keyword⟩] (some ' ') rfl (by decide)
    (.name h .space (some ' ') (by simp [Spelt.chars, gapChars]) (by decide)
      (.code [⟨.space, "\x7d", .rbrace⟩, ⟨.none, "(", .lparen⟩, ⟨.none, ")", .rparen⟩]
        (by decide)))
  refine isCode_of_writes writes ?_ (by simp)
  simp [String.toList_append, Spelt.chars, gapChars]

end Filled

/-! ## Spreads and formats -/

section Spread

variable {yield it field : String}

/-- The last token so far is an identifier, behind which a point fits. -/
def EndsInName (ts : List Token) : Prop := ∃ t, ts.getLast? = some t ∧ t.kind = .identifier

theorem endsInName_code {text : String} {ts : List Token} (code : IsCode text ts) (ends : EndsInName ts)
    (b : Builder) : EndsInName (b.code text).stream := by
  obtain ⟨t, found, kind⟩ := ends
  have same := getLast?_code code b
  rw [found, Option.map_some, Option.map_eq_some_iff] at same
  obtain ⟨t', found', alike⟩ := same
  exact ⟨t', found', (Prod.mk.inj alike).1.trans kind⟩

theorem isCode_loop (hy : IsName yield.toList) (hi : IsName it.toList) :
    IsCode (", func(" ++ yield ++ " func(any)) \x7b for _, " ++ it ++ " := range")
      [⟨.comma, Text.utf8 ",", .none, .none⟩, ⟨.keyword, Text.utf8 "func", .none, .space⟩,
        ⟨.lparen, Text.utf8 "(", .none, .none⟩, ⟨.identifier, Text.utf8 yield, .none, .none⟩,
        ⟨.keyword, Text.utf8 "func", .none, .space⟩, ⟨.lparen, Text.utf8 "(", .none, .none⟩,
        ⟨.identifier, Text.utf8 "any", .none, .none⟩, ⟨.rparen, Text.utf8 ")", .none, .none⟩,
        ⟨.rparen, Text.utf8 ")", .none, .none⟩, ⟨.lbrace, Text.utf8 "\x7b", .none, .space⟩,
        ⟨.keyword, Text.utf8 "for", .none, .space⟩, ⟨.identifier, Text.utf8 "_", .none, .space⟩,
        ⟨.comma, Text.utf8 ",", .none, .none⟩, ⟨.identifier, Text.utf8 it, .none, .space⟩,
        ⟨.operator, Text.utf8 ":=", .none, .space⟩, ⟨.keyword, Text.utf8 "range", .none, .space⟩] := by
  have writes := Writes.beforeLetter
    [⟨.none, ",", .comma⟩, ⟨.space, "func", .keyword⟩, ⟨.none, "(", .lparen⟩] (by decide)
    (hy.head _)
    (.name hy .none (some ' ') (by simp [Spelt.chars, gapChars]) (by decide)
      (.known [⟨.space, "func", .keyword⟩, ⟨.none, "(", .lparen⟩, ⟨.none, "any", .identifier⟩,
        ⟨.none, ")", .rparen⟩, ⟨.none, ")", .rparen⟩, ⟨.space, "\x7b", .lbrace⟩,
        ⟨.space, "for", .keyword⟩, ⟨.space, "_", .identifier⟩, ⟨.none, ",", .comma⟩] (some ' ') rfl
        (by decide)
        (.name hi .space (some ' ') (by simp [Spelt.chars, gapChars]) (by decide)
          (.code [⟨.space, ":=", .operator⟩, ⟨.space, "range", .keyword⟩] (by decide)))))
  refine isCode_of_writes writes ?_ (by simp)
  simp [String.toList_append, Spelt.chars, gapChars]

theorem isCode_yield (hy : IsName yield.toList) (hi : IsName it.toList) : IsCode (" " ++ yield ++ "(" ++ it)
    [⟨.identifier, Text.utf8 yield, .none, .space⟩, ⟨.lparen, Text.utf8 "(", .none, .none⟩,
      ⟨.identifier, Text.utf8 it, .none, .none⟩] := by
  have writes := Writes.name hy .space (some '(') (by simp [Spelt.chars, gapChars]) (by decide)
    (.beforeLetter [⟨.none, "(", .lparen⟩] (by decide) (hi.head _)
      (.name hi .none none rfl (by decide) .nil))
  refine isCode_of_writes writes ?_ (by simp)
  simp [String.toList_append, Spelt.chars, gapChars]

/-- A field behind code that ends in a point. -/
theorem isCode_field {front : String} (code : List Spelt) (told : front.toList = Spelt.chars code)
    (known : Spelt.areKnown (some 'a') code = true) (h : IsName field.toList) :
    IsCode (front ++ field) (code.map Spelt.token ++ [⟨.identifier, Text.utf8 field, .none, .none⟩]) := by
  have writes := Writes.beforeLetter code known (h.head _) (.name h .none none rfl (by decide) .nil)
  refine isCode_of_writes writes ?_ (by simp)
  simp [String.toList_append, told]

theorem isCode_format (template : Bytes) : IsCode ("fmt" ++ ".Sprintf(" ++ Text.quoteBytes template)
    [⟨.identifier, Text.utf8 "fmt", .none, .none⟩, ⟨.period, Text.utf8 ".", .none, .none⟩,
      ⟨.identifier, Text.utf8 "Sprintf", .none, .none⟩, ⟨.lparen, Text.utf8 "(", .none, .none⟩,
      ⟨.string, Text.utf8 (Text.quoteBytes template), .none, .none⟩] := by
  have writes := Writes.known [⟨.none, "fmt", .identifier⟩, ⟨.none, ".", .period⟩,
    ⟨.none, "Sprintf", .identifier⟩, ⟨.none, "(", .lparen⟩] (some '"') (by simp [Text.quoteBytes])
    (by decide) (.quoted template .nil)
  refine isCode_of_writes writes ?_ (by simp)
  simp [String.toList_append, Spelt.chars, gapChars]

end Spread

/-! ## Words of code -/

theorem Adds.words {b b' : Builder} {ts : List Token} (adds : b.Adds b' ts) :
    words b'.stream = words b.stream ++ words ts := by
  obtain ⟨-, us, stream, same⟩ := adds
  rw [stream, words_append, words_congr same]

/-- The words of code are the same wherever it stands. -/
def codeWords (text : String) : List String := words (codeAt .none text)

theorem words_codeAt (place : Span) (text : String) : words (codeAt place text) = codeWords text := by
  unfold codeWords codeAt
  generalize (Lexer.lex "" (Text.utf8 text)).toOption.getD [] = ts
  induction ts with
  | nil => rfl
  | cons t ts ih =>
    rw [List.map_cons, List.map_cons, words_cons, words_cons, ih]
    rfl

@[simp] theorem words_tokens (b : Builder) (ts : List Token) :
    words (b.tokens ts).stream = words b.stream ++ words ts := (adds_tokens b ts).words

@[simp] theorem words_code (b : Builder) (text : String) :
    words (b.code text).stream = words b.stream ++ codeWords text := by
  rw [(adds_code b text).words, words_codeAt]

theorem mem_words_code (b : Builder) {text word : String} (member : word ∈ codeWords text) :
    word ∈ words (b.code text).stream := by
  rw [words_code]
  exact List.mem_append_right _ member

/-- Words that every step keeps or adds are there after all steps. -/
theorem words_foldl {α : Type} {step : Builder → α → Builder} {f : α → List String}
    (each : ∀ b a, words b.stream ++ f a ⊆ words (step b a).stream) (l : List α) (b : Builder) :
    words b.stream ++ l.flatMap f ⊆ words (l.foldl step b).stream := by
  induction l generalizing b with
  | nil => simp
  | cons a l ih =>
    rw [List.foldl_cons, List.flatMap_cons, ← List.append_assoc]
    intro word member
    refine ih (step b a) (List.mem_append.mpr ?_)
    exact (List.mem_append.mp member).imp_left fun before => each b a before

theorem codeWords_eq {text : String} {ts : List Token} (code : IsCode text ts) : codeWords text = words ts := by
  rw [codeWords, codeAt_eq code]
  clear code
  induction ts with
  | nil => rfl
  | cons t ts ih =>
    rw [List.map_cons, words_cons, words_cons, ih]
    rfl

/-- The words of tokens that are known by their spelling. -/
def Spelt.words (code : List Spelt) : List String := (code.filter (·.kind = .identifier)).map Spelt.word

theorem words_spelt (code : List Spelt) : words (code.map Spelt.token) = Spelt.words code := by
  induction code with
  | nil => rfl
  | cons s code ih =>
    have text : s.token.text = s.word := Text.toString_utf8 s.word
    have kind : s.token.kind = s.kind := rfl
    rw [List.map_cons, words_cons, ih, text, kind, Spelt.words, Spelt.words, List.filter_cons]
    split <;> simp_all

theorem codeWords_known {text : String} (code : List Spelt) (told : text.toList = Spelt.chars code)
    (known : Spelt.areKnown none code = true) (nonempty : code ≠ []) : codeWords text = Spelt.words code :=
  (codeWords_eq (isCode_known code told known nonempty)).trans (words_spelt code)

end Builder
end Desugar

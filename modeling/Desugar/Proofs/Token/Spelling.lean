import Desugar.Proofs.Host.Quoting
import Desugar.Proofs.Host.Spelling
import Desugar.Proofs.Token.Continuing

/-!
# Tokens of known spelling

Code that is emitted is made of words, operators, numbers and strings whose spelling is known. Whether
each of them is a token of its own before the next character is decided by a table of the operators and
the classes of characters.
-/
namespace Desugar.Lexer

open Host Host.Scan Host.Reader

variable {w X Y : List Char}

/-- A lexeme that nothing is glued to is a token. -/
theorem tokenAs_of_lexesAs {k : Host.Kind} {literal : Bytes} (reads : LexesAs w X k literal)
    (proper : IsProper k literal) (other : k ≠ .illegal ∧ k ≠ .mul)
    (spelt : Lexeme.text ⟨k, 0, literal, []⟩ = Text.encode w) : TokenAs w X (.ofHost k) := by
  refine .plain reads proper (fun one => ?_) ?_
  · rcases one with ⟨illegal, -⟩ | star
    · exact absurd illegal other.1
    · exact absurd star other.2
  · unfold classifyBefore
    rw [if_neg (by simp [other.1]), if_neg (by simp [other.2]), spelt]

theorem tokenAs_word {c : Char} (letter : isLetter c = true) (inside : ∀ x ∈ w, isWordChar x = true)
    (stop : X.head?.any isWordChar = false) :
    TokenAs (c :: w) X (.ofHost (Kind.ofWord (String.ofList (c :: w)))) := by
  obtain ⟨illegal, star, semicolon⟩ := ofWord_proper (String.ofList (c :: w))
  obtain ⟨-, comment, eof⟩ := ofWord_kind (String.ofList (c :: w))
  refine tokenAs_of_lexesAs (lexesAs_word letter inside stop)
    ⟨comment, eof, fun automatic => semicolon automatic.1⟩ ⟨illegal, star⟩ ?_
  unfold Lexeme.text
  rw [if_neg]
  simp

theorem operator_texts : ∀ p ∈ Kind.operators,
    Lexeme.text ⟨p.1, 0, if p.1 = .semicolon then [0x3B] else [], []⟩ = Text.encode (word p) ∧
      p.1 ≠ .illegal ∧ p.1 ≠ .comment ∧ p.1 ≠ .eof := by decide

theorem tokenAs_operator {p : Kind × String} (known : p ∈ Kind.operators) (ends : Ends p X)
    (other : p.1 ≠ .mul) (slash : (word p).head? ≠ some '/')
    (point : (word p).head? = some '.' → word p = ['.'] ∧ X.head?.any isDecimal = false) :
    TokenAs (word p) X (.ofHost p.1) := by
  obtain ⟨spelt, illegal, comment, eof⟩ := operator_texts p known
  refine tokenAs_of_lexesAs (lexesAs_operator known ends slash point) ⟨comment, eof, ?_⟩
    ⟨illegal, other⟩ spelt
  rintro ⟨semicolon, literal⟩
  rw [if_pos semicolon] at literal
  exact absurd literal (by decide)

/-- A decimal number before something idle. -/
theorem tokenAs_decimal {d : Char} (decimal : ∀ x ∈ d :: w, isDecimal x = true) (nonzero : d ≠ '0')
    (calm : X.head? ∈ idle) : TokenAs (d :: w) X .int := by
  refine tokenAs_of_lexesAs (lexesAs_decimal decimal nonzero calm) ⟨nofun, nofun, nofun⟩
    ⟨nofun, nofun⟩ ?_
  unfold Lexeme.text
  rw [if_neg]
  simp

/-- A quoted text before anything. -/
theorem tokenAs_quoted (bs : Bytes) (X : List Char) :
    TokenAs (Text.quoteBytes bs).toList X .string := by
  refine tokenAs_of_lexesAs (lexesAs_quoted bs X) ⟨nofun, nofun, nofun⟩ ⟨nofun, nofun⟩ ?_
  unfold Lexeme.text
  rw [Text.utf8_eq_encode, if_neg]
  simp [Text.quoteBytes]

/-! ## Identifiers -/

/-- Only words are identifiers. -/
theorem isLetter_of_ident {s : State} {start : Reader} {c : Char}
    (ident : (lexeme s start c).1.kind = .ident) : isLetter c = true := by
  by_contra letter
  unfold lexeme at ident
  rw [if_neg letter] at ident
  split at ident
  · have numeric : IsNumeric Kind.ident := ident ▸ (number_told start).1
    rcases numeric with kind | kind | kind | kind <;> cases kind
  split at ident
  · cases ident
  split at ident
  · cases ident
  split at ident
  · cases ident
  split at ident
  · cases ident
  split at ident
  · exact absurd ((comment_fields s start).1.symm.trans ident) (by decide)
  · unfold symbol at ident
    split at ident
    · rename_i kind found
      obtain rfl : kind = .ident := ident
      exact absurd (operator?_eq_some found).operator.1 (by decide)
    · cases ident

theorem ident_of_ofHost : ∀ k : Host.Kind, TokenKind.ofHost k = .identifier → k = .ident := by
  intro k
  cases k <;> decide

/-- An identifier is a word, and one before everything that is no part of a word. -/
theorem TokenAs.identifier (h : TokenAs w X .identifier) (starts : StartsWord w)
    (plain : ∀ c ∈ w ++ X, IsPlain c) :
    w.head?.any isLetter = true ∧ ∀ Y, Y.head?.any isWordChar = false → TokenAs w Y .identifier := by
  obtain ⟨c, v, rfl, -⟩ := starts
  cases h with
  | glued _ _ _ _ becomes =>
    obtain ⟨kinds, -⟩ := classifyBefore_glued becomes
    exact absurd kinds (by decide)
  | @plain k literal reads proper single becomes =>
    obtain ⟨-, -, same⟩ := classifyBefore_word becomes rfl X
    obtain rfl := ident_of_ofHost k same
    obtain ⟨text, start, upon, fresh, s, gives⟩ := gives_alone reads plain
    have letter := isLetter_of_ident gives.kind
    have read : lexeme s start c =
        emit s (start.skipWhile isWordChar)
          (Kind.ofWord (Text.toString (between start (start.skipWhile isWordChar)))) start.offset
          (between start (start.skipWhile isWordChar))
          (Kind.ofWord (Text.toString (between start (start.skipWhile isWordChar)))).endsStatement := by
      unfold lexeme
      rw [if_pos letter]
    rw [read] at gives
    obtain ⟨there, -⟩ := upon.skipWhile isWordChar
    have stop : (c :: v ++ X).dropWhile isWordChar = X :=
      Text.encode_injective (there.front.symm.trans gives.upon.front)
    rw [stop] at there
    have taken : (c :: v ++ X).takeWhile isWordChar = c :: v := by
      have split := List.takeWhile_append_dropWhile (p := isWordChar) (l := c :: v ++ X)
      rw [stop] at split
      exact List.append_cancel_right split
    have inside : ∀ x ∈ c :: v, isWordChar x = true := by
      rw [← taken]
      exact List.all_eq_true.mp List.all_takeWhile
    have kind : Kind.ofWord (String.ofList (c :: v)) = .ident := by
      have kind := gives.kind
      simp only [emit, upon.between there, Text.toString_encode] at kind
      exact kind
    refine ⟨letter, fun Y ends => ?_⟩
    have word := tokenAs_word letter (fun x member => inside x (List.mem_cons_of_mem c member)) ends
    rw [kind] at word
    exact word

/-! ## Deciding -/

/-- Whether a word is a token of a kind before a character. -/
def isKnownWord (w : List Char) (next : Option Char) (kind : TokenKind) : Bool :=
  match w with
  | [] => false
  | c :: v =>
    isLetter c && v.all isWordChar && !next.any isWordChar &&
      kind = .ofHost (Kind.ofWord (String.ofList (c :: v)))

/-- Whether an operator that takes no mark along is a token of a kind before a character. -/
def isKnownOperator (w : List Char) (next : Option Char) (kind : TokenKind) : Bool :=
  Kind.operators.any fun p => word p = w && kind = .ofHost p.1 && p.1 ≠ .mul && w.head? ≠ some '/' &&
    (w.head? ≠ some '.' || (w = ['.'] && !next.any isDecimal)) &&
    Kind.operators.all fun q => !w.isPrefixOf (word q) || (word q).length ≤ w.length ||
      (word q)[w.length]? ≠ next

theorem tokenAs_of_known {kind : TokenKind}
    (known : (isKnownWord w X.head? kind || isKnownOperator w X.head? kind) = true) :
    TokenAs w X kind ∧ StartsWord w := by
  rw [Bool.or_eq_true] at known
  rcases known with known | known
  · unfold isKnownWord at known
    split at known
    · cases known
    · rename_i c v
      simp only [Bool.and_eq_true, List.all_eq_true, Bool.not_eq_eq_eq_not, Bool.not_true,
        decide_eq_true_eq] at known
      obtain ⟨⟨⟨letter, inside⟩, stop⟩, rfl⟩ := known
      refine ⟨tokenAs_word letter inside stop, c, v, rfl, ?_⟩
      have blank : ∀ x ∈ [' ', '\t', '\r', '\n'], isLetter x = false := by decide
      intro member
      rw [blank c member] at letter
      cases letter
  · obtain ⟨p, listed, known⟩ := List.any_eq_true.mp known
    simp only [Bool.and_eq_true, Bool.or_eq_true, decide_eq_true_eq, List.all_eq_true,
      Bool.not_eq_eq_eq_not, Bool.not_true, ne_eq, decide_not, decide_eq_false_iff_not] at known
    obtain ⟨⟨⟨⟨⟨rfl, rfl⟩, other⟩, slash⟩, point⟩, ends⟩ := known
    refine ⟨tokenAs_operator listed ?_ other slash fun head => point.resolve_left fun no => no head, ?_⟩
    · intro q listed' front longer
      rcases ends q listed' with (no | short) | differs
      · rw [List.isPrefixOf_iff_prefix.mpr front] at no
        cases no
      · omega
      · exact differs
    · obtain ⟨-, -, -, long, -⟩ := operator_spellings p listed
      cases spelt : word p with
      | nil =>
        rw [word] at spelt
        rw [spelt] at long
        exact absurd long (Nat.lt_irrefl _)
      | cons c v =>
        have blanks : ∀ p ∈ Kind.operators, ∀ c ∈ word p, c ∉ [' ', '\t', '\r', '\n'] := by
          decide
        exact ⟨c, v, rfl, blanks p listed c (by rw [spelt]; exact List.mem_cons_self)⟩

/-- A token as code spells it. -/
structure Spelt where
  gap : Gap
  word : String
  kind : TokenKind

namespace Spelt

def token (s : Spelt) : Token := ⟨s.kind, Text.utf8 s.word, .none, s.gap⟩

/-- How tokens are written. -/
def chars : List Spelt → List Char
  | [] => []
  | s :: rest => gapChars s.gap ++ (s.word.toList ++ chars rest)

/-- Whether each of the tokens is one before the next, and the last one before a character. -/
def areKnown (next : Option Char) : List Spelt → Bool
  | [] => true
  | s :: rest =>
    let behind := (chars rest).head?.or next
    (isKnownWord s.word.toList behind s.kind || isKnownOperator s.word.toList behind s.kind) &&
      areKnown next rest

end Spelt

/-- Known tokens before others. -/
theorem Rereads.known {code : List Spelt} {ts : List Token} (known : Spelt.areKnown Y.head? code = true)
    (rest : Rereads ts Y) : Rereads (code.map Spelt.token ++ ts) (Spelt.chars code ++ Y) := by
  induction code with
  | nil => exact rest
  | cons s code ih =>
    simp only [Spelt.areKnown, Bool.and_eq_true] at known
    obtain ⟨here, later⟩ := known
    have head : (Spelt.chars code ++ Y).head? = (Spelt.chars code).head?.or Y.head? := by
      rw [List.head?_append]
    rw [← head] at here
    obtain ⟨token, starts⟩ := tokenAs_of_known here
    have built := Rereads.cons (t := s.token) starts rfl token (ih later)
    rw [List.map_cons, List.cons_append, Spelt.chars, List.append_assoc, List.append_assoc]
    exact built

end Desugar.Lexer

import Desugar.Proofs.Host.Twin.Lexeme
import Desugar.Proofs.Token.Marks
import Desugar.Text.Quoted

/-!
# Lexemes of known spelling

Words, operators, decimal numbers and quoted strings are read from their own characters in every text,
provided that nothing behind them makes them longer.
-/
namespace Desugar.Host.Scan

open Reader

variable {c : Char} {w X : List Char}

/-- A word ends before what is no part of a word. -/
theorem lexesAs_word (letter : isLetter c = true) (inside : ∀ x ∈ w, isWordChar x = true)
    (stop : X.head?.any isWordChar = false) :
    LexesAs (c :: w) X (Kind.ofWord (String.ofList (c :: w))) (Text.encode (c :: w)) := by
  intro text s start c' head upon fresh
  obtain rfl : c = c' := Option.some.inj head
  have first : isWordChar c = true := by
    rw [isWordChar, Bool.or_eq_true]
    exact .inl letter
  have skips : (c :: w ++ X).dropWhile isWordChar = X := by
    rw [List.dropWhile_append_of_pos (List.forall_mem_cons.mpr ⟨first, inside⟩)]
    cases X with
    | nil => rfl
    | cons x X =>
      rw [List.dropWhile_cons_of_neg]
      simpa using stop
  obtain ⟨there, faults⟩ := upon.skipWhile isWordChar
  rw [skips] at there
  unfold lexeme
  rw [if_pos letter]
  dsimp only
  rw [upon.between there, Text.toString_encode]
  exact ⟨rfl, rfl, rfl, there.forget, rfl, rfl, by
    intro f noted
    simp [emit, faults, fresh] at noted⟩

/-- Nothing behind an operator makes a longer one of it. -/
def Ends (p : Kind × String) (X : List Char) : Prop :=
  ∀ q ∈ Kind.operators, word p <+: word q → (word p).length < (word q).length →
    (word q)[(word p).length]? ≠ X.head?

/-- No operator begins as another kind of lexeme does, except that a point may begin a number and a slash
a comment. -/
theorem operator_heads : ∀ p ∈ Kind.operators, ∀ c ∈ word p, isLetter c = false ∧ isDecimal c = false ∧
    c ∉ ['\n', '"', '\'', Char.ofNat 0x60, ' '] := by decide

theorem lexesAs_operator {p : Kind × String} (known : p ∈ Kind.operators) (ends : Ends p X)
    (slash : (word p).head? ≠ some '/')
    (point : (word p).head? = some '.' → word p = ['.'] ∧ X.head?.any isDecimal = false) :
    LexesAs (word p) X p.1 (if p.1 = .semicolon then [0x3B] else []) := by
  intro text s start c head upon fresh
  have longest (q : Kind × String) (known' : q ∈ Kind.operators) (front : word q <+: word p ++ X) :
      (word q).length ≤ (word p).length := by
    by_contra longer
    obtain ⟨v, split⟩ : word p <+: word q :=
      List.prefix_of_prefix_length_le (List.prefix_append _ _) front (by omega)
    refine ends q known' ⟨v, split⟩ (by omega) ?_
    rw [← split, List.prefix_append_right_inj] at front
    rw [← split, List.length_append] at longer
    rw [← split, List.getElem?_append_right (Nat.le_refl _), Nat.sub_self, ← List.head?_eq_getElem?]
    obtain ⟨Y, rfl⟩ := front
    cases v with
    | nil => exact absurd (Nat.le_refl _) longer
    | cons x v => rfl
  have found := operator?_of_longest known (List.prefix_append _ X) longest
  obtain ⟨v, spelt⟩ := List.head?_eq_some_iff.mp head
  obtain ⟨letter, digit, other⟩ := operator_heads p known c (by rw [spelt]; exact List.mem_cons_self)
  have number : (isDecimal c || c == '.' && 0x30 ≤ start.peek && start.peek ≤ 0x39) = false := by
    rw [digit, Bool.false_or]
    by_cases mark : c = '.'
    · subst mark
      obtain ⟨alone, still⟩ := point head
      rw [alone] at upon
      have digit := peek_digit X upon
      rw [still] at digit
      rw [Bool.and_assoc, digit, Bool.and_false]
    · rw [beq_eq_false_iff_ne.mpr mark, Bool.false_and, Bool.false_and]
  have isSymbol : lexeme s start c = symbol s start := by
    refine Lexer.lexeme_eq_symbol s letter number ?_
    simp only [List.mem_cons, List.not_mem_nil, or_false, not_or] at other ⊢
    refine ⟨other.1, other.2.1, other.2.2.1, other.2.2.2.1, ?_⟩
    rintro rfl
    exact slash head
  rw [isSymbol]
  exact operator_gives upon fresh found s

/-! ## Decimal numbers -/

theorem isDecimal_class {d : Char} (decimal : isDecimal d = true) :
    isLetter d = false ∧ isWordChar d = true := by
  have each : ∀ n < 58, isDecimal (Char.ofNat n) = true →
      isLetter (Char.ofNat n) = false ∧ isWordChar (Char.ofNat n) = true := by decide
  have bounds := decimal
  simp only [isDecimal, Bool.and_eq_true, decide_eq_true_eq] at bounds
  have nine : d.toNat ≤ 57 := bounds.2
  have := each d.toNat (by omega)
  rw [Char.ofNat_toNat] at this
  exact this decimal

/-- Digits are read up to what is none. -/
theorem digits_over {text : Bytes} {r : Reader} {ds : List Char} (upon : r.Over text (ds ++ X))
    (decimal : ∀ d ∈ ds, isDecimal d = true) (stop : isDigitOf 10 X.head? = false) (seen : Digits)
    (valid : seen.invalid = none) :
    (digits 10 r seen).1.Over text X ∧ (digits 10 r seen).1.faults = r.faults ∧
      (digits 10 r seen).2 = { seen with digit := seen.digit || !ds.isEmpty } := by
  induction ds generalizing r seen with
  | nil =>
    rw [digits_stop (by rw [upon.char?]; exact stop)]
    exact ⟨upon, rfl, by simp⟩
  | cons d ds ih =>
    obtain ⟨first, rest⟩ := List.forall_mem_cons.mp decimal
    obtain ⟨there, faults, -⟩ := upon.next
    have separator : ¬ (d == '_') = true := by
      intro same
      rw [beq_iff_eq.mp same] at first
      exact absurd first (by decide)
    have small : d.toNat < 48 + 10 := by
      simp only [isDecimal, Bool.and_eq_true, decide_eq_true_eq] at first
      have : d.toNat ≤ '9'.toNat := first.2
      have nine : '9'.toNat = 57 := rfl
      omega
    rw [digits_go _ upon.char?, if_neg separator, if_pos (by decide), if_pos first, if_pos small, valid]
    obtain ⟨upon', faults', seen'⟩ := ih there rest { seen with digit := true, invalid := none } rfl
    refine ⟨upon', faults'.trans faults, ?_⟩
    rw [show ((none : Option Nat) <|> none) = none from rfl, seen', ← valid]
    simp

/-- Nothing idle goes on with a number. -/
theorem idle_number : ∀ x ∈ idle, isDigitOf 10 x = false ∧ isExponent x = false ∧ x ≠ some '.' ∧
    x ≠ some 'i' := by decide

/-- A decimal number ends before something idle. -/
theorem lexesAs_decimal {d : Char} {ds : List Char} (decimal : ∀ x ∈ d :: ds, isDecimal x = true)
    (nonzero : d ≠ '0') (calm : X.head? ∈ idle) :
    LexesAs (d :: ds) X .int (Text.encode (d :: ds)) := by
  intro text s start c head upon fresh
  obtain rfl : d = c := Option.some.inj head
  obtain ⟨first, -⟩ := List.forall_mem_cons.mp decimal
  obtain ⟨noDigit, noExponent, noPoint, noMark⟩ := idle_number _ calm
  obtain ⟨there, faults, seen⟩ := digits_over upon decimal noDigit ⟨false, false, none⟩ rfl
  generalize run : digits 10 start ⟨false, false, none⟩ = out at there faults seen
  obtain ⟨r, ds'⟩ := out
  dsimp only at there faults seen
  have whole : wholePart start = (r, .int, 10, .decimal, ⟨true, false, none⟩) := by
    have point : start.sees '.' = false := by
      rw [upon.sees]
      simp only [List.cons_append, List.head?_cons]
      refine beq_eq_false_iff_ne.mpr fun same => ?_
      rw [Option.some.inj same] at first
      exact absurd first (by decide)
    have zero : start.sees '0' = false := by
      rw [upon.sees]
      simpa using nonzero
    unfold wholePart
    rw [point, numberBase_eq, zero]
    simp only [Bool.false_eq_true, if_false, run, seen]
    rfl
  have point : r.sees '.' = false := by
    rw [there.sees]
    exact beq_eq_false_iff_ne.mpr noPoint
  have part : mantissa start = ((r, .int, ⟨true, false, none⟩), .decimal) := by
    unfold mantissa fraction
    simp only [whole, point, Bool.false_eq_true, if_false, if_true]
  have mark : r.sees 'i' = false := by
    rw [there.sees]
    exact beq_eq_false_iff_ne.mpr noMark
  have read : number start = (r, .int, Text.encode (d :: ds)) := by
    rw [number_eq, part]
    dsimp only
    rw [exponent_plain (by rw [there.char?]; exact noExponent)]
    unfold exponent.plain imaginary checkDigits
    simp only [mark, upon.between there, Bool.false_eq_true, if_false, reduceCtorEq, decide_false,
      Bool.false_and]
  unfold lexeme
  rw [if_neg (by simp [(isDecimal_class first).1]), if_pos (by simp [first]), read]
  exact ⟨rfl, rfl, rfl, there.forget, rfl, rfl, by
    intro f noted
    simp [emit, faults, fresh] at noted⟩

end Desugar.Host.Scan

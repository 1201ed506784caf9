import Desugar.Proofs.Host.Lexeme
import Desugar.Token.Lexer

/-!
# Marks that are glued

A question mark takes the colon or the equals sign that touches it, and a star takes the point, unless
the mark belongs to a longer lexeme. Where the bytes say that a mark is glued, the scanner reads it as
the very next lexeme, on one byte: so taking the next lexeme along takes this mark and nothing else.
-/
namespace Desugar.Lexer

open Host Host.Scan Host.Reader

/-- The marks that can be glued to what stands before them. -/
def IsMark (mark : UInt8) : Prop := mark = 0x3A ∨ mark = 0x3D ∨ mark = 0x2E

/-- The byte that makes a longer operator of a mark. -/
def extension (mark : UInt8) : UInt8 := if mark = 0x2E then 0x2E else 0x3D

theorem mark_operators : ∀ mark ∈ ([0x3A, 0x3D, 0x2E] : List UInt8), ∀ p ∈ Kind.operators,
    (Text.utf8 p.1.text).head? = some mark →
      Text.utf8 p.1.text = [mark] ∨ (Text.utf8 p.1.text)[1]? = some (extension mark) := by
  decide +kernel

theorem mark_known : ∀ mark ∈ ([0x3A, 0x3D, 0x2E] : List UInt8), ∃ p ∈ Kind.operators,
    p.2.toList = [Char.ofNat mark.toNat] := by decide +kernel

theorem IsMark.mem {mark : UInt8} (h : IsMark mark) : mark ∈ ([0x3A, 0x3D, 0x2E] : List UInt8) := by
  rcases h with rfl | rfl | rfl <;> decide

theorem operator?_of_prefix (bytes : Bytes) {p : Kind × String} (known : p ∈ Kind.operators)
    (front : p.2.toList <+: (bytes.take 3).map fun b => Char.ofNat b.toNat) :
    ∃ n kind, operator? bytes = some (n, kind) := by
  cases found : operator? bytes with
  | some pair => exact ⟨pair.1, pair.2, rfl⟩
  | none =>
    unfold operator? at found
    have absent := List.find?_eq_none.mp (Option.map_eq_none_iff.mp found) (p.2.toList, p.1)
      (mem_operatorTable.mpr ⟨p, known, rfl⟩)
    exact absurd (List.isPrefixOf_iff_prefix.mpr front) absent

/-- A mark that nothing extends is an operator of one byte. -/
theorem operator?_mark {mark : UInt8} (isMark : IsMark mark) {rest : Bytes}
    (alone : rest.head? ≠ some (extension mark)) :
    ∃ kind, operator? (mark :: rest) = some (1, kind) := by
  obtain ⟨p, known, spelt⟩ := mark_known mark isMark.mem
  obtain ⟨n, kind, found⟩ := operator?_of_prefix (mark :: rest) known (by
    rw [spelt]
    exact ⟨_, rfl⟩)
  refine ⟨kind, ?_⟩
  have front := operator?_eq_some found
  obtain ⟨m, rfl⟩ := Nat.exists_eq_succ_of_ne_zero (Nat.ne_of_gt front.pos)
  have bytes := front.spelt
  rw [List.take_succ_cons] at bytes
  obtain ⟨q, member, same⟩ := List.any_eq_true.mp front.operator.1
  have kindEq : q.1 = kind := by simpa using same
  have head : (Text.utf8 q.1.text).head? = some mark := by
    rw [kindEq, ← bytes]
    rfl
  rcases mark_operators mark isMark.mem q member head with single | longer
  · rw [kindEq, ← bytes] at single
    have noLength : (rest.take m).length = 0 := by simpa using congrArg List.length single
    have fits := front.length
    rw [List.length_take] at noLength
    rw [List.length_cons] at fits
    have zero : m = 0 := by omega
    rw [found, zero]
  · rw [kindEq, ← bytes, List.getElem?_cons_succ] at longer
    rw [List.getElem?_take] at longer
    split at longer
    · rw [← List.head?_eq_getElem?] at longer
      exact absurd longer alone
    · cases longer

/-- Where no branch before the last one applies, a lexeme is a symbol. -/
theorem lexeme_eq_symbol (s : State) {r : Reader} {c : Char} (letter : isLetter c = false)
    (number : (isDecimal c || c == '.' && 0x30 ≤ r.peek && r.peek ≤ 0x39) = false)
    (other : c ∉ ['\n', '"', '\'', Char.ofNat 0x60, '/']) : lexeme s r c = symbol s r := by
  simp only [List.mem_cons, List.not_mem_nil, or_false, not_or] at other
  obtain ⟨newline, double, single, quote, slash⟩ := other
  unfold lexeme
  rw [if_neg (by simp [letter]), if_neg (by simp [number]), if_neg (by simpa using newline),
    if_neg (by simpa using double), if_neg (by simpa using single), if_neg (by simpa using quote),
    if_neg (by simp [slash])]

/-- At a character that only symbols start with, the next lexeme is a symbol. -/
theorem next_eq_symbol {s : State} (pending : s.pending = none) {c : Char} (char : s.reader.char? = some c)
    (blank : isBlank s.ends c = false) (letter : isLetter c = false)
    (number : (isDecimal c || c == '.' && 0x30 ≤ s.reader.peek && s.reader.peek ≤ 0x39) = false)
    (other : c ∉ ['\n', '"', '\'', Char.ofNat 0x60, '/']) : Scan.next s = symbol s s.reader := by
  have stays : s.reader.skipWhile (isBlank s.ends) = s.reader := by
    rw [skipWhile]
    split
    · rename_i d seen
      obtain rfl := Option.some.inj (char.symm.trans seen)
      rw [if_neg (by simp [blank])]
    · rfl
  unfold Scan.next
  simp only [pending, stays, char]
  exact lexeme_eq_symbol s letter number other

/-- An operator becomes a token. -/
theorem isProper_symbol (s : State) {r : Reader} {n : Nat} {kind : Kind}
    (found : operator? r.rest = some (n, kind)) : isProper (symbol s r).1 = true := by
  have facts := operator?_eq_some found
  unfold symbol
  rw [found]
  unfold isProper Lexeme.isAutomatic
  by_cases semicolon : kind = .semicolon
  · simp [emit, semicolon]
  · simp [emit, semicolon, facts.operator.2.1, facts.operator.2.2]

theorem peek_of_cons {r : Reader} {b : UInt8} {rest : Bytes} (front : r.rest = b :: rest)
    (small : b.toNat < 0x80) : r.peek = rest.head?.getD 0 := by
  have one : (Text.decodeCons b rest).more = 0 :=
    (Text.decodeCons_small (by simp) small).1
  unfold Reader.peek
  simp only [front, one, List.drop_zero]

/-- What the bytes say where a mark is glued. -/
theorem bytes_of_glues {text : Bytes} {offset : Nat} {mark : UInt8} (isMark : IsMark mark)
    (glued : glues text.toArray offset mark = true) :
    text[offset]? = some mark ∧ text[offset + 1]? ≠ some (extension mark) ∧
      (mark = 0x2E → ¬ (0x30 ≤ (text[offset + 1]?).getD 0 ∧ (text[offset + 1]?).getD 0 ≤ 0x39)) := by
  unfold glues at glued
  simp only [List.getElem?_toArray, Bool.and_eq_true, beq_iff_eq] at glued
  obtain ⟨here, after⟩ := glued
  refine ⟨?_, ?_, ?_⟩
  · cases byte : text[offset]? with
    | none =>
      rw [byte, Option.getD_none] at here
      rcases isMark with rfl | rfl | rfl <;> cases here
    | some b =>
      rw [byte, Option.getD_some] at here
      rw [here]
  · intro longer
    rw [longer, Option.getD_some] at after
    rcases isMark with rfl | rfl | rfl <;> exact absurd after (by decide)
  · rintro rfl digit
    rw [if_pos rfl] at after
    simp [digit] at after

/-- No branch of the scanner but the last one reads a mark. -/
theorem mark_chars : ∀ mark ∈ ([0x3A, 0x3D, 0x2E] : List UInt8), ∀ ends : Bool,
    isBlank ends (Char.ofNat mark.toNat) = false ∧ isLetter (Char.ofNat mark.toNat) = false ∧
      isDecimal (Char.ofNat mark.toNat) = false ∧
      ((Char.ofNat mark.toNat == '.') = true → mark = 0x2E) ∧ mark.toNat < 0x80 ∧
      Char.ofNat mark.toNat ∉ ['\n', '"', '\'', Char.ofNat 0x60, '/'] := by decide +kernel

/-- A mark that is glued is the next lexeme, on its one byte: the operator that is spelt as this byte. -/
theorem next_eq_mark {text : Bytes} {s : State} (h : s.reader.At text) (pending : s.pending = none)
    {mark : UInt8} (isMark : IsMark mark)
    (glued : glues text.toArray s.reader.offset mark = true) :
    ∃ kind, operator? s.reader.rest = some (1, kind) ∧ Text.utf8 kind.text = [mark] ∧
      Scan.next s = symbol s s.reader ∧ s.reader.next.offset = s.reader.offset + 1 := by
  obtain ⟨byte, alone, notDigit⟩ := bytes_of_glues isMark glued
  obtain ⟨blank, letter, decimal, point, small, other⟩ := mark_chars mark isMark.mem s.ends
  have char := h.char_of_byte byte small
  obtain ⟨b, rest, front, -, here⟩ := h.front_of_char char
  rw [byte, Option.some.injEq] at here
  subst here
  have after : text[s.reader.offset + 1]? = rest.head? := by
    have start := h.rest
    rw [front] at start
    rw [← List.getElem?_drop, ← start, List.head?_eq_getElem?, List.getElem?_cons_succ]
  rw [after] at alone notDigit
  have number : (isDecimal (Char.ofNat mark.toNat) || Char.ofNat mark.toNat == '.' &&
      0x30 ≤ s.reader.peek && s.reader.peek ≤ 0x39) = false := by
    rw [peek_of_cons front small, decimal, Bool.false_or]
    cases isPoint : (Char.ofNat mark.toNat == '.') with
    | false => rfl
    | true => simpa using notDigit (point isPoint)
  obtain ⟨kind, found⟩ := operator?_mark isMark alone
  have spelt := (operator?_eq_some found).spelt
  rw [← front] at found
  have one : s.reader.next.offset = s.reader.offset + 1 :=
    (h.next_of_ascii char (by rw [Text.toNat_ofNat_of_isValidChar (Or.inl (by omega))]; exact small)).2
  exact ⟨kind, found, spelt.symm, next_eq_symbol pending char blank letter number other, one⟩

theorem next_of_glues {text : Bytes} {s : State} (h : s.reader.At text) (pending : s.pending = none)
    {mark : UInt8} (isMark : IsMark mark)
    (glued : glues text.toArray s.reader.offset mark = true) :
    isProper (next s).1 = true ∧ (next s).2.reader.offset = s.reader.offset + 1 := by
  obtain ⟨kind, found, -, read, one⟩ := next_eq_mark h pending isMark glued
  rw [read]
  refine ⟨isProper_symbol s found, ?_⟩
  unfold symbol
  rw [found]
  exact one

/-- An exclamation mark is the next lexeme, or starts it. -/
theorem next_of_bang {text : Bytes} {s : State} (h : s.reader.At text) (pending : s.pending = none)
    (byte : text[s.reader.offset]? = some 0x21) : isProper (next s).1 = true := by
  have char : s.reader.char? = some '!' := h.char_of_byte byte (by decide)
  obtain ⟨b, rest, front, -, here⟩ := h.front_of_char char
  obtain rfl := Option.some.inj (byte.symm.trans here)
  obtain ⟨n, kind, found⟩ := operator?_of_prefix (0x21 :: rest) (p := (.not, "!")) (by decide)
    ⟨((rest.take 2).map fun b => Char.ofNat b.toNat), rfl⟩
  rw [← front] at found
  have blank : ∀ ends, isBlank ends '!' = false := by decide
  rw [next_eq_symbol pending char (blank s.ends) (by decide) (by simp [isDecimal]) (by decide)]
  exact isProper_symbol s found

/-- A semicolon is kept waiting by a comment alone. -/
theorem lexeme_pending (s : State) (r : Reader) (c : Char) (pending : s.pending = none) :
    (lexeme s r c).1.kind = .comment ∨ (lexeme s r c).2.pending = none := by
  unfold lexeme
  split
  · exact .inr pending
  split
  · exact .inr pending
  split
  · exact .inr pending
  split
  · exact .inr pending
  split
  · exact .inr pending
  split
  · exact .inr pending
  split
  · exact .inl (comment_fields s r).1
  · right
    unfold symbol
    split <;> exact pending

theorem next_pending (s : State) :
    (Scan.next s).1.kind = .comment ∨ (Scan.next s).2.pending = none := by
  unfold Scan.next
  split
  · exact .inr rfl
  · rename_i pending
    dsimp only
    split
    · exact lexeme_pending s _ _ pending
    · split <;> exact .inr pending

end Desugar.Lexer

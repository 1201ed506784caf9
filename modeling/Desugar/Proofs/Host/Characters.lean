import Desugar.Proofs.Host.Reading
import Desugar.Proofs.Text.Encoding

/-!
# Readers before known characters

A reader stands before some characters where the text from its offset on encodes them. It sees the
first of them and moves past it by its bytes, without noting a fault, as long as no character is one
that may not stand in a source. What it reads is then a matter of characters alone.
-/
namespace Desugar.Host

/-- A character that may stand behind the first place of a source. -/
def IsPlain (c : Char) : Prop := c ≠ '\x00' ∧ c ≠ '\uFEFF'

instance (c : Char) : Decidable (IsPlain c) := inferInstanceAs (Decidable (_ ∧ _))

namespace Reader

/-- The reader stands in the text before some characters, which are the rest of it. -/
structure Over (text : Bytes) (cs : List Char) (r : Reader) : Prop where
  stands : r.At text
  front : r.rest = Text.encode cs
  plain : ∀ c ∈ cs, IsPlain c

section
variable {text : Bytes} {r : Reader} {c : Char} {cs : List Char}

/-- The rest of a text before a character, and what reading that character gives. -/
theorem Over.decoded (h : r.Over text (c :: cs)) :
    ∃ b tail, r.rest = b :: (tail ++ Text.encode cs) ∧
      Text.decodeCons b (tail ++ Text.encode cs) = ⟨c, tail.length, true⟩ ∧
      (String.utf8EncodeChar c).length = tail.length + 1 := by
  obtain ⟨b, tail, bytes, decoded⟩ := Text.decodeCons_encode c (Text.encode cs)
  refine ⟨b, tail, ?_, decoded, by simp [bytes]⟩
  rw [h.front, Text.encode_cons, bytes, List.cons_append]

theorem Over.char? (h : r.Over text cs) : r.char? = cs.head? := by
  cases cs with
  | nil => simp [Reader.char?, h.front, Text.decode?]
  | cons c cs =>
    obtain ⟨b, tail, front, decoded, -⟩ := h.decoded
    simp [Reader.char?, front, Text.decode?, decoded]

theorem Over.sees (h : r.Over text cs) (c : Char) : r.sees c = (cs.head? == some c) := by
  rw [Reader.sees, h.char?]

/-- A plain character has no fault of its own. -/
theorem Over.characterFault? (h : r.Over text cs) : Reader.characterFault? r.rest = none := by
  cases cs with
  | nil => simp [Reader.characterFault?, h.front]
  | cons c cs =>
    obtain ⟨b, tail, front, decoded, -⟩ := h.decoded
    obtain ⟨notNul, notMark⟩ := h.plain c List.mem_cons_self
    have byte : b ≠ 0 := by
      rintro rfl
      have nul : (Text.decodeCons 0 (tail ++ Text.encode cs)).char = '\x00' := rfl
      rw [decoded] at nul
      exact notNul nul
    simp [Reader.characterFault?, front, decoded, byte, notMark]

theorem Over.inspect (h : r.Over text cs) : r.inspect = r := by
  unfold Reader.inspect
  rw [h.characterFault?]

/-- Moving past a character takes its bytes and notes nothing. -/
theorem Over.next (h : r.Over text (c :: cs)) :
    r.next.Over text cs ∧ r.next.faults = r.faults ∧
      r.next.offset = r.offset + (String.utf8EncodeChar c).length := by
  obtain ⟨b, tail, front, decoded, width⟩ := h.decoded
  obtain ⟨offset, rest, -⟩ := h.stands.next_of_cons front
  rw [decoded, List.drop_left] at rest
  have upon : r.next.Over text cs :=
    ⟨h.stands.next, rest, fun x member => h.plain x (List.mem_cons_of_mem _ member)⟩
  refine ⟨upon, ?_, ?_⟩
  · have clear := upon.characterFault?
    rw [rest] at clear
    unfold Reader.next
    simp only [front, decoded, List.drop_left]
    unfold Reader.inspect
    simp only [clear]
  · rw [offset, decoded, Text.Decoded.width, width]

theorem Over.fault (h : r.Over text cs) (offset : Nat) (f : Fault) : (r.fault offset f).Over text cs :=
  ⟨h.stands.fault offset f, h.front, h.plain⟩

theorem Over.length (h : r.Over text cs) : r.offset + (Text.encode cs).length = text.length := by
  have whole := h.stands.length_rest
  rwa [h.front] at whole

/-- The bytes of the next characters. -/
theorem Over.byte {w : List Char} (h : r.Over text (w ++ cs)) {k : Nat}
    (inside : k < (Text.encode w).length) : text[r.offset + k]? = (Text.encode w)[k]? := by
  rw [← List.getElem?_drop, ← h.stands.rest, h.front, Text.encode_append,
    List.getElem?_append_left inside]

/-- What was read between two readers in one text. -/
theorem Over.between {w : List Char} {q : Reader} (h : r.Over text (w ++ cs)) (there : q.Over text cs) :
    Scan.between r q = Text.encode w := by
  have wide := h.length
  have wide' := there.length
  rw [Text.encode_append, List.length_append] at wide
  have width : q.offset - r.offset = (Text.encode w).length := by omega
  rw [Scan.between, h.front, Text.encode_append, width, List.take_left]

/-- The byte behind a character of one byte. -/
theorem Over.peek (h : r.Over text (c :: cs)) (small : c.toNat < 0x80) :
    r.peek = ((Text.encode cs).head?).getD 0 := by
  obtain ⟨b, tail, front, decoded, width⟩ := h.decoded
  rw [Text.encode_ascii small] at width
  have empty : tail = [] := List.eq_nil_of_length_eq_zero (by simpa using width.symm)
  subst empty
  rw [List.nil_append] at front decoded
  unfold Reader.peek
  simp [front, decoded]

/-- Skipping passes the characters that satisfy a predicate and notes nothing. -/
theorem Over.skipWhile (p : Char → Bool) (h : r.Over text cs) :
    (r.skipWhile p).Over text (cs.dropWhile p) ∧ (r.skipWhile p).faults = r.faults := by
  induction cs generalizing r with
  | nil =>
    rw [Reader.skipWhile]
    split
    · rename_i char
      simp [h.char?] at char
    · exact ⟨h, rfl⟩
  | cons c cs ih =>
    have seen := h.char?
    rw [Reader.skipWhile]
    split
    · rename_i x char
      rw [seen] at char
      obtain rfl : c = x := by simpa using char
      by_cases hp : p c = true
      · rw [if_pos hp, List.dropWhile_cons_of_pos hp]
        obtain ⟨upon, faults, -⟩ := h.next
        obtain ⟨rest, kept⟩ := ih upon
        exact ⟨rest, kept.trans faults⟩
      · rw [if_neg hp, List.dropWhile_cons_of_neg hp]
        exact ⟨h, rfl⟩
    · rename_i char
      simp [seen] at char

end

end Reader
end Desugar.Host

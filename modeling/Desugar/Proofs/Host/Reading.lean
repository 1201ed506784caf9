import Mathlib.Data.List.Basic
import Desugar.Host.Scan
import Desugar.Proofs.Text.Decoding

/-!
# Where a reader stands

A reader that stands in a text has the bytes from its offset on before it. It moves by characters, so
everything that the scanner reads is reached by moves and by notes of faults: such a reader stays in
the text, never goes back, and forgets no fault. Statements about what was read between two readers
are therefore statements about slices of the text.
-/
namespace Desugar.Host

namespace Reader

/-- The reader stands in the text: what is left to read is the text from its offset on. -/
structure At (text : Bytes) (r : Reader) : Prop where
  rest : r.rest = text.drop r.offset
  size : r.size = text.length
  bound : r.offset ≤ text.length

/-- What is reached from a reader by moving on and noting faults. -/
inductive Reaches (r : Reader) : Reader → Prop where
  | refl : Reaches r r
  | next {s : Reader} : Reaches r s → Reaches r s.next
  | fault {s : Reader} (offset : Nat) (f : Fault) : Reaches r s → Reaches r (s.fault offset f)

theorem Reaches.trans {r s t : Reader} (first : Reaches r s) (second : Reaches s t) :
    Reaches r t := by
  induction second with
  | refl => exact first
  | next _ ih => exact .next ih
  | fault o f _ ih => exact .fault o f ih

theorem Reaches.ite {r s t : Reader} {c : Prop} [Decidable c] (yes : Reaches r s)
    (no : Reaches r t) : Reaches r (if c then s else t) := by
  split
  · exact yes
  · exact no

theorem reaches_next (r : Reader) : Reaches r r.next := .next .refl

@[simp] theorem inspect_offset (r : Reader) : r.inspect.offset = r.offset := by
  unfold inspect
  split <;> rfl

@[simp] theorem inspect_size (r : Reader) : r.inspect.size = r.size := by
  unfold inspect
  split <;> rfl

theorem mem_faults_inspect {r : Reader} {l : Located} (h : l ∈ r.faults) :
    l ∈ r.inspect.faults := by
  unfold inspect
  split
  · exact List.mem_cons_of_mem _ h
  · exact h

section
variable {text : Bytes} {r s : Reader}

theorem At.fault (h : r.At text) (offset : Nat) (f : Fault) : (r.fault offset f).At text :=
  ⟨h.rest, h.size, h.bound⟩

theorem At.length_rest (h : r.At text) : r.offset + r.rest.length = text.length := by
  have bound := h.bound
  rw [h.rest, List.length_drop]
  omega

/-- A move takes the bytes of one character. -/
theorem At.next_of_cons (h : r.At text) {b : UInt8} {rest : Bytes} (front : r.rest = b :: rest) :
    r.next.offset = r.offset + (Text.decodeCons b rest).width ∧
      r.next.rest = rest.drop (Text.decodeCons b rest).more ∧ r.next.size = r.size := by
  have length := h.length_rest
  have size := h.size
  have more := Text.decodeCons_more_le b rest
  rw [front, List.length_cons] at length
  unfold Reader.next
  simp only [front, inspect_offset, inspect_rest, inspect_size, and_true]
  split
  · rename_i empty
    rw [List.isEmpty_iff, List.drop_eq_nil_iff] at empty
    unfold Text.Decoded.width
    omega
  · rfl

theorem next_of_nil (front : r.rest = []) : r.next = r := by
  unfold Reader.next
  simp only [front]

theorem At.next (h : r.At text) : r.next.At text := by
  cases front : r.rest with
  | nil => rw [next_of_nil front]; exact h
  | cons b rest =>
    obtain ⟨offset, tail, size⟩ := h.next_of_cons front
    have length := h.length_rest
    have more := Text.decodeCons_more_le b rest
    rw [front, List.length_cons] at length
    refine ⟨?_, size.trans h.size, by unfold Text.Decoded.width at offset; omega⟩
    have start := h.rest
    rw [front] at start
    rw [tail, offset, ← List.drop_drop, ← start, Text.Decoded.width, List.drop_succ_cons]

theorem At.reaches (h : r.At text) (way : Reaches r s) : s.At text := by
  induction way with
  | refl => exact h
  | next _ ih => exact ih.next
  | fault o f _ ih => exact ih.fault o f

theorem At.offset_le_next (h : r.At text) : r.offset ≤ r.next.offset := by
  cases front : r.rest with
  | nil => exact Nat.le_of_eq (by rw [next_of_nil front])
  | cons b rest => rw [(h.next_of_cons front).1]; exact Nat.le_add_right _ _

theorem At.offset_le (h : r.At text) (way : Reaches r s) : r.offset ≤ s.offset := by
  induction way with
  | refl => exact Nat.le_refl _
  | next mid ih => exact Nat.le_trans ih (h.reaches mid).offset_le_next
  | fault o f _ ih => exact ih

theorem mem_faults_next {l : Located} (h : l ∈ r.faults) : l ∈ r.next.faults := by
  unfold Reader.next
  split
  · exact h
  · exact mem_faults_inspect h

/-- No fault is forgotten on the way. -/
theorem Reaches.faults (way : Reaches r s) {l : Located} (h : l ∈ r.faults) : l ∈ s.faults := by
  induction way with
  | refl => exact h
  | next _ ih => exact mem_faults_next ih
  | fault o f _ ih => exact List.mem_cons_of_mem _ ih

/-- Where a character is read, its bytes are there. -/
theorem At.front_of_char (h : r.At text) {c : Char} (char : r.char? = some c) :
    ∃ b rest, r.rest = b :: rest ∧ (Text.decodeCons b rest).char = c ∧
      text[r.offset]? = some b := by
  cases front : r.rest with
  | nil => simp [char?, Text.decode?, front] at char
  | cons b rest =>
    simp only [char?, Text.decode?, front, Option.map_some, Option.some.injEq] at char
    refine ⟨b, rest, rfl, char, ?_⟩
    have start := h.rest
    rw [front] at start
    rw [← List.head?_drop, ← start, List.head?_cons]

theorem At.offset_lt_of_char (h : r.At text) {c : Char} (char : r.char? = some c) :
    r.offset < text.length ∧ r.offset < r.next.offset := by
  obtain ⟨b, rest, front, -, here⟩ := h.front_of_char char
  refine ⟨(List.getElem?_eq_some_iff.mp here).1, ?_⟩
  rw [(h.next_of_cons front).1]
  exact Nat.lt_add_of_pos_right (Text.Decoded.width_pos _)

theorem At.rest_eq_nil_of_char (char : r.char? = none) : r.rest = [] := by
  cases front : r.rest with
  | nil => rfl
  | cons b rest => simp [char?, Text.decode?, front] at char

/-- At the end of the text no character is left. -/
theorem At.offset_eq_of_char (h : r.At text) (char : r.char? = none) : r.offset = text.length := by
  have length := h.length_rest
  rw [At.rest_eq_nil_of_char char] at length
  simpa using length

/-- A character of one byte takes one byte. -/
theorem At.next_of_ascii (h : r.At text) {c : Char} (char : r.char? = some c)
    (small : c.toNat < 0x80) :
    text[r.offset]? = some (UInt8.ofNat c.toNat) ∧ r.next.offset = r.offset + 1 := by
  obtain ⟨b, rest, front, same, here⟩ := h.front_of_char char
  subst same
  obtain ⟨value, zero⟩ := Text.decodeCons_ascii small
  rw [here, ← value, UInt8.ofNat_toNat, (h.next_of_cons front).1, Text.Decoded.width, zero]
  exact ⟨rfl, rfl⟩

/-- A byte below 128 among the bytes of a character is the whole character. -/
theorem At.small_byte (h : r.At text) {c : Char} (char : r.char? = some c) {k : Nat} {x : UInt8}
    (behind : r.offset ≤ k) (before : k < r.next.offset) (byte : text[k]? = some x)
    (small : x.toNat < 0x80) :
    k = r.offset ∧ r.next.offset = r.offset + 1 ∧ c.toNat = x.toNat := by
  obtain ⟨b, rest, front, same, -⟩ := h.front_of_char char
  subst same
  have next := (h.next_of_cons front).1
  have start := h.rest
  rw [front] at start
  have member : x ∈ b :: rest.take (Text.decodeCons b rest).more := by
    have here : (b :: rest)[k - r.offset]? = some x := by
      rw [start, List.getElem?_drop]
      rwa [Nat.add_sub_cancel' behind]
    have taken : b :: rest.take (Text.decodeCons b rest).more =
        (b :: rest).take ((Text.decodeCons b rest).more + 1) := rfl
    rw [taken, List.mem_iff_getElem?]
    refine ⟨k - r.offset, ?_⟩
    rw [List.getElem?_take_of_lt (by unfold Text.Decoded.width at next; omega)]
    exact here
  obtain ⟨zero, value⟩ := Text.decodeCons_small member small
  rw [Text.Decoded.width, zero] at next
  exact ⟨by omega, next, value⟩

theorem At.char_of_byte (h : r.At text) {b : UInt8} (byte : text[r.offset]? = some b)
    (small : b.toNat < 0x80) : r.char? = some (Char.ofNat b.toNat) := by
  have start := h.rest
  rw [← List.head?_drop, ← start] at byte
  obtain ⟨rest, front⟩ := List.head?_eq_some_iff.mp byte
  simp only [char?, front, Text.decode?, Text.decodeCons, UInt8.lt_iff_toNat_lt]
  rw [if_pos (by simpa using small), Option.map_some]

theorem char_of_sees {c : Char} (h : r.sees c = true) : r.char? = some c := by
  simpa [sees] using h

/-- The text between two readers on the way is a slice. -/
theorem At.between (h : r.At text) (s : Reader) :
    Scan.between r s = Text.slice text r.offset s.offset := by
  unfold Scan.between Text.slice
  rw [h.rest]

end

theorem reaches_skipWhile (p : Char → Bool) (r : Reader) : Reaches r (r.skipWhile p) := by
  fun_induction skipWhile p r with
  | case1 r c h hp ih => exact (reaches_next r).trans ih
  | case2 => exact .refl
  | case3 => exact .refl

end Reader

namespace Scan

open Reader

theorem reaches_digits (base : Nat) (r : Reader) (seen : Digits) :
    Reaches r (digits base r seen).1 := by
  fun_induction digits base r seen with
  | case1 => exact .refl
  | case2 r _ _ _ _ ih => exact (reaches_next r).trans ih
  | case3 r _ _ _ _ _ _ _ ih => exact (reaches_next r).trans ih
  | case4 => exact .refl
  | case5 r _ _ _ _ _ _ ih => exact (reaches_next r).trans ih
  | case6 => exact .refl

theorem reaches_numberBase (r : Reader) : Reaches r (numberBase r).1 := by
  unfold numberBase
  split
  · dsimp only
    split
    · exact .next (reaches_next r)
    · exact .next (reaches_next r)
    · exact .next (reaches_next r)
    · exact reaches_next r
  · exact .refl

theorem reaches_wholePart (r : Reader) : Reaches r (wholePart r).1 := by
  unfold wholePart
  split
  · exact .refl
  · exact (reaches_numberBase r).trans (reaches_digits _ _ _)

theorem reaches_fraction (base : Nat) (radix : Radix) (r : Reader) (kind : Kind) (seen : Digits) :
    Reaches r (fraction base radix r kind seen).1 := by
  unfold fraction
  split
  · have point : Reaches r (if radix = .octal || radix = .binary then
        r.fault r.offset (.radixPoint radix) else r) := .ite (.fault _ _ .refl) .refl
    exact (Reaches.next point).trans (reaches_digits _ _ _)
  · exact .refl

theorem reaches_exponent (radix : Radix) (r : Reader) (kind : Kind) (seen : Digits) :
    Reaches r (exponent radix r kind seen).1 := by
  have plain : Reaches r (exponent.plain radix kind seen r).1 := by
    unfold exponent.plain
    split
    · exact .fault _ _ .refl
    · exact .refl
  unfold exponent
  split
  · exact plain
  · dsimp only
    split
    · rename_i c _ _
      have mark : Reaches r (if lower c == 'e' && radix ≠ .decimal && radix ≠ .zero then
          r.fault r.offset (.decimalExponent c)
        else if lower c == 'p' && radix ≠ .hexadecimal then
          r.fault r.offset (.hexadecimalExponent c)
        else r) := .ite (.fault _ _ .refl) (.ite (.fault _ _ .refl) .refl)
      have digits := fun b => (Reaches.ite (c := b = true) (.next (.next mark)) (.next mark)).trans
        (reaches_digits 10 _ ⟨false, false, none⟩)
      exact .ite (digits _) (.fault _ _ (digits _))
    · exact plain

theorem reaches_checkDigits (start : Nat) (kind : Kind) (radix : Radix) (seen : Digits)
    (literal : Bytes) (r : Reader) : Reaches r (checkDigits start kind radix seen literal r) := by
  unfold checkDigits
  dsimp only
  repeat' split
  all_goals first
    | exact .refl
    | exact .fault _ _ .refl
    | exact .fault _ _ (.fault _ _ .refl)

/-- A number is read by moves. -/
theorem reaches_number (start : Reader) : Reaches start (number start).1 := by
  unfold number
  dsimp only
  have imaginary (r : Reader) (kind : Kind) :
      Reaches r (if r.sees 'i' then (r.next, Kind.imag) else (r, kind)).1 := by
    split
    · exact reaches_next r
    · exact .refl
  have fraction := (reaches_wholePart start).trans
    (reaches_fraction (wholePart start).2.2.1 (wholePart start).2.2.2.1 (wholePart start).1
      (wholePart start).2.1 (wholePart start).2.2.2.2)
  refine Reaches.trans ?_ (reaches_checkDigits _ _ _ _ _ _)
  refine Reaches.trans ?_ (imaginary _ _)
  refine Reaches.trans ?_ (reaches_exponent _ _ _ _)
  exact .ite fraction (.fault _ _ fraction)

theorem reaches_escapeDigits (start base limit count : Nat) (r : Reader) (value : Nat) :
    Reaches r (escapeDigits start base limit count r value).1 := by
  induction count generalizing r value with
  | zero =>
    unfold escapeDigits
    split
    · exact .fault _ _ .refl
    · exact .refl
  | succ count ih =>
    unfold escapeDigits
    split
    · exact .fault _ _ .refl
    · split
      · exact (reaches_next r).trans (ih _ _)
      · exact .fault _ _ .refl

theorem reaches_escape (mark : Char) (r : Reader) : Reaches r (escape mark r).1 := by
  unfold escape
  split
  · exact .fault _ _ .refl
  · repeat' split
    all_goals first
      | exact reaches_next r
      | exact reaches_escapeDigits _ _ _ _ _ _
      | exact (reaches_next r).trans (reaches_escapeDigits _ _ _ _ _ _)
      | exact .fault _ _ .refl

theorem reaches_stringBody (start : Nat) (r : Reader) : Reaches r (stringBody start r) := by
  fun_induction stringBody start r with
  | case1 => exact .fault _ _ .refl
  | case2 => exact .fault _ _ .refl
  | case3 r _ _ _ _ => exact reaches_next r
  | case4 r _ _ _ _ _ ih => exact ((reaches_next r).trans (reaches_escape _ _)).trans ih
  | case5 r _ _ _ _ _ ih => exact (reaches_next r).trans ih

theorem reaches_runeBody (start : Nat) (r : Reader) (count : Nat) (valid : Bool) :
    Reaches r (runeBody start r count valid) := by
  fun_induction runeBody start r count valid with
  | case1 => exact .fault _ _ .refl
  | case2 => exact .refl
  | case3 => exact .fault _ _ .refl
  | case4 => exact .refl
  | case5 => exact .fault _ _ (reaches_next _)
  | case6 => exact reaches_next _
  | case7 r _ _ _ _ _ _ _ _ ih => exact ((reaches_next r).trans (reaches_escape _ _)).trans ih
  | case8 r _ _ _ _ _ _ _ ih => exact (reaches_next r).trans ih

theorem reaches_rawBody (start : Nat) (r : Reader) : Reaches r (rawBody start r) := by
  fun_induction rawBody start r with
  | case1 => exact .fault _ _ .refl
  | case2 r _ _ _ => exact reaches_next r
  | case3 r _ _ _ ih => exact (reaches_next r).trans ih

theorem reaches_generalBody (r : Reader) (newline : Option Nat) :
    Reaches r (generalBody r newline).1 := by
  fun_induction generalBody r newline with
  | case1 => exact .refl
  | case2 r => exact .next (reaches_next r)
  | case3 r _ _ _ _ _ ih => exact (reaches_next r).trans ih

theorem reaches_skip (n : Nat) (r : Reader) : Reaches r (skip n r) := by
  induction n generalizing r with
  | zero => exact .refl
  | succ n ih => exact (reaches_next r).trans (ih _)

theorem reaches_commentBody (start : Reader) : Reaches start (commentBody start).1 := by
  unfold commentBody
  split
  · have body := (Reaches.next (reaches_next start)).trans
      (reaches_generalBody start.next.next none)
    dsimp only
    split
    · exact body
    · exact .fault _ _ body
  · exact (Reaches.next (reaches_next start)).trans (reaches_skipWhile _ _)

theorem reaches_applyDirective (r : Reader) (infos : List LineInfo)
    (directive : Option (Except Located LineInfo)) :
    Reaches r (applyDirective r infos directive).1 := by
  unfold applyDirective
  split
  · exact .fault _ _ .refl
  · exact .refl
  · exact .refl

end Scan
end Desugar.Host

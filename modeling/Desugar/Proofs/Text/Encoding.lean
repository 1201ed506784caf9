import Desugar.Proofs.Text.Decoding

/-!
# Texts that encode characters

A text that is well formed is the encoding of its characters, one after the other. Reading a character
off the front of such a text gives the first of them and leaves the encoding of the others, so that
what is read from the text depends on its characters alone.
-/
namespace Desugar.Text

/-- The bytes of some characters in UTF-8. -/
def encode (cs : List Char) : Bytes := cs.flatMap String.utf8EncodeChar

@[simp] theorem encode_nil : encode [] = [] := rfl

@[simp] theorem encode_cons (c : Char) (cs : List Char) :
    encode (c :: cs) = String.utf8EncodeChar c ++ encode cs := rfl

@[simp] theorem encode_append (as bs : List Char) :
    encode (as ++ bs) = encode as ++ encode bs := List.flatMap_append

theorem utf8_eq_encode (s : String) : utf8 s = encode s.toList := rfl

theorem toNat_ofNat_of_lt {n : Nat} (h : n < 256) : (UInt8.ofNat n).toNat = n := by
  rw [UInt8.toNat_ofNat', Nat.mod_eq_of_lt h]

/-- A byte of the form `10xxxxxx` carries six bits. -/
theorem low6_tail (n : Nat) : low6 (UInt8.ofNat (n % 64 + 128)) = n % 64 := by
  unfold low6
  rw [toNat_ofNat_of_lt (by omega)]
  omega

theorem isContinuation_tail (n : Nat) : isContinuation (UInt8.ofNat (n % 64 + 128)) = true := by
  rw [isContinuation_iff, toNat_ofNat_of_lt (by omega)]
  omega

/-- Where a character is encoded, it is read. -/
theorem decodeCons_encode (c : Char) (rest : Bytes) :
    ∃ b tail, String.utf8EncodeChar c = b :: tail ∧
      decodeCons b (tail ++ rest) = ⟨c, tail.length, true⟩ := by
  have known : Char.ofNat c.toNat = c := Char.ofNat_toNat c
  have scalar : c.toNat < 0xD800 ∨ (0xDFFF < c.toNat ∧ c.toNat < 0x110000) := c.valid
  simp only [String.utf8EncodeChar, Char.toNat_val]
  generalize c.toNat = v at known scalar
  subst known
  split
  · refine ⟨_, [], rfl, ?_⟩
    have small : UInt8.ofNat v < 0x80 := by
      rw [UInt8.lt_iff_toNat_lt, toNat_ofNat_of_lt (by omega)]
      simp
      omega
    simp only [decodeCons, small, if_true, List.length_nil, toNat_ofNat_of_lt (n := v) (by omega)]
  split
  · refine ⟨_, [_], rfl, ?_⟩
    have lead := toNat_ofNat_of_lt (n := v / 64 % 32 + 192) (by omega)
    have large : ¬ UInt8.ofNat (v / 64 % 32 + 192) < 0x80 := by
      rw [UInt8.lt_iff_toNat_lt, lead]
      simp
    have range : (0xC2 ≤ UInt8.ofNat (v / 64 % 32 + 192) &&
        UInt8.ofNat (v / 64 % 32 + 192) ≤ 0xDF) = true := by
      simp only [Bool.and_eq_true, decide_eq_true_eq, UInt8.le_iff_toNat_le, lead]
      simp
      omega
    have value : (v / 64 % 32 + 192) % 32 * 64 + v % 64 = v := by omega
    simp only [decodeCons, List.cons_append, List.nil_append, large, range, if_true, if_false,
      isContinuation_tail, lead, low6_tail, value, List.length_cons, List.length_nil]
  split
  · refine ⟨_, [_, _], rfl, ?_⟩
    have lead := toNat_ofNat_of_lt (n := v / 4096 % 16 + 224) (by omega)
    have second := toNat_ofNat_of_lt (n := v / 64 % 64 + 128) (by omega)
    have large : ¬ UInt8.ofNat (v / 4096 % 16 + 224) < 0x80 := by
      rw [UInt8.lt_iff_toNat_lt, lead]
      simp
    have other : (0xC2 ≤ UInt8.ofNat (v / 4096 % 16 + 224) &&
        UInt8.ofNat (v / 4096 % 16 + 224) ≤ 0xDF) = false := by
      simp only [Bool.and_eq_false_iff, decide_eq_false_iff_not, UInt8.le_iff_toNat_le, lead]
      simp
    have range : (0xE0 ≤ UInt8.ofNat (v / 4096 % 16 + 224) &&
        UInt8.ofNat (v / 4096 % 16 + 224) ≤ 0xEF) = true := by
      simp only [Bool.and_eq_true, decide_eq_true_eq, UInt8.le_iff_toNat_le, lead]
      simp
      omega
    have bounds : ((if UInt8.ofNat (v / 4096 % 16 + 224) == 0xE0 then 0xA0 else 0x80) ≤
          UInt8.ofNat (v / 64 % 64 + 128) &&
        UInt8.ofNat (v / 64 % 64 + 128) ≤
          (if UInt8.ofNat (v / 4096 % 16 + 224) == 0xED then 0x9F else 0xBF)) = true := by
      simp only [Bool.and_eq_true, decide_eq_true_eq, UInt8.le_iff_toNat_le, second, beq_iff_eq,
        ← UInt8.toNat_inj, lead]
      constructor <;> split <;> simp at * <;> omega
    have value : (v / 4096 % 16 + 224) % 16 * 4096 + v / 64 % 64 * 64 + v % 64 = v := by omega
    simp only [decodeCons, List.cons_append, List.nil_append, large, other, range, bounds, if_true,
      if_false, Bool.false_eq_true, isContinuation_tail, Bool.and_true, lead, low6_tail, value,
      List.length_cons, List.length_nil]
  · refine ⟨_, [_, _, _], rfl, ?_⟩
    have lead := toNat_ofNat_of_lt (n := v / 262144 % 8 + 240) (by omega)
    have second := toNat_ofNat_of_lt (n := v / 4096 % 64 + 128) (by omega)
    have large : ¬ UInt8.ofNat (v / 262144 % 8 + 240) < 0x80 := by
      rw [UInt8.lt_iff_toNat_lt, lead]
      simp
    have notTwo : (0xC2 ≤ UInt8.ofNat (v / 262144 % 8 + 240) &&
        UInt8.ofNat (v / 262144 % 8 + 240) ≤ 0xDF) = false := by
      simp only [Bool.and_eq_false_iff, decide_eq_false_iff_not, UInt8.le_iff_toNat_le, lead]
      simp
    have notThree : (0xE0 ≤ UInt8.ofNat (v / 262144 % 8 + 240) &&
        UInt8.ofNat (v / 262144 % 8 + 240) ≤ 0xEF) = false := by
      simp only [Bool.and_eq_false_iff, decide_eq_false_iff_not, UInt8.le_iff_toNat_le, lead]
      simp
    have bounds : (0xF0 ≤ UInt8.ofNat (v / 262144 % 8 + 240) &&
        UInt8.ofNat (v / 262144 % 8 + 240) ≤ 0xF4 &&
        (if UInt8.ofNat (v / 262144 % 8 + 240) == 0xF0 then 0x90 else 0x80) ≤
          UInt8.ofNat (v / 4096 % 64 + 128) &&
        UInt8.ofNat (v / 4096 % 64 + 128) ≤
          (if UInt8.ofNat (v / 262144 % 8 + 240) == 0xF4 then 0x8F else 0xBF)) = true := by
      simp only [Bool.and_eq_true, decide_eq_true_eq, UInt8.le_iff_toNat_le, second, beq_iff_eq,
        ← UInt8.toNat_inj, lead]
      refine ⟨⟨⟨?_, ?_⟩, ?_⟩, ?_⟩
      · simp
      · simp
        omega
      all_goals split <;> simp at * <;> omega
    have value : (v / 262144 % 8 + 240) % 8 * 262144 + v / 4096 % 64 * 4096 + v / 64 % 64 * 64 +
        v % 64 = v := by omega
    simp only [decodeCons, List.cons_append, List.nil_append, large, notTwo, notThree, bounds,
      if_true, if_false, Bool.false_eq_true, isContinuation_tail, Bool.and_true, lead, low6_tail,
      value, List.length_cons, List.length_nil]

theorem encode_ne_nil (c : Char) : String.utf8EncodeChar c ≠ [] := by
  obtain ⟨b, tail, bytes, -⟩ := decodeCons_encode c []
  simp [bytes]

theorem length_encodeChar_pos (c : Char) : 0 < (String.utf8EncodeChar c).length :=
  List.length_pos_iff.mpr (encode_ne_nil c)

/-- The characters of an encoding are those that were encoded. -/
theorem chars_encode (cs : List Char) : chars (encode cs) = cs := by
  induction cs with
  | nil => rw [encode_nil, chars]
  | cons c cs ih =>
    obtain ⟨b, tail, bytes, decoded⟩ := decodeCons_encode c (encode cs)
    rw [encode_cons, bytes, List.cons_append, chars]
    simp only [decoded, List.drop_left, ih]

/-- A byte below 128 is a character of its own. -/
theorem mem_of_mem_encode {cs : List Char} {b : UInt8} (member : b ∈ encode cs) (small : b.toNat < 0x80) :
    Char.ofNat b.toNat ∈ cs := by
  obtain ⟨c, inside, byte⟩ := List.mem_flatMap.mp member
  by_cases one : c.toNat < 0x80
  · rw [encode_ascii one, List.mem_singleton] at byte
    have value : b.toNat = c.toNat := by rw [byte, toNat_ofNat_of_lt (by omega)]
    rwa [value, Char.ofNat_toNat]
  · have := le_of_mem_encode (Nat.le_of_not_lt one) byte
    omega

theorem encode_injective {as bs : List Char} (same : encode as = encode bs) : as = bs := by
  rw [← chars_encode as, same, chars_encode]

/-- One character is encoded at the front of a text. -/
theorem encode_prefix_inj {c d : Char} {text : Bytes} (first : String.utf8EncodeChar c <+: text)
    (second : String.utf8EncodeChar d <+: text) : c = d := by
  obtain ⟨rest, rfl⟩ := first
  obtain ⟨rest', same⟩ := second
  obtain ⟨b, tail, bytes, decoded⟩ := decodeCons_encode c rest
  obtain ⟨b', tail', bytes', decoded'⟩ := decodeCons_encode d rest'
  rw [bytes, bytes', List.cons_append, List.cons_append] at same
  obtain ⟨rfl, tails⟩ := List.cons.inj same
  rw [tails, decoded] at decoded'
  exact congrArg Decoded.char decoded'

theorem toString_encode (cs : List Char) : toString (encode cs) = String.ofList cs := by
  rw [toString, chars_encode]

theorem toString_utf8 (s : String) : toString (utf8 s) = s := by
  rw [utf8_eq_encode, toString_encode, String.ofList_toList]

theorem utf8_injective {s s' : String} (same : utf8 s = utf8 s') : s = s' :=
  String.toList_injective (encode_injective same)

end Desugar.Text

import Mathlib
import Desugar.Proofs.Text.Encoding
import Desugar.Text.Quoted

/-!
# Reading quoted text back

Whatever bytes a text has, written between double quotes it is read back as these bytes: a character that
is shown as it is stands for itself, and every escape stands for what was escaped.
-/
namespace Desugar.Text

/-- Some characters of a quoted text that are read in one step, and the bytes that they stand for. -/
def Unescapes (u : List Char) (value : Bytes) : Prop :=
  u ≠ [] ∧ ∀ (rest : Bytes) (fuel : Nat),
    unescapeAll? 0x22 (fuel + 1) (encode u ++ rest) = (value ++ ·) <$> unescapeAll? 0x22 fuel rest

/-- What is neither the mark nor a newline nor a backslash stands for itself. -/
theorem unescapes_plain {c : Char} (other : c ∉ ['"', '\n', '\\']) : Unescapes [c] (String.utf8EncodeChar c) := by
  refine ⟨by simp, fun rest fuel => ?_⟩
  obtain ⟨b, tail, bytes, decoded⟩ := decodeCons_encode c rest
  have differs {d : Char} {x : UInt8} (ascii : String.utf8EncodeChar d = [x]) (inside : d ∈ ['"', '\n', '\\']) :
      b ≠ x := by
    rintro rfl
    obtain ⟨b', tail', bytes', decoded'⟩ := decodeCons_encode d (tail ++ rest)
    obtain ⟨rfl, rfl⟩ := List.cons.inj (bytes'.symm.trans ascii)
    rw [List.nil_append, decoded] at decoded'
    exact other ((Decoded.mk.inj decoded').1 ▸ inside)
  have quote : b ≠ 0x22 := differs (d := '"') (by decide) (by decide)
  have newline : b ≠ 0x0A := differs (d := '\n') (by decide) (by decide)
  have backslash : b ≠ 0x5C := differs (d := '\\') (by decide) (by decide)
  rw [encode_cons, encode_nil, List.append_nil, bytes, List.cons_append, unescapeAll?, if_neg (by simpa using quote),
    if_neg (by simpa using newline), if_neg (by simpa using backslash), decoded]
  dsimp only
  rw [List.drop_left, bytes]

/-- A backslash and what it escapes. -/
theorem unescapes_escaped {u : List Char} {value : Bytes}
    (read : ∀ rest, unescape? 0x22 (encode u ++ rest) = some (value, rest)) : Unescapes ('\\' :: u) value := by
  refine ⟨by simp, fun rest fuel => ?_⟩
  have mark : String.utf8EncodeChar '\\' = [0x5C] := by decide
  rw [encode_cons, mark, List.append_assoc, List.singleton_append, unescapeAll?, if_neg (by decide),
    if_neg (by decide), if_pos (by decide), read]
  rfl

theorem unescapes_letter : ∀ e ∈ controlLetters, Unescapes ['\\', e.2] (String.utf8EncodeChar e.1) := by
  intro e known
  refine unescapes_escaped fun rest => ?_
  simp only [controlLetters, List.mem_cons, List.not_mem_nil, or_false] at known
  rcases known with rfl | rfl | rfl | rfl | rfl | rfl | rfl <;> rfl

theorem hexValue?_hexDigit (n : Nat) :
    ∃ b, String.utf8EncodeChar (hexDigit n) = [b] ∧ hexValue? b = some (n % 16) := by
  have each : ∀ m < 16, (String.utf8EncodeChar (Nat.digitChar m)).map hexValue? = [some m] := by decide
  obtain ⟨b, byte, digit⟩ := List.map_eq_singleton_iff.mp (each (n % 16) (Nat.mod_lt n (by decide)))
  exact ⟨b, byte, digit⟩

/-- Reading the digits that a number is written with gives the number. -/
theorem digits?_hex (width k n value : Nat) (rest : Bytes) (small : n < 16 ^ width) :
    digits? 16 (width + k) (encode (hex width n) ++ rest) value = digits? 16 k rest (value * 16 ^ width + n) := by
  induction width generalizing n k rest with
  | zero =>
    obtain rfl : n = 0 := by simpa using small
    simp [hex, encode_nil]
  | succ width ih =>
    obtain ⟨b, byte, digit⟩ := hexValue?_hexDigit n
    have count : width + 1 + k = width + (k + 1) := by omega
    have total : (value * 16 ^ width + n / 16) * 16 + n % 16 = value * 16 ^ (width + 1) + n := by
      have := Nat.div_add_mod n 16
      rw [Nat.pow_succ, Nat.add_mul, Nat.mul_assoc, Nat.add_assoc]
      omega
    rw [hex, encode_append, List.append_assoc, count, ih (k + 1) (n / 16) _ (by rw [Nat.pow_succ] at small; omega),
      encode_cons, encode_nil, byte, List.append_nil, List.singleton_append, digits?, digit]
    dsimp only [bind, Option.bind]
    rw [if_pos (Nat.mod_lt n (by decide)), total]

theorem digits?_hex_all {width n : Nat} (small : n < 16 ^ width) (rest : Bytes) :
    digits? 16 width (encode (hex width n) ++ rest) 0 = some (n, rest) := by
  have read := digits?_hex width 0 n 0 rest small
  rw [Nat.add_zero, Nat.zero_mul, Nat.zero_add] at read
  rw [read, digits?]

theorem unescapes_byte (b : UInt8) : Unescapes ('\\' :: 'x' :: hex 2 b.toNat) [b] := by
  refine unescapes_escaped fun rest => ?_
  have mark : String.utf8EncodeChar 'x' = [0x78] := by decide
  rw [encode_cons, mark, List.append_assoc, List.singleton_append]
  change (digits? 16 2 (encode (hex 2 b.toNat) ++ rest) 0).map _ = _
  rw [digits?_hex_all b.toNat_lt, Option.map_some]
  dsimp only
  rw [UInt8.ofNat_toNat]

theorem isScalar_toNat (c : Char) : isScalar c.toNat = true := by
  have valid : c.toNat < 0xD800 ∨ (0xDFFF < c.toNat ∧ c.toNat < 0x110000) := c.valid
  simpa [isScalar] using valid

theorem unescapes_short {c : Char} (small : c.toNat < 16 ^ 4) :
    Unescapes ('\\' :: 'u' :: hex 4 c.toNat) (String.utf8EncodeChar c) := by
  refine unescapes_escaped fun rest => ?_
  have mark : String.utf8EncodeChar 'u' = [0x75] := by decide
  rw [encode_cons, mark, List.append_assoc, List.singleton_append]
  change (digits? 16 4 (encode (hex 4 c.toNat) ++ rest) 0 >>= _) = _
  rw [digits?_hex_all small]
  dsimp only [bind, Option.bind]
  rw [if_pos (isScalar_toNat c), Char.ofNat_toNat]

theorem unescapes_long (c : Char) : Unescapes ('\\' :: 'U' :: hex 8 c.toNat) (String.utf8EncodeChar c) := by
  have valid : c.toNat < 0xD800 ∨ (0xDFFF < c.toNat ∧ c.toNat < 0x110000) := c.valid
  refine unescapes_escaped fun rest => ?_
  have mark : String.utf8EncodeChar 'U' = [0x55] := by decide
  rw [encode_cons, mark, List.append_assoc, List.singleton_append]
  change (digits? 16 8 (encode (hex 8 c.toNat) ++ rest) 0 >>= _) = _
  rw [digits?_hex_all (by omega)]
  dsimp only [bind, Option.bind]
  rw [if_pos (isScalar_toNat c), Char.ofNat_toNat]

theorem unescapes_escapeChar (c : Char) : Unescapes (escapeChar '"' c) (String.utf8EncodeChar c) := by
  unfold escapeChar
  split
  · rename_i mark
    refine unescapes_escaped fun rest => ?_
    simp only [Bool.or_eq_true, beq_iff_eq] at mark
    rcases mark with rfl | rfl <;> rfl
  rename_i mark
  simp only [Bool.or_eq_true, beq_iff_eq, not_or] at mark
  split
  · rename_i printable
    refine unescapes_plain ?_
    simp only [List.mem_cons, List.not_mem_nil, or_false, not_or]
    refine ⟨mark.1, ?_, mark.2⟩
    rintro rfl
    exact absurd printable (by decide)
  split
  · rename_i letter found
    obtain ⟨before, behind, listed, -⟩ := List.lookup_eq_some_iff.mp found
    exact unescapes_letter (c, letter) (listed ▸ List.mem_append_right _ List.mem_cons_self)
  · dsimp only
    split
    · rename_i control
      have small : c.toNat < 0x80 := by
        simp only [Bool.or_eq_true, decide_eq_true_eq, beq_iff_eq] at control
        omega
      have byte := unescapes_byte (UInt8.ofNat c.toNat)
      rwa [toNat_ofNat_of_lt (by omega), ← encode_ascii small] at byte
    split
    · rename_i small
      exact unescapes_short small
    · exact unescapes_long c

theorem length_encode_pos {u : List Char} (nonempty : u ≠ []) : 0 < (encode u).length := by
  obtain ⟨c, v, rfl⟩ := List.exists_cons_of_ne_nil nonempty
  have first := length_encodeChar_pos c
  rw [encode_cons, List.length_append]
  omega

/-- The inside of a quoted text and its closing mark. -/
theorem unescapeAll?_escape (bs : Bytes) (fuel : Nat) (enough : (encode (escape '"' bs)).length < fuel) :
    unescapeAll? 0x22 fuel (encode (escape '"' bs ++ ['"'])) = some bs := by
  obtain ⟨fuel, rfl⟩ := Nat.exists_eq_succ_of_ne_zero (Nat.ne_of_gt (Nat.zero_lt_of_lt enough))
  have closing : encode ['"'] = [0x22] := by decide
  fun_induction escape '"' bs generalizing fuel with
  | case1 =>
    rw [List.nil_append, closing]
    rfl
  | case2 b rest d ih =>
    -- One step reads what the first character, or the byte that starts none, is written as.
    have step : Unescapes (if d.valid then escapeChar '"' d.char else '\\' :: 'x' :: hex 2 b.toNat)
        (b :: rest.take d.more) := by
      rcases decodeCons_cases b rest with ⟨bytes, -, valid⟩ | ⟨malformed, -⟩
      · rw [if_pos valid, ← bytes]
        exact unescapes_escapeChar d.char
      · have zero : d.more = 0 := congrArg Decoded.more malformed
        rw [if_neg (by simp [d, malformed, Decoded.malformed]), zero]
        exact unescapes_byte b
    obtain ⟨nonempty, step⟩ := step
    have long := length_encode_pos nonempty
    rw [encode_append, List.length_append] at enough
    obtain ⟨fuel, rfl⟩ := Nat.exists_eq_succ_of_ne_zero (show fuel ≠ 0 by omega)
    rw [List.append_assoc, encode_append, step, ih fuel (by omega)]
    simp

/-- A quoted text is read back. -/
theorem unquote?_quoteBytes (bs : Bytes) : unquote? (utf8 (quoteBytes bs)) = some bs := by
  have mark : String.utf8EncodeChar '"' = [0x22] := by decide
  rw [utf8_eq_encode, quoteBytes, String.toList_ofList, List.cons_append, encode_cons, mark, List.singleton_append,
    unquote?, if_neg (by decide), if_pos (by decide)]
  refine unescapeAll?_escape bs _ ?_
  rw [encode_append, List.length_append]
  omega

end Desugar.Text

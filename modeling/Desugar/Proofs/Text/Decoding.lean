import Mathlib.Data.List.Basic
import Desugar.Text.Bytes

/-!
# Characters and the bytes they stand for

Reading a character off the front of a text undoes writing it: a well-formed character is encoded by
exactly the bytes that it was read from. Hence a character of one byte is that byte, and what is read
never reaches behind the text. A byte that starts no character is the replacement character of width
one, whatever follows it.
-/
namespace Desugar.Text

/-- What holds of each of a few characters is decided by asking these, not all characters. -/
instance (priority := high) decidableForallMem {p : Char → Prop} [DecidablePred p] (cs : List Char) :
    Decidable (∀ c ∈ cs, p c) := List.decidableBAll p cs

theorem toNat_ofNat_of_isValidChar {n : Nat} (valid : n.isValidChar) :
    (Char.ofNat n).toNat = n := by
  rw [Char.ofNat, dif_pos valid]
  rfl

theorem isContinuation_iff (c : UInt8) :
    isContinuation c = true ↔ 0x80 ≤ c.toNat ∧ c.toNat ≤ 0xBF := by
  simp [isContinuation, UInt8.le_iff_toNat_le]

theorem ofNat_eq_of_toNat {b : UInt8} {n : Nat} (h : n = b.toNat) : UInt8.ofNat n = b := by
  rw [h, UInt8.ofNat_toNat]

theorem encode_ascii {c : Char} (small : c.toNat < 0x80) :
    String.utf8EncodeChar c = [UInt8.ofNat c.toNat] := by
  simp only [String.utf8EncodeChar, Char.toNat_val]
  rw [if_pos (by omega)]

theorem encode_one {b : UInt8} (small : b.toNat < 0x80) :
    String.utf8EncodeChar (Char.ofNat b.toNat) = [b] := by
  have value : (Char.ofNat b.toNat).toNat = b.toNat :=
    toNat_ofNat_of_isValidChar (Or.inl (by omega))
  rw [encode_ascii (by rwa [value]), value, UInt8.ofNat_toNat]

theorem encode_two {b c : UInt8} (lead : 0xC2 ≤ b.toNat ∧ b.toNat ≤ 0xDF)
    (first : isContinuation c = true) :
    String.utf8EncodeChar (Char.ofNat ((b.toNat % 32) * 64 + low6 c)) = [b, c] := by
  rw [isContinuation_iff] at first
  have low : low6 c = c.toNat - 0x80 := by unfold low6; omega
  have value := toNat_ofNat_of_isValidChar (n := (b.toNat % 32) * 64 + low6 c)
    (Or.inl (by omega))
  simp only [String.utf8EncodeChar, Char.toNat_val, value]
  rw [if_neg (by omega), if_pos (by omega)]
  rw [ofNat_eq_of_toNat (b := b) (by omega), ofNat_eq_of_toNat (b := c) (by omega)]

theorem encode_three {b c d : UInt8} (lead : 0xE0 ≤ b.toNat ∧ b.toNat ≤ 0xEF)
    (first : isContinuation c = true) (second : isContinuation d = true)
    (least : b.toNat = 0xE0 → 0xA0 ≤ c.toNat) (most : b.toNat = 0xED → c.toNat ≤ 0x9F) :
    String.utf8EncodeChar (Char.ofNat ((b.toNat % 16) * 4096 + low6 c * 64 + low6 d)) =
      [b, c, d] := by
  rw [isContinuation_iff] at first second
  have lowFirst : low6 c = c.toNat - 0x80 := by unfold low6; omega
  have lowSecond : low6 d = d.toNat - 0x80 := by unfold low6; omega
  have value := toNat_ofNat_of_isValidChar (n := (b.toNat % 16) * 4096 + low6 c * 64 + low6 d)
    (by unfold Nat.isValidChar; omega)
  simp only [String.utf8EncodeChar, Char.toNat_val, value]
  rw [if_neg (by omega), if_neg (by omega), if_pos (by omega)]
  rw [ofNat_eq_of_toNat (b := b) (by omega), ofNat_eq_of_toNat (b := c) (by omega),
    ofNat_eq_of_toNat (b := d) (by omega)]

theorem encode_four {b c d e : UInt8} (lead : 0xF0 ≤ b.toNat ∧ b.toNat ≤ 0xF4)
    (first : isContinuation c = true) (second : isContinuation d = true)
    (third : isContinuation e = true)
    (least : b.toNat = 0xF0 → 0x90 ≤ c.toNat) (most : b.toNat = 0xF4 → c.toNat ≤ 0x8F) :
    String.utf8EncodeChar
        (Char.ofNat ((b.toNat % 8) * 262144 + low6 c * 4096 + low6 d * 64 + low6 e)) =
      [b, c, d, e] := by
  rw [isContinuation_iff] at first second third
  have lowFirst : low6 c = c.toNat - 0x80 := by unfold low6; omega
  have lowSecond : low6 d = d.toNat - 0x80 := by unfold low6; omega
  have lowThird : low6 e = e.toNat - 0x80 := by unfold low6; omega
  have value := toNat_ofNat_of_isValidChar
    (n := (b.toNat % 8) * 262144 + low6 c * 4096 + low6 d * 64 + low6 e)
    (by unfold Nat.isValidChar; omega)
  simp only [String.utf8EncodeChar, Char.toNat_val, value]
  rw [if_neg (by omega), if_neg (by omega), if_neg (by omega)]
  rw [ofNat_eq_of_toNat (b := b) (by omega), ofNat_eq_of_toNat (b := c) (by omega),
    ofNat_eq_of_toNat (b := d) (by omega), ofNat_eq_of_toNat (b := e) (by omega)]

/-- The bounds of a second byte, where its lead narrows them at `short` or at `long`. -/
theorem second_bounds {b c short low long high : UInt8} (hlow : 0x80 ≤ low.toNat)
    (hhigh : high.toNat ≤ 0xBF) (least : ((if b == short then low else 0x80) : UInt8).toNat ≤ c.toNat)
    (most : c.toNat ≤ ((if b == long then high else 0xBF) : UInt8).toNat) :
    isContinuation c = true ∧ (b = short → low.toNat ≤ c.toNat) ∧
      (b = long → c.toNat ≤ high.toNat) := by
  rw [isContinuation_iff]
  by_cases isShort : b = short
  · by_cases isLong : b = long
    · simp_all
      omega
    · simp_all
      omega
  · by_cases isLong : b = long
    · simp_all
      omega
    · simp_all

/-- The two outcomes of reading a character: its bytes are what encodes it, or a single byte is read
as the replacement character. -/
theorem decodeCons_cases (b : UInt8) (rest : Bytes) :
    (String.utf8EncodeChar (decodeCons b rest).char = b :: rest.take (decodeCons b rest).more ∧
      (decodeCons b rest).more ≤ rest.length ∧ (decodeCons b rest).valid = true) ∨
    (decodeCons b rest = .malformed ∧ 0x80 ≤ b.toNat) := by
  unfold decodeCons
  split
  · rename_i small
    rw [UInt8.lt_iff_toNat_lt] at small
    exact .inl ⟨by simpa using encode_one small, by simp⟩
  · rename_i large
    replace large : 0x80 ≤ b.toNat := by
      rw [UInt8.lt_iff_toNat_lt] at large
      exact Nat.le_of_not_lt large
    match rest with
    | [] => exact .inr ⟨rfl, large⟩
    | c :: rest =>
      dsimp only
      split
      · rename_i lead
        split
        · rename_i first
          simp only [Bool.and_eq_true, decide_eq_true_eq, UInt8.le_iff_toNat_le] at lead
          exact .inl ⟨by simpa using encode_two lead first, by simp⟩
        · exact .inr ⟨rfl, large⟩
      · match rest with
        | [] => exact .inr ⟨rfl, large⟩
        | d :: rest =>
          dsimp only
          split
          · rename_i lead
            by_cases tail : ((if b == 0xE0 then 0xA0 else 0x80) ≤ c &&
                c ≤ (if b == 0xED then 0x9F else 0xBF) && isContinuation d) = true
            · rw [if_pos tail]
              simp only [Bool.and_eq_true, decide_eq_true_eq, UInt8.le_iff_toNat_le] at lead tail
              obtain ⟨⟨least, most⟩, second⟩ := tail
              obtain ⟨first, short, long⟩ := second_bounds (by decide) (by decide) least most
              have bytes := encode_three lead first second (fun h => short (UInt8.toNat_inj.mp h))
                (fun h => long (UInt8.toNat_inj.mp h))
              exact .inl ⟨by simpa using bytes, by simp⟩
            · rw [if_neg tail]
              exact .inr ⟨rfl, large⟩
          · match rest with
            | [] => exact .inr ⟨rfl, large⟩
            | e :: rest =>
              dsimp only
              by_cases tail : (0xF0 ≤ b && b ≤ 0xF4 && (if b == 0xF0 then 0x90 else 0x80) ≤ c &&
                  c ≤ (if b == 0xF4 then 0x8F else 0xBF) && isContinuation d &&
                  isContinuation e) = true
              · rw [if_pos tail]
                simp only [Bool.and_eq_true, decide_eq_true_eq, UInt8.le_iff_toNat_le] at tail
                obtain ⟨⟨⟨⟨⟨low, high⟩, least⟩, most⟩, second⟩, third⟩ := tail
                obtain ⟨first, short, long⟩ := second_bounds (by decide) (by decide) least most
                have bytes := encode_four ⟨low, high⟩ first second third
                  (fun h => short (UInt8.toNat_inj.mp h)) (fun h => long (UInt8.toNat_inj.mp h))
                exact .inl ⟨by simpa using bytes, by simp⟩
              · rw [if_neg tail]
                exact .inr ⟨rfl, large⟩

theorem decodeCons_more_le (b : UInt8) (rest : Bytes) : (decodeCons b rest).more ≤ rest.length := by
  rcases decodeCons_cases b rest with ⟨-, le, -⟩ | ⟨malformed, -⟩
  · exact le
  · rw [malformed]
    exact Nat.zero_le _

/-- A character below 128 is the byte that it was read from. -/
theorem decodeCons_ascii {b : UInt8} {rest : Bytes} (small : (decodeCons b rest).char.toNat < 0x80) :
    b.toNat = (decodeCons b rest).char.toNat ∧ (decodeCons b rest).more = 0 := by
  rcases decodeCons_cases b rest with ⟨bytes, le, -⟩ | ⟨malformed, -⟩
  · generalize decodeCons b rest = d at small bytes le ⊢
    simp only [String.utf8EncodeChar, Char.toNat_val, if_pos (Nat.le_of_lt_succ small)] at bytes
    obtain ⟨rfl, empty⟩ := List.cons.inj bytes
    have lengths := congrArg List.length empty
    simp only [List.length_nil, List.length_take] at lengths
    constructor
    · rw [UInt8.toNat_ofNat', Nat.mod_eq_of_lt (by omega)]
    · omega
  · rw [malformed] at small
    simp [Decoded.malformed, replacement] at small

/-- A character of 128 and more has no byte below 128. -/
theorem le_of_mem_encode {c : Char} (large : 0x80 ≤ c.toNat) {x : UInt8}
    (h : x ∈ String.utf8EncodeChar c) : 0x80 ≤ x.toNat := by
  have below : c.toNat < 0x110000 := by
    rcases c.valid with low | ⟨-, high⟩
    · exact Nat.lt_trans low (by decide)
    · exact high
  simp only [String.utf8EncodeChar, Char.toNat_val] at h
  rw [if_neg (by omega)] at h
  split at h
  · simp only [List.mem_cons, List.not_mem_nil, or_false] at h
    rcases h with rfl | rfl <;> (rw [UInt8.toNat_ofNat']; omega)
  · split at h
    · simp only [List.mem_cons, List.not_mem_nil, or_false] at h
      rcases h with rfl | rfl | rfl <;> (rw [UInt8.toNat_ofNat']; omega)
    · simp only [List.mem_cons, List.not_mem_nil, or_false] at h
      rcases h with rfl | rfl | rfl | rfl <;> (rw [UInt8.toNat_ofNat']; omega)

/-- A byte below 128 is a character of its own, wherever it stands. -/
theorem decodeCons_small {b x : UInt8} {rest : Bytes}
    (h : x ∈ b :: rest.take (decodeCons b rest).more) (small : x.toNat < 0x80) :
    (decodeCons b rest).more = 0 ∧ (decodeCons b rest).char.toNat = x.toNat := by
  rcases decodeCons_cases b rest with ⟨bytes, -, -⟩ | ⟨malformed, high⟩
  · rcases Nat.lt_or_ge (decodeCons b rest).char.toNat 0x80 with ascii | large
    · obtain ⟨value, zero⟩ := decodeCons_ascii ascii
      rw [zero, List.take_zero, List.mem_singleton] at h
      rw [h]
      exact ⟨zero, value.symm⟩
    · rw [← bytes] at h
      have := le_of_mem_encode large h
      omega
  · rw [malformed] at h
    simp only [Decoded.malformed, List.take_zero, List.mem_singleton] at h
    rw [h] at small
    omega

/-- The bytes of a character that is not the replacement character. -/
theorem encode_decodeCons {b : UInt8} {rest : Bytes} (h : (decodeCons b rest).char ≠ replacement) :
    String.utf8EncodeChar (decodeCons b rest).char = b :: rest.take (decodeCons b rest).more := by
  rcases decodeCons_cases b rest with ⟨bytes, -, -⟩ | ⟨malformed, -⟩
  · exact bytes
  · rw [malformed] at h
    exact absurd rfl h

end Desugar.Text

import Mathlib
import Desugar.Proofs.Host.Twin.Lexeme
import Desugar.Text.Quoted

/-!
# Quoted text as a string literal

A text that is written between double quotes is one interpreted string: every character that would end
it is escaped, and every escape is well formed, so reading passes over them without a fault.
-/
namespace Desugar.Host.Scan

open Reader

/-- Reading a string passes over some characters wherever they stand in it. -/
def PassesString (u : List Char) : Prop :=
  ∀ (text : Bytes) (X : List Char) (r : Reader) (start : Nat), r.Over text (u ++ X) →
    ∃ r', Reader.Over text X r' ∧ r'.faults = r.faults ∧ stringBody start r = stringBody start r'

theorem PassesString.nil : PassesString [] := fun _ _ r _ upon => ⟨r, upon, rfl, rfl⟩

theorem PassesString.append {u v : List Char} (first : PassesString u) (second : PassesString v) :
    PassesString (u ++ v) := by
  intro text X r start upon
  rw [List.append_assoc] at upon
  obtain ⟨r', upon', faults', same'⟩ := first text _ r start upon
  obtain ⟨r'', upon'', faults'', same''⟩ := second text _ r' start upon'
  exact ⟨r'', upon'', faults''.trans faults', same'.trans same''⟩

theorem PassesString.plain {c : Char} (other : c ∉ ['\n', '"', '\\']) : PassesString [c] := by
  intro text X r start upon
  simp only [List.mem_cons, List.not_mem_nil, or_false, not_or] at other
  obtain ⟨newline, quote, backslash⟩ := other
  obtain ⟨there, faults, -⟩ := upon.next
  refine ⟨r.next, there, faults, ?_⟩
  rw [stringBody_some start upon.char?, if_neg (by simpa using newline), if_neg (by simpa using quote),
    if_neg (by simpa using backslash)]

/-- An escape is passed over if it is well formed. -/
theorem PassesString.escaped {u : List Char}
    (fine : ∀ (text : Bytes) (X : List Char) (r : Reader), r.Over text (u ++ X) →
      (escape '"' r).1.Over text X ∧ (escape '"' r).1.faults = r.faults) :
    PassesString ('\\' :: u) := by
  intro text X r start upon
  obtain ⟨there, faults, -⟩ := upon.next
  obtain ⟨upon', faults'⟩ := fine text X r.next there
  refine ⟨(escape '"' r.next).1, upon', faults'.trans faults, ?_⟩
  rw [stringBody_some start upon.char?, if_neg (by decide), if_neg (by decide), if_pos (by decide)]

theorem PassesString.letter {c : Char}
    (known : (c == '"' || ['a', 'b', 'f', 'n', 'r', 't', 'v', '\\'].contains c) = true) :
    PassesString ['\\', c] := by
  refine .escaped fun text X r upon => ?_
  obtain ⟨there, faults, -⟩ := upon.next
  unfold escape
  rw [upon.char?]
  simp only [List.cons_append, List.head?_cons, known, if_true]
  exact ⟨there, faults⟩

/-! ## Hexadecimal digits -/

theorem digitValue_hexDigit (n : Nat) : digitValue (Text.hexDigit n) = n % 16 := by
  have each : ∀ m < 16, digitValue (Nat.digitChar m) = m := by decide
  exact each (n % 16) (Nat.mod_lt n (by decide))

/-- Reading the digits that a number is written with gives the number. -/
theorem escapeDigits_hex (o limit width k : Nat) {text : Bytes} {r : Reader} {n : Nat} {X : List Char}
    (upon : r.Over text (Text.hex width n ++ X)) (small : n < 16 ^ width) (value : Nat) :
    ∃ r', Reader.Over text X r' ∧ r'.faults = r.faults ∧
      escapeDigits o 16 limit (width + k) r value =
        escapeDigits o 16 limit k r' (value * 16 ^ width + n) := by
  induction width generalizing n k X with
  | zero =>
    obtain rfl : n = 0 := by simpa using small
    exact ⟨r, upon, rfl, by simp⟩
  | succ width ih =>
    rw [Text.hex, List.append_assoc] at upon
    obtain ⟨r', upon', faults', same⟩ := ih (k + 1) upon (by rw [Nat.pow_succ] at small; omega)
    obtain ⟨there, faults, -⟩ := upon'.next
    refine ⟨r'.next, there, faults.trans faults', ?_⟩
    have count : width + 1 + k = width + (k + 1) := by omega
    have total : (value * 16 ^ width + n / 16) * 16 + n % 16 = value * 16 ^ (width + 1) + n := by
      have := Nat.div_add_mod n 16
      rw [Nat.pow_succ, Nat.add_mul, Nat.mul_assoc, Nat.add_assoc]
      omega
    rw [count, same, escapeDigits, upon'.char?]
    simp only [List.cons_append, List.head?_cons, digitValue_hexDigit, total,
      Nat.mod_lt n (show 16 > 0 by decide), if_true]

/-- An escape of a number is well formed if the number is that of a character or small enough. -/
theorem PassesString.hex {mark : Char} {width n : Nat} (limit : Nat)
    (form : (mark, width, limit) ∈
      [('x', 2, 255), ('u', 4, 0x10FFFF), ('U', 8, 0x10FFFF)])
    (small : n < 16 ^ width) (fits : n ≤ limit) (scalar : n < 0xD800 ∨ 0xE000 ≤ n) :
    PassesString ('\\' :: mark :: Text.hex width n) := by
  refine .escaped fun text X r upon => ?_
  obtain ⟨there, faults, -⟩ := upon.next
  obtain ⟨r', upon', faults', same⟩ := escapeDigits_hex r.offset limit width 0 there small 0
  have done : escapeDigits r.offset 16 limit width r.next 0 = (r', true) := by
    rw [← Nat.add_zero width, same, escapeDigits, if_neg]
    simp only [Nat.zero_mul, Nat.zero_add, Bool.or_eq_true, Bool.and_eq_true, decide_eq_true_eq]
    omega
  have escaped : escape '"' r = (r', true) := by
    unfold escape
    rw [upon.char?]
    simp only [List.mem_cons, Prod.mk.injEq, List.not_mem_nil, or_false] at form
    rcases form with ⟨rfl, rfl, rfl⟩ | ⟨rfl, rfl, rfl⟩ | ⟨rfl, rfl, rfl⟩ <;> exact done
  rw [escaped]
  exact ⟨upon', faults'.trans faults⟩

/-! ## Quoted texts -/

theorem controlLetters_known : ∀ e ∈ Text.controlLetters,
    (e.2 == '"' || ['a', 'b', 'f', 'n', 'r', 't', 'v', '\\'].contains e.2) = true := by decide

theorem mem_of_lookup {α β : Type} [BEq α] [LawfulBEq α] {l : List (α × β)} {a : α} {b : β}
    (found : l.lookup a = some b) : (a, b) ∈ l := by
  obtain ⟨before, behind, rfl, -⟩ := List.lookup_eq_some_iff.mp found
  exact List.mem_append_right _ List.mem_cons_self

theorem passesString_escapeChar (c : Char) : PassesString (Text.escapeChar '"' c) := by
  unfold Text.escapeChar
  split
  · rename_i mark
    refine .letter ?_
    simp only [Bool.or_eq_true, beq_iff_eq] at mark ⊢
    rcases mark with rfl | rfl <;> decide
  rename_i mark
  simp only [Bool.or_eq_true, beq_iff_eq, not_or] at mark
  split
  · rename_i printable
    refine .plain ?_
    simp only [List.mem_cons, List.not_mem_nil, or_false, not_or]
    refine ⟨?_, mark⟩
    rintro rfl
    exact absurd printable (by decide)
  split
  · rename_i letter found
    refine .letter ?_
    exact controlLetters_known _ (mem_of_lookup found)
  · dsimp only
    have valid : c.toNat < 0xD800 ∨ (0xDFFF < c.toNat ∧ c.toNat < 0x110000) := c.valid
    split
    · rename_i small
      simp only [Bool.or_eq_true, decide_eq_true_eq, beq_iff_eq] at small
      exact .hex 255 (by decide) (by omega) (by omega) (by omega)
    split
    · exact .hex 0x10FFFF (by decide) (by omega) (by omega) (by omega)
    · exact .hex 0x10FFFF (by decide) (by omega) (by omega) (by omega)

/-- A byte that starts no character is written by its value. -/
theorem passesString_escape (bs : Bytes) : PassesString (Text.escape '"' bs) := by
  fun_induction Text.escape '"' bs with
  | case1 => exact .nil
  | case2 b rest d ih =>
    refine .append ?_ ih
    split
    · exact passesString_escapeChar _
    · have := b.toNat_lt
      exact .hex 255 (by decide) (by omega) (by omega) (by omega)

/-- A quoted text is one string, whatever stands behind it. -/
theorem lexesAs_quoted (bs : Bytes) (X : List Char) :
    LexesAs (Text.quoteBytes bs).toList X .string (Text.utf8 (Text.quoteBytes bs)) := by
  rw [Text.utf8_eq_encode, Text.quoteBytes, String.toList_ofList]
  intro text s start c head upon fresh
  obtain rfl : '"' = c := Option.some.inj head
  have inner : start.next.Over text (Text.escape '"' bs ++ ('"' :: X)) := by
    have upon := upon
    rw [List.cons_append, List.cons_append, List.append_assoc] at upon
    exact upon.next.1
  have clear : start.next.faults = [] := by
    have upon := upon
    rw [List.cons_append, List.cons_append] at upon
    exact upon.next.2.1.trans fresh
  obtain ⟨r, upon', faults', same⟩ := passesString_escape bs text _ _ start.offset inner
  obtain ⟨there, faults, -⟩ := upon'.next
  have read : stringBody start.offset start.next = r.next := by
    rw [same, stringBody_some start.offset upon'.char?, if_neg (by decide), if_pos (by decide)]
  unfold lexeme
  rw [if_neg (by decide), if_neg (by simp [isDecimal]), if_neg (by decide), if_pos (by decide), read]
  dsimp only
  rw [upon.between there]
  exact ⟨rfl, rfl, rfl, there.forget, rfl, rfl, by
    intro f noted
    simp [emit, faults, faults', clear] at noted⟩

/-! ## Characters of quoted texts -/

theorem hex_plain (width n : Nat) : ∀ c ∈ Text.hex width n, IsPlain c := by
  have each : ∀ m < 16, IsPlain (Nat.digitChar m) := by decide
  induction width generalizing n with
  | zero => simp [Text.hex]
  | succ width ih =>
    intro c member
    rcases List.mem_append.mp member with earlier | last
    · exact ih _ c earlier
    · rw [List.mem_singleton.mp last]
      exact each (n % 16) (Nat.mod_lt n (by decide))

theorem escapeChar_plain (c : Char) : ∀ x ∈ Text.escapeChar '"' c, IsPlain x := by
  have coded {mark : Char} (plain : IsPlain mark) (width : Nat) :
      ∀ x ∈ '\\' :: mark :: Text.hex width c.toNat, IsPlain x :=
    List.forall_mem_cons.mpr ⟨by decide, List.forall_mem_cons.mpr ⟨plain, hex_plain _ _⟩⟩
  unfold Text.escapeChar
  split
  · rename_i mark
    simp only [Bool.or_eq_true, beq_iff_eq] at mark
    rcases mark with rfl | rfl <;> decide
  split
  · rename_i printable
    refine List.forall_mem_cons.mpr ⟨⟨?_, ?_⟩, by simp⟩
    · rintro rfl
      exact absurd printable (by decide)
    · rintro rfl
      exact absurd printable (by decide +kernel)
  split
  · rename_i letter found
    have plain : ∀ e ∈ Text.controlLetters, IsPlain e.2 := by decide
    exact List.forall_mem_cons.mpr ⟨by decide,
      List.forall_mem_cons.mpr ⟨plain _ (mem_of_lookup found), by simp⟩⟩
  · dsimp only
    split
    · exact coded (by decide) _
    split
    · exact coded (by decide) _
    · exact coded (by decide) _

theorem quoteBytes_plain (bs : Bytes) : ∀ c ∈ (Text.quoteBytes bs).toList, IsPlain c := by
  have inside : ∀ c ∈ Text.escape '"' bs, IsPlain c := by
    fun_induction Text.escape '"' bs with
    | case1 => simp
    | case2 b rest d ih =>
      intro c member
      rcases List.mem_append.mp member with first | later
      · split at first
        · exact escapeChar_plain _ c first
        · have coded := hex_plain 2 b.toNat
          rcases List.mem_cons.mp first with rfl | first
          · decide
          rcases List.mem_cons.mp first with rfl | first
          · decide
          · exact coded c first
      · exact ih c later
  rw [Text.quoteBytes, String.toList_ofList]
  intro c member
  rcases List.mem_append.mp member with first | last
  · rcases List.mem_cons.mp first with rfl | first
    · decide
    · exact inside c first
  · rw [List.mem_singleton.mp last]
    decide

end Desugar.Host.Scan

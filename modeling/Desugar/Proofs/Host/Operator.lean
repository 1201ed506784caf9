import Desugar.Proofs.Host.Twin
import Desugar.Proofs.Host.Lexeme

/-!
# The longest operator

The scanner tries the operators from the longest ones on, so it reads the longest one that stands at the
front of the text. Which one that is does not change with what stands behind it, as long as that goes on
as before: an operator that is longer by two characters is longer by one, too, except for the ellipsis.
-/
namespace Desugar.Host.Scan

open Reader

/-- How an operator is spelt. -/
def word (p : Kind × String) : List Char := p.2.toList

/-- Characters of one byte are found among the bytes as they are among the characters. -/
theorem isPrefixOf_front {u : List Char} (ascii : ∀ x ∈ u, x.toNat < 0x80) (cs : List Char) {n : Nat}
    (short : u.length ≤ n) :
    u.isPrefixOf (((Text.encode cs).take n).map fun b => Char.ofNat b.toNat) = true ↔ u <+: cs := by
  induction u generalizing cs n with
  | nil => simp
  | cons x u ih =>
    obtain ⟨small, rest⟩ := List.forall_mem_cons.mp ascii
    obtain ⟨m, rfl⟩ : ∃ m, n = m + 1 := ⟨n - 1, by simp at short; omega⟩
    cases cs with
    | nil => simp
    | cons c cs =>
      by_cases one : c.toNat < 0x80
      · have byte : (UInt8.ofNat c.toNat).toNat = c.toNat := Text.toNat_ofNat_of_lt (by omega)
        rw [Text.encode_cons, Text.encode_ascii one, List.cons_append, List.nil_append,
          List.take_succ_cons, List.map_cons, byte, Char.ofNat_toNat, List.isPrefixOf_cons_cons,
          Bool.and_eq_true, ih rest cs (by simpa using short), List.cons_prefix_cons, beq_iff_eq]
      · obtain ⟨b, tail, bytes, -⟩ := Text.decodeCons_encode c []
        have large : 0x80 ≤ b.toNat := Text.le_of_mem_encode (Nat.le_of_not_lt one) (by simp [bytes])
        have below := b.toNat_lt
        have value := Text.toNat_ofNat_of_isValidChar (n := b.toNat) (Or.inl (by omega))
        have other : x ≠ Char.ofNat b.toNat := by rintro rfl; omega
        have other' : x ≠ c := by rintro rfl; exact one small
        rw [Text.encode_cons, bytes, List.cons_append, List.take_succ_cons, List.map_cons,
          List.isPrefixOf_cons_cons, List.cons_prefix_cons]
        simp [other, other']

theorem word_ascii {p : Kind × String} (known : p ∈ Kind.operators) :
    (∀ x ∈ word p, x.toNat < 0x80) ∧ (word p).length ≤ 3 := by
  obtain ⟨-, -, -, -, short, small, -⟩ := operator_spellings p known
  exact ⟨fun x member => of_decide_eq_true (List.all_eq_true.mp small x member), short⟩

/-- No two operators are spelt the same. -/
theorem word_injective : ∀ p ∈ Kind.operators, ∀ q ∈ Kind.operators, word p = word q → p = q := by
  decide +kernel

/-- The table holds the operators, longer ones first. -/
theorem operatorTable_order :
    operatorTable.Pairwise (fun a b => b.1.length ≤ a.1.length) := by
  decide +kernel

/-- What is found first is at the front, and nothing longer is. -/
theorem operator?_longest {cs : List Char} {n : Nat} {kind : Kind}
    (found : operator? (Text.encode cs) = some (n, kind)) :
    ∃ p ∈ Kind.operators, p.1 = kind ∧ (word p).length = n ∧ word p <+: cs ∧
      ∀ q ∈ Kind.operators, word q <+: cs → (word q).length ≤ n := by
  unfold operator? at found
  obtain ⟨⟨u, k⟩, first, same⟩ := Option.map_eq_some_iff.mp found
  obtain ⟨rfl, rfl⟩ := Prod.mk.inj same
  obtain ⟨front, before, behind, split, misses⟩ := List.find?_eq_some_iff_append.mp first
  obtain ⟨p, known, same⟩ := mem_operatorTable.mp (split ▸ List.mem_append_right _ List.mem_cons_self)
  obtain ⟨rfl, rfl⟩ := Prod.mk.inj same
  refine ⟨p, known, rfl, rfl, ?_, ?_⟩
  · obtain ⟨ascii, short⟩ := word_ascii known
    exact (isPrefixOf_front ascii cs short).mp front
  · intro q known' fronts
    obtain ⟨ascii, short⟩ := word_ascii known'
    have listed : (word q, q.1) ∈ operatorTable := mem_operatorTable.mpr ⟨q, known', rfl⟩
    have order := operatorTable_order
    rw [split] at listed order
    rcases List.mem_append.mp listed with earlier | later
    · have miss := misses _ earlier
      simp only [Bool.not_eq_eq_eq_not, Bool.not_true] at miss
      rw [(isPrefixOf_front ascii cs short).mpr fronts] at miss
      cases miss
    · rcases List.mem_cons.mp later with same | later
      · exact Nat.le_of_eq (congrArg List.length (Prod.mk.inj same).1)
      · exact (List.pairwise_cons.mp (List.pairwise_append.mp order).2.1).1 _ later

/-- An operator at the front is read if none at the front is longer. -/
theorem operator?_of_longest {cs : List Char} {p : Kind × String} (known : p ∈ Kind.operators)
    (front : word p <+: cs)
    (longest : ∀ q ∈ Kind.operators, word q <+: cs → (word q).length ≤ (word p).length) :
    operator? (Text.encode cs) = some ((word p).length, p.1) := by
  obtain ⟨ascii, short⟩ := word_ascii known
  have isSome : (operator? (Text.encode cs)).isSome = true := by
    unfold operator?
    rw [Option.isSome_map, List.find?_isSome]
    exact ⟨_, mem_operatorTable.mpr ⟨p, known, rfl⟩, (isPrefixOf_front ascii cs short).mpr front⟩
  obtain ⟨⟨n, kind⟩, found⟩ := Option.isSome_iff_exists.mp isSome
  obtain ⟨q, known', rfl, rfl, front', longest'⟩ := operator?_longest found
  have length := Nat.le_antisymm (longest q known' front') (longest' p known front)
  rw [List.prefix_iff_eq_take] at front front'
  have same := word_injective q known' p known (by rw [front', front, length])
  rw [found, same]

/-- No operator at the front, none is read. -/
theorem operator?_eq_none {cs : List Char} (unmatched : ∀ q ∈ Kind.operators, ¬ word q <+: cs) :
    operator? (Text.encode cs) = .none := by
  cases found : operator? (Text.encode cs) with
  | none => rfl
  | some e =>
    obtain ⟨p, known, -, -, front, -⟩ := operator?_longest found
    exact absurd front (unmatched p known)

/-- What makes a longer operator of another one is no idle character, and its first character alone makes
an operator as well, except in the ellipsis. -/
theorem operator_extensions : ∀ p ∈ Kind.operators, ∀ q ∈ Kind.operators, word p <+: word q →
    (word p).length < (word q).length →
    (word q)[(word p).length]? ∉ idle ∧
      ((∃ r ∈ Kind.operators, word r = (word q).take ((word p).length + 1)) ∨
        (word q).drop (word p).length = ['.', '.']) := by
  decide +kernel

/-- The operator that is read stays the same where the text behind it goes on as before. -/
theorem operator?_goesOn {u X X' : List Char} {kind : Kind} (goes : GoesOn X X')
    (found : operator? (Text.encode (u ++ X)) = some (u.length, kind)) :
    operator? (Text.encode (u ++ X')) = some (u.length, kind) := by
  obtain ⟨p, known, rfl, length, front, longest⟩ := operator?_longest found
  have spelt : word p = u := by
    rw [List.prefix_iff_eq_take, length, List.take_left] at front
    exact front
  subst spelt
  refine operator?_of_longest known (List.prefix_append _ _) fun q known' front' => ?_
  by_contra longer
  obtain ⟨v, split⟩ : word p <+: word q :=
    List.prefix_of_prefix_length_le (List.prefix_append _ _) front' (by omega)
  rw [← split, List.prefix_append_right_inj] at front'
  obtain ⟨busy, shape⟩ := operator_extensions p known q known' ⟨v, split⟩ (by omega)
  rw [← split, List.length_append] at longer
  rw [← split, List.getElem?_append_right (Nat.le_refl _), Nat.sub_self] at busy
  rw [← split, List.drop_left, List.take_length_add_append] at shape
  -- What a longer operator adds begins with the character behind the operator in both texts.
  cases v with
  | nil => exact longer (Nat.le_refl _)
  | cons x v =>
    obtain ⟨Y', rfl⟩ := front'
    have head : X.head? = some x := by
      rcases goes.head with same | ⟨stops, -⟩
      · exact same.symm
      · exact absurd stops busy
    obtain ⟨Y, rfl⟩ := List.head?_eq_some_iff.mp head
    rcases shape with ⟨r, known'', spelt⟩ | ellipsis
    · have := longest r known'' (by rw [spelt]; simp)
      simp only [spelt, List.length_append, List.take_succ_cons, List.take_zero, List.length_cons,
        List.length_nil] at this
      omega
    · obtain ⟨rfl, rfl⟩ : x = '.' ∧ v = ['.'] := by simpa using ellipsis
      have second : Y[0]? = some '.' := by
        rcases goes.second '.' (by decide) rfl with same | ⟨-, still, -⟩
        · simpa using same.symm
        · exact absurd rfl still
      rw [← List.head?_eq_getElem?] at second
      obtain ⟨Z, rfl⟩ := List.head?_eq_some_iff.mp second
      have := longest q known' (by rw [← split]; simp)
      simp only [← split, List.length_append, List.length_cons, List.length_nil] at this
      omega

end Desugar.Host.Scan

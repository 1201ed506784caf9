import Mathlib.Data.List.Basic
import Mathlib.Data.List.Induction

/-!
# Decimal numbers

A number is written in one way: by its digits, without zeros in front. So a text of digits without zeros in
front is what its value is written as, and two such texts of one value are the same. A negative integer has a minus
in front of its digits.
-/
namespace Desugar

theorem digit_range {c : Char} (digit : c.isDigit = true) : 0x30 ≤ c.toNat ∧ c.toNat ≤ 0x39 := by
  rw [Char.isDigit_iff_toNat] at digit
  exact digit

theorem digitChar_sub {c : Char} (digit : c.isDigit = true) :
    c.toNat - '0'.toNat < 10 ∧ (c.toNat - '0'.toNat).digitChar = c := by
  have range := digit_range digit
  have zero : '0'.toNat = 0x30 := rfl
  have less : c.toNat - '0'.toNat < 10 := by omega
  refine ⟨less, Char.toNat_inj.mp ?_⟩
  rw [Nat.toNat_digitChar_of_lt_ten less]
  omega

theorem toDigits_head (n : Nat) (pos : 0 < n) : (Nat.toDigits 10 n).head? ≠ some '0' := by
  induction n using Nat.strongRecOn with
  | ind n ih =>
    by_cases small : n < 10
    · have each : ∀ m < 10, 0 < m → m.digitChar ≠ '0' := by decide
      rw [Nat.toDigits_of_lt_base small]
      simpa using each n small pos
    · rw [Nat.toDigits_of_base_le (by decide) (by omega), List.head?_append_of_ne_nil _ Nat.toDigits_ne_nil]
      exact ih (n / 10) (by omega) (by omega)

/-- Digits as a number is written in them: the first is no zero, unless it is the only one. -/
structure IsNumeral (ds : List Char) : Prop where
  ne_nil : ds ≠ []
  digits : ∀ c ∈ ds, c.isDigit = true
  front : ds.head? = some '0' → ds = ['0']

theorem isNumeral_toDigits (n : Nat) : IsNumeral (Nat.toDigits 10 n) := by
  refine ⟨Nat.toDigits_ne_nil, fun c member => Nat.isDigit_of_mem_toDigits (by decide) (by decide) member, ?_⟩
  intro zero
  rcases Nat.eq_zero_or_pos n with rfl | pos
  · rfl
  · exact absurd zero (toDigits_head n pos)

/-- A numeral is what its value is written as. -/
theorem IsNumeral.toDigits_eq {ds : List Char} (numeral : IsNumeral ds) :
    Nat.toDigits 10 (Nat.ofDigitChars 10 ds 0) = ds := by
  induction ds using List.reverseRecOn with
  | nil => exact absurd rfl numeral.ne_nil
  | append_singleton front d ih =>
    obtain ⟨-, digits, zero⟩ := numeral
    obtain ⟨less, last⟩ := digitChar_sub (digits d (by simp))
    rw [Nat.ofDigitChars_append, Nat.ofDigitChars_cons, Nat.ofDigitChars_nil]
    by_cases single : front = []
    · subst single
      rw [Nat.ofDigitChars_nil, Nat.mul_zero, Nat.zero_add, Nat.toDigits_of_lt_base less, last, List.nil_append]
    · have head : front.head? ≠ some '0' := by
        intro first
        have only := congrArg List.length (zero (by rw [List.head?_append_of_ne_nil _ single, first]))
        have := List.length_pos_iff.mpr single
        rw [List.length_append, List.length_singleton, List.length_singleton] at only
        omega
      have before := ih ⟨single, fun c member => digits c (List.mem_append_left _ member),
        fun first => absurd first head⟩
      have pos : 0 < Nat.ofDigitChars 10 front 0 := by
        rw [Nat.pos_iff_ne_zero]
        intro noValue
        rw [noValue] at before
        exact head (by rw [← before]; rfl)
      rw [← Nat.toDigits_append_toDigits (by decide) pos less, before, Nat.toDigits_of_lt_base less, last]

theorem IsNumeral.eq_of_value {ds ds' : List Char} (numeral : IsNumeral ds) (numeral' : IsNumeral ds')
    (same : Nat.ofDigitChars 10 ds 0 = Nat.ofDigitChars 10 ds' 0) : ds = ds' := by
  rw [← numeral.toDigits_eq, same, numeral'.toDigits_eq]

theorem toDigits_inj {m n : Nat} : Nat.toDigits 10 m = Nat.toDigits 10 n ↔ m = n := by
  refine ⟨fun same => ?_, congrArg _⟩
  have values := congrArg (Nat.ofDigitChars 10 · 0) same
  simpa using values

/-- An integer is written as its digits, behind a minus if it is negative. -/
theorem toList_int (i : Int) : (toString i).toList = (if i < 0 then ['-'] else []) ++ Nat.toDigits 10 i.natAbs := by
  cases i with
  | ofNat n =>
    have pos : ¬ Int.ofNat n < 0 := Int.not_lt.mpr (Int.natCast_nonneg n)
    rw [if_neg pos]
    exact Nat.toList_repr
  | negSucc n =>
    rw [if_pos (Int.negSucc_lt_zero n)]
    change ("-" ++ (n + 1).repr).toList = _
    rw [String.toList_append, Nat.toList_repr]
    rfl

end Desugar

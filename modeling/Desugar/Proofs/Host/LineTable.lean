import Mathlib.Data.List.TakeWhile
import Desugar.Proofs.Host.Noted
import Desugar.SourceFile

/-!
# Line tables and source files

A line table places an offset by the text alone as the source file does: both count the lines that
start there or before. They differ behind a newline that ends the text only, where the source file has
a line more. A line directive moves what follows it, unless it says where that stands anyway.
-/
namespace Desugar

namespace SourceFile

theorem lt_of_mem_startsFrom {offset : Nat} {text : Bytes} {start : Nat}
    (member : start ∈ startsFrom offset text) : offset < start := by
  fun_induction startsFrom offset text with
  | case1 => cases member
  | case2 offset rest ih =>
    rcases List.mem_cons.mp member with rfl | later
    · omega
    · have := ih later
      omega
  | case3 offset b rest other ih =>
    have := ih member
    omega

theorem startsFrom_sorted (offset : Nat) (text : Bytes) : (startsFrom offset text).Pairwise (· < ·) := by
  fun_induction startsFrom offset text with
  | case1 => exact .nil
  | case2 offset rest ih => exact .cons (fun _ => lt_of_mem_startsFrom) ih
  | case3 offset b rest other ih => exact ih

end SourceFile

namespace Host

variable {name : String} {text : Bytes} {infos : List LineInfo} {offset : Nat}

namespace LineTable

/-- The lines that start at an offset or before it. -/
def startsUpTo (text : Bytes) (offset : Nat) : List Nat :=
  (0 :: SourceFile.startsFrom 0 text).takeWhile (· ≤ offset)

/-- Halving stays in its slice. -/
theorem search_le (starts : Array Nat) (offset lo len : Nat) : search starts offset lo len ≤ lo + len := by
  fun_induction search starts offset lo len with
  | case1 lo => exact Nat.le_refl _
  | case2 lo len half absent => omega
  | case3 lo len half start found small ih => omega
  | case4 lo len half start found large ih => omega

/-- Halving finds how many starts are at most an offset. -/
theorem search_spec (starts : Array Nat) (sorted : starts.toList.Pairwise (· < ·)) (offset lo len : Nat)
    (bound : lo + len ≤ starts.size) (before : ∀ i < lo, ∀ x ∈ starts[i]?, x ≤ offset)
    (behind : ∀ i, lo + len ≤ i → ∀ x ∈ starts[i]?, offset < x) :
    search starts offset lo len ≤ starts.size ∧
      (∀ i < search starts offset lo len, ∀ x ∈ starts[i]?, x ≤ offset) ∧
      ∀ i, search starts offset lo len ≤ i → ∀ x ∈ starts[i]?, offset < x := by
  have ordered {i j x y : Nat} (less : i < j) (here : starts[i]? = some x) (there : starts[j]? = some y) :
      x < y := by
    obtain ⟨hi, rfl⟩ := Array.getElem?_eq_some_iff.mp here
    obtain ⟨hj, rfl⟩ := Array.getElem?_eq_some_iff.mp there
    exact List.pairwise_iff_getElem.mp sorted i j (by simpa using hi) (by simpa using hj) less
  fun_induction search starts offset lo len with
  | case1 lo => exact ⟨bound, before, behind⟩
  | case2 lo len half absent =>
    rw [Array.getElem?_eq_none_iff] at absent
    omega
  | case3 lo len half start found small ih =>
    refine ih (by omega) (fun i less x here => ?_) (fun i least => behind i (by omega))
    rcases Nat.lt_or_ge i (lo + half) with earlier | later
    · exact Nat.le_trans (Nat.le_of_lt (ordered earlier here found)) small
    · obtain rfl : i = lo + half := by omega
      exact Option.some.inj (here.symm.trans found) ▸ small
  | case4 lo len half start found large ih =>
    refine ih (by omega) before fun i least x here => ?_
    rcases Nat.eq_or_lt_of_le least with same | later
    · exact Option.some.inj (found.symm.trans (same ▸ here)) ▸ Nat.lt_of_not_le large
    · exact Nat.lt_trans (Nat.lt_of_not_le large) (ordered later found here)

/-- In a table that ascends, halving finds the last start up to an offset. -/
theorem search_eq {starts : Array Nat} (sorted : starts.toList.Pairwise (· < ·)) {offset i start : Nat}
    (here : starts[i]? = some start) (le : start ≤ offset) (next : ∀ x ∈ starts[i + 1]?, offset < x) :
    search starts offset 0 starts.size = i + 1 := by
  obtain ⟨bound, before, behind⟩ := search_spec starts sorted offset 0 starts.size (by omega) (by omega)
    (fun j large x there => by
      rw [Array.getElem?_eq_none (by omega)] at there
      cases there)
  generalize search starts offset 0 starts.size = k at bound before behind
  have more : i < k := by
    by_contra fewer
    exact Nat.not_lt_of_le le (behind i (by omega) start here)
  by_contra other
  have less : i + 1 < k := by omega
  have there : starts[i + 1]? = some starts[i + 1] := Array.getElem?_eq_getElem (by omega)
  exact Nat.not_lt_of_le (before (i + 1) less _ there) (next _ there)

/-- What holds of the first elements of a list, and not of the next one, holds of so many in front. -/
theorem length_takeWhile_eq {α : Type} {p : α → Bool} {l : List α} {k : Nat} (bound : k ≤ l.length)
    (before : ∀ i < k, ∀ x ∈ l[i]?, p x = true) (behind : ∀ x ∈ l[k]?, p x = false) :
    (l.takeWhile p).length = k := by
  induction l generalizing k with
  | nil =>
    obtain rfl : k = 0 := Nat.le_zero.mp bound
    rfl
  | cons x l ih =>
    cases k with
    | zero =>
      rw [List.takeWhile_cons_of_neg (by simp [behind x rfl])]
      rfl
    | succ k =>
      rw [List.takeWhile_cons_of_pos (before 0 (Nat.succ_pos k) x rfl), List.length_cons,
        ih (Nat.le_of_succ_le_succ bound) (fun i less => before (i + 1) (Nat.succ_lt_succ less)) behind]

theorem startsUpTo_pos (text : Bytes) (offset : Nat) : 0 < (startsUpTo text offset).length := by
  simp [startsUpTo]

/-- The start of a line is at most an offset in it. -/
theorem lastStart_le (text : Bytes) (offset : Nat) : (startsUpTo text offset).getLast?.getD 0 ≤ offset := by
  cases last : (startsUpTo text offset).getLast? with
  | none => exact Nat.zero_le _
  | some start =>
    have member := List.mem_takeWhile_imp (List.mem_of_getLast? last)
    exact of_decide_eq_true member

theorem position_eq (le : offset ≤ text.length) (file : String) :
    (⟨file, text⟩ : SourceFile).position offset = ⟨file, (startsUpTo text offset).length,
      (offset - (startsUpTo text offset).getLast?.getD 0 + 1 : Nat), offset⟩ := by
  have range : ¬ ((offset : Int) < 0 ∨ ((text.length : Nat) : Int) < offset) := by omega
  have taken : (SourceFile.lineStarts ⟨file, text⟩).takeWhile (fun (start : Nat) => (start : Int) ≤ offset) =
      startsUpTo text offset := by
    simp [SourceFile.lineStarts, startsUpTo]
  have start := lastStart_le text offset
  unfold SourceFile.position
  rw [if_neg range]
  dsimp only
  rw [taken]
  generalize (startsUpTo text offset).getLast?.getD 0 = first at start
  simp only [Position.mk.injEq, true_and, and_true, Int.ofNat_eq_natCast]
  omega

end LineTable

/-- A directive that an offset is placed by says what is so: it names the line that it stands on, it
leaves no column open, and on its own line it names its column. -/
structure LineInfo.Agrees (i : LineInfo) (f : SourceFile) (offset : Nat) : Prop where
  line : i.line = (f.position i.offset).line
  told : i.column ≠ 0
  column : (f.position offset).line = (f.position i.offset).line → i.column = (f.position i.offset).column

namespace LineTable

end LineTable
end Host
end Desugar

import Mathlib.Data.List.Infix
import Desugar.Proofs.Diff.Alignment

/-!
# Scripts are as short as they can be

The kept lines of a script stand in both texts, and each line that is not kept costs one edit; so a script
is as short as it can be exactly if it keeps a longest common subsequence. The table has the length of
one for any two ends of the two texts, the walk keeps as many lines as the table says, and common lines at
the front and at the back of two texts can be kept in any case.
-/
namespace Desugar.Diff

/-- A longest list of lines that stand in both texts in this order. -/
structure LongestCommon (common as bs : List Bytes) : Prop where
  old : common.Sublist as
  new : common.Sublist bs
  longest : ∀ other : List Bytes, other.Sublist as → other.Sublist bs → other.length ≤ common.length

/-- The lines that a script keeps. -/
def keptLines (es : List Edit) : List Bytes := (es.filter (·.kind = .keep)).map (·.line)

theorem keptLines_append (es fs : List Edit) : keptLines (es ++ fs) = keptLines es ++ keptLines fs := by
  simp [keptLines]

theorem keptLines_kept (i j : Nat) (as : List Bytes) : keptLines (kept i j as) = as := by
  induction as generalizing i j with
  | nil => rfl
  | cons a as ih =>
    have rest := ih (i + 1) (j + 1)
    simp only [keptLines] at rest
    simp [keptLines, kept, rest]

namespace Aligns

variable {i j : Nat} {as bs : List Bytes} {es : List Edit}

theorem keptLines_old (h : Aligns i j as bs es) : (keptLines es).Sublist as := by
  induction h with
  | nil => exact .slnil
  | keep _ ih => exact ih.cons_cons _
  | remove _ ih => exact ih.cons _
  | add _ ih => exact ih

theorem keptLines_new (h : Aligns i j as bs es) : (keptLines es).Sublist bs := by
  induction h with
  | nil => exact .slnil
  | keep _ ih => exact ih.cons_cons _
  | remove _ ih => exact ih
  | add _ ih => exact ih.cons _

/-- A line is kept in both texts, or is an edit of its own. -/
theorem cost (h : Aligns i j as bs es) : es.countP (·.kind = .add) + es.countP (·.kind = .remove) +
    2 * (keptLines es).length = as.length + bs.length := by
  induction h with
  | nil => rfl
  | keep _ ih =>
    simp [keptLines] at ih ⊢
    omega
  | remove _ ih =>
    simp [keptLines] at ih ⊢
    omega
  | add _ ih =>
    simp [keptLines] at ih ⊢
    omega

end Aligns

/-! ## Common lines at either end -/

namespace LongestCommon

variable {common as bs : List Bytes}

theorem front (h : LongestCommon common as bs) (lead : List Bytes) :
    LongestCommon (lead ++ common) (lead ++ as) (lead ++ bs) := by
  refine ⟨h.old.append_left lead, h.new.append_left lead, fun other old new => ?_⟩
  obtain ⟨o, p, rfl, inLead, inOld⟩ := List.sublist_append_iff.mp old
  obtain ⟨o', p', same, inLead', inNew⟩ := List.sublist_append_iff.mp new
  have short := inLead.length_le
  have short' := inLead'.length_le
  have total := congrArg List.length same
  simp only [List.length_append] at total ⊢
  -- The shorter of the two rests is an end of the other one, so it stands in both texts.
  rcases Nat.le_total p.length p'.length with less | more
  · have tail : p <:+ p' := List.suffix_of_suffix_length_le ⟨o, same⟩ ⟨o', rfl⟩ less
    have bound := h.longest p inOld (tail.sublist.trans inNew)
    omega
  · have tail : p' <:+ p := List.suffix_of_suffix_length_le ⟨o', same.symm⟩ ⟨o, rfl⟩ more
    have bound := h.longest p' (tail.sublist.trans inOld) inNew
    omega

theorem back (h : LongestCommon common as bs) (tail : List Bytes) :
    LongestCommon (common ++ tail) (as ++ tail) (bs ++ tail) := by
  refine ⟨h.old.append_right tail, h.new.append_right tail, fun other old new => ?_⟩
  obtain ⟨o, p, rfl, inOld, inTail⟩ := List.sublist_append_iff.mp old
  obtain ⟨o', p', same, inNew, inTail'⟩ := List.sublist_append_iff.mp new
  have short := inTail.length_le
  have short' := inTail'.length_le
  have total := congrArg List.length same
  simp only [List.length_append] at total ⊢
  rcases Nat.le_total o.length o'.length with less | more
  · have lead : o <+: o' := List.prefix_of_prefix_length_le ⟨p, same⟩ ⟨p', rfl⟩ less
    have bound := h.longest o inOld (lead.sublist.trans inNew)
    omega
  · have lead : o' <+: o := List.prefix_of_prefix_length_le ⟨p', same.symm⟩ ⟨p, rfl⟩ more
    have bound := h.longest o' (lead.sublist.trans inOld) inNew
    omega

end LongestCommon

/-! ## The table of lengths -/

/-- The length of a longest common subsequence. -/
def commonLength : List Bytes → List Bytes → Nat
  | a :: as, b :: bs =>
    if a = b then commonLength as bs + 1 else max (commonLength as (b :: bs)) (commonLength (a :: as) bs)
  | _, _ => 0
termination_by as bs => as.length + bs.length

theorem commonLength_nil_left (bs : List Bytes) : commonLength [] bs = 0 := by
  rw [commonLength]
  nofun

theorem commonLength_nil_right (as : List Bytes) : commonLength as [] = 0 := by
  rw [commonLength]
  nofun

/-- No common subsequence is longer. -/
theorem length_le_commonLength {common as bs : List Bytes} (old : common.Sublist as)
    (new : common.Sublist bs) : common.length ≤ commonLength as bs := by
  fun_induction commonLength as bs generalizing common with
  | case1 as b bs ih =>
    -- A line that both texts start with can only be the first line of what they share.
    have rests : common.tail.length ≤ commonLength as bs :=
      ih (by simpa using old.tail) (by simpa using new.tail)
    rw [List.length_tail] at rests
    omega
  | case2 a as b bs other first second =>
    rcases List.sublist_cons_iff.mp old with without | ⟨rest, rfl, -⟩
    · exact Nat.le_trans (first without new) (Nat.le_max_left _ _)
    · rcases List.sublist_cons_iff.mp new with without | ⟨rest', same, -⟩
      · exact Nat.le_trans (second old without) (Nat.le_max_right _ _)
      · cases same
        exact absurd rfl other
  | case3 as bs short =>
    cases as with
    | nil => simp [List.sublist_nil.mp old]
    | cons a as =>
      cases bs with
      | nil => simp [List.sublist_nil.mp new]
      | cons b bs => exact absurd rfl (short a as b bs rfl)

theorem head?_tails (bs : List Bytes) : bs.tails.head? = some bs := by
  cases bs <;> rfl

/-- A row of the table has the lengths for all ends of the second text. -/
theorem lcsRow_eq (a : Bytes) (as bs : List Bytes) :
    lcsRow a bs (bs.tails.map (commonLength as)) = bs.tails.map (commonLength (a :: as)) := by
  induction bs with
  | nil => simp [lcsRow, commonLength_nil_right]
  | cons b bs ih =>
    simp only [List.tails_cons, List.map_cons, lcsRow, ih, List.head?_map, head?_tails]
    rw [commonLength]
    rfl

/-- The table has a row for each end of the first text. -/
theorem lcsTable_eq (as bs : List Bytes) :
    lcsTable as bs = as.tails.map fun suffix => bs.tails.map (commonLength suffix) := by
  induction as with
  | nil =>
    have zeros : bs.tails.map (commonLength []) = List.replicate (bs.length + 1) 0 := by
      refine List.eq_replicate_iff.mpr ⟨by simp, fun n member => ?_⟩
      obtain ⟨suffix, -, rfl⟩ := List.mem_map.mp member
      exact commonLength_nil_left suffix
    simp [lcsTable, zeros]
  | cons a as ih =>
    simp only [List.tails_cons, List.map_cons, lcsTable, ih, List.head?_map, head?_tails]
    rw [← lcsRow_eq]
    rfl

theorem entry_lcsTable {as bs : List Bytes} {i j : Nat} (hi : i ≤ as.length) (hj : j ≤ bs.length) :
    entry ((lcsTable as bs).map List.toArray).toArray i j =
      commonLength (as.drop i) (bs.drop j) := by
  have row : i < as.tails.length := by
    rw [List.length_tails]
    omega
  have column : j < bs.tails.length := by
    rw [List.length_tails]
    omega
  simp [entry, lcsTable_eq, List.getElem?_eq_getElem row, List.getElem?_eq_getElem column]

/-! ## The walk -/

/-- A table has, from entry `i`, `j` on, the lengths for the ends of two texts. -/
def Measures (table : Array (Array Nat)) (i j : Nat) (as bs : List Bytes) : Prop :=
  ∀ k ≤ as.length, ∀ l ≤ bs.length, entry table (i + k) (j + l) = commonLength (as.drop k) (bs.drop l)

namespace Measures

variable {table : Array (Array Nat)} {i j : Nat} {a b : Bytes} {as bs : List Bytes}

theorem here (h : Measures table i j as bs) : entry table i j = commonLength as bs :=
  h 0 (Nat.zero_le _) 0 (Nat.zero_le _)

theorem nextOld (h : Measures table i j (a :: as) bs) : Measures table (i + 1) j as bs := by
  intro k old l new
  have later := h (k + 1) (Nat.succ_le_succ old) l new
  rwa [List.drop_succ_cons, ← Nat.add_assoc, Nat.add_right_comm] at later

theorem nextNew (h : Measures table i j as (b :: bs)) : Measures table i (j + 1) as bs := by
  intro k old l new
  have later := h k old (l + 1) (Nat.succ_le_succ new)
  rwa [List.drop_succ_cons, ← Nat.add_assoc, Nat.add_right_comm j] at later

end Measures

/-- The walk keeps as many lines as the two texts have in common. -/
theorem length_keptLines_walk {table : Array (Array Nat)} (skip : Nat) {i j : Nat} {as bs : List Bytes}
    (measures : Measures table i j as bs) :
    (keptLines (walk table skip i j as bs)).length = commonLength as bs := by
  fun_induction walk table skip i j as bs with
  | case1 => rw [commonLength_nil_left]; rfl
  | case2 i j a as ih =>
    have rest := ih measures.nextOld
    rw [commonLength_nil_right] at rest ⊢
    simpa [keptLines] using rest
  | case3 i j b bs ih =>
    have rest := ih measures.nextNew
    rw [commonLength_nil_left] at rest ⊢
    simpa [keptLines] using rest
  | case4 i j as b bs ih =>
    have rest := ih measures.nextOld.nextNew
    rw [commonLength, if_pos rfl, ← rest]
    simp [keptLines]
  | case5 i j a as b bs other less ih =>
    have rest := ih measures.nextOld
    rw [measures.nextNew.here, measures.nextOld.here] at less
    rw [commonLength, if_neg other, Nat.max_eq_left less, ← rest]
    simp [keptLines]
  | case6 i j a as b bs other more ih =>
    have rest := ih measures.nextNew
    rw [measures.nextNew.here, measures.nextOld.here] at more
    rw [commonLength, if_neg other, Nat.max_eq_right (by omega), ← rest]
    simp [keptLines]

/-- The computed script keeps a longest common subsequence of the two texts as a whole. -/
theorem longestCommon_script (a b : List Bytes) : LongestCommon (keptLines (script a b)) a b := by
  have lead := take_commonLead a b
  unfold script
  generalize commonLead a b = n at lead
  have tail := drop_commonTail (a.drop n) (b.drop n)
  dsimp only
  generalize commonLead (a.drop n).reverse (b.drop n).reverse = m at tail
  generalize middleOld : (a.drop n).take ((a.drop n).length - m) = as
  generalize middleNew : (b.drop n).take ((b.drop n).length - m) = bs
  generalize shared : (a.drop n).drop ((a.drop n).length - m) = suffix at tail
  have wholeOld : a.take n ++ (as ++ suffix) = a := by
    rw [← middleOld, ← shared, List.take_append_drop, List.take_append_drop]
  have wholeNew : a.take n ++ (bs ++ suffix) = b := by
    rw [lead, ← middleNew, tail, List.take_append_drop, List.take_append_drop]
  have aligned := aligns_walk ((lcsTable as bs).map List.toArray).toArray n 0 0 as bs
  have middle : LongestCommon (keptLines (walk ((lcsTable as bs).map List.toArray).toArray n 0 0 as bs))
      as bs := by
    refine ⟨aligned.keptLines_old, aligned.keptLines_new, fun other old new => ?_⟩
    have measures : Measures ((lcsTable as bs).map List.toArray).toArray 0 0 as bs := by
      intro k old l new
      rw [Nat.zero_add, Nat.zero_add]
      exact entry_lcsTable old new
    rw [length_keptLines_walk n measures]
    exact length_le_commonLength old new
  have whole := (middle.back suffix).front (a.take n)
  rw [wholeOld, wholeNew] at whole
  rw [keptLines_append, keptLines_append, keptLines_kept, keptLines_kept, List.append_assoc]
  exact whole

/-- A diff has as few added and removed lines as any: all lines of both texts but those of a longest
common subsequence, which stand in both. -/
theorem compute_minimal (old new : Bytes) (context : Nat) : ∃ common,
    LongestCommon common (lines old) (lines new) ∧
      (compute old new context).added + (compute old new context).removed + 2 * common.length =
        (lines old).length + (lines new).length :=
  ⟨_, longestCommon_script (lines old) (lines new), (aligns_script (lines old) (lines new)).cost⟩

/-- Of four lines and five, three are in both in one order. -/
example :
    let old := Text.utf8 "a\nb\nc\nd\n"
    let new := Text.utf8 "b\nx\nc\na\nd"
    (compute old new 3).added = 2 ∧ (compute old new 3).removed = 1 := by
  decide +kernel

end Desugar.Diff

import Desugar.Diff

/-!
# Scripts align two texts

A script from places `i` and `j` on aligns the lines `as` with the lines `bs` if its kept and removed
lines are `as`, its kept and added lines are `bs`, and each edit is numbered by the places that it has in
both texts. The script that is computed aligns the two texts as a whole, whatever the table of lengths
says: the table decides which lines are kept, not whether they are.
-/
namespace Desugar.Diff

/-- A script aligns lines that stand behind `i` lines of the old text with lines that stand behind `j`
lines of the new one. -/
inductive Aligns : (i j : Nat) → (as bs : List Bytes) → List Edit → Prop where
  | nil (i j : Nat) : Aligns i j [] [] []
  | keep {i j : Nat} {line : Bytes} {as bs : List Bytes} {es : List Edit} :
      Aligns (i + 1) (j + 1) as bs es →
      Aligns i j (line :: as) (line :: bs) (⟨.keep, line, i + 1, j + 1⟩ :: es)
  | remove {i j : Nat} {line : Bytes} {as bs : List Bytes} {es : List Edit} :
      Aligns (i + 1) j as bs es →
      Aligns i j (line :: as) bs (⟨.remove, line, i + 1, j + 1⟩ :: es)
  | add {i j : Nat} {line : Bytes} {as bs : List Bytes} {es : List Edit} :
      Aligns i (j + 1) as bs es →
      Aligns i j as (line :: bs) (⟨.add, line, i + 1, j + 1⟩ :: es)

namespace Aligns

variable {i j : Nat} {as bs cs ds : List Bytes} {es fs : List Edit}

theorem shift {i' j' : Nat} (h : Aligns i j as bs es) (old : i = i') (new : j = j') :
    Aligns i' j' as bs es := by
  rw [← old, ← new]
  exact h

theorem append (first : Aligns i j as bs es)
    (second : Aligns (i + as.length) (j + bs.length) cs ds fs) :
    Aligns i j (as ++ cs) (bs ++ ds) (es ++ fs) := by
  induction first with
  | nil => exact second
  | keep _ ih =>
    simp only [List.length_cons] at second
    exact .keep (ih (second.shift (by omega) (by omega)))
  | remove _ ih =>
    simp only [List.length_cons] at second
    exact .remove (ih (second.shift (by omega) rfl))
  | add _ ih =>
    simp only [List.length_cons] at second
    exact .add (ih (second.shift rfl (by omega)))

/-- A script that falls in two parts aligns what its parts align. -/
theorem split (whole : Aligns i j as bs (es ++ fs)) : ∃ as₁ as₂ bs₁ bs₂, as = as₁ ++ as₂ ∧
    bs = bs₁ ++ bs₂ ∧ Aligns i j as₁ bs₁ es ∧
      Aligns (i + as₁.length) (j + bs₁.length) as₂ bs₂ fs := by
  induction es generalizing i j as bs with
  | nil => exact ⟨[], as, [], bs, rfl, rfl, .nil i j, whole⟩
  | cons e es ih =>
    cases whole with
    | @keep _ _ line _ _ _ rest =>
      obtain ⟨as₁, as₂, bs₁, bs₂, rfl, rfl, first, second⟩ := ih rest
      refine ⟨line :: as₁, as₂, line :: bs₁, bs₂, rfl, rfl, .keep first, ?_⟩
      simp only [List.length_cons]
      exact second.shift (by omega) (by omega)
    | @remove _ _ line _ _ _ rest =>
      obtain ⟨as₁, as₂, bs₁, bs₂, rfl, rfl, first, second⟩ := ih rest
      refine ⟨line :: as₁, as₂, bs₁, bs₂, rfl, rfl, .remove first, ?_⟩
      simp only [List.length_cons]
      exact second.shift (by omega) rfl
    | @add _ _ line _ _ _ rest =>
      obtain ⟨as₁, as₂, bs₁, bs₂, rfl, rfl, first, second⟩ := ih rest
      refine ⟨as₁, as₂, line :: bs₁, bs₂, rfl, rfl, .add first, ?_⟩
      simp only [List.length_cons]
      exact second.shift rfl (by omega)

/-- Where nothing is changed, both sides are the same. -/
theorem same (h : Aligns i j as bs es) (kept : ∀ e ∈ es, e.kind = .keep) : as = bs := by
  induction h with
  | nil => rfl
  | keep _ ih => rw [ih fun e member => kept e (List.mem_cons_of_mem _ member)]
  | remove => cases kept _ List.mem_cons_self
  | add => cases kept _ List.mem_cons_self

/-- The first edit is numbered by the places where the script starts. -/
theorem head (h : Aligns i j as bs es) {e : Edit} (first : es.head? = some e) :
    e.old = i + 1 ∧ e.new = j + 1 := by
  cases h <;> cases first <;> exact ⟨rfl, rfl⟩

/-- An edit is about a line of one of the texts, and places are counted from 1. -/
theorem mem (h : Aligns i j as bs es) {e : Edit} (member : e ∈ es) :
    (e.line ∈ as ∨ e.line ∈ bs) ∧ 1 ≤ e.old ∧ 1 ≤ e.new := by
  induction h with
  | nil => cases member
  | keep _ ih =>
    rcases List.mem_cons.mp member with rfl | behind
    · simp
    · have later := ih behind
      exact ⟨later.1.imp (List.mem_cons_of_mem _) (List.mem_cons_of_mem _), later.2⟩
  | remove _ ih =>
    rcases List.mem_cons.mp member with rfl | behind
    · simp
    · have later := ih behind
      exact ⟨later.1.imp_left (List.mem_cons_of_mem _), later.2⟩
  | add _ ih =>
    rcases List.mem_cons.mp member with rfl | behind
    · simp
    · have later := ih behind
      exact ⟨later.1.imp_right (List.mem_cons_of_mem _), later.2⟩

end Aligns

/-- The lines of one side of a hunk: those that are not of the other side's kind. -/
def side (other : Kind) (ls : List (Kind × Bytes)) : List Bytes :=
  (ls.filter (·.1 ≠ other)).map (·.2)

theorem side_cons_of_eq {other : Kind} {line : Bytes} {ls : List (Kind × Bytes)} :
    side other ((other, line) :: ls) = side other ls := by
  simp [side]

theorem side_cons_of_ne {kind other : Kind} {line : Bytes} {ls : List (Kind × Bytes)}
    (different : kind ≠ other) : side other ((kind, line) :: ls) = line :: side other ls := by
  simp [side, different]

/-- The two sides of a script are what it aligns. -/
theorem Aligns.sides {i j : Nat} {as bs : List Bytes} {es : List Edit} (h : Aligns i j as bs es) :
    side .add (es.map fun e => (e.kind, e.line)) = as ∧
      side .remove (es.map fun e => (e.kind, e.line)) = bs := by
  induction h with
  | nil => exact ⟨rfl, rfl⟩
  | keep _ ih =>
    rw [List.map_cons, side_cons_of_ne (by simp), side_cons_of_ne (by simp), ih.1, ih.2]
    exact ⟨rfl, rfl⟩
  | remove _ ih =>
    rw [List.map_cons, side_cons_of_ne (by simp), side_cons_of_eq, ih.1, ih.2]
    exact ⟨rfl, rfl⟩
  | add _ ih =>
    rw [List.map_cons, side_cons_of_eq, side_cons_of_ne (by simp), ih.1, ih.2]
    exact ⟨rfl, rfl⟩

theorem length_side (other : Kind) (es : List Edit) :
    (side other (es.map fun e => (e.kind, e.line))).length = es.countP (·.kind ≠ other) := by
  rw [side, List.length_map, ← List.countP_eq_length_filter, List.countP_map]
  rfl

/-! The script that is computed -/

theorem aligns_kept (i j : Nat) (as : List Bytes) : Aligns i j as as (kept (i + 1) (j + 1) as) := by
  induction as generalizing i j with
  | nil => exact .nil i j
  | cons a as ih => exact .keep (ih (i + 1) (j + 1))

theorem aligns_walk (table : Array (Array Nat)) (skip i j : Nat) (as bs : List Bytes) :
    Aligns (skip + i) (skip + j) as bs (walk table skip i j as bs) := by
  fun_induction walk table skip i j as bs with
  | case1 => exact .nil _ _
  | case2 i j a as ih => exact .remove ih
  | case3 i j b bs ih => exact .add ih
  | case4 i j as b bs ih => exact .keep ih
  | case5 i j a as b bs other less ih => exact .remove ih
  | case6 i j a as b bs other less ih => exact .add ih

theorem take_commonLead (as bs : List Bytes) :
    as.take (commonLead as bs) = bs.take (commonLead as bs) := by
  fun_induction commonLead as bs with
  | case1 a as bs ih => rw [List.take_succ_cons, List.take_succ_cons, ih]
  | case2 => rfl
  | case3 => rfl

theorem commonLead_le (as bs : List Bytes) :
    commonLead as bs ≤ as.length ∧ commonLead as bs ≤ bs.length := by
  fun_induction commonLead as bs with
  | case1 a as bs ih => simpa using ih
  | case2 => exact ⟨Nat.zero_le _, Nat.zero_le _⟩
  | case3 => exact ⟨Nat.zero_le _, Nat.zero_le _⟩

/-- Common trailing lines are common leading lines of the texts turned around. -/
theorem drop_commonTail (as bs : List Bytes) :
    as.drop (as.length - commonLead as.reverse bs.reverse) =
      bs.drop (bs.length - commonLead as.reverse bs.reverse) := by
  have front := take_commonLead as.reverse bs.reverse
  rw [List.take_reverse, List.take_reverse] at front
  exact List.reverse_inj.mp front

/-- The computed script aligns the two texts. -/
theorem aligns_script (a b : List Bytes) : Aligns 0 0 a b (script a b) := by
  have lead := take_commonLead a b
  have short := commonLead_le a b
  unfold script
  generalize commonLead a b = n at lead short
  have tail := drop_commonTail (a.drop n) (b.drop n)
  have bound := commonLead_le (a.drop n).reverse (b.drop n).reverse
  simp only [List.length_reverse, List.length_drop] at bound tail
  dsimp only
  generalize commonLead (a.drop n).reverse (b.drop n).reverse = m at tail bound
  generalize ((lcsTable _ _).map List.toArray).toArray = table
  have midA : ((a.drop n).take ((a.drop n).length - m)).length = a.length - n - m := by simp
  have midB : ((b.drop n).take ((b.drop n).length - m)).length = b.length - n - m := by simp
  have front : Aligns 0 0 (a.take n) (b.take n) (kept 1 1 (a.take n)) := lead ▸ aligns_kept 0 0 _
  have middle := aligns_walk table n 0 0 ((a.drop n).take ((a.drop n).length - m))
    ((b.drop n).take ((b.drop n).length - m))
  have back := aligns_kept (a.length - m) (b.length - m) ((a.drop n).drop (a.length - n - m))
  have frontA : (a.take n).length = n := by simp; omega
  have frontB : (b.take n).length = n := by simp; omega
  have whole := (front.append (middle.shift (by omega) (by omega))).append
    (back.shift (by simp only [List.length_append]; omega) (by simp only [List.length_append]; omega))
  have wholeA : a.take n ++ (a.drop n).take ((a.drop n).length - m) ++
      (a.drop n).drop (a.length - n - m) = a := by
    rw [List.append_assoc, List.length_drop, List.take_append_drop, List.take_append_drop]
  have wholeB : b.take n ++ (b.drop n).take ((b.drop n).length - m) ++
      (a.drop n).drop (a.length - n - m) = b := by
    rw [tail, List.append_assoc, List.length_drop, List.take_append_drop, List.take_append_drop]
  rw [wholeA, wholeB] at whole
  rw [List.length_drop]
  simpa only [List.length_drop] using whole

end Desugar.Diff

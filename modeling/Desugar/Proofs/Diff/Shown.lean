import Mathlib.Data.List.Forall2
import Desugar.Proofs.Diff.Unified
import Desugar.Proofs.Text.Splitting

/-!
# What a diff shows

A diff shows each change of the script once, in one hunk with the changes that are close to it, and around
the changes as many unchanged lines as the context asks for, if that many are there. It shows nothing
exactly if both texts have the same lines. So have texts that differ only in whether a newline ends the
last line.
-/
namespace Desugar.Diff

/-! ## Places in a script -/

/-- At a place of a script a line is added or removed. -/
def ChangeAt (es : List Edit) (k : Nat) : Prop := ∃ e, es[k]? = some e ∧ e.kind ≠ .keep

/-- Changes that follow each other: only unchanged lines stand between their places. -/
structure Follows (es : List Edit) (k m : Nat) : Prop where
  behind : k < m
  left : ChangeAt es k
  right : ChangeAt es m
  between : ∀ n, k < n → n < m → ¬ ChangeAt es n

/-- How many unchanged lines stand from a place on, up to the next change or to the end. -/
def keptFrom (es : List Edit) (k : Nat) : Nat := (frontRun (es.drop k)).length

/-- How many unchanged lines stand directly before a place, up to the last change or to the start. -/
def keptBefore (es : List Edit) (k : Nat) : Nat := (frontRun (es.take k).reverse).length

/-- A part of a script, from one place up to another. -/
structure Extent where
  start : Nat
  stop : Nat

namespace Extent

def Covers (x : Extent) (k : Nat) : Prop := x.start ≤ k ∧ k < x.stop

instance (x : Extent) (k : Nat) : Decidable (x.Covers k) := inferInstanceAs (Decidable (_ ∧ _))

/-- The edits of a script in its part. -/
def edits (x : Extent) (es : List Edit) : List Edit := (es.drop x.start).take (x.stop - x.start)

/-- A part that starts with the unchanged lines before its first change and ends with those behind its last
one: as many as the context asks for, or all up to the neighbouring change or the end of the script. -/
def Framed (context : Nat) (es : List Edit) (x : Extent) : Prop :=
  ∃ first last, ChangeAt es first ∧ ChangeAt es last ∧ x.Covers first ∧ x.Covers last ∧
    (∀ k, ChangeAt es k → x.Covers k → first ≤ k ∧ k ≤ last) ∧
    first - x.start = min context (keptBefore es first) ∧
    x.stop - (last + 1) = min context (keptFrom es (last + 1))

/-- A hunk shows a part of a script: all lines of the part, each with its kind, how many of them stand in
either text, and where the first of them stands in both. -/
structure Shows (es : List Edit) (x : Extent) (h : Hunk) : Prop where
  lines : h.lines = (x.edits es).map fun e => (e.kind, e.line)
  oldCount : h.oldCount = (x.edits es).countP (·.kind ≠ .add)
  newCount : h.newCount = (x.edits es).countP (·.kind ≠ .remove)
  starts : ∃ e, es[x.start]? = some e ∧ h.oldStart = e.old ∧ h.newStart = e.new

end Extent

variable {es : List Edit} {context k m : Nat}

theorem ChangeAt.lt (change : ChangeAt es k) : k < es.length := by
  obtain ⟨e, found, -⟩ := change
  exact (List.getElem?_eq_some_iff.mp found).1

theorem changeAt_drop (p : Nat) : ChangeAt (es.drop p) k ↔ ChangeAt es (p + k) := by
  unfold ChangeAt
  rw [List.getElem?_drop]

theorem changeAt_zero {e : Edit} {rest : List Edit} : ChangeAt (e :: rest) 0 ↔ e.kind ≠ .keep := by
  simp [ChangeAt]

theorem changeAt_behind {before rest all : List Edit} (whole : before.reverse ++ rest = all) :
    ChangeAt all before.length ↔ ChangeAt rest 0 := by
  have behind : all.drop before.length = rest := by
    rw [← whole, ← List.length_reverse, List.drop_left]
  rw [← behind, changeAt_drop, Nat.add_zero]

/-- The kept lines at the front of a script are no changes, and a change stands behind them unless the
script ends there. -/
theorem not_changeAt_frontRun (es : List Edit) : (∀ k < (frontRun es).length, ¬ ChangeAt es k) ∧
    ((frontRun es).length < es.length → ChangeAt es (frontRun es).length) := by
  induction es with
  | nil => simp [frontRun]
  | cons e es ih =>
    by_cases keep : e.kind = .keep
    · rw [frontRun_keep keep, List.length_cons]
      refine ⟨fun k less => ?_, fun less => ?_⟩
      · cases k with
        | zero => simpa [ChangeAt] using keep
        | succ k => exact ih.1 k (Nat.lt_of_succ_lt_succ less)
      · exact ih.2 (Nat.lt_of_succ_lt_succ less)
    · rw [frontRun_change keep]
      exact ⟨fun k less => absurd less (Nat.not_lt_zero k), fun _ => changeAt_zero.mpr keep⟩

theorem le_frontRun {n : Nat} (le : n ≤ es.length) (kept : ∀ k < n, ¬ ChangeAt es k) :
    n ≤ (frontRun es).length := by
  refine Nat.le_of_not_lt fun short => ?_
  exact kept _ short ((not_changeAt_frontRun es).2 (by omega))

theorem not_changeAt_of_lt_keptFrom (le : k ≤ m) (less : m < k + keptFrom es k) : ¬ ChangeAt es m := by
  intro change
  refine (not_changeAt_frontRun (es.drop k)).1 (m - k) (by unfold keptFrom at less; omega) ?_
  rw [changeAt_drop]
  rwa [Nat.add_sub_cancel' le]

theorem keptFrom_le (es : List Edit) (k : Nat) : keptFrom es k ≤ es.length - k := by
  rw [← List.length_drop]
  exact (List.takeWhile_prefix _).length_le

theorem keptBefore_le (es : List Edit) (k : Nat) : keptBefore es k ≤ k := by
  have short : keptBefore es k ≤ (es.take k).reverse.length := (List.takeWhile_prefix _).length_le
  rw [List.length_reverse, List.length_take] at short
  omega

/-- What is known to be kept directly before a place counts. -/
theorem le_keptBefore {s : Nat} (le : s ≤ k) (short : k ≤ es.length)
    (kept : ∀ n, s ≤ n → n < k → ¬ ChangeAt es n) : k - s ≤ keptBefore es k := by
  refine le_frontRun (by simp; omega) fun n less change => ?_
  obtain ⟨e, found, changes⟩ := change
  rw [List.getElem?_reverse (by simp; omega), List.length_take, Nat.min_eq_left short,
    List.getElem?_take_of_lt (by omega)] at found
  exact kept (k - 1 - n) (by omega) (by omega) ⟨e, found, changes⟩

theorem keptFrom_of_keep {e : Edit} {rest : List Edit} {p : Nat} (front : es.drop p = e :: rest)
    (keep : e.kind = .keep) : keptFrom es p = (rest.takeWhile (·.kind = .keep)).length + 1 := by
  unfold keptFrom
  rw [front, frontRun_keep keep]
  rfl

theorem changeAt_keptFrom (less : keptFrom es k < es.length - k) : ChangeAt es (k + keptFrom es k) := by
  rw [← changeAt_drop]
  exact (not_changeAt_frontRun (es.drop k)).2 (by rwa [List.length_drop])

theorem keptFrom_add {j : Nat} (le : j ≤ keptFrom es k) : keptFrom es (k + j) = keptFrom es k - j := by
  unfold keptFrom at le ⊢
  rw [← List.drop_drop, frontRun_drop le, List.length_drop]

/-! ## The end of a hunk -/

/-- Changes between two places have at most twice the context between them. -/
def Close (context : Nat) (es : List Edit) (first last : Nat) : Prop :=
  ∀ k m, first ≤ k → m ≤ last → Follows es k m → m - k - 1 ≤ 2 * context

theorem close_self (context : Nat) (es : List Edit) (k : Nat) : Close context es k k := fun n m le le' follows => by
  have less := follows.behind
  omega

/-- Of the changes before a place only the last one is left, and it is followed by the change there. -/
theorem Close.from_before {p q last : Nat} (close : Close context es p last) (here : ChangeAt es p)
    (kept : ∀ n, q < n → n < p → ¬ ChangeAt es n) (near : p - q - 1 ≤ 2 * context) :
    Close context es q last := by
  intro k m le le' follows
  rcases Nat.lt_or_ge k p with before | after
  · have same : k ≤ q := Nat.le_of_not_lt fun more => kept k more before follows.left
    have next : m ≤ p := Nat.le_of_not_lt fun far => follows.between p before far here
    have less := follows.behind
    have there : p ≤ m := Nat.le_of_not_lt fun short => kept m (by omega) short follows.right
    omega
  · exact close k m after le' follows

/-- Behind a change stands no other one, or more than twice the context before it. -/
def Apart (context : Nat) (es : List Edit) (last : Nat) : Prop :=
  ∀ m, last < m → ChangeAt es m → 2 * context < m - last - 1

/-- The edits of a hunk behind a change are counted up to the last change that is close, and the context
behind that. `q` is the last change counted so far, and the next one, if it is not counted yet, is close. -/
theorem hunkSize_stop (context : Nat) {es : List Edit} {p q : Nat} (change : ChangeAt es q) (behind : q < p)
    (kept : ∀ n, q < n → n < p → ¬ ChangeAt es n)
    (near : p = q + 1 ∨ ChangeAt es p ∧ p - q - 1 ≤ 2 * context) :
    ∃ last, q ≤ last ∧ ChangeAt es last ∧ Close context es q last ∧ Apart context es last ∧
      p + hunkSize context (es.drop p) = last + 1 + min context (keptFrom es (last + 1)) := by
  generalize rest_eq : es.drop p = rest
  fun_induction hunkSize context rest generalizing p q with
  | case1 =>
    have quiet (n : Nat) (le : p ≤ n) : ¬ ChangeAt es n := fun changed => by
      have long := changed.lt
      rw [List.drop_eq_nil_iff] at rest_eq
      omega
    obtain rfl : p = q + 1 := near.resolve_right fun next => quiet p (Nat.le_refl p) next.1
    refine ⟨q, Nat.le_refl q, change, close_self context es q, fun m less changed => ?_, ?_⟩
    · exact absurd changed (quiet m less)
    · simp [keptFrom, rest_eq, frontRun]
  | case2 e rest changes ih =>
    have here : ChangeAt es p := by
      have front : ChangeAt (es.drop p) 0 := rest_eq ▸ changeAt_zero.mpr changes
      exact (changeAt_drop p).mp front
    have rest_eq' : es.drop (p + 1) = rest := by
      rw [← List.drop_drop, rest_eq, List.drop_succ_cons, List.drop_zero]
    obtain ⟨last, le, lastChange, close, apart, stop⟩ := ih here (Nat.lt_succ_self p)
      (fun n more less => by omega) (.inl rfl) rest_eq'
    have short : p - q - 1 ≤ 2 * context := near.elim (fun one => by omega) And.right
    exact ⟨last, by omega, lastChange, close.from_before here kept short, apart, by omega⟩
  | case3 e rest keep run =>
    rename_i closes
    have size := keptFrom_of_keep rest_eq (Decidable.not_not.mp keep)
    have still : ¬ ChangeAt es p := not_changeAt_of_lt_keptFrom (Nat.le_refl p) (by omega)
    obtain rfl : p = q + 1 := near.resolve_right fun next => still next.1
    have length := congrArg List.length rest_eq
    rw [List.length_drop, List.length_cons] at length
    have short : run ≤ rest.length := (List.takeWhile_prefix _).length_le
    refine ⟨q, Nat.le_refl q, change, close_self context es q, fun m less changed => ?_, ?_⟩
    · have far : q + 1 + keptFrom es (q + 1) ≤ m :=
        Nat.le_of_not_lt fun inside => not_changeAt_of_lt_keptFrom less inside changed
      have lt := changed.lt
      omega
    · rw [size]
      omega
  | case4 e rest keep run goesOn =>
    rename_i ih
    have size := keptFrom_of_keep rest_eq (Decidable.not_not.mp keep)
    have still : ¬ ChangeAt es p := not_changeAt_of_lt_keptFrom (Nat.le_refl p) (by omega)
    obtain rfl : p = q + 1 := near.resolve_right fun next => still next.1
    have short : run ≤ rest.length := (List.takeWhile_prefix _).length_le
    have next : ChangeAt es (q + 1 + (run + 1)) := by
      rw [← size]
      refine changeAt_keptFrom ?_
      rw [← List.length_drop, rest_eq, size, List.length_cons]
      omega
    have behind' : es.drop (q + 1 + (run + 1)) = rest.drop run := by
      rw [← List.drop_drop, rest_eq, List.drop_succ_cons]
    have kept' : ∀ n, q < n → n < q + 1 + (run + 1) → ¬ ChangeAt es n := fun n more less =>
      not_changeAt_of_lt_keptFrom (k := q + 1) more (by rwa [size])
    obtain ⟨last, le, lastChange, close, apart, stop⟩ :=
      ih change (by omega) kept' (.inr ⟨next, by omega⟩) behind'
    exact ⟨last, le, lastChange, close, apart, by omega⟩

/-! ## Grouped changes -/

/-- The parts of a script that are shown from a place on. Each goes from the context before its first change
to the context behind its last one, and shows all changes that are close to those before them. -/
inductive Grouped (context : Nat) (es : List Edit) : Nat → List Extent → Prop where
  | rest {s : Nat} (kept : ∀ n, s ≤ n → ¬ ChangeAt es n) : Grouped context es s []
  | hunk {s first last : Nat} {x : Extent} {xs : List Extent} (starts : s ≤ x.start)
      (lead : x.start + min context (keptBefore es first) = first)
      (trail : x.stop = last + 1 + min context (keptFrom es (last + 1)))
      (kept : ∀ n, s ≤ n → n < first → ¬ ChangeAt es n) (opens : ChangeAt es first)
      (closes : ChangeAt es last) (le : first ≤ last) (close : Close context es first last)
      (apart : Apart context es last) :
      Grouped context es x.stop xs → Grouped context es s (x :: xs)

/-- The unchanged lines from a place on are enough for the context of the change behind them, if there is
one. -/
def Free (context : Nat) (es : List Edit) (s : Nat) : Prop :=
  context ≤ keptFrom es s ∨ ∀ n, s ≤ n → ¬ ChangeAt es n

/-- Behind the context of a hunk there is room for the context of the next one. -/
theorem Apart.free {last : Nat} (apart : Apart context es last) (lt : last < es.length) :
    Free context es (last + 1 + min context (keptFrom es (last + 1))) := by
  have short := keptFrom_le es (last + 1)
  rcases Nat.lt_or_ge (keptFrom es (last + 1)) (es.length - (last + 1)) with less | all
  · have far := apart _ (by omega) (changeAt_keptFrom less)
    left
    rw [keptFrom_add (Nat.min_le_right _ _)]
    omega
  · refine .inr fun n le change => ?_
    have inside := change.lt
    exact not_changeAt_of_lt_keptFrom (k := last + 1) (by omega) (by omega) change

/-- What is shown before a change is the context of its hunk. -/
theorem edits_hunk {before rest all : List Edit} {e : Edit} (whole : before.reverse ++ e :: rest = all)
    (size : Nat) :
    (Extent.mk (before.length - min context before.length) (before.length + 1 + size)).edits all =
      (before.take context).reverse ++ e :: rest.take size := by
  have start : all.drop (before.length - min context before.length) =
      (before.take context).reverse ++ e :: rest := by
    rw [← whole, List.drop_append_of_le_length (by simp), List.drop_reverse,
      Nat.sub_sub_self (Nat.min_le_right _ _), ← List.take_eq_take_min]
  have length : before.length + 1 + size - (before.length - min context before.length) =
      (before.take context).reverse.length + (size + 1) := by
    rw [List.length_reverse, List.length_take]
    omega
  unfold Extent.edits
  rw [start, length, List.take_length_add_append, List.take_succ_cons]

/-- The hunks of a script are its parts in which the changes are grouped. -/
theorem grouped_from (context : Nat) {before es all : List Edit} (whole : before.reverse ++ es = all)
    {s : Nat} (le : s ≤ before.length) (kept : ∀ n, s ≤ n → n < before.length → ¬ ChangeAt all n)
    (room : s = 0 ∨ Free context all s) : ∃ xs, Grouped context all s xs ∧
      hunks context before es = xs.map fun x => Hunk.ofEdits (x.edits all) := by
  fun_induction hunks context before es generalizing s with
  | case1 before =>
    rw [List.append_nil] at whole
    refine ⟨[], .rest fun n after change => ?_, rfl⟩
    have lt := change.lt
    rw [← whole, List.length_reverse] at lt
    exact kept n after lt change
  | case2 before e rest keep ih =>
    have here : ¬ ChangeAt all before.length := fun change =>
      changeAt_zero.mp ((changeAt_behind whole).mp change) keep
    refine ih (by simpa using whole) (by simp; omega) (fun n after less => ?_) room
    rcases Nat.lt_succ_iff_lt_or_eq.mp less with less | rfl
    · exact kept n after less
    · exact here
  | case3 before e rest changes size body =>
    rename_i ih
    have front : all.drop (before.length + 1) = rest := by
      rw [← whole, ← List.drop_drop, ← List.length_reverse, List.drop_left, List.drop_succ_cons,
        List.drop_zero]
    have change : ChangeAt all before.length := (changeAt_behind whole).mpr (changeAt_zero.mpr changes)
    obtain ⟨last, le', closes, close, apart, stop⟩ := hunkSize_stop context change (Nat.lt_succ_self _)
      (fun n more less => by omega) (.inl rfl)
    rw [Nat.succ_eq_add_one, front] at stop
    have lt := closes.lt
    have short := keptFrom_le all (last + 1)
    have length : all.length = before.length + 1 + rest.length := by
      rw [← whole, List.length_append, List.length_reverse, List.length_cons]
      omega
    have most := keptBefore_le all before.length
    have least := le_keptBefore le (by omega) kept
    have lead : min context (keptBefore all before.length) = min context before.length ∧
        min context before.length ≤ before.length - s := by
      rcases room with rfl | enough | quiet
      · omega
      · have far : s + keptFrom all s ≤ before.length :=
          Nat.le_of_not_lt fun inside => not_changeAt_of_lt_keptFrom le inside change
        omega
      · exact absurd change (quiet _ le)
    have passed : (body.reverse ++ before).length = before.length + 1 + size := by
      simp only [body, List.length_append, List.length_reverse, List.length_cons, List.length_take]
      omega
    obtain ⟨xs, grouped, same⟩ := ih (s := before.length + 1 + size) (by simp [body, ← whole])
      (by omega) (fun n after less => by omega) (.inr (stop ▸ apart.free lt))
    refine ⟨⟨before.length - min context before.length, before.length + 1 + size⟩ :: xs, ?_, ?_⟩
    · refine .hunk ?_ ?_ stop kept change closes le' close apart grouped
      · dsimp only
        omega
      · dsimp only
        omega
    · rw [List.map_cons, edits_hunk whole, ← same]

theorem grouped_hunks (context : Nat) (es : List Edit) : ∃ xs, Grouped context es 0 xs ∧
    hunks context [] es = xs.map fun x => Hunk.ofEdits (x.edits es) :=
  grouped_from context (List.nil_append es) (Nat.le_refl 0) (fun _ _ less => (nomatch less)) (.inl rfl)

namespace Grouped

variable {s : Nat} {xs : List Extent}

theorem le_start (grouped : Grouped context es s xs) : ∀ x ∈ xs, s ≤ x.start := by
  induction grouped with
  | rest => exact nofun
  | hunk starts lead trail _ _ _ le _ _ _ ih =>
    intro y member
    rcases List.mem_cons.mp member with rfl | behind
    · exact starts
    · have later := ih y behind
      omega

/-- The context behind the last change of a hunk has no changes. -/
theorem not_changeAt_trail {x : Extent} {last : Nat}
    (trail : x.stop = last + 1 + min context (keptFrom es (last + 1))) (behind : last < k)
    (inside : k < x.stop) : ¬ ChangeAt es k :=
  not_changeAt_of_lt_keptFrom (k := last + 1) behind (by omega)

/-- A change is in one of the parts, and in no other. -/
theorem count_covers (grouped : Grouped context es s xs) (change : ChangeAt es k) (le : s ≤ k) :
    xs.countP (·.Covers k) = 1 := by
  induction grouped with
  | rest kept => exact absurd change (kept k le)
  | @hunk s first last x xs starts lead trail kept opens closes most close apart grouped ih =>
    have start : first ≤ k := Nat.le_of_not_lt fun before => kept k le before change
    rcases Nat.lt_or_ge k x.stop with inside | behind
    · have covers : x.Covers k := ⟨by omega, inside⟩
      have zero : xs.countP (·.Covers k) = 0 := by
        rw [List.countP_eq_zero]
        intro y member covered
        have later := grouped.le_start y member
        have from_y := (of_decide_eq_true covered).1
        omega
      rw [List.countP_cons, zero, if_pos (by simpa using covers)]
    · have outside : ¬ x.Covers k := fun covers => Nat.not_lt.mpr behind covers.2
      rw [List.countP_cons, ih behind, if_neg (by simpa using outside)]

/-- Changes that follow each other are shown together if they are close, and else in different hunks. -/
theorem together_iff (grouped : Grouped context es s xs) (follows : Follows es k m) (le : s ≤ k) :
    (∃ x ∈ xs, x.Covers k ∧ x.Covers m) ↔ m - k - 1 ≤ 2 * context := by
  induction grouped with
  | rest kept => exact absurd follows.left (kept k le)
  | @hunk s first last x xs starts lead trail kept opens closes most close apart grouped ih =>
    have start : first ≤ k := Nat.le_of_not_lt fun before => kept k le before follows.left
    have less := follows.behind
    rcases Nat.lt_or_ge last k with behind | inside
    · have stop : x.stop ≤ k := Nat.le_of_not_lt fun inside =>
        not_changeAt_trail trail behind inside follows.left
      rw [← ih stop]
      constructor
      · rintro ⟨y, member, covers⟩
        rcases List.mem_cons.mp member with rfl | member
        · exact absurd covers.1.2 (Nat.not_lt.mpr stop)
        · exact ⟨y, member, covers⟩
      · rintro ⟨y, member, covers⟩
        exact ⟨y, List.mem_cons_of_mem _ member, covers⟩
    · rcases Nat.lt_or_ge last m with outside | within
      · -- The last change of the hunk is followed by one that is too far away.
        obtain rfl : k = last := by
          refine Nat.le_antisymm inside (Nat.le_of_not_lt fun later => ?_)
          exact follows.between last later outside closes
        have far := apart m outside follows.right
        have stop : x.stop ≤ m := Nat.le_of_not_lt fun inside =>
          not_changeAt_trail trail outside inside follows.right
        refine iff_of_false ?_ (by omega)
        rintro ⟨y, member, covers, covers'⟩
        rcases List.mem_cons.mp member with rfl | member
        · exact absurd covers'.2 (Nat.not_lt.mpr stop)
        · have later := grouped.le_start y member
          have start_y := covers.1
          omega
      · have near := close k m start within follows
        exact iff_of_true ⟨x, List.mem_cons_self, ⟨by omega, by omega⟩, by omega, by omega⟩ near

theorem framed (grouped : Grouped context es s xs) : ∀ x ∈ xs, x.Framed context es := by
  induction grouped with
  | rest => exact nofun
  | @hunk s first last x xs starts lead trail kept opens closes most close apart grouped ih =>
    intro y member
    rcases List.mem_cons.mp member with rfl | member
    · refine ⟨first, last, opens, closes, ⟨by omega, by omega⟩, ⟨by omega, by omega⟩,
        fun k change covers => ?_, by omega, by omega⟩
      refine ⟨Nat.le_of_not_lt fun before => kept k (Nat.le_trans starts covers.1) before change, ?_⟩
      exact Nat.le_of_not_lt fun behind => not_changeAt_trail trail behind covers.2 change
    · exact ih y member

end Grouped

/-- What is made of the edits of a part shows it. -/
theorem Extent.Framed.shows {x : Extent} (framed : x.Framed context es) :
    x.Shows es (Hunk.ofEdits (x.edits es)) := by
  obtain ⟨first, -, change, -, covers, -⟩ := framed
  have inside : x.start < es.length := Nat.lt_of_le_of_lt covers.1 change.lt
  have wide : x.stop - x.start ≠ 0 := by
    have room := Nat.lt_of_le_of_lt covers.1 covers.2
    omega
  have head : (x.edits es).head? = some es[x.start] := by
    rw [edits, List.head?_take, if_neg wide, List.head?_drop, List.getElem?_eq_getElem inside]
  refine ⟨rfl, rfl, rfl, es[x.start], List.getElem?_eq_getElem inside, ?_⟩
  simp [Hunk.ofEdits, head]

/-- The hunks of a diff show parts of its script, one each. Each change is in exactly one of the parts; changes
that follow each other are in the same one exactly if at most twice the context stands between them; and each
starts and ends with the context, or with all unchanged lines up to the next change or the end of the text. -/
theorem hunks_grouped (old new : Bytes) (context : Nat) :
    let es := script (lines old) (lines new)
    ∃ xs : List Extent, List.Forall₂ (fun x h => x.Shows es h) xs (compute old new context).hunks ∧
      (∀ k, ChangeAt es k → xs.countP (·.Covers k) = 1) ∧
      (∀ k m, Follows es k m →
        ((∃ x ∈ xs, x.Covers k ∧ x.Covers m) ↔ m - k - 1 ≤ 2 * context)) ∧
      ∀ x ∈ xs, x.Framed context es := by
  intro es
  obtain ⟨xs, grouped, same⟩ := grouped_hunks context es
  have shown : List.Forall₂ (fun x h => x.Shows es h) xs (compute old new context).hunks := by
    have hunks : (compute old new context).hunks = _ := same
    rw [hunks, List.forall₂_map_right_iff, List.forall₂_same]
    exact fun x member => (grouped.framed x member).shows
  exact ⟨xs, shown, fun k change => grouped.count_covers change (Nat.zero_le k),
    fun k m follows => grouped.together_iff follows (Nat.zero_le k), grouped.framed⟩

/-- With one line of context, changes with two unchanged lines between them are shown together, and those with
three are not. -/
example :
    let old := Text.utf8 "a\nb\nc\nd\ne\nf\ng\nh\n"
    let new := Text.utf8 "a\nB\nc\nd\nf\ng\nh\ni\n"
    (compute old new 1).hunks =
      [{ oldStart := 1, oldCount := 6, newStart := 1, newCount := 5
         lines := [(.keep, Text.utf8 "a"), (.remove, Text.utf8 "b"), (.add, Text.utf8 "B"), (.keep, Text.utf8 "c"),
           (.keep, Text.utf8 "d"), (.remove, Text.utf8 "e"), (.keep, Text.utf8 "f")] },
       { oldStart := 8, oldCount := 1, newStart := 7, newCount := 2
         lines := [(.keep, Text.utf8 "h"), (.add, Text.utf8 "i")] }] := by
  decide +kernel

/-! ## Texts without a difference -/

theorem commonLead_self (as : List Bytes) : commonLead as as = as.length := by
  induction as with
  | nil => rfl
  | cons a as ih => rw [commonLead, if_pos rfl, ih, List.length_cons]

theorem keep_kept {i j : Nat} {as : List Bytes} : ∀ e ∈ kept i j as, e.kind = .keep := by
  induction as generalizing i j with
  | nil => exact nofun
  | cons a as ih =>
    intro e member
    rcases List.mem_cons.mp member with rfl | behind
    · rfl
    · exact ih e behind

/-- The script of texts with the same lines keeps all of them. -/
theorem script_self (as : List Bytes) : script as as = kept 1 1 as := by
  unfold script
  simp [commonLead_self, kept, walk]

/-- There is a hunk exactly if some line is changed, so exactly if the texts differ in their lines. -/
theorem changed_iff_lines (old new : Bytes) (context : Nat) :
    (compute old new context).changed = true ↔ lines old ≠ lines new := by
  obtain ⟨xs, grouped, same⟩ := grouped_hunks context (script (lines old) (lines new))
  have aligns := aligns_script (lines old) (lines new)
  have hunks : (compute old new context).hunks = _ := same
  rw [Result.changed, hunks, Bool.not_eq_true', List.isEmpty_eq_false_iff]
  constructor
  · intro nonempty equal
    obtain ⟨x, member⟩ := List.exists_mem_of_ne_nil _ nonempty
    obtain ⟨y, listed, -⟩ := List.mem_map.mp member
    obtain ⟨first, -, ⟨e, found, changes⟩, -⟩ := grouped.framed y listed
    rw [equal, script_self] at found
    exact changes (keep_kept e (List.mem_of_getElem? found))
  · intro differ empty
    refine differ (aligns.same fun e member => ?_)
    obtain ⟨k, found⟩ := List.mem_iff_getElem?.mp member
    refine Decidable.byContradiction fun changes => ?_
    have one := grouped.count_covers ⟨e, found, changes⟩ (Nat.zero_le k)
    rw [List.map_eq_nil_iff.mp empty] at one
    cases one

/-- A text whose last line has no newline at its end. -/
def Unended (text : Bytes) : Prop := text ≠ [] ∧ text.getLast? ≠ some 0x0A

/-- The second text is the first one with a newline at the end of its last line. -/
def Ended (text ended : Bytes) : Prop := Unended text ∧ ended = text ++ [0x0A]

theorem splitOn_injective {old new : Bytes} (same : old.splitOn 0x0A = new.splitOn 0x0A) : old = new := by
  calc old = [0x0A].intercalate (old.splitOn 0x0A) := (List.intercalate_splitOn 0x0A).symm
    _ = [0x0A].intercalate (new.splitOn 0x0A) := by rw [same]
    _ = new := List.intercalate_splitOn 0x0A

theorem lines_ended (text : Bytes) : lines (text ++ [0x0A]) = text.splitOn 0x0A := by
  have parts : (text ++ [0x0A]).splitOn 0x0A = text.splitOn 0x0A ++ [[]] := by
    rw [List.splitOn_append_cons_self, List.splitOn_nil]
  unfold lines
  split
  · rename_i empty
    simp at empty
  · rw [parts]
    simp

theorem lines_unended {text : Bytes} (unended : Unended text) : lines text = text.splitOn 0x0A := by
  obtain ⟨nonempty, last⟩ := unended
  obtain ⟨front, b, rfl⟩ := (List.eq_nil_or_concat text).resolve_left nonempty
  rw [List.concat_eq_append] at last ⊢
  have other : (0x0A : UInt8) ∉ [b] := by simpa [eq_comm] using last
  unfold lines
  split
  · rename_i empty
    simp at empty
  · rw [splitOn_append_of_not_mem front other]
    simp

/-- A text is empty, has an open last line, or ends in a newline. -/
theorem text_cases (text : Bytes) : text = [] ∨ Unended text ∨ ∃ front, text = front ++ [0x0A] := by
  rcases List.eq_nil_or_concat text with empty | ⟨front, b, rfl⟩
  · exact .inl empty
  · rw [List.concat_eq_append]
    by_cases newline : b = 0x0A
    · exact .inr (.inr ⟨front, by rw [newline]⟩)
    · exact .inr (.inl ⟨by simp, by simpa using newline⟩)

theorem lines_eq_nil_iff (text : Bytes) : lines text = [] ↔ text = [] := by
  rcases text_cases text with rfl | unended | ⟨front, rfl⟩
  · exact iff_of_true rfl rfl
  · rw [lines_unended unended]
    exact iff_of_false (List.splitOn_ne_nil _ _) unended.1
  · rw [lines_ended]
    exact iff_of_false (List.splitOn_ne_nil _ _) (by simp)

/-- Two texts have the same lines only if they are the same, a newline at the end of the last line apart. -/
theorem lines_eq_iff (old new : Bytes) :
    lines old = lines new ↔ old = new ∨ Ended old new ∨ Ended new old := by
  constructor
  · intro same
    rcases text_cases old with rfl | unended | ⟨front, rfl⟩
    · exact .inl ((lines_eq_nil_iff new).mp same.symm).symm
    · rw [lines_unended unended] at same
      rcases text_cases new with rfl | unended' | ⟨front, rfl⟩
      · exact absurd same (List.splitOn_ne_nil _ _)
      · rw [lines_unended unended'] at same
        exact .inl (splitOn_injective same)
      · rw [lines_ended] at same
        obtain rfl := splitOn_injective same
        exact .inr (.inl ⟨unended, rfl⟩)
    · rw [lines_ended] at same
      rcases text_cases new with rfl | unended' | ⟨front', rfl⟩
      · exact absurd same (List.splitOn_ne_nil _ _)
      · rw [lines_unended unended'] at same
        obtain rfl := splitOn_injective same
        exact .inr (.inr ⟨unended', rfl⟩)
      · rw [lines_ended] at same
        exact .inl (by rw [splitOn_injective same])
  · rintro (rfl | ⟨unended, rfl⟩ | ⟨unended, rfl⟩)
    · rfl
    · rw [lines_ended, lines_unended unended]
    · rw [lines_ended, lines_unended unended]

/-- There is a text to show exactly if there is a hunk. -/
theorem unified_ne_nil_iff (r : Result) (oldName newName : String) :
    r.unified oldName newName ≠ [] ↔ r.changed = true := by
  cases changed : r.changed with
  | false => simp [Result.unified, changed]
  | true => simp [unified_eq changed]

/-- A diff is empty exactly if the texts are the same, or differ only in whether a newline ends the last
line. -/
theorem changed_iff (old new : Bytes) (context : Nat) :
    ((compute old new context).changed = true ↔ old ≠ new ∧ ¬ Ended old new ∧ ¬ Ended new old) ∧
      ∀ oldName newName, (compute old new context).unified oldName newName ≠ [] ↔
        (compute old new context).changed = true := by
  refine ⟨?_, unified_ne_nil_iff _⟩
  rw [changed_iff_lines, ne_eq, lines_eq_iff, not_or, not_or]

/-- A newline at the end of the only line makes another text, and no difference. -/
theorem unchanged_newline : ([0x61] : Bytes) ≠ [0x61, 0x0A] ∧
    (compute [0x61] [0x61, 0x0A] 3).changed = false ∧
    ∀ oldName newName, (compute [0x61] [0x61, 0x0A] 3).unified oldName newName = [] := by
  have same : (compute [0x61] [0x61, 0x0A] 3).changed = false := by
    rw [← Bool.not_eq_true, changed_iff_lines]
    exact fun differ => differ rfl
  refine ⟨by decide, same, fun oldName newName => ?_⟩
  rw [Result.unified, same]
  rfl

end Desugar.Diff

import Desugar.Diagnostic
import Mathlib.Data.List.Pairwise

/-!
# Collected diagnostics

Diagnostics are sorted by the file and the offset that they start at, and those at one place keep their order.
There is one such order of a list only, and it is told by the rows of diagnostics at each place. So it does
not matter how diagnostics are grouped while they are collected: lists of lists come out as the sorted list of
all that is in them, whatever was sorted before.
-/
namespace Desugar

theorem Position.before_eq_false_iff {p q : Position} :
    q.before p = false ↔ p.file < q.file ∨ (p.file = q.file ∧ p.offset ≤ q.offset) := by
  unfold before
  by_cases same : q.file = p.file
  · simp [same]
  · have other : p.file ≠ q.file := fun equal => same equal.symm
    simp only [same, if_false, decide_eq_false_iff_not, other, false_and, or_false]
    constructor
    · intro not
      exact String.not_le.mp fun le => other (String.le_antisymm (String.not_lt.mp not) le)
    · exact fun less => String.lt_asymm less

/-- Positions neither of which is before the other one name the same place. -/
theorem Position.eq_place {p q : Position} (first : p.before q = false) (last : q.before p = false) :
    p.file = q.file ∧ p.offset = q.offset := by
  rw [before_eq_false_iff] at first last
  rcases first with less | ⟨file, le⟩
  · rcases last with greater | ⟨file, -⟩
    · exact absurd greater (String.lt_asymm less)
    · exact absurd (file ▸ less) (String.lt_irrefl _)
  · rcases last with less | ⟨-, ge⟩
    · exact absurd (file ▸ less) (String.lt_irrefl _)
    · exact ⟨file.symm, Int.le_antisymm ge le⟩

theorem Position.not_before_self (p : Position) : p.before p = false :=
  before_eq_false_iff.mpr (.inr ⟨rfl, Int.le_refl _⟩)

namespace Diagnostic

/-- The files and offsets that diagnostics start at order them. -/
theorem sort_order :
    (∀ d e f : Diagnostic, !(e.span.start.before d.span.start) → !(f.span.start.before e.span.start) →
      !(f.span.start.before d.span.start)) ∧
    ∀ d e : Diagnostic, (!(e.span.start.before d.span.start) || !(d.span.start.before e.span.start)) := by
  simp only [Bool.not_eq_true', Bool.or_eq_true, Position.before_eq_false_iff]
  constructor
  · rintro d e f (first | ⟨first, le⟩) (second | ⟨second, le'⟩)
    · exact .inl (String.lt_trans first second)
    · exact .inl (second ▸ first)
    · exact .inl (first ▸ second)
    · exact .inr ⟨first.trans second, Int.le_trans le le'⟩
  · intro d e
    by_cases less : d.span.start.file < e.span.start.file
    · exact .inl (.inl less)
    · by_cases same : d.span.start.file = e.span.start.file
      · rcases Int.le_total d.span.start.offset e.span.start.offset with le | le
        · exact .inl (.inr ⟨same, le⟩)
        · exact .inr (.inr ⟨same.symm, le⟩)
      · exact .inr (.inl (String.not_le.mp fun le =>
          same (String.le_antisymm le (String.not_lt.mp less))))

/-- Diagnostics are sorted by the file and the offset that they start at, and those at one place keep their
order. -/
theorem sort_stable (ds : List Diagnostic) :
    (sort ds).Perm ds ∧ (sort ds).Pairwise (fun d e => e.span.start.before d.span.start = false) ∧
      ∀ p : Position,
        (sort ds).filter (fun d => d.span.start.file = p.file ∧ d.span.start.offset = p.offset) =
          ds.filter fun d => d.span.start.file = p.file ∧ d.span.start.offset = p.offset := by
  obtain ⟨trans, total⟩ := sort_order
  have perm : (sort ds).Perm ds := List.mergeSort_perm ds _
  refine ⟨perm, ?_, fun p => ?_⟩
  · exact (List.pairwise_mergeSort trans total ds).imp fun le => by simpa using le
  · -- Those at one place are in order as they stand, so sorting keeps them in a row.
    let here (d : Diagnostic) : Bool := d.span.start.file = p.file ∧ d.span.start.offset = p.offset
    have row : (ds.filter here).Pairwise fun d e => !(e.span.start.before d.span.start) := by
      refine List.pairwise_of_forall_mem_list fun d member e member' => ?_
      have first := (List.mem_filter.mp member).2
      have second := (List.mem_filter.mp member').2
      simp only [here, decide_eq_true_eq] at first second
      rw [Bool.not_eq_true', Position.before_eq_false_iff]
      exact .inr ⟨first.1.trans second.1.symm, Int.le_of_eq (first.2.trans second.2.symm)⟩
    have kept := (List.sublist_mergeSort trans total row List.filter_sublist).filter here
    rw [List.filter_filter] at kept
    simp only [Bool.and_self] at kept
    exact (kept.eq_of_length (perm.filter here).length_eq.symm).symm

/-! ## Rows of diagnostics at one place -/

variable {ds es : List Diagnostic}

/-- Those that start at a place, in their order. -/
def row (p : Position) (ds : List Diagnostic) : List Diagnostic :=
  ds.filter fun d => d.span.start.file = p.file ∧ d.span.start.offset = p.offset

theorem mem_row {p : Position} {d : Diagnostic} : d ∈ row p ds ↔
    d ∈ ds ∧ d.span.start.file = p.file ∧ d.span.start.offset = p.offset := by
  simp [row]

@[simp] theorem row_nil (p : Position) : row p [] = [] := rfl

theorem row_cons (p : Position) (d : Diagnostic) (ds : List Diagnostic) : row p (d :: ds) =
    if d.span.start.file = p.file ∧ d.span.start.offset = p.offset then d :: row p ds else row p ds := by
  simp [row, List.filter_cons]

@[simp] theorem row_append (p : Position) (ds es : List Diagnostic) :
    row p (ds ++ es) = row p ds ++ row p es := List.filter_append ..

@[simp] theorem row_sort (p : Position) (ds : List Diagnostic) : row p (sort ds) = row p ds :=
  (sort_stable ds).2.2 p

theorem subset_of_rows (rows : ∀ p, row p ds = row p es) : ds ⊆ es := by
  intro d member
  have here : d ∈ row d.span.start ds := mem_row.mpr ⟨member, rfl, rfl⟩
  exact (mem_row.mp (rows d.span.start ▸ here)).1

/-- Of the lists with the same rows, one is in order. -/
theorem eq_of_rows (ordered : ds.Pairwise fun d e => e.span.start.before d.span.start = false)
    (ordered' : es.Pairwise fun d e => e.span.start.before d.span.start = false)
    (rows : ∀ p, row p ds = row p es) : ds = es := by
  induction ds generalizing es with
  | nil => exact (List.subset_nil.mp (subset_of_rows fun p => (rows p).symm)).symm
  | cons d ds ih =>
    cases es with
    | nil => exact List.subset_nil.mp (subset_of_rows rows)
    | cons e es =>
      rw [List.pairwise_cons] at ordered ordered'
      have first : e.span.start.before d.span.start = false := by
        rcases List.mem_cons.mp (subset_of_rows (fun p => (rows p).symm) List.mem_cons_self) with rfl | later
        · exact Position.not_before_self _
        · exact ordered.1 e later
      have last : d.span.start.before e.span.start = false := by
        rcases List.mem_cons.mp (subset_of_rows rows List.mem_cons_self) with rfl | later
        · exact Position.not_before_self _
        · exact ordered'.1 d later
      -- Neither head is before the other one, so both begin the row of one place.
      obtain ⟨file, offset⟩ := Position.eq_place first last
      have heads := rows d.span.start
      rw [row_cons, row_cons, if_pos ⟨rfl, rfl⟩, if_pos ⟨file, offset⟩] at heads
      obtain rfl := (List.cons.inj heads).1
      refine congrArg (d :: ·) (ih ordered.2 ordered'.2 fun p => ?_)
      have whole := rows p
      rw [row_cons, row_cons] at whole
      split at whole
      · exact (List.cons.inj whole).2
      · exact whole

theorem sort_congr (rows : ∀ p, row p ds = row p es) : sort ds = sort es :=
  eq_of_rows (sort_stable ds).2.1 (sort_stable es).2.1 fun p => by rw [row_sort, row_sort, rows p]

end Diagnostic

namespace Failure

theorem ofDiagnostics_eq_some_iff {ds : List Diagnostic} {f : Failure} :
    ofDiagnostics ds = some f ↔ ds ≠ [] ∧ f = .diagnostics (Diagnostic.sort ds) := by
  cases ds with
  | nil => simp [ofDiagnostics]
  | cons d ds => simp [ofDiagnostics, eq_comm]

theorem ofDiagnostics_eq_none_iff {ds : List Diagnostic} : ofDiagnostics ds = none ↔ ds = [] := by
  cases ds with
  | nil => simp [ofDiagnostics]
  | cons d ds => simp [ofDiagnostics]

theorem sort_ne_nil {ds : List Diagnostic} (any : ds ≠ []) : Diagnostic.sort ds ≠ [] := by
  intro empty
  have length := congrArg List.length empty
  simp [Diagnostic.sort] at length
  exact any length

/-- What has been collected, with one outcome more. What went well adds nothing. -/
def collect (ds : List Diagnostic) : Option Failure → List Diagnostic
  | none => ds
  | some f => ds ++ f.toDiagnostics

/-- A failure told in contexts, the outermost first. -/
def inContexts (contexts : List String) (f : Failure) : Failure := contexts.foldr .within f

theorem diagnostics?_inContexts (contexts : List String) (f : Failure) :
    (f.inContexts contexts).diagnostics? = f.diagnostics? := by
  induction contexts with
  | nil => rfl
  | cons context contexts ih => exact ih

end Failure

/-! ## Lists of lists -/

/-- What is collected into lists, and those again into lists: diagnostics, plain failures and lists of them,
each of them told in contexts or as it is. -/
inductive Gathering where
  | diagnostic (contexts : List String) (d : Diagnostic)
  | plain (contexts : List String) (message : String)
  | list (contexts : List String) (members : List Gathering)

namespace Gathering

mutual

/-- What is passed on. A list passes on what its members have added to it one after the other, and nothing if
there is nothing in it. -/
def failure : Gathering → Option Failure
  | diagnostic contexts d => some (.inContexts contexts (.diagnostic d))
  | plain contexts message => some (.inContexts contexts (.plain message))
  | list contexts members =>
    (Failure.ofDiagnostics (collected [] members)).map (Failure.inContexts contexts)

/-- What a list holds when some more members have been added to it. -/
def collected (ds : List Diagnostic) : List Gathering → List Diagnostic
  | [] => ds
  | member :: members => collected (Failure.collect ds member.failure) members

end

mutual

/-- The diagnostics at the leaves, from left to right. A plain failure is about the expansion, and at no
place. -/
def leaves : Gathering → List Diagnostic
  | diagnostic _ d => [d]
  | plain contexts message =>
    [.wrap .expansion .none (Failure.inContexts contexts (.plain message)).message]
  | list _ members => leavesOf members

def leavesOf : List Gathering → List Diagnostic
  | [] => []
  | member :: members => member.leaves ++ leavesOf members

end

open Diagnostic (row)

mutual

/-- What is passed on adds the rows of the leaves to a list. -/
theorem row_collect (p : Position) (ds : List Diagnostic) :
    (t : Gathering) → row p (Failure.collect ds t.failure) = row p ds ++ row p t.leaves
  | diagnostic contexts d => by
    simp [failure, leaves, Failure.collect, Failure.toDiagnostics, Failure.diagnostics?_inContexts,
      Failure.diagnostics?]
  | plain contexts message => by
    simp [failure, leaves, Failure.collect, Failure.toDiagnostics, Failure.diagnostics?_inContexts,
      Failure.diagnostics?]
  | list contexts members => by
    have inner := row_collected p [] members
    rw [Diagnostic.row_nil, List.nil_append] at inner
    rw [failure, leaves, ← inner]
    cases failed : Failure.ofDiagnostics (collected [] members) with
    | none => simp [Failure.collect, Failure.ofDiagnostics_eq_none_iff.mp failed]
    | some f =>
      obtain ⟨-, rfl⟩ := Failure.ofDiagnostics_eq_some_iff.mp failed
      simp [Failure.collect, Failure.toDiagnostics, Failure.diagnostics?_inContexts, Failure.diagnostics?]

theorem row_collected (p : Position) (ds : List Diagnostic) :
    (members : List Gathering) → row p (collected ds members) = row p ds ++ row p (leavesOf members)
  | [] => by simp [collected, leavesOf]
  | member :: members => by
    rw [collected, row_collected p _ members, row_collect p ds member, leavesOf, Diagnostic.row_append,
      List.append_assoc]

end

/-- Whatever has been grouped and sorted below a list, it passes on nothing if there is no leaf below it, and
otherwise the leaves, each of them once, by file and offset, and from left to right where these are the
same. -/
theorem grouping_irrelevant (members : List Gathering) :
    (list [] members).failure = (if leavesOf members = [] then none
      else some (.diagnostics (Diagnostic.sort (leavesOf members)))) ∧
    (Diagnostic.sort (leavesOf members)).Perm (leavesOf members) ∧
    (Diagnostic.sort (leavesOf members)).Pairwise (fun d e => d.span.start.file < e.span.start.file ∨
      d.span.start.file = e.span.start.file ∧ d.span.start.offset ≤ e.span.start.offset) ∧
    ∀ (file : String) (offset : Int),
      (Diagnostic.sort (leavesOf members)).filter
          (fun d => d.span.start.file = file ∧ d.span.start.offset = offset) =
        (leavesOf members).filter fun d => d.span.start.file = file ∧ d.span.start.offset = offset := by
  obtain ⟨perm, ordered, stable⟩ := Diagnostic.sort_stable (leavesOf members)
  refine ⟨?_, perm, ordered.imp Position.before_eq_false_iff.mp, fun file offset => stable ⟨file, 0, 0, offset⟩⟩
  have rows (p : Position) : row p (collected [] members) = row p (leavesOf members) := row_collected p [] members
  have nothing : collected [] members = [] ↔ leavesOf members = [] := by
    constructor
    · intro empty
      rw [empty] at rows
      exact List.subset_nil.mp (Diagnostic.subset_of_rows fun p => (rows p).symm)
    · intro empty
      rw [empty] at rows
      exact List.subset_nil.mp (Diagnostic.subset_of_rows rows)
  rw [failure]
  split
  · rename_i empty
    rw [Failure.ofDiagnostics_eq_none_iff.mpr (nothing.mpr empty)]
    rfl
  · rename_i any
    rw [Failure.ofDiagnostics_eq_some_iff.mpr ⟨fun empty => any (nothing.mp empty), rfl⟩,
      Diagnostic.sort_congr rows]
    rfl

/-- A plain failure in an inner list comes before diagnostics of files, and these before those of later files. -/
example :
    let late : Diagnostic := { category := .marker, span := .point ⟨"b.sgo", 1, 2, 1⟩, message := "late" }
    let early : Diagnostic := { category := .grammar, span := .point ⟨"a.sgo", 1, 8, 7⟩, message := "early" }
    let again : Diagnostic := { category := .lexical, span := .point ⟨"a.sgo", 1, 8, 7⟩, message := "again" }
    (list [] [.list ["outer"] [.diagnostic [] late, .plain [] "open x: no such file"], .diagnostic [] early,
        .list [] [], .diagnostic ["inner"] again]).failure.bind Failure.diagnostics? =
      some [.wrap .expansion .none "open x: no such file", early, again, late] := by
  cbv

end Gathering
end Desugar

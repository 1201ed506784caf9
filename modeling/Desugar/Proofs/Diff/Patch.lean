import Desugar.Diff
import Desugar.Proofs.Diff.Alignment

/-!
# Hunks and patches

A script is cut into hunks, and the hunks are what a patch is made of.
-/

/-!
## Hunks are cut out of a script

Hunks are runs of a script, one behind the other, and all changes are in them: what is left out is kept.
Hunks cannot overlap because a hunk ends after some kept lines only where more than twice as many
stand before the next change: as many as it takes are still left for the next hunk.
-/
namespace Desugar.Diff

/-- Hunks that are cut out of a script, from left to right, with kept lines between them. -/
inductive Cut : List Edit → List Hunk → Prop where
  | rest {es : List Edit} (kept : ∀ e ∈ es, e.kind = .keep) : Cut es []
  | hunk {gap body es : List Edit} {hs : List Hunk} (kept : ∀ e ∈ gap, e.kind = .keep)
      (nonempty : body ≠ []) : Cut es hs → Cut (gap ++ body ++ es) (Hunk.ofEdits body :: hs)

/-- A hunk is made of some edits of the script. -/
theorem Cut.mem {es : List Edit} {hs : List Hunk} (cut : Cut es hs) {h : Hunk} (member : h ∈ hs) :
    ∃ body, body ≠ [] ∧ (∀ e ∈ body, e ∈ es) ∧ h = Hunk.ofEdits body := by
  induction cut with
  | rest => cases member
  | @hunk gap body es hs _ nonempty _ ih =>
    rcases List.mem_cons.mp member with rfl | behind
    · refine ⟨body, nonempty, fun e inside => ?_, rfl⟩
      simp [inside]
    · obtain ⟨body', nonempty', inside, same⟩ := ih behind
      refine ⟨body', nonempty', fun e first => ?_, same⟩
      simp [inside e first]

/-- Kept lines at the front of a script. -/
def frontRun (es : List Edit) : List Edit := es.takeWhile (·.kind = .keep)

/-- There is no change, or with `n` kept lines before the script enough of them stand before the first
one. -/
def Room (context n : Nat) (es : List Edit) : Prop :=
  (∀ e ∈ es, e.kind = .keep) ∨ context ≤ n + (frontRun es).length

theorem frontRun_keep {e : Edit} {es : List Edit} (keep : e.kind = .keep) :
    frontRun (e :: es) = e :: frontRun es := by
  simp [frontRun, keep]

theorem frontRun_change {e : Edit} {es : List Edit} (change : e.kind ≠ .keep) :
    frontRun (e :: es) = [] := by
  simp [frontRun, change]

theorem Room.cons {context n : Nat} {e : Edit} {es : List Edit} (room : Room context n (e :: es))
    (keep : e.kind = .keep) : Room context (n + 1) es := by
  rcases room with kept | enough
  · exact .inl fun f member => kept f (List.mem_cons_of_mem _ member)
  · rw [frontRun_keep keep, List.length_cons] at enough
    exact .inr (by omega)

theorem Room.of_change {context n : Nat} {e : Edit} {es : List Edit} (room : Room context n (e :: es))
    (change : e.kind ≠ .keep) : context ≤ n := by
  rcases room with kept | enough
  · exact absurd (kept e List.mem_cons_self) change
  · rw [frontRun_change change] at enough
    exact enough

theorem frontRun_drop {es : List Edit} {n : Nat} (le : n ≤ (frontRun es).length) :
    frontRun (es.drop n) = (frontRun es).drop n := by
  induction es generalizing n with
  | nil => simp [frontRun]
  | cons e es ih =>
    cases n with
    | zero => rfl
    | succ n =>
      by_cases keep : e.kind = .keep
      · rw [frontRun_keep keep, List.length_cons] at le
        rw [frontRun_keep keep, List.drop_succ_cons, List.drop_succ_cons, ih (by omega)]
      · rw [frontRun_change keep] at le
        cases le

theorem keep_of_frontRun {es : List Edit} (all : (frontRun es).length = es.length) :
    ∀ e ∈ es, e.kind = .keep := by
  induction es with
  | nil => exact fun _ member => nomatch member
  | cons e es ih =>
    by_cases keep : e.kind = .keep
    · rw [frontRun_keep keep, List.length_cons, List.length_cons, Nat.add_right_cancel_iff] at all
      intro f member
      rcases List.mem_cons.mp member with rfl | behind
      · exact keep
      · exact ih all f behind
    · rw [frontRun_change keep] at all
      cases all

/-- Behind a hunk there is room for the context of the next one. -/
theorem room_hunkSize (context : Nat) (es : List Edit) :
    Room context 0 (es.drop (hunkSize context es)) := by
  fun_induction hunkSize context es with
  | case1 => exact .inl fun e member => nomatch member
  | case2 e rest change ih => exact ih
  | case3 e rest keep run closes =>
    rw [ne_eq, Decidable.not_not] at keep
    have front : (frontRun (e :: rest)).length = run + 1 := by
      rw [frontRun_keep keep]
      rfl
    rcases closes with all | long
    · have kept : ∀ f ∈ e :: rest, f.kind = .keep := by
        apply keep_of_frontRun
        rw [front, all, List.length_cons]
      exact .inl fun f member => kept f (List.mem_of_mem_drop member)
    · have le : min context (rest.length + 1) ≤ (frontRun (e :: rest)).length := by omega
      right
      rw [frontRun_drop le, List.length_drop]
      omega
  | case4 e rest keep run goesOn ih =>
    rw [Nat.add_right_comm, List.drop_succ_cons, ← List.drop_drop]
    exact ih

/-- The context before a change is taken from the kept lines since the last hunk. -/
theorem take_context {context : Nat} {free passed : List Edit}
    (enough : passed = [] ∨ context ≤ free.length) :
    ((free.reverse ++ passed).take context).reverse = free.drop (free.length - context) := by
  have taken : (free.reverse ++ passed).take context = free.reverse.take context := by
    rcases enough with rfl | le
    · rw [List.append_nil]
    · exact List.take_append_of_le_length (by rwa [List.length_reverse])
  rw [taken, List.take_reverse, List.reverse_reverse]

/-- Hunks are cut out of a script; `free` are the kept lines since the last hunk. -/
theorem cut_from (context : Nat) (es free passed : List Edit) (kept : ∀ e ∈ free, e.kind = .keep)
    (room : passed = [] ∨ Room context free.length es) :
    Cut (free ++ es) (hunks context (free.reverse ++ passed) es) := by
  induction n : es.length using Nat.strongRecOn generalizing es free passed with
  | ind n ih =>
    cases es with
    | nil =>
      rw [hunks, List.append_nil]
      exact .rest kept
    | cons e rest =>
      rw [List.length_cons] at n
      rw [hunks]
      by_cases keep : e.kind = .keep
      · rw [if_pos keep]
        have whole := ih rest.length (by omega) rest (free ++ [e]) passed (by
          intro f member
          rcases List.mem_append.mp member with old | new
          · exact kept f old
          · rw [List.mem_singleton.mp new]
            exact keep) (by
          rcases room with empty | room
          · exact .inl empty
          · rw [List.length_append]
            exact .inr (room.cons keep)) rfl
        simpa using whole
      · rw [if_neg keep]
        dsimp only
        have enough := room.imp_right fun room => room.of_change keep
        have behind := ih (rest.drop (hunkSize context rest)).length
          (by rw [List.length_drop]; omega) _ []
          ((e :: rest.take (hunkSize context rest)).reverse ++ (free.reverse ++ passed))
          (List.forall_mem_nil _) (.inr (room_hunkSize context rest)) rfl
        have whole : free ++ e :: rest = free.take (free.length - context) ++
            (free.drop (free.length - context) ++ e :: rest.take (hunkSize context rest)) ++
              ([] ++ rest.drop (hunkSize context rest)) := by
          rw [List.nil_append, ← List.append_assoc (List.take _ _), List.take_append_drop,
            List.append_assoc, List.cons_append, List.take_append_drop]
        rw [whole, take_context enough]
        exact .hunk (fun f member => kept f (List.mem_of_mem_take member)) (by simp) behind

/-- The computed hunks are cut out of the script. -/
theorem cut_hunks (context : Nat) (es : List Edit) : Cut es (hunks context [] es) :=
  cut_from context es [] [] (List.forall_mem_nil _) (.inl rfl)

end Desugar.Diff

/-!
## Patches

A patch is a list of chunks, each with the range of lines that it names in either text. The chunk that a
hunk is written as names an empty range by the line before it. A chunk is applied where its range is:
the lines before it are copied, its old lines must be there, and its new lines take their place. The
chunks of a computed diff fit both texts, and the patch leads from one text to the other and back.
-/
namespace Desugar.Diff

structure Chunk where
  oldStart : Nat
  oldCount : Nat
  newStart : Nat
  newCount : Nat
  lines : List (Kind × Bytes)
  deriving DecidableEq, Repr

/-- The kind of a line if the two texts are exchanged. -/
def Kind.opposite : Kind → Kind
  | keep => keep
  | add => remove
  | remove => add

namespace Chunk

/-- How many lines stand before a range: an empty one is named by the line before it. -/
def before (start count : Nat) : Nat := if count = 0 then start else start - 1

def oldBefore (c : Chunk) : Nat := before c.oldStart c.oldCount

def newBefore (c : Chunk) : Nat := before c.newStart c.newCount

/-- Kept and removed lines. -/
def old (c : Chunk) : List Bytes := side .add c.lines

/-- Kept and added lines. -/
def new (c : Chunk) : List Bytes := side .remove c.lines

/-- The chunk that leads back. -/
def reverse (c : Chunk) : Chunk :=
  ⟨c.newStart, c.newCount, c.oldStart, c.oldCount, c.lines.map fun (kind, line) => (kind.opposite, line)⟩

/-- The lines of a text in a range, if the text has that many. -/
def IsRange (start count : Nat) (part whole : List Bytes) : Prop :=
  (count = 0 ∨ 1 ≤ start) ∧ before start count + count ≤ whole.length ∧
    part = (whole.drop (before start count)).take count

/-- The chunk's lines are those of the texts in the ranges that it names. -/
def Fits (old new : List Bytes) (c : Chunk) : Prop :=
  IsRange c.oldStart c.oldCount c.old old ∧ IsRange c.newStart c.newCount c.new new

/-- A chunk ends in both texts before another one starts. -/
def Ahead (c d : Chunk) : Prop :=
  c.oldBefore + c.oldCount ≤ d.oldBefore ∧ c.newBefore + c.newCount ≤ d.newBefore

end Chunk

/-- Applies chunks to the lines behind the first `passed` ones. -/
def applyFrom (passed : Nat) : List Chunk → List Bytes → Option (List Bytes)
  | [], ls => some ls
  | c :: cs, ls =>
    let copied := c.oldBefore - passed
    if passed ≤ c.oldBefore ∧ copied ≤ ls.length ∧ c.old <+: ls.drop copied then
      (applyFrom (c.oldBefore + c.old.length) cs (ls.drop (copied + c.old.length))).map
        fun rest => ls.take copied ++ c.new ++ rest
    else none

/-- Applies a patch to a text. -/
def apply (cs : List Chunk) (ls : List Bytes) : Option (List Bytes) := applyFrom 0 cs ls

/-- The start that is written for a range: that of the line before an empty one. -/
def writtenStart (start count : Nat) : Nat := if count = 0 then start - 1 else start

/-- A hunk as it is written. -/
def Hunk.chunk (h : Hunk) : Chunk :=
  ⟨writtenStart h.oldStart h.oldCount, h.oldCount, writtenStart h.newStart h.newCount, h.newCount,
    h.lines⟩

theorem before_writtenStart (i count : Nat) : Chunk.before (writtenStart (i + 1) count) count = i := by
  unfold Chunk.before writtenStart
  by_cases zero : count = 0
  · simp [zero]
  · simp [zero]

theorem writtenStart_pos (i count : Nat) : count = 0 ∨ 1 ≤ writtenStart (i + 1) count := by
  unfold writtenStart
  by_cases zero : count = 0
  · exact .inl zero
  · rw [if_neg zero]
    exact .inr (by omega)

/-- What the chunk of a hunk tells, where the hunk's edits align some lines. -/
structure Chunk.Tells (c : Chunk) (i j : Nat) (as bs : List Bytes) : Prop where
  oldBefore : c.oldBefore = i
  newBefore : c.newBefore = j
  oldCount : c.oldCount = as.length
  newCount : c.newCount = bs.length
  old : c.old = as
  new : c.new = bs
  oldStart : c.oldCount = 0 ∨ 1 ≤ c.oldStart
  newStart : c.newCount = 0 ∨ 1 ≤ c.newStart

theorem chunk_told {i j : Nat} {as bs : List Bytes} {es : List Edit} (aligns : Aligns i j as bs es)
    (nonempty : es ≠ []) : (Hunk.ofEdits es).chunk.Tells i j as bs := by
  obtain ⟨e, rest, rfl⟩ := List.exists_cons_of_ne_nil nonempty
  obtain ⟨old, new⟩ := aligns.head rfl
  obtain ⟨oldLines, newLines⟩ := aligns.sides
  have oldStart : (Hunk.ofEdits (e :: rest)).oldStart = i + 1 := old
  have newStart : (Hunk.ofEdits (e :: rest)).newStart = j + 1 := new
  have oldCount : (Hunk.ofEdits (e :: rest)).oldCount = as.length := by
    rw [← oldLines, length_side]
    rfl
  have newCount : (Hunk.ofEdits (e :: rest)).newCount = bs.length := by
    rw [← newLines, length_side]
    rfl
  constructor
  · simp only [Chunk.oldBefore, Hunk.chunk, oldStart]
    exact before_writtenStart _ _
  · simp only [Chunk.newBefore, Hunk.chunk, newStart]
    exact before_writtenStart _ _
  · exact oldCount
  · exact newCount
  · exact oldLines
  · exact newLines
  · simp only [Hunk.chunk, oldStart]
    exact writtenStart_pos _ _
  · simp only [Hunk.chunk, newStart]
    exact writtenStart_pos _ _

/-- The chunks of hunks that are cut out of a script turn the old lines into the new ones. -/
theorem applyFrom_cut {es : List Edit} {hs : List Hunk} (cut : Cut es hs) {i j : Nat}
    {as bs : List Bytes} (aligns : Aligns i j as bs es) :
    applyFrom i (hs.map Hunk.chunk) as = some bs := by
  induction cut generalizing i j as bs with
  | rest kept =>
    rw [aligns.same kept]
    rfl
  | @hunk gap body es hs kept nonempty _ ih =>
    obtain ⟨front, as₃, front', bs₃, rfl, rfl, first, third⟩ := aligns.split
    obtain ⟨as₁, as₂, bs₁, bs₂, rfl, rfl, first, second⟩ := first.split
    have same := first.same kept
    subst same
    have told := chunk_told second nonempty
    have rest := ih third
    rw [List.length_append, ← Nat.add_assoc] at rest
    rw [List.map_cons, applyFrom, told.oldBefore, told.old, told.new, Nat.add_sub_cancel_left]
    have copied : (as₁ ++ as₂ ++ as₃).take as₁.length = as₁ := by simp
    have front : (as₁ ++ as₂ ++ as₃).drop as₁.length = as₂ ++ as₃ := by simp
    have behind : (as₁ ++ as₂ ++ as₃).drop (as₁.length + as₂.length) = as₃ := by
      rw [← List.drop_drop, front, List.drop_left]
    rw [if_pos ⟨Nat.le_add_right _ _, by simp, front ▸ List.prefix_append _ _⟩, copied, behind, rest]
    rfl

/-! The way back -/

def Edit.reverse (e : Edit) : Edit := ⟨e.kind.opposite, e.line, e.new, e.old⟩

theorem Aligns.reverse {i j : Nat} {as bs : List Bytes} {es : List Edit} (h : Aligns i j as bs es) :
    Aligns j i bs as (es.map Edit.reverse) := by
  induction h with
  | nil i j => exact .nil j i
  | keep _ ih => exact .keep ih
  | remove _ ih => exact .add ih
  | add _ ih => exact .remove ih

def Hunk.reverse (h : Hunk) : Hunk :=
  ⟨h.newStart, h.newCount, h.oldStart, h.oldCount, h.lines.map fun (kind, line) => (kind.opposite, line)⟩

theorem opposite_ne_add (kind : Kind) : decide (kind.opposite ≠ .add) = decide (kind ≠ .remove) := by
  cases kind <;> rfl

theorem opposite_ne_remove (kind : Kind) :
    decide (kind.opposite ≠ .remove) = decide (kind ≠ .add) := by
  cases kind <;> rfl

theorem ofEdits_reverse (es : List Edit) :
    Hunk.ofEdits (es.map Edit.reverse) = (Hunk.ofEdits es).reverse := by
  have heads : (es.map Edit.reverse).head? = es.head?.map Edit.reverse := List.head?_map
  have adds : (es.map Edit.reverse).countP (·.kind ≠ .add) = es.countP (·.kind ≠ .remove) := by
    rw [List.countP_map]
    exact congrArg (List.countP · es) (funext fun e => opposite_ne_add e.kind)
  have removes : (es.map Edit.reverse).countP (·.kind ≠ .remove) = es.countP (·.kind ≠ .add) := by
    rw [List.countP_map]
    exact congrArg (List.countP · es) (funext fun e => opposite_ne_remove e.kind)
  unfold Hunk.ofEdits Hunk.reverse
  rw [heads, adds, removes, Option.map_map, Option.map_map, List.map_map, List.map_map]
  rfl

theorem Cut.reverse {es : List Edit} {hs : List Hunk} (cut : Cut es hs) :
    Cut (es.map Edit.reverse) (hs.map Hunk.reverse) := by
  have keeps {fs : List Edit} (kept : ∀ e ∈ fs, e.kind = .keep) :
      ∀ e ∈ fs.map Edit.reverse, e.kind = .keep := by
    intro e member
    obtain ⟨f, inside, rfl⟩ := List.mem_map.mp member
    simp [Edit.reverse, kept f inside, Kind.opposite]
  induction cut with
  | rest kept => exact .rest (keeps kept)
  | hunk kept nonempty _ ih =>
    rw [List.map_append, List.map_append, List.map_cons, ← ofEdits_reverse]
    exact .hunk (keeps kept) (by simpa using nonempty) ih

theorem applyFrom_reverse_cut {es : List Edit} {hs : List Hunk} (cut : Cut es hs) {i j : Nat}
    {as bs : List Bytes} (aligns : Aligns i j as bs es) :
    applyFrom j ((hs.map Hunk.chunk).map Chunk.reverse) bs = some as := by
  have back := applyFrom_cut cut.reverse aligns.reverse
  rw [List.map_map] at back ⊢
  exact back

/-! Where the chunks stand -/

theorem isRange_middle {start count : Nat} {front part : List Bytes} (behind : List Bytes)
    (named : count = 0 ∨ 1 ≤ start) (place : Chunk.before start count = front.length)
    (size : count = part.length) : Chunk.IsRange start count part (front ++ part ++ behind) := by
  refine ⟨named, ?_, ?_⟩
  · rw [place, size]
    simp
  · rw [place, size, List.append_assoc, List.drop_left, List.take_left]

/-- The chunks of hunks fit both texts and follow each other, behind the lines before the script. -/
theorem chunks_fit {es : List Edit} {hs : List Hunk} (cut : Cut es hs) {i j : Nat}
    {front front' as bs : List Bytes} (aligns : Aligns i j as bs es) (old : front.length = i)
    (new : front'.length = j) :
    (∀ c ∈ hs.map Hunk.chunk, c.Fits (front ++ as) (front' ++ bs)) ∧
      (∀ c ∈ hs.map Hunk.chunk, i ≤ c.oldBefore ∧ j ≤ c.newBefore) ∧
        (hs.map Hunk.chunk).Pairwise Chunk.Ahead := by
  induction cut generalizing i j front front' as bs with
  | rest => exact ⟨fun _ member => (nomatch member), fun _ member => (nomatch member), .nil⟩
  | @hunk gap body es hs kept nonempty _ ih =>
    obtain ⟨as₁₂, as₃, bs₁₂, bs₃, rfl, rfl, first, third⟩ := aligns.split
    obtain ⟨as₁, as₂, bs₁, bs₂, rfl, rfl, first, second⟩ := first.split
    have told := chunk_told second nonempty
    have old' : (front ++ (as₁ ++ as₂)).length = i + (as₁ ++ as₂).length := by
      rw [List.length_append, old]
    have new' : (front' ++ (bs₁ ++ bs₂)).length = j + (bs₁ ++ bs₂).length := by
      rw [List.length_append, new]
    obtain ⟨fits, behind, ahead⟩ := ih third old' new'
    rw [List.map_cons]
    refine ⟨?_, ?_, ?_⟩
    · intro c member
      rcases List.mem_cons.mp member with rfl | later
      · have oldPlace : (Hunk.ofEdits body).chunk.oldBefore = (front ++ as₁).length := by
          rw [told.oldBefore, List.length_append, old]
        have newPlace : (Hunk.ofEdits body).chunk.newBefore = (front' ++ bs₁).length := by
          rw [told.newBefore, List.length_append, new]
        have oldRange := isRange_middle as₃ told.oldStart oldPlace told.oldCount
        have newRange := isRange_middle bs₃ told.newStart newPlace told.newCount
        refine ⟨?_, ?_⟩
        · rw [told.old]
          simpa only [List.append_assoc] using oldRange
        · rw [told.new]
          simpa only [List.append_assoc] using newRange
      · simpa only [List.append_assoc] using fits c later
    · intro c member
      rcases List.mem_cons.mp member with rfl | later
      · rw [told.oldBefore, told.newBefore]
        exact ⟨Nat.le_add_right _ _, Nat.le_add_right _ _⟩
      · obtain ⟨oldLe, newLe⟩ := behind c later
        exact ⟨Nat.le_trans (Nat.le_add_right _ _) oldLe, Nat.le_trans (Nat.le_add_right _ _) newLe⟩
    · refine .cons ?_ ahead
      intro c later
      obtain ⟨oldLe, newLe⟩ := behind c later
      rw [List.length_append] at oldLe newLe
      constructor
      · rw [told.oldBefore, told.oldCount]
        omega
      · rw [told.newBefore, told.newCount]
        omega

end Desugar.Diff

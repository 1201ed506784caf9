import Desugar.Proofs.Host.LineTable
import Desugar.Proofs.Text.Splitting

/-!
# Positions in a source file

The position of an offset can be found by halving the table of line starts, and it is the one that is reached
by reading what stands before the offset. A position in a fragment that is taken for a file of its own is moved
to the one in the whole file by the position where the fragment begins. Each line stands in the text from its
start on, and a span that is found by reading what stands at its start covers what has been read.
-/
namespace Desugar

/-- Where a file begins. -/
def Position.first (file : String) : Position := ⟨file, 1, 1, 0⟩

namespace SourceFile

/-- The lines that start up to an offset are those of the text in front of it. -/
theorem startsFrom_take (offset : Nat) (text : Bytes) (k : Nat) :
    startsFrom offset (text.take k) = (startsFrom offset text).takeWhile (· ≤ offset + k) := by
  induction text generalizing offset k with
  | nil => simp [startsFrom]
  | cons b rest ih =>
    cases k with
    | zero =>
      rw [List.take_zero, startsFrom, eq_comm, List.takeWhile_eq_nil_iff]
      intro positive first
      have := lt_of_mem_startsFrom (List.getElem_mem positive)
      have le : (startsFrom offset (b :: rest))[0] ≤ offset := of_decide_eq_true first
      omega
    | succ k =>
      have next := ih (offset + 1) k
      rw [Nat.add_assoc, Nat.add_comm 1 k] at next
      rw [List.take_succ_cons, startsFrom, startsFrom]
      split
      · rw [List.takeWhile_cons_of_pos (by simp), next]
      · exact next

theorem startsUpTo_eq_take (text : Bytes) (k : Nat) :
    Host.LineTable.startsUpTo text k = 0 :: startsFrom 0 (text.take k) := by
  rw [Host.LineTable.startsUpTo, List.takeWhile_cons_of_pos (by simp), startsFrom_take, Nat.zero_add]

end SourceFile

namespace Position

/-- Reading on counts the lines that start, and the bytes of the last one of them. -/
theorem advance_eq {p : Position} (offset start : Nat) (here : p.offset = offset)
    (column : p.column = offset - start + 1) (text : Bytes) :
    p.advance text = ⟨p.file, p.line + (SourceFile.startsFrom offset text).length,
      offset + text.length - ((SourceFile.startsFrom offset text).getLast?.getD start : Nat) + 1,
      offset + text.length⟩ := by
  induction text generalizing p offset start with
  | nil =>
    obtain ⟨file, line, column', offset'⟩ := p
    simp_all [advance, SourceFile.startsFrom]
  | cons b rest ih =>
    have forward : p.advance (b :: rest) = (p.step b).advance rest := rfl
    rw [forward, SourceFile.startsFrom]
    by_cases newline : b = 0x0A
    · have next : p.step b = { p with line := p.line + 1, column := 1, offset := p.offset + 1 } := if_pos newline
      rw [ih (offset + 1) (offset + 1) (by simp [here]) (by simp [next]), if_pos newline, next,
        List.getLast?_cons]
      simp only [Position.mk.injEq, List.length_cons, Option.getD_some, true_and]
      omega
    · have next : p.step b = { p with column := p.column + 1, offset := p.offset + 1 } := if_neg newline
      rw [ih (offset + 1) start (by simp [here]) (by rw [next]; simp [column]; omega),
        if_neg newline, next]
      simp only [Position.mk.injEq, List.length_cons, true_and]
      omega

/-- The position of an offset is where reading up to it leads. -/
theorem position_eq_advance (f : SourceFile) {k : Nat} (inside : k ≤ f.content.length) :
    f.position k = (first f.name).advance (f.content.take k) := by
  have le := Host.LineTable.lastStart_le f.content k
  rw [Host.LineTable.position_eq inside f.name, advance_eq 0 0 rfl rfl]
  rw [SourceFile.startsUpTo_eq_take, List.getLast?_cons] at *
  simp only [Position.mk.injEq, first, List.length_cons, List.length_take, Option.getD_some, true_and] at *
  omega

theorem isValid_step {p : Position} (valid : p.isValid) (b : UInt8) : (p.step b).isValid := by
  simp only [isValid, Bool.and_eq_true, decide_eq_true_eq] at valid ⊢
  unfold step
  split <;> dsimp only <;> omega

/-- A step in a fragment is a step in the whole file. -/
theorem shift_step {p : Position} (valid : p.isValid) (origin : Position) (b : UInt8) :
    (p.step b).shift origin = (p.shift origin).step b := by
  have next := isValid_step valid b
  unfold shift
  rw [if_pos valid, if_pos next]
  simp only [isValid, Bool.and_eq_true, decide_eq_true_eq] at valid
  unfold step
  split
  · simp only [Position.mk.injEq, true_and]
    split <;> omega
  · simp only [Position.mk.injEq, true_and]
    split <;> omega

theorem shift_advance {p : Position} (valid : p.isValid) (origin : Position) (text : Bytes) :
    (p.advance text).shift origin = (p.shift origin).advance text := by
  induction text generalizing p with
  | nil => rfl
  | cons b rest ih =>
    change ((p.step b).advance rest).shift origin = ((p.shift origin).step b).advance rest
    rw [ih (isValid_step valid b), shift_step valid]

theorem shift_first (file : String) (origin : Position) : (first file).shift origin = origin := by
  obtain ⟨file', line, column, offset⟩ := origin
  simp [shift, first, isValid]

end Position

namespace SourceFile

/-! ## Lines -/

theorem mem_startsFrom {offset : Nat} {text : Bytes} {start : Nat} :
    start ∈ startsFrom offset text ↔ ∃ k, text[k]? = some 0x0A ∧ start = offset + k + 1 := by
  induction text generalizing offset with
  | nil => simp [startsFrom]
  | cons b rest ih =>
    have later : (∃ k, (b :: rest)[k]? = some 0x0A ∧ start = offset + k + 1) ↔
        (b = 0x0A ∧ start = offset + 1) ∨ ∃ k, rest[k]? = some 0x0A ∧ start = offset + 1 + k + 1 := by
      constructor
      · rintro ⟨k, byte, rfl⟩
        cases k with
        | zero => exact .inl ⟨by simpa using byte, rfl⟩
        | succ k => exact .inr ⟨k, by simpa using byte, by omega⟩
      · rintro (⟨rfl, rfl⟩ | ⟨k, byte, rfl⟩)
        · exact ⟨0, rfl, rfl⟩
        · exact ⟨k + 1, by simpa using byte, by omega⟩
    rw [startsFrom, later, ← ih]
    split
    · rename_i newline
      simp [newline]
    · rename_i other
      simp [other]

/-- Where a line of a text stands. -/
structure LineAt (content : Bytes) (start : Nat) (line : Bytes) : Prop where
  starts : start = 0 ∨ content[start - 1]? = some 0x0A
  front : line <+: content.drop start
  free : (0x0A : UInt8) ∉ line

/-- Each line stands in the text, from where it starts on. -/
theorem line_at (f : SourceFile) {n : Nat} (pos : 1 ≤ n) (le : n ≤ f.lineCount) :
    ∃ start : Nat, f.lineOffset n = start ∧ LineAt f.content start (f.line n) := by
  have sorted : f.lineStarts.Pairwise (· < ·) :=
    .cons (fun _ => lt_of_mem_startsFrom) (startsFrom_sorted 0 f.content)
  have inside : n - 1 < f.lineStarts.length := by
    unfold lineCount at le
    omega
  have index : (n : Int).toNat - 1 = n - 1 := by omega
  obtain ⟨start, later, split⟩ : ∃ start later, f.lineStarts.drop (n - 1) = start :: later :=
    ⟨_, _, List.drop_eq_getElem_cons inside⟩
  have whole : f.lineStarts.take (n - 1) ++ start :: later = f.lineStarts := by
    rw [← split, List.take_append_drop]
  have here : f.lineStarts[n - 1]? = some start := by
    rw [← List.head?_drop, split, List.head?_cons]
  obtain ⟨stop, shown, last⟩ : ∃ stop, f.line n = Text.dropEnd (Text.slice f.content start stop) [0x0D] ∧
      ∀ next ∈ later.head?, stop = next - 1 := by
    unfold line
    rw [if_neg (by omega)]
    dsimp only
    rw [index, split]
    cases later with
    | nil => exact ⟨_, rfl, nofun⟩
    | cons next rest => exact ⟨_, rfl, fun _ head => by rw [← Option.some.inj head]⟩
  refine ⟨start, ?_, ?_⟩
  · unfold lineOffset
    rw [if_neg (by omega), index, here]
  · rw [shown]
    have front := Text.dropEnd_prefix (Text.slice f.content start stop) [0x0D]
    refine ⟨?_, front.trans (List.take_prefix _ _), fun newline => ?_⟩
    · rcases List.mem_cons.mp (List.mem_of_getElem? here) with rfl | opened
      · exact .inl rfl
      · obtain ⟨k, byte, rfl⟩ := mem_startsFrom.mp opened
        refine .inr ?_
        rwa [Nat.zero_add, Nat.add_sub_cancel]
    · -- A newline in the line opens another line before the next one.
      obtain ⟨i, byte⟩ := List.mem_iff_getElem?.mp (front.subset newline)
      rw [Text.slice, List.getElem?_take] at byte
      split at byte
      · rename_i short
        rw [List.getElem?_drop] at byte
        have opened : start + i + 1 ∈ f.lineStarts :=
          List.mem_cons_of_mem _ (mem_startsFrom.mpr ⟨start + i, byte, by omega⟩)
        rw [← whole] at opened sorted
        obtain ⟨-, behind, before⟩ := List.pairwise_append.mp sorted
        rcases List.mem_append.mp opened with earlier | after
        · have := before _ earlier start List.mem_cons_self
          omega
        rcases List.mem_cons.mp after with same | after
        · omega
        cases later with
        | nil => cases after
        | cons next rest =>
          have next_le : next ≤ start + i + 1 := by
            rcases List.mem_cons.mp after with same | behind'
            · exact Nat.le_of_eq same.symm
            · exact Nat.le_of_lt ((List.pairwise_cons.mp (List.pairwise_cons.mp behind).2).1 _ behind')
          have := last next rfl
          omega
      · cases byte

/-- The text between a position and the one that is reached by reading a text which stands there. -/
theorem text_advance (f : SourceFile) {o : Nat} {text : Bytes} (inside : o ≤ f.content.length)
    (front : text <+: f.content.drop o) : f.text ⟨f.position o, (f.position o).advance text⟩ = text := by
  have length := front.length_le
  rw [List.length_drop] at length
  have within : o + text.length ≤ f.content.length := by omega
  have upTo : f.content.take (o + text.length) = f.content.take o ++ text := by
    rw [List.take_add, ← List.prefix_iff_eq_take.mp front]
  have stop : (f.position o).advance text = f.position (o + text.length : Nat) := by
    rw [Position.position_eq_advance f inside, Position.position_eq_advance f within, upTo,
      Position.advance_append]
  have positive := Host.LineTable.startsUpTo_pos f.content o
  have positive' := Host.LineTable.startsUpTo_pos f.content (o + text.length)
  rw [stop, SourceFile.text, Host.LineTable.position_eq inside f.name, Host.LineTable.position_eq within f.name]
  rw [if_pos]
  · rw [Int.toNat_natCast, Int.toNat_natCast, Text.slice, Nat.add_sub_cancel_left]
    exact (List.prefix_iff_eq_take.mp front).symm
  · simp only [Span.isValid, Position.isValid, Bool.and_eq_true, decide_eq_true_eq, and_true]
    omega

/-- Halving the table of line starts finds the line of an offset. -/
theorem line_eq_search (f : SourceFile) {k : Nat} (inside : k ≤ f.content.length) :
    (f.position k).line = Host.LineTable.search f.lineStarts.toArray k 0 f.lineCount := by
  have sorted : f.lineStarts.toArray.toList.Pairwise (· < ·) :=
    .cons (fun _ => lt_of_mem_startsFrom) (startsFrom_sorted 0 f.content)
  obtain ⟨bound, before, behind⟩ := Host.LineTable.search_spec f.lineStarts.toArray sorted k 0 f.lineCount
    (by simp [lineCount]) (by omega) (fun i large x here => by
      rw [Array.getElem?_eq_none (by simpa [lineCount] using large)] at here
      cases here)
  rw [Host.LineTable.position_eq inside f.name]
  refine congrArg Int.ofNat (Host.LineTable.length_takeWhile_eq bound (fun i less x here => ?_) fun x here => ?_)
  · exact decide_eq_true (before i less x (List.getElem?_toArray.trans here))
  · exact decide_eq_false (Nat.not_le_of_lt (behind _ (Nat.le_refl _) x (List.getElem?_toArray.trans here)))

/-- A line starts as many bytes before an offset as its column says. -/
theorem lineOffset_position (f : SourceFile) {k : Nat} (inside : k ≤ f.content.length) :
    f.lineOffset (f.position k).line + (f.position k).column - 1 = k := by
  have positive := Host.LineTable.startsUpTo_pos f.content k
  have le := Host.LineTable.lastStart_le f.content k
  obtain ⟨later, split⟩ : Host.LineTable.startsUpTo f.content k <+: f.lineStarts := List.takeWhile_prefix _
  have start : f.lineStarts[(Host.LineTable.startsUpTo f.content k).length - 1]? =
      (Host.LineTable.startsUpTo f.content k).getLast? := by
    rw [← split, List.getElem?_append_left (by omega), List.getLast?_eq_getElem?]
  rw [Host.LineTable.position_eq inside f.name]
  unfold lineOffset
  rw [if_neg (by dsimp only; omega)]
  dsimp only
  rw [Int.toNat_natCast, start]
  cases last : (Host.LineTable.startsUpTo f.content k).getLast? with
  | none => simp [List.getLast?_eq_none_iff.mp last] at positive
  | some first =>
    rw [last, Option.getD_some] at le
    simp only [Option.getD_some]
    omega

/-- What is found in the table of lines, by reading, and in a fragment that begins elsewhere is one and the same
position. -/
theorem positions_agree (f : SourceFile) {k : Nat} (inside : k ≤ f.content.length) :
    (f.position k).line = Host.LineTable.search f.lineStarts.toArray k 0 f.lineCount ∧
    f.position k = (Position.first f.name).advance (f.content.take k) ∧
    f.lineOffset (f.position k).line + (f.position k).column - 1 = k ∧
    ∀ (before fragment after : Bytes) (name : String) (i : Nat), before ++ fragment ++ after = f.content →
      i ≤ fragment.length → before.length + i = k →
      ((⟨name, fragment⟩ : SourceFile).position i).shift (f.position before.length) = f.position k ∧
      f.position k = (f.position before.length).advance (fragment.take i) := by
  refine ⟨f.line_eq_search inside, Position.position_eq_advance f inside, f.lineOffset_position inside, ?_⟩
  rintro before fragment after name i whole within rfl
  have front : f.content.take before.length = before := by simp [← whole]
  have upTo : f.content.take (before.length + i) = before ++ fragment.take i := by
    rw [← whole, List.append_assoc, List.take_length_add_append, List.take_append_of_le_length within]
  have origin : f.position before.length = (Position.first f.name).advance before := by
    rw [Position.position_eq_advance f (by omega), front]
  have read : f.position (before.length + i : Nat) =
      (f.position before.length).advance (fragment.take i) := by
    rw [Position.position_eq_advance f inside, upTo, Position.advance_append, origin]
  refine ⟨?_, read⟩
  rw [read, Position.position_eq_advance ⟨name, fragment⟩ within, Position.shift_advance rfl,
    Position.shift_first]

/-- The third byte of a fragment that begins with a newline, in a file of five bytes. -/
theorem positions_agree_secondLine :
    let f : SourceFile := ⟨"s.sgo", [0x61, 0x0A, 0x62, 0x63, 0x0A]⟩
    let fragment : SourceFile := ⟨"t.sgo", [0x0A, 0x62, 0x63]⟩
    4 ≤ f.content.length ∧ 3 ≤ fragment.content.length ∧
      (fragment.position 3).shift (f.position 1) = f.position 4 ∧ f.position 4 = ⟨"s.sgo", 2, 3, 4⟩ := by
  intro f fragment
  have inside : 4 ≤ f.content.length := by decide
  have within : 3 ≤ fragment.content.length := by decide
  have moved := (positions_agree f inside).2.2.2 [0x61] fragment.content [0x0A] "t.sgo" 3 rfl within rfl
  exact ⟨inside, within, moved.1, by decide⟩

end SourceFile
end Desugar

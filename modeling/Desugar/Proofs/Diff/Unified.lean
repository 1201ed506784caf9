import Desugar.Proofs.Diff.Patch
import Desugar.Proofs.Text.Decimal
import Desugar.Proofs.Text.Decoding
import Desugar.Proofs.Text.Splitting

/-!
# Reading the unified format

A patch is read line by line: two lines that name the files, then chunks. A chunk's first line names
its ranges, `start` alone for a range of one line, and the counts say how many lines follow; the first
byte of each line says in which texts it stands. What is written for a computed diff is read back as
the chunks of its hunks.
-/
namespace Desugar.Diff

/-! Reading -/

def isDigit (b : UInt8) : Bool := 0x30 ≤ b && b ≤ 0x39

/-- The number at the front of a text. -/
def readNumber (text : Bytes) : Option (Nat × Bytes) :=
  let digits := text.takeWhile isDigit
  if digits = [] then none
  else some (digits.foldl (fun n d => 10 * n + (d.toNat - 0x30)) 0, text.dropWhile isDigit)

/-- What follows some bytes at the front of a text. -/
def behind? (front text : Bytes) : Option Bytes :=
  if front.isPrefixOf text then some (text.drop front.length) else none

/-- The range at the front of a text: its start, and its count if that is not one. -/
def readRange (text : Bytes) : Option ((Nat × Nat) × Bytes) := do
  let (start, rest) ← readNumber text
  match behind? (Text.utf8 ",") rest with
  | some rest => do
    let (count, rest) ← readNumber rest
    return ((start, count), rest)
  | none => return ((start, 1), rest)

/-- The ranges that the first line of a chunk names. -/
def readHeader (line : Bytes) : Option ((Nat × Nat) × (Nat × Nat)) := do
  let rest ← behind? (Text.utf8 "@@ -") line
  let (old, rest) ← readRange rest
  let rest ← behind? (Text.utf8 " +") rest
  let (new, rest) ← readRange rest
  let _ ← behind? (Text.utf8 " @@") rest
  return (old, new)

/-- A line of a chunk by its first byte: a blank, a plus or a minus. -/
def readLine : Bytes → Option (Kind × Bytes)
  | 0x20 :: line => some (.keep, line)
  | 0x2B :: line => some (.add, line)
  | 0x2D :: line => some (.remove, line)
  | _ => none

/-- The lines of a chunk, as many as there are to come in either text, and the lines behind them. -/
def readBody (old new : Nat) : List Bytes → Option (List (Kind × Bytes) × List Bytes)
  | [] => if old = 0 ∧ new = 0 then some ([], []) else none
  | l :: ls =>
    if old = 0 ∧ new = 0 then some ([], l :: ls)
    else do
      let (kind, line) ← readLine l
      if kind ≠ .add ∧ old = 0 ∨ kind ≠ .remove ∧ new = 0 then none
      else
        let (body, rest) ← readBody (if kind = .add then old else old - 1)
          (if kind = .remove then new else new - 1) ls
        return ((kind, line) :: body, rest)

theorem length_readBody {old new : Nat} {ls rest : List Bytes} {body : List (Kind × Bytes)}
    (read : readBody old new ls = some (body, rest)) : rest.length ≤ ls.length := by
  induction ls generalizing old new body with
  | nil =>
    unfold readBody at read
    split at read
    · cases read
      exact Nat.le_refl _
    · cases read
  | cons l ls ih =>
    unfold readBody at read
    split at read
    · cases read
      exact Nat.le_refl _
    · simp only [Option.bind_eq_bind, Option.bind_eq_some_iff] at read
      obtain ⟨⟨kind, line⟩, -, read⟩ := read
      split at read
      · cases read
      · obtain ⟨⟨body', rest'⟩, inner, same⟩ := Option.bind_eq_some_iff.mp read
        cases same
        exact Nat.le_trans (ih inner) (Nat.le_succ _)

def readChunks : List Bytes → Option (List Chunk)
  | [] => some []
  | l :: ls =>
    match readHeader l with
    | none => none
    | some ((oldStart, oldCount), (newStart, newCount)) =>
      match _read : readBody oldCount newCount ls with
      | none => none
      | some (body, rest) =>
        (readChunks rest).map (⟨oldStart, oldCount, newStart, newCount, body⟩ :: ·)
termination_by ls => ls.length
decreasing_by
  have shorter := length_readBody _read
  simp only [List.length_cons]
  omega

/-- The chunks of a patch; an empty text is a patch without any. -/
def readPatch (text : Bytes) : Option (List Chunk) :=
  match lines text with
  | [] => some []
  | old :: new :: rest =>
    if (Text.utf8 "--- ").isPrefixOf old ∧ (Text.utf8 "+++ ").isPrefixOf new then readChunks rest
    else none
  | [_] => none

/-! Lines -/

theorem splitOn_lines {ls : List Bytes} (plain : ∀ l ∈ ls, 0x0A ∉ l) :
    (ls.flatMap (· ++ [0x0A])).splitOn 0x0A = ls ++ [[]] := by
  induction ls with
  | nil => rfl
  | cons l ls ih =>
    rw [List.flatMap_cons, List.append_assoc, List.singleton_append,
      List.splitOn_append_cons_self_of_not_mem (plain l List.mem_cons_self),
      ih fun m member => plain m (List.mem_cons_of_mem _ member)]
    rfl

/-- Lines that are written one after the other are the lines of that text. -/
theorem lines_flatMap {ls : List Bytes} (plain : ∀ l ∈ ls, 0x0A ∉ l) :
    lines (ls.flatMap (· ++ [0x0A])) = ls := by
  cases ls with
  | nil => rfl
  | cons l ls =>
    have parts := splitOn_lines plain
    unfold lines
    split
    · rename_i empty
      simp at empty
    · rw [parts]
      dsimp only
      rw [List.getLast?_concat, if_pos rfl, List.dropLast_concat]

/-- A line has no newline. -/
theorem newline_not_mem_lines {text l : Bytes} (member : l ∈ lines text) : 0x0A ∉ l := by
  refine not_mem_of_mem_splitOn (show l ∈ text.splitOn 0x0A from ?_)
  unfold lines at member
  split at member
  · cases member
  · dsimp only at member
    split at member
    · exact (List.dropLast_sublist _).subset member
    · exact member

/-! Strings -/

theorem utf8_append (s t : String) : Text.utf8 (s ++ t) = Text.utf8 s ++ Text.utf8 t := by
  simp [Text.utf8]

theorem utf8_ascii {s : String} (small : ∀ c ∈ s.toList, c.toNat < 0x80) :
    Text.utf8 s = s.toList.map fun c => UInt8.ofNat c.toNat := by
  unfold Text.utf8
  generalize s.toList = cs at small
  induction cs with
  | nil => rfl
  | cons c cs ih =>
    rw [List.flatMap_cons, List.map_cons, Text.encode_ascii (small c List.mem_cons_self),
      ih fun d member => small d (List.mem_cons_of_mem _ member)]
    rfl

theorem newline_not_mem_utf8 {s : String} (plain : '\n' ∉ s.toList) : 0x0A ∉ Text.utf8 s := by
  unfold Text.utf8
  intro member
  obtain ⟨c, inside, byte⟩ := List.mem_flatMap.mp member
  rcases Nat.lt_or_ge c.toNat 0x80 with small | large
  · rw [Text.encode_ascii small, List.mem_singleton] at byte
    have value : c.toNat = 0x0A := by
      have same := congrArg UInt8.toNat byte
      rw [UInt8.toNat_ofNat', Nat.mod_eq_of_lt (by omega)] at same
      exact same.symm
    have newline : c = '\n' := Char.toNat_inj.mp value
    exact plain (newline ▸ inside)
  · have high := Text.le_of_mem_encode large byte
    revert high
    decide

/-! Numbers -/

/-- The digits of a number as bytes. -/
theorem utf8_repr (n : Nat) :
    Text.utf8 n.repr = (Nat.toDigits 10 n).map fun c => UInt8.ofNat c.toNat := by
  rw [utf8_ascii, Nat.toList_repr]
  intro c member
  rw [Nat.toList_repr] at member
  have range := digit_range (Nat.isDigit_of_mem_toDigits (by decide) (by decide) member)
  omega

theorem readNumber_repr (n : Nat) {rest : Bytes} (stops : ∀ b, rest.head? = some b → isDigit b = false) :
    readNumber (Text.utf8 n.repr ++ rest) = some (n, rest) := by
  have range {c : Char} (member : c ∈ Nat.toDigits 10 n) : 0x30 ≤ c.toNat ∧ c.toNat ≤ 0x39 :=
    digit_range (Nat.isDigit_of_mem_toDigits (by decide) (by decide) member)
  have value {c : Char} (member : c ∈ Nat.toDigits 10 n) : (UInt8.ofNat c.toNat).toNat = c.toNat := by
    have bounds := range member
    rw [UInt8.toNat_ofNat', Nat.mod_eq_of_lt (by omega)]
  have digits : ∀ b ∈ (Nat.toDigits 10 n).map fun c => UInt8.ofNat c.toNat, isDigit b = true := by
    intro b member
    obtain ⟨c, inside, rfl⟩ := List.mem_map.mp member
    have bounds := range inside
    simp [isDigit, UInt8.le_iff_toNat_le, value inside, bounds]
  have noDigits : rest.takeWhile isDigit = [] ∧ rest.dropWhile isDigit = rest := by
    cases rest with
    | nil => exact ⟨rfl, rfl⟩
    | cons b rest => simp [stops b rfl]
  unfold readNumber
  dsimp only
  rw [utf8_repr, List.takeWhile_append_of_pos digits, List.dropWhile_append_of_pos digits, noDigits.1,
    noDigits.2, List.append_nil, if_neg (by simp [Nat.toDigits_ne_nil]), List.foldl_map]
  have same : (Nat.toDigits 10 n).foldl
      (fun m c => 10 * m + ((UInt8.ofNat c.toNat).toNat - 0x30)) 0 = n := by
    refine Eq.trans (List.foldl_ext _ _ _ ?_) (Nat.ofDigitChars_ten_toDigits (n := n))
    intro m c member
    rw [value member]
    rfl
  rw [same]

/-! Headers -/

theorem behind?_append (front rest : Bytes) : behind? front (front ++ rest) = some rest := by
  simp [behind?]

theorem behind?_comma {rest : Bytes} (other : rest.head? ≠ some 0x2C) :
    behind? (Text.utf8 ",") rest = none := by
  have comma : Text.utf8 "," = [0x2C] := by decide
  rw [comma]
  cases rest with
  | nil => rfl
  | cons b rest =>
    have different : b ≠ 0x2C := by simpa using other
    simp [behind?, Ne.symm different]

theorem range_eq {start : Nat} (count : Nat) (first : 1 ≤ start) :
    range start count = if count = 1 then (writtenStart start count).repr
      else (writtenStart start count).repr ++ "," ++ count.repr := by
  have value : (if count = 0 then (start : Int) - 1 else start) = (writtenStart start count : Nat) := by
    unfold writtenStart
    split <;> omega
  unfold range
  rw [value]
  rfl

/-- What may stand behind a range. -/
def Ends (rest : Bytes) : Prop := ∀ b, rest.head? = some b → isDigit b = false ∧ b ≠ 0x2C

theorem readRange_range {start : Nat} (count : Nat) (first : 1 ≤ start) {rest : Bytes}
    (ends : Ends rest) : readRange (Text.utf8 (range start count) ++ rest) =
      some ((writtenStart start count, count), rest) := by
  have stops : ∀ b, rest.head? = some b → isDigit b = false := fun b head => (ends b head).1
  have other : rest.head? ≠ some 0x2C := fun head => (ends _ head).2 rfl
  rw [range_eq count first]
  unfold readRange
  by_cases one : count = 1
  · rw [if_pos one, readNumber_repr _ stops]
    simp [behind?_comma other, one]
  · have comma : ∀ b, (Text.utf8 "," ++ (Text.utf8 count.repr ++ rest)).head? = some b →
        isDigit b = false := by
      intro b head
      cases head
      decide
    rw [if_neg one, utf8_append, utf8_append, List.append_assoc, List.append_assoc,
      readNumber_repr _ comma]
    simp [behind?_append, readNumber_repr _ stops]

theorem utf8_header (h : Hunk) :
    Text.utf8 h.header = Text.utf8 "@@ -" ++ (Text.utf8 (range h.oldStart h.oldCount) ++
      (Text.utf8 " +" ++ (Text.utf8 (range h.newStart h.newCount) ++ Text.utf8 " @@"))) := by
  rw [← utf8_append, ← utf8_append, ← utf8_append, ← utf8_append]
  simp only [Hunk.header, String.append_assoc]
  rfl

/-- What a hunk's first line says can be read back. -/
structure Hunk.Proper (h : Hunk) : Prop where
  oldFirst : 1 ≤ h.oldStart
  newFirst : 1 ≤ h.newStart
  oldCount : h.oldCount = h.lines.countP (·.1 ≠ .add)
  newCount : h.newCount = h.lines.countP (·.1 ≠ .remove)

theorem readHeader_header {h : Hunk} (proper : h.Proper) :
    readHeader (Text.utf8 h.header) = some ((h.chunk.oldStart, h.chunk.oldCount),
      (h.chunk.newStart, h.chunk.newCount)) := by
  have ends : Ends (Text.utf8 " @@") := by
    intro b head
    cases head
    decide
  have ends' : Ends (Text.utf8 " +" ++ (Text.utf8 (range h.newStart h.newCount) ++ Text.utf8 " @@")) := by
    intro b head
    cases head
    decide
  have last := behind?_append (Text.utf8 " @@") []
  rw [List.append_nil] at last
  unfold readHeader
  rw [utf8_header, behind?_append]
  simp only [Option.bind_eq_bind, Option.bind_some, readRange_range _ proper.oldFirst ends',
    behind?_append, readRange_range _ proper.newFirst ends, last]
  rfl

theorem newline_not_mem_range {start : Nat} (count : Nat) (first : 1 ≤ start) :
    0x0A ∉ Text.utf8 (range start count) := by
  have number (n : Nat) : '\n' ∉ Nat.toDigits 10 n := by
    intro member
    have digit := Nat.isDigit_of_mem_toDigits (by decide) (by decide) member
    revert digit
    decide
  apply newline_not_mem_utf8
  rw [range_eq count first]
  split <;> simp [number]

theorem newline_not_mem_header {h : Hunk} (proper : h.Proper) : 0x0A ∉ Text.utf8 h.header := by
  have old := newline_not_mem_range h.oldCount proper.oldFirst
  have new := newline_not_mem_range h.newCount proper.newFirst
  have fixed : 0x0A ∉ Text.utf8 "@@ -" ∧ 0x0A ∉ Text.utf8 " +" ∧ 0x0A ∉ Text.utf8 " @@" := by decide
  rw [utf8_header]
  simp [old, new, fixed]

/-! Chunks -/

/-- A line of a hunk as it is written. -/
def signed (l : Kind × Bytes) : Bytes := l.1.sign :: l.2

theorem readLine_signed (l : Kind × Bytes) : readLine (signed l) = some l := by
  obtain ⟨kind, line⟩ := l
  cases kind <;> rfl

theorem readBody_done (rest : List Bytes) : readBody 0 0 rest = some ([], rest) := by
  cases rest <;> rfl

theorem readBody_signed (ls : List (Kind × Bytes)) (rest : List Bytes) :
    readBody (ls.countP (·.1 ≠ .add)) (ls.countP (·.1 ≠ .remove)) (ls.map signed ++ rest) =
      some (ls, rest) := by
  induction ls with
  | nil => exact readBody_done rest
  | cons l ls ih =>
    obtain ⟨kind, line⟩ := l
    rw [List.map_cons, List.cons_append, readBody, readLine_signed]
    simp only [ne_eq, decide_not] at ih
    cases kind with
    | keep => simp [ih]
    | add => simp [ih]
    | remove => simp [ih]

/-- The lines of a hunk as they are written. -/
def Hunk.written (h : Hunk) : List Bytes := Text.utf8 h.header :: h.lines.map signed

theorem readChunks_written {hs : List Hunk} (proper : ∀ h ∈ hs, h.Proper) :
    readChunks (hs.flatMap Hunk.written) = some (hs.map Hunk.chunk) := by
  induction hs with
  | nil => rw [List.flatMap_nil, readChunks]; rfl
  | cons h hs ih =>
    have first := proper h List.mem_cons_self
    have rest := ih fun g member => proper g (List.mem_cons_of_mem _ member)
    have body := readBody_signed h.lines (hs.flatMap Hunk.written)
    rw [← first.oldCount, ← first.newCount] at body
    rw [List.flatMap_cons, Hunk.written, List.cons_append, readChunks, readHeader_header first]
    dsimp only
    split
    · rename_i absent
      have impossible := body.symm.trans absent
      cases impossible
    · rename_i found
      have same := body.symm.trans found
      cases same
      rw [rest]
      rfl

theorem proper_ofEdits {i j : Nat} {as bs : List Bytes} {es body : List Edit}
    (aligns : Aligns i j as bs es) (nonempty : body ≠ []) (inside : ∀ e ∈ body, e ∈ es) :
    (Hunk.ofEdits body).Proper := by
  obtain ⟨e, rest, rfl⟩ := List.exists_cons_of_ne_nil nonempty
  have first := (aligns.mem (inside e List.mem_cons_self)).2
  refine ⟨first.1, first.2, ?_, ?_⟩
  · rw [Hunk.ofEdits, List.countP_map]
    rfl
  · rw [Hunk.ofEdits, List.countP_map]
    rfl

theorem sign_ne_newline (kind : Kind) : kind.sign ≠ 0x0A := by
  cases kind <;> decide

/-- What is written for a hunk are lines. -/
theorem plain_written {i j : Nat} {as bs : List Bytes} {es : List Edit} {hs : List Hunk}
    (aligns : Aligns i j as bs es) (cut : Cut es hs) (old : ∀ l ∈ as, 0x0A ∉ l)
    (new : ∀ l ∈ bs, 0x0A ∉ l) : ∀ h ∈ hs, h.Proper ∧ ∀ l ∈ h.written, 0x0A ∉ l := by
  intro h member
  obtain ⟨body, nonempty, inside, rfl⟩ := cut.mem member
  have proper := proper_ofEdits aligns nonempty inside
  refine ⟨proper, fun l written => ?_⟩
  rcases List.mem_cons.mp written with rfl | line
  · exact newline_not_mem_header proper
  · obtain ⟨pair, listed, rfl⟩ := List.mem_map.mp line
    obtain ⟨e, edit, rfl⟩ := List.mem_map.mp listed
    have plain : 0x0A ∉ e.line := (aligns.mem (inside e edit)).1.elim (old _) (new _)
    simp [signed, plain, (sign_ne_newline e.kind).symm]

theorem render_eq (h : Hunk) : h.render = h.written.flatMap (· ++ [0x0A]) := by
  unfold Hunk.render Hunk.written
  rw [List.flatMap_cons, List.flatMap_map]
  rfl

/-- The text of a diff as lines. -/
theorem unified_eq {r : Result} (changed : r.changed = true) (oldName newName : String) :
    r.unified oldName newName =
      ((Text.utf8 "--- " ++ Text.utf8 oldName) :: (Text.utf8 "+++ " ++ Text.utf8 newName) ::
        r.hunks.flatMap Hunk.written).flatMap (· ++ [0x0A]) := by
  have names : Text.utf8 s!"--- {oldName}\n+++ {newName}\n" =
      (Text.utf8 "--- " ++ Text.utf8 oldName ++ [0x0A]) ++
        (Text.utf8 "+++ " ++ Text.utf8 newName ++ [0x0A]) := by
    have newline : Text.utf8 "\n" = [0x0A] := by decide
    rw [← newline]
    simp only [← utf8_append, String.append_assoc]
    rfl
  have hunks : r.hunks.flatMap Hunk.render =
      (r.hunks.flatMap Hunk.written).flatMap (· ++ [0x0A]) := by
    rw [List.flatMap_assoc]
    exact congrArg r.hunks.flatMap (funext render_eq)
  rw [Result.unified, if_pos changed, names, hunks, List.flatMap_cons, List.flatMap_cons,
    List.append_assoc]

/-- Names without newlines do not disturb the reading of a diff. -/
theorem readPatch_unified {i j : Nat} {as bs : List Bytes} {es : List Edit} {r : Result}
    (aligns : Aligns i j as bs es) (cut : Cut es r.hunks) (old : ∀ l ∈ as, 0x0A ∉ l)
    (new : ∀ l ∈ bs, 0x0A ∉ l) {oldName newName : String} (oldPlain : '\n' ∉ oldName.toList)
    (newPlain : '\n' ∉ newName.toList) :
    readPatch (r.unified oldName newName) = some (r.hunks.map Hunk.chunk) := by
  have plain := plain_written aligns cut old new
  cases changed : r.changed with
  | false =>
    have empty : r.hunks = [] := by simpa [Result.changed] using changed
    simp [Result.unified, changed, empty, readPatch, lines]
  | true =>
    rw [unified_eq changed, readPatch, lines_flatMap]
    · simp [readChunks_written fun h member => (plain h member).1]
    · have fixed : 0x0A ∉ Text.utf8 "--- " ∧ 0x0A ∉ Text.utf8 "+++ " := by decide
      intro l member
      rcases List.mem_cons.mp member with rfl | member
      · simp [fixed, newline_not_mem_utf8 oldPlain]
      rcases List.mem_cons.mp member with rfl | member
      · simp [fixed, newline_not_mem_utf8 newPlain]
      · obtain ⟨h, listed, written⟩ := List.mem_flatMap.mp member
        exact (plain h listed).2 l written

/-- The unified diff of two texts is a patch: it reads as chunks that fit both texts and follow each
other, and leads from one text to the other and back. -/
theorem unified_is_patch (old new : Bytes) (context : Nat) {oldName newName : String}
    (oldPlain : '\n' ∉ oldName.toList) (newPlain : '\n' ∉ newName.toList) :
    ∃ cs, readPatch ((compute old new context).unified oldName newName) = some cs ∧
      cs.Pairwise Chunk.Ahead ∧ (∀ c ∈ cs, c.Fits (lines old) (lines new)) ∧
        apply cs (lines old) = some (lines new) ∧
        apply (cs.map Chunk.reverse) (lines new) = some (lines old) := by
  have aligns := aligns_script (lines old) (lines new)
  have cut := cut_hunks context (script (lines old) (lines new))
  obtain ⟨fits, -, ahead⟩ := @chunks_fit _ _ cut 0 0 [] [] _ _ aligns rfl rfl
  refine ⟨_, readPatch_unified aligns cut (fun _ => newline_not_mem_lines)
    (fun _ => newline_not_mem_lines) oldPlain newPlain, ahead, fits, ?_, ?_⟩
  · exact applyFrom_cut cut aligns
  · exact applyFrom_reverse_cut cut aligns

theorem unified_is_patch_line : ('\n' ∉ "old".toList ∧ '\n' ∉ "new".toList) ∧
    ∃ cs, readPatch ((compute [0x61, 0x0A] [0x62, 0x0A] 3).unified "old" "new") = some cs ∧
      apply cs [[0x61]] = some [[0x62]] ∧ apply (cs.map Chunk.reverse) [[0x62]] = some [[0x61]] := by
  have oldPlain : '\n' ∉ "old".toList := by decide
  have newPlain : '\n' ∉ "new".toList := by decide
  obtain ⟨cs, read, -, -, there, back⟩ :=
    unified_is_patch [0x61, 0x0A] [0x62, 0x0A] 3 oldPlain newPlain
  exact ⟨⟨oldPlain, newPlain⟩, cs, read, there, back⟩

end Desugar.Diff

import Mathlib.Data.List.Induction
import Mathlib.Data.List.TakeWhile
import Desugar.Proofs.Text.Encoding
import Desugar.Text.CharClass

/-!
# Texts cut apart, searched and trimmed
-/

/-!
## Texts cut apart

A text that is put behind another one without a mark of its own goes to the last part. A run of characters that
pass a test is cut off in front of the first one that does not.
-/
namespace Desugar

variable {α : Type} [BEq α] [LawfulBEq α] {a : α}

theorem splitOn_append_of_not_mem (xs : List α) {s : List α} (plain : a ∉ s) :
    (xs ++ s).splitOn a = (xs.splitOn a).dropLast ++ [((xs.splitOn a).getLast?).getD [] ++ s] := by
  induction xs using List.reverseRecOn generalizing s with
  | nil => simp [List.splitOn_eq_singleton plain]
  | append_singleton xs c ih =>
    rw [List.append_assoc, List.singleton_append]
    by_cases mark : c = a
    · subst mark
      rw [List.splitOn_append_cons_self, List.splitOn_append_cons_self, List.splitOn_eq_singleton plain]
      simp
    · have first : a ∉ [c] := by simpa using Ne.symm mark
      have both : a ∉ c :: s := by simp [plain, Ne.symm mark]
      rw [ih both, ih first]
      simp

theorem not_mem_of_mem_splitOn {xs part : List α} (member : part ∈ xs.splitOn a) : a ∉ part := by
  induction xs using List.reverseRecOn generalizing part with
  | nil =>
    obtain rfl : part = [] := by simpa using member
    simp
  | append_singleton xs c ih =>
    by_cases mark : c = a
    · subst mark
      rw [List.splitOn_append_cons_self, List.mem_append] at member
      rcases member with front | last
      · exact ih front
      · obtain rfl : part = [] := by simpa using last
        simp
    · have first : a ∉ [c] := by simpa using Ne.symm mark
      rw [splitOn_append_of_not_mem xs first, List.mem_append, List.mem_singleton] at member
      rcases member with front | rfl
      · exact ih ((List.dropLast_sublist _).subset front)
      · have last : a ∉ ((xs.splitOn a).getLast?).getD [] := by
          cases found : (xs.splitOn a).getLast? with
          | none => simp
          | some part => exact ih (List.mem_of_getLast? found)
        simp [last, Ne.symm mark]

section

variable {α : Type} {p : α → Bool} {run rest : List α}

/-- What follows a run does not go on with it. -/
def Stops (p : α → Bool) (rest : List α) : Prop := ∀ c, rest.head? = some c → p c = false

theorem stops_cons {c : α} (fails : p c = false) : Stops p (c :: rest) := by
  intro c' head
  obtain rfl := Option.some.inj head
  exact fails

theorem takeWhile_run (all : ∀ c ∈ run, p c = true) (stops : Stops p rest) : (run ++ rest).takeWhile p = run := by
  rw [List.takeWhile_append_of_pos all]
  cases rest with
  | nil => simp
  | cons c rest => simp [stops c rfl]

theorem dropWhile_of_stops (stops : Stops p rest) : rest.dropWhile p = rest := by
  cases rest with
  | nil => rfl
  | cons c rest => simp [stops c rfl]

theorem dropWhile_run (all : ∀ c ∈ run, p c = true) (stops : Stops p rest) : (run ++ rest).dropWhile p = rest := by
  rw [List.dropWhile_append_of_pos all, dropWhile_of_stops stops]

end

end Desugar

/-!
## Texts searched and trimmed

A text stands in another one where it is first found. A text without the blank space at its start and end
stands in the whole one between the bytes of two runs of blank characters: a byte that starts no character
is not blank.
-/
namespace Desugar.Text

/-! ### Searching -/

section
variable {pattern text before after : Bytes}

theorem indexOf_eq_none (nonempty : pattern ≠ []) : indexOf pattern text = none ↔ ¬ pattern <:+: text := by
  induction text with
  | nil => simp [indexOf, nonempty]
  | cons b text ih =>
    rw [indexOf, List.infix_cons_iff, not_or, ← ih, ← List.isPrefixOf_iff_prefix]
    cases pattern.isPrefixOf (b :: text) <;> simp

theorem prefix_of_indexOf (nonempty : pattern ≠ []) {i : Nat} (found : indexOf pattern text = some i) :
    pattern <+: text.drop i ∧ i < text.length := by
  induction text generalizing i with
  | nil => simp [indexOf, nonempty] at found
  | cons b text ih =>
    rw [indexOf] at found
    split at found
    · rename_i front
      obtain rfl := Option.some.inj found
      exact ⟨List.isPrefixOf_iff_prefix.mp front, Nat.zero_lt_succ _⟩
    · obtain ⟨j, behind, rfl⟩ := Option.map_eq_some_iff.mp found
      obtain ⟨front, inside⟩ := ih behind
      exact ⟨front, Nat.succ_lt_succ inside⟩

theorem contains_iff (nonempty : pattern ≠ []) : contains pattern text = true ↔ pattern <:+: text := by
  rw [contains, Option.isSome_iff_ne_none, ne_eq, indexOf_eq_none nonempty, Decidable.not_not]

/-- Behind bytes that it does not start with, a text is found at once. -/
theorem indexOf_behind {b : UInt8} (first : pattern.head? = some b) (free : b ∉ before)
    (front : pattern <+: after) : indexOf pattern (before ++ after) = some before.length := by
  induction before with
  | nil =>
    cases after with
    | nil =>
      rw [List.prefix_nil.mp front] at first
      cases first
    | cons c after => rw [List.nil_append, indexOf, if_pos (List.isPrefixOf_iff_prefix.mpr front)]; rfl
  | cons c before ih =>
    rw [List.mem_cons, not_or] at free
    have other : ¬ pattern.isPrefixOf (c :: (before ++ after)) = true := by
      rw [List.isPrefixOf_iff_prefix]
      rintro ⟨rest, same⟩
      have head := congrArg List.head? same
      rw [List.head?_append, first] at head
      exact free.1 (Option.some.inj head)
    rw [List.cons_append, indexOf, if_neg other, ih free.2]
    rfl

end

/-! ### Trimming -/

/-- All blank characters. -/
def blanks : List Char :=
  [0x09, 0x0A, 0x0B, 0x0C, 0x0D, 0x20, 0x85, 0xA0, 0x1680, 0x2000, 0x2001, 0x2002, 0x2003, 0x2004, 0x2005,
    0x2006, 0x2007, 0x2008, 0x2009, 0x200A, 0x2028, 0x2029, 0x202F, 0x205F, 0x3000].map Char.ofNat

theorem mem_blanks {c : Char} (space : isSpace c = true) : c ∈ blanks := by
  refine List.mem_map.mpr ⟨c.toNat, ?_, Char.ofNat_toNat c⟩
  simp only [isSpace, Bool.or_eq_true, Bool.and_eq_true, decide_eq_true_eq, beq_iff_eq] at space
  simp only [List.mem_cons, List.not_mem_nil, or_false]
  omega

/-- What holds of no blank character tells that a character is none. -/
theorem isSpace_eq_false {p : Char → Bool} (noBlank : ∀ c ∈ blanks, p c = false) {c : Char} (holds : p c = true) :
    isSpace c = false := by
  rw [← Bool.not_eq_true]
  intro space
  rw [noBlank c (mem_blanks space)] at holds
  cases holds

/-- The characters of a text stand one behind the other. -/
theorem flatMap_spelledChars (bs : Bytes) : (spelledChars bs).flatMap (·.2) = bs := by
  fun_induction spelledChars bs with
  | case1 => rfl
  | case2 b rest d ih => simp [ih]

/-- A character other than the replacement character stands with its own bytes. -/
theorem spelledChars_snd {bs : Bytes} {c : Char × Bytes} (member : c ∈ spelledChars bs)
    (known : c.1 ≠ replacement) : c.2 = String.utf8EncodeChar c.1 := by
  fun_induction spelledChars bs with
  | case1 => cases member
  | case2 b rest d ih =>
    rcases List.mem_cons.mp member with rfl | later
    · exact (encode_decodeCons known).symm
    · exact ih later

/-- The bytes of a run of blank characters. -/
def IsBlank (bs : Bytes) : Prop := ∃ cs, (∀ c ∈ cs, isSpace c = true) ∧ encode cs = bs

theorem isBlank_flatMap {cs : List (Char × Bytes)}
    (spelt : ∀ c ∈ cs, c.1 ≠ replacement → c.2 = String.utf8EncodeChar c.1)
    (blank : ∀ c ∈ cs, isSpace c.1 = true) : IsBlank (cs.flatMap (·.2)) := by
  refine ⟨cs.map (·.1), fun c member => ?_, ?_⟩
  · obtain ⟨c, inside, rfl⟩ := List.mem_map.mp member
    exact blank c inside
  · rw [encode, List.flatMap_map]
    refine List.flatMap_congr fun c member => (spelt c member ?_).symm
    intro same
    have := blank c member
    rw [same] at this
    revert this
    decide

theorem dropEnd_prefix (text tail : Bytes) : dropEnd text tail <+: text := by
  unfold dropEnd
  split
  · exact List.take_prefix _ _
  · exact List.prefix_rfl

/-- A text is what it is trimmed to between two runs of blank characters. -/
theorem trimBytes_between (bs : Bytes) :
    ∃ before after, bs = before ++ trimBytes bs ++ after ∧ IsBlank before ∧ IsBlank after := by
  have spelt : ∀ c ∈ spelledChars bs, c.1 ≠ replacement → c.2 = String.utf8EncodeChar c.1 :=
    fun c member => spelledChars_snd member
  let blank (c : Char × Bytes) : Bool := isSpace c.1
  let front := (spelledChars bs).takeWhile blank
  let kept := (spelledChars bs).dropWhile blank
  have last : kept.reverse.takeWhile blank ++ kept.reverse.dropWhile blank = kept.reverse :=
    List.takeWhile_append_dropWhile
  have whole : front ++ (kept.reverse.dropWhile blank).reverse ++ (kept.reverse.takeWhile blank).reverse =
      spelledChars bs := by
    rw [List.append_assoc, ← List.reverse_append, last, List.reverse_reverse]
    exact List.takeWhile_append_dropWhile
  refine ⟨front.flatMap (·.2), (kept.reverse.takeWhile blank).reverse.flatMap (·.2), ?_, ?_, ?_⟩
  · conv_lhs => rw [← flatMap_spelledChars bs, ← whole, List.flatMap_append, List.flatMap_append]
    rfl
  · have all : ∀ c ∈ front, blank c = true := fun c member => List.mem_takeWhile_imp member
    exact isBlank_flatMap (fun c member => spelt c ((List.takeWhile_sublist _).subset member)) all
  · have all : ∀ c ∈ (kept.reverse.takeWhile blank).reverse, blank c = true := fun c member =>
      List.mem_takeWhile_imp (List.mem_reverse.mp member)
    refine isBlank_flatMap (fun c member => spelt c ?_) all
    have inside := (List.takeWhile_sublist _).subset (List.mem_reverse.mp member)
    exact (List.dropWhile_sublist _).subset (List.mem_reverse.mp inside)

end Desugar.Text

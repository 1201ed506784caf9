import Desugar.Proofs.Host.Reading

/-!
# What stands between two offsets of a text

The pieces that a text is made of, each by the bytes that it stands on: comments, blanks between
lexemes, and raw strings. What the scanner reads as one of them is one, as far as the faults that it
notes are of no account: an open comment or an open raw string is noted where it starts.
-/
namespace Desugar.Host

/-- A comment stands in a text from `p` up to `q`. A line comment ends before a newline or with the
text, a general comment with the first `*/` behind its opening. -/
inductive CommentAt (text : Bytes) (p q : Nat) : Prop where
  | line (opening : text[p]? = some 0x2F ∧ text[p + 1]? = some 0x2F) (long : p + 2 ≤ q)
      (body : ∀ k, p + 2 ≤ k → k < q → text[k]? ≠ some 0x0A)
      (stop : q = text.length ∨ text[q]? = some 0x0A)
  | general (opening : text[p]? = some 0x2F ∧ text[p + 1]? = some 0x2A) (long : p + 4 ≤ q)
      (body : ∀ k, p + 2 ≤ k → k + 2 < q → ¬ (text[k]? = some 0x2A ∧ text[k + 1]? = some 0x2F))
      (closing : text[q - 2]? = some 0x2A ∧ text[q - 1]? = some 0x2F)

/-- A comment ends where the first end behind its opening is. -/
theorem CommentAt.unique {text : Bytes} {p q r : Nat} (first : CommentAt text p q)
    (second : CommentAt text p r) : q = r := by
  cases first with
  | line opening long body stop =>
    cases second with
    | line _ long' body' stop' =>
      -- The text ends at one of the two, or a newline stands there: inside of the other comment neither can be.
      have least {q r : Nat} (long : p + 2 ≤ q) (body : ∀ k, p + 2 ≤ k → k < r → text[k]? ≠ some 0x0A)
          (stop : q = text.length ∨ text[q]? = some 0x0A) (bound : r ≤ text.length) : r ≤ q := by
        rcases stop with last | newline
        · omega
        · exact Nat.le_of_not_lt fun less => body q long less newline
      have bound {q : Nat} (stop : q = text.length ∨ text[q]? = some 0x0A) : q ≤ text.length :=
        stop.elim Nat.le_of_eq fun newline => Nat.le_of_lt (List.getElem?_eq_some_iff.mp newline).1
      exact Nat.le_antisymm (least long' body stop' (bound stop)) (least long body' stop (bound stop'))
    | general opening' => exact absurd (opening.2.symm.trans opening'.2) (by decide)
  | general opening long body closing =>
    cases second with
    | line opening' => exact absurd (opening.2.symm.trans opening'.2) (by decide)
    | general _ long' body' closing' =>
      have least {q r : Nat} (long : p + 4 ≤ q) (closing : text[q - 2]? = some 0x2A ∧ text[q - 1]? = some 0x2F)
          (body : ∀ k, p + 2 ≤ k → k + 2 < r → ¬ (text[k]? = some 0x2A ∧ text[k + 1]? = some 0x2F)) : r ≤ q := by
        refine Nat.le_of_not_lt fun less => body (q - 2) (by omega) (by omega) ⟨closing.1, ?_⟩
        rw [show q - 2 + 1 = q - 1 by omega]
        exact closing.2
      exact Nat.le_antisymm (least long' closing' body) (least long closing body')

/-- A byte of white space. -/
def isSpace (b : UInt8) : Bool := b == 0x20 || b == 0x09 || b == 0x0D || b == 0x0A

/-- White space and comments stand in a text from one offset up to another, behind a byte order mark
where the text starts with one. -/
inductive Blank (text : Bytes) : Nat → Nat → Prop where
  | refl (p : Nat) : Blank text p p
  | mark {q : Nat} : [0xEF, 0xBB, 0xBF] <+: text → Blank text 3 q → Blank text 0 q
  | space {p q : Nat} {b : UInt8} : text[p]? = some b → isSpace b = true → Blank text (p + 1) q →
      Blank text p q
  | comment {p m q : Nat} : CommentAt text p m → Blank text m q → Blank text p q

theorem Blank.trans {text : Bytes} {p m q : Nat} (first : Blank text p m)
    (second : Blank text m q) : Blank text p q := by
  induction first with
  | refl => exact second
  | mark start _ ih => exact .mark start (ih second)
  | space byte blank _ ih => exact .space byte blank (ih second)
  | comment piece _ ih => exact .comment piece (ih second)

theorem CommentAt.lt {text : Bytes} {p q : Nat} (h : CommentAt text p q) : p < q := by
  cases h <;> omega

theorem Blank.le {text : Bytes} {p q : Nat} (blank : Blank text p q) : p ≤ q := by
  induction blank with
  | refl => exact Nat.le_refl _
  | mark => exact Nat.zero_le _
  | space _ _ _ ih => omega
  | comment piece _ ih => exact Nat.le_trans (Nat.le_of_lt piece.lt) ih

/-- A raw string stands in a text from `p` up to `q`, which is behind the next back quote. -/
structure RawAt (text : Bytes) (p q : Nat) : Prop where
  opening : text[p]? = some 0x60
  long : p + 2 ≤ q
  body : ∀ k, p < k → k + 1 < q → text[k]? ≠ some 0x60
  closing : text[q - 1]? = some 0x60

/-- A raw string ends with its second back quote. -/
theorem RawAt.unique {text : Bytes} {p q r : Nat} (first : RawAt text p q)
    (second : RawAt text p r) : q = r := by
  have long := first.long
  have long' := second.long
  rcases Nat.lt_trichotomy q r with less | same | more
  · exact absurd first.closing (second.body (q - 1) (by omega) (by omega))
  · exact same
  · exact absurd second.closing (first.body (r - 1) (by omega) (by omega))

/-- No newline stands in a text from `p` up to `q`. -/
def Straight (text : Bytes) (p q : Nat) : Prop := ∀ k, p ≤ k → k < q → text[k]? ≠ some 0x0A

theorem Straight.refl {text : Bytes} (p : Nat) : Straight text p p := fun _ behind before =>
  absurd before (Nat.not_lt.mpr behind)

theorem Straight.trans {text : Bytes} {p m q : Nat} (first : Straight text p m)
    (second : Straight text m q) : Straight text p q := fun k behind before =>
  (Nat.lt_or_ge k m).elim (first k behind) fun le => second k le before

/-- Only white space stands in a text from `p` up to `q`. -/
structure Spaces (text : Bytes) (p q : Nat) : Prop where
  le : p ≤ q
  bytes : ∀ k, p ≤ k → k < q → ∃ b, text[k]? = some b ∧ isSpace b = true

theorem Spaces.refl {text : Bytes} (p : Nat) : Spaces text p p :=
  ⟨Nat.le_refl p, fun _ behind before => absurd before (Nat.not_lt.mpr behind)⟩

theorem Spaces.trans {text : Bytes} {p m q : Nat} (first : Spaces text p m)
    (second : Spaces text m q) : Spaces text p q :=
  ⟨Nat.le_trans first.le second.le, fun k behind before =>
    (Nat.lt_or_ge k m).elim (first.bytes k behind) fun le => second.bytes k le before⟩

theorem Spaces.one {text : Bytes} {p : Nat} {b : UInt8} (byte : text[p]? = some b) (space : isSpace b = true) :
    Spaces text p (p + 1) := by
  refine ⟨Nat.le_succ p, fun k behind before => ?_⟩
  obtain rfl : k = p := by omega
  exact ⟨b, byte, space⟩

/-- White space does not go past a byte that is none. -/
theorem Spaces.le_of_byte {text : Bytes} {p q o : Nat} (h : Spaces text p q) (behind : p ≤ o) {b : UInt8}
    (byte : text[o]? = some b) (other : isSpace b = false) : q ≤ o := by
  refine Nat.le_of_not_lt fun less => ?_
  obtain ⟨b', byte', space⟩ := h.bytes o behind less
  rw [byte] at byte'
  rw [← Option.some.inj byte', other] at space
  cases space

theorem Spaces.blank {text : Bytes} {p q : Nat} (h : Spaces text p q) : Blank text p q := by
  obtain ⟨n, rfl⟩ := Nat.exists_eq_add_of_le h.le
  induction n generalizing p with
  | zero => exact .refl p
  | succ n ih =>
    obtain ⟨b, byte, space⟩ := h.bytes p (Nat.le_refl p) (by omega)
    have rest : Spaces text (p + 1) (p + 1 + n) :=
      ⟨by omega, fun k behind before => h.bytes k (by omega) (by omega)⟩
    rw [← Nat.add_assoc, Nat.add_right_comm]
    exact .space byte space (ih rest)

/-- Faults that are of no account: those about a question mark. -/
def Masked (text : Bytes) (faults : List Located) : Prop :=
  ∀ f ∈ faults, text[f.offset]? = some 0x3F

namespace Scan

open Reader

variable {text : Bytes} {r : Reader}

theorem spaces_skipWhile (ends : Bool) (h : r.At text) :
    Spaces text r.offset (r.skipWhile (isBlank ends)).offset := by
  fun_induction Reader.skipWhile (isBlank ends) r with
  | case1 r c char blank ih =>
    simp only [isBlank, Bool.or_eq_true, beq_iff_eq, Bool.and_eq_true] at blank
    have small : c.toNat < 0x80 := by
      rcases blank with ((rfl | rfl) | rfl) | ⟨rfl, -⟩ <;> decide
    have space : isSpace (UInt8.ofNat c.toNat) = true := by
      rcases blank with ((rfl | rfl) | rfl) | ⟨rfl, -⟩ <;> decide
    obtain ⟨byte, next⟩ := h.next_of_ascii char small
    have rest := ih h.next
    rw [next] at rest
    exact (Spaces.one byte space).trans rest
  | case2 => exact .refl _
  | case3 => exact .refl _

theorem blank_skipWhile (ends : Bool) (h : r.At text) :
    Blank text r.offset (r.skipWhile (isBlank ends)).offset := (spaces_skipWhile ends h).blank

/-- A character other than a newline has no newline among its bytes. -/
theorem straight_next (h : r.At text) {c : Char} (char : r.char? = some c) (other : c ≠ '\n') :
    Straight text r.offset r.next.offset := by
  intro k behind before byte
  obtain ⟨-, -, value⟩ := h.small_byte char behind before byte (by decide)
  exact other (Char.toNat_inj.mp value)

theorem straight_skipWhile {p : Char → Bool} (stops : p '\n' = false) (h : r.At text) :
    Straight text r.offset (r.skipWhile p).offset := by
  fun_induction Reader.skipWhile p r with
  | case1 r c char holds ih =>
    have other : c ≠ '\n' := by
      rintro rfl
      rw [stops] at holds
      cases holds
    exact (straight_next h char other).trans (ih h.next)
  | case2 => exact .refl _
  | case3 => exact .refl _

/-- A raw string is read up to its closing back quote, unless a fault is noted at its start. -/
theorem rawBody_closes (start : Nat) (h : r.At text) :
    ⟨start, .openRawString⟩ ∈ (rawBody start r).faults ∨
      (r.offset < (rawBody start r).offset ∧ text[(rawBody start r).offset - 1]? = some 0x60 ∧
        ∀ k, r.offset ≤ k → k + 1 < (rawBody start r).offset → text[k]? ≠ some 0x60) := by
  fun_induction rawBody start r with
  | case1 r char => exact .inl List.mem_cons_self
  | case2 r c char quote =>
    rw [beq_iff_eq] at quote
    subst quote
    obtain ⟨byte, next⟩ := h.next_of_ascii char (by decide)
    right
    rw [next]
    exact ⟨by omega, byte, by omega⟩
  | case3 r c char other ih =>
    rcases ih h.next with fault | ⟨long, closing, body⟩
    · exact .inl fault
    · refine .inr ⟨Nat.lt_of_le_of_lt h.offset_le_next long, closing, ?_⟩
      intro k behind before byte
      rcases Nat.lt_or_ge k r.next.offset with inside | outside
      · obtain ⟨-, -, value⟩ := h.small_byte char behind inside byte (by decide)
        refine absurd ?_ other
        rw [beq_iff_eq, ← Char.toNat_inj, value]
        decide
      · exact body k outside before byte

/-- A general comment that is closed is read up to the first `*/`. -/
theorem generalBody_closes (newline : Option Nat) (h : r.At text)
    (closed : (generalBody r newline).2.2 = true) :
    r.offset + 2 ≤ (generalBody r newline).1.offset ∧
      (text[(generalBody r newline).1.offset - 2]? = some 0x2A ∧
        text[(generalBody r newline).1.offset - 1]? = some 0x2F) ∧
      ∀ k, r.offset ≤ k → k + 2 < (generalBody r newline).1.offset →
        ¬ (text[k]? = some 0x2A ∧ text[k + 1]? = some 0x2F) := by
  fun_induction generalBody r newline with
  | case1 => cases closed
  | case2 r newline c char _ mark =>
    rw [Bool.and_eq_true, beq_iff_eq] at mark
    obtain ⟨rfl, slash⟩ := mark
    obtain ⟨star, next⟩ := h.next_of_ascii char (by decide)
    obtain ⟨close, last⟩ := h.next.next_of_ascii (char_of_sees slash) (by decide)
    rw [next] at close last
    rw [last]
    exact ⟨by omega, ⟨star, close⟩, by omega⟩
  | case3 r newline c char _ other ih =>
    obtain ⟨long, closing, body⟩ := ih h.next closed
    have forward := h.offset_le_next
    refine ⟨by omega, closing, ?_⟩
    rintro k behind before ⟨star, slash⟩
    rcases Nat.lt_or_ge k r.next.offset with inside | outside
    · -- A star inside of this character is the character, and the slash behind it is seen.
      obtain ⟨here, next, value⟩ := h.small_byte char behind inside star (by decide)
      refine absurd ?_ other
      rw [Bool.and_eq_true, beq_iff_eq, ← Char.toNat_inj, value]
      refine ⟨by decide, ?_⟩
      rw [here, ← next] at slash
      simp [sees, h.next.char_of_byte slash (by decide)]
    · exact body k outside before ⟨star, slash⟩

/-- A line comment is read up to the end of its line. -/
theorem skipLine_stops (h : r.At text) :
    Straight text r.offset (r.skipWhile (· != '\n')).offset ∧
      ((r.skipWhile (· != '\n')).offset = text.length ∨
        text[(r.skipWhile (· != '\n')).offset]? = some 0x0A) := by
  refine ⟨straight_skipWhile (by decide) h, ?_⟩
  fun_induction Reader.skipWhile (· != '\n') r with
  | case1 r c char other ih => exact ih h.next
  | case2 r c char newline =>
    rw [bne_iff_ne, ne_eq, Decidable.not_not] at newline
    subst newline
    exact .inr (h.next_of_ascii char (by decide)).1
  | case3 r char => exact .inl (h.offset_eq_of_char char)

/-- What is read as a comment is one, unless a fault is noted at its start. -/
theorem commentBody_extent (h : r.At text) (slash : r.char? = some '/')
    (second : r.next.sees '/' = true ∨ r.next.sees '*' = true) :
    CommentAt text r.offset (commentBody r).1.offset ∨
      ⟨r.offset, .openComment⟩ ∈ (commentBody r).1.faults := by
  obtain ⟨first, next⟩ := h.next_of_ascii slash (by decide)
  unfold commentBody
  split
  · rename_i star
    obtain ⟨mark, behind⟩ := h.next.next_of_ascii (char_of_sees star) (by decide)
    rw [next] at mark behind
    dsimp only
    split
    · rename_i closed
      obtain ⟨long, closing, body⟩ := generalBody_closes none h.next.next closed
      rw [behind] at long body
      exact .inl (.general ⟨first, mark⟩ (by omega) body closing)
    · exact .inr List.mem_cons_self
  · rename_i other
    have line := second.resolve_right other
    obtain ⟨mark, behind⟩ := h.next.next_of_ascii (char_of_sees line) (by decide)
    rw [next] at mark behind
    obtain ⟨body, stop⟩ := skipLine_stops h.next.next
    have long := h.next.next.offset_le (reaches_skipWhile (· != '\n') r.next.next)
    rw [behind] at body long
    exact .inl (.line ⟨first, mark⟩ long body stop)

end Scan
end Desugar.Host

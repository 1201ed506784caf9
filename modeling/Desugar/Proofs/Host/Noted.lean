import Desugar.Proofs.Host.Lexeme
import Desugar.Proofs.Host.Twin.Number

/-!
# Where faults stand

A fault is about a character that may not stand in a source, about a whole literal or comment, which
stands where that is opened, or about the inside of a number, an escape or a line directive. Only one
of the last sort, or the fault of a question mark that is a lexeme of its own, can stand at a question
mark. A fault can stand at the end of the text, but not if a newline ends it.
-/
namespace Desugar.Host

open Reader

/-- The fault is about the inside of a number, an escape or a line directive. -/
def Fault.isInner : Fault → Bool
  | .unknownEscape | .openEscape | .escapeCharacter _ | .escapeValue => true
  | .radixPoint _ | .noDigits _ | .decimalExponent _ | .hexadecimalExponent _ => true
  | .exponentDigits | .missingExponent | .invalidDigit _ _ | .separator => true
  | .lineNumber _ | .columnNumber _ => true
  | _ => false

/-- The fault of a question mark that is a lexeme of its own. -/
structure Lexeme.IsQuestion (l : Lexeme) (f : Located) : Prop where
  kind : l.kind = .illegal
  literal : l.literal = [0x3F]
  fault : f = ⟨l.offset, .illegalCharacter '?'⟩

/-- An offset of the text, its end included unless a newline ends it. -/
structure Inside (text : Bytes) (o : Nat) : Prop where
  le : o ≤ text.length
  unended : o = text.length → text.getLast? ≠ some 0x0A

/-- What every fault keeps: it is about the inside of something if it stands at a question mark. -/
structure Placed (text : Bytes) (f : Located) : Prop where
  inner : text[f.offset]? = some 0x3F → f.fault.isInner = true
  inside : Inside text f.offset

variable {text : Bytes} {r s t : Reader} {o : Nat} {f : Fault}

theorem Inside.mono {p : Nat} (h : Inside text o) (before : p ≤ o) : Inside text p :=
  ⟨Nat.le_trans before h.le, fun last => h.unended (Nat.le_antisymm h.le (last ▸ before))⟩

theorem inside_of_lt (less : o < text.length) : Inside text o :=
  ⟨Nat.le_of_lt less, fun last => absurd last (Nat.ne_of_lt less)⟩

theorem placed_inner (inside : Inside text o) (inner : f.isInner = true) : Placed text ⟨o, f⟩ :=
  ⟨fun _ => inner, inside⟩

theorem placed_byte {b : UInt8} (byte : text[o]? = some b) (other : b ≠ 0x3F) : Placed text ⟨o, f⟩ := by
  refine ⟨fun mark => ?_, inside_of_lt (List.getElem?_eq_some_iff.mp byte).1⟩
  rw [byte] at mark
  exact absurd (Option.some.inj mark) other

/-- Every fault that is noted between two readers is placed. -/
def Notes (text : Bytes) (r s : Reader) : Prop := ∀ f ∈ s.faults, f ∈ r.faults ∨ Placed text f

namespace Notes

theorem refl : Notes text r r := fun _ noted => .inl noted

theorem trans (first : Notes text r s) (second : Notes text s t) : Notes text r t := fun f noted =>
  (second f noted).elim (first f) .inr

theorem fault (h : Notes text r s) (placed : Placed text ⟨o, f⟩) : Notes text r (s.fault o f) := by
  intro f' noted
  rcases List.mem_cons.mp noted with rfl | before
  · exact .inr placed
  · exact h f' before

end Notes

namespace Reader

theorem At.inside_of_char (h : r.At text) {c : Char} (char : r.char? = some c) : Inside text r.offset :=
  inside_of_lt (h.offset_lt_of_char char).1

/-- Behind a character other than a newline the text may end. -/
theorem At.inside_next (h : r.At text) {c : Char} (char : r.char? = some c) (other : c ≠ '\n') :
    Inside text r.next.offset := by
  refine ⟨h.next.bound, fun last newline => other ?_⟩
  obtain ⟨inside, forward⟩ := h.offset_lt_of_char char
  rw [List.getLast?_eq_getElem?] at newline
  obtain ⟨-, -, value⟩ := h.small_byte char (k := text.length - 1) (by omega) (by omega) newline (by decide)
  exact Char.toNat_inj.mp value

/-- A character that may not stand in a source is no question mark. -/
theorem notes_inspect (here : r.rest.head? = text[r.offset]?) : Notes text r r.inspect := by
  unfold inspect
  split
  · rename_i f wrong
    cases front : r.rest with
    | nil => rw [front] at wrong; cases wrong
    | cons b rest =>
      rw [front] at wrong here
      refine Notes.refl.fault (placed_byte here.symm ?_)
      rintro rfl
      simp [characterFault?, Text.decodeCons] at wrong
  · exact .refl

theorem notes_next (h : r.At text) : Notes text r r.next := by
  have there := h.next
  cases front : r.rest with
  | nil => rw [next_of_nil front]; exact .refl
  | cons b rest =>
    unfold next at there ⊢
    rw [front] at there ⊢
    refine notes_inspect ?_
    have start := there.rest
    rw [inspect_rest, inspect_offset] at start
    rw [start, List.head?_drop]

theorem notes_skipWhile (p : Char → Bool) (h : r.At text) : Notes text r (r.skipWhile p) := by
  fun_induction skipWhile p r with
  | case1 r c char holds ih => exact (notes_next h).trans (ih h.next)
  | case2 => exact .refl
  | case3 => exact .refl

theorem placed_ofText (text : Bytes) : ∀ f ∈ (ofText text).faults, Placed text f := by
  have whole : At text ⟨0, text, text.length, 0, []⟩ := ⟨rfl, rfl, Nat.zero_le _⟩
  unfold ofText
  dsimp only
  split
  · exact List.forall_mem_singleton.mpr (placed_byte rfl (by decide))
  · exact List.forall_mem_singleton.mpr (placed_byte rfl (by decide))
  · split
    · exact fun f noted => (notes_next whole f noted).resolve_left (by simp)
    · have here : text.head? = text[0]? := by cases text <;> rfl
      exact fun f noted => (notes_inspect here f noted).resolve_left (by simp)

end Reader

namespace Scan

/-! ## Numbers and escapes

No newline is passed here, so that all faults are inside of the text. -/

/-- What is reached inside of the text on one line, with placed faults. -/
structure Goes (text : Bytes) (r s : Reader) : Prop where
  stands : s.At text
  notes : Notes text r s
  inside : Inside text s.offset
  le : r.offset ≤ s.offset
  straight : Straight text r.offset s.offset

namespace Goes

theorem refl (h : r.At text) (inside : Inside text r.offset) : Goes text r r :=
  ⟨h, .refl, inside, Nat.le_refl _, .refl _⟩

theorem trans (first : Goes text r s) (second : Goes text s t) : Goes text r t :=
  ⟨second.stands, first.notes.trans second.notes, second.inside, Nat.le_trans first.le second.le,
    first.straight.trans second.straight⟩

theorem next (h : Goes text r s) {c : Char} (char : s.char? = some c) (other : c ≠ '\n') :
    Goes text r s.next :=
  ⟨h.stands.next, h.notes.trans (notes_next h.stands), h.stands.inside_next char other,
    Nat.le_trans h.le h.stands.offset_le_next, h.straight.trans (straight_next h.stands char other)⟩

theorem sees (h : Goes text r s) {c : Char} (char : s.sees c = true) (other : c ≠ '\n') :
    Goes text r s.next := h.next (char_of_sees char) other

theorem fault (h : Goes text r s) (inside : Inside text o) (inner : f.isInner = true) :
    Goes text r (s.fault o f) :=
  ⟨h.stands.fault _ _, h.notes.fault (placed_inner inside inner), h.inside, h.le, h.straight⟩

end Goes

/-- What is too large a digit stands before an offset. -/
def Digits.Before (n : Nat) (seen : Digits) : Prop := ∀ i, seen.invalid = some i → i ≤ n

theorem goes_digits (base : Nat) (h : r.At text) (inside : Inside text r.offset) {seen : Digits}
    (before : seen.Before r.offset) : Goes text r (digits base r seen).1 ∧
      (digits base r seen).2.Before (digits base r seen).1.offset := by
  have once {r : Reader} (h : r.At text) (inside : Inside text r.offset) {c : Char}
      (char : r.char? = some c) (other : c ≠ '\n') : Goes text r r.next := (Goes.refl h inside).next char other
  fun_induction digits base r seen with
  | case1 => exact ⟨.refl h inside, before⟩
  | case2 r seen c char separator ih =>
    have go := once h inside char (by rintro rfl; exact absurd separator (by decide))
    exact (ih go.stands go.inside fun i found => Nat.le_trans (before i found) go.le).imp_left go.trans
  | case3 r seen c char separator small digit bad ih =>
    have go := once h inside char (by rintro rfl; exact absurd digit (by decide))
    refine (ih go.stands go.inside fun i found => ?_).imp_left go.trans
    cases known : seen.invalid with
    | some j =>
      rw [known] at found
      obtain rfl : j = i := Option.some.inj found
      exact Nat.le_trans (before j known) go.le
    | none =>
      rw [known] at found
      have found : bad = some i := found
      dsimp only [bad] at found
      split at found
      · cases found
      · obtain rfl := Option.some.inj found
        exact go.le
  | case4 => exact ⟨.refl h inside, before⟩
  | case5 r seen c char separator large digit ih =>
    have go := once h inside char (by rintro rfl; exact absurd digit (by decide))
    exact (ih go.stands go.inside fun i found => Nat.le_trans (before i found) go.le).imp_left go.trans
  | case6 => exact ⟨.refl h inside, before⟩

theorem goes_numberBase (h : r.At text) (inside : Inside text r.offset) :
    Goes text r (numberBase r).1 := by
  unfold numberBase
  split
  · rename_i zero
    have once := (Goes.refl h inside).sees zero (by decide)
    have marked {m : Char} (mark : (r.next.char?).map lower = some m) (other : lower '\n' ≠ m) :
        Goes text r r.next.next := by
      obtain ⟨c, char, same⟩ := Option.map_eq_some_iff.mp mark
      exact once.next char (by rintro rfl; exact other same)
    dsimp only
    split
    · exact marked ‹_› (by decide)
    · exact marked ‹_› (by decide)
    · exact marked ‹_› (by decide)
    · exact once
  · exact .refl h inside

theorem goes_wholePart (h : r.At text) (inside : Inside text r.offset) :
    Goes text r (wholePart r).1 ∧ (wholePart r).2.2.2.2.Before (wholePart r).1.offset := by
  unfold wholePart
  split
  · refine ⟨.refl h inside, fun i noted => ?_⟩
    cases noted
  · have base := goes_numberBase h inside
    refine (goes_digits _ base.stands base.inside fun i noted => ?_).imp_left base.trans
    cases noted

theorem goes_fraction (base : Nat) (radix : Radix) (h : Goes text r s) (kind : Kind) {seen : Digits}
    (before : seen.Before s.offset) : Goes text r (fraction base radix s kind seen).1 ∧
      (fraction base radix s kind seen).2.2.Before (fraction base radix s kind seen).1.offset := by
  unfold fraction
  split
  · rename_i point
    generalize marked : (if radix = .octal || radix = .binary then
        s.fault s.offset (.radixPoint radix) else s) = m
    have mark : Goes text r m ∧ m.sees '.' = true ∧ m.offset = s.offset := by
      subst marked
      split
      · exact ⟨h.fault h.inside rfl, point, rfl⟩
      · exact ⟨h, point, rfl⟩
    have once := mark.1.sees mark.2.1 (by decide)
    refine (goes_digits _ once.stands once.inside fun i found => ?_).imp_left once.trans
    exact Nat.le_trans (before i found) (mark.2.2 ▸ mark.1.stands.offset_le_next)
  · exact ⟨h, before⟩

theorem goes_exponent (radix : Radix) (h : Goes text r s) (kind : Kind) {seen : Digits}
    (before : seen.Before s.offset) : Goes text r (exponent radix s kind seen).1 ∧
      (exponent radix s kind seen).2.2.Before (exponent radix s kind seen).1.offset := by
  have plain : Goes text r (exponent.plain radix kind seen s).1 ∧
      (exponent.plain radix kind seen s).2.2.Before (exponent.plain radix kind seen s).1.offset := by
    unfold exponent.plain
    split
    · exact ⟨h.fault h.inside rfl, before⟩
    · exact ⟨h, before⟩
  unfold exponent
  split
  · exact plain
  · rename_i c char
    dsimp only
    split
    · rename_i letter
      generalize marked : (if lower c == 'e' && radix ≠ .decimal && radix ≠ .zero then
          s.fault s.offset (.decimalExponent c)
        else if lower c == 'p' && radix ≠ .hexadecimal then
          s.fault s.offset (.hexadecimalExponent c)
        else s) = m
      have mark : Goes text r m ∧ m.char? = some c ∧ m.offset = s.offset := by
        subst marked
        repeat' split
        · exact ⟨h.fault h.inside rfl, char, rfl⟩
        · exact ⟨h.fault h.inside rfl, char, rfl⟩
        · exact ⟨h, char, rfl⟩
      obtain ⟨go, char, same⟩ := mark
      have once := go.next char (by rintro rfl; exact absurd letter (by decide))
      have signed : Goes text r (if m.next.sees '+' || m.next.sees '-' then m.next.next else m.next) ∧
          m.offset ≤ (if m.next.sees '+' || m.next.sees '-' then m.next.next else m.next).offset := by
        have behind := go.stands.offset_le_next
        split
        · rename_i sign
          rw [Bool.or_eq_true] at sign
          refine ⟨sign.elim (once.sees · (by decide)) (once.sees · (by decide)), ?_⟩
          exact Nat.le_trans behind once.stands.offset_le_next
        · exact ⟨once, behind⟩
      generalize (if m.next.sees '+' || m.next.sees '-' then m.next.next else m.next) = n at signed ⊢
      have fresh : (⟨false, false, none⟩ : Digits).Before n.offset := nofun
      obtain ⟨go', -⟩ := goes_digits 10 signed.1.stands signed.1.inside fresh
      have done := signed.1.trans go'
      have kept : seen.Before (digits 10 n ⟨false, false, none⟩).1.offset := fun i found =>
        Nat.le_trans (before i found) (same ▸ Nat.le_trans signed.2 go'.le)
      split
      · exact ⟨done, kept⟩
      · exact ⟨done.fault done.inside rfl, kept⟩
    · exact plain

theorem goes_checkDigits {start : Nat} (kind : Kind) (radix : Radix) {seen : Digits} {literal : Bytes}
    (h : Goes text r s) (before : seen.Before s.offset) (long : start + literal.length ≤ s.offset) :
    Goes text r (checkDigits start kind radix seen literal s) := by
  have digit {i : Nat} (found : seen.invalid = some i) : Inside text i := h.inside.mono (before i found)
  have separator {i : Nat} (found : misplacedSeparator? (Text.chars literal) = some i) :
      Inside text (start + i) := by
    refine h.inside.mono ?_
    have := misplacedSeparator?_le found
    have := length_chars_le literal
    omega
  unfold checkDigits
  extract_lets m
  have mark : Goes text r m := by
    dsimp only [m]
    split
    · exact h.fault (digit ‹_›) rfl
    · exact h
  split
  · split
    · exact mark.fault (separator ‹_›) rfl
    · exact mark
  · exact mark

theorem goes_number (h : r.At text) (inside : Inside text r.offset) : Goes text r (number r).1 := by
  obtain ⟨whole, before⟩ := goes_wholePart h inside
  have body := goes_fraction (wholePart r).2.2.1 (wholePart r).2.2.2.1 whole (wholePart r).2.1 before
  unfold number
  dsimp only
  generalize fraction _ _ _ _ _ = f at body ⊢
  generalize checked : (if f.2.2.digit = true then f.1 else f.1.fault f.1.offset _) = s
  have there : Goes text r s ∧ f.2.2.Before s.offset := by
    subst checked
    split
    · exact body
    · exact ⟨body.1.fault body.1.inside rfl, body.2⟩
  obtain ⟨go, kept⟩ := goes_exponent (wholePart r).2.2.2.1 there.1 f.2.1 there.2
  generalize exponent _ _ _ _ = e at go kept ⊢
  have imaginary : Goes text r (if e.1.sees 'i' then (e.1.next, Kind.imag) else (e.1, e.2.1)).1 ∧
      e.2.2.Before (if e.1.sees 'i' then (e.1.next, Kind.imag) else (e.1, e.2.1)).1.offset := by
    split
    · rename_i mark
      exact ⟨go.sees mark (by decide), fun i found =>
        Nat.le_trans (kept i found) go.stands.offset_le_next⟩
    · exact ⟨go, kept⟩
  generalize (if e.1.sees 'i' then (e.1.next, Kind.imag) else (e.1, e.2.1)) = q at imaginary ⊢
  refine goes_checkDigits _ _ imaginary.1 imaginary.2 ?_
  have := imaginary.1.le
  unfold between
  rw [List.length_take]
  omega

theorem goes_escapeDigits {start : Nat} (first : Inside text start) (base limit count : Nat)
    (small : base ≤ 16) (h : Goes text r s) (value : Nat) :
    Goes text r (escapeDigits start base limit count s value).1 := by
  induction count generalizing s value with
  | zero =>
    unfold escapeDigits
    split
    · exact h.fault first rfl
    · exact h
  | succ count ih =>
    unfold escapeDigits
    split
    · exact h.fault h.inside rfl
    · rename_i c char
      split
      · rename_i digit
        refine ih (h.next char ?_) _
        rintro rfl
        have noDigit : digitValue '\n' = 16 := by decide
        omega
      · exact h.fault h.inside rfl

theorem goes_escape (mark : Char) (other : mark ≠ '\n') (h : Goes text r s) :
    Goes text r (escape mark s).1 := by
  unfold escape
  split
  · exact h.fault h.inside rfl
  · rename_i c char
    have marked {d : Char} (same : (c == d) = true) (other : d ≠ '\n') : Goes text r s.next :=
      h.next char (by rw [beq_iff_eq.mp same]; exact other)
    split
    · rename_i known
      refine h.next char ?_
      rintro rfl
      rw [Bool.or_eq_true] at known
      rcases known with same | listed
      · exact other (beq_iff_eq.mp same).symm
      · exact absurd listed (by decide)
    split
    · exact goes_escapeDigits h.inside _ _ _ (by decide) h _
    split
    · exact goes_escapeDigits h.inside _ _ _ (by decide) (marked ‹_› (by decide)) _
    split
    · exact goes_escapeDigits h.inside _ _ _ (by decide) (marked ‹_› (by decide)) _
    split
    · exact goes_escapeDigits h.inside _ _ _ (by decide) (marked ‹_› (by decide)) _
    · exact h.fault h.inside rfl

/-! Other faults of a literal or a comment stand at its first byte. -/

section
variable {start : Nat} {b : UInt8} (byte : text[start]? = some b) (other : b ≠ 0x3F)
include byte other

theorem notes_stringBody (h : r.At text) : Notes text r (stringBody start r) := by
  fun_induction stringBody start r with
  | case1 => exact Notes.refl.fault (placed_byte byte other)
  | case2 => exact Notes.refl.fault (placed_byte byte other)
  | case3 r _ _ _ _ => exact notes_next h
  | case4 r c char newline _ backslash ih =>
    have go := goes_escape '"' (by decide) (.refl h.next (h.inside_next char (by simpa using newline)))
    exact ((notes_next h).trans go.notes).trans (ih go.stands)
  | case5 r _ _ _ _ _ ih => exact (notes_next h).trans (ih h.next)

theorem notes_runeBody (h : r.At text) (count : Nat) (valid : Bool) :
    Notes text r (runeBody start r count valid) := by
  fun_induction runeBody start r count valid with
  | case1 => exact Notes.refl.fault (placed_byte byte other)
  | case2 => exact .refl
  | case3 => exact Notes.refl.fault (placed_byte byte other)
  | case4 => exact .refl
  | case5 => exact (notes_next h).fault (placed_byte byte other)
  | case6 => exact notes_next h
  | case7 r count valid c char newline _ backslash e ih =>
    have go := goes_escape '\'' (by decide) (.refl h.next (h.inside_next char (by simpa using newline)))
    exact ((notes_next h).trans go.notes).trans (ih go.stands)
  | case8 r _ _ _ _ _ _ _ ih => exact (notes_next h).trans (ih h.next)

theorem notes_rawBody (h : r.At text) : Notes text r (rawBody start r) := by
  fun_induction rawBody start r with
  | case1 => exact Notes.refl.fault (placed_byte byte other)
  | case2 r _ _ _ => exact notes_next h
  | case3 r _ _ _ ih => exact (notes_next h).trans (ih h.next)

end

theorem notes_generalBody (h : r.At text) (newline : Option Nat) :
    Notes text r (generalBody r newline).1 := by
  fun_induction generalBody r newline with
  | case1 => exact .refl
  | case2 r => exact (notes_next h).trans (notes_next h.next)
  | case3 r _ _ _ _ _ ih => exact (notes_next h).trans (ih h.next)

theorem notes_skip (n : Nat) (h : r.At text) : Notes text r (skip n r) := by
  induction n generalizing r with
  | zero => exact .refl
  | succ n ih => exact (notes_next h).trans (ih h.next)

theorem notes_commentBody {b : UInt8} (byte : text[r.offset]? = some b) (other : b ≠ 0x3F)
    (h : r.At text) : Notes text r (commentBody r).1 := by
  have opened := (notes_next h).trans (notes_next h.next)
  unfold commentBody
  split
  · have body := opened.trans (notes_generalBody h.next.next none)
    dsimp only
    split
    · exact body
    · exact body.fault (placed_byte byte other)
  · exact opened.trans (notes_skipWhile _ h.next.next)

theorem trailingNumber_le {body : Bytes} {i : Nat} {n : Option Int}
    (found : trailingNumber body = some (i, n)) : i ≤ body.length ∧ body ≠ [] := by
  unfold trailingNumber at found
  split at found
  · cases found
  · rename_i k colon
    simp only [Option.some.injEq, Prod.mk.injEq] at found
    refine ⟨by omega, ?_⟩
    rintro rfl
    cases colon

/-- A line directive is at fault for a number in it. -/
theorem lineDirective_placed {dir current : String} {start next : Nat} {body : Bytes} {f : Located}
    (bad : lineDirective dir current start next body = some (.error f)) :
    f.fault.isInner = true ∧ f.offset ≤ start + body.length ∧ body ≠ [] := by
  have inner (i : Nat) : (body.take (i - 1)).length ≤ body.length := by
    rw [List.length_take]
    exact Nat.min_le_right _ _
  unfold lineDirective at bad
  dsimp only at bad
  split at bad
  · cases bad
  · rename_i i found
    obtain ⟨le, nonempty⟩ := trailingNumber_le found
    cases bad
    exact ⟨rfl, Nat.add_le_add_left le start, nonempty⟩
  · rename_i i n found
    obtain ⟨le, nonempty⟩ := trailingNumber_le found
    split at bad
    · rename_i j line before
      have first := Nat.le_trans (trailingNumber_le before).1 (inner i)
      split at bad
      · cases bad
        exact ⟨rfl, Nat.add_le_add_left le start, nonempty⟩
      · split at bad
        · cases bad
          exact ⟨rfl, Nat.add_le_add_left first start, nonempty⟩
        · cases bad
    · split at bad
      · cases bad
        exact ⟨rfl, Nat.add_le_add_left le start, nonempty⟩
      · cases bad

theorem notes_applyDirective (h : Notes text r s) (infos : List LineInfo)
    {directive : Option (Except Located LineInfo)}
    (placed : ∀ f, directive = some (.error f) → Placed text f) :
    Notes text r (applyDirective s infos directive).1 := by
  unfold applyDirective
  split
  · rename_i f
    exact h.fault (placed f rfl)
  · exact h
  · exact h

theorem goes_skipLine (h : Goes text r s) : Goes text r (s.skipWhile (· != '\n')) := by
  fun_induction skipWhile (· != '\n') s with
  | case1 s c char other ih => exact ih (h.next char (by simpa using other))
  | case2 => exact h
  | case3 => exact h

/-- A line comment does not take the newline behind it. -/
theorem inside_commentBody (h : r.At text) (slash : r.char? = some '/') (line : r.next.sees '*' = false)
    (second : r.next.sees '/' = true) : Inside text (commentBody r).1.offset := by
  unfold commentBody
  rw [if_neg (by simp [line])]
  exact (goes_skipLine (((Goes.refl h (h.inside_of_char slash)).next slash (by decide)).sees second
    (by decide))).inside

/-! ## Lexemes -/

/-- The faults that a lexeme is handed over with: those noted before, those that are apart from question
marks, and the fault of the lexeme itself if it is a question mark. -/
def Answers (text : Bytes) (r : Reader) (l : Lexeme) : Prop :=
  ∀ f ∈ l.faults, f ∈ r.faults ∨ Placed text f ∨ l.IsQuestion f

theorem answers_emit {s : State} {kind : Kind} {offset : Nat} {literal : Bytes} {ends : Bool}
    (h : Notes text r t) : Answers text r (emit s t kind offset literal ends).1 := fun f noted =>
  (h f (List.mem_reverse.mp noted)).imp_right .inl

theorem Answers.behind {l : Lexeme} (h : Answers text t l) (first : Notes text r t) : Answers text r l :=
  fun f noted => (h f noted).elim (fun before => (first f before).imp_right .inl) .inr

theorem comment_answers (s : State) {b : UInt8} (byte : text[r.offset]? = some b) (other : b ≠ 0x3F)
    (h : r.At text) (slash : r.char? = some '/')
    (second : r.next.sees '/' = true ∨ r.next.sees '*' = true) : Answers text r (comment s r).1 := by
  have body := notes_commentBody byte other h
  have bound := (h.reaches (reaches_commentBody r)).bound
  have raw : (between r (commentBody r).1).length ≤ (commentBody r).1.offset - r.offset := by
    unfold between
    rw [List.length_take]
    exact Nat.min_le_left _ _
  unfold comment
  dsimp only
  by_cases general : r.next.sees '*' = true
  · -- The two bytes that close the comment are no part of the directive.
    simp only [general, if_true]
    split <;>
    · refine answers_emit (notes_applyDirective body _ fun f bad => ?_)
      repeat' split at bad
      all_goals try cases bad
      obtain ⟨inner, le, nonempty⟩ := lineDirective_placed bad
      have long := List.length_pos_iff.mpr nonempty
      rw [List.length_take, List.length_drop] at le long
      exact placed_inner (inside_of_lt (by omega)) inner
  · have line := second.resolve_right general
    have inside := inside_commentBody h slash (by simpa using general) line
    have shorter : (Text.dropEnd (between r (commentBody r).1) [0x0D]).length ≤
        (between r (commentBody r).1).length := by
      unfold Text.dropEnd
      split
      · exact List.length_take_le' _ _
      · exact Nat.le_refl _
    simp only [general, Bool.false_eq_true, if_false]
    split <;>
    · refine answers_emit (notes_applyDirective body _ fun f bad => ?_)
      repeat' split at bad
      all_goals try cases bad
      obtain ⟨inner, le, nonempty⟩ := lineDirective_placed bad
      have long := List.length_pos_iff.mpr nonempty
      rw [List.length_drop] at le long
      exact placed_inner (inside.mono (by omega)) inner

theorem symbol_answers (s : State) (h : r.At text) {c : Char} (char : r.char? = some c) :
    Answers text r (symbol s r).1 := by
  unfold symbol
  split
  · exact answers_emit ((notes_next h).trans (notes_skip _ h.next))
  · rw [char, Option.getD_some]
    dsimp only
    have question : text[r.offset]? = some 0x3F → c = '?' := fun mark => by
      rw [h.char_of_byte mark (by decide)] at char
      exact (Option.some.inj char).symm
    split
    · exact answers_emit (notes_next h)
    split
    · rename_i curly
      refine answers_emit ((notes_next h).fault ⟨fun mark => ?_, h.inside_of_char char⟩)
      rw [question mark] at curly
      exact absurd curly (by decide)
    · intro f noted
      rcases List.mem_cons.mp (List.mem_reverse.mp noted) with rfl | before
      · by_cases mark : text[r.offset]? = some 0x3F
        · obtain rfl := question mark
          have literal : String.utf8EncodeChar '?' = [0x3F] := by decide
          exact .inr (.inr ⟨rfl, literal, rfl⟩)
        · exact .inr (.inl ⟨fun mark' => absurd mark' mark, h.inside_of_char char⟩)
      · exact (notes_next h f before).imp_right .inl

theorem lexeme_answers (s : State) (h : r.At text) {c : Char} (char : r.char? = some c) :
    Answers text r (lexeme s r c).1 := by
  obtain ⟨b, rest, front, -, byte⟩ := h.front_of_char char
  have starts {d : Char} (same : (c == d) = true) (small : d.toNat < 0x80) :
      text[r.offset]? = some (UInt8.ofNat d.toNat) := by
    obtain rfl := beq_iff_eq.mp same
    exact (h.next_of_ascii char small).1
  have behind {t : Reader} (body : Notes text r.next t) := (notes_next h).trans body
  unfold lexeme
  split
  · exact answers_emit (notes_skipWhile _ h)
  split
  · exact answers_emit (goes_number h (h.inside_of_char char)).notes
  split
  · exact answers_emit (notes_next h)
  split
  · rename_i double
    exact answers_emit (behind (notes_stringBody (starts double (by decide)) (by decide) h.next))
  split
  · rename_i single
    exact answers_emit (behind (notes_runeBody (starts single (by decide)) (by decide) h.next _ _))
  split
  · rename_i quote
    exact answers_emit (behind (notes_rawBody (starts quote (by decide)) (by decide) h.next))
  split
  · rename_i slash
    rw [Bool.and_eq_true, Bool.or_eq_true] at slash
    exact comment_answers s (starts slash.1 (by decide)) (by decide) h (beq_iff_eq.mp slash.1 ▸ char) slash.2
  · exact symbol_answers s h char

theorem next_answers {s : State} (h : s.reader.At text) : Answers text s.reader (next s).1 := by
  have blanks := notes_skipWhile (isBlank s.ends) h
  unfold next
  split
  · exact answers_emit Notes.refl
  · dsimp only
    split
    · rename_i c char
      exact (lexeme_answers s (h.reaches (reaches_skipWhile _ _)) char).behind blanks
    · split
      · exact answers_emit blanks
      · exact answers_emit blanks

/-- A lexeme that is told as a question mark stands on one. -/
theorem lexeme_question (s : State) (h : r.At text) {c : Char} (char : r.char? = some c)
    (kind : (lexeme s r c).1.kind = .illegal) (literal : (lexeme s r c).1.literal = [0x3F]) :
    text[(lexeme s r c).1.offset]? = some 0x3F := by
  revert kind literal
  have told (t : Reader) (same : between r t = [0x3F]) : text[r.offset]? = some 0x3F := by
    rw [h.between, Text.slice] at same
    rw [← List.head?_drop]
    cases front : text.drop r.offset with
    | nil => rw [front] at same; simp at same
    | cons b rest =>
      have long : t.offset - r.offset ≠ 0 := by
        intro short
        rw [short] at same
        simp at same
      obtain ⟨n, size⟩ := Nat.exists_eq_succ_of_ne_zero long
      rw [front, size, List.take_succ_cons] at same
      rw [List.head?_cons, (List.cons.inj same).1]
  unfold lexeme
  split
  · exact fun kind => absurd kind (ofWord_proper _).1
  split
  · exact fun _ literal => told _ ((number_told r).2.symm.trans literal)
  split
  · exact fun kind => by cases kind
  split
  · exact fun kind => by cases kind
  split
  · exact fun kind => by cases kind
  split
  · exact fun kind => by cases kind
  split
  · unfold comment
    dsimp only
    split
    · exact fun kind => by cases kind
    · exact fun kind => by cases kind
  · unfold symbol
    split
    · rename_i n kind found
      intro illegal
      have illegal : kind = .illegal := illegal
      have isOperator := (operator?_eq_some found).operator.1
      rw [illegal] at isOperator
      cases isOperator
    · rw [char]
      intro _ literal
      have literal : String.utf8EncodeChar c = [0x3F] := literal
      obtain rfl : c = '?' := by
        have same : Text.encode [c] = Text.encode ['?'] := by
          rw [Text.encode_cons, literal]
          rfl
        exact (List.cons.inj (Text.encode_injective same)).1
      exact (h.next_of_ascii char (by decide)).1

theorem next_question {s : State} (h : s.reader.At text) (kind : (next s).1.kind = .illegal)
    (literal : (next s).1.literal = [0x3F]) : text[(next s).1.offset]? = some 0x3F := by
  revert kind literal
  unfold next
  split
  · exact fun kind => by cases kind
  · dsimp only
    split
    · rename_i c char
      exact lexeme_question s (h.reaches (reaches_skipWhile _ _)) char
    · split
      · exact fun kind => by cases kind
      · exact fun kind => by cases kind

end Scan
end Desugar.Host

import Desugar.Proofs.Host.Noted
import Desugar.Proofs.Text.Splitting
import Desugar.Proofs.Token.Layout

/-!
# What stands at the start of a line

Among all lexemes only raw strings and general comments can stand on several lines. So where a line of a
text that is read without faults goes on, behind blank characters, with two slashes, a line comment is
read there, or the slashes stand inside of a raw string or a general comment, and never both.
-/
namespace Desugar

namespace Host

open Reader Scan

variable {text : Bytes} {first p q o : Nat} {l : Lexeme}

/-- What starts at an offset is neither white space nor a raw string nor a comment. -/
structure Opens (text : Bytes) (o : Nat) : Prop where
  shown : ∀ c, Text.isSpace c = true → ¬ String.utf8EncodeChar c <+: text.drop o
  unquoted : text[o]? ≠ some 0x60
  commentless : ¬ (text[o]? = some 0x2F ∧ (text[o + 1]? = some 0x2F ∨ text[o + 1]? = some 0x2A))

/-- What reading a lexeme takes from a text, from `p` up to `q`: nothing but white space, or a piece behind
white space that stands on one line unless it is a comment or a raw string. -/
inductive Takes (text : Bytes) (p : Nat) (l : Lexeme) (q : Nat) : Prop where
  | nothing (kind : l.kind = .semicolon ∨ l.kind = .eof) (spaces : Spaces text p q)
      (stop : q = p ∨ q = text.length ∨ text[q - 1]? = some 0x0A)
  | comment (spaces : Spaces text p l.offset) (kind : l.kind = .comment) (stands : CommentAt text l.offset q)
  | raw (spaces : Spaces text p l.offset) (kind : l.kind = .string) (stands : RawAt text l.offset q)
  | word (spaces : Spaces text p l.offset) (kind : l.kind ≠ .comment) (le : l.offset ≤ q)
      (straight : Straight text l.offset q) (opens : Opens text l.offset)

namespace Scan

section
variable {r start : Reader} {c : Char}

theorem straight_stringBody (first : Nat) (h : r.At text) :
    Straight text r.offset (stringBody first r).offset := by
  fun_induction stringBody first r with
  | case1 => exact .refl _
  | case2 => exact .refl _
  | case3 r c char newline => exact straight_next h char (by simpa using newline)
  | case4 r c char newline _ backslash ih =>
    have go := goes_escape '"' (by decide) (.refl h.next (h.inside_next char (by simpa using newline)))
    have one := straight_next h char (by simpa using newline)
    exact (one.trans go.straight).trans (ih go.stands)
  | case5 r c char newline _ _ ih => exact (straight_next h char (by simpa using newline)).trans (ih h.next)

theorem straight_runeBody (first : Nat) (h : r.At text) (count : Nat) (valid : Bool) :
    Straight text r.offset (runeBody first r count valid).offset := by
  fun_induction runeBody first r count valid with
  | case1 => exact .refl _
  | case2 => exact .refl _
  | case3 => exact .refl _
  | case4 => exact .refl _
  | case5 r count valid c char newline => exact straight_next h char (by simpa using newline)
  | case6 r count valid c char newline => exact straight_next h char (by simpa using newline)
  | case7 r count valid c char newline _ backslash e ih =>
    have go := goes_escape '\'' (by decide) (.refl h.next (h.inside_next char (by simpa using newline)))
    have one := straight_next h char (by simpa using newline)
    exact (one.trans go.straight).trans (ih go.stands)
  | case8 r count valid c char newline _ _ ih =>
    exact (straight_next h char (by simpa using newline)).trans (ih h.next)

/-- Where a character is encoded, it is seen. -/
theorem char_of_encode (h : r.At text) (front : String.utf8EncodeChar c <+: text.drop r.offset) :
    r.char? = some c := by
  obtain ⟨rest, same⟩ := front
  obtain ⟨b, tail, bytes, decoded⟩ := Text.decodeCons_encode c rest
  rw [bytes, ← h.rest] at same
  rw [Reader.char?, ← same, List.cons_append, Text.decode?, decoded]
  rfl

theorem opens_of_char (h : start.At text) (char : start.char? = some c) (shown : Text.isSpace c = false)
    (quote : c ≠ Char.ofNat 0x60)
    (slash : ¬ (c = '/' ∧ (start.next.sees '/' = true ∨ start.next.sees '*' = true))) :
    Opens text start.offset := by
  refine ⟨fun d space front => ?_, not_quote h char quote, ?_⟩
  · have same := char.symm.trans (char_of_encode h front)
    rw [← Option.some.inj same, shown] at space
    cases space
  · rintro ⟨first, second⟩
    have here := char.symm.trans (h.char_of_byte first (by decide))
    obtain rfl : c = '/' := Option.some.inj here
    have next := (h.next_of_ascii char (by decide)).2
    refine slash ⟨rfl, second.imp (fun byte => ?_) fun byte => ?_⟩
    · simp [Reader.sees, h.next.char_of_byte (next ▸ byte) (by decide)]
    · simp [Reader.sees, h.next.char_of_byte (next ▸ byte) (by decide)]

theorem emit_takes (s : State) (h : start.At text) (spaces : Spaces text p start.offset)
    (way : Reaches start r) (straight : Straight text start.offset r.offset) (opens : Opens text start.offset)
    {kind : Kind} (proper : kind ≠ .comment) (literal : Bytes) (ends : Bool) :
    Takes text p (emit s r kind start.offset literal ends).1 r.offset :=
  .word spaces proper (h.offset_le way) straight opens

/-- No operator has a blank character in it. -/
theorem operators_shown : ∀ p ∈ Kind.operators, ∀ b ∈ Text.utf8 p.1.text,
    Text.isSpace (Char.ofNat b.toNat) = false := by decide +kernel

theorem OperatorAt.shown {bytes : Bytes} {n : Nat} {kind : Kind} (found : OperatorAt bytes n kind) {b : UInt8}
    (member : b ∈ bytes.take n) : Text.isSpace (Char.ofNat b.toNat) = false := by
  obtain ⟨p, known, same⟩ := List.any_eq_true.mp found.operator.1
  rw [found.spelt, ← of_decide_eq_true same] at member
  exact operators_shown p known b member

theorem straight_operator (h : start.At text) {n : Nat} {kind : Kind} (found : OperatorAt start.rest n kind) :
    Straight text start.offset (skip (n - 1) start.next).offset := by
  obtain ⟨m, rfl⟩ := Nat.exists_eq_succ_of_ne_zero (Nat.ne_of_gt found.pos)
  have stop : (skip m start.next).offset = start.offset + (m + 1) :=
    offset_skip h (m + 1) found.small found.length
  rw [Nat.succ_sub_one, stop]
  intro k behind before newline
  have member : (0x0A : UInt8) ∈ start.rest.take (m + 1) := by
    refine List.mem_iff_getElem?.mpr ⟨k - start.offset, ?_⟩
    rw [List.getElem?_take_of_lt (by omega), h.rest, List.getElem?_drop, Nat.add_sub_cancel' behind]
    exact newline
  exact absurd (found.shown member) (by decide)

theorem symbol_takes (s : State) (h : start.At text) (char : start.char? = some c)
    (spaces : Spaces text p start.offset) (newline : c ≠ '\n') (quote : c ≠ Char.ofNat 0x60)
    (slash : ¬ (c = '/' ∧ (start.next.sees '/' = true ∨ start.next.sees '*' = true)))
    (masked : Masked text (symbol s start).1.faults) :
    Takes text p (symbol s start).1 (symbol s start).2.reader.offset := by
  obtain ⟨b, rest, front, -, byte⟩ := h.front_of_char char
  unfold symbol at masked ⊢
  split
  · rename_i n kind found
    have known := operator?_eq_some found
    have member : b ∈ start.rest.take n := by
      obtain ⟨m, rfl⟩ := Nat.exists_eq_succ_of_ne_zero (Nat.ne_of_gt known.pos)
      rw [front]
      exact List.mem_cons_self
    have here := h.char_of_byte byte (known.small b member)
    rw [char] at here
    have shown : Text.isSpace c = false := by
      rw [Option.some.inj here]
      exact known.shown member
    exact emit_takes s h spaces ((reaches_next start).trans (reaches_skip (n - 1) start.next))
      (straight_operator h known) (opens_of_char h char shown quote slash) known.operator.2.1 _ _
  · rename_i absent
    simp only [absent, char, Option.getD_some] at masked ⊢
    -- A blank character has a fault noted at its place, which is no question mark.
    have shown : Text.isSpace c = false := by
      rw [← Bool.not_eq_true]
      intro space
      have apart : c ≠ '?' ∧ c ≠ '\uFEFF' := by
        constructor <;> (rintro rfl; exact absurd space (by decide))
      have question {f : Fault} (m : Masked text (start.next.fault start.offset f).faults.reverse) : False := by
        rw [not_masked m List.mem_cons_self byte] at byte
        have seen := h.char_of_byte byte (by decide)
        rw [char] at seen
        exact apart.1 (Option.some.inj seen)
      rw [if_neg (by simpa using apart.2)] at masked
      split at masked
      · exact question masked
      · exact question masked
    have illegal : Kind.illegal ≠ .comment := by decide
    have taken {r : Reader} (way : Reaches start r) (same : r.offset = start.next.offset) :=
      emit_takes s h spaces way (same ▸ straight_next h char newline)
        (opens_of_char h char shown quote slash) illegal (String.utf8EncodeChar c) s.ends
    have next := reaches_next start
    exact taken (.ite next (.ite (.fault _ _ next) (.fault _ _ next))) (by split <;> [rfl; split <;> rfl])

theorem lexeme_takes (s : State) (h : start.At text) (char : start.char? = some c)
    (spaces : Spaces text p start.offset) (masked : Masked text (lexeme s start c).1.faults) :
    Takes text p (lexeme s start c).1 (lexeme s start c).2.reader.offset := by
  have step := lexeme_step s h char masked
  have plain {f : Char → Bool} (excludes : ∀ d ∈ Char.ofNat 0x60 :: '/' :: Text.blanks, f d = false)
      (holds : f c = true) : Opens text start.offset := by
    have other {d : Char} (member : d ∈ Char.ofNat 0x60 :: '/' :: Text.blanks) : c ≠ d := by
      rintro rfl
      rw [excludes c member] at holds
      cases holds
    exact opens_of_char h char (Text.isSpace_eq_false (fun d member => excludes d (by simp [member])) holds)
      (other (by decide)) fun slash => other (by decide) slash.1
  have letters : ∀ d ∈ Char.ofNat 0x60 :: '/' :: Text.blanks, isLetter d = false := by decide +kernel
  have digits : ∀ d ∈ Char.ofNat 0x60 :: '/' :: Text.blanks, (isDecimal d || d == '.') = false := by decide
  have quotes : ∀ d ∈ Char.ofNat 0x60 :: '/' :: Text.blanks, (d == '"' || d == '\'') = false := by decide
  have body {r : Reader} (newline : c ≠ '\n') (straight : Straight text start.next.offset r.offset) :
      Straight text start.offset r.offset := (straight_next h char newline).trans straight
  unfold lexeme at masked step ⊢
  by_cases letter : isLetter c = true
  · simp only [if_pos letter]
    exact emit_takes s h spaces (reaches_skipWhile _ _) (straight_skipWhile (by decide) h)
      (plain letters letter) (ofWord_kind _).2.1 _ _
  simp only [if_neg letter] at masked step ⊢
  by_cases digit : (isDecimal c || c == '.' && 0x30 ≤ start.peek && start.peek ≤ 0x39) = true
  · simp only [if_pos digit]
    have front : (isDecimal c || c == '.') = true := by
      cases d : isDecimal c <;> simp_all
    exact emit_takes s h spaces (reaches_number start) (goes_number h (h.inside_of_char char)).straight
      (plain digits front) (number_told start).1.kind.2.1 _ _
  simp only [if_neg digit] at masked step ⊢
  by_cases newline : (c == '\n') = true
  · simp only [if_pos newline]
    obtain rfl := beq_iff_eq.mp newline
    obtain ⟨byte, next⟩ := h.next_of_ascii char (by decide)
    have stop : (automatic s start.next start.offset).2.reader.offset = start.offset + 1 := next
    rw [stop]
    exact .nothing (.inl rfl) (spaces.trans (.one byte (by decide))) (.inr (.inr byte))
  simp only [if_neg newline] at masked step ⊢
  have other : c ≠ '\n' := by simpa using newline
  by_cases double : (c == '"') = true
  · simp only [if_pos double]
    exact emit_takes s h spaces ((reaches_next start).trans (reaches_stringBody _ _))
      (body other (straight_stringBody _ h.next)) (plain quotes (Bool.or_eq_true .. |>.mpr (.inl double)))
      (by decide) _ _
  simp only [if_neg double] at masked step ⊢
  by_cases single : (c == '\'') = true
  · simp only [if_pos single]
    exact emit_takes s h spaces ((reaches_next start).trans (reaches_runeBody _ _ _ _))
      (body other (straight_runeBody _ h.next _ _)) (plain quotes (Bool.or_eq_true .. |>.mpr (.inr single)))
      (by decide) _ _
  simp only [if_neg single] at masked step ⊢
  by_cases quote : (c == Char.ofNat 0x60) = true
  · simp only [if_pos quote] at step ⊢
    obtain rfl := beq_iff_eq.mp quote
    cases step with
    | proper kind before stands =>
      obtain ⟨string, raw⟩ := stands.raw (h.next_of_ascii char (by decide)).1
      exact .raw spaces string raw
    | skipped kind => exact absurd kind (by simp [emit, Lexeme.isAutomatic])
  simp only [if_neg quote] at masked ⊢
  by_cases slash : (c == '/' && (start.next.sees '/' || start.next.sees '*')) = true
  · simp only [if_pos slash] at masked ⊢
    simp only [Bool.and_eq_true, beq_iff_eq, Bool.or_eq_true] at slash
    obtain ⟨rfl, second⟩ := slash
    have offset := comment_offset s start
    have stands := comment_stands s h char second masked
    rw [← offset] at spaces stands
    exact .comment spaces (comment_fields s start).1 stands
  · simp only [if_neg slash] at masked ⊢
    exact symbol_takes s h char spaces other (by simpa using quote) (by simpa using slash) masked

theorem next_takes {s : State} (h : s.reader.At text) (masked : Masked text (next s).1.faults) :
    Takes text s.reader.offset (next s).1 (next s).2.reader.offset := by
  have spaces := spaces_skipWhile s.ends h
  have there := h.reaches (reaches_skipWhile (isBlank s.ends) s.reader)
  unfold next at masked ⊢
  split
  · exact .nothing (.inl rfl) (.refl _) (.inl rfl)
  · rename_i pending
    simp only [pending] at masked
    dsimp only
    split
    · rename_i c char
      simp only [char] at masked
      exact lexeme_takes s there char spaces masked
    · rename_i absent
      have last := there.offset_eq_of_char absent
      split
      · exact .nothing (.inl rfl) spaces (.inr (.inl last))
      · exact .nothing (.inr rfl) spaces (.inr (.inl last))

end

end Scan
/-! ## Passing the start of a line -/

/-- A line comment starts with a lexeme. -/
structure Lexeme.IsLineComment (text : Bytes) (l : Lexeme) : Prop where
  kind : l.kind = .comment
  second : text[l.offset + 1]? = some 0x2F

/-- A lexeme is a raw string or a general comment, which stands in a text up to `q`. -/
inductive Lexeme.IsLong (text : Bytes) (l : Lexeme) (q : Nat) : Prop where
  | raw (kind : l.kind = .string) (stands : RawAt text l.offset q)
  | general (kind : l.kind = .comment) (second : text[l.offset + 1]? = some 0x2A)
      (stands : CommentAt text l.offset q)

/-- The line that starts at `first` goes on, behind blank characters, with two slashes at `o`. -/
structure SlashesAt (text : Bytes) (first o : Nat) : Prop where
  line : first = 0 ∨ text[first - 1]? = some 0x0A
  indent : ∃ cs, (∀ c ∈ cs, Text.isSpace c = true ∧ c ≠ '\n') ∧ Text.encode cs <+: text.drop first ∧
    first + (Text.encode cs).length = o
  slashes : text[o]? = some 0x2F ∧ text[o + 1]? = some 0x2F

namespace SlashesAt

theorem le (h : SlashesAt text first o) : first ≤ o := by
  obtain ⟨cs, -, -, rfl⟩ := h.indent
  exact Nat.le_add_right _ _

/-- A byte below 128 among blank characters is one of them. -/
theorem shown (h : SlashesAt text first o) {k : Nat} (behind : first ≤ k) (before : k < o) {b : UInt8}
    (byte : text[k]? = some b) (small : b.toNat < 0x80) :
    Text.isSpace (Char.ofNat b.toNat) = true ∧ Char.ofNat b.toNat ≠ '\n' := by
  obtain ⟨cs, blank, ⟨rest, front⟩, rfl⟩ := h.indent
  refine blank _ (Text.mem_of_mem_encode (List.mem_iff_getElem?.mpr ⟨k - first, ?_⟩) small)
  have here : (Text.encode cs ++ rest)[k - first]? = (Text.encode cs)[k - first]? :=
    List.getElem?_append_left (by omega)
  rw [← here, front, List.getElem?_drop, Nat.add_sub_cancel' behind]
  exact byte

/-- Behind white space of one byte each, a blank character goes on as a whole. -/
theorem exists_blank (h : SlashesAt text first o) {m : Nat} (spaces : Spaces text first m) (before : m < o) :
    ∃ c, Text.isSpace c = true ∧ String.utf8EncodeChar c <+: text.drop m := by
  obtain ⟨cs, blank, front, rfl⟩ := h.indent
  clear h
  induction cs generalizing first with
  | nil => exact absurd spaces.le (Nat.not_le.mpr before)
  | cons c cs ih =>
    have here : String.utf8EncodeChar c <+: text.drop first := (List.prefix_append _ _).trans front
    rcases Nat.eq_or_lt_of_le spaces.le with rfl | less
    · exact ⟨c, (blank c List.mem_cons_self).1, here⟩
    · obtain ⟨b, byte, space⟩ := spaces.bytes first (Nat.le_refl _) less
      have small : b.toNat < 0x80 := by
        simp only [isSpace, Bool.or_eq_true, beq_iff_eq] at space
        rcases space with ((rfl | rfl) | rfl) | rfl <;> decide
      obtain ⟨x, tail, bytes, -⟩ := Text.decodeCons_encode c []
      have head : x = b := by
        obtain ⟨rest, same⟩ := here
        rw [← List.head?_drop, ← same, bytes] at byte
        exact Option.some.inj byte
      have ascii : c.toNat < 0x80 := by
        refine Nat.lt_of_not_le fun large => ?_
        have := Text.le_of_mem_encode large (x := x) (bytes ▸ List.mem_cons_self)
        rw [head] at this
        omega
      have one := congrArg List.length (Text.encode_ascii ascii)
      rw [List.length_singleton] at one
      have rest : Text.encode cs <+: text.drop (first + 1) := by
        obtain ⟨rest, same⟩ := front
        refine ⟨rest, ?_⟩
        rw [← List.drop_drop, ← same, Text.encode_cons, List.append_assoc, List.drop_left' one]
      refine ih ⟨less, fun k behind => spaces.bytes k (Nat.le_of_succ_le behind)⟩
        (fun c member => blank c (List.mem_cons_of_mem _ member)) rest ?_
      rw [Text.encode_cons, List.length_append, one] at before
      omega

/-- No slash, back quote or newline stands among the blank characters. -/
theorem apart (h : SlashesAt text first o) {k : Nat} (behind : first ≤ k) (before : k < o) {b : UInt8}
    (byte : text[k]? = some b) : b ≠ 0x2F ∧ b ≠ 0x60 ∧ b ≠ 0x0A := by
  refine ⟨?_, ?_, ?_⟩ <;> rintro rfl
  · exact absurd (h.shown behind before byte (by decide)).1 (by decide)
  · exact absurd (h.shown behind before byte (by decide)).1 (by decide)
  · exact absurd (h.shown behind before byte (by decide)).2 (by decide)

/-- A newline stands in front of the line if anything does. -/
theorem newline (h : SlashesAt text first o) {m : Nat} (before : m < first) : text[first - 1]? = some 0x0A :=
  h.line.resolve_left (by omega)

/-- A raw string ends before the line or goes past the slashes. -/
theorem raw (h : SlashesAt text first o) (stands : RawAt text p q) : q ≤ first ∨ o < q := by
  rcases Nat.lt_or_ge first q with less | ends
  · right
    rcases Nat.lt_trichotomy (q - 1) o with short | same | far
    · exact absurd rfl (h.apart (by omega) short stands.closing).2.1
    · have closing := stands.closing
      rw [same, h.slashes.1] at closing
      exact absurd closing (by decide)
    · omega
  · exact .inl ends

/-- A comment that starts in front of the slashes ends before the line or goes past them, and only a general
comment does that. -/
theorem comment (h : SlashesAt text first o) (stands : CommentAt text p q) (before : p < o) :
    q ≤ first ∨ (text[p + 1]? = some 0x2A ∧ o < q) := by
  rcases Nat.lt_or_ge first q with less | ends
  · right
    cases stands with
    | line opening long body stop =>
      rcases Nat.lt_or_ge p first with outside | within
      · -- The newline in front of the line is neither of the slashes of the comment.
        have newline := h.newline outside
        have other {k : Nat} (byte : text[k]? = some 0x2F) : k ≠ first - 1 := by
          rintro rfl
          exact absurd (byte.symm.trans newline) (by decide)
        have := other opening.1
        have := other opening.2
        exact absurd newline (body (first - 1) (by omega) (by omega))
      · exact absurd rfl (h.apart within before opening.1).1
    | general opening long body closing =>
      refine ⟨opening.2, ?_⟩
      rcases Nat.lt_trichotomy (q - 1) o with short | same | far
      · exact absurd rfl (h.apart (by omega) short closing.2).1
      · -- The slash that closes a comment has a star in front of it, and the first slash here has not.
        rcases Nat.lt_or_ge (q - 2) first with outside | within
        · have newline := h.newline (m := p) (by omega)
          rw [show first - 1 = q - 2 by omega] at newline
          exact absurd (newline.symm.trans closing.1) (by decide)
        · exact absurd (h.shown within (by omega) closing.1 (by decide)).1 (by decide)
      · omega
  · exact .inl ends

end SlashesAt

/-- A lexeme that is read on from the start of a line or from before it ends before the line, or it is the line
comment behind the blanks of the line, or a raw string or a general comment with that place inside of it. -/
theorem Takes.passes (h : Takes text p l q) (line : SlashesAt text first o) (before : p ≤ first) :
    q ≤ first ∨ (l.IsLineComment text ∧ l.offset = o) ∨ (l.IsLong text q ∧ l.offset < o ∧ o < q) := by
  obtain ⟨slash, second⟩ := line.slashes
  have reach {m : Nat} (spaces : Spaces text p m) : m ≤ o :=
    spaces.le_of_byte (Nat.le_trans before line.le) slash (by decide)
  cases h with
  | nothing kind spaces stop =>
    left
    have bound := reach spaces
    rcases stop with rfl | last | newline
    · exact before
    · have := (List.getElem?_eq_some_iff.mp slash).1
      omega
    · exact Nat.le_of_not_lt fun less => (line.apart (by omega) (by omega) newline).2.2 rfl
  | comment spaces kind stands =>
    rcases Nat.eq_or_lt_of_le (reach spaces) with here | early
    · exact .inr (.inl ⟨⟨kind, here ▸ second⟩, here⟩)
    · rcases line.comment stands early with ends | ⟨star, past⟩
      · exact .inl ends
      · exact .inr (.inr ⟨.general kind star stands, early, past⟩)
  | raw spaces kind stands =>
    have early : l.offset < o := by
      refine Nat.lt_of_le_of_ne (reach spaces) fun here => ?_
      have opening := stands.opening
      rw [here, slash] at opening
      exact absurd opening (by decide)
    exact (line.raw stands).imp_right fun past => .inr ⟨.raw kind stands, early, past⟩
  | word spaces kind le straight opens =>
    left
    refine Nat.le_of_not_lt fun less => ?_
    rcases Nat.lt_or_ge l.offset first with outside | within
    · exact straight (first - 1) (by omega) (by omega) (line.newline outside)
    · rcases Nat.eq_or_lt_of_le (reach spaces) with here | early
      · exact opens.commentless ⟨here ▸ slash, .inl (here ▸ second)⟩
      · obtain ⟨c, space, front⟩ := line.exists_blank
          ⟨within, fun k behind => spaces.bytes k (Nat.le_trans before behind)⟩ early
        exact opens.shown c space front

/-- A raw string or a general comment is read up to its end. -/
theorem Takes.long (h : Takes text p l q) {r : Nat} (long : l.IsLong text r) : r = q := by
  cases h with
  | nothing kind => cases long <;> simp_all
  | comment _ kind stands =>
    cases long with
    | raw kind' => simp_all
    | general _ _ stands' => exact stands'.unique stands
  | raw _ kind stands =>
    cases long with
    | raw _ stands' => exact stands'.unique stands
    | general kind' => simp_all
  | word _ kind _ _ opens =>
    cases long with
    | raw _ stands' => exact absurd stands'.opening opens.unquoted
    | general kind' => exact absurd kind' kind

theorem Takes.le (h : Takes text p l q) : p ≤ q := by
  cases h with
  | nothing _ spaces => exact spaces.le
  | comment spaces _ stands => exact Nat.le_trans spaces.le (Nat.le_of_lt stands.lt)
  | raw spaces _ stands => exact Nat.le_trans spaces.le (Nat.le_trans (Nat.le_add_right _ 2) stands.long)
  | word spaces _ le => exact Nat.le_trans spaces.le le

/-- What comes of reading strings and comments stands where it is read. -/
theorem Takes.offset (h : Takes text p l q) (kind : l.kind = .string ∨ l.kind = .comment) :
    p ≤ l.offset ∧ l.offset ≤ q := by
  cases h with
  | nothing kind' => rcases kind with kind | kind <;> simp [kind] at kind'
  | comment spaces _ stands => exact ⟨spaces.le, Nat.le_of_lt stands.lt⟩
  | raw spaces _ stands => exact ⟨spaces.le, Nat.le_trans (Nat.le_add_right _ 2) stands.long⟩
  | word spaces _ le => exact ⟨spaces.le, le⟩

end Host

namespace Lexer

open Host Host.Scan Host.Reader

variable {text : Bytes} {s : State} {ls : List Lexeme} {first o : Nat}

/-- Reading from before a line meets the line comment at its slashes, or what they stand inside of. -/
theorem Reads.meets (reads : Reads s ls) (h : s.reader.At text) (masked : ∀ l ∈ ls, Masked text l.faults)
    (line : SlashesAt text first o) (before : s.reader.offset ≤ first) :
    ∃ l ∈ ls, (l.IsLineComment text ∧ l.offset = o) ∨ ∃ q, l.IsLong text q ∧ l.offset < o ∧ o < q := by
  induction reads with
  | stop eof =>
    rename_i s
    have last : (Scan.next s).2.reader.offset = text.length := by
      cases next_step h (masked _ List.mem_cons_self) with
      | proper kind => exact absurd eof kind.2.1
      | skipped _ _ last => exact last eof
    rcases (next_takes h (masked _ List.mem_cons_self)).passes line before with ends | found | found
    · have := (List.getElem?_eq_some_iff.mp line.slashes.1).1
      have := line.le
      omega
    · exact ⟨_, List.mem_cons_self, .inl found⟩
    · exact ⟨_, List.mem_cons_self, .inr ⟨_, found⟩⟩
  | step more rest ih =>
    rename_i s ls
    rcases (next_takes h (masked _ List.mem_cons_self)).passes line before with ends | found | found
    · obtain ⟨l, member, found⟩ := ih ((next_handedOver s).at h)
        (fun l member => masked l (List.mem_cons_of_mem _ member)) ends
      exact ⟨l, List.mem_cons_of_mem _ member, found⟩
    · exact ⟨_, List.mem_cons_self, .inl found⟩
    · exact ⟨_, List.mem_cons_self, .inr ⟨_, found⟩⟩

/-- Strings and comments stand behind where reading starts. -/
theorem Reads.behind (reads : Reads s ls) (h : s.reader.At text) (masked : ∀ l ∈ ls, Masked text l.faults)
    {l : Lexeme} (member : l ∈ ls) (kind : l.kind = .string ∨ l.kind = .comment) :
    s.reader.offset ≤ l.offset := by
  induction reads with
  | stop eof =>
    obtain rfl := List.mem_singleton.mp member
    rcases kind with kind | kind <;> simp [kind] at eof
  | step more rest ih =>
    rename_i s ls
    rcases List.mem_cons.mp member with rfl | later
    · exact ((next_takes h (masked _ List.mem_cons_self)).offset kind).1
    · exact Nat.le_trans (next_takes h (masked _ List.mem_cons_self)).le
        (ih ((next_handedOver s).at h) (fun l member => masked l (List.mem_cons_of_mem _ member)) later)

/-- No comment starts inside of a raw string or a general comment. -/
theorem Reads.apart (reads : Reads s ls) (h : s.reader.At text) (masked : ∀ l ∈ ls, Masked text l.faults)
    {l l' : Lexeme} (member : l ∈ ls) (member' : l' ∈ ls) {q : Nat} (long : l.IsLong text q)
    (comment : l'.kind = .comment) (behind : l.offset < l'.offset) : q ≤ l'.offset := by
  have kind : l.kind = .string ∨ l.kind = .comment := by
    cases long with
    | raw kind => exact .inl kind
    | general kind => exact .inr kind
  induction reads with
  | stop eof =>
    obtain rfl := List.mem_singleton.mp member'
    simp [comment] at eof
  | step more rest ih =>
    rename_i s ls
    have taken := next_takes h (masked _ List.mem_cons_self)
    have there := (next_handedOver s).at h
    have masked' : ∀ l ∈ ls, Masked text l.faults := fun l member => masked l (List.mem_cons_of_mem _ member)
    rcases List.mem_cons.mp member with rfl | later
    · rcases List.mem_cons.mp member' with rfl | later'
      · omega
      · rw [taken.long long]
        exact rest.behind there masked' later' (.inr comment)
    · rcases List.mem_cons.mp member' with rfl | later'
      · have := (taken.offset (.inr comment)).2
        have := rest.behind there masked' later kind
        omega
      · exact ih there masked' later later'

/-- A text is read from before every line that goes on with slashes. -/
theorem IsStart.le {p : Nat} (start : IsStart text p) (line : SlashesAt text first o) : p ≤ first := by
  rcases start with rfl | ⟨mark, rfl⟩
  · exact Nat.zero_le _
  · obtain ⟨rest, rfl⟩ := mark
    refine Nat.le_of_not_lt fun less => ?_
    rcases line.line with rfl | newline
    · rcases Nat.eq_zero_or_pos o with rfl | positive
      · exact absurd line.slashes.1 (by simp)
      · -- The byte order mark is no blank character.
        obtain ⟨c, space, front⟩ := line.exists_blank (.refl 0) positive
        obtain rfl : c = '\uFEFF' := Text.encode_prefix_inj front ⟨rest, rfl⟩
        exact absurd space (by decide)
    · have small : first = 1 ∨ first = 2 ∨ first = 0 := by omega
      rcases small with rfl | rfl | rfl <;> exact absurd newline (by simp)

/-- In a text that is read without faults, a line comment starts at the slashes that a line goes on with, unless
these stand inside of a raw string or a general comment. -/
theorem lineComment_iff {origin : Origin} {ts : List Token} (read : lexAt origin text = .ok ts)
    (line : SlashesAt text first o) :
    (∃ l ∈ (scan origin.file text).lexemes, l.IsLineComment text ∧ l.offset = o) ↔
      ¬ ∃ l ∈ (scan origin.file text).lexemes, ∃ q, l.IsLong text q ∧ l.offset < o ∧ o < q := by
  have masked := (masked_of_lexAt read).1
  obtain ⟨stands, start⟩ := start_of_lexAt read
  have reads := reads_scan origin.file text
  constructor
  · rintro ⟨l, member, comment, rfl⟩ ⟨l', member', q, long, before, behind⟩
    have apart := reads.apart stands masked member' member long comment.kind before
    exact Nat.lt_irrefl _ (Nat.lt_of_lt_of_le behind apart)
  · intro outside
    obtain ⟨l, member, comment | inside⟩ := reads.meets stands masked line (start.le line)
    · exact ⟨l, member, comment⟩
    · exact absurd ⟨l, member, inside⟩ outside

end Lexer
end Desugar

import Desugar.Proofs.Host.Extent

/-!
# Where lexemes stand

A lexeme read from a reader that stands in a text is blank, or stands on the bytes behind some blanks
up to where the next lexeme is read from. Its text is those bytes, except that a raw string is told
without its carriage returns. Faults about anything but a question mark must not have been noted:
without such faults every comment and every raw string is closed and every character well formed.
-/
namespace Desugar.Host

/-- How a lexeme on some bytes is told: a raw string without its carriage returns. -/
def spelling (word : Bytes) : Bytes :=
  if word.head? = some 0x60 then word.filter (· != 0x0D) else word

/-- A lexeme stands in a text from its offset up to `q`. -/
structure Lexeme.StandsAt (text : Bytes) (l : Lexeme) (q : Nat) : Prop where
  long : l.offset < q
  bound : q ≤ text.length
  told : l.text = spelling (Text.slice text l.offset q)
  raw : text[l.offset]? = some 0x60 → l.kind = .string ∧ RawAt text l.offset q
  operator : l.kind.isOperator = true → l.text = Text.utf8 l.kind.text

/-- What reading a lexeme takes from a text, from `p` up to `q`. -/
inductive Scan.Step (text : Bytes) (p : Nat) (l : Lexeme) (q : Nat) : Prop where
  | proper (kind : l.kind ≠ .comment ∧ l.kind ≠ .eof ∧ l.isAutomatic = false)
      (before : Blank text p l.offset) (stands : l.StandsAt text q)
  | skipped (kind : l.kind = .comment ∨ l.kind = .eof ∨ l.isAutomatic = true)
      (blank : Blank text p q) (last : l.kind = .eof → q = text.length)

namespace Scan

open Reader

section
variable {text : Bytes} {r start : Reader}

theorem head?_slice {p q : Nat} (long : p < q) : (Text.slice text p q).head? = text[p]? := by
  unfold Text.slice
  rw [List.head?_take, if_neg (by omega), List.head?_drop]

theorem length_slice {text : Bytes} {start stop : Nat} (bound : stop ≤ text.length) :
    (Text.slice text start stop).length = stop - start := by
  rw [Text.slice, List.length_take, List.length_drop]
  omega

theorem slice_one {text : Bytes} {p : Nat} {b : UInt8} (byte : text[p]? = some b) :
    Text.slice text p (p + 1) = [b] := by
  obtain ⟨inside, rfl⟩ := List.getElem?_eq_some_iff.mp byte
  unfold Text.slice
  rw [List.drop_eq_getElem_cons inside, Nat.add_sub_cancel_left]
  rfl

theorem slice_two {text : Bytes} {p : Nat} {b c : UInt8} (first : text[p]? = some b)
    (second : text[p + 1]? = some c) : Text.slice text p (p + 2) = [b, c] := by
  obtain ⟨inside, rfl⟩ := List.getElem?_eq_some_iff.mp second
  obtain ⟨before, rfl⟩ := List.getElem?_eq_some_iff.mp first
  unfold Text.slice
  rw [List.drop_eq_getElem_cons before, List.drop_eq_getElem_cons inside, Nat.add_sub_cancel_left]
  rfl

theorem slice_eq_of_other {p q : Nat} (long : p < q) (other : text[p]? ≠ some 0x60) :
    spelling (Text.slice text p q) = Text.slice text p q := by
  unfold spelling
  rw [if_neg (by rwa [head?_slice long])]

theorem slice_ne_nil {p q : Nat} (long : p < q) (bound : p < text.length) :
    Text.slice text p q ≠ [] := by
  intro empty
  have head : (Text.slice text p q).head? = text[p]? := head?_slice long
  rw [empty, List.getElem?_eq_getElem bound] at head
  cases head

/-- The bytes of the character that a reader stands on. -/
theorem slice_next (h : r.At text) {c : Char} (char : r.char? = some c)
    (known : c ≠ Text.replacement) :
    Text.slice text r.offset r.next.offset = String.utf8EncodeChar c := by
  obtain ⟨b, rest, front, same, -⟩ := h.front_of_char char
  subst same
  have remains := h.rest
  rw [front] at remains
  rw [Text.encode_decodeCons known, Text.slice, ← remains, (h.next_of_cons front).1,
    Nat.add_sub_cancel_left, Text.Decoded.width, List.take_succ_cons]

/-- The lexeme told by the bytes between two readers. -/
theorem standsAt_between (h : start.At text) (way : Reaches start r)
    (long : start.offset < r.offset) (other : text[start.offset]? ≠ some 0x60) {l : Lexeme}
    (offset : l.offset = start.offset) (literal : l.literal = between start r)
    (kind : l.kind.isOperator = false) : l.StandsAt text r.offset := by
  have bound := (h.reaches way).bound
  have told : l.text = Text.slice text start.offset r.offset := by
    have nonempty := slice_ne_nil long (Nat.lt_of_lt_of_le long bound)
    rw [← h.between r, ← literal] at nonempty ⊢
    unfold Lexeme.text
    rw [if_neg (by simpa using nonempty)]
  refine ⟨by omega, bound, ?_, ?_, ?_⟩
  · rw [told, offset, slice_eq_of_other long other]
  · intro quote
    rw [offset] at quote
    exact absurd quote other
  · intro isOperator
    rw [kind] at isOperator
    cases isOperator

theorem isAutomatic_eq_false {l : Lexeme} (h : l.kind ≠ .semicolon) : l.isAutomatic = false := by
  simp [Lexeme.isAutomatic, h]

/-- A kind that is neither an operator nor an end mark nor a comment. -/
theorem proper_of_kind {l : Lexeme} (operator : l.kind.isOperator = false)
    (comment : l.kind ≠ .comment) (eof : l.kind ≠ .eof) :
    l.kind ≠ .comment ∧ l.kind ≠ .eof ∧ l.isAutomatic = false := by
  refine ⟨comment, eof, isAutomatic_eq_false ?_⟩
  intro semicolon
  rw [semicolon] at operator
  revert operator
  decide

end

/-! Words and numbers -/

theorem keyword_kinds : ∀ p ∈ Kind.keywords,
    p.2.isOperator = false ∧ p.2 ≠ .comment ∧ p.2 ≠ .eof := by decide

/-- What a word is: a name, or a reserved word of the table. -/
theorem ofWord_mem (word : String) :
    Kind.ofWord word = .ident ∨ (word, Kind.ofWord word) ∈ Kind.keywords := by
  unfold Kind.ofWord
  cases found : Kind.keywords.lookup word with
  | none => exact .inl rfl
  | some kind =>
    obtain ⟨l₁, l₂, split, -⟩ := List.lookup_eq_some_iff.mp found
    exact .inr (by rw [split]; simp)

theorem ofWord_kind (word : String) : (Kind.ofWord word).isOperator = false ∧
    Kind.ofWord word ≠ .comment ∧ Kind.ofWord word ≠ .eof := by
  rcases ofWord_mem word with name | listed
  · rw [name]
    decide
  · exact keyword_kinds _ listed

theorem ofWord_proper (word : String) : Kind.ofWord word ≠ .illegal ∧ Kind.ofWord word ≠ .mul ∧
    Kind.ofWord word ≠ .semicolon := by
  have table : ∀ p ∈ Kind.keywords, p.2 ≠ .illegal ∧ p.2 ≠ .mul ∧ p.2 ≠ .semicolon := by decide
  rcases ofWord_mem word with name | listed
  · rw [name]
    decide
  · exact table _ listed

theorem checkDigits_offset (start : Nat) (kind : Kind) (radix : Radix) (seen : Digits)
    (literal : Bytes) (r : Reader) : (checkDigits start kind radix seen literal r).offset = r.offset := by
  unfold checkDigits
  dsimp only
  repeat' split
  all_goals rfl

/-- The kinds that a number can have. -/
def IsNumeric (kind : Kind) : Prop :=
  kind = .illegal ∨ kind = .int ∨ kind = .float ∨ kind = .imag

theorem IsNumeric.kind {kind : Kind} (h : IsNumeric kind) :
    kind.isOperator = false ∧ kind ≠ .comment ∧ kind ≠ .eof := by
  rcases h with rfl | rfl | rfl | rfl <;> decide

theorem exponent_kind (radix : Radix) (r : Reader) {kind : Kind} (seen : Digits)
    (h : IsNumeric kind) : IsNumeric (exponent radix r kind seen).2.1 := by
  have plain : (exponent.plain radix kind seen r).2.1 = kind := by
    unfold exponent.plain
    split <;> rfl
  unfold exponent
  split
  · rwa [plain]
  · dsimp only
    split
    · exact .inr (.inr (.inl rfl))
    · rwa [plain]

theorem fraction_kind (base : Nat) (radix : Radix) (r : Reader) {kind : Kind} (seen : Digits)
    (h : IsNumeric kind) : IsNumeric (fraction base radix r kind seen).2.1 := by
  unfold fraction
  split
  · exact .inr (.inr (.inl rfl))
  · exact h

theorem wholePart_kind (r : Reader) : IsNumeric (wholePart r).2.1 := by
  unfold wholePart
  split
  · exact .inl rfl
  · exact .inr (.inl rfl)

/-- A number is told by the bytes that it was read from, and has the kind of a number. -/
theorem number_told (start : Reader) :
    IsNumeric (number start).2.1 ∧ (number start).2.2 = between start (number start).1 := by
  have imaginary (r : Reader) (kind : Kind) (h : IsNumeric kind) :
      IsNumeric (if r.sees 'i' then (r.next, Kind.imag) else (r, kind)).2 := by
    split
    · exact .inr (.inr (.inr rfl))
    · exact h
  unfold number
  dsimp only
  refine ⟨imaginary _ _ (exponent_kind _ _ _ (fraction_kind _ _ _ _ (wholePart_kind start))), ?_⟩
  unfold between
  rw [checkDigits_offset]

/-! Operators -/

/-- Every operator is spelt with one to three bytes below 128. -/
theorem operator_spellings : ∀ p ∈ Kind.operators,
    p.1.isOperator = true ∧ p.1 ≠ .comment ∧ p.1 ≠ .eof ∧ 0 < p.2.toList.length ∧
      p.2.toList.length ≤ 3 ∧ p.2.toList.all (·.toNat < 0x80) = true ∧
      Text.utf8 p.1.text = p.2.toList.map fun c => UInt8.ofNat c.toNat := by decide

theorem ofNat_toNat_byte (b : UInt8) : UInt8.ofNat (Char.ofNat b.toNat).toNat = b := by
  have below := b.toNat_lt
  rw [Text.toNat_ofNat_of_isValidChar (Or.inl (by omega)), UInt8.ofNat_toNat]

/-- What an operator that is found says about the front of the text. -/
structure OperatorAt (bytes : Bytes) (n : Nat) (kind : Kind) : Prop where
  operator : kind.isOperator = true ∧ kind ≠ .comment ∧ kind ≠ .eof
  pos : 0 < n
  length : n ≤ bytes.length
  spelt : bytes.take n = Text.utf8 kind.text
  small : ∀ b ∈ bytes.take n, b.toNat < 0x80

theorem mem_operatorTable {e : List Char × Kind} :
    e ∈ operatorTable ↔ ∃ p ∈ Kind.operators, (p.2.toList, p.1) = e := by
  have whole : ∀ p ∈ Kind.operators, (p.2.toList, p.1) ∈ operatorTable := by decide
  constructor
  · intro listed
    obtain ⟨n, -, filtered⟩ := List.mem_flatMap.mp listed
    exact List.mem_map.mp (List.mem_of_mem_filter filtered)
  · rintro ⟨p, known, rfl⟩
    exact whole p known

theorem operator?_eq_some {bytes : Bytes} {n : Nat} {kind : Kind}
    (h : operator? bytes = some (n, kind)) : OperatorAt bytes n kind := by
  unfold operator? at h
  obtain ⟨⟨word, k⟩, found, same⟩ := Option.map_eq_some_iff.mp h
  simp only [Prod.mk.injEq] at same
  obtain ⟨rfl, rfl⟩ := same
  have member := List.mem_of_find?_eq_some found
  have front := List.find?_some found
  obtain ⟨p, known, same⟩ := mem_operatorTable.mp member
  simp only [Prod.mk.injEq] at same
  obtain ⟨rfl, rfl⟩ := same
  obtain ⟨isOperator, comment, eof, pos, short, small, spelt⟩ := operator_spellings p known
  -- The characters of the operator are the first bytes, one for one.
  have chars : p.2.toList = (bytes.take p.2.toList.length).map fun b => Char.ofNat b.toNat := by
    rw [List.isPrefixOf_iff_prefix, List.prefix_iff_eq_take] at front
    rw [← List.map_take, List.take_take, Nat.min_eq_left short] at front
    exact front
  have bytesEq : bytes.take p.2.toList.length =
      p.2.toList.map fun c => UInt8.ofNat c.toNat := by
    have mapped := congrArg (List.map fun c : Char => UInt8.ofNat c.toNat) chars
    rw [List.map_map] at mapped
    rw [mapped]
    exact (List.map_id'' ofNat_toNat_byte _).symm
  refine ⟨⟨isOperator, comment, eof⟩, pos, ?_, bytesEq.trans spelt.symm, ?_⟩
  · have length := congrArg List.length chars
    rw [List.length_map, List.length_take] at length
    omega
  · intro b member
    rw [bytesEq, List.mem_map] at member
    obtain ⟨c, inside, rfl⟩ := member
    have below := of_decide_eq_true (List.all_eq_true.mp small c inside)
    rw [UInt8.toNat_ofNat']
    omega

/-- Bytes below 128 are passed one by one. -/
theorem offset_skip {text : Bytes} {r : Reader} (h : r.At text) (n : Nat)
    (small : ∀ b ∈ r.rest.take n, b.toNat < 0x80) (length : n ≤ r.rest.length) :
    (skip n r).offset = r.offset + n := by
  induction n generalizing r with
  | zero => rfl
  | succ n ih =>
    cases front : r.rest with
    | nil => simp [front] at length
    | cons b rest =>
      rw [front] at small length
      have ascii := small b (by simp)
      have one : (Text.decodeCons b rest).more = 0 := (Text.decodeCons_small (by simp) ascii).1
      obtain ⟨next, tail, -⟩ := h.next_of_cons front
      rw [Text.Decoded.width, one] at next
      rw [one, List.drop_zero] at tail
      have skipped := ih h.next (by
        rw [tail]
        intro c inside
        exact small c (by simp [inside])) (by
        rw [tail]
        simpa using length)
      rw [skip, skipped, next]
      omega

/-! Lexemes -/

theorem Step.before {text : Bytes} {p m q : Nat} {l : Lexeme} (blank : Blank text p m)
    (step : Step text m l q) : Step text p l q := by
  cases step with
  | proper kind before stands => exact .proper kind (blank.trans before) stands
  | skipped kind rest last => exact .skipped kind (blank.trans rest) last

/-- A lexeme is handed over with all faults on the way to where the next one is read from. -/
def HandedOver (start : Reader) (out : Lexeme × State) : Prop :=
  ∃ r, Reaches start r ∧ out.2.reader = { r with faults := [] } ∧ out.1.faults = r.faults.reverse

theorem emit_handedOver {start r : Reader} (way : Reaches start r) (s : State) (kind : Kind)
    (offset : Nat) (literal : Bytes) (ends : Bool) :
    HandedOver start (emit s r kind offset literal ends) := ⟨r, way, rfl, rfl⟩

theorem comment_handedOver (s : State) (start : Reader) : HandedOver start (comment s start) := by
  have way := fun infos directive =>
    (reaches_commentBody start).trans (reaches_applyDirective _ infos directive)
  unfold comment
  dsimp only
  split
  · exact emit_handedOver (way _ _) _ _ _ _ _
  · exact emit_handedOver (way _ _) _ _ _ _ _

theorem symbol_handedOver (s : State) (start : Reader) : HandedOver start (symbol s start) := by
  unfold symbol
  split
  · exact emit_handedOver ((reaches_next start).trans (reaches_skip _ _)) _ _ _ _ _
  · refine emit_handedOver (.ite (reaches_next start) (.ite ?_ ?_)) _ _ _ _ _
    · exact .fault _ _ (reaches_next start)
    · exact .fault _ _ (reaches_next start)

theorem lexeme_handedOver (s : State) (start : Reader) (c : Char) :
    HandedOver start (lexeme s start c) := by
  have body {r : Reader} (way : Reaches start.next r) := (reaches_next start).trans way
  unfold lexeme
  split
  · exact emit_handedOver (reaches_skipWhile _ _) _ _ _ _ _
  split
  · exact emit_handedOver (reaches_number _) _ _ _ _ _
  split
  · exact emit_handedOver (reaches_next start) _ _ _ _ _
  split
  · exact emit_handedOver (body (reaches_stringBody _ _)) _ _ _ _ _
  split
  · exact emit_handedOver (body (reaches_runeBody _ _ _ _)) _ _ _ _ _
  split
  · exact emit_handedOver (body (reaches_rawBody _ _)) _ _ _ _ _
  split
  · exact comment_handedOver s start
  · exact symbol_handedOver s start

theorem next_handedOver (s : State) : HandedOver s.reader (next s) := by
  have blanks := reaches_skipWhile (isBlank s.ends) s.reader
  unfold next
  split
  · exact emit_handedOver .refl _ _ _ _ _
  · dsimp only
    split
    · obtain ⟨r, way, after, faults⟩ :=
        lexeme_handedOver s (s.reader.skipWhile (isBlank s.ends)) _
      exact ⟨r, blanks.trans way, after, faults⟩
    · split
      · exact emit_handedOver blanks _ _ _ _ _
      · exact emit_handedOver blanks _ _ _ _ _

theorem HandedOver.at {text : Bytes} {start : Reader} {out : Lexeme × State}
    (h : HandedOver start out) (stands : start.At text) : out.2.reader.At text := by
  obtain ⟨r, way, after, -⟩ := h
  have there := stands.reaches way
  rw [after]
  exact ⟨there.rest, there.size, there.bound⟩

section
variable {text : Bytes} {start : Reader} {c : Char}

/-- A fault about a byte that is no question mark is not masked. -/
theorem not_masked {r : Reader} {offset : Nat} {f : Fault} {b : UInt8}
    (masked : Masked text r.faults.reverse) (noted : ⟨offset, f⟩ ∈ r.faults)
    (byte : text[offset]? = some b) : b = 0x3F := by
  have mark := masked _ (List.mem_reverse.mpr noted)
  rw [byte] at mark
  exact Option.some.inj mark

theorem applyDirective_offset (r : Reader) (infos : List LineInfo)
    (directive : Option (Except Located LineInfo)) :
    (applyDirective r infos directive).1.offset = r.offset := by
  unfold applyDirective
  split <;> rfl

/-- What a comment lexeme consists of. -/
theorem comment_fields (s : State) (start : Reader) :
    (comment s start).1.kind = .comment ∧
      (comment s start).2.reader.offset = (commentBody start).1.offset ∧
      (∀ f ∈ (commentBody start).1.faults, f ∈ (comment s start).1.faults) := by
  have kept {infos directive f} (h : f ∈ (commentBody start).1.faults) :
      f ∈ (applyDirective (commentBody start).1 infos directive).1.faults.reverse :=
    List.mem_reverse.mpr ((reaches_applyDirective _ infos directive).faults h)
  unfold comment
  dsimp only
  split
  · exact ⟨rfl, applyDirective_offset _ _ _, fun f h => kept h⟩
  · exact ⟨rfl, applyDirective_offset _ _ _, fun f h => kept h⟩

theorem comment_offset (s : State) (start : Reader) : (comment s start).1.offset = start.offset := by
  unfold comment
  dsimp only
  split <;> rfl

theorem comment_stands (s : State) (h : start.At text) (slash : start.char? = some '/')
    (second : start.next.sees '/' = true ∨ start.next.sees '*' = true)
    (masked : Masked text (comment s start).1.faults) :
    CommentAt text start.offset (comment s start).2.reader.offset := by
  obtain ⟨-, offset, kept⟩ := comment_fields s start
  rw [offset]
  rcases commentBody_extent h slash second with comment | noted
  · exact comment
  · have mark := masked _ (kept _ noted)
    rw [(h.next_of_ascii slash (by decide)).1] at mark
    exact absurd mark (by decide)

theorem comment_step (s : State) (h : start.At text) (slash : start.char? = some '/')
    (second : start.next.sees '/' = true ∨ start.next.sees '*' = true)
    (masked : Masked text (comment s start).1.faults) :
    Step text start.offset (comment s start).1 (comment s start).2.reader.offset := by
  have kind := (comment_fields s start).1
  refine .skipped (.inl kind) (.comment (comment_stands s h slash second masked) (.refl _)) ?_
  rw [kind]
  intro eof
  cases eof

/-- The byte that a reader stands on is a back quote only if the character is. -/
theorem not_quote (h : start.At text) (char : start.char? = some c) (quote : c ≠ Char.ofNat 0x60) :
    text[start.offset]? ≠ some 0x60 := by
  intro byte
  have here := h.char_of_byte byte (by decide)
  rw [char] at here
  exact quote (Option.some.inj here)

theorem operator_step (h : start.At text) (other : text[start.offset]? ≠ some 0x60) {n : Nat}
    {kind : Kind} (found : OperatorAt start.rest n kind) {l : Lexeme}
    (offset : l.offset = start.offset) (same : l.kind = kind)
    (literal : l.literal = if kind = .semicolon then [0x3B] else []) :
    Step text start.offset l (skip (n - 1) start.next).offset := by
  obtain ⟨m, rfl⟩ := Nat.exists_eq_succ_of_ne_zero (Nat.ne_of_gt found.pos)
  have stop : (skip m start.next).offset = start.offset + (m + 1) :=
    offset_skip h (m + 1) found.small found.length
  have length := h.length_rest
  have fits := found.length
  rw [Nat.succ_sub_one, stop]
  have told : l.text = Text.utf8 kind.text := by
    unfold Lexeme.text
    by_cases semicolon : kind = .semicolon
    · rw [literal, if_pos semicolon, same, semicolon]
      decide
    · rw [literal, if_neg semicolon, same]
      rfl
  have written : Text.slice text start.offset (start.offset + (m + 1)) = Text.utf8 kind.text := by
    rw [← found.spelt, h.rest, Text.slice, Nat.add_sub_cancel_left]
  refine .proper ⟨?_, ?_, ?_⟩ (by rw [offset]; exact .refl _) ⟨by omega, by omega, ?_, ?_, ?_⟩
  · rw [same]
    exact found.operator.2.1
  · rw [same]
    exact found.operator.2.2
  · unfold Lexeme.isAutomatic
    by_cases semicolon : kind = .semicolon
    · simp [literal, semicolon]
    · simp [same, semicolon]
  · rw [offset, slice_eq_of_other (by omega) other, written, told]
  · rw [offset]
    exact fun quote => absurd quote other
  · rw [same, told]
    exact fun _ => rfl

/-- A character that starts no lexeme is told by its own bytes, unless it is malformed. -/
theorem illegal_step (h : start.At text) (char : start.char? = some c)
    (other : text[start.offset]? ≠ some 0x60) (known : c ≠ Text.replacement) {l : Lexeme}
    (offset : l.offset = start.offset) (kind : l.kind = .illegal)
    (literal : l.literal = String.utf8EncodeChar c) :
    Step text start.offset l start.next.offset := by
  obtain ⟨inside, long⟩ := h.offset_lt_of_char char
  have written := slice_next h char known
  have told : l.text = Text.slice text start.offset start.next.offset := by
    have nonempty := slice_ne_nil long inside
    rw [written, ← literal] at nonempty ⊢
    unfold Lexeme.text
    rw [if_neg (by simpa using nonempty)]
  refine .proper (by rw [kind]; exact ⟨by decide, by decide, isAutomatic_eq_false (by simp [kind])⟩)
    (by rw [offset]; exact .refl _) ⟨by omega, h.next.bound, ?_, ?_, ?_⟩
  · rw [told, offset, slice_eq_of_other long other]
  · rw [offset]
    exact fun quote => absurd quote other
  · rw [kind]
    exact fun isOperator => absurd isOperator (by decide)

theorem symbol_step (s : State) (h : start.At text) (char : start.char? = some c)
    (quote : c ≠ Char.ofNat 0x60) (masked : Masked text (symbol s start).1.faults) :
    Step text start.offset (symbol s start).1 (symbol s start).2.reader.offset := by
  have other := not_quote h char quote
  unfold symbol at masked ⊢
  split
  · rename_i n kind found
    exact operator_step h other (operator?_eq_some found) rfl rfl rfl
  · rename_i absent
    simp only [absent, char, Option.getD_some] at masked ⊢
    -- Only a byte order mark goes without a fault of its own, and only a question mark with one.
    have noted (f : Fault) (m : Masked text (start.next.fault start.offset f).faults.reverse) :
        c ≠ Text.replacement := by
      obtain ⟨b, rest, -, -, here⟩ := h.front_of_char char
      have question := not_masked m List.mem_cons_self here
      rw [question] at here
      have seen := h.char_of_byte here (by decide)
      rw [char] at seen
      rw [Option.some.inj seen]
      decide
    split at masked
    · rename_i mark
      rw [if_pos mark]
      rw [beq_iff_eq] at mark
      exact illegal_step h char other (by rw [mark]; decide) rfl rfl rfl
    · rename_i ordinary
      rw [if_neg ordinary]
      split at masked
      · rename_i curly
        rw [if_pos curly]
        exact illegal_step h char other (noted _ masked) rfl rfl rfl
      · rename_i straight
        rw [if_neg straight]
        exact illegal_step h char other (noted _ masked) rfl rfl rfl

/-- The lexeme that is handed over with the bytes between two readers. -/
theorem emit_step (s : State) (h : start.At text) {r : Reader} (way : Reaches start r)
    (long : start.offset < r.offset) (other : text[start.offset]? ≠ some 0x60) {kind : Kind}
    (plain : kind.isOperator = false ∧ kind ≠ .comment ∧ kind ≠ .eof) (ends : Bool) :
    Step text start.offset (emit s r kind start.offset (between start r) ends).1 r.offset :=
  .proper (proper_of_kind plain.1 plain.2.1 plain.2.2) (.refl _)
    (standsAt_between h way long other rfl rfl plain.1)

/-- A raw string that is closed is told without its carriage returns. -/
theorem raw_step (s : State) (h : start.At text) (char : start.char? = some (Char.ofNat 0x60))
    (masked : Masked text (rawBody start.offset start.next).faults.reverse) :
    Step text start.offset
      (emit s (rawBody start.offset start.next) .string start.offset
        ((between start (rawBody start.offset start.next)).filter (· != 0x0D)) true).1
      (rawBody start.offset start.next).offset := by
  obtain ⟨opening, next⟩ := h.next_of_ascii char (by decide)
  have there := h.next.reaches (reaches_rawBody start.offset start.next)
  rcases rawBody_closes start.offset h.next with noted | ⟨long, closing, body⟩
  · exact absurd (not_masked masked noted opening) (by decide)
  · rw [next] at long body
    have raw : RawAt text start.offset (rawBody start.offset start.next).offset :=
      ⟨opening, by omega, fun k behind before => body k behind before, closing⟩
    have first : (Text.slice text start.offset (rawBody start.offset start.next).offset).head? =
        some 0x60 := by
      rw [head?_slice (by omega)]
      exact opening
    have plain : Kind.string.isOperator = false ∧ Kind.string ≠ .comment ∧ Kind.string ≠ .eof := by
      decide
    refine .proper (proper_of_kind plain.1 plain.2.1 plain.2.2) (.refl _)
      ⟨show start.offset < _ by omega, there.bound, ?_, fun _ => ⟨rfl, raw⟩,
        fun isOperator => absurd (plain.1.symm.trans isOperator) (by decide)⟩
    obtain ⟨rest, front⟩ := List.head?_eq_some_iff.mp first
    have kept : (Text.slice text start.offset (rawBody start.offset start.next).offset).filter
        (· != 0x0D) = 0x60 :: rest.filter (· != 0x0D) := by
      rw [front]
      rfl
    change Lexeme.text ⟨.string, start.offset, _, _⟩ = spelling (Text.slice text start.offset _)
    rw [h.between, spelling, if_pos first, kept]
    rfl

/-- A lexeme stands where its first character is, and ends where the next one is read from. -/
theorem lexeme_step (s : State) (h : start.At text) (char : start.char? = some c)
    (masked : Masked text (lexeme s start c).1.faults) :
    Step text start.offset (lexeme s start c).1 (lexeme s start c).2.reader.offset := by
  have body {r : Reader} (way : Reaches start.next r) : start.offset < r.offset :=
    Nat.lt_of_lt_of_le (h.offset_lt_of_char char).2 (h.next.offset_le way)
  have shorter {r : Reader} (way : Reaches start r) (less : r.rest.length < start.rest.length) :
      start.offset < r.offset := by
    have before := h.length_rest
    have after := (h.reaches way).length_rest
    omega
  unfold lexeme at masked ⊢
  by_cases letter : isLetter c = true
  · rw [if_pos letter]
    have word : isWordChar c = true := (Bool.or_eq_true _ _).mpr (.inl letter)
    have way := reaches_skipWhile isWordChar start
    have other := not_quote h char (by rintro rfl; exact absurd letter (by decide))
    have step := emit_step s h way (shorter way (skipWhile_rest_length_lt char word)) other
      (ofWord_kind (Text.toString (between start (start.skipWhile isWordChar))))
    exact step _
  rw [if_neg letter] at masked ⊢
  by_cases digit : (isDecimal c || c == '.' && 0x30 ≤ start.peek && start.peek ≤ 0x39) = true
  · rw [if_pos digit]
    obtain ⟨kind, told⟩ := number_told start
    have way := reaches_number start
    have front : (isDecimal c || c == '.') = true := by
      cases d : isDecimal c <;> simp_all
    have other := not_quote h char (by rintro rfl; exact absurd front (by decide))
    have step := emit_step s h way (shorter way (number_rest_length_lt char front)) other kind.kind
    rw [← told] at step
    exact step true
  rw [if_neg digit] at masked ⊢
  by_cases newline : (c == '\n') = true
  · rw [if_pos newline]
    rw [beq_iff_eq] at newline
    subst newline
    obtain ⟨byte, next⟩ := h.next_of_ascii char (by decide)
    refine .skipped (.inr (.inr rfl)) (.space byte (by decide) ?_) (fun eof => nomatch eof)
    rw [← next]
    exact .refl _
  rw [if_neg newline] at masked ⊢
  by_cases double : (c == '"') = true
  · rw [if_pos double]
    rw [beq_iff_eq] at double
    have way := reaches_stringBody start.offset start.next
    have other := not_quote h char (by rw [double]; decide)
    have plain : Kind.string.isOperator = false ∧ Kind.string ≠ .comment ∧ Kind.string ≠ .eof := by
      decide
    have step := emit_step s h ((reaches_next start).trans way) (body way) other plain
    exact step _
  rw [if_neg double] at masked ⊢
  by_cases single : (c == '\'') = true
  · rw [if_pos single]
    rw [beq_iff_eq] at single
    have way := reaches_runeBody start.offset start.next 0 true
    have other := not_quote h char (by rw [single]; decide)
    have plain : Kind.char.isOperator = false ∧ Kind.char ≠ .comment ∧ Kind.char ≠ .eof := by
      decide
    have step := emit_step s h ((reaches_next start).trans way) (body way) other plain
    exact step _
  rw [if_neg single] at masked ⊢
  by_cases quote : (c == Char.ofNat 0x60) = true
  · rw [if_pos quote] at masked ⊢
    rw [beq_iff_eq] at quote
    rw [quote] at char
    exact raw_step s h char masked
  rw [if_neg quote] at masked ⊢
  by_cases slash : (c == '/' && (start.next.sees '/' || start.next.sees '*')) = true
  · rw [if_pos slash] at masked ⊢
    simp only [Bool.and_eq_true, beq_iff_eq, Bool.or_eq_true] at slash
    obtain ⟨rfl, second⟩ := slash
    exact comment_step s h char second masked
  · rw [if_neg slash] at masked ⊢
    exact symbol_step s h char (by simpa using quote) masked

/-- What the next lexeme takes from the text, if none of its faults is of account. -/
theorem next_step {s : State} (h : s.reader.At text) (masked : Masked text (next s).1.faults) :
    Step text s.reader.offset (next s).1 (next s).2.reader.offset := by
  have blanks := blank_skipWhile s.ends h
  have there := h.reaches (reaches_skipWhile (isBlank s.ends) s.reader)
  unfold next at masked ⊢
  split
  · exact .skipped (.inr (.inr rfl)) (.refl _) (fun eof => nomatch eof)
  · rename_i pending
    simp only [pending] at masked
    dsimp only
    split
    · rename_i c char
      simp only [char] at masked
      exact (lexeme_step s there char masked).before blanks
    · rename_i absent
      split
      · exact .skipped (.inr (.inr rfl)) blanks (fun eof => nomatch eof)
      · exact .skipped (.inr (.inl rfl)) blanks (fun _ => there.offset_eq_of_char absent)

end

end Scan
end Desugar.Host

import Desugar.Proofs.Host.Twin.Lexeme
import Desugar.Proofs.Token.Layout

/-!
# Tokens read off known characters

Some characters are one token before others if they are read as that token wherever they stand. Tokens
that are each written behind their gap, and are each one token before what follows them, are what the
whole text is read as: with the same kinds, literals and gaps.
-/
namespace Desugar.Lexer

open Host Host.Scan Host.Reader

/-- Whether the characters begin with a mark that is glued to what stands before them. -/
def gluesTo (X : List Char) (mark : Char) : Bool :=
  X.head? == some mark &&
    (if mark == '.' then X[1]? != some '.' && !(X[1]?.any isDecimal) else X[1]? != some '=')

/-- The kind and text of a token, and whether it takes the next lexeme with it, by the characters behind
its lexeme. -/
def classifyBefore (kind : Host.Kind) (literal : Bytes) (X : List Char) : TokenKind × Bytes × Bool :=
  if kind = .illegal && literal == [0x3F] then
    if gluesTo X ':' then (.elvis, Text.utf8 "?:", true)
    else if gluesTo X '=' then (.elvisAssign, Text.utf8 "?=", true)
    else (.question, literal, false)
  else if kind = .mul && gluesTo X '.' then (.spreadDot, Text.utf8 "*.", true)
  else (.ofHost kind, Lexeme.text ⟨kind, 0, literal, []⟩, false)

section

/-- A byte below 128 at the front is the character at the front. -/
theorem head_beq (X : List Char) {b : UInt8} (small : b.toNat < 0x80) (pos : b ≠ 0) :
    (((Text.encode X).head?).getD 0 == b) = (X.head? == some (Char.ofNat b.toNat)) := by
  rw [Bool.eq_iff_iff, beq_iff_eq, beq_iff_eq]
  cases X with
  | nil => simp [Ne.symm pos]
  | cons c X =>
    have value : (Char.ofNat b.toNat).toNat = b.toNat :=
      Text.toNat_ofNat_of_isValidChar (Or.inl (by omega))
    by_cases one : c.toNat < 0x80
    · rw [Text.encode_cons, Text.encode_ascii one]
      simp only [List.cons_append, List.head?_cons, Option.getD_some, Option.some.injEq]
      constructor
      · rintro rfl
        rw [Text.toNat_ofNat_of_lt (by omega), Char.ofNat_toNat]
      · rintro rfl
        rw [value, UInt8.ofNat_toNat]
    · obtain ⟨x, tail, bytes, -⟩ := Text.decodeCons_encode c []
      have large : 0x80 ≤ x.toNat := Text.le_of_mem_encode (Nat.le_of_not_lt one) (by simp [bytes])
      rw [Text.encode_cons, bytes]
      simp only [List.cons_append, List.head?_cons, Option.getD_some, Option.some.injEq]
      constructor
      · rintro rfl
        omega
      · rintro rfl
        omega

variable {text : Bytes} {r : Reader} {X : List Char}

theorem byte_of_over (h : r.Over text X) : text[r.offset]? = (Text.encode X).head? := by
  rw [← List.head?_drop, ← h.stands.rest, h.front]

/-- Where marks stand among the bytes and where they stand among the characters. -/
theorem glues_eq (h : r.Over text X) :
    glues text.toArray r.offset 0x3A = gluesTo X ':' ∧
      glues text.toArray r.offset 0x3D = gluesTo X '=' ∧
      glues text.toArray r.offset 0x2E = gluesTo X '.' := by
  have front {b : UInt8} (small : b.toNat < 0x80) (pos : b ≠ 0) :
      ((text[r.offset]?).getD 0 == b) = (X.head? == some (Char.ofNat b.toNat)) := by
    rw [byte_of_over h, head_beq X small pos]
  have behind {c : Char} (head : X.head? = some c) (one : c.toNat < 0x80) :
      text[r.offset + 1]? = (Text.encode X.tail).head? := by
    obtain ⟨Y, rfl⟩ := List.head?_eq_some_iff.mp head
    rw [← (h.stands.next_of_ascii h.char? one).2, byte_of_over h.next.1]
    rfl
  have second : X[1]? = X.tail.head? := by
    cases X <;> simp [List.head?_eq_getElem?]
  have glue {b : UInt8} {c : Char} (small : b.toNat < 0x80) (pos : b ≠ 0)
      (same : Char.ofNat b.toNat = c) (test test' : Bool)
      (rest : X.head? = some c → test = test') :
      ((text[r.offset]?).getD 0 == b && test) = (X.head? == some c && test') := by
    rw [front small pos, same]
    by_cases head : X.head? = some c
    · rw [rest head]
    · rw [beq_eq_false_iff_ne.mpr head, Bool.false_and, Bool.false_and]
  unfold glues gluesTo
  simp only [List.getElem?_toArray, second]
  refine ⟨glue (by decide) (by decide) (by decide) _ _ fun head => ?_,
    glue (by decide) (by decide) (by decide) _ _ fun head => ?_,
    glue (by decide) (by decide) (by decide) _ _ fun head => ?_⟩
  · rw [behind head (by decide)]
    simp only [bne, head_beq X.tail (b := 0x3D) (by decide) (by decide)]
    rfl
  · rw [behind head (by decide)]
    simp only [bne, head_beq X.tail (b := 0x3D) (by decide) (by decide)]
    rfl
  · rw [behind head (by decide)]
    simp only [bne, head_beq X.tail (b := 0x2E) (by decide) (by decide), digit_head]
    rfl

/-- How a lexeme becomes a token is told by the characters behind it. -/
theorem classify_eq (h : r.Over text X) {l : Lexeme}
    (one : (l.kind = .illegal ∧ l.literal = [0x3F]) ∨ l.kind = .mul → r.offset = l.offset + 1) :
    classify text.toArray l = classifyBefore l.kind l.literal X := by
  obtain ⟨colon, equals, point⟩ := glues_eq h
  unfold classify classifyBefore
  by_cases question : (l.kind = .illegal && l.literal == [0x3F]) = true
  · have offset := one (.inl (by simpa using question))
    rw [if_pos question, if_pos question, ← offset, colon, equals]
  rw [if_neg question, if_neg question]
  by_cases star : l.kind = .mul
  · rw [← one (.inr star), point]
    rfl
  · simp [star]
    rfl

end

/-- What a lexeme is that becomes a token. -/
def IsProper (kind : Host.Kind) (literal : Bytes) : Prop :=
  kind ≠ .comment ∧ kind ≠ .eof ∧ ¬ (kind = .semicolon ∧ literal = [0x0A])

/-- A question mark or a star takes one byte. -/
def OneByte (kind : Host.Kind) (literal : Bytes) (w : List Char) : Prop :=
  (kind = .illegal ∧ literal = [0x3F]) ∨ kind = .mul → (Text.encode w).length = 1

/-- Before the characters `X`, the characters `w` are one token in every text. -/
inductive TokenAs (w X : List Char) (kind : TokenKind) : Prop where
  | plain {k : Host.Kind} {literal : Bytes} (reads : LexesAs w X k literal) (proper : IsProper k literal)
      (single : OneByte k literal w) (becomes : classifyBefore k literal X = (kind, Text.encode w, false))
  | glued {c m : Char} {k k' : Host.Kind} {literal literal' : Bytes} (same : w = [c, m])
      (reads : LexesAs [c] (m :: X) k literal) (proper : IsProper k literal)
      (single : OneByte k literal [c])
      (becomes : classifyBefore k literal (m :: X) = (kind, Text.encode w, true))
      (blank : m ∉ [' ', '\t', '\r', '\n']) (mark : LexesAs [m] X k' literal')
      (proper' : IsProper k' literal')

/-- The characters of a gap that is written out. -/
def gapChars : Gap → List Char
  | .none => []
  | .space => [' ']
  | .newline => ['\n']

theorem gapChars_plain (g : Gap) : ∀ c ∈ gapChars g, IsPlain c := by cases g <;> decide

/-- The first of the characters is no blank. -/
def StartsWord (w : List Char) : Prop := ∃ c v, w = c :: v ∧ c ∉ [' ', '\t', '\r', '\n']

/-- The characters are the tokens written out, each behind its gap, and each token is read before what
follows it. -/
inductive Rereads : List Token → List Char → Prop where
  | nil : Rereads [] []
  | cons {t : Token} {ts : List Token} {w X : List Char} (starts : StartsWord w)
      (spelt : Text.encode w = t.literal) (reads : TokenAs w X t.kind) (rest : Rereads ts X) :
      Rereads (t :: ts) (gapChars t.gap ++ (w ++ X))

/-- What a token is apart from where it stands. -/
def shape (t : Token) : TokenKind × Bytes × Gap := (t.kind, t.literal, t.gap)

theorem Rereads.encode {ts : List Token} {cs : List Char} (h : Rereads ts cs) :
    Text.encode cs = renderTail ts := by
  induction h with
  | nil => rfl
  | @cons t ts w X starts spelt reads rest ih =>
    have gap : Text.encode (gapChars t.gap) = t.gap.text := by cases t.gap <;> decide
    rw [Text.encode_append, Text.encode_append, spelt, ih, gap]
    unfold renderTail
    rw [List.flatMap_cons, List.append_assoc]

/-! ## Reading -/

/-- A state from which reading goes on before some characters. -/
structure Stands (text : Bytes) (s : State) (X : List Char) : Prop where
  upon : s.reader.Over text X
  fresh : s.reader.faults = []
  pending : s.pending = none

theorem next_of_char {s : State} (pending : s.pending = none) {c : Char}
    (char : (s.reader.skipWhile (isBlank s.ends)).char? = some c) :
    Scan.next s = lexeme s (s.reader.skipWhile (isBlank s.ends)) c := by
  unfold Scan.next
  simp only [pending, char]

theorem isBlank_eq_false {c : Char} (word : c ∉ [' ', '\t', '\r', '\n']) (ends : Bool) :
    isBlank ends c = false := by
  simp only [List.mem_cons, List.not_mem_nil, or_false, not_or] at word
  obtain ⟨space, tab, carriage, newline⟩ := word
  simp [isBlank, space, tab, carriage, newline]

theorem lexeme_newline (s : State) (start : Reader) :
    lexeme s start '\n' = automatic s start.next start.offset := by
  unfold lexeme
  rw [if_neg (by decide), if_neg (by simp [isDecimal]), if_pos (by decide)]

/-- Where a gap is skipped, the next lexeme is read behind it. -/
theorem next_skipped {text : Bytes} {s : State} {c : Char} {cs X : List Char}
    (stands : Stands text s cs) (skips : cs.dropWhile (isBlank s.ends) = c :: X) :
    ∃ start, start.Over text (c :: X) ∧ start.faults = [] ∧ Scan.next s = lexeme s start c := by
  obtain ⟨upon, fresh, pending⟩ := stands
  obtain ⟨there, faults⟩ := upon.skipWhile (isBlank s.ends)
  rw [skips] at there
  exact ⟨_, there, faults.trans fresh, next_of_char pending there.char?⟩

/-- A newline that ends a statement is a lexeme of its own. -/
theorem next_newline {text : Bytes} {s : State} {X : List Char} (stands : Stands text s ('\n' :: X))
    (ends : s.ends = true) :
    (Scan.next s).1.isAutomatic = true ∧ (Scan.next s).1.kind ≠ .eof ∧ (Scan.next s).1.faults = [] ∧
      Stands text (Scan.next s).2 X := by
  obtain ⟨start, there, silent, next⟩ := next_skipped stands
    (List.dropWhile_cons_of_neg (by simp [isBlank, ends]))
  obtain ⟨behind, kept, -⟩ := there.next
  rw [next, lexeme_newline]
  exact ⟨rfl, fun eof => (by cases eof), by simp [automatic, emit, kept, silent],
    ⟨behind.forget, rfl, stands.pending⟩⟩

/-- What is read from a state whose next lexeme is known. -/
theorem reads_lexeme {text : Bytes} {s : State} {start : Reader} {c : Char} {w X : List Char}
    {kind : Host.Kind} {literal : Bytes} (lexes : LexesAs (c :: w) X kind literal)
    (proper : IsProper kind literal) (upon : start.Over text (c :: (w ++ X))) (fresh : start.faults = [])
    (pending : s.pending = none) (next : Scan.next s = lexeme s start c) {ls : List Lexeme}
    (reads : Reads s ls) :
    ∃ l s' rest, ls = l :: rest ∧ isProper l = true ∧ Reads s' rest ∧ l.kind = kind ∧
      l.literal = literal ∧ l.offset = start.offset ∧ Stands text s' X ∧ Masked text l.faults ∧
      l = (lexeme s start c).1 := by
  have gives := lexes text s start c rfl upon fresh
  rw [← next] at gives
  have counts : isProper (Scan.next s).1 = true := by
    rw [isProper_iff, Lexeme.isAutomatic, gives.kind, gives.literal]
    refine ⟨proper.1, proper.2.1, ?_⟩
    simpa using proper.2.2
  cases reads with
  | stop eof => exact absurd (gives.kind.symm.trans eof) proper.2.1
  | step more rest =>
    exact ⟨_, _, _, rfl, counts, rest, gives.kind, gives.literal, gives.offset,
      ⟨gives.upon, gives.fresh, gives.pending.trans pending⟩, gives.masked, congrArg Prod.fst next⟩

/-- What a lexeme is read as where its characters stand. -/
def ReadAt (text : Bytes) (w X : List Char) (l : Lexeme) : Prop :=
  ∃ s start c, w.head? = some c ∧ start.Over text (w ++ X) ∧ start.faults = [] ∧
    l = (lexeme s start c).1

/-- The next proper lexeme behind a gap, with what is left to read. -/
theorem reads_word {text : Bytes} {s : State} {g : Gap} {w X : List Char} {kind : Host.Kind}
    {literal : Bytes} (starts : StartsWord w) (lexes : LexesAs w X kind literal)
    (proper : IsProper kind literal) (stands : Stands text s (gapChars g ++ (w ++ X)))
    {ls : List Lexeme} (reads : Reads s ls) :
    ∃ l s' rest, ls.filter isProper = l :: rest.filter isProper ∧ Reads s' rest ∧
      l.kind = kind ∧ l.literal = literal ∧
      l.offset = s.reader.offset + (Text.encode (gapChars g)).length ∧ Stands text s' X ∧
      ((∀ l ∈ rest, Masked text l.faults) → ∀ l ∈ ls, Masked text l.faults) ∧ ReadAt text w X l := by
  obtain ⟨c, v, rfl, word⟩ := starts
  have stop (ends : Bool) : (c :: v ++ X).dropWhile (isBlank ends) = c :: (v ++ X) :=
    List.dropWhile_cons_of_neg (by simp [isBlank_eq_false word])
  have whole := stands.upon.length
  have place {start : Reader} (there : start.Over text (c :: (v ++ X))) :
      start.offset = s.reader.offset + (Text.encode (gapChars g)).length := by
    have length := there.length
    rw [← List.cons_append] at length
    rw [Text.encode_append, List.length_append] at whole
    omega
  by_cases ended : g = .newline ∧ s.ends = true
  · obtain ⟨rfl, ends⟩ := ended
    obtain ⟨automatic, more, fresh, behind⟩ := next_newline stands ends
    obtain ⟨start, upon, silent, next⟩ := next_skipped behind (stop _)
    cases reads with
    | stop eof => exact absurd eof more
    | step _ after =>
      obtain ⟨l, s', rest, rfl, proper', reads', kind', literal', offset, stands', masked, told⟩ :=
        reads_lexeme lexes proper upon silent behind.pending next after
      have skips : ¬ isProper (Scan.next s).1 = true := by
        rw [isProper_iff]
        intro counts
        rw [counts.2.2] at automatic
        cases automatic
      refine ⟨l, s', rest, ?_, reads', kind', literal', offset.trans (place upon), stands', ?_,
        _, start, c, rfl, upon, silent, told⟩
      · rw [List.filter_cons_of_neg skips, List.filter_cons_of_pos proper']
      · intro clear x member
        rcases List.mem_cons.mp member with rfl | member
        · rw [fresh]
          simp [Masked]
        rcases List.mem_cons.mp member with rfl | member
        · exact masked
        · exact clear x member
  · have skips : (gapChars g ++ (c :: v ++ X)).dropWhile (isBlank s.ends) = c :: (v ++ X) := by
      cases g with
      | none => exact stop _
      | space =>
        rw [gapChars, List.cons_append, List.dropWhile_cons_of_pos (by simp [isBlank])]
        exact stop _
      | newline =>
        have runs : s.ends = false := by simpa using ended
        rw [gapChars, List.cons_append, List.dropWhile_cons_of_pos (by simp [isBlank, runs])]
        exact stop _
    obtain ⟨start, upon, silent, next⟩ := next_skipped stands skips
    obtain ⟨l, s', rest, rfl, proper', reads', kind', literal', offset, stands', masked, told⟩ :=
      reads_lexeme lexes proper upon silent stands.pending next reads
    refine ⟨l, s', rest, ?_, reads', kind', literal', offset.trans (place upon), stands', ?_,
      _, start, c, rfl, upon, silent, told⟩
    · rw [List.filter_cons_of_pos proper']
    · intro clear x member
      rcases List.mem_cons.mp member with rfl | member
      · exact masked
      · exact clear x member

/-- Behind the last token nothing proper is read. -/
theorem next_end {text : Bytes} {s : State} (stands : Stands text s []) :
    isProper (Scan.next s).1 = false ∧ (Scan.next s).1.faults = [] ∧
      ((Scan.next s).1.kind = .eof ∨ (Stands text (Scan.next s).2 [] ∧ (Scan.next s).2.ends = false)) ∧
      (s.ends = false → (Scan.next s).1.kind = .eof) := by
  obtain ⟨upon, fresh, pending⟩ := stands
  obtain ⟨there, faults⟩ := upon.skipWhile (isBlank s.ends)
  rw [List.dropWhile_nil] at there
  have silent := faults.trans fresh
  unfold Scan.next
  generalize s.reader.skipWhile (isBlank s.ends) = start at there silent
  simp only [pending, there.char?, List.head?_nil]
  cases s.ends with
  | false => exact ⟨rfl, by simp [emit, silent], .inl rfl, fun _ => rfl⟩
  | true =>
    exact ⟨rfl, by simp [automatic, emit, silent], .inr ⟨⟨there.forget, rfl, pending⟩, rfl⟩,
      fun ends => by cases ends⟩

theorem reads_end {text : Bytes} {s : State} (stands : Stands text s []) {ls : List Lexeme}
    (reads : Reads s ls) :
    ls.filter isProper = [] ∧ ∀ l ∈ ls, Masked text l.faults := by
  have clear {l : Lexeme} (silent : l.faults = []) : Masked text l.faults := by
    rw [silent]
    simp [Masked]
  obtain ⟨skips, silent, ended, -⟩ := next_end stands
  cases reads with
  | stop eof =>
    rw [List.filter_cons_of_neg (by simp [skips])]
    refine ⟨rfl, fun l member => ?_⟩
    rw [List.mem_singleton.mp member]
    exact clear silent
  | step more rest =>
    obtain ⟨behind, runs⟩ := ended.resolve_left more
    obtain ⟨skips', silent', -, eof⟩ := next_end behind
    cases rest with
    | step more' => exact absurd (eof runs) more'
    | stop =>
      rw [List.filter_cons_of_neg (by simp [skips]), List.filter_cons_of_neg (by simp [skips'])]
      refine ⟨rfl, fun l member => ?_⟩
      rcases List.mem_cons.mp member with rfl | member
      · exact clear silent
      · rw [List.mem_singleton.mp member]
        exact clear silent'

/-- The gap before a token that is written behind it. -/
theorem gap_of_over {text : Bytes} {r : Reader} {g : Gap} {cs : List Char}
    (h : r.Over text (gapChars g ++ cs)) :
    Gap.ofText (text.toArray.extract r.offset
      (r.offset + (Text.encode (gapChars g)).length)).toList = g := by
  have slice : Text.slice text r.offset (r.offset + (Text.encode (gapChars g)).length) =
      Text.encode (gapChars g) := by
    rw [Text.slice, ← h.stands.rest, h.front, Text.encode_append, Nat.add_sub_cancel_left,
      List.take_left]
  rw [slice_toArray, slice]
  cases g <;> decide

/-- Tokens that are written out are read again, with their gaps. -/
theorem tokens_of_rereads {ts : List Token} {cs : List Char} (h : Rereads ts cs) {text : Bytes}
    {s : State} (stands : Stands text s cs) {ls : List Lexeme} (reads : Reads s ls) :
    (∀ l ∈ ls, Masked text l.faults) ∧ ∀ (o : Origin) (lines : LineTable),
      (tokens o lines text.toArray s.reader.offset (ls.filter isProper)).map shape = ts.map shape := by
  induction h generalizing s ls with
  | nil =>
    obtain ⟨empty, masked⟩ := reads_end stands reads
    rw [empty]
    exact ⟨masked, fun o lines => rfl⟩
  | @cons t ts w X starts spelt token rest ih =>
    have whole := stands.upon.length
    simp only [Text.encode_append, List.length_append] at whole
    have gap := gap_of_over stands.upon
    cases token with
    | @plain k literal lexes proper single becomes =>
      obtain ⟨l, s', ls', filter, reads', rfl, rfl, offset, stands', masked, -⟩ :=
        reads_word starts lexes proper stands reads
      have length := stands'.upon.length
      have stop : s'.reader.offset = l.offset + (Text.encode w).length := by omega
      have classified : classify text.toArray l = (t.kind, Text.encode w, false) := by
        rw [classify_eq stands'.upon (fun one => by rw [stop, single one]), becomes]
      obtain ⟨clear, same⟩ := ih stands' reads'
      refine ⟨masked clear, fun o lines => ?_⟩
      rw [filter, tokens_cons, classified]
      simp only [Bool.false_eq_true, if_false, List.map_cons]
      rw [← stop, same, offset]
      simp only [shape, gap, spelt]
    | @glued c m k k' literal literal' same lexes proper single becomes blank mark proper' =>
      subst same
      obtain ⟨l, s', ls', filter, reads', rfl, rfl, offset, stands', masked, -⟩ :=
        reads_word (w := [c]) (X := m :: X) (by
          obtain ⟨x, v, same, word⟩ := starts
          exact ⟨c, [], rfl, by rwa [(List.cons.inj same).1]⟩) lexes proper stands reads
      obtain ⟨l', s'', ls'', filter', reads'', -, -, -, stands'', masked', -⟩ :=
        reads_word (g := .none) (w := [m]) ⟨m, [], rfl, blank⟩ mark proper' stands' reads'
      have length := stands'.upon.length
      have length' := stands''.upon.length
      simp only [Text.encode_cons, Text.encode_nil, List.length_append, List.length_nil] at whole length
      have stop : s'.reader.offset = l.offset + (Text.encode [c]).length := by
        simp only [Text.encode_cons, Text.encode_nil, List.length_append, List.length_nil]
        omega
      have stop' : s''.reader.offset = l.offset + (Text.encode [c, m]).length := by
        simp only [Text.encode_cons, Text.encode_nil, List.length_append, List.length_nil]
        omega
      have classified : classify text.toArray l = (t.kind, Text.encode [c, m], true) := by
        rw [classify_eq stands'.upon (fun one => by rw [stop, single one]), becomes]
      obtain ⟨clear, same⟩ := ih stands'' reads''
      refine ⟨masked (masked' clear), fun o lines => ?_⟩
      rw [filter, tokens_cons, classified, filter']
      simp only [if_true, List.tail_cons, List.map_cons]
      rw [← stop', same, offset]
      simp only [shape, gap, spelt]

/-! ## Whole texts -/

/-- No character is encoded by a byte of 248 and more at its front. -/
theorem lead_lt {c : Char} {b : UInt8} {tail : Bytes} (bytes : String.utf8EncodeChar c = b :: tail) :
    b.toNat < 0xF8 := by
  have below {n : Nat} (small : n < 0xF8) : (UInt8.ofNat n).toNat < 0xF8 := by
    rw [Text.toNat_ofNat_of_lt (by omega)]
    exact small
  simp only [String.utf8EncodeChar] at bytes
  split at bytes
  · rw [← (List.cons.inj bytes).1]
    exact below (by omega)
  split at bytes
  · rw [← (List.cons.inj bytes).1]
    exact below (by omega)
  split at bytes
  · rw [← (List.cons.inj bytes).1]
    exact below (by omega)
  · rw [← (List.cons.inj bytes).1]
    exact below (by omega)

/-- Such a byte has a fault of its own. -/
theorem characterFault?_wide {b : UInt8} (wide : 0xF8 ≤ b.toNat) (rest : Bytes) :
    characterFault? (b :: rest) ≠ none := by
  have malformed : (Text.decodeCons b rest).valid = false := by
    rcases Text.decodeCons_cases b rest with ⟨bytes, -, -⟩ | ⟨malformed, -⟩
    · have := lead_lt bytes
      omega
    · rw [malformed]
      rfl
  simp only [characterFault?, malformed]
  split <;> simp

/-- Reading a text of plain characters starts at its first one. -/
theorem ofText_plain {cs : List Char} (plain : ∀ c ∈ cs, IsPlain c) :
    (ofText (Text.encode cs)).Over (Text.encode cs) cs ∧ (ofText (Text.encode cs)).faults = [] ∧
      (ofText (Text.encode cs)).offset = 0 := by
  have upon : Reader.Over (Text.encode cs) cs ⟨0, Text.encode cs, (Text.encode cs).length, 0, []⟩ :=
    ⟨⟨rfl, rfl, Nat.zero_le _⟩, rfl, plain⟩
  have clear : characterFault? (Text.encode cs) = none := upon.characterFault?
  have notMark : ¬ Reader.sees ⟨0, Text.encode cs, (Text.encode cs).length, 0, []⟩ '\uFEFF' = true := by
    rw [upon.sees]
    cases cs with
    | nil => decide
    | cons c cs => simpa using (plain c List.mem_cons_self).2
  unfold ofText
  split
  · rename_i rest front
    rw [front] at clear
    exact absurd clear (characterFault?_wide (by decide) _)
  · rename_i rest front
    rw [front] at clear
    exact absurd clear (characterFault?_wide (by decide) _)
  · dsimp only
    rw [if_neg notMark, upon.inspect]
    exact ⟨upon, rfl, rfl⟩

theorem Reads.unique {s : State} {ls ls' : List Lexeme} (reads : Reads s ls) (reads' : Reads s ls') :
    ls = ls' := by
  induction reads generalizing ls' with
  | stop eof =>
    cases reads' with
    | stop => rfl
    | step more => exact absurd eof more
  | step more _ ih =>
    cases reads' with
    | stop eof => exact absurd eof more
    | step _ rest => rw [ih rest]

/-- The tokens of a text are told by its lexemes, none of which has a fault of account. -/
theorem reads_of_lexAt {o : Origin} {text : Bytes} {ts : List Token} (read : lexAt o text = .ok ts) :
    ∃ ls lines, Reads (.start o.file text) ls ∧ (∀ l ∈ ls, Masked text l.faults) ∧
      ts = tokens { o with base := o.base.filter Position.isValid } lines text.toArray 0
        (ls.filter isProper) :=
  ⟨_, _, reads_scan o.file text, masked_of_lexAt read⟩

/-- Tokens that are written out are read again. -/
theorem lexAt_of_rereads {ts : List Token} {cs : List Char} (h : Rereads ts cs)
    (plain : ∀ c ∈ cs, IsPlain c) (o : Origin) :
    ∃ ts', lexAt o (Text.encode cs) = .ok ts' ∧ ts'.map shape = ts.map shape := by
  obtain ⟨upon, fresh, offset⟩ := ofText_plain plain
  obtain ⟨masked, same⟩ := tokens_of_rereads h (s := .start o.file (Text.encode cs))
    ⟨upon, fresh, rfl⟩ (reads_scan o.file (Text.encode cs))
  have faults : (Lexer.read o (Text.encode cs)).faults = [] := (diagnostics_eq_nil _ _ _ _).mpr masked
  refine ⟨(Lexer.read o (Text.encode cs)).tokens, ?_, ?_⟩
  · unfold lexAt
    dsimp only
    rw [faults]
    rfl
  · have here : (State.start o.file (Text.encode cs)).reader.offset = 0 := offset
    have told := same { o with base := o.base.filter Position.isValid } (scan o.file (Text.encode cs)).lines
    rw [here] at told
    exact told

end Desugar.Lexer

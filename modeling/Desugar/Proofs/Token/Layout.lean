import Desugar.Proofs.Diagnostic
import Desugar.Proofs.Except
import Desugar.Proofs.Token.Marks

/-!
# How tokens are laid in their text

The tokens of a text that is read without faults stand in it one after the other, with nothing but
white space and comments before, between and behind them. A token's literal is the text that it
stands on, except that a raw string is told without its carriage returns. The offset just past a token
is told by its literal: such a raw string is taken to end before it does.
-/
namespace Desugar.Lexer

open Host Host.Scan Host.Reader

/-- Tokens as they are read: a token stands on the bytes from `start` up to `stop`, but is taken to end
where its literal would if it stood at `start`; `told` is that end of the token before, which ends at
`last`. -/
inductive Laid (text : Bytes) : (told last : Nat) → List Token → Prop where
  | done {told last : Nat} (blank : Blank text last text.length) : Laid text told last []
  | token {told last start stop : Nat} {t : Token} {ts : List Token}
      (starts : t.span.start.offset = start)
      (stops : t.span.stop.offset = (start + t.literal.length : Nat))
      (long : start < stop) (bound : stop ≤ text.length)
      (literal : t.literal = spelling (Text.slice text start stop))
      (raw : text[start]? = some 0x60 → t.kind = .string ∧ RawAt text start stop)
      (blank : Blank text last start) (gap : t.gap = Gap.ofText (Text.slice text told start))
      (rest : Laid text (start + t.literal.length) stop ts) : Laid text told last (t :: ts)

/-- What is read from a state on. -/
inductive Reads : State → List Lexeme → Prop where
  | stop {s : State} (eof : (Scan.next s).1.kind = .eof) : Reads s [(Scan.next s).1]
  | step {s : State} {ls : List Lexeme} (more : (Scan.next s).1.kind ≠ .eof)
      (rest : Reads (Scan.next s).2 ls) : Reads s ((Scan.next s).1 :: ls)

theorem collect_eq (s : State) (read : List Lexeme) :
    collect s read =
      if (Scan.next s).1.kind = .eof then (((Scan.next s).1 :: read).reverse, (Scan.next s).2)
      else collect (Scan.next s).2 ((Scan.next s).1 :: read) := by
  rw [collect]
  split
  · rename_i l s' next
    rw [next]
    dsimp only
    split <;> rfl

theorem collect_reads (s : State) (read : List Lexeme) :
    ∃ ls, (collect s read).1 = read.reverse ++ ls ∧ Reads s ls := by
  induction left : s.measure using Nat.strongRecOn generalizing s read with
  | ind n ih =>
    rw [collect_eq]
    by_cases eof : (Scan.next s).1.kind = .eof
    · rw [if_pos eof]
      exact ⟨[(Scan.next s).1], by simp, .stop eof⟩
    · rw [if_neg eof]
      obtain ⟨ls, same, reads⟩ := ih _ (left ▸ next_measure eof) _ ((Scan.next s).1 :: read) rfl
      exact ⟨(Scan.next s).1 :: ls, by simp [same], .step eof reads⟩

/-- What is scanned is read from the start of the text on. -/
theorem reads_scan (name : String) (text : Bytes) : Reads (.start name text) (scan name text).lexemes := by
  obtain ⟨ls, collected, reads⟩ := collect_reads (.start name text) []
  rw [List.reverse_nil, List.nil_append] at collected
  change Reads _ (collect (.start name text) []).1
  rwa [collected]

theorem isProper_iff (l : Lexeme) :
    isProper l = true ↔ l.kind ≠ .comment ∧ l.kind ≠ .eof ∧ l.isAutomatic = false := by
  unfold isProper
  simp [and_assoc]

theorem slice_toArray (text : Bytes) (start stop : Nat) :
    (text.toArray.extract start stop).toList = Text.slice text start stop := by
  simp [Text.slice]

theorem offset_position (lines : LineTable) (file : String) (offset : Nat) :
    (lines.position file offset).offset = (min offset lines.size : Nat) := by
  unfold LineTable.position LineTable.place
  dsimp only
  split <;> rfl

/-- The position of an offset in a text of its own has that offset. -/
theorem position_offset {o : Origin} (base : o.base = none) {lines : LineTable} {offset : Nat}
    (bound : offset ≤ lines.size) : (o.position lines offset).offset = offset := by
  unfold Origin.position
  rw [base]
  dsimp only
  rw [offset_position, Nat.min_eq_left bound]

/-- What the tokens of some lexemes are told by. -/
theorem tokens_cons (o : Origin) (lines : LineTable) (text : Array UInt8) (last : Nat) (l : Lexeme)
    (rest : List Lexeme) :
    tokens o lines text last (l :: rest) =
      { kind := (classify text l).1, literal := (classify text l).2.1
        span := ⟨o.position lines l.offset,
          o.position lines (l.offset + (classify text l).2.1.length)⟩
        gap := Gap.ofText (text.extract last l.offset).toList } ::
      tokens o lines text (l.offset + (classify text l).2.1.length)
        (if (classify text l).2.2 then rest.tail else rest) := by
  rw [tokens]
  dsimp only
  cases (classify text l).2.2 <;> cases rest <;> rfl

theorem Laid.before {text : Bytes} {told p m : Nat} {ts : List Token} (blank : Blank text p m)
    (laid : Laid text told m ts) : Laid text told p ts := by
  cases laid with
  | done rest => exact .done (blank.trans rest)
  | token starts stops long bound literal raw gap rest last =>
    exact .token starts stops long bound literal raw (blank.trans gap) rest last

/-- Where a token that is laid in its text stands. -/
theorem Laid.mem {text : Bytes} {told last : Nat} {ts : List Token} (laid : Laid text told last ts)
    {t : Token} (member : t ∈ ts) : ∃ start stop : Nat, t.span.start.offset = start ∧
      t.span.stop.offset = (start + t.literal.length : Nat) ∧ start < stop ∧ stop ≤ text.length ∧
        t.literal = spelling (Text.slice text start stop) ∧
        (text[start]? = some 0x60 → t.kind = .string ∧ RawAt text start stop) := by
  induction laid with
  | done => cases member
  | token starts stops long bound literal raw _ _ _ ih =>
    rcases List.mem_cons.mp member with rfl | behind
    · exact ⟨_, _, starts, stops, long, bound, literal, raw⟩
    · exact ih behind

/-- A lexeme of one byte stands on that byte. -/
theorem standsAt_single {text : Bytes} {l : Lexeme} {q : Nat} (stands : l.StandsAt text q) {b : UInt8}
    (single : l.text = [b]) (other : b ≠ 0x60) : text[l.offset]? = some b ∧ q = l.offset + 1 := by
  obtain ⟨long, bound, told, -, -⟩ := stands
  have first : (Text.slice text l.offset q).head? = text[l.offset]? := head?_slice long
  have plain : text[l.offset]? ≠ some 0x60 := by
    intro quote
    rw [single, spelling, first, if_pos quote] at told
    rw [quote] at first
    obtain ⟨rest, same⟩ := List.head?_eq_some_iff.mp first
    rw [same, List.filter_cons_of_pos (by decide)] at told
    exact other (List.cons.inj told).1
  rw [slice_eq_of_other long plain, single] at told
  rw [← told] at first
  refine ⟨first.symm, ?_⟩
  have size := congrArg List.length told
  simp only [Text.slice, List.length_take, List.length_drop, List.length_cons, List.length_nil] at size
  omega

/-- How a lexeme becomes a token: as it is, or glued to the mark behind it. -/
inductive Becomes (text : Bytes) (l : Lexeme) : TokenKind × Bytes × Bool → Prop where
  | plain {kind : TokenKind} (same : l.kind = .string → kind = .string) :
      Becomes text l (kind, l.text, false)
  | glued {kind : TokenKind} {b mark : UInt8} (single : l.text = [b]) (other : b ≠ 0x60)
      (isMark : IsMark mark) (glued : glues text.toArray (l.offset + 1) mark = true) :
      Becomes text l (kind, [b, mark], true)

theorem classify_becomes {text : Bytes} {l : Lexeme} {q : Nat} (stands : l.StandsAt text q) :
    Becomes text l (classify text.toArray l) := by
  unfold classify
  split
  · rename_i question
    simp only [Bool.and_eq_true, decide_eq_true_eq, beq_iff_eq] at question
    obtain ⟨illegal, literal⟩ := question
    have told : l.text = [0x3F] := by simp [Lexeme.text, literal]
    split
    · rename_i colon
      exact .glued told (by decide) (.inl rfl) colon
    split
    · rename_i equals
      exact .glued told (by decide) (.inr (.inl rfl)) equals
    · rw [literal, ← told]
      exact .plain fun string => by rw [illegal] at string; cases string
  split
  · rename_i star
    simp only [Bool.and_eq_true, decide_eq_true_eq] at star
    obtain ⟨mul, point⟩ := star
    have told : l.text = [0x2A] := by
      rw [stands.operator (by rw [mul]; decide), mul]
      decide
    exact .glued told (by decide) (.inr (.inr rfl)) point
  · exact .plain fun string => by rw [string]; rfl

/-- The token of a lexeme that stands in the text, before tokens that are laid behind it. -/
theorem laid_token {o : Origin} (base : o.base = none) {lines : LineTable} {text : Bytes}
    (size : lines.size = text.length) {told last q : Nat} {l : Lexeme} {rest : List Lexeme}
    (blank : Blank text last l.offset) (stands : l.StandsAt text q)
    (plain : ∀ told, Laid text told q (tokens o lines text.toArray told rest))
    (glued : ∀ mark, IsMark mark → glues text.toArray q mark = true →
      ∀ told, Laid text told (q + 1) (tokens o lines text.toArray told rest.tail)) :
    Laid text told last (tokens o lines text.toArray told (l :: rest)) := by
  rw [tokens_cons, slice_toArray]
  have becomes := classify_becomes stands
  have bound := stands.bound
  have long := stands.long
  have start : (o.position lines l.offset).offset = l.offset := position_offset base (by omega)
  generalize classify text.toArray l = c at becomes
  cases becomes with
  | plain same =>
    have fits : l.offset + l.text.length ≤ q := by
      rw [stands.told, spelling]
      have whole : (Text.slice text l.offset q).length = q - l.offset := by
        simp only [Text.slice, List.length_take, List.length_drop]
        omega
      have part := List.length_filter_le (· != 0x0D) (Text.slice text l.offset q)
      split <;> omega
    have stop : l.offset + l.text.length ≤ lines.size := by omega
    refine .token start (position_offset base stop) long bound stands.told ?_ blank rfl (plain _)
    intro quote
    exact ⟨same (stands.raw quote).1, (stands.raw quote).2⟩
  | glued single other isMark glue =>
    obtain ⟨byte, rfl⟩ := standsAt_single stands single other
    obtain ⟨mark, -, -⟩ := bytes_of_glues isMark glue
    have inside : l.offset + 1 < text.length := (List.getElem?_eq_some_iff.mp mark).1
    have word := slice_two byte mark
    have here : text[l.offset]? ≠ some 0x60 := by
      rw [byte]
      exact fun same => other (Option.some.inj same)
    have stop : l.offset + 2 ≤ lines.size := by omega
    have long : l.offset < l.offset + 2 := by omega
    refine .token start (position_offset base stop) long inside ?_ ?_ blank rfl
      (glued _ isMark glue _)
    · rw [slice_eq_of_other (by omega) here, word]
    · exact fun quote => absurd quote here

/-- Tokens are laid as their lexemes are read, also where the first lexeme is a mark that the token
before has taken along. -/
theorem laid_of_reads {o : Origin} (base : o.base = none) {lines : LineTable} {text : Bytes}
    (size : lines.size = text.length) {s : State} {ls : List Lexeme} (reads : Reads s ls)
    (h : s.reader.At text) (masked : ∀ l ∈ ls, Masked text l.faults) :
    (∀ told, Laid text told s.reader.offset
        (tokens o lines text.toArray told (ls.filter isProper))) ∧
      (s.pending = none → ∀ mark, IsMark mark → glues text.toArray s.reader.offset mark = true →
        ∀ told, Laid text told (s.reader.offset + 1)
          (tokens o lines text.toArray told (ls.filter isProper).tail)) := by
  induction reads with
  | stop eof =>
    have skips : ¬ isProper (Scan.next _).1 = true := fun proper =>
      ((isProper_iff _).mp proper).2.1 eof
    constructor
    · intro told
      rw [List.filter_cons_of_neg skips]
      cases next_step h (masked _ List.mem_cons_self) with
      | proper kind => exact absurd eof kind.2.1
      | skipped kind blank last =>
        rw [last eof] at blank
        exact .done blank
    · intro pending mark isMark glued
      exact absurd (next_of_glues h pending isMark glued).1 skips
  | step more rest ih =>
    rename_i s ls
    obtain ⟨plain, glued⟩ := ih ((next_handedOver s).at h)
      fun l member => masked l (List.mem_cons_of_mem _ member)
    cases next_step h (masked _ List.mem_cons_self) with
    | skipped kind blank last =>
      have skips : ¬ isProper (Scan.next s).1 = true := by
        rw [isProper_iff]
        rintro ⟨comment, eof, automatic⟩
        rcases kind with kind | kind | kind
        · exact comment kind
        · exact eof kind
        · rw [kind] at automatic
          cases automatic
      rw [List.filter_cons_of_neg skips]
      constructor
      · intro told
        exact (plain told).before blank
      · intro pending mark isMark glue
        exact absurd (next_of_glues h pending isMark glue).1 skips
    | proper kind blank stands =>
      have keeps : isProper (Scan.next s).1 = true := (isProper_iff _).mpr kind
      rw [List.filter_cons_of_pos keeps]
      constructor
      · intro told
        exact laid_token base size blank stands plain
          (glued ((next_pending s).resolve_left kind.1))
      · intro pending mark isMark glue told
        rw [← (next_of_glues h pending isMark glue).2]
        exact plain told

/-- Where a text is read from: its first byte, or behind a byte order mark. -/
def IsStart (text : Bytes) (p : Nat) : Prop := p = 0 ∨ ([0xEF, 0xBB, 0xBF] <+: text ∧ p = 3)

theorem IsStart.blank {text : Bytes} {p : Nat} (h : IsStart text p) : Blank text 0 p := by
  rcases h with rfl | ⟨mark, rfl⟩
  · exact .refl 0
  · exact .mark mark (.refl 3)

/-- A text in a wider encoding has its fault noted at its start. -/
theorem ofText_cases (text : Bytes) :
    ((ofText text).At text ∧ IsStart text (ofText text).offset) ∨
      (⟨0, .wideEncoding⟩ ∈ (ofText text).faults ∧ ∃ b, text[0]? = some b ∧ b ≠ 0x3F) := by
  unfold ofText
  dsimp only
  split
  · exact .inr ⟨List.mem_cons_self, 0xFF, rfl, by decide⟩
  · exact .inr ⟨List.mem_cons_self, 0xFE, rfl, by decide⟩
  · left
    have whole : Reader.At text ⟨0, text, text.length, 0, []⟩ := ⟨rfl, rfl, Nat.zero_le _⟩
    split
    · rename_i mark
      have bytes := slice_next whole (char_of_sees mark) (by decide)
      have behind := whole.next.bound
      have encoded : String.utf8EncodeChar '\uFEFF' = [0xEF, 0xBB, 0xBF] := by decide
      rw [encoded, Text.slice, List.drop_zero, Nat.sub_zero] at bytes
      have offset := congrArg List.length bytes
      rw [List.length_take, Nat.min_eq_left behind] at offset
      exact ⟨whole.next, .inr ⟨bytes ▸ List.take_prefix _ _, offset⟩⟩
    · refine ⟨⟨by simp, by simp, by simp⟩, ?_⟩
      rw [inspect_offset]
      exact .inl rfl

/-- The first lexeme is handed over with the faults of the reader. -/
theorem Reads.head {s : State} {ls : List Lexeme} (reads : Reads s ls) {f : Located}
    (noted : f ∈ s.reader.faults) : ∃ l ∈ ls, f ∈ l.faults := by
  obtain ⟨r, way, -, faults⟩ := next_handedOver s
  have handed : f ∈ (Scan.next s).1.faults := by
    rw [faults, List.mem_reverse]
    exact way.faults noted
  cases reads with
  | stop => exact ⟨_, List.mem_cons_self, handed⟩
  | step => exact ⟨_, List.mem_cons_self, handed⟩

/-- Faults are of no account exactly if none of them is told. -/
theorem diagnostics_eq_nil (o : Origin) (lines : LineTable) (text : Bytes) (ls : List Lexeme) :
    (ls.flatMap (·.faults)).filterMap (diagnostic? o lines text.toArray) = [] ↔
      ∀ l ∈ ls, Masked text l.faults := by
  rw [List.filterMap_eq_nil_iff]
  constructor
  · intro quiet l member f noted
    have absent := quiet f (List.mem_flatMap.mpr ⟨l, member, noted⟩)
    unfold diagnostic? at absent
    split at absent
    · rename_i mark
      simpa using mark
    · cases absent
  · intro masked f noted
    obtain ⟨l, member, fault⟩ := List.mem_flatMap.mp noted
    unfold diagnostic?
    rw [if_pos (by simpa using masked l member f fault)]

/-- In a text that is read as tokens, no fault of account is noted, and they are those of its lexemes. -/
theorem masked_of_lexAt {o : Origin} {text : Bytes} {ts : List Token} (read : lexAt o text = .ok ts) :
    (∀ l ∈ (scan o.file text).lexemes, Masked text l.faults) ∧
      ts = tokens { o with base := o.base.filter Position.isValid } (scan o.file text).lines text.toArray 0
        ((scan o.file text).lexemes.filter isProper) := by
  unfold lexAt at read
  dsimp only at read
  split at read
  · cases read
  · rename_i absent
    cases read
    exact ⟨(diagnostics_eq_nil _ _ text _).mp (Failure.ofDiagnostics_eq_none_iff.mp absent), rfl⟩

/-- A text that is read as tokens is read from its start. -/
theorem start_of_lexAt {o : Origin} {text : Bytes} {ts : List Token} (read : lexAt o text = .ok ts) :
    (ofText text).At text ∧ IsStart text (ofText text).offset := by
  rcases ofText_cases text with start | ⟨fault, b, byte, other⟩
  · exact start
  · obtain ⟨l, member, handed⟩ := (reads_scan o.file text).head fault
    have mark := (masked_of_lexAt read).1 l member _ handed
    rw [byte] at mark
    exact absurd (Option.some.inj mark) other

/-- Tokens that are read without faults are laid in their text. -/
theorem lex_laid {file : String} {text : Bytes} {ts : List Token} (read : lex file text = .ok ts) :
    Laid text 0 0 ts := by
  obtain ⟨masked, rfl⟩ := masked_of_lexAt read
  obtain ⟨stands, start⟩ := start_of_lexAt read
  exact ((laid_of_reads rfl rfl (reads_scan file text) stands masked).1 0).before start.blank

end Desugar.Lexer

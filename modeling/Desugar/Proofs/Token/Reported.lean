import Mathlib
import Desugar.Proofs.Host.LineTable
import Desugar.Proofs.Host.Noted
import Desugar.Proofs.Token.Layout

/-!
# What is told of a text: faults and positions
-/

/-!
## Faults that are reported

A text is read as tokens unless a fault of it is reported. Not reported are the faults that stand at a
question mark: the one of each question mark that is a lexeme of its own, and those about the inside of
a number, an escape or a line directive that has a question mark where something else should be. All
other faults are reported, each with its message and its place.
-/
namespace Desugar

namespace Lexer

open Host Host.Scan Host.Reader

variable {text : Bytes} {o : Origin}

/-- A fault that is not reported although it is about no token: it is about the inside of something, and
stands at a question mark. -/
structure IsLost (text : Bytes) (f : Located) : Prop where
  mark : text[f.offset]? = some 0x3F
  inner : f.fault.isInner = true

/-- A fault as it is reported. -/
def report (o : Origin) (text : Bytes) (f : Located) : Diagnostic :=
  { category := .lexical
    span :=
      .point ({ o with base := o.base.filter Position.isValid }.position (scan o.file text).lines f.offset)
    message := f.fault.message }

/-- What the lexemes from a state on are at fault for. -/
theorem Reads.answers {s : State} {ls : List Lexeme} (reads : Reads s ls) (h : s.reader.At text)
    (first : ∀ f ∈ s.reader.faults, Placed text f) :
    ∀ l ∈ ls, ∀ f ∈ l.faults, Placed text f ∨ l.IsQuestion f := by
  induction reads with
  | stop eof =>
    intro l member f noted
    rw [List.mem_singleton.mp member] at noted ⊢
    exact (next_answers h f noted).elim (fun before => .inl (first f before)) id
  | @step s ls more rest ih =>
    obtain ⟨r, -, after, -⟩ := next_handedOver s
    refine List.forall_mem_cons.mpr ⟨fun f noted => ?_, ih ((next_handedOver s).at h) (by simp [after])⟩
    exact (next_answers h f noted).elim (fun before => .inl (first f before)) id

theorem Reads.question {s : State} {ls : List Lexeme} (reads : Reads s ls) (h : s.reader.At text) :
    ∀ l ∈ ls, ∀ f, l.IsQuestion f → text[f.offset]? = some 0x3F := by
  induction reads with
  | stop eof =>
    intro l member f question
    rw [List.mem_singleton.mp member] at question
    rw [question.fault]
    exact next_question h question.kind question.literal
  | @step s ls more rest ih =>
    refine List.forall_mem_cons.mpr ⟨fun f question => ?_, ih ((next_handedOver s).at h)⟩
    rw [question.fault]
    exact next_question h question.kind question.literal

theorem lexAt_eq (o : Origin) (text : Bytes) : lexAt o text =
    if (Lexer.read o text).faults = [] then .ok (Lexer.read o text).tokens
    else .error (.diagnostics (Diagnostic.sort (Lexer.read o text).faults)) := by
  unfold lexAt Failure.ofDiagnostics
  cases told : (Lexer.read o text).faults <;> simp [told]

theorem mem_faults (o : Origin) (text : Bytes) (d : Diagnostic) : d ∈ (Lexer.read o text).faults ↔
    ∃ l ∈ (scan o.file text).lexemes, ∃ f ∈ l.faults,
      text[f.offset]? ≠ some 0x3F ∧ report o text f = d := by
  unfold Lexer.read report
  simp only [List.mem_filterMap, List.mem_flatMap, diagnostic?, List.getElem?_toArray]
  constructor
  · rintro ⟨f, ⟨l, member, noted⟩, told⟩
    split at told
    · cases told
    · exact ⟨l, member, f, noted, ‹_›, Option.some.inj told⟩
  · rintro ⟨l, member, f, noted, other, told⟩
    exact ⟨f, ⟨l, member, noted⟩, by rw [if_neg other, told]⟩

/-- A fault stands at something else than a question mark exactly if it is neither lost nor the one of a
question mark that is a lexeme. -/
theorem faults_iff (file : String) (text : Bytes) :
    (∃ l ∈ (scan file text).lexemes, ∃ f ∈ l.faults, text[f.offset]? ≠ some 0x3F) ↔
      ∃ l ∈ (scan file text).lexemes, ∃ f ∈ l.faults, ¬ l.IsQuestion f ∧ ¬ IsLost text f := by
  have reads := reads_scan file text
  rcases ofText_cases text with ⟨stands, -⟩ | ⟨wide, b, byte, other⟩
  · constructor
    · rintro ⟨l, member, f, noted, apart⟩
      exact ⟨l, member, f, noted, fun question => apart (reads.question stands l member f question),
        fun lost => apart lost.mark⟩
    · rintro ⟨l, member, f, noted, own, kept⟩
      refine ⟨l, member, f, noted, fun mark => ?_⟩
      rcases reads.answers stands (placed_ofText text) l member f noted with placed | question
      · exact kept ⟨mark, placed.inner mark⟩
      · exact own question
  · -- A text of a wider encoding has a fault of both sorts at its start.
    obtain ⟨l, member, noted⟩ := reads.head wide
    have apart : text[0]? ≠ some 0x3F := by
      rw [byte]
      exact fun mark => other (Option.some.inj mark)
    have own : ¬ l.IsQuestion ⟨0, .wideEncoding⟩ := fun question =>
      nomatch congrArg Located.fault question.fault
    exact iff_of_true ⟨l, member, _, noted, apart⟩ ⟨l, member, _, noted, own, fun lost => apart lost.mark⟩

/-- A text is not read as tokens exactly if it has a fault that is neither the one of a question mark
that is a lexeme nor lost; what is reported then are all faults that stand at something else than a
question mark. -/
theorem lexAt_error_iff (o : Origin) (text : Bytes) :
    ((∃ e, lexAt o text = .error e) ↔
      ∃ l ∈ (scan o.file text).lexemes, ∃ f ∈ l.faults, ¬ l.IsQuestion f ∧ ¬ IsLost text f) ∧
    ∀ d, (∃ ds, lexAt o text = .error (.diagnostics ds) ∧ d ∈ ds) ↔
      ∃ l ∈ (scan o.file text).lexemes, ∃ f ∈ l.faults, text[f.offset]? ≠ some 0x3F ∧ report o text f = d := by
  simp only [← faults_iff, ← mem_faults, lexAt_eq]
  by_cases clear : (Lexer.read o text).faults = []
  · rw [if_pos clear]
    refine ⟨iff_of_false nofun ?_, fun d => iff_of_false nofun (by simp [clear])⟩
    rintro ⟨l, member, f, noted, apart⟩
    have reported := (mem_faults o text _).mpr ⟨l, member, f, noted, apart, rfl⟩
    rw [clear] at reported
    cases reported
  · rw [if_neg clear]
    obtain ⟨d, reported⟩ := List.exists_mem_of_ne_nil _ clear
    obtain ⟨l, member, f, noted, apart, -⟩ := (mem_faults o text d).mp reported
    refine ⟨iff_of_true ⟨_, rfl⟩ ⟨l, member, f, noted, apart⟩, fun d => ?_⟩
    simp [Diagnostic.sort]

/-- The escape of `"\?"` is unknown, but its fault stands at the question mark: the string is read. -/
theorem lex_lost :
    (∃ l ∈ (scan "s.sgo" [0x22, 0x5C, 0x3F, 0x22]).lexemes, ∃ f ∈ l.faults,
      ¬ l.IsQuestion f ∧ f = ⟨2, .unknownEscape⟩) ∧
      lex "s.sgo" [0x22, 0x5C, 0x3F, 0x22] =
        .ok [⟨.string, [0x22, 0x5C, 0x3F, 0x22], ⟨⟨"s.sgo", 1, 1, 0⟩, ⟨"s.sgo", 1, 5, 4⟩⟩, .none⟩] := by
  have scanned : (scan "s.sgo" [0x22, 0x5C, 0x3F, 0x22]).lexemes =
      [⟨.string, 0, [0x22, 0x5C, 0x3F, 0x22], [⟨2, .unknownEscape⟩]⟩, ⟨.semicolon, 4, [0x0A], []⟩,
        ⟨.eof, 4, [], []⟩] := by decide +kernel
  refine ⟨?_, eq_ok_of_toOption (by decide +kernel)⟩
  rw [scanned]
  refine ⟨_, List.mem_cons_self, _, List.mem_cons_self, fun question => ?_, rfl⟩
  cases congrArg Located.fault question.fault

end Lexer
end Desugar

/-!
## Positions of tokens and diagnostics

A token starts in the text, and no fault stands behind a newline that ends the text. So the positions
that are told, of the tokens of a text or of what it is at fault for, are those of the source file,
unless a line directive of the text says otherwise.
-/
namespace Desugar.Lexer

open Host Host.Scan Host.Reader

variable {text : Bytes} {file : String}

/-! ### Texts in a wider encoding -/

/-- At the end of a text nothing is left but the end mark. -/
theorem next_eof {s : State} (done : s.reader.rest = []) (pending : s.pending = none) (ends : s.ends = false) :
    (Scan.next s).1 = ⟨.eof, s.reader.offset, [], s.reader.faults.reverse⟩ := by
  have absent : s.reader.char? = none := by rw [char?, done]; rfl
  have blank : s.reader.skipWhile (isBlank s.ends) = s.reader := by
    rw [skipWhile]
    split
    · rename_i c char
      rw [absent] at char
      cases char
    · rfl
  unfold Scan.next
  rw [pending]
  dsimp only
  rw [blank, absent, ends]
  rfl

/-- A text in a wider encoding is one character that cannot be read. -/
theorem wide_next {s : State} {b : UInt8} (high : b = 0xFF ∨ b = 0xFE) {n : Nat}
    (h : s.reader = ⟨0, [b], n, 0, [⟨0, .wideEncoding⟩]⟩) (pending : s.pending = none) (ends : s.ends = false) :
    Scan.next s =
      (⟨.illegal, 0, String.utf8EncodeChar Text.replacement,
          [⟨0, .wideEncoding⟩, ⟨0, .illegalCharacter Text.replacement⟩]⟩,
        { s with reader := ⟨n, [], n, 0, []⟩ }) := by
  have char : s.reader.char? = some Text.replacement := by
    rw [h]
    rcases high with rfl | rfl <;> rfl
  have alone : operator? s.reader.rest = none := by
    rw [h]
    rcases high with rfl | rfl
    · exact (by decide +kernel : operator? [0xFF] = none)
    · exact (by decide +kernel : operator? [0xFE] = none)
  have after : s.reader.next = ⟨n, [], n, 0, [⟨0, .wideEncoding⟩]⟩ := by
    rw [h]
    rcases high with rfl | rfl <;> rfl
  rw [next_eq_symbol pending char (by rw [ends]; decide) (by decide +kernel) (by simp [isDecimal, Text.replacement])
    (by decide)]
  unfold symbol
  rw [alone, char, after]
  have offset : s.reader.offset = 0 := by rw [h]
  simp [emit, fault, offset, Text.replacement]

/-- All that a text in a wider encoding is at fault for stands at its start. -/
theorem Reads.wide {s : State} {ls : List Lexeme} (reads : Reads s ls) {b : UInt8}
    (high : b = 0xFF ∨ b = 0xFE) {n : Nat} (h : s.reader = ⟨0, [b], n, 0, [⟨0, .wideEncoding⟩]⟩)
    (pending : s.pending = none) (ends : s.ends = false) : ∀ l ∈ ls, ∀ f ∈ l.faults, f.offset = 0 := by
  have first := wide_next high h pending ends
  have here : ∀ f ∈ (Scan.next s).1.faults, f.offset = 0 := by simp [first]
  cases reads with
  | stop => exact List.forall_mem_singleton.mpr here
  | step more rest =>
    rw [first] at rest
    have last := next_eof (s := { s with reader := ⟨n, [], n, 0, []⟩ }) rfl pending ends
    refine List.forall_mem_cons.mpr ⟨here, ?_⟩
    cases rest with
    | stop =>
      rw [last]
      exact List.forall_mem_singleton.mpr (by simp)
    | step more => exact absurd (by rw [last]) more

theorem ofText_wide (text : Bytes) : (ofText text).At text ∨
    ∃ b, (b = 0xFF ∨ b = 0xFE) ∧ ofText text = ⟨0, [b], text.length, 0, [⟨0, .wideEncoding⟩]⟩ ∧
      0 < text.length := by
  unfold ofText
  dsimp only
  split
  · exact .inr ⟨0xFF, .inl rfl, by simp⟩
  · exact .inr ⟨0xFE, .inr rfl, by simp⟩
  · left
    have whole : Reader.At text ⟨0, text, text.length, 0, []⟩ := ⟨rfl, rfl, Nat.zero_le _⟩
    split
    · exact whole.next
    · exact ⟨by simp, by simp, by simp⟩

/-- What a token takes from the lexeme that it starts with. -/
theorem lexeme_of_mem_tokens {o : Origin} {lines : LineTable} {bytes : Array UInt8} {last : Nat}
    {ls : List Lexeme} {t : Token} (member : t ∈ tokens o lines bytes last ls) :
    ∃ l ∈ ls, t.kind = (classify bytes l).1 ∧ t.span.start = o.position lines l.offset := by
  induction size : ls.length using Nat.strongRecOn generalizing last ls with
  | ind n ih =>
    subst size
    cases ls with
    | nil => cases member
    | cons l rest =>
      rw [tokens_cons] at member
      rcases List.mem_cons.mp member with rfl | later
      · exact ⟨l, List.mem_cons_self, rfl, rfl⟩
      have part : (if (classify bytes l).2.2 then rest.tail else rest) <:+ rest := by
        split
        · exact List.tail_suffix rest
        · exact List.suffix_rfl
      obtain ⟨l', member', told⟩ := ih _ (Nat.lt_succ_of_le part.length_le) later rfl
      exact ⟨l', List.mem_cons_of_mem l (part.subset member'), told⟩

end Desugar.Lexer

import Desugar.Proofs.Token.Reported
import Desugar.Proofs.Token.RoundTrip

/-!
# Reading tokens one by one

A lexer gives one token for each call. It asks the scanner for the next lexeme, passes over automatic
semicolons, and where the bytes behind a question mark or a star say so it takes the lexeme behind it
along, whatever that turns out to be. Called again and again it gives the tokens of the text and then the
end mark for ever. What it takes along is always the mark that the bytes promise, so no lexeme is lost:
with each glued token taken apart into its two characters, the tokens are the lexemes of the text.
-/
namespace Desugar.Lexer

open Host Host.Scan Host.Reader

/-! ## The lexer as a machine -/

/-- Reads on up to a lexeme that is wanted, or to the end. -/
def scanTo (wanted : Lexeme → Bool) (s : State) : Lexeme × State :=
  match _h : Scan.next s with
  | (l, s') => if _e : l.kind = .eof ∨ wanted l = true then (l, s') else scanTo wanted s'
termination_by s.measure
decreasing_by
  have := next_measure (s := s)
  rw [_h] at this
  exact this fun eof => _e (.inl eof)

/-- The scanner as the lexer uses it, which does not hand over comments. -/
def scanBare : State → Lexeme × State := scanTo fun l => l.kind ≠ .comment

/-- A mark that is glued to what stands before it. -/
structure Mark where
  byte : UInt8
  kind : Host.Kind
  /-- What the two of them are. -/
  glued : TokenKind
  deriving DecidableEq, Repr

/-- A question mark that is a lexeme of its own. -/
def isQuestion (l : Lexeme) : Bool := l.kind = .illegal && l.literal == [0x3F]

def colonMark : Mark := ⟨0x3A, .colon, .elvis⟩

def assignMark : Mark := ⟨0x3D, .assign, .elvisAssign⟩

def periodMark : Mark := ⟨0x2E, .period, .spreadDot⟩

/-- The marks that are looked for behind a lexeme, one after the other. -/
def marksBehind (l : Lexeme) : List Mark :=
  if isQuestion l then [colonMark, assignMark] else if l.kind = .mul then [periodMark] else []

/-- The kind of a lexeme that stays alone. -/
def aloneKind (l : Lexeme) : TokenKind := if isQuestion l then .question else .ofHost l.kind

/-- The scanner with what it has given up. -/
structure Scanning where
  scanner : State
  /-- Lexemes that have been taken for a mark and are none, the last one first. -/
  lost : List Lexeme := []

/-- Looks for marks at an offset. If the bytes say that one stands there, the next lexeme is taken; if
it is not the mark, it is lost. -/
def takeMark (text : Array UInt8) (offset : Nat) (sc : Scanning) : List Mark → Option Mark × Scanning
  | [] => (none, sc)
  | m :: ms =>
    if glues text offset m.byte then
      let (l, s) := scanBare sc.scanner
      if l.kind = m.kind then (some m, { sc with scanner := s })
      else takeMark text offset ⟨s, l :: sc.lost⟩ ms
    else takeMark text offset sc ms

/-- A lexer between two calls. -/
structure Stage extends Scanning where
  /-- The offset just past the token before. -/
  last : Nat := 0
  /-- The end has been seen. -/
  done : Bool := false

/-- The next token. -/
def nextToken (o : Origin) (lines : LineTable) (text : Array UInt8) (st : Stage) : Token × Stage :=
  let ended := Token.endMark (.point (o.position lines text.size))
  if st.done then (ended, st)
  else
    let (l, s) := scanTo isProper st.scanner
    if l.kind = .eof then (ended, { st with scanner := s, done := true })
    else
      let (mark, sc) := takeMark text (l.offset + 1) ⟨s, st.lost⟩ (marksBehind l)
      let literal := mark.elim l.text fun m => Text.utf8 m.glued.name
      let stop := l.offset + literal.length
      ({ kind := mark.elim (aloneKind l) Mark.glued, literal
         span := ⟨o.position lines l.offset, o.position lines stop⟩
         gap := Gap.ofText (text.extract st.last l.offset).toList },
        { toScanning := sc, last := stop })

/-- Where a fragment stands; a place that is none counts for nothing. -/
def Origin.proper (o : Origin) : Origin := { o with base := o.base.filter Position.isValid }

/-- A lexer of a text after a number of calls. -/
def stage (o : Origin) (text : Bytes) : Nat → Stage
  | 0 => { scanner := .start o.file text }
  | n + 1 => (nextToken o.proper (Host.scan o.file text).lines text.toArray (stage o text n)).2

/-- What a lexer gives for a call, the calls being counted from zero. -/
def call (o : Origin) (text : Bytes) (n : Nat) : Token :=
  (nextToken o.proper (Host.scan o.file text).lines text.toArray (stage o text n)).1

/-! ## Tokens taken apart -/

/-- A lexeme in a text, with the number of its first byte. -/
structure Piece where
  kind : TokenKind
  literal : Bytes
  offset : Int
  deriving DecidableEq, Repr

def piece (l : Lexeme) : Piece := ⟨aloneKind l, l.text, l.offset⟩

/-- A token with what has been glued taken apart. -/
def pieces (t : Token) : List Piece :=
  let start := t.span.start.offset
  match t.kind with
  | .elvis => [⟨.question, Text.utf8 "?", start⟩, ⟨.colon, Text.utf8 ":", start + 1⟩]
  | .elvisAssign => [⟨.question, Text.utf8 "?", start⟩, ⟨.assign, Text.utf8 "=", start + 1⟩]
  | .spreadDot => [⟨.operator, Text.utf8 "*", start⟩, ⟨.period, Text.utf8 ".", start + 1⟩]
  | kind => [⟨kind, t.literal, start⟩]

/-- A lexeme is a mark that stands at an offset. -/
structure Mark.Stands (m : Mark) (offset : Nat) (l : Lexeme) : Prop where
  kind : l.kind = m.kind
  literal : l.literal = []
  place : l.offset = offset

/-- Tokens with the lexemes that they are made of: each is one lexeme, or one and the mark that touches
it. -/
inductive MadeOf (place : Nat → Position) : List Token → List Lexeme → Prop where
  | nil : MadeOf place [] []
  | alone {t : Token} {l : Lexeme} {ts : List Token} {ls : List Lexeme} (kind : t.kind = aloneKind l)
      (literal : t.literal = l.text) (start : t.span.start = place l.offset)
      (stop : t.span.stop = place (l.offset + l.text.length)) (rest : MadeOf place ts ls) :
      MadeOf place (t :: ts) (l :: ls)
  | glued {t : Token} {l l' : Lexeme} {m : Mark} {ts : List Token} {ls : List Lexeme}
      (behind : m ∈ marksBehind l) (mark : m.Stands (l.offset + 1) l') (kind : t.kind = m.glued)
      (literal : t.literal = l.text ++ l'.text) (start : t.span.start = place l.offset)
      (stop : t.span.stop = place (l'.offset + l'.text.length)) (rest : MadeOf place ts ls) :
      MadeOf place (t :: ts) (l :: l' :: ls)

variable {text : Bytes} {s : State} {ls : List Lexeme} {r : Reader} {l : Lexeme} {m : Mark}

/-! ## Marks in the text -/

theorem mem_marks (behind : m ∈ marksBehind l) : m ∈ [colonMark, assignMark, periodMark] := by
  unfold marksBehind at behind
  split at behind
  · rcases List.mem_pair.mp behind with rfl | rfl <;> decide
  split at behind
  · obtain rfl := List.mem_singleton.mp behind
    decide
  · cases behind

theorem isMark_of_mem (known : m ∈ [colonMark, assignMark, periodMark]) : IsMark m.byte := by
  have table : ∀ m ∈ [colonMark, assignMark, periodMark],
      m.byte = 0x3A ∨ m.byte = 0x3D ∨ m.byte = 0x2E := by decide
  exact table m known

/-- The spelling of a mark is that of no other operator. -/
theorem mark_kind : ∀ m ∈ [colonMark, assignMark, periodMark], ∀ p ∈ Kind.operators,
    Text.utf8 p.1.text = [m.byte] → p.1 = m.kind := by decide +kernel

theorem mark_facts : ∀ m ∈ [colonMark, assignMark, periodMark], Text.utf8 m.kind.text = [m.byte] ∧
    m.kind ≠ .semicolon ∧ m.kind ≠ .comment ∧ m.kind ≠ .eof := by decide +kernel

/-- Where the bytes say that a mark is glued, the scanner reads this mark next. -/
theorem stands_of_glues (h : s.reader.At text) (pending : s.pending = none)
    (known : m ∈ [colonMark, assignMark, periodMark])
    (glued : glues text.toArray s.reader.offset m.byte = true) :
    m.Stands s.reader.offset (Scan.next s).1 ∧ isProper (Scan.next s).1 = true := by
  obtain ⟨kind, found, spelt, read, -⟩ := next_eq_mark h pending (isMark_of_mem known) glued
  refine ⟨?_, (next_of_glues h pending (isMark_of_mem known) glued).1⟩
  obtain ⟨p, listed, same⟩ := List.any_eq_true.mp (operator?_eq_some found).operator.1
  obtain rfl : p.1 = kind := by simpa using same
  have kind := mark_kind m known p listed spelt
  have other := (mark_facts m known).2.1
  rw [read]
  unfold symbol
  rw [found]
  exact ⟨kind, if_neg fun same => other (kind ▸ same), rfl⟩

theorem lexeme_offset (s : State) (r : Reader) (c : Char) : (lexeme s r c).1.offset = r.offset := by
  unfold lexeme
  split
  · rfl
  split
  · rfl
  split
  · rfl
  split
  · rfl
  split
  · rfl
  split
  · rfl
  split
  · unfold comment
    dsimp only
    split <;> rfl
  · unfold symbol
    split <;> rfl

/-- A question mark is read on its one byte. -/
theorem lexeme_isQuestion (s : State) (h : r.At text) {c : Char} (char : r.char? = some c)
    (question : isQuestion (lexeme s r c).1 = true) :
    (lexeme s r c).2.reader.offset = r.offset + 1 := by
  have told := question
  simp only [isQuestion, Bool.and_eq_true, decide_eq_true_eq, beq_iff_eq] at told
  have byte := lexeme_question s h char told.1 told.2
  rw [lexeme_offset] at byte
  obtain rfl : c = '?' := Option.some.inj (char.symm.trans (h.char_of_byte byte (by decide)))
  have one := (h.next_of_ascii char (by decide)).2
  rw [lexeme_eq_symbol s (by decide) (by simp [isDecimal]) (by decide)] at told ⊢
  unfold symbol at told ⊢
  cases found : operator? r.rest with
  | none =>
    simp only [char]
    exact one
  | some pair =>
    obtain ⟨n, kind⟩ := pair
    simp only [found] at told
    have operator := (operator?_eq_some found).operator.1
    rw [show kind = .illegal from told.1] at operator
    cases operator

/-- So is a star. -/
theorem lexeme_mul (s : State) (h : r.At text) {c : Char} (char : r.char? = some c)
    (star : (lexeme s r c).1.kind = .mul) :
    (lexeme s r c).1.literal = [] ∧ (lexeme s r c).2.reader.offset = r.offset + 1 := by
  revert star
  unfold lexeme
  split
  · exact fun star => absurd star (ofWord_proper _).2.1
  split
  · intro star
    have numeric : IsNumeric Kind.mul := star ▸ (number_told r).1
    rcases numeric with kind | kind | kind | kind <;> cases kind
  split
  · exact fun star => by cases star
  split
  · exact fun star => by cases star
  split
  · exact fun star => by cases star
  split
  · exact fun star => by cases star
  split
  · intro star
    exact absurd ((comment_fields s r).1.symm.trans star) (by decide)
  unfold symbol
  split
  · rename_i n kind found
    intro star
    obtain rfl : kind = .mul := star
    have front := operator?_eq_some found
    have size := congrArg List.length front.spelt
    rw [List.length_take, Nat.min_eq_left front.length] at size
    obtain rfl : n = 1 := size
    have small := front.small
    obtain ⟨b, rest, cons, -, byte⟩ := h.front_of_char char
    rw [cons] at small
    have spelt := front.spelt
    rw [cons] at spelt
    obtain rfl : b = 0x2A := (List.cons.inj spelt).1
    obtain rfl : c = '*' := Option.some.inj (char.symm.trans (h.char_of_byte byte (by decide)))
    exact ⟨rfl, (h.next_of_ascii char (by decide)).2⟩
  · exact fun star => by cases star

/-! ## The scanner on its way -/

/-- The scanner stands in the text, or at the start of one in a wider encoding, which is read as one
character. -/
inductive Fit (text : Bytes) (s : State) : Prop where
  | stands (h : s.reader.At text)
  | wide {b : UInt8} (high : b = 0xFF ∨ b = 0xFE)
      (whole : s.reader = ⟨0, [b], text.length, 0, [⟨0, .wideEncoding⟩]⟩) (pending : s.pending = none)
      (ends : s.ends = false)

theorem fit_start (file : String) (text : Bytes) : Fit text (.start file text) := by
  rcases ofText_wide text with stands | ⟨b, high, start, -⟩
  · exact .stands stands
  · exact .wide high start rfl rfl

/-- A lexeme starts in the text, and one that a mark is looked for behind ends right behind its first
byte. -/
structure Reaching (text : Bytes) (out : Lexeme × State) : Prop where
  stands : out.2.reader.At text
  inside : isProper out.1 = true → out.1.offset ≤ text.length
  marked : marksBehind out.1 ≠ [] → out.2.reader.offset = out.1.offset + 1
  star : out.1.kind = .mul → out.1.literal = []

/-- Only lexemes that become tokens have marks behind them. -/
theorem isProper_of_marks (marked : marksBehind l ≠ []) : isProper l = true := by
  unfold marksBehind isQuestion at marked
  unfold isProper Lexeme.isAutomatic
  split at marked
  · rename_i question
    simp_all
  split at marked
  · rename_i star
    simp_all
  · exact absurd rfl marked

theorem Fit.next (fit : Fit text s) : Reaching text (Scan.next s) := by
  cases fit with
  | wide high whole pending ends =>
    rw [wide_next high whole pending ends]
    have other : isQuestion ⟨.illegal, 0, String.utf8EncodeChar Text.replacement, []⟩ = false := by decide
    exact ⟨⟨by simp, rfl, Nat.le_refl _⟩, fun _ => Nat.zero_le _, fun marked => absurd rfl marked, nofun⟩
  | stands h =>
    have behind := h.reaches (reaches_skipWhile (isBlank s.ends) s.reader)
    have star (kind : (Scan.next s).1.kind = .mul) : marksBehind (Scan.next s).1 ≠ [] := by
      simp [marksBehind, isQuestion, kind]
    refine ⟨(next_handedOver s).at h, fun proper => ?_, fun marked => ?_, fun kind => ?_⟩
    · obtain ⟨c, -, -, read⟩ := next_of_proper proper
      rw [read, lexeme_offset]
      exact behind.bound
    · obtain ⟨c, -, char, read⟩ := next_of_proper (isProper_of_marks marked)
      rw [read] at marked ⊢
      rw [lexeme_offset]
      unfold marksBehind at marked
      split at marked
      · rename_i question
        exact lexeme_isQuestion s behind char question
      split at marked
      · rename_i kind
        exact (lexeme_mul s behind char kind).2
      · exact absurd rfl marked
    · obtain ⟨c, -, char, read⟩ := next_of_proper (isProper_of_marks (star kind))
      rw [read] at kind ⊢
      exact (lexeme_mul s behind char kind).1

/-- The mark that the bytes behind a lexeme promise. -/
def mark? (text : Array UInt8) (l : Lexeme) : Option Mark :=
  (marksBehind l).find? fun m => glues text (l.offset + 1) m.byte

theorem classify_mark (text : Array UInt8) (l : Lexeme) :
    classify text l = match mark? text l with
      | none => (aloneKind l, l.text, false)
      | some m => (m.glued, Text.utf8 m.glued.name, true) := by
  unfold classify mark? marksBehind aloneKind
  change (if isQuestion l = true then _ else _) = _
  by_cases question : isQuestion l = true
  · have told : l.text = l.literal := by
      simp only [isQuestion, Bool.and_eq_true, decide_eq_true_eq, beq_iff_eq] at question
      simp [Lexeme.text, question.2]
    rw [if_pos question, if_pos question, if_pos question, told]
    cases colon : glues text (l.offset + 1) 0x3A with
    | true => simp [colonMark, assignMark, colon]; decide
    | false =>
      cases equals : glues text (l.offset + 1) 0x3D with
      | true => simp [colonMark, assignMark, colon, equals]; decide
      | false => simp [colonMark, assignMark, colon, equals]
  · rw [if_neg question, if_neg question, if_neg question]
    by_cases star : l.kind = .mul
    · rw [if_pos star]
      cases point : glues text (l.offset + 1) 0x2E with
      | true => simp [periodMark, star, point]; decide
      | false => simp [periodMark, star, point]
    · simp [star]

/-! ## The marks stand where they are promised -/

/-- Lexemes of a text in which every mark that the bytes promise stands. -/
inductive Marked (text : Bytes) : List Lexeme → Prop where
  | nil : Marked text []
  | alone {l : Lexeme} {ls : List Lexeme} (inside : l.offset ≤ text.length)
      (absent : mark? text.toArray l = none) (rest : Marked text ls) : Marked text (l :: ls)
  | glued {l l' : Lexeme} {m : Mark} {ls : List Lexeme} (inside : l.offset + 1 < text.length)
      (found : mark? text.toArray l = some m) (star : l.kind = .mul → l.literal = [])
      (mark : m.Stands (l.offset + 1) l') (rest : Marked text ls) : Marked text (l :: l' :: ls)

theorem mark?_eq_some (found : mark? text.toArray l = some m) :
    m ∈ marksBehind l ∧ m ∈ [colonMark, assignMark, periodMark] ∧
      glues text.toArray (l.offset + 1) m.byte = true := by
  have behind := List.mem_of_find?_eq_some found
  have glued := List.find?_some (p := fun m : Mark => glues text.toArray (l.offset + 1) m.byte) found
  exact ⟨behind, mem_marks behind, glued⟩

/-- What a mark is glued to is one character, and the two of them are spelt as the glued token is named. -/
theorem glued_spelling (behind : m ∈ marksBehind l) (star : l.kind = .mul → l.literal = []) :
    ∃ b, l.text = [b] ∧ Text.utf8 m.glued.name = [b, m.byte] := by
  unfold marksBehind at behind
  split at behind
  · rename_i question
    simp only [isQuestion, Bool.and_eq_true, decide_eq_true_eq, beq_iff_eq] at question
    refine ⟨0x3F, by simp [Lexeme.text, question.2], ?_⟩
    rcases List.mem_pair.mp behind with rfl | rfl <;> decide
  split at behind
  · rename_i kind
    obtain rfl := List.mem_singleton.mp behind
    refine ⟨0x2A, ?_, by decide⟩
    unfold Lexeme.text
    rw [star kind, kind]
    decide
  · cases behind

/-- What a mark is looked for behind leaves the scanner right behind it, with no semicolon waiting. -/
theorem Fit.behind_marked (fit : Fit text s) (marked : marksBehind (Scan.next s).1 ≠ []) :
    (Scan.next s).2.reader.offset = (Scan.next s).1.offset + 1 ∧ (Scan.next s).2.pending = none := by
  refine ⟨fit.next.marked marked, (next_pending s).resolve_left ?_⟩
  exact ((isProper_iff _).mp (isProper_of_marks marked)).1

/-- In what is scanned, the marks stand; and one stands at the front where the bytes say so. -/
theorem Reads.marked (reads : Reads s ls) (fit : Fit text s) :
    Marked text (ls.filter isProper) ∧
      (s.reader.At text → s.pending = none → ∀ m ∈ [colonMark, assignMark, periodMark],
        glues text.toArray s.reader.offset m.byte = true → ∃ l' rest, ls.filter isProper = l' :: rest ∧
          m.Stands s.reader.offset l' ∧ Marked text rest) := by
  induction reads with
  | stop eof =>
    have skips : ¬ isProper (Scan.next _).1 = true := fun proper => ((isProper_iff _).mp proper).2.1 eof
    refine ⟨by rw [List.filter_cons_of_neg skips]; exact .nil, ?_⟩
    intro h pending m known glued
    exact absurd (stands_of_glues h pending known glued).2 skips
  | @step s ls more reads ih =>
    obtain ⟨behind, front⟩ := ih (.stands fit.next.stands)
    by_cases proper : isProper (Scan.next s).1 = true
    · rw [List.filter_cons_of_pos proper]
      refine ⟨?_, fun h pending m known glued => ?_⟩
      · cases found : mark? text.toArray (Scan.next s).1 with
        | none => exact .alone (fit.next.inside proper) found behind
        | some m =>
          obtain ⟨member, known, glued⟩ := mark?_eq_some found
          obtain ⟨place, pending⟩ := fit.behind_marked (List.ne_nil_of_mem member)
          have inside := (List.getElem?_eq_some_iff.mp (bytes_of_glues (isMark_of_mem known) glued).1).1
          rw [← place] at glued
          obtain ⟨l', rest, same, stands, marked⟩ := front fit.next.stands pending m known glued
          rw [place] at stands
          rw [same]
          exact .glued inside found fit.next.star stands marked
      · exact ⟨_, _, rfl, (stands_of_glues h pending known glued).1, behind⟩
    · rw [List.filter_cons_of_neg proper]
      refine ⟨behind, fun h pending m known glued => ?_⟩
      exact absurd (stands_of_glues h pending known glued).2 proper

/-- The tokens are made of the lexemes, all of them. -/
theorem Marked.madeOf (marked : Marked text ls) (o : Origin) (lines : LineTable) (last : Nat) :
    MadeOf (o.position lines) (tokens o lines text.toArray last ls) ls := by
  induction marked generalizing last with
  | nil => exact .nil
  | alone inside absent rest ih =>
    rw [tokens_cons, classify_mark, absent]
    exact .alone rfl rfl rfl rfl (ih _)
  | @glued l l' m ls inside found star mark rest ih =>
    obtain ⟨behind, known, -⟩ := mark?_eq_some found
    have spelt : l'.text = [m.byte] := by
      unfold Lexeme.text
      rw [mark.literal, mark.kind]
      exact (mark_facts m known).1
    obtain ⟨b, single, whole⟩ := glued_spelling behind star
    rw [tokens_cons, classify_mark, found]
    dsimp only
    refine .glued behind mark rfl (by rw [spelt, single]; exact whole) rfl ?_ (ih _)
    rw [whole, spelt, mark.place]
    rfl

/-- A lexeme that stays alone is no glued token. -/
theorem aloneKind_plain (l : Lexeme) : aloneKind l ∉ [.elvis, .elvisAssign, .spreadDot] := by
  have table : ∀ k : Host.Kind, TokenKind.ofHost k ∉ [.elvis, .elvisAssign, .spreadDot] := by
    intro k
    cases k <;> decide
  unfold aloneKind
  split
  · decide
  · exact table _

theorem pieces_alone {t : Token} (plain : t.kind ∉ [.elvis, .elvisAssign, .spreadDot]) :
    pieces t = [⟨t.kind, t.literal, t.span.start.offset⟩] := by
  simp only [List.mem_cons, List.not_mem_nil, or_false, not_or] at plain
  obtain ⟨elvis, assign, spread⟩ := plain
  unfold pieces
  cases kind : t.kind <;> simp_all

/-- A mark becomes a token of its kind where it stays alone. -/
theorem piece_mark {offset : Nat} (known : m ∈ [colonMark, assignMark, periodMark]) (mark : m.Stands offset l) :
    piece l = ⟨.ofHost m.kind, [m.byte], offset⟩ := by
  have other : m.kind ≠ .illegal := by
    have table : ∀ m ∈ [colonMark, assignMark, periodMark], m.kind ≠ .illegal := by decide
    exact table m known
  have alone : isQuestion l = false := by simp [isQuestion, mark.kind, other]
  have spelt : l.text = [m.byte] := by
    unfold Lexeme.text
    rw [mark.literal, mark.kind]
    exact (mark_facts m known).1
  unfold piece aloneKind
  rw [alone, spelt, mark.kind, mark.place]
  rfl

theorem pieces_glued {t : Token} {l' : Lexeme} (behind : m ∈ marksBehind l)
    (star : l.kind = .mul → l.literal = []) (mark : m.Stands (l.offset + 1) l') (kind : t.kind = m.glued)
    (start : t.span.start.offset = l.offset) : pieces t = [piece l, piece l'] := by
  rw [piece_mark (mem_marks behind) mark]
  unfold pieces piece aloneKind
  unfold marksBehind at behind
  split at behind
  · rename_i question
    have told := question
    simp only [isQuestion, Bool.and_eq_true, decide_eq_true_eq, beq_iff_eq] at told
    have single : l.text = Text.utf8 "?" := by
      rw [Lexeme.text, told.2]
      rfl
    rw [if_pos question, single, kind, start]
    rcases List.mem_pair.mp behind with rfl | rfl <;> rfl
  split at behind
  · rename_i other mul
    have single : l.text = Text.utf8 "*" := by
      rw [Lexeme.text, star mul, mul]
      rfl
    obtain rfl := List.mem_singleton.mp behind
    rw [if_neg other, single, kind, start, mul]
    rfl
  · cases behind

/-- With what is glued taken apart, the tokens of a text of its own are the lexemes. -/
theorem Marked.pieces_eq (marked : Marked text ls) {o : Origin} (base : o.base = none) {lines : LineTable}
    (size : lines.size = text.length) (last : Nat) :
    (tokens o lines text.toArray last ls).flatMap pieces = ls.map piece := by
  induction marked generalizing last with
  | nil => rfl
  | @alone l ls inside absent rest ih =>
    have start : (o.position lines l.offset).offset = l.offset := position_offset base (by omega)
    rw [tokens_cons, classify_mark, absent, List.flatMap_cons, pieces_alone (aloneKind_plain l), List.map_cons]
    dsimp only
    rw [start, if_neg (by simp), ih]
    rfl
  | @glued l l' m ls inside found star mark rest ih =>
    have start : (o.position lines l.offset).offset = l.offset := position_offset base (by omega)
    rw [tokens_cons, classify_mark, found, List.flatMap_cons,
      pieces_glued (mark?_eq_some found).1 star mark rfl start, List.map_cons, List.map_cons]
    dsimp only
    rw [if_pos rfl, List.tail_cons, ih]
    rfl

/-! ## One call -/

theorem scanTo_eq (wanted : Lexeme → Bool) (s : State) :
    scanTo wanted s =
      if (Scan.next s).1.kind = .eof ∨ wanted (Scan.next s).1 = true then Scan.next s
      else scanTo wanted (Scan.next s).2 := by
  rw [scanTo]
  split
  rename_i l s' next
  rw [next]
  dsimp only
  split <;> rfl

/-- Reading on to a lexeme that becomes a token finds the first one that there is. -/
theorem Reads.proper (reads : Reads s ls) (fit : Fit text s) :
    (ls.filter isProper = [] ∧ (scanTo isProper s).1.kind = .eof) ∨
      ∃ s' ls', scanTo isProper s = Scan.next s' ∧ isProper (Scan.next s').1 = true ∧ Fit text s' ∧
        Reads (Scan.next s').2 ls' ∧ ls.filter isProper = (Scan.next s').1 :: ls'.filter isProper := by
  induction reads with
  | stop eof =>
    have skips : ¬ isProper (Scan.next _).1 = true := fun proper => ((isProper_iff _).mp proper).2.1 eof
    left
    rw [List.filter_cons_of_neg skips, scanTo_eq, if_pos (.inl eof)]
    exact ⟨rfl, eof⟩
  | @step s ls more reads ih =>
    by_cases proper : isProper (Scan.next s).1 = true
    · right
      refine ⟨s, ls, ?_, proper, fit, reads, List.filter_cons_of_pos proper⟩
      rw [scanTo_eq, if_pos (.inr proper)]
    · rw [List.filter_cons_of_neg proper, scanTo_eq, if_neg (not_or.mpr ⟨more, proper⟩)]
      exact ih (.stands fit.next.stands)

/-- What the bytes promise is taken, and nothing else. -/
theorem takeMark_eq {offset : Nat} {lost : List Lexeme} (h : s.reader.At text) (pending : s.pending = none)
    (place : s.reader.offset = offset) {ms : List Mark} (known : ms ⊆ [colonMark, assignMark, periodMark]) :
    takeMark text.toArray offset ⟨s, lost⟩ ms =
      match ms.find? fun m => glues text.toArray offset m.byte with
      | none => (none, ⟨s, lost⟩)
      | some m => (some m, ⟨(Scan.next s).2, lost⟩) := by
  induction ms with
  | nil => rfl
  | cons m ms ih =>
    obtain ⟨first, others⟩ := List.cons_subset.mp known
    unfold takeMark
    cases glued : glues text.toArray offset m.byte with
    | false =>
      rw [List.find?_cons_of_neg (by simp [glued]), if_neg (by simp)]
      exact ih others
    | true =>
      rw [← place] at glued
      obtain ⟨stands, proper⟩ := stands_of_glues h pending first glued
      have taken : scanBare s = Scan.next s := by
        unfold scanBare
        rw [scanTo_eq, if_pos (.inr (by simpa using ((isProper_iff _).mp proper).1))]
      rw [List.find?_cons_of_pos (by rw [← place]; exact glued), if_pos rfl, taken]
      dsimp only
      rw [if_pos stands.kind]

/-- Behind a lexeme, the mark is taken that the bytes promise. -/
theorem Fit.takeMark (fit : Fit text s) (lost : List Lexeme) :
    Lexer.takeMark text.toArray ((Scan.next s).1.offset + 1) ⟨(Scan.next s).2, lost⟩ (marksBehind (Scan.next s).1) =
      match mark? text.toArray (Scan.next s).1 with
      | none => (none, ⟨(Scan.next s).2, lost⟩)
      | some m => (some m, ⟨(Scan.next (Scan.next s).2).2, lost⟩) := by
  unfold mark?
  by_cases marked : marksBehind (Scan.next s).1 = []
  · rw [marked]
    rfl
  · obtain ⟨place, pending⟩ := fit.behind_marked marked
    exact takeMark_eq fit.next.stands pending place fun m => mem_marks

/-- A lexer with the tokens that are ahead of it. -/
inductive Ahead (o : Origin) (lines : LineTable) (text : Bytes) : Stage → List Token → Prop where
  | finished {st : Stage} (done : st.done = true) (lost : st.lost = []) : Ahead o lines text st []
  | within {st : Stage} {ls : List Lexeme} (done : st.done = false) (lost : st.lost = [])
      (fit : Fit text st.scanner) (reads : Reads st.scanner ls) :
      Ahead o lines text st (tokens o lines text.toArray st.last (ls.filter isProper))

variable {o : Origin} {lines : LineTable} {st : Stage} {ts : List Token}

theorem Ahead.lost (ahead : Ahead o lines text st ts) : st.lost = [] := by
  cases ahead <;> assumption

/-- A call gives the first token that is ahead, or the end mark. -/
theorem Ahead.call (ahead : Ahead o lines text st ts) :
    (nextToken o lines text.toArray st).1 = ts.headD (.endMark (.point (o.position lines text.length))) ∧
      Ahead o lines text (nextToken o lines text.toArray st).2 ts.tail := by
  cases ahead with
  | finished done lost =>
    unfold nextToken
    dsimp only
    rw [if_pos done]
    exact ⟨rfl, .finished done lost⟩
  | within done lost fit reads =>
    unfold nextToken
    dsimp only
    rw [if_neg (by simp [done])]
    obtain ⟨empty, eof⟩ | ⟨s, ls', read, proper, fit, reads, front⟩ := reads.proper fit
    · rw [if_pos eof, empty]
      exact ⟨rfl, .finished rfl lost⟩
    have other : (Scan.next s).1.kind ≠ .eof := ((isProper_iff _).mp proper).2.1
    rw [read, if_neg other, front, tokens_cons, classify_mark, lost]
    cases found : mark? text.toArray (Scan.next s).1 with
    | none =>
      rw [fit.takeMark, found]
      exact ⟨rfl, .within rfl rfl (.stands fit.next.stands) reads⟩
    | some m =>
      obtain ⟨member, known, glued⟩ := mark?_eq_some found
      obtain ⟨place, pending⟩ := fit.behind_marked (List.ne_nil_of_mem member)
      rw [← place] at glued
      obtain ⟨-, proper⟩ := stands_of_glues fit.next.stands pending known glued
      have further := (Fit.stands fit.next.stands).next.stands
      rw [fit.takeMark, found]
      -- The mark is the lexeme that the scanner gives next, so it is the one that is left out.
      cases reads with
      | stop eof => exact absurd eof ((isProper_iff _).mp proper).2.1
      | step more reads =>
        rw [List.filter_cons_of_pos proper]
        exact ⟨rfl, .within rfl rfl (.stands further) reads⟩

theorem Ahead.start (o : Origin) (text : Bytes) :
    Ahead o.proper (Host.scan o.file text).lines text (stage o text 0) (read o text).tokens :=
  .within rfl rfl (fit_start o.file text) (reads_scan o.file text)

/-- After any number of calls, the tokens that have not been given are ahead. -/
theorem ahead_stage (o : Origin) (text : Bytes) (n : Nat) :
    Ahead o.proper (Host.scan o.file text).lines text (stage o text n) ((read o text).tokens.drop n) := by
  induction n with
  | zero => exact .start o text
  | succ n ih =>
    rw [← List.tail_drop]
    exact ih.call.2

/-- Called again and again, a lexer gives the tokens of its text and then the end mark for ever, and it
never takes a lexeme for a mark that is none. The tokens are made of the lexemes that are neither comments
nor automatic semicolons, all of them: each token is one of them, or one and the mark right behind it. For
a text of its own, taking the glued tokens apart gives the lexemes in their order, each with its text and
its offset. -/
theorem gluing_lossless (o : Origin) (text : Bytes) :
    let lexemes := (Host.scan o.file text).lexemes.filter isProper
    let tokens := (read o text).tokens
    (∀ n, call o text n = tokens[n]?.getD (read o text).endMark ∧ (stage o text n).lost = []) ∧
    MadeOf (o.proper.position (Host.scan o.file text).lines) tokens lexemes ∧
    (o.base = none → tokens.flatMap pieces = lexemes.map piece) := by
  intro lexemes tokens
  have marked : Marked text lexemes := ((reads_scan o.file text).marked (fit_start o.file text)).1
  refine ⟨fun n => ⟨?_, (ahead_stage o text n).lost⟩, marked.madeOf o.proper _ 0, fun whole => ?_⟩
  · have given := (ahead_stage o text n).call.1
    rw [List.headD_eq_head?_getD, List.head?_drop] at given
    exact given
  · have base : o.proper.base = none := by
      unfold Origin.proper
      rw [whole]
      rfl
    exact marked.pieces_eq base rfl 0

/-- `a?:b*.c`. -/
theorem gluing_lossless_two :
    let text := Text.utf8 "a?:b*.c"
    (read { file := "" } text).tokens.flatMap pieces =
      [⟨.identifier, Text.utf8 "a", 0⟩, ⟨.question, Text.utf8 "?", 1⟩, ⟨.colon, Text.utf8 ":", 2⟩,
        ⟨.identifier, Text.utf8 "b", 3⟩, ⟨.operator, Text.utf8 "*", 4⟩, ⟨.period, Text.utf8 ".", 5⟩,
        ⟨.identifier, Text.utf8 "c", 6⟩] := by
  intro text
  rw [(gluing_lossless { file := "" } text).2.2 rfl]
  decide +kernel

end Desugar.Lexer

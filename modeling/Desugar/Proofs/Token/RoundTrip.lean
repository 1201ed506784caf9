import Mathlib
import Desugar.Proofs.Token.Characters
import Desugar.Proofs.Token.Continuing

/-!
# Writing tokens out and reading them again

The tokens of a text, written out, are read as the same tokens again. What stands behind a token when the
stream is written out goes on as it did in the text, or there were blanks or a comment in the text and
there is a blank now; so each token is read from its own characters as before. The gaps come out the same
because a gap is written as a blank of its class and nothing else is written between two tokens.
-/
namespace Desugar.Lexer

open Host Host.Scan Host.Reader

/-! ## What stands behind a token -/

/-- What is written behind a token goes on as the text does, and it ends the line where the text does. -/
structure Follows (cs cs' : List Char) : Prop extends Continues cs cs' where
  line : cs.head? ∈ [none, some '\n'] → cs'.head? ∈ [none, some '\n']

/-- What follows the same character follows as well. -/
theorem Follows.cons {cs cs' : List Char} (h : Follows cs cs') (c : Char) :
    Follows (c :: cs) (c :: cs') :=
  ⟨h.toContinues.cons c, fun ends => ends⟩

theorem Follows.append {cs cs' : List Char} (h : Follows cs cs') (w : List Char) :
    Follows (w ++ cs) (w ++ cs') := by
  induction w with
  | nil => exact h
  | cons c w ih => exact ih.cons c

/-! ## What a lexeme of the text is written as -/

section
variable {text : Bytes} {s : State} {X Y : List Char}

/-- Where skipping stops, the character is not skipped. -/
theorem skipWhile_char {p : Char → Bool} {r : Reader} {c : Char}
    (char : (r.skipWhile p).char? = some c) : p c = false := by
  fun_induction Reader.skipWhile p r with
  | case1 r x seen pass ih => exact ih char
  | case2 r x seen stop =>
    obtain rfl := Option.some.inj (seen.symm.trans char)
    simpa using stop
  | case3 r seen =>
    rw [seen] at char
    cases char

theorem isProper_automatic (s : State) (r : Reader) (offset : Nat) :
    isProper (automatic s r offset).1 = false := rfl

/-- Where a proper lexeme is read: behind the blanks, from a character that is none. -/
theorem next_of_proper (proper : isProper (Scan.next s).1 = true) :
    ∃ c, c ∉ [' ', '\t', '\r', '\n'] ∧
      (s.reader.skipWhile (isBlank s.ends)).char? = some c ∧
      Scan.next s = lexeme s (s.reader.skipWhile (isBlank s.ends)) c := by
  cases pending : s.pending with
  | some offset =>
    unfold Scan.next at proper
    simp only [pending, isProper_automatic] at proper
    cases proper
  | none =>
    cases char : (s.reader.skipWhile (isBlank s.ends)).char? with
    | none =>
      unfold Scan.next at proper
      simp only [pending, char] at proper
      split at proper <;> cases proper
    | some c =>
      have next := next_of_char pending char
      have stop := skipWhile_char char
      refine ⟨c, ?_, rfl, next⟩
      intro blank
      simp only [isBlank, Bool.or_eq_false_iff, beq_eq_false_iff_ne, Bool.and_eq_false_iff] at stop
      obtain ⟨⟨⟨space, tab⟩, carriage⟩, line⟩ := stop
      obtain rfl : c = '\n' := by simpa [space, tab, carriage] using blank
      rw [next, lexeme_newline, isProper_automatic] at proper
      cases proper

/-- A proper lexeme stands behind blanks. -/
theorem Step.of_proper {p q : Nat} {l : Lexeme} (step : Step text p l q) (proper : isProper l = true) :
    Blank text p l.offset ∧ l.StandsAt text q := by
  obtain ⟨comment, eof, automatic⟩ := (isProper_iff l).mp proper
  cases step with
  | proper _ before stands => exact ⟨before, stands⟩
  | skipped kind =>
    rcases kind with kind | kind | kind
    · exact absurd kind comment
    · exact absurd kind eof
    · rw [automatic] at kind
      cases kind

/-- What a proper lexeme is written as, before what follows the text behind it. -/
structure Written (text : Bytes) (Y : List Char) (l : Lexeme) (stop : Nat) (w : List Char) : Prop where
  starts : StartsWord w
  spelt : Text.encode w = l.text
  plain : ∀ c ∈ w, IsPlain c
  fits : l.offset + l.text.length ≤ stop
  lexes : ∀ Y', (l.offset + l.text.length = stop → Follows Y Y') → LexesAs w Y' l.kind l.literal
  follows : ∃ start Z, Reader.Over text Z start ∧ start.offset = l.offset ∧
    ∀ Y', (l.offset + l.text.length = stop → Follows Y Y') → Follows Z (w ++ Y')

/-- Readers that stand at one offset of a text stand before the same characters. -/
theorem over_unique {r r' : Reader} {cs cs' : List Char} (h : r.Over text cs) (h' : r'.Over text cs')
    (same : r.offset = r'.offset) : cs = cs' := by
  apply Text.encode_injective
  rw [← h.front, ← h'.front, h.stands.rest, h'.stands.rest, same]

/-- Without carriage returns a text encodes its other characters. -/
theorem encode_filter (cs : List Char) :
    (Text.encode cs).filter (· != 0x0D) = Text.encode (cs.filter (· != '\r')) := by
  induction cs with
  | nil => rfl
  | cons c cs ih =>
    rw [Text.encode_cons, List.filter_append, ih]
    by_cases carriage : c = '\r'
    · subst carriage
      rw [List.filter_cons_of_neg (by decide)]
      rfl
    · rw [List.filter_cons_of_pos (by simpa using carriage), Text.encode_cons]
      congr 1
      rw [List.filter_eq_self]
      intro b member
      rw [bne_iff_ne]
      rintro rfl
      by_cases small : c.toNat < 0x80
      · rw [Text.encode_ascii small, List.mem_singleton] at member
        have value := congrArg UInt8.toNat member
        rw [Text.toNat_ofNat_of_lt (by omega)] at value
        exact carriage (Char.toNat_inj.mp value.symm)
      · exact absurd (Text.le_of_mem_encode (Nat.le_of_not_lt small) member) (by decide)

theorem Follows.refl (cs : List Char) : Follows cs cs :=
  ⟨⟨.inl rfl, fun _ _ _ => .inl rfl⟩, fun ends => ends⟩

/-- A lexeme other than a raw string is written as it stands in the text. -/
theorem written_plain {start : Reader} {c : Char} {v : List Char}
    (upon : s.reader.Over text X) (there : start.Over text (c :: v ++ Y)) (fresh : start.faults = [])
    (word : c ∉ [' ', '\t', '\r', '\n']) (quote : c ≠ backQuote)
    (next : Scan.next s = lexeme s start c) (proper : isProper (Scan.next s).1 = true)
    (masked : Masked text (Scan.next s).1.faults) (upon' : (Scan.next s).2.reader.Over text Y) :
    Written text Y (Scan.next s).1 (Scan.next s).2.reader.offset (c :: v) := by
  have kinds := (isProper_iff _).mp proper
  have lexes (Y' : List Char) (follows : Follows Y Y') :
      LexesAs (c :: v) Y' (Scan.next s).1.kind (Scan.next s).1.literal := by
    rw [next] at masked kinds upon' ⊢
    refine lexesAs_of_lexeme there fresh follows.goesOn masked (by rw [upon'.front])
      ⟨kinds.1, kinds.2.2⟩ quote ?_
    rintro rfl
    obtain ⟨u, body, ends⟩ := runeBody_over there.next.1 start.offset 0 true
    rw [lexeme_rune] at upon'
    obtain rfl : u = Y := Text.encode_injective (body.front.symm.trans upon'.front)
    exact ends.imp_right follows.line
  have gives := lexes Y (.refl Y) text s start c rfl there fresh
  have offset : (Scan.next s).1.offset = start.offset := next ▸ gives.offset
  have spelt : Text.encode (c :: v) = (Scan.next s).1.text := by
    obtain ⟨-, stands⟩ := Step.of_proper (next_step upon.stands masked) proper
    have long := stands.long
    rw [stands.told, offset, slice_eq_of_other (by omega) (not_quote there.stands there.char? quote),
      ← there.stands.between, there.between upon']
  have whole := there.length
  have whole' := upon'.length
  rw [Text.encode_append, List.length_append, spelt] at whole
  have stop : (Scan.next s).1.offset + (Scan.next s).1.text.length = (Scan.next s).2.reader.offset := by
    omega
  refine ⟨⟨c, v, rfl, word⟩, spelt, ?_, Nat.le_of_eq stop, fun Y' follows => lexes Y' (follows stop),
    start, _, there, offset.symm, fun Y' follows => (follows stop).append _⟩
  exact fun x member => there.plain x (List.mem_append_left _ member)

/-- A raw string is written without its carriage returns. -/
theorem written_raw {start : Reader} {rest : List Char}
    (there : start.Over text (backQuote :: rest)) (next : Scan.next s = lexeme s start backQuote)
    (masked : Masked text (Scan.next s).1.faults) (upon' : (Scan.next s).2.reader.Over text Y) :
    ∃ w, Written text Y (Scan.next s).1 (Scan.next s).2.reader.offset w := by
  rw [next, lexeme_raw] at masked upon' ⊢
  rcases rawBody_split there.next.1 start.offset with noted | ⟨body, Z, rfl, closed, upon''⟩
  · have byte := (there.stands.next_of_ascii there.char? (by decide)).1
    exact absurd (not_masked masked noted byte) (by decide)
  obtain rfl : Z = Y := Text.encode_injective (upon''.front.symm.trans upon'.front)
  have read : between start (rawBody start.offset start.next) =
      Text.encode (backQuote :: body ++ [backQuote]) := by
    refine Over.between ?_ upon''
    rw [List.append_assoc]
    exact there
  have kept : (backQuote :: body ++ [backQuote]).filter (· != '\r') =
      backQuote :: body.filter (· != '\r') ++ [backQuote] := by
    rw [List.filter_append, List.filter_cons_of_pos (by decide)]
    rfl
  have literal : (between start (rawBody start.offset start.next)).filter (· != 0x0D) =
      Text.encode (backQuote :: body.filter (· != '\r') ++ [backQuote]) := by
    rw [read, encode_filter, kept]
  have again : (Text.encode (backQuote :: body.filter (· != '\r') ++ [backQuote])).filter (· != 0x0D) =
      Text.encode (backQuote :: body.filter (· != '\r') ++ [backQuote]) := by
    rw [encode_filter, ← kept, List.filter_filter]
    simp only [Bool.and_self]
  have spelt : Text.encode (backQuote :: body.filter (· != '\r') ++ [backQuote]) =
      (emit s (rawBody start.offset start.next) .string start.offset
        ((between start (rawBody start.offset start.next)).filter (· != 0x0D)) true).1.text := by
    rw [literal]
    rfl
  refine ⟨_, ⟨backQuote, _, rfl, by decide⟩, spelt, fun c member => ?_, ?_, fun Y' _ => ?_, start, _,
    there, rfl, fun Y' _ => ?_⟩
  · refine there.plain c ?_
    have inside : c ∈ backQuote :: body ++ [backQuote] :=
      List.mem_of_mem_filter (by rw [kept]; exact member)
    rw [← List.cons_append, List.append_cons]
    exact List.mem_append_left _ inside
  · have part := List.length_filter_le (· != 0x0D) (between start (rawBody start.offset start.next))
    have width : (between start (rawBody start.offset start.next)).length =
        (rawBody start.offset start.next).offset - start.offset := by
      rw [there.stands.between]
      exact length_slice upon''.stands.bound
    have forward := there.next.1.stands.offset_le (reaches_rawBody start.offset start.next)
    have first := there.stands.offset_le_next
    rw [← spelt, ← literal]
    simp only [emit]
    omega
  · have lexes := lexesAs_raw (X := Y') (show backQuote ∉ body.filter (· != '\r') from fun member =>
      closed (List.mem_of_mem_filter member))
    rw [again, ← literal] at lexes
    exact lexes
  · refine ⟨⟨.inl rfl, fun c isMark head => ?_⟩, fun ends => ends⟩
    obtain rfl : backQuote = c := Option.some.inj head
    exact absurd isMark (by decide)

/-- Where a proper lexeme is read: behind the blanks, up to what is left. -/
theorem next_split (upon : s.reader.Over text X) (proper : isProper (Scan.next s).1 = true)
    (masked : Masked text (Scan.next s).1.faults) (upon' : (Scan.next s).2.reader.Over text Y) :
    ∃ c v, c ∉ [' ', '\t', '\r', '\n'] ∧
      (s.reader.skipWhile (isBlank s.ends)).Over text (c :: v ++ Y) ∧
      Scan.next s = lexeme s (s.reader.skipWhile (isBlank s.ends)) c := by
  obtain ⟨c, word, char, next⟩ := next_of_proper proper
  obtain ⟨there, -⟩ := upon.skipWhile (isBlank s.ends)
  generalize s.reader.skipWhile (isBlank s.ends) = start at there char next ⊢
  have head := there.char?.symm.trans char
  obtain ⟨rest, chars⟩ := List.head?_eq_some_iff.mp head
  rw [chars] at there
  obtain ⟨r, way, after, noted⟩ := lexeme_handedOver s start c
  rw [← next] at after noted
  have clear : Masked text r.faults := by
    intro f member
    rw [noted] at masked
    exact masked f (List.mem_reverse.mpr member)
  obtain ⟨-, u, front, -⟩ := plain_of_reaches there.stands way there.characterFault? clear
  have behind := upon'.front
  rw [after] at behind
  have split : c :: rest = u ++ Y := by
    apply Text.encode_injective
    rw [← there.front, front, Text.encode_append, ← behind]
  cases u with
  | nil =>
    have shorter := lexeme_rest_length_lt s there.char?
    rw [← next, after] at shorter
    rw [front] at shorter
    exact absurd shorter (Nat.lt_irrefl _)
  | cons x v =>
    obtain ⟨rfl, rfl⟩ := List.cons.inj split
    exact ⟨c, v, word, there, next⟩

/-- Every proper lexeme without faults of account is written so that it is read again. -/
theorem next_written (upon : s.reader.Over text X) (fresh : s.reader.faults = [])
    (proper : isProper (Scan.next s).1 = true) (masked : Masked text (Scan.next s).1.faults)
    (upon' : (Scan.next s).2.reader.Over text Y) :
    ∃ w, Written text Y (Scan.next s).1 (Scan.next s).2.reader.offset w := by
  obtain ⟨c, v, word, there, next⟩ := next_split upon proper masked upon'
  have faults := (upon.skipWhile (isBlank s.ends)).2
  by_cases quote : c = backQuote
  · subst quote
    exact written_raw there next masked upon'
  · exact ⟨_, written_plain upon there (faults.trans fresh) word quote next proper masked upon'⟩

/-! ## What the tokens are written as -/

/-- Where blanks stand, the characters begin with one or with a comment. -/
theorem quiet_of_blank {r : Reader} {q : Nat} (upon : r.Over text X) (blank : Blank text r.offset q)
    (long : r.offset < q) : X.head? ∈ quiet := by
  have seen {b : UInt8} (byte : text[r.offset]? = some b) (small : b.toNat < 0x80) :
      X.head? = some (Char.ofNat b.toNat) := by
    rw [← upon.char?]
    exact upon.stands.char_of_byte byte small
  generalize place : r.offset = p at blank
  cases blank with
  | refl => omega
  | mark front _ =>
    obtain ⟨tail, rfl⟩ := front
    have rest := upon.stands.rest
    rw [place, List.drop_zero] at rest
    have char := upon.char?
    have mark : r.char? = some '\uFEFF' := by
      have encoded : String.utf8EncodeChar '\uFEFF' = [0xEF, 0xBB, 0xBF] := by decide
      obtain ⟨b, more, bytes, decoded⟩ := Text.decodeCons_encode '\uFEFF' tail
      rw [encoded] at bytes
      obtain ⟨rfl, rfl⟩ := List.cons.inj bytes
      simp only [Reader.char?, rest, List.cons_append, Text.decode?, Option.map_some]
      exact congrArg (some ·.char) decoded
    rw [mark] at char
    obtain ⟨Y, rfl⟩ := List.head?_eq_some_iff.mp char.symm
    exact absurd rfl (upon.plain _ List.mem_cons_self).2
  | @space _ _ b byte space _ =>
    rw [← place] at byte
    simp only [isSpace, Bool.or_eq_true, beq_iff_eq] at space
    rcases space with ((rfl | rfl) | rfl) | rfl <;> (rw [seen byte (by decide)]; decide)
  | comment piece _ =>
    have slash : text[p]? = some 0x2F := by
      cases piece with
      | line opening => exact opening.1
      | general opening => exact opening.1
    rw [seen (place ▸ slash) (by decide)]
    decide

/-- A gap begins with something idle that is no mark. -/
theorem gap_heads : ∀ c ∈ ([none, some ' ', some '\n'] : List (Option Char)),
    c ∈ idle ∧ c ∉ [':', '=', '.'].map some := by decide

/-- How what is written follows the text, where the token before is taken to end at `told`. -/
structure Told (text : Bytes) (r : Reader) (X : List Char) (told : Nat) (X' : List Char) : Prop where
  here : told = r.offset → Follows X X'
  before : told < r.offset → X'.head? ∈ [none, some ' ', some '\n'] ∧
    (0x0A ∈ Text.slice text told r.offset → X'.head? ∈ [none, some '\n'])

/-- Blanks that are passed leave a gap. -/
theorem Told.back {r q : Reader} {told : Nat} {X' : List Char} (upon : r.Over text X)
    (upon' : q.Over text Y) (blank : Blank text r.offset q.offset) (le : told ≤ r.offset)
    (h : Told text q Y told X') : Told text r X told X' := by
  have forward := blank.le
  have bound := upon'.stands.bound
  have part {p : Nat} (between : told ≤ p) (before : p ≤ q.offset) {b : UInt8}
      (member : b ∈ Text.slice text told p) : b ∈ Text.slice text told q.offset := by
    rw [← Text.slice_append_slice text between before]
    exact List.mem_append_left _ member
  by_cases stays : r.offset = q.offset
  · obtain rfl := over_unique upon upon' stays
    exact ⟨fun same => h.here (same.trans stays), fun less => by
      rw [stays] at less ⊢
      exact h.before less⟩
  · obtain ⟨calm, line⟩ := h.before (by omega)
    refine ⟨fun same => ?_, fun less => ⟨calm, fun newline => line (part le forward newline)⟩⟩
    have quiet := quiet_of_blank upon blank (by omega)
    refine ⟨⟨.inr ⟨?_, quiet⟩, fun c isMark head => ?_⟩, fun ends => ?_⟩
    · exact (gap_heads _ calm).1
    · rw [head] at calm
      exact absurd (List.mem_map_of_mem isMark) (gap_heads _ calm).2
    · simp only [List.mem_cons, List.not_mem_nil, or_false] at ends
      rcases ends with absent | newline
      · rw [← upon.char?] at absent
        have := upon.stands.offset_eq_of_char absent
        omega
      · rw [← upon.char?] at newline
        have byte := (upon.stands.next_of_ascii newline (by decide)).1
        refine line (part (p := r.offset + 1) (by omega) (by omega) ?_)
        rw [same, slice_one byte]
        exact List.mem_cons_self

/-- What a token is written as follows the text at its start. -/
theorem told_token {start : Reader} {Z X' : List Char} (told : Nat) (there : start.Over text Z)
    (follows : Follows Z X') :
    Told text start Z told (gapChars (Gap.ofText (Text.slice text told start.offset)) ++ X') := by
  refine ⟨fun same => ?_, fun less => ?_⟩
  · have empty : Text.slice text told start.offset = [] := by
      rw [same, Text.slice, Nat.sub_self, List.take_zero]
    rw [empty]
    exact follows
  · have nonempty : Text.slice text told start.offset ≠ [] :=
      slice_ne_nil less (by have := there.stands.bound; omega)
    unfold Gap.ofText
    rw [if_neg (by simpa using nonempty)]
    split
    · exact ⟨by simp [gapChars], fun _ => by simp [gapChars]⟩
    · rename_i line
      refine ⟨by simp [gapChars], fun newline => ?_⟩
      exact absurd (List.contains_iff_mem.mpr newline) line

/-- What the tokens from a state on are written as. -/
def TokensWritten (text : Bytes) (X : List Char) (s : State) (ls : List Lexeme) : Prop :=
  ∀ told ≤ s.reader.offset, ∀ o lines, ∃ X',
    Rereads (tokens o lines text.toArray told (ls.filter isProper)) X' ∧ (∀ c ∈ X', IsPlain c) ∧
      Told text s.reader X told X'

/-- What the tokens behind a mark are written as that the token before takes along. -/
def TailWritten (text : Bytes) (X : List Char) (s : State) (ls : List Lexeme) : Prop :=
  ∀ mark ∈ [':', '=', '.'], gluesTo X mark = true → ∃ Y, X = mark :: Y ∧ ∀ o lines, ∃ Y' k literal,
    Rereads (tokens o lines text.toArray (s.reader.offset + 1) (ls.filter isProper).tail) Y' ∧
      (∀ c ∈ Y', IsPlain c) ∧ Follows Y Y' ∧ LexesAs [mark] Y' k literal ∧ IsProper k literal

theorem tokensWritten_eof (upon : s.reader.Over text X) (masked : Masked text (Scan.next s).1.faults)
    (eof : (Scan.next s).1.kind = .eof) : TokensWritten text X s [(Scan.next s).1] := by
  intro told le o lines
  have skips : isProper (Scan.next s).1 = false := by simp [isProper, eof]
  rw [List.filter_cons_of_neg (by simp [skips]), List.filter_nil, tokens]
  have still : X.head? ∈ quiet := by
    cases next_step upon.stands masked with
    | proper kind => exact absurd eof kind.2.1
    | skipped kind blank last =>
      have length := upon.stands.bound
      rw [last eof] at blank
      rcases Nat.lt_or_ge s.reader.offset text.length with less | ge
      · exact quiet_of_blank upon blank less
      · have done := upon.length
        cases X with
        | nil => decide
        | cons c X =>
          have := Text.length_encodeChar_pos c
          rw [Text.encode_cons, List.length_append] at done
          omega
  refine ⟨[], .nil, by simp, ⟨fun _ => ⟨⟨.inr ⟨by decide, still⟩, by simp⟩, fun _ => ?_⟩,
    fun _ => ⟨?_, fun _ => ?_⟩⟩⟩ <;> exact List.mem_cons_self

theorem tokensWritten_skip {ls : List Lexeme} (upon : s.reader.Over text X)
    (upon' : (Scan.next s).2.reader.Over text Y) (masked : Masked text (Scan.next s).1.faults)
    (skips : isProper (Scan.next s).1 = false) (rest : TokensWritten text Y (Scan.next s).2 ls) :
    TokensWritten text X s ((Scan.next s).1 :: ls) := by
  intro told le o lines
  cases next_step upon.stands masked with
  | proper kind =>
    rw [(isProper_iff _).mpr kind] at skips
    cases skips
  | skipped kind blank last =>
    rw [List.filter_cons_of_neg (by simp [skips])]
    obtain ⟨X', rereads, plain, told'⟩ := rest told (Nat.le_trans le blank.le) o lines
    exact ⟨X', rereads, plain, told'.back upon upon' blank le⟩

/-- How a lexeme becomes a token depends on what follows only if it is a question mark or a star. -/
theorem classifyBefore_eq {kind : Host.Kind} {literal : Bytes}
    (other : ¬ ((kind = .illegal ∧ literal = [0x3F]) ∨ kind = .mul)) (cs cs' : List Char) :
    classifyBefore kind literal cs = classifyBefore kind literal cs' := by
  rw [not_or] at other
  unfold classifyBefore
  rw [if_neg (by simpa using other.1), if_neg (by simp [other.2]), if_neg (by simpa using other.1),
    if_neg (by simp [other.2])]

/-- A question mark or a star stands on one byte. -/
theorem oneByte_of_standsAt {l : Lexeme} {q : Nat} (stands : l.StandsAt text q)
    (one : (l.kind = .illegal ∧ l.literal = [0x3F]) ∨ l.kind = .mul) :
    l.text.length = 1 ∧ q = l.offset + 1 := by
  rcases one with ⟨-, literal⟩ | star
  · have told : l.text = [0x3F] := by simp [Lexeme.text, literal]
    exact ⟨by rw [told]; rfl, (standsAt_single stands told (by decide)).2⟩
  · have told : l.text = [0x2A] := by
      rw [stands.operator (by rw [star]; decide), star]
      decide
    exact ⟨by rw [told]; rfl, (standsAt_single stands told (by decide)).2⟩

/-- A mark that the bytes glue is a character that is glued. -/
theorem gluesTo_of_glues {r : Reader} (h : r.Over text X) {b : UInt8} (isMark : IsMark b)
    (glue : glues text.toArray r.offset b = true) :
    ∃ mark ∈ [':', '=', '.'], mark ∉ [' ', '\t', '\r', '\n'] ∧ Text.encode [mark] = [b] ∧
      gluesTo X mark = true := by
  obtain ⟨colon, equals, point⟩ := glues_eq h
  rcases isMark with rfl | rfl | rfl
  · exact ⟨':', by decide, by decide, by decide, colon ▸ glue⟩
  · exact ⟨'=', by decide, by decide, by decide, equals ▸ glue⟩
  · exact ⟨'.', by decide, by decide, by decide, point ▸ glue⟩

/-- What is written for a token, with what is written for those behind it. -/
theorem written_cons {l : Lexeme} {s' : State} {ls : List Lexeme} {w : List Char}
    (upon : s.reader.Over text X) (upon' : s'.reader.Over text Y) (proper : IsProper l.kind l.literal)
    (blank : Blank text s.reader.offset l.offset) (stands : l.StandsAt text s'.reader.offset)
    (written : Written text Y l s'.reader.offset w) (rest : TokensWritten text Y s' ls)
    (tail : TailWritten text Y s' ls) {told : Nat} (le : told ≤ s.reader.offset) (o : Origin)
    (lines : LineTable) :
    ∃ X', Rereads (tokens o lines text.toArray told (l :: ls.filter isProper)) X' ∧
      (∀ c ∈ X', IsPlain c) ∧ Told text s.reader X told X' := by
  obtain ⟨starts, spelt, plain, fits, lexes, start, Z, there, begins, follows⟩ := written
  have single : OneByte l.kind l.literal w := fun one => by
    rw [spelt, (oneByte_of_standsAt stands one).1]
  have classified := classify_eq upon' fun one => (oneByte_of_standsAt stands one).2
  rw [tokens_cons, slice_toArray]
  have becomes := classify_becomes stands
  rw [classified] at becomes ⊢
  generalize same : classifyBefore l.kind l.literal Y = c at becomes ⊢
  cases becomes with
  | @plain kind _ =>
    obtain ⟨X', rereads, plain', told'⟩ := rest _ fits o lines
    have again : classifyBefore l.kind l.literal X' = (kind, Text.encode w, false) := by
      rw [spelt, ← same]
      by_cases one : (l.kind = .illegal ∧ l.literal = [0x3F]) ∨ l.kind = .mul
      · obtain ⟨length, stop⟩ := oneByte_of_standsAt stands one
        exact (told'.here (by omega)).classifyBefore _ _
      · exact classifyBefore_eq one _ _
    refine ⟨gapChars (Gap.ofText (Text.slice text told l.offset)) ++ (w ++ X'), ?_, ?_, ?_⟩
    · exact .cons starts spelt (.plain (lexes X' told'.here) proper single again) rereads
    · intro c member
      rcases List.mem_append.mp member with gap | member
      · exact gapChars_plain _ c gap
      · exact (List.mem_append.mp member).elim (plain c) (plain' c)
    · have here := told_token told there (follows X' told'.here)
      rw [begins] at here
      exact here.back upon there (begins ▸ blank) le
  | @glued kind b mark told' other isMark glue =>
    obtain ⟨-, stop⟩ := standsAt_single stands told' other
    rw [← stop] at glue
    obtain ⟨m, isMark', word, byte, glued⟩ := gluesTo_of_glues upon' isMark glue
    obtain ⟨Z', rfl, behind⟩ := tail m isMark' glued
    obtain ⟨X', k, literal, rereads, plain', next, mark', proper'⟩ := behind o lines
    obtain ⟨c, v, rfl, blank'⟩ := starts
    have length := congrArg List.length (spelt.trans told')
    have empty : v = [] := by
      cases v with
      | nil => rfl
      | cons x v =>
        have := Text.length_encodeChar_pos c
        have := Text.length_encodeChar_pos x
        simp only [Text.encode_cons, List.length_append, List.length_cons, List.length_nil] at length
        omega
    subst empty
    have both : Text.encode [c, m] = [b, mark] := by
      have append := Text.encode_append [c] [m]
      rw [spelt, told', byte] at append
      exact append
    have again : classifyBefore l.kind l.literal (m :: X') = (kind, Text.encode [c, m], true) := by
      rw [both, ← same]
      exact (next.cons m).classifyBefore _ _
    have takes : s'.reader.offset + 1 = l.offset + [b, mark].length := by
      rw [stop]
      rfl
    refine ⟨gapChars (Gap.ofText (Text.slice text told l.offset)) ++ ([c, m] ++ X'), ?_, ?_, ?_⟩
    · refine .cons ⟨c, [m], rfl, blank'⟩ both
        (.glued rfl (lexes (m :: X') fun _ => next.cons m) proper single again word mark' proper') ?_
      rw [← takes]
      exact rereads
    · intro x member
      rcases List.mem_append.mp member with gap | member
      · exact gapChars_plain _ x gap
      rcases List.mem_append.mp member with front | behind
      · rcases List.mem_cons.mp front with rfl | front
        · exact plain x List.mem_cons_self
        · rw [List.mem_singleton.mp front]
          exact upon'.plain m List.mem_cons_self
      · exact plain' x behind
    · have here := told_token told there (follows (m :: X') fun _ => next.cons m)
      rw [begins] at here
      exact here.back upon there (begins ▸ blank) le

/-- Where a mark is glued, its byte says so. -/
theorem glues_of_gluesTo {r : Reader} (h : r.Over text X) {mark : Char} (isMark : mark ∈ [':', '=', '.'])
    (glue : gluesTo X mark = true) :
    ∃ b, IsMark b ∧ b ≠ 0x60 ∧ Text.encode [mark] = [b] ∧ X.head? = some mark ∧
      glues text.toArray r.offset b = true := by
  obtain ⟨colon, equals, point⟩ := glues_eq h
  have head : X.head? = some mark := by
    unfold gluesTo at glue
    rw [Bool.and_eq_true, beq_iff_eq] at glue
    exact glue.1
  simp only [List.mem_cons, List.not_mem_nil, or_false] at isMark
  rcases isMark with rfl | rfl | rfl
  · exact ⟨0x3A, .inl rfl, by decide, by decide, head, colon.trans glue⟩
  · exact ⟨0x3D, .inr (.inl rfl), by decide, by decide, head, equals.trans glue⟩
  · exact ⟨0x2E, .inr (.inr rfl), by decide, by decide, head, point.trans glue⟩

/-- A mark that the token before takes along is the next lexeme, on its own. -/
theorem next_mark (upon : s.reader.Over text X) (upon' : (Scan.next s).2.reader.Over text Y)
    (fresh : s.reader.faults = []) (pending : s.pending = none)
    (masked : Masked text (Scan.next s).1.faults) {mark : Char} (isMark : mark ∈ [':', '=', '.'])
    (glued : gluesTo X mark = true) :
    X = mark :: Y ∧ (Scan.next s).2.reader.offset = s.reader.offset + 1 ∧
      isProper (Scan.next s).1 = true ∧
      Written text Y (Scan.next s).1 (Scan.next s).2.reader.offset [mark] := by
  obtain ⟨b, isMark', other, byte, head, glue⟩ := glues_of_gluesTo upon isMark glued
  obtain ⟨proper, stop⟩ := next_of_glues upon.stands pending isMark' glue
  obtain ⟨blank, stands⟩ := Step.of_proper (next_step upon.stands masked) proper
  obtain ⟨w, written⟩ := next_written upon fresh proper masked upon'
  obtain ⟨X', rfl⟩ := List.head?_eq_some_iff.mp head
  have place : (Scan.next s).1.offset = s.reader.offset := by
    have := blank.le
    have := stands.long
    omega
  have told : (Scan.next s).1.text = [b] := by
    obtain ⟨here, -, -⟩ := bytes_of_glues isMark' glue
    rw [stands.told, place, stop, slice_one here]
    unfold spelling
    rw [if_neg (by simpa using other)]
  obtain rfl : w = [mark] := Text.encode_injective (by rw [written.spelt, told, byte])
  have behind : X' = Y := by
    refine over_unique upon.next.1 upon' ?_
    have offset := upon.next.2.2
    have width := congrArg List.length byte
    simp only [Text.encode_cons, Text.encode_nil, List.append_nil, List.length_cons,
      List.length_nil] at width
    omega
  exact ⟨by rw [behind], stop, proper, written⟩

/-- A mark that the token before takes along is the next lexeme. -/
theorem tailWritten_step {ls : List Lexeme} (upon : s.reader.Over text X)
    (upon' : (Scan.next s).2.reader.Over text Y) (fresh : s.reader.faults = [])
    (pending : s.pending = none) (masked : Masked text (Scan.next s).1.faults)
    (rest : TokensWritten text Y (Scan.next s).2 ls) :
    TailWritten text X s ((Scan.next s).1 :: ls) := by
  intro mark isMark glued
  obtain ⟨rfl, stop, proper, written⟩ := next_mark upon upon' fresh pending masked isMark glued
  refine ⟨Y, rfl, fun o lines => ?_⟩
  obtain ⟨Y', rereads, plain, told'⟩ := rest _ (Nat.le_refl _) o lines
  rw [List.filter_cons_of_pos proper, List.tail_cons, ← stop]
  have kinds := (isProper_iff _).mp proper
  exact ⟨Y', _, _, rereads, plain, told'.here rfl, written.lexes Y' (fun _ => told'.here rfl),
    kinds.1, kinds.2.1, by simpa [Lexeme.isAutomatic] using kinds.2.2⟩

theorem written_of_reads {ls : List Lexeme} (reads : Reads s ls) (upon : s.reader.Over text X)
    (fresh : s.reader.faults = []) (masked : ∀ l ∈ ls, Masked text l.faults) :
    TokensWritten text X s ls ∧ (s.pending = none → TailWritten text X s ls) := by
  induction reads generalizing X with
  | stop eof =>
    have here := masked _ List.mem_cons_self
    refine ⟨tokensWritten_eof upon here eof, fun pending mark isMark glued => ?_⟩
    obtain ⟨b, isMark', -, -, -, glue⟩ := glues_of_gluesTo upon isMark glued
    exact absurd eof ((isProper_iff _).mp (next_of_glues upon.stands pending isMark' glue).1).2.1
  | @step s ls more rest ih =>
    have here := masked _ List.mem_cons_self
    have later := fun l member => masked l (List.mem_cons_of_mem _ member)
    obtain ⟨r, way, after, faults⟩ := next_handedOver s
    have clear : Masked text r.faults := fun f noted =>
      here f (by rw [faults]; exact List.mem_reverse.mpr noted)
    have next := (plain_of_reaches upon.stands way upon.characterFault? clear).1
    obtain ⟨Y, upon'⟩ := over_of_reads rest ((next_handedOver s).at upon.stands)
      (by rw [after]; exact next) later
    obtain ⟨others, tail⟩ := ih upon' (by rw [after]) later
    refine ⟨?_, fun pending => tailWritten_step upon upon' fresh pending here others⟩
    cases proper : isProper (Scan.next s).1 with
    | false => exact tokensWritten_skip upon upon' here proper others
    | true =>
      intro told le o lines
      obtain ⟨w, written⟩ := next_written upon fresh proper here upon'
      obtain ⟨blank, stands⟩ := Step.of_proper (next_step upon.stands here) proper
      obtain ⟨comment, eof, automatic⟩ := (isProper_iff _).mp proper
      rw [List.filter_cons_of_pos proper]
      exact written_cons upon upon' ⟨comment, eof, by simpa [Lexeme.isAutomatic] using automatic⟩ blank
        stands written others (tail ((next_pending s).resolve_left comment)) le o lines

end

/-! ## Round trips -/

/-- What a token means to a reader: where it stands and what blanks are before it is left out. -/
def meaning (t : Token) : TokenKind × Bytes := (t.kind, t.literal)

/-- Tokens that are read off a text are known characters. -/
theorem rereads_of_lexAt {o : Origin} {text : Bytes} {ts : List Token} (read : lexAt o text = .ok ts) :
    ∃ cs, Rereads ts cs ∧ ∀ c ∈ cs, IsPlain c := by
  obtain ⟨ls, lines, reads, masked, rfl⟩ := reads_of_lexAt read
  have first : Masked text (ofText text).faults := fun f noted => by
    obtain ⟨l, member, fault⟩ := reads.head (f := f) noted
    exact masked l member f fault
  obtain ⟨stands, clear, fresh⟩ := ofText_clear first
  obtain ⟨X, upon⟩ := over_of_reads reads stands clear masked
  obtain ⟨written, -⟩ := written_of_reads reads (X := X) upon fresh masked
  obtain ⟨X', rereads, plain, -⟩ := written 0 (Nat.zero_le _)
    { o with base := o.base.filter Position.isValid } lines
  exact ⟨X', rereads, plain⟩

/-- Tokens of known characters are read again where they are written out. -/
theorem Rereads.lexAt {ts : List Token} {cs : List Char} (h : Rereads ts cs)
    (plain : ∀ c ∈ cs, IsPlain c) (o : Origin) :
    ∃ ts', lexAt o (renderTokens ts) = .ok ts' ∧ ts'.map meaning = ts.map meaning ∧
      (ts'.map (·.gap)).tail = (ts.map (·.gap)).tail := by
  cases h with
  | nil =>
    obtain ⟨ts', read', same⟩ := lexAt_of_rereads .nil (by simp) o
    obtain rfl : ts' = [] := by simpa using same
    exact ⟨[], read', rfl, rfl⟩
  | @cons t ts w Y starts spelt token rest =>
    -- The gap before the first token is not written.
    have first : Rereads ({ t with gap := .none } :: ts) (w ++ Y) := .cons starts spelt token rest
    obtain ⟨ts', read', same⟩ := lexAt_of_rereads first
      (fun c member => plain c (List.mem_append_right _ member)) o
    have told : renderTokens (t :: ts) = Text.encode (w ++ Y) := by
      rw [renderTokens, Text.encode_append, spelt, rest.encode]
    refine ⟨ts', told ▸ read', ?_, ?_⟩
    · have := congrArg (List.map fun s => (s.1, s.2.1)) same
      rw [List.map_map, List.map_map] at this
      exact this
    · have := congrArg (fun l => (l.map fun s => s.2.2).tail) same
      simpa [shape, Function.comp_def] using this

/-- Tokens that are read off a text are read again where they are written out: their number, kinds and
literals are the same, and so are all gaps but the first one. -/
theorem lexAt_renderTokens {o : Origin} {text : Bytes} {ts : List Token} (read : lexAt o text = .ok ts)
    (o' : Origin) :
    ∃ ts', lexAt o' (renderTokens ts) = .ok ts' ∧
      ts'.map (fun t => (t.kind, t.literal)) = ts.map (fun t => (t.kind, t.literal)) ∧
      (ts'.map (·.gap)).tail = (ts.map (·.gap)).tail := by
  obtain ⟨cs, rereads, plain⟩ := rereads_of_lexAt read
  exact rereads.lexAt plain o'

/-- A carriage return in a raw string is gone when the token is written out, and the tabulator behind it
becomes a space. -/
theorem lexAt_renderTokens_rawString :
    ∃ ts, lexAt { file := "raw.sgo" } [0x60, 0x0D, 0x60, 0x09, 0x3F, 0x3A] = .ok ts ∧
      ∃ ts', lexAt { file := "raw.sgo" } (renderTokens ts) = .ok ts' ∧
        ts'.map (fun t => (t.kind, t.literal)) = [(.string, [0x60, 0x60]), (.elvis, [0x3F, 0x3A])] ∧
        (ts'.map (·.gap)).tail = [.space] := by
  have read : lexAt { file := "raw.sgo" } [0x60, 0x0D, 0x60, 0x09, 0x3F, 0x3A] =
      .ok [⟨.string, [0x60, 0x60], ⟨⟨"raw.sgo", 1, 1, 0⟩, ⟨"raw.sgo", 1, 3, 2⟩⟩, .none⟩,
        ⟨.elvis, [0x3F, 0x3A], ⟨⟨"raw.sgo", 1, 5, 4⟩, ⟨"raw.sgo", 1, 7, 6⟩⟩, .space⟩] :=
    eq_ok_of_toOption (by decide +kernel)
  exact ⟨_, read, lexAt_renderTokens read { file := "raw.sgo" }⟩

end Desugar.Lexer

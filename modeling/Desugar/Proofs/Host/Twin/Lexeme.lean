import Desugar.Proofs.Host.Operator
import Desugar.Proofs.Host.Twin.Number
import Desugar.Proofs.Host.Twin.Quoted

/-!
# Lexemes are told by their own characters

A lexeme that is read up to what stands behind it in one text, without faults of account, is read from the
same characters in every other text, whatever stands before them, if the text goes on behind them in the
same way or with something idle.
-/
namespace Desugar.Host

open Reader

section
variable {text : Bytes} {r : Reader} {cs : List Char}

theorem Reader.Over.forget (h : r.Over text cs) : ({ r with faults := [] } : Reader).Over text cs :=
  ⟨⟨h.stands.rest, h.stands.size, h.stands.bound⟩, h.front, h.plain⟩

theorem Reader.Over.skip {u : List Char} (h : r.Over text (u ++ cs)) :
    (Scan.skip u.length r).Over text cs ∧ (Scan.skip u.length r).faults = r.faults := by
  induction u generalizing r with
  | nil => exact ⟨h, rfl⟩
  | cons c u ih =>
    obtain ⟨upon, faults, -⟩ := h.next
    obtain ⟨there, kept⟩ := ih upon
    exact ⟨there, kept.trans faults⟩

theorem skipWhile_go {p : Char → Bool} {c : Char} (char : r.char? = some c) :
    r.skipWhile p = if p c then r.next.skipWhile p else r := by
  rw [Reader.skipWhile]
  split
  · rename_i x same
    rw [char] at same
    cases same
    rfl
  · rename_i absent
    rw [char] at absent
    cases absent

theorem skipWhile_stop {p : Char → Bool} (stop : r.char?.any p = false) : r.skipWhile p = r := by
  cases char : r.char? with
  | none =>
    rw [Reader.skipWhile]
    split
    · rename_i found
      rw [char] at found
      cases found
    · rfl
  | some c =>
    rw [char] at stop
    rw [skipWhile_go char, if_neg (by simpa using stop)]

/-- Two ends of one list are the same if they take the same number of bytes. -/
theorem append_cancel_length {u v X Y : List Char} (same : u ++ X = v ++ Y)
    (length : (Text.encode X).length = (Text.encode Y).length) : u = v ∧ X = Y := by
  have empty {z : List Char} (h : (Text.encode z).length = 0) : z = [] := by
    cases z with
    | nil => rfl
    | cons c z =>
      have := Text.length_encodeChar_pos c
      simp only [Text.encode_cons, List.length_append] at h
      omega
  rcases List.append_eq_append_iff.mp same with ⟨z, rfl, rfl⟩ | ⟨z, rfl, rfl⟩
  · simp only [Text.encode_append, List.length_append] at length
    obtain rfl := empty (z := z) (by omega)
    simp
  · simp only [Text.encode_append, List.length_append] at length
    obtain rfl := empty (z := z) (by omega)
    simp

end

namespace Twin

variable {S : Setting} {w v : List Char} {r r' start start' : Reader}

/-- Skipping stops at the same place in both texts. -/
theorem skipWhile (t : Twin S w r r') (goes : GoesOn S.behind S.behind') (p : Char → Bool)
    (calm : ∀ x ∈ idle, x.any p = false) (left : S.size ≤ (r.skipWhile p).rest.length) :
    ∃ v, Twin S v (r.skipWhile p) (r'.skipWhile p) := by
  fun_induction Reader.skipWhile p r generalizing w r' with
  | case1 r c char pass ih =>
    obtain ⟨v, rfl, twin, char'⟩ := t.cons char (Nat.le_trans left (skipWhile_rest_length _ _))
    rw [skipWhile_go char', if_pos pass]
    exact ih twin left
  | case2 r c char stop =>
    refine ⟨w, ?_⟩
    rw [skipWhile_stop (t.stops goes (·.any p) calm (by simp [char, stop]))]
    exact t
  | case3 r char =>
    refine ⟨w, ?_⟩
    rw [skipWhile_stop (t.stops goes (·.any p) calm (by simp [char]))]
    exact t

theorem eq_nil (t : Twin S w r r') (full : r.rest.length = S.size) : w = [] := by
  cases w with
  | nil => rfl
  | cons c w =>
    have length := t.length
    have := Text.length_encodeChar_pos c
    simp only [Text.encode_cons, List.length_append] at length
    omega

/-- Faults that are of no account in the first text are of none in the second one. -/
theorem masked (first : Twin S w start start') (t : Twin S [] r r') (here : start.offset = S.start)
    (there : start'.offset = S.start') (goes : GoesOn S.behind S.behind')
    (masked : Masked S.text r.faults) : Masked S.text' r'.faults := by
  intro f' noted
  obtain ⟨f, member, apart⟩ : ∃ f ∈ r.faults, f.offset + S.start' = f'.offset + S.start := by
    have mapped := List.mem_map_of_mem (f := fun f => f.offset + S.start) noted
    rw [t.faults, List.mem_map] at mapped
    exact mapped
  obtain ⟨after, upTo⟩ := t.within f member
  have mark := masked f member
  have length := first.length
  have whole := first.left.stands.length_rest
  have whole' := t.left.stands.length_rest
  have length' := t.length
  simp only [Text.encode_nil, List.length_nil, Nat.zero_add] at length'
  have moved := t.apart
  rcases Nat.lt_or_ge f.offset r.offset with inside | outside
  · -- The byte is one of those that both texts have in common.
    have byte := first.left.byte (k := f.offset - S.start) (by omega)
    have byte' := first.right.byte (k := f.offset - S.start) (by omega)
    have place : start.offset + (f.offset - S.start) = f.offset := by omega
    have place' : start'.offset + (f.offset - S.start) = f'.offset := by omega
    rw [place] at byte
    rw [place'] at byte'
    rw [byte', ← byte, mark]
  · have place : f.offset = r.offset := by omega
    have place' : f'.offset = r'.offset := by omega
    rw [place] at mark
    have char := t.left.stands.char_of_byte mark (by decide)
    rw [t.left.char?, List.nil_append] at char
    have char' : r'.char? = some '?' := by
      rw [t.right.char?, List.nil_append]
      rcases goes.head with same | ⟨-, other⟩
      · rw [same, char]
        rfl
      · exact absurd char other
    rw [place']
    exact (t.right.stands.next_of_ascii char' (by decide)).1

end Twin

namespace Scan

/-- What a reading gives that takes the characters before `X`. -/
structure Gives (text : Bytes) (X : List Char) (kind : Kind) (literal : Bytes) (s : State)
    (start : Reader) (out : Lexeme × State) : Prop where
  kind : out.1.kind = kind
  literal : out.1.literal = literal
  offset : out.1.offset = start.offset
  upon : out.2.reader.Over text X
  fresh : out.2.reader.faults = []
  pending : out.2.pending = s.pending
  masked : Masked text out.1.faults

/-- Before the characters `X`, the characters `w` are one lexeme in every text. -/
def LexesAs (w X : List Char) (kind : Kind) (literal : Bytes) : Prop :=
  ∀ (text : Bytes) (s : State) (start : Reader) (c : Char), w.head? = some c →
    start.Over text (w ++ X) → start.faults = [] →
      Gives text X kind literal s start (lexeme s start c)

variable {S : Setting} {w v : List Char} {r r' start start' : Reader}

/-- What is handed over behind readers that stand where the characters end. -/
theorem gives_of_twin (first : Twin S w start start') (here : start.offset = S.start)
    (there : start'.offset = S.start') (goes : GoesOn S.behind S.behind') (t : Twin S v r r')
    (full : r.rest.length = S.size) (masked : Masked S.text r.faults) (s : State) (kind : Kind)
    (literal : Bytes) (ends : Bool) :
    Gives S.text' S.behind' kind literal s start'
      (emit s r' kind start'.offset literal ends) := by
  obtain rfl := t.eq_nil full
  exact ⟨rfl, rfl, rfl, t.right.forget, rfl, rfl,
    fun f noted => first.masked t here there goes masked f (List.mem_reverse.mp noted)⟩

/-- A digit is told by its byte. -/
theorem digit_head (cs : List Char) :
    (0x30 ≤ ((Text.encode cs).head?).getD 0 && ((Text.encode cs).head?).getD 0 ≤ 0x39) =
      cs.head?.any isDecimal := by
  cases cs with
  | nil => rfl
  | cons c cs =>
    rw [Bool.eq_iff_iff]
    simp only [List.head?_cons, Option.any_some, isDecimal, Bool.and_eq_true, decide_eq_true_eq,
      UInt8.le_iff_toNat_le, Char.le_def, UInt32.le_iff_toNat_le]
    by_cases one : c.toNat < 0x80
    · rw [Text.encode_cons, Text.encode_ascii one]
      simp [Text.toNat_ofNat_of_lt (n := c.toNat) (by omega)]
    · obtain ⟨b, tail, bytes, -⟩ := Text.decodeCons_encode c []
      have large : 0x80 ≤ b.toNat := Text.le_of_mem_encode (Nat.le_of_not_lt one) (by simp [bytes])
      rw [Text.encode_cons, bytes]
      simp only [List.cons_append, List.head?_cons, Option.getD_some]
      constructor
      · rintro ⟨-, le⟩
        have : b.toNat ≤ 0x39 := le
        omega
      · rintro ⟨-, le⟩
        have : c.toNat ≤ 0x39 := le
        omega

/-- An operator is read from its own characters. -/
theorem operator_gives {text : Bytes} {X : List Char} {start : Reader} (h : start.Over text (w ++ X))
    (fresh : start.faults = []) {kind : Kind}
    (found : operator? (Text.encode (w ++ X)) = some (w.length, kind)) (s : State) :
    Gives text X kind (if kind = .semicolon then [0x3B] else []) s start (symbol s start) := by
  obtain ⟨m, length⟩ := Nat.exists_eq_succ_of_ne_zero (Nat.ne_of_gt (operator?_eq_some found).pos)
  obtain ⟨upon, faults⟩ := h.skip
  rw [length] at upon faults
  unfold symbol
  rw [h.front, found, length]
  exact ⟨rfl, rfl, rfl, upon.forget, rfl, rfl, by
    intro f noted
    have silent : (skip m start.next).faults = [] := faults.trans fresh
    simp [emit, silent] at noted⟩

/-- No operator begins with a question mark. -/
theorem question_not_operator : ∀ q ∈ Kind.operators, (word q).head? ∉ [none, some '?'] := by decide

/-- A question mark is an illegal character of its own, with a fault of no account. -/
theorem question_gives {text : Bytes} {X : List Char} {start : Reader} (h : start.Over text ('?' :: X))
    (fresh : start.faults = []) (s : State) :
    Gives text X .illegal [0x3F] s start (symbol s start) := by
  have absent : operator? (Text.encode ('?' :: X)) = none := by
    refine operator?_eq_none fun q known front => question_not_operator q known ?_
    cases spelt : word q with
    | nil => simp
    | cons x u =>
      rw [spelt, List.cons_prefix_cons] at front
      simp [front.1]
  obtain ⟨upon, faults, -⟩ := h.next
  unfold symbol
  rw [h.front, absent, h.char?]
  refine ⟨rfl, rfl, rfl, (upon.fault _ _).forget, rfl, rfl, ?_⟩
  intro f noted
  obtain rfl : f = ⟨start.offset, .illegalCharacter '?'⟩ := by
    simpa [emit, Reader.fault, faults, fresh] using noted
  exact (h.stands.next_of_ascii h.char? (by decide)).1

/-- Only a question mark begins no lexeme and has no fault of account. -/
theorem question_of_masked {text : Bytes} {c : Char} {cs : List Char} (h : r.Over text (c :: cs))
    (s : State) (absent : operator? (Text.encode (c :: cs)) = none)
    (masked : Masked text (symbol s r).1.faults) : c = '?' := by
  have known : c ≠ '\uFEFF' := (h.plain c List.mem_cons_self).2
  have noted (f : Fault) (mark : Masked text (r.next.fault r.offset f).faults.reverse) : c = '?' := by
    have byte := mark _ (List.mem_reverse.mpr List.mem_cons_self)
    have char := h.stands.char_of_byte byte (by decide)
    rw [h.char?] at char
    exact Option.some.inj char
  have char : r.char? = some c := h.char?
  unfold symbol at masked
  rw [h.front, absent] at masked
  simp only [char, Option.getD_some] at masked
  split at masked
  · rename_i mark
    exact absurd (beq_iff_eq.mp mark) known
  split at masked
  · exact noted _ masked
  · exact noted _ masked

/-- A digit behind a point is told by the character there. -/
theorem peek_digit {text : Bytes} (cs : List Char) (h : r.Over text ('.' :: cs)) :
    (0x30 ≤ r.peek && r.peek ≤ 0x39) = cs.head?.any isDecimal := by
  rw [h.peek (by decide)]
  exact digit_head cs

theorem symbol_twin (s s' : State) {c : Char} (first : Twin S (c :: w) start start')
    (fresh : start.faults = []) (fresh' : start'.faults = []) (goes : GoesOn S.behind S.behind')
    (masked : Masked S.text (symbol s start).1.faults)
    (full : (symbol s start).2.reader.rest.length = S.size) :
    Gives S.text' S.behind' (symbol s start).1.kind (symbol s start).1.literal s' start'
      (symbol s' start') := by
  cases found : operator? (Text.encode (c :: w ++ S.behind)) with
  | some e =>
    obtain ⟨n, kind⟩ := e
    obtain ⟨p, -, -, rfl, ⟨Y, split⟩, -⟩ := operator?_longest found
    have gives := operator_gives (split ▸ first.left) fresh (split ▸ found) s
    rw [gives.upon.front] at full
    obtain ⟨spelt, rfl⟩ := append_cancel_length split full
    rw [spelt] at found
    rw [gives.kind, gives.literal]
    exact operator_gives first.right fresh' (operator?_goesOn goes found) s'
  | none =>
    obtain rfl := question_of_masked first.left s found masked
    have gives := question_gives first.left fresh s
    have length : (Text.encode (w ++ S.behind)).length = S.size := by
      rw [← full, gives.upon.front]
      rfl
    obtain rfl := first.next.eq_nil (by rw [first.next.left.front, length])
    rw [gives.kind, gives.literal]
    exact question_gives first.right fresh' s'

/-- A number that starts with a point takes the digit behind it. -/
theorem number_point (start : Reader) {d : Char} (point : start.sees '.' = true)
    (char : start.next.char? = some d) (digit : isDecimal d = true) :
    (number start).1.rest.length ≤ start.next.next.rest.length := by
  have forward := next_rest_length_lt char
  have whole : wholePart start = (start, .illegal, 10, .decimal, ⟨false, false, none⟩) := by
    unfold wholePart
    rw [if_pos point]
  have shorter : (fraction 10 .decimal start .illegal ⟨false, false, none⟩).1.rest.length ≤
      start.next.next.rest.length := by
    unfold fraction
    rw [if_pos point]
    have separator : ¬ (d == '_') = true := by
      intro same
      rw [beq_iff_eq.mp same] at digit
      exact absurd digit (by decide)
    have run := digits_go 10 char ⟨false, false, none⟩
    rw [if_neg separator, if_pos (by decide), if_pos digit] at run
    have decimal : (if (Radix.decimal = .octal || Radix.decimal = .binary) = true then
        start.fault start.offset (.radixPoint .decimal) else start) = start := if_neg (by decide)
    dsimp only
    rw [decimal, run]
    exact digits_rest_length _ _ _
  rw [number_eq]
  dsimp only
  rw [checkDigits_rest]
  refine Nat.le_trans (imaginary_rest_length _ _) (Nat.le_trans (exponent_rest_length _ _ _ _) ?_)
  unfold mantissa
  rw [whole]
  dsimp only
  rw [Twin.rest_faultUnless]
  exact shorter

/-- Whether a number starts is told by its characters. -/
theorem startsNumber_twin {c : Char} (first : Twin S (c :: w) start start')
    (goes : GoesOn S.behind S.behind')
    (left : c = '.' → start.next.char?.any isDecimal = true → S.size ≤ start.next.next.rest.length) :
    (isDecimal c || c == '.' && 0x30 ≤ start'.peek && start'.peek ≤ 0x39) =
      (isDecimal c || c == '.' && 0x30 ≤ start.peek && start.peek ≤ 0x39) := by
  by_cases point : c = '.'
  · subst point
    have agree := (first.next.agrees goes (·.any isDecimal) (by decide) (left rfl)).1
    rw [first.next.left.char?, first.next.right.char?,
      ← peek_digit (w ++ S.behind) first.left,
      ← peek_digit (w ++ S.behind') first.right] at agree
    rw [Bool.and_assoc, Bool.and_assoc, agree]
  · have other : (c == '.') = false := beq_eq_false_iff_ne.mpr point
    simp only [other, Bool.false_and]

/-- A lexeme other than a raw string is read the same in both texts. -/
theorem lexeme_twin (s s' : State) {c : Char} (first : Twin S (c :: w) start start')
    (here : start.offset = S.start) (there : start'.offset = S.start') (fresh : start.faults = [])
    (fresh' : start'.faults = []) (goes : GoesOn S.behind S.behind')
    (masked : Masked S.text (lexeme s start c).1.faults)
    (full : (lexeme s start c).2.reader.rest.length = S.size)
    (proper : (lexeme s start c).1.kind ≠ .comment ∧ (lexeme s start c).1.isAutomatic = false)
    (quote : c ≠ Char.ofNat 0x60)
    (closes : c = '\'' → runeRest? (w ++ S.behind) = some S.behind ∨
      S.behind'.head? ∈ [none, some '\n']) :
    Gives S.text' S.behind' (lexeme s start c).1.kind (lexeme s start c).1.literal s' start'
      (lexeme s' start' c) := by
  obtain ⟨char, char'⟩ := first.char
  have emitted {v : List Char} {r r' : Reader} (kind : Kind) (ends : Bool) (t : Twin S v r r')
      (full : r.rest.length = S.size) (masked : Masked S.text r.faults.reverse) :
      Gives S.text' S.behind' kind (between start r) s' start'
        (emit s' r' kind start'.offset (between start r) ends) :=
    gives_of_twin first here there goes t full
      (fun f noted => masked f (List.mem_reverse.mpr noted)) s' kind _ ends
  unfold lexeme at masked full proper ⊢
  by_cases letter : isLetter c = true
  · rw [if_pos letter] at masked full ⊢
    rw [if_pos letter]
    obtain ⟨v, twin⟩ := first.skipWhile goes isWordChar (by decide) (Nat.le_of_eq full.symm)
    dsimp only
    rw [first.between_eq twin]
    exact emitted _ _ twin full masked
  rw [if_neg letter] at masked full proper ⊢
  rw [if_neg letter]
  have starts := startsNumber_twin first goes (by
    rintro rfl isDigit
    cases behind : start.next.char? with
    | none =>
      rw [behind] at isDigit
      cases isDigit
    | some d =>
      have digit : isDecimal d = true := by rwa [behind] at isDigit
      have peek := peek_digit (w ++ S.behind) first.left
      rw [← first.next.left.char?, isDigit] at peek
      rw [if_pos (by rw [Bool.and_assoc, peek]; decide)] at full
      have point : start.sees '.' = true := by rw [sees, char]; decide
      rw [← full]
      exact number_point start point behind digit)
  rw [starts]
  by_cases digit : (isDecimal c || c == '.' && 0x30 ≤ start.peek && start.peek ≤ 0x39) = true
  · rw [if_pos digit] at masked full ⊢
    rw [if_pos digit]
    obtain ⟨⟨v, twin⟩, same⟩ := number_twin first goes here there (Nat.le_of_eq full.symm)
    generalize number start = out at *
    generalize number start' = out' at *
    obtain ⟨q, kind, literal⟩ := out
    obtain ⟨q', told⟩ := out'
    obtain rfl : told = (kind, literal) := same
    exact gives_of_twin first here there goes twin full
      (fun f noted => masked f (List.mem_reverse.mpr noted)) s' kind literal true
  rw [if_neg digit] at masked full proper ⊢
  rw [if_neg digit]
  by_cases newline : (c == '\n') = true
  · rw [if_pos newline] at proper
    exact absurd proper.2 (by simp [automatic, emit, Lexeme.isAutomatic])
  rw [if_neg newline] at masked full proper ⊢
  rw [if_neg newline]
  by_cases double : (c == '"') = true
  · rw [if_pos double] at masked full ⊢
    rw [if_pos double]
    have string : c = '"' := by simpa using double
    have closed : ⟨S.start, .openString⟩ ∉ (stringBody S.start start.next).faults := by
      intro noted
      rw [← here] at noted
      have mark := not_masked masked noted (first.left.stands.next_of_ascii char (by rw [string]; decide)).1
      rw [string] at mark
      exact absurd mark (by decide)
    obtain ⟨v, twin⟩ := stringBody_twin first.next closed (by rw [← here]; exact Nat.le_of_eq full.symm)
    rw [← here, ← there] at twin
    dsimp only
    rw [first.between_eq twin]
    exact emitted _ _ twin full masked
  rw [if_neg double] at masked full proper ⊢
  rw [if_neg double]
  by_cases single : (c == '\'') = true
  · rw [if_pos single] at masked full ⊢
    rw [if_pos single]
    obtain ⟨v, twin⟩ := runeBody_twin first.next 0 true
      (by rw [← here]; exact fun f noted => masked f (List.mem_reverse.mpr noted))
      (closes (by simpa using single)) (by rw [← here]; exact Nat.le_of_eq full.symm)
    rw [← here, ← there] at twin
    dsimp only
    rw [first.between_eq twin]
    exact emitted _ _ twin full masked
  rw [if_neg single] at masked full proper ⊢
  rw [if_neg single]
  have other : ¬ (c == Char.ofNat 0x60) = true := by simpa using quote
  rw [if_neg other] at masked full proper ⊢
  rw [if_neg other]
  by_cases slash : (c == '/' && (start.next.sees '/' || start.next.sees '*')) = true
  · rw [if_pos slash] at proper
    exact absurd (comment_fields s start).1 proper.1
  rw [if_neg slash] at masked full ⊢
  have slash' : ¬ (c == '/' && (start'.next.sees '/' || start'.next.sees '*')) = true := by
    cases isSlash : (c == '/') with
    | false => simp
    | true =>
      rw [isSlash, Bool.true_and, Bool.not_eq_true] at slash
      rw [Bool.true_and, Bool.not_eq_true]
      exact first.next.stops goes (fun x => x == some '/' || x == some '*') (by decide) slash
  rw [if_neg slash']
  exact symbol_twin s s' first fresh fresh' goes masked full

/-- What is read without faults of account before `X` is read in every text before what goes on as `X`. -/
theorem lexesAs_of_lexeme {text : Bytes} {s : State} {start : Reader} {c : Char} {w X X' : List Char}
    (h : start.Over text (c :: w ++ X)) (fresh : start.faults = []) (goes : GoesOn X X')
    (masked : Masked text (lexeme s start c).1.faults)
    (stop : (lexeme s start c).2.reader.rest.length = (Text.encode X).length)
    (proper : (lexeme s start c).1.kind ≠ .comment ∧ (lexeme s start c).1.isAutomatic = false)
    (quote : c ≠ Char.ofNat 0x60)
    (closes : c = '\'' → runeRest? (w ++ X) = some X ∨ X'.head? ∈ [none, some '\n']) :
    LexesAs (c :: w) X' (lexeme s start c).1.kind (lexeme s start c).1.literal := by
  intro text' s' start' c' head h' fresh'
  obtain rfl : c = c' := Option.some.inj head
  have first : Twin ⟨text, text', X, X', start.offset, start'.offset⟩ (c :: w) start start' :=
    ⟨h, h', Nat.add_comm _ _, by simp [fresh, fresh'], by simp [fresh], Nat.le_refl _⟩
  exact lexeme_twin s s' first rfl rfl fresh fresh' goes masked stop proper quote closes

theorem rawBody_some (start : Nat) {c : Char} (char : r.char? = some c) :
    rawBody start r = if c == Char.ofNat 0x60 then r.next else rawBody start r.next := by
  rw [rawBody]
  split
  · rename_i absent
    rw [char] at absent
    cases absent
  · rename_i x same
    rw [char] at same
    cases same
    rfl

/-- A raw string is read up to its second back quote. -/
theorem rawBody_over {text : Bytes} {body X : List Char} (start : Nat)
    (h : r.Over text (body ++ Char.ofNat 0x60 :: X)) (closed : Char.ofNat 0x60 ∉ body) :
    (rawBody start r).Over text X ∧ (rawBody start r).faults = r.faults := by
  induction body generalizing r with
  | nil =>
    rw [rawBody_some start h.char?, if_pos (by decide)]
    obtain ⟨upon, faults, -⟩ := h.next
    exact ⟨upon, faults⟩
  | cons c body ih =>
    obtain ⟨other, rest⟩ := not_or.mp (mt List.mem_cons.mpr closed)
    obtain ⟨upon, faults, -⟩ := h.next
    rw [rawBody_some start h.char?, if_neg (by simpa using Ne.symm other)]
    obtain ⟨there, kept⟩ := ih upon rest
    exact ⟨there, kept.trans faults⟩

/-- The back quote of raw strings. -/
def backQuote : Char := Char.ofNat 0x60

/-- A raw string without a fault of account ends with its second back quote. -/
theorem rawBody_split {r : Reader} {cs : List Char} (h : r.Over text cs) (start : Nat) :
    ⟨start, .openRawString⟩ ∈ (rawBody start r).faults ∨
      ∃ body rest, cs = body ++ backQuote :: rest ∧ backQuote ∉ body ∧ (rawBody start r).Over text rest := by
  induction cs generalizing r with
  | nil =>
    left
    rw [rawBody]
    split
    · exact List.mem_cons_self
    · rename_i char
      rw [h.char?] at char
      cases char
  | cons c cs ih =>
    rw [rawBody_some start h.char?]
    by_cases quote : (c == Char.ofNat 0x60) = true
    · rw [if_pos quote]
      exact .inr ⟨[], cs, by rw [beq_iff_eq.mp quote]; rfl, by simp, h.next.1⟩
    · rw [if_neg quote]
      rcases ih h.next.1 with noted | ⟨body, rest, rfl, closed, upon⟩
      · exact .inl noted
      · refine .inr ⟨c :: body, rest, rfl, ?_, upon⟩
        rw [List.mem_cons, not_or]
        exact ⟨fun same => quote (beq_iff_eq.mpr same.symm), closed⟩

theorem lexeme_rune (s : State) (start : Reader) :
    lexeme s start '\'' =
      emit s (runeBody start.offset start.next 0 true) .char start.offset
        (between start (runeBody start.offset start.next 0 true)) true := by
  unfold lexeme
  rw [if_neg (by decide), if_neg (by simp [isDecimal]), if_neg (by decide), if_neg (by decide),
    if_pos (by decide)]

theorem lexeme_raw (s : State) (start : Reader) :
    lexeme s start backQuote =
      emit s (rawBody start.offset start.next) .string start.offset
        ((between start (rawBody start.offset start.next)).filter (· != 0x0D)) true := by
  unfold lexeme
  rw [if_neg (by decide), if_neg (by simp [isDecimal, backQuote]), if_neg (by decide),
    if_neg (by decide), if_neg (by decide), if_pos (by decide)]

/-- A raw string is read from its own characters, without its carriage returns. -/
theorem lexesAs_raw {body X : List Char} (closed : backQuote ∉ body) :
    LexesAs (backQuote :: body ++ [backQuote]) X .string
      ((Text.encode (backQuote :: body ++ [backQuote])).filter (· != 0x0D)) := by
  intro text s start c head h fresh
  obtain rfl : backQuote = c := Option.some.inj head
  have inner : start.next.Over text (body ++ Char.ofNat 0x60 :: X) := by
    have upon := h
    rw [List.cons_append, List.cons_append, List.append_assoc] at upon
    exact upon.next.1
  obtain ⟨there, faults⟩ := rawBody_over start.offset inner closed
  have silent : (rawBody start.offset start.next).faults = [] := by
    rw [faults, ← fresh]
    have upon := h
    rw [List.cons_append, List.cons_append] at upon
    exact upon.next.2.1
  rw [lexeme_raw, h.between there]
  exact ⟨rfl, rfl, rfl, there.forget, rfl, rfl, by
    intro f noted
    simp [emit, silent] at noted⟩

end Scan
end Desugar.Host

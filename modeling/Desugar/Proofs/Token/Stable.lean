import Mathlib.Data.List.Infix
import Desugar.Proofs.Token.RoundTrip

/-!
# Streams that are read again as they are

A stream is stable if every run of its tokens, written out, is read as the same kinds and literals. Then
each of its tokens is told by its own characters before what the stream writes behind it: nothing of two
neighbours runs together, not even into a comment.
-/
namespace Desugar.Lexer

open Host Host.Scan Host.Reader

/-- Written out, the tokens are read as tokens of the same kinds and literals. -/
def Relexes (ts : List Token) : Prop :=
  ∃ o ts', lexAt o (renderTokens ts) = .ok ts' ∧ ts'.map meaning = ts.map meaning

/-- So is every run of neighbours among them. -/
def Stable (ts : List Token) : Prop := ∀ us, us <:+: ts → Relexes us

theorem Stable.part {ts us : List Token} (h : Stable ts) (part : us <:+: ts) : Stable us :=
  fun vs part' => h vs (part'.trans part)

/-- Whether every run of neighbours is read as the tokens that it is. -/
def isStable (ts : List Token) : Bool :=
  ts.tails.all fun vs => vs.inits.all fun us =>
    match lex "" (renderTokens us) with
    | .ok us' => us'.map meaning = us.map meaning
    | .error _ => false

theorem stable_of_isStable {ts : List Token} (h : isStable ts = true) : Stable ts := by
  intro us part
  obtain ⟨vs, front, behind⟩ := List.infix_iff_prefix_suffix.mp part
  have found := List.all_eq_true.mp (List.all_eq_true.mp h vs ((List.mem_tails _ _).mpr behind)) us
    ((List.mem_inits _ _).mpr front)
  split at found
  · rename_i us' read
    exact ⟨_, us', read, of_decide_eq_true found⟩
  · cases found

variable {text : Bytes} {s : State} {w X Y : List Char} {kind : TokenKind}

/-- A single token is its own characters. -/
theorem Relexes.word {t : Token} (h : Relexes [t]) :
    ∃ w, StartsWord w ∧ Text.encode w = t.literal ∧ TokenAs w [] t.kind ∧ ∀ c ∈ w, IsPlain c := by
  obtain ⟨o, ts', read, same⟩ := h
  obtain ⟨cs, rereads, plain⟩ := rereads_of_lexAt read
  cases rereads with
  | nil => simp at same
  | @cons t' ts w X starts spelt token rest =>
    obtain ⟨alike, empty⟩ : meaning t' = meaning t ∧ ts = [] := by simpa using same
    obtain ⟨kinds, literals⟩ := Prod.mk.inj alike
    subst empty
    cases rest
    refine ⟨w, starts, spelt.trans literals, kinds ▸ token, fun c member => plain c ?_⟩
    simp [member]

/-- A raw string is one before everything. -/
theorem TokenAs.raw (h : TokenAs (backQuote :: w) X kind) (plain : ∀ c ∈ backQuote :: w ++ X, IsPlain c)
    (X' : List Char) : TokenAs (backQuote :: w) X' kind := by
  cases h with
  | plain reads proper single becomes =>
    obtain ⟨rfl, again⟩ := LexesAs.raw reads plain
    refine .plain (again X') proper single ?_
    rw [← becomes]
    exact classifyBefore_eq (by simp) _ _
  | glued same reads proper single becomes =>
    obtain ⟨rfl, rfl⟩ := List.cons.inj same
    obtain ⟨rfl, -⟩ := LexesAs.raw reads plain
    rcases (classifyBefore_glued becomes).2.1 with kind | kind <;> cases kind

/-- The first lexeme of a text, if it becomes the token of some characters before the others, makes these
characters that token. -/
theorem tokenAs_of_classify (upon : s.reader.Over text (w ++ X)) (fresh : s.reader.faults = [])
    (starts : StartsWord w) (quote : w.head? ≠ some backQuote)
    (proper : isProper (Scan.next s).1 = true) (masked : Masked text (Scan.next s).1.faults)
    (upon' : (Scan.next s).2.reader.Over text Y) {takes : Bool}
    (becomes : classify text.toArray (Scan.next s).1 = (kind, Text.encode w, takes))
    (tail : ∀ mark ∈ [':', '=', '.'], gluesTo Y mark = true → ∃ Z k literal, Y = mark :: Z ∧
      LexesAs [mark] Z k literal ∧ IsProper k literal) : TokenAs w X kind := by
  obtain ⟨c, v, -, there, next⟩ := next_split upon proper masked upon'
  obtain ⟨x, u, rfl, word⟩ := starts
  have skips : (x :: u ++ X).dropWhile (isBlank s.ends) = x :: u ++ X :=
    List.dropWhile_cons_of_neg (by simp [isBlank_eq_false word])
  obtain ⟨same, faults⟩ := upon.skipWhile (isBlank s.ends)
  rw [skips] at same
  have split : c :: v ++ Y = x :: u ++ X :=
    Text.encode_injective (there.front.symm.trans same.front)
  obtain rfl : c = x := (List.cons.inj split).1
  have other : c ≠ backQuote := fun mark => quote (congrArg some mark)
  have written := written_plain upon there (faults.trans fresh) word other next proper masked upon'
  obtain ⟨blank, stands⟩ := Step.of_proper (next_step upon.stands masked) proper
  have kinds := (isProper_iff _).mp proper
  have known : IsProper (Scan.next s).1.kind (Scan.next s).1.literal :=
    ⟨kinds.1, kinds.2.1, by simpa [Lexeme.isAutomatic] using kinds.2.2⟩
  have single : OneByte (Scan.next s).1.kind (Scan.next s).1.literal (c :: v) := fun one => by
    rw [written.spelt, (oneByte_of_standsAt stands one).1]
  have reads := written.lexes Y fun _ => .refl Y
  have classified := classify_eq upon' fun one => (oneByte_of_standsAt stands one).2
  have shape := classify_becomes stands
  rw [becomes] at classified shape
  generalize told : Text.encode (c :: u) = literal at classified shape
  cases shape with
  | plain =>
    rw [← written.spelt] at told
    obtain rfl : u = v := (List.cons.inj (Text.encode_injective told)).2
    obtain rfl : Y = X := List.append_cancel_left split
    refine .plain reads known single ?_
    rw [← classified, written.spelt]
  | @glued _ b mark told' other' isMark glue =>
    obtain ⟨-, stop⟩ := standsAt_single stands told' other'
    rw [← stop] at glue
    obtain ⟨m, isMark', blank', byte, glued⟩ := gluesTo_of_glues upon' isMark glue
    obtain ⟨Z, k, literal', rfl, mark', proper'⟩ := tail m isMark' glued
    have front : Text.encode (c :: v) = [b] := written.spelt.trans told'
    have both : c :: u = c :: v ++ [m] := by
      apply Text.encode_injective
      rw [told, Text.encode_append, front, byte]
      rfl
    obtain rfl : v = [] := by
      have length := congrArg List.length front
      cases v with
      | nil => rfl
      | cons y v =>
        have := Text.length_encodeChar_pos c
        have := Text.length_encodeChar_pos y
        simp only [Text.encode_cons, List.length_append, List.length_cons, List.length_nil] at length
        omega
    obtain rfl : u = [m] := (List.cons.inj both).2
    obtain rfl : Z = X := by simpa using split
    refine .glued rfl reads known single ?_ blank' mark' proper'
    rw [← classified, told]

/-! ## No comment begins where two tokens meet -/

theorem lexeme_comment (s : State) {start : Reader}
    (opens : (start.next.sees '/' || start.next.sees '*') = true) :
    lexeme s start '/' = comment s start := by
  unfold lexeme
  rw [if_neg (by decide), if_neg (by simp [isDecimal]), if_neg (by decide), if_neg (by decide),
    if_neg (by decide), if_neg (by decide), if_pos (by simpa using opens)]

theorem comment_pending {s : State} (ends : s.ends = false) (start : Reader) :
    (comment s start).2.pending = s.pending := by
  unfold comment
  simp only [ends, Bool.false_and, Bool.false_eq_true, if_false]
  rfl

/-- What is no comment and no newline becomes a token. -/
theorem proper_or_comment (s : State) {start : Reader} {c : Char} (newline : c ≠ '\n') :
    isProper (lexeme s start c).1 = true ∨
      (c = '/' ∧ (start.next.sees '/' || start.next.sees '*') = true) := by
  have known {l : Lexeme} (h : l.kind.isOperator = false ∧ l.kind ≠ .comment ∧ l.kind ≠ .eof) :
      isProper l = true := (isProper_iff l).mpr (proper_of_kind h.1 h.2.1 h.2.2)
  unfold lexeme
  split
  · exact .inl (known (ofWord_kind _))
  split
  · exact .inl (known (number_told start).1.kind)
  split
  · rename_i line
    exact absurd (beq_iff_eq.mp line) newline
  split
  · exact .inl (known (by simp only [emit]; decide))
  split
  · exact .inl (known (by simp only [emit]; decide))
  split
  · exact .inl (known (by simp only [emit]; decide))
  split
  · rename_i opens
    exact .inr (by simpa using opens)
  · left
    unfold symbol
    split
    · rename_i n kind found
      obtain ⟨-, comment, eof⟩ := (operator?_eq_some found).operator
      refine (isProper_iff _).mpr ⟨comment, eof, ?_⟩
      by_cases semicolon : kind = .semicolon
      · simp [emit, Lexeme.isAutomatic, semicolon]
      · exact isAutomatic_eq_false semicolon
    · exact known (by simp only [emit]; decide)

/-- A token that begins with a slash or a star goes on with marks. -/
theorem slash_operators : ∀ p ∈ Kind.operators, (word p).head? ∈ [some '/', some '*'] →
    ∀ y ∈ (word p).tail, y ∈ [':', '=', '.'] := by decide

theorem TokenAs.marks {x : Char} {v : List Char} (h : TokenAs (x :: v) X kind)
    (plain : ∀ c ∈ x :: v ++ X, IsPlain c) (slash : x ∈ ['/', '*']) : ∀ y ∈ v, y ∈ [':', '=', '.'] := by
  cases h with
  | plain reads proper single becomes =>
    obtain ⟨text, start, upon, fresh, s, gives⟩ := gives_alone reads plain
    have noComment : ¬ (x = '/' ∧ (start.next.sees '/' || start.next.sees '*') = true) := by
      rintro ⟨rfl, opens⟩
      rw [lexeme_comment s opens] at gives
      exact proper.1 (gives.kind.symm.trans (comment_fields s start).1)
    have isSymbol : lexeme s start x = symbol s start := by
      unfold lexeme
      simp only [List.mem_cons, List.not_mem_nil, or_false] at slash
      rw [if_neg (by rcases slash with rfl | rfl <;> decide),
        if_neg (by rcases slash with rfl | rfl <;> simp [isDecimal]),
        if_neg (by rcases slash with rfl | rfl <;> decide),
        if_neg (by rcases slash with rfl | rfl <;> decide),
        if_neg (by rcases slash with rfl | rfl <;> decide),
        if_neg (by rcases slash with rfl | rfl <;> decide), if_neg (by simpa using noComment)]
    rw [isSymbol] at gives
    cases found : operator? (Text.encode (x :: v ++ X)) with
    | none =>
      obtain rfl := question_of_masked upon s found gives.masked
      exact absurd slash (by decide)
    | some e =>
      obtain ⟨n, k⟩ := e
      obtain ⟨p, known, -, rfl, ⟨Y, split⟩, -⟩ := operator?_longest found
      have gives' := operator_gives (split ▸ upon) fresh (split ▸ found) s
      obtain rfl : Y = X := Text.encode_injective (gives'.upon.front.symm.trans gives.upon.front)
      have spelt : word p = x :: v := List.append_cancel_right split
      have table := slash_operators p known
      rw [spelt] at table
      refine table ?_
      simpa using slash
  | glued same _ _ _ becomes =>
    obtain ⟨rfl, rfl⟩ := List.cons.inj same
    obtain ⟨-, -, mark, isMark, glue⟩ := classifyBefore_glued becomes
    have head := (Bool.and_eq_true_iff.mp glue).1
    simp only [List.head?_cons, beq_iff_eq, Option.some.injEq] at head
    intro y member
    rw [List.mem_singleton.mp member, head]
    exact isMark

/-- Two neighbours that are read as two tokens do not open a comment. -/
theorem Relexes.noComment {t t' : Token} {x : Char} {v : List Char} (h : Relexes [t, t'])
    (first : t.literal = Text.encode ['/']) (second : t'.literal = Text.encode (x :: v))
    (touch : t'.gap = .none) (plain : ∀ c ∈ x :: v, IsPlain c) (marks : ∀ y ∈ v, y ∈ [':', '=', '.'])
    (slash : x ∈ ['/', '*']) : False := by
  obtain ⟨o, ts', read, same⟩ := h
  have told : renderTokens [t, t'] = Text.encode ('/' :: x :: v) := by
    simp only [renderTokens, renderTail, List.flatMap_cons, List.flatMap_nil, first, second, touch,
      Gap.text, List.nil_append, List.append_nil]
    rfl
  rw [told] at read
  obtain ⟨upon, fresh, offset⟩ := ofText_plain (show ∀ c ∈ '/' :: x :: v, IsPlain c from
    List.forall_mem_cons.mpr ⟨by decide, plain⟩)
  obtain ⟨ls, lines, reads, masked, rfl⟩ := reads_of_lexAt read
  generalize state : State.start o.file (Text.encode ('/' :: x :: v)) = s at reads
  have reader : s.reader = ofText (Text.encode ('/' :: x :: v)) := by rw [← state]; rfl
  have runs : s.ends = false ∧ s.pending = none := by rw [← state]; exact ⟨rfl, rfl⟩
  rw [← reader] at upon fresh offset
  have skips : s.reader.skipWhile (isBlank s.ends) = s.reader :=
    skipWhile_stop (by rw [upon.char?]; simp [isBlank])
  have opens : (s.reader.next.sees '/' || s.reader.next.sees '*') = true := by
    rw [upon.next.1.sees, upon.next.1.sees]
    simpa using slash
  have next : Scan.next s = comment s s.reader := by
    rw [next_of_char runs.2 (by rw [skips]; exact upon.char?), skips, lexeme_comment s opens]
  obtain ⟨kind, stop, noted⟩ := comment_fields s s.reader
  cases reads with
  | stop eof =>
    rw [next, kind] at eof
    cases eof
  | @step _ ls more rest =>
    have here : Masked (Text.encode ('/' :: x :: v)) (comment s s.reader).1.faults := by
      rw [← next]
      exact masked _ List.mem_cons_self
    have later := fun l member => masked l (List.mem_cons_of_mem _ member)
    -- The comment reaches up to the end of the text.
    have stops : (Scan.next s).2.reader.offset = (Text.encode ('/' :: x :: v)).length := by
      rw [next, stop]
      rcases commentBody_extent upon.stands upon.char? (by simpa using opens) with extent | noted'
      · have bytes : Text.encode ('/' :: x :: v) = 0x2F :: (Text.encode [x] ++ Text.encode v) := by
          rw [← Text.encode_append]
          rfl
        cases extent with
        | line _ _ _ stop =>
          refine stop.resolve_right fun newline => ?_
          have member := Text.mem_of_mem_encode (List.mem_of_getElem? newline) (by decide)
          have free : '\n' ∉ '/' :: x :: v := by
            simp only [List.mem_cons, not_or]
            refine ⟨by decide, ?_, fun inside => absurd (marks _ inside) (by decide)⟩
            rintro rfl
            exact absurd slash (by decide)
          exact absurd member free
        | general _ long _ closing =>
          have one : (Text.encode [x]).length = 1 := by
            simp only [List.mem_cons, List.not_mem_nil, or_false] at slash
            rcases slash with rfl | rfl <;> decide
          have last := closing.2
          rw [bytes, List.getElem?_cons, if_neg (by omega), List.getElem?_append_right (by omega)] at last
          have member := Text.mem_of_mem_encode (List.mem_of_getElem? last) (by decide)
          exact absurd (marks _ member) (by decide)
      · have mark := here _ (noted _ noted')
        rw [(upon.stands.next_of_ascii upon.char? (by decide)).1] at mark
        exact absurd mark (by decide)
    obtain ⟨Y, upon'⟩ := over_of_reads rest ((next_handedOver s).at upon.stands) (by
      obtain ⟨r, way, after, faults⟩ := next_handedOver s
      rw [after]
      refine (plain_of_reaches upon.stands way upon.characterFault? fun f noted => ?_).1
      rw [next] at faults
      exact here f (by rw [faults]; exact List.mem_reverse.mpr noted)) later
    have length := upon'.length
    obtain rfl : Y = [] := by
      cases Y with
      | nil => rfl
      | cons y Y =>
        have := Text.length_encodeChar_pos y
        simp only [Text.encode_cons (c := y), List.length_append] at length
        omega
    have behind : Stands (Text.encode ('/' :: x :: v)) (Scan.next s).2 [] := by
      refine ⟨upon', ?_, ?_⟩
      · obtain ⟨r, -, after, -⟩ := next_handedOver s
        rw [after]
      · rw [next, comment_pending runs.1, runs.2]
    obtain ⟨empty, -⟩ := reads_end behind rest
    have skipped : isProper (Scan.next s).1 = false := by
      rw [← Bool.not_eq_true, isProper_iff, next]
      exact fun proper => proper.1 kind
    rw [List.filter_cons_of_neg (by simp [skipped]), empty] at same
    cases same

/-! ## Stable streams -/

/-- The first lexeme of a text in which its first token begins at once. -/
theorem TokenAs.of_reads {o : Origin} {lines : LineTable} {ls : List Lexeme} {t : Token} {told : Nat}
    (reads : Reads s ls) (upon : s.reader.Over text (w ++ X)) (fresh : s.reader.faults = [])
    (masked : ∀ l ∈ ls, Masked text l.faults) (starts : StartsWord w)
    (quote : w.head? ≠ some backQuote) (proper : isProper (Scan.next s).1 = true)
    (first : (tokens o lines text.toArray told (ls.filter isProper)).head?.map meaning = some (meaning t))
    (spelt : Text.encode w = t.literal) : TokenAs w X t.kind := by
  have kinds := (isProper_iff _).mp proper
  cases reads with
  | stop eof => exact absurd eof kinds.2.1
  | @step _ ls more rest =>
    have here := masked _ List.mem_cons_self
    have later := fun l member => masked l (List.mem_cons_of_mem _ member)
    obtain ⟨r, way, after, faults⟩ := next_handedOver s
    have clear : Masked text r.faults := fun f noted =>
      here f (by rw [faults]; exact List.mem_reverse.mpr noted)
    have plain := (plain_of_reaches upon.stands way upon.characterFault? clear).1
    obtain ⟨Y, upon'⟩ := over_of_reads rest ((next_handedOver s).at upon.stands)
      (by rw [after]; exact plain) later
    have fresh' : (Scan.next s).2.reader.faults = [] := by rw [after]
    have pending' : (Scan.next s).2.pending = none := (next_pending s).resolve_left kinds.1
    rw [List.filter_cons_of_pos proper, tokens_cons, List.head?_cons, Option.map_some,
      Option.some.injEq] at first
    generalize classified : classify text.toArray (Scan.next s).1 = e at first
    obtain ⟨kind, literal, takes⟩ := e
    obtain ⟨rfl, rfl⟩ := Prod.mk.inj first
    refine tokenAs_of_classify upon fresh starts quote proper here upon' (spelt ▸ classified) ?_
    intro mark isMark glued
    cases rest with
    | stop eof =>
      obtain ⟨b, isMark', -, -, -, glue⟩ := glues_of_gluesTo upon' isMark glued
      exact absurd eof
        ((isProper_iff _).mp (next_of_glues upon'.stands pending' isMark' glue).1).2.1
    | @step _ ls more' rest' =>
      have here' := later _ List.mem_cons_self
      obtain ⟨r', way', after', faults'⟩ := next_handedOver (Scan.next s).2
      have clear' : Masked text r'.faults := fun f noted =>
        here' f (by rw [faults']; exact List.mem_reverse.mpr noted)
      have plain' := (plain_of_reaches upon'.stands way' upon'.characterFault? clear').1
      obtain ⟨Z, upon''⟩ := over_of_reads rest' ((next_handedOver _).at upon'.stands)
        (by rw [after']; exact plain') fun l member => later l (List.mem_cons_of_mem _ member)
      obtain ⟨split, -, proper', written⟩ := next_mark upon' upon'' fresh' pending' here' isMark glued
      have kinds' := (isProper_iff _).mp proper'
      exact ⟨Z, _, _, split, written.lexes Z fun _ => .refl Z, kinds'.1, kinds'.2.1,
        by simpa [Lexeme.isAutomatic] using kinds'.2.2⟩

/-- The first token of a stable stream is told by its own characters. -/
theorem tokenAs_of_relexes {t : Token} {ts : List Token} (whole : Relexes (t :: ts))
    (alone : TokenAs w [] t.kind) (starts : StartsWord w) (spelt : Text.encode w = t.literal)
    (rest : Rereads ts X) (plain : ∀ c ∈ w ++ X, IsPlain c)
    (apart : ∀ t' us, ts = t' :: us → Relexes [t, t']) : TokenAs w X t.kind := by
  have plain' : ∀ c ∈ w ++ [], IsPlain c := by
    rw [List.append_nil]
    exact fun c member => plain c (List.mem_append_left _ member)
  by_cases quote : w.head? = some backQuote
  · obtain ⟨v, rfl⟩ := List.head?_eq_some_iff.mp quote
    exact alone.raw plain' X
  obtain ⟨o, ts', read, same⟩ := whole
  have told : renderTokens (t :: ts) = Text.encode (w ++ X) := by
    rw [renderTokens, Text.encode_append, spelt, rest.encode]
  rw [told] at read
  obtain ⟨upon, fresh, -⟩ := ofText_plain plain
  obtain ⟨ls, lines, reads, masked, rfl⟩ := reads_of_lexAt read
  have first := congrArg List.head? same
  rw [List.head?_map, List.map_cons, List.head?_cons] at first
  generalize state : State.start o.file (Text.encode (w ++ X)) = s at reads
  have reader : s.reader = ofText (Text.encode (w ++ X)) := by rw [← state]; rfl
  have pending : s.pending = none := by rw [← state]; rfl
  rw [← reader] at upon fresh
  refine TokenAs.of_reads reads upon fresh masked starts quote ?_ first spelt
  -- Otherwise the first lexeme is a comment, and the token is a slash that the next one extends.
  obtain ⟨c, v, rfl, word⟩ := starts
  have skips : s.reader.skipWhile (isBlank s.ends) = s.reader :=
    skipWhile_stop (by rw [upon.char?]; simp [isBlank_eq_false word])
  have next : Scan.next s = lexeme s s.reader c := by
    rw [next_of_char pending (by rw [skips]; exact upon.char?), skips]
  rw [next]
  refine (proper_or_comment s (by rintro rfl; exact word (by decide))).resolve_right ?_
  rintro ⟨rfl, opens⟩
  have behind : ∃ x ∈ ['/', '*'], (v ++ X).head? = some x := by
    rw [upon.next.1.sees, upon.next.1.sees, Bool.or_eq_true, beq_iff_eq, beq_iff_eq] at opens
    rcases opens with head | head
    · exact ⟨_, by decide, head⟩
    · exact ⟨_, by decide, head⟩
  obtain ⟨x, slash, head⟩ := behind
  cases v with
  | cons y v =>
    obtain rfl : y = x := Option.some.inj head
    have := alone.marks plain' (by decide) y List.mem_cons_self
    simp only [List.mem_cons, List.not_mem_nil, or_false] at slash this
    rcases slash with rfl | rfl <;> exact absurd this (by decide)
  | nil =>
    cases rest with
    | nil => cases head
    | @cons t' us w' X' starts' spelt' token' rest' =>
      have noGap : t'.gap = .none := by
        cases gap : t'.gap with
        | none => rfl
        | space =>
          rw [gap] at head
          obtain rfl : ' ' = x := Option.some.inj head
          exact absurd slash (by decide)
        | newline =>
          rw [gap] at head
          obtain rfl : '\n' = x := Option.some.inj head
          exact absurd slash (by decide)
      obtain ⟨y, u, rfl, -⟩ := starts'
      rw [noGap] at head plain
      obtain rfl : y = x := Option.some.inj head
      have inside : ∀ c ∈ y :: u ++ X', IsPlain c := fun c member => plain c (List.mem_cons_of_mem _ member)
      exact (apart t' us rfl).noComment spelt.symm spelt'.symm noGap
        (fun c member => inside c (List.mem_append_left _ member)) (token'.marks inside slash) slash

/-- The tokens of a stable stream are told by their own characters. -/
theorem Stable.rereads {ts : List Token} (h : Stable ts) :
    ∃ cs, Rereads ts cs ∧ ∀ c ∈ cs, IsPlain c := by
  induction ts with
  | nil => exact ⟨[], .nil, by simp⟩
  | cons t ts ih =>
    obtain ⟨X, rest, plain⟩ := ih (h.part (List.suffix_cons t ts).isInfix)
    obtain ⟨w, starts, spelt, alone, inside⟩ :=
      (h [t] (List.prefix_append [t] ts).isInfix).word
    have both : ∀ c ∈ w ++ X, IsPlain c := fun c member =>
      (List.mem_append.mp member).elim (inside c) (plain c)
    have token := tokenAs_of_relexes (h _ List.infix_rfl) alone starts spelt rest both (by
      rintro t' us rfl
      exact h [t, t'] (List.prefix_append [t, t'] us).isInfix)
    refine ⟨_, .cons starts spelt token rest, fun c member => ?_⟩
    rcases List.mem_append.mp member with gap | member
    · exact gapChars_plain t.gap c gap
    · exact both c member

end Desugar.Lexer

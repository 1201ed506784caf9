import Desugar.Proofs.Token.Rereading

/-!
# Tokens before what goes on

What is one token before some characters is the same token before others that go on in the same way, or
that begin with something idle where the first ones are quiet. A word is the same word before a blank,
whatever stood there.
-/
namespace Desugar.Lexer

open Host Host.Scan Host.Reader

/-- Nothing, white space or what a comment begins with. -/
def quiet : List (Option Char) := [none, some ' ', some '\t', some '\r', some '\n', some '/']

/-- The second characters go on as the first ones do, or with something idle where those are quiet. -/
structure Continues (cs cs' : List Char) : Prop where
  head : cs'.head? = cs.head? ∨ (cs'.head? ∈ idle ∧ cs.head? ∈ quiet)
  second : ∀ c ∈ [':', '=', '.'], cs'.head? = some c →
    cs'[1]? = cs[1]? ∨ (IsStill cs[1]? ∧ IsStill cs'[1]?)

theorem isStill_of_mem {c : Option Char} (h : c ∈ idle ++ quiet) : IsStill c := by
  have still : ∀ o ∈ idle ++ quiet, o.all (fun d => d ≠ '.' && d ≠ '=' && !isDecimal d) = true := by
    simp only [List.forall_mem_append, idle, quiet, List.forall_mem_cons]
    decide
  have here := still c h
  cases c with
  | none => exact ⟨nofun, nofun, nofun⟩
  | some d =>
    simp only [Option.all_some, Bool.and_eq_true, decide_eq_true_eq, Bool.not_eq_true'] at here
    refine ⟨by simpa using here.1.1, by simpa using here.1.2, fun d' same => ?_⟩
    exact Option.some.inj same ▸ here.2

namespace Continues

variable {cs cs' : List Char}

theorem goesOn (h : Continues cs cs') : GoesOn cs cs' := by
  refine ⟨h.head.imp_right fun ⟨calm, still⟩ => ⟨calm, ?_⟩, h.second⟩
  intro question
  rw [question] at still
  exact absurd still (by decide)

/-- What follows the same character goes on as well. -/
theorem cons (h : Continues cs cs') (c : Char) : Continues (c :: cs) (c :: cs') := by
  refine ⟨.inl rfl, fun x _ _ => ?_⟩
  simp only [List.getElem?_cons_succ, ← List.head?_eq_getElem?]
  refine h.head.imp_right fun ⟨calm, still⟩ => ⟨isStill_of_mem ?_, isStill_of_mem ?_⟩
  · exact List.mem_append_right _ still
  · exact List.mem_append_left _ calm

theorem append (h : Continues cs cs') (w : List Char) : Continues (w ++ cs) (w ++ cs') := by
  induction w with
  | nil => exact h
  | cons c w ih => exact ih.cons c

/-- Behind a character that is no mark nothing more is looked at. -/
theorem of_head {c : Char} (other : c ∉ [':', '=', '.']) (cs cs' : List Char) :
    Continues (c :: cs) (c :: cs') := by
  refine ⟨.inl rfl, fun x isMark head => ?_⟩
  obtain rfl : c = x := Option.some.inj head
  exact absurd isMark other

/-- What is still makes no longer lexeme of a mark. -/
theorem mark_of_isStill {c : Option Char} (still : IsStill c) (mark : Char) :
    (if mark == '.' then c != some '.' && !(c.any isDecimal) else c != some '=') = true := by
  obtain ⟨point, equals, digit⟩ := still
  have noDigit : c.any isDecimal = false := by
    cases c with
    | none => rfl
    | some d => exact digit d rfl
  split <;> simp [point, equals, noDigit]

/-- Marks are glued in both texts or in none. -/
theorem gluesTo (h : Continues cs cs') {mark : Char} (isMark : mark ∈ [':', '=', '.']) :
    gluesTo cs' mark = gluesTo cs mark := by
  have busy : some mark ∉ idle ++ quiet := by
    revert mark
    decide
  unfold Lexer.gluesTo
  rcases h.head with same | ⟨calm, still⟩
  · rw [same]
    by_cases head : cs.head? = some mark
    · congr 1
      rcases h.second mark isMark (same.trans head) with same | ⟨still, still'⟩
      · rw [same]
      · rw [mark_of_isStill still, mark_of_isStill still']
    · rw [beq_eq_false_iff_ne.mpr head, Bool.false_and, Bool.false_and]
  · have unmarked' : cs'.head? ≠ some mark := fun head => busy (List.mem_append_left _ (head ▸ calm))
    have unmarked : cs.head? ≠ some mark := fun head => busy (List.mem_append_right _ (head ▸ still))
    rw [beq_eq_false_iff_ne.mpr unmarked', beq_eq_false_iff_ne.mpr unmarked, Bool.false_and, Bool.false_and]

theorem classifyBefore (h : Continues cs cs') (kind : Host.Kind) (literal : Bytes) :
    classifyBefore kind literal cs' = classifyBefore kind literal cs := by
  unfold Lexer.classifyBefore
  rw [h.gluesTo (by decide), h.gluesTo (by decide), h.gluesTo (by decide)]

end Continues

/-! ## Lexemes -/

/-- A character literal that is closed by a quote of its own, and not by the end of its line. -/
def IsClosed (w : List Char) : Prop := ∀ v, w = '\'' :: v → runeRest? v = some []

/-- What is read in every text is read in the text of its own characters. -/
theorem gives_alone {w X : List Char} {kind : Host.Kind} {literal : Bytes} {c : Char}
    (h : LexesAs (c :: w) X kind literal) (plain : ∀ x ∈ c :: w ++ X, IsPlain x) :
    ∃ text start, Reader.Over text (c :: w ++ X) start ∧ start.faults = [] ∧ ∃ s,
      Gives text X kind literal s start (lexeme s start c) := by
  have upon : Reader.Over (Text.encode (c :: w ++ X)) (c :: w ++ X)
      ⟨0, Text.encode (c :: w ++ X), (Text.encode (c :: w ++ X)).length, 0, []⟩ :=
    ⟨⟨rfl, rfl, Nat.zero_le _⟩, rfl, plain⟩
  exact ⟨_, _, upon, rfl, .start "" [], h _ _ _ c rfl upon rfl⟩

/-- A raw string stops at its own back quote. -/
theorem LexesAs.raw {w X : List Char} {kind : Host.Kind} {literal : Bytes}
    (h : LexesAs (backQuote :: w) X kind literal) (plain : ∀ x ∈ backQuote :: w ++ X, IsPlain x) :
    kind = .string ∧ ∀ X', LexesAs (backQuote :: w) X' kind literal := by
  obtain ⟨text, start, upon, fresh, s, gives⟩ := gives_alone h plain
  rw [lexeme_raw] at gives
  have inner : start.next.Over text (w ++ X) := upon.next.1
  rcases rawBody_split inner start.offset with noted | ⟨body, Z, split, free, upon'⟩
  · have mark := gives.masked _ (List.mem_reverse.mpr noted)
    have byte := (upon.stands.next_of_ascii upon.char? (by decide)).1
    rw [byte] at mark
    exact absurd mark (by decide)
  obtain rfl : Z = X := Text.encode_injective (upon'.front.symm.trans gives.upon.front)
  obtain ⟨rfl, -⟩ : w = body ++ [backQuote] ∧ Z = Z :=
    append_cancel_length (by rw [split, List.append_assoc]; rfl) rfl
  have read := upon.between upon'
  rw [← gives.kind, ← gives.literal]
  simp only [emit, read, true_and]
  exact fun X' => lexesAs_raw free

/-- A lexeme ends before what goes on. -/
theorem LexesAs.mono {w X X' : List Char} {kind : Host.Kind} {literal : Bytes} {c : Char}
    (h : LexesAs (c :: w) X kind literal) (plain : ∀ x ∈ c :: w ++ X, IsPlain x) (goes : GoesOn X X')
    (proper : IsProper kind literal) (closed : IsClosed (c :: w)) :
    LexesAs (c :: w) X' kind literal := by
  by_cases quote : c = backQuote
  · subst quote
    exact (LexesAs.raw h plain).2 X'
  · obtain ⟨text, start, upon, fresh, s, gives⟩ := gives_alone h plain
    rw [← gives.kind, ← gives.literal] at proper ⊢
    refine lexesAs_of_lexeme upon fresh goes gives.masked (by rw [gives.upon.front])
      ⟨proper.1, ?_⟩ quote ?_
    · have := proper.2.2
      simpa [Lexeme.isAutomatic] using this
    · rintro rfl
      exact .inl (runeRest?_append (closed w rfl) X)

/-! ## Tokens -/

/-- A token that takes the next mark along is a question mark or a star. -/
theorem classifyBefore_glued {kind : Host.Kind} {literal : Bytes} {X : List Char} {k : TokenKind}
    {spelling : Bytes} (h : classifyBefore kind literal X = (k, spelling, true)) :
    k ∈ [TokenKind.elvis, .elvisAssign, .spreadDot] ∧ (kind = .illegal ∨ kind = .mul) ∧
      ∃ mark ∈ [':', '=', '.'], gluesTo X mark = true := by
  unfold classifyBefore at h
  split at h
  · rename_i question
    simp only [Bool.and_eq_true, decide_eq_true_eq] at question
    split at h
    · rename_i glue
      obtain ⟨rfl, -⟩ := Prod.mk.inj h
      exact ⟨by decide, .inl question.1, _, by decide, glue⟩
    split at h
    · rename_i glue
      obtain ⟨rfl, -⟩ := Prod.mk.inj h
      exact ⟨by decide, .inl question.1, _, by decide, glue⟩
    · cases h
  split at h
  · rename_i star
    simp only [Bool.and_eq_true, decide_eq_true_eq] at star
    obtain ⟨rfl, -⟩ := Prod.mk.inj h
    exact ⟨by decide, .inr star.1, _, by decide, star.2⟩
  · cases h

/-- A word is what it is, whatever stands behind it. -/
theorem classifyBefore_word {kind : Host.Kind} {literal : Bytes} {X : List Char} {k : TokenKind}
    {spelling : Bytes} (h : classifyBefore kind literal X = (k, spelling, false))
    (word : k.isWordlike = true) (X' : List Char) :
    classifyBefore kind literal X' = (k, spelling, false) ∧ kind ≠ .illegal ∧
      TokenKind.ofHost kind = k := by
  unfold classifyBefore at h
  split at h
  · split at h
    · cases h
    split at h
    · cases h
    · obtain ⟨rfl, -⟩ := Prod.mk.inj h
      cases word
  split at h
  · cases h
  rename_i question star
  obtain ⟨rfl, -⟩ := Prod.mk.inj h
  have other : kind ≠ .mul := by rintro rfl; cases word
  have proper : kind ≠ .illegal := by rintro rfl; cases word
  refine ⟨?_, proper, rfl⟩
  unfold classifyBefore
  rw [if_neg question, if_neg (by simp [other])]
  exact h

/-- A character that begins no character literal. -/
theorem not_rune {X : List Char} {kind : Host.Kind} {literal : Bytes} {c : Char}
    (h : LexesAs [c] X kind literal) (plain : ∀ x ∈ [c] ++ X, IsPlain x) (other : kind ≠ .char) :
    IsClosed [c] := by
  rintro v same
  obtain ⟨rfl, -⟩ := List.cons.inj same
  obtain ⟨text, start, -, -, s, gives⟩ := gives_alone h plain
  rw [lexeme_rune] at gives
  exact absurd gives.kind.symm other

theorem TokenAs.mono {w X X' : List Char} {kind : TokenKind} (h : TokenAs w X kind)
    (starts : StartsWord w) (plain : ∀ c ∈ w ++ X, IsPlain c) (goes : Continues X X')
    (closed : IsClosed w) : TokenAs w X' kind := by
  cases h with
  | plain reads proper single becomes =>
    obtain ⟨c, v, rfl, -⟩ := starts
    exact .plain (LexesAs.mono reads plain goes.goesOn proper closed) proper single
      ((goes.classifyBefore _ _).trans becomes)
  | @glued c m k k' literal literal' same reads proper single becomes blank mark proper' =>
    subst same
    obtain ⟨-, kinds, x, isMark, glue⟩ := classifyBefore_glued becomes
    have head : m = x := by
      unfold gluesTo at glue
      simpa using (Bool.and_eq_true_iff.mp glue).1
    have plain' : ∀ x ∈ [m] ++ X, IsPlain x := fun x member => plain x (List.mem_cons_of_mem c member)
    have first : IsClosed [c] := not_rune reads plain (by rcases kinds with rfl | rfl <;> decide)
    have second : IsClosed [m] := by
      rintro v same
      obtain ⟨rfl, -⟩ := List.cons.inj same
      subst head
      exact absurd isMark (by decide)
    refine .glued rfl (LexesAs.mono reads plain (goes.cons m).goesOn proper first) proper single ?_ blank
      (LexesAs.mono mark plain' goes.goesOn proper' second) proper'
    exact ((goes.cons m).classifyBefore _ _).trans becomes

/-- A word is read before a blank if it is read before another token. -/
theorem TokenAs.beforeBlank {w X : List Char} {kind : TokenKind} (h : TokenAs w X kind)
    (starts : StartsWord w) (plain : ∀ c ∈ w ++ X, IsPlain c) (word : kind.isWordlike = true)
    (other : X.head? ≠ some '?') (closed : IsClosed w) (X' : List Char) :
    TokenAs w (' ' :: X') kind := by
  cases h with
  | plain reads proper single becomes =>
    obtain ⟨c, v, rfl, -⟩ := starts
    refine .plain (LexesAs.mono reads plain ⟨.inr ⟨by simp [idle], other⟩, ?_⟩ proper closed) proper single
      (classifyBefore_word becomes word _).1
    intro c isMark head
    obtain rfl : ' ' = c := Option.some.inj head
    exact absurd isMark (by decide)
  | glued _ _ _ _ becomes =>
    obtain ⟨kinds, -⟩ := classifyBefore_glued becomes
    simp only [List.mem_cons, List.not_mem_nil, or_false] at kinds
    rcases kinds with rfl | rfl | rfl <;> cases word

/-- No word begins with a question mark. -/
theorem TokenAs.head_ne {w X : List Char} {kind : TokenKind} (h : TokenAs w X kind)
    (plain : ∀ c ∈ w ++ X, IsPlain c) (word : kind.isWordlike = true) : w.head? ≠ some '?' := by
  intro head
  obtain ⟨v, rfl⟩ := List.head?_eq_some_iff.mp head
  cases h with
  | plain reads proper single becomes =>
    obtain ⟨text, start, upon, fresh, s, gives⟩ := gives_alone reads plain
    have kind := gives.kind
    have question : lexeme s start '?' = symbol s start :=
      lexeme_eq_symbol s (by decide) (by simp [isDecimal]) (by decide)
    rw [question, (question_gives upon fresh s).kind] at kind
    exact (classifyBefore_word becomes word X).2.1 kind.symm
  | glued _ _ _ _ becomes =>
    obtain ⟨kinds, -⟩ := classifyBefore_glued becomes
    simp only [List.mem_cons, List.not_mem_nil, or_false] at kinds
    rcases kinds with rfl | rfl | rfl <;> cases word

end Desugar.Lexer

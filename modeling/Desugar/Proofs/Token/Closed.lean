import Desugar.Form.Expression
import Desugar.Proofs.Host.Accepted
import Desugar.Proofs.Token.Continuing

/-!
# Character literals that are closed

A character literal that a mistake stands in is ended by its line if no quote ends it before. The host
accepts none of these, so there is none among the tokens that are written out as an expression.
-/
namespace Desugar

namespace Host.Scan

open Reader

variable {r : Reader} {text : Bytes}

/-- The characters of a literal that are all of it end in its quote. -/
theorem runeRest?_cancel {v X : List Char} (h : runeRest? (v ++ X) = some X) : runeRest? v = some [] := by
  have long {u : List Char} (taken : runeRest? u = some X) : X.length < u.length := runeRest?_length taken
  fun_induction runeRest? v with
  | case1 => exact absurd (long h) (Nat.lt_irrefl _)
  | case2 v =>
    have same : v ++ X = X := Option.some.inj h
    simpa using same
  | case3 v ih => exact ih h
  | case4 v ih => exact ih h
  | case5 c v quote escaped doubled ih =>
    by_cases backslash : c = '\\'
    · subst backslash
      cases v with
      | nil =>
        -- The backslash would stand before what is left, and take a character of it along.
        exfalso
        rw [List.singleton_append] at h
        cases X with
        | nil => cases h
        | cons d X =>
          by_cases free : d ≠ '\'' ∧ d ≠ '\\'
          · rw [runeRest?_escape free.1 free.2] at h
            have := runeRest?_length h
            simp at this
          · have taken : runeRest? ('\\' :: d :: X) = runeRest? X := by
              by_cases single : d = '\''
              · rw [single, runeRest?]
              · rw [not_not.mp fun other => free ⟨single, other⟩, runeRest?]
            rw [taken] at h
            have := runeRest?_length h
            simp at this
      | cons d v =>
        have free : d ≠ '\'' := by rintro rfl; exact escaped v rfl rfl
        have single : d ≠ '\\' := by rintro rfl; exact doubled v rfl rfl
        rw [List.cons_append, List.cons_append, runeRest?_escape free single] at h
        refine ih ?_
        rwa [List.cons_append, runeRest?_plain free single]
    · rw [List.cons_append, runeRest?_plain (by rintro rfl; exact quote rfl) backslash] at h
      exact ih h

theorem escapeDigits_noted {start base limit count value : Nat}
    (bad : (escapeDigits start base limit count r value).2 = false) :
    (escapeDigits start base limit count r value).1.faults ≠ [] := by
  induction count generalizing r value with
  | zero =>
    unfold escapeDigits at bad ⊢
    split at bad
    · simp [*, fault]
    · cases bad
  | succ count ih =>
    unfold escapeDigits at bad ⊢
    split at bad
    · simp [fault]
    · split at bad
      · rename_i digit
        rw [if_pos digit]
        exact ih bad
      · rename_i other
        simp [other, fault]

/-- An escape that is not well formed is a fault. -/
theorem escape_noted {mark : Char} (bad : (escape mark r).2 = false) : (escape mark r).1.faults ≠ [] := by
  revert bad
  unfold escape
  split
  · exact fun _ => by simp [fault]
  repeat' split
  · exact fun good => by cases good
  · exact escapeDigits_noted
  · exact escapeDigits_noted
  · exact escapeDigits_noted
  · exact escapeDigits_noted
  · exact fun _ => by simp [fault]

/-- A literal without a fault is closed. -/
theorem runeBody_closed {cs : List Char} (h : r.Over text cs) {start count : Nat}
    (clear : (runeBody start r count true).faults = []) :
    ∃ v, (runeBody start r count true).Over text v ∧ runeRest? cs = some v := by
  induction size : r.rest.length using Nat.strongRecOn generalizing r cs count with
  | ind n ih =>
    subst size
    by_cases stop : r.char? ∈ [none, some '\n']
    · rw [runeBody_stop stop] at clear
      exact absurd clear (by simp [runeStop, fault])
    cases cs with
    | nil => exact absurd (by simp [h.char?]) stop
    | cons c cs =>
      have char : r.char? = some c := h.char?
      have forward := next_rest_length_lt char
      rw [runeBody_some _ char (by rintro rfl; exact stop (by simp [char]))] at clear ⊢
      by_cases quote : (c == '\'') = true
      · rw [if_pos quote] at clear ⊢
        obtain rfl : c = '\'' := by simpa using quote
        refine ⟨cs, ?_, rfl⟩
        split
        · exact h.next.1.fault _ _
        · exact h.next.1
      rw [if_neg quote] at clear ⊢
      by_cases backslash : (c == '\\') = true
      · rw [if_pos backslash] at clear ⊢
        obtain rfl : c = '\\' := by simpa using backslash
        obtain ⟨u, upon, same⟩ := escape_over h.next.1
        have escaped := escape_rest_length '\'' r.next
        have good : (escape '\'' r.next).2 = true := by
          by_contra bad
          obtain ⟨f, noted⟩ := List.exists_mem_of_ne_nil _ (escape_noted (by simpa using bad))
          have kept := (reaches_runeBody start (escape '\'' r.next).1 (count + 1)
            (true && (escape '\'' r.next).2)).faults noted
          rw [clear] at kept
          cases kept
        rw [good, Bool.true_and] at clear ⊢
        obtain ⟨v, there, ends⟩ := ih _ (by omega) upon clear rfl
        exact ⟨v, there, by rwa [same]⟩
      · rw [if_neg backslash] at clear ⊢
        obtain ⟨v, there, ends⟩ := ih _ forward h.next.1 clear rfl
        refine ⟨v, there, ?_⟩
        rwa [runeRest?_plain (by simpa using quote) (by simpa using backslash)]

end Host.Scan

open Host Host.Scan

/-- The token is no character literal that is left open. -/
def Token.IsClosed (t : Token) : Prop := ∀ v, t.literal = Text.encode ('\'' :: v) → runeRest? v = some []

theorem Token.isClosed_of_head {t : Token} {w : List Char} (spelt : Text.encode w = t.literal)
    (other : w.head? ≠ some '\'') : t.IsClosed := by
  intro v quote
  rw [Text.encode_injective (spelt.trans quote)] at other
  exact absurd rfl other

theorem Token.IsClosed.word {t : Token} (h : t.IsClosed) {w : List Char} (spelt : Text.encode w = t.literal) :
    Lexer.IsClosed w := by
  rintro v rfl
  exact h v spelt.symm

namespace Lexer

variable {text : Bytes} {s : State} {ts : List Token} {cs : List Char}

/-- What a quote starts is a character literal, and it is closed if it is read without a fault. -/
theorem rune_of_readAt {v X : List Char} {kind : Host.Kind} {literal : Bytes} {l : Lexeme}
    (lexes : LexesAs ('\'' :: v) X kind literal) (found : ReadAt text ('\'' :: v) X l) :
    kind = .char ∧ (l.faults = [] → runeRest? v = some []) := by
  obtain ⟨s, start, c, head, upon, fresh, rfl⟩ := found
  obtain rfl : '\'' = c := Option.some.inj head
  have gives := lexes text s start '\'' rfl upon fresh
  rw [lexeme_rune] at gives ⊢
  refine ⟨gives.kind.symm, fun clear => ?_⟩
  have silent : (runeBody start.offset start.next 0 true).faults = [] := List.reverse_eq_nil_iff.mp clear
  obtain ⟨Y, there, closed⟩ := runeBody_closed upon.next.1 silent
  obtain rfl : Y = X := Text.encode_injective (there.front.symm.trans gives.upon.front)
  exact runeRest?_cancel closed

/-- If nothing that becomes a token has a fault, no token is left open. -/
theorem Rereads.closed (h : Rereads ts cs) (stands : Stands text s cs) {ls : List Lexeme}
    (reads : Reads s ls) (clear : ∀ l ∈ ls.filter isProper, l.faults = []) : ∀ t ∈ ts, t.IsClosed := by
  induction h generalizing s ls with
  | nil => simp
  | @cons t ts w X starts spelt token rest ih =>
    have same {v : List Char} (quote : t.literal = Text.encode ('\'' :: v)) : w = '\'' :: v :=
      Text.encode_injective (spelt.trans quote)
    cases token with
    | @plain k literal lexes proper single becomes =>
      obtain ⟨l, s', ls', filter, reads', -, -, -, stands', -, found⟩ :=
        reads_word starts lexes proper stands reads
      rw [filter] at clear
      obtain ⟨here, later⟩ := List.forall_mem_cons.mp clear
      refine List.forall_mem_cons.mpr ⟨fun v quote => ?_, ih stands' reads' later⟩
      obtain rfl := same quote
      exact (rune_of_readAt lexes found).2 here
    | @glued c m k k' literal literal' pair lexes proper single becomes blank mark proper' =>
      subst pair
      obtain ⟨l, s', ls', filter, reads', -, -, -, stands', -, found⟩ :=
        reads_word (w := [c]) (X := m :: X) (by
          obtain ⟨x, v, same, word⟩ := starts
          exact ⟨c, [], rfl, by rwa [(List.cons.inj same).1]⟩) lexes proper stands reads
      obtain ⟨l', s'', ls'', filter', reads'', -, -, -, stands'', -, -⟩ :=
        reads_word (g := .none) (w := [m]) ⟨m, [], rfl, blank⟩ mark proper' stands' reads'
      rw [filter, filter'] at clear
      obtain ⟨-, -, later⟩ := (List.forall_mem_cons.mp clear).imp_right List.forall_mem_cons.mp
      refine List.forall_mem_cons.mpr ⟨fun v quote => ?_, ih stands'' reads'' later⟩
      -- What takes the next lexeme along is a question mark or a star.
      obtain rfl := (List.cons.inj (same quote)).1
      obtain rfl := (rune_of_readAt lexes found).1
      simp [classifyBefore] at becomes

/-- No token that is written out as an expression is left open. -/
theorem Rereads.closed_of_parseExpr (h : Rereads ts cs) (plain : ∀ c ∈ cs, IsPlain c) {name : String}
    {x : Expr} (accepted : parseExpr name (Text.encode cs) = .ok x) : ∀ t ∈ ts, t.IsClosed := by
  obtain ⟨upon, fresh, -⟩ := ofText_plain plain
  exact h.closed (s := .start name (Text.encode cs)) ⟨upon, fresh, rfl⟩ (reads_scan name _) fun l member =>
    (parseExpr_orderly accepted).clear l (List.mem_of_mem_filter member)

end Lexer
end Desugar

import Mathlib
import Desugar.Host.Parse.File

/-!
# What a parse has taken

A parse takes the lexemes of a text into view one after the other. As long as no fault is noted, the
lexemes taken so far have no faults, and no exclamation mark stands directly behind a name: only an
operand may start with one, and no operand starts behind a name.
-/
namespace Desugar.Host

open Std.Do

/-- The kinds of lexemes that may name a form. -/
@[grind =]
def Kind.isName (k : Kind) : Bool := k = .ident || k = .kwMap

/-- The second lexeme is no exclamation mark behind a name. -/
def Lexeme.Follows (a b : Lexeme) : Prop := a.kind.isName = true → b.kind ≠ .not

namespace Parse

/-- A triple speaks about the runs that do not give up. -/
theorem triple_iff {α : Type} {p : Parse α} {P : State → Prop} {Q : α → State → Prop} :
    ⦃fun s => ⌜P s⌝⦄ p ⦃⇓? a t => ⌜Q a t⌝⦄ ↔ ∀ s a t, P s → p s = .ok a t → Q a t := by
  constructor
  · intro h s a t before gives
    have := h s before
    simp only [wp, PredTrans.apply, EStateM.run, gives] at this
    exact this
  · intro h s before
    simp only [wp, PredTrans.apply, EStateM.run]
    cases gives : p s with
    | ok a t => exact h s a t before gives
    | error e t => trivial

/-- The text that is parsed. -/
class Source where
  lexemes : List Lexeme
  /-- The most lexemes that may still be ahead. -/
  limit : Nat

/-- The same text, of which another number of lexemes may be ahead. -/
@[reducible]
def Source.within (src : Source) (limit : Nat) : Source := { src with limit }

/-- The lexemes that have not been in view. The end mark stays ahead when it comes into view. -/
def State.unseen (s : State) : List Lexeme := if s.kind = .eof then s.ahead.tail else s.ahead

variable [src : Source]

/-- The lexemes that have come into view, of which the last one still is. -/
structure Taken (s : State) (seen : List Lexeme) : Prop where
  whole : src.lexemes = seen ++ s.unseen
  left : s.unseen.length ≤ src.limit
  view : ∀ l ∈ seen.getLast?, l.kind = s.kind
  last : s.kind = .eof → ∃ l rest, s.ahead = l :: rest ∧ l.kind = .eof ∧ l ∈ seen
  clear : ∀ l ∈ seen, l.faults = []
  room : src.lexemes.length ≤ s.bound

/-- If no fault is noted, the lexemes taken before the one in view stand as they should. -/
def Sound (s : State) : Prop :=
  s.errors = [] → ∃ seen, Taken s seen ∧ seen.dropLast.IsChain Lexeme.Follows

/-- The lexeme in view stands as it should, too. -/
def Settled (s : State) : Prop := s.errors = [] → ∃ seen, Taken s seen ∧ seen.IsChain Lexeme.Follows

/-- Settled, where any number of lexemes may be ahead. -/
def SettledWithin (limit : Nat) (s : State) : Prop := @Settled (src.within limit) s

/-- One lexeme more may be ahead before the one in view is passed, unless that is the end mark. -/
def Due (s : State) : Prop := SettledWithin (src.limit + 1) s ∧ (s.kind = .eof → Settled s)

/-- What holds behind a lexeme of a kind. -/
@[grind =]
def Behind (k : Kind) (es : List SyntaxError) (t : State) : Prop :=
  Sound t ∧ (k.isName = false → Settled t) ∧ (es ≠ [] → t.errors ≠ [])

section

variable {s t : State}

@[grind →]
theorem Settled.sound (h : Settled s) : Sound s := fun clean =>
  let ⟨seen, taken, chain⟩ := h clean
  ⟨seen, taken, chain.prefix seen.dropLast_prefix⟩

/-- Whatever is no exclamation mark may stand anywhere. -/
@[grind →]
theorem Sound.settled (h : Sound s) (other : s.kind ≠ .not) : Settled s := by
  intro clean
  obtain ⟨seen, taken, chain⟩ := h clean
  refine ⟨seen, taken, ?_⟩
  rcases seen.eq_nil_or_concat with rfl | ⟨before, l, rfl⟩
  · exact .nil
  rw [List.concat_eq_append, List.dropLast_concat] at chain
  have view := taken.view l (by simp)
  rw [List.concat_eq_append, List.isChain_append]
  refine ⟨chain, .singleton l, fun a _ b found => ?_⟩
  obtain rfl : l = b := by simpa using found
  exact fun _ => view ▸ other

@[grind ←]
theorem Settled.of_errors (noted : s.errors ≠ []) : Settled s := fun clean => absurd clean noted

/-- Only the lexemes, the kind in view, the bound and the faults matter. -/
@[grind =]
theorem settled_update {lines keepComments errorCount pos literal leadComment lineComment comments imports
    syncPos syncCount level inRhs} :
    Settled { s with
      lines, keepComments, errorCount, pos, literal, leadComment, lineComment, comments, imports, syncPos
      syncCount, level, inRhs } ↔ Settled s :=
  ⟨fun h clean => let ⟨seen, ⟨a, b, c, d, e, f⟩, chain⟩ := h clean; ⟨seen, ⟨a, b, c, d, e, f⟩, chain⟩,
    fun h clean => let ⟨seen, ⟨a, b, c, d, e, f⟩, chain⟩ := h clean; ⟨seen, ⟨a, b, c, d, e, f⟩, chain⟩⟩

@[grind =]
theorem sound_update {lines keepComments errorCount pos literal leadComment lineComment comments imports
    syncPos syncCount level inRhs} :
    Sound { s with
      lines, keepComments, errorCount, pos, literal, leadComment, lineComment, comments, imports, syncPos
      syncCount, level, inRhs } ↔ Sound s :=
  ⟨fun h clean => let ⟨seen, ⟨a, b, c, d, e, f⟩, chain⟩ := h clean; ⟨seen, ⟨a, b, c, d, e, f⟩, chain⟩,
    fun h clean => let ⟨seen, ⟨a, b, c, d, e, f⟩, chain⟩ := h clean; ⟨seen, ⟨a, b, c, d, e, f⟩, chain⟩⟩

/-- Another lexeme is taken, unless the end mark is in view. -/
theorem Taken.shift {seen : List Lexeme} (h : @Taken (src.within (src.limit + 1)) s seen)
    (more : s.kind = .eof → s.unseen.length ≤ src.limit) (taken : shift s = .ok () t) (clean : t.errors = []) :
    Taken t seen ∨ ∃ l, Taken t (seen ++ [l]) := by
  obtain ⟨whole, left, view, last, clear, room⟩ := h
  change s.unseen.length ≤ src.limit + 1 at left
  cases taken
  dsimp only at clean ⊢
  split at clean
  · rename_i empty
    refine .inl ⟨whole, ?_, view, last, clear, room⟩
    have : s.unseen = [] := by simp [State.unseen, empty]
    simp [this]
  rename_i l rest front
  obtain ⟨quiet, -⟩ := List.append_eq_nil_iff.mp clean
  have quiet : l.faults = [] := by simpa using quiet
  have others {t : State} (ahead : t.ahead = if l.kind = .eof then s.ahead else rest) (kind : t.kind = l.kind) :
      t.unseen = rest := by
    by_cases eof : l.kind = .eof <;> simp [State.unseen, ahead, kind, eof, front]
  simp only [front]
  by_cases eof : s.kind = .eof
  · -- The end mark stays in view.
    obtain ⟨l', rest', front', isEof, member⟩ := last eof
    obtain ⟨rfl, rfl⟩ := List.cons.inj (front.symm.trans front')
    have unseen : s.unseen = rest := by simp [State.unseen, eof, front]
    refine .inl ⟨?_, ?_, fun x found => ?_, fun _ => ⟨l, rest, by simp [isEof], isEof, member⟩, clear, room⟩
    · rw [others (by rw [front]) rfl, ← unseen]
      exact whole
    · rw [others (by rw [front]) rfl, ← unseen]
      exact more eof
    · exact (view x found).trans (eof.trans isEof.symm)
  · have unseen : s.unseen = l :: rest := by simp [State.unseen, eof, front]
    refine .inr ⟨l, ?_, ?_, by simp, fun isEof => ⟨l, rest, ?_, isEof, by simp⟩, fun x member => ?_, room⟩
    · rw [others (by rw [front]) rfl, List.append_assoc, List.singleton_append, ← unseen]
      exact whole
    · rw [others (by rw [front]) rfl]
      simpa [unseen] using left
    · exact if_pos isEof
    · rcases List.mem_append.mp member with before | here
      · exact clear x before
      · rw [List.mem_singleton.mp here, quiet]

omit src in
/-- No fault is forgotten. -/
theorem shift_noted (taken : Parse.shift s = .ok () t) (noted : s.errors ≠ []) : t.errors ≠ [] := by
  cases taken
  dsimp only
  split <;> simp [noted]

/-- If no name was in view, whatever comes into view stands as it should. -/
theorem shift_behind (h : Due s) (taken : shift s = .ok () t) : Behind s.kind s.errors t := by
  refine ⟨fun clean' => ?_, fun other clean' => ?_, shift_noted taken⟩ <;>
    have clean : s.errors = [] := by_contra fun noted => shift_noted taken noted clean'
  all_goals
    obtain ⟨seen, before, chain⟩ := h.1 clean
    have more (eof : s.kind = .eof) : s.unseen.length ≤ src.limit :=
      let ⟨_, taken, _⟩ := h.2 eof clean
      taken.left
  · rcases before.shift more taken clean' with after | ⟨l, after⟩
    · exact ⟨seen, after, chain.prefix seen.dropLast_prefix⟩
    · exact ⟨seen ++ [l], after, by rwa [List.dropLast_concat]⟩
  · rcases before.shift more taken clean' with after | ⟨l, after⟩
    · exact ⟨seen, after, chain⟩
    · refine ⟨seen ++ [l], after, List.isChain_append.mpr ⟨chain, .singleton l, fun a found b _ name => ?_⟩⟩
      rw [@Taken.view (src.within (src.limit + 1)) _ _ before a found, other] at name
      cases name

end

theorem Settled.within {s : State} {limit : Nat} (h : Settled s) (le : s.errors = [] → src.limit ≤ limit) :
    SettledWithin limit s := fun clean =>
  let ⟨seen, ⟨whole, left, view, last, clear, room⟩, chain⟩ := h clean
  ⟨seen, @Taken.mk (src.within limit) s seen whole (left.trans (le clean)) view last clear room, chain⟩

@[grind ←]
theorem Settled.due {s : State} (h : Settled s) : Due s := ⟨h.within fun _ => Nat.le_succ _, fun _ => h⟩

@[grind =]
theorem due_update {s : State} {lines keepComments errorCount pos literal leadComment lineComment comments imports
    syncPos syncCount level inRhs} :
    Due { s with
      lines, keepComments, errorCount, pos, literal, leadComment, lineComment, comments, imports, syncPos
      syncCount, level, inRhs } ↔ Due s :=
  and_congr (@settled_update (src.within (src.limit + 1)) ..) (imp_congr_right fun _ => settled_update)

set_option mvcgen.warning false

/-! ## What is read from the state -/

section

omit src

@[spec]
theorem kind_spec (Q : PostCond Kind (.except Unit (.arg State .pure))) :
    ⦃fun s => Q.1 s.kind s⦄ kind ⦃Q⦄ := by
  mvcgen [kind]

@[spec]
theorem sees_spec (k : Kind) (Q : PostCond Bool (.except Unit (.arg State .pure))) :
    ⦃fun s => Q.1 (decide (s.kind = k)) s⦄ sees k ⦃Q⦄ := by
  mvcgen [sees]

@[spec]
theorem seesNewline_spec (Q : PostCond Bool (.except Unit (.arg State .pure))) :
    ⦃fun s => Q.1 (s.kind = .semicolon && s.literal = "\n") s⦄ seesNewline ⦃Q⦄ := by
  mvcgen [seesNewline]

attribute [spec] pos literal bound leadComment lineComment

end

/-! ## Steps over lexemes -/

@[spec]
theorem shift_spec (k : Kind) (es : List SyntaxError) :
    ⦃fun s => ⌜s.kind = k ∧ s.errors = es ∧ Due s⌝⦄ shift ⦃⇓? _ t => ⌜Behind k es t⌝⦄ :=
  triple_iff.mpr fun _ _ _ ⟨kind, errors, due⟩ taken => kind ▸ errors ▸ shift_behind due taken

@[spec]
theorem shiftProper_spec (k : Kind) (es : List SyntaxError) :
    ⦃fun s => ⌜s.kind = k ∧ s.errors = es ∧ Due s⌝⦄ shiftProper ⦃⇓? _ t => ⌜Behind k es t⌝⦄ := by
  mvcgen [shiftProper]
  invariants
  · ⇓? _ s => ⌜Behind k es s⌝
  with grind -ring -linarith

@[spec]
theorem commentGroup_spec (gap : Nat) (k : Kind) (es : List SyntaxError) :
    ⦃fun s => ⌜Behind k es s⌝⦄ commentGroup gap ⦃⇓? _ t => ⌜Behind k es t⌝⦄ := by
  mvcgen [commentGroup]
  invariants
  · ⇓? _ s => ⌜Behind k es s⌝
  with grind -ring -linarith

@[spec]
theorem next_spec (k : Kind) (es : List SyntaxError) :
    ⦃fun s => ⌜s.kind = k ∧ s.errors = es ∧ Due s⌝⦄ next ⦃⇓? _ t => ⌜Behind k es t⌝⦄ := by
  mvcgen [next]
  invariants
  · ⇓? _ s => ⌜Behind k es s⌝
  · ⇓? _ s => ⌜Behind k es s⌝
  · ⇓? _ s => ⌜Behind k es s⌝
  with ((try dsimp only [id] at *); grind -ring -linarith)

omit src in
@[spec]
theorem error_spec (p : Pos) (message : String) (k : Kind) :
    ⦃fun s => ⌜s.kind = k⌝⦄ error p message ⦃⇓? _ t => ⌜t.errors ≠ [] ∧ t.kind = k⌝⦄ := by
  mvcgen [error] with grind -ring -linarith

omit src in
@[spec]
theorem errorExpected_spec (p : Pos) (what : String) (k : Kind) :
    ⦃fun s => ⌜s.kind = k⌝⦄ errorExpected p what ⦃⇓? _ t => ⌜t.errors ≠ [] ∧ t.kind = k⌝⦄ := by
  mvcgen [errorExpected]

/-- A lexeme that is no exclamation mark may be expected anywhere. -/
@[spec]
theorem expect_spec (k : Kind) (other : k ≠ .not) :
    ⦃fun s => ⌜Sound s⌝⦄ expect k ⦃⇓? _ t => ⌜Sound t ∧ (k.isName = false → Settled t)⌝⦄ := by
  mvcgen [expect] with grind -ring -linarith

@[spec]
theorem expectOrNone_spec (k : Kind) (other : k ≠ .not) :
    ⦃fun s => ⌜Sound s⌝⦄ expectOrNone k ⦃⇓? _ t => ⌜Sound t ∧ (k.isName = false → Settled t)⌝⦄ := by
  mvcgen [expectOrNone] with grind -ring -linarith

@[spec]
theorem expectClosing_spec (k : Kind) (other : k ≠ .not) (context : String) :
    ⦃fun s => ⌜Sound s⌝⦄ expectClosing k context
    ⦃⇓? _ t => ⌜Sound t ∧ (k.isName = false → Settled t)⌝⦄ := by
  mvcgen [expectClosing] with grind -ring -linarith

@[spec]
theorem advance_spec (isStop : Kind → Bool) :
    ⦃fun s => ⌜s.errors ≠ []⌝⦄ advance isStop ⦃⇓? _ t => ⌜t.errors ≠ []⌝⦄ := by
  mvcgen [advance]
  invariants
  · ⇓? _ s => ⌜s.errors ≠ []⌝
  with grind -ring -linarith

@[spec]
theorem expectSemi_spec : ⦃fun s => ⌜Sound s⌝⦄ expectSemi ⦃⇓? _ t => ⌜Settled t⌝⦄ := by
  mvcgen [expectSemi, expectSemi.passSemi] with grind -ring -linarith

@[spec]
theorem atComma_spec (context : String) (follow : Kind) (other : follow ≠ .not) :
    ⦃fun s => ⌜Sound s⌝⦄ atComma context follow
    ⦃⇓? more t => ⌜Settled t ∧ (more = true → t.kind = .comma ∨ t.errors ≠ [])⌝⦄ := by
  mvcgen [atComma] with grind -ring -linarith

end Parse
end Desugar.Host

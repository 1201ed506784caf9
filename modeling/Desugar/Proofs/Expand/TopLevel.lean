import Desugar.Expand.Invocation

/-!
# The invocations of a stream

The invocations at the top level of a stream are told here by its delimiters alone: an invocation is a
name, an exclamation mark that touches it, an opening delimiter, tokens in which delimiters close in
pairs, and the delimiter that closes the opening one. From left to right, a token at which no
invocation starts is passed over, and an invocation is passed over as a whole. Splitting a stream finds
these invocations, and fails where there is no such reading.
-/
namespace Desugar.Invocation

/-- Tokens whose delimiters close in pairs. -/
inductive Nested : List Token → Prop where
  | nil : Nested []
  | plain {t : Token} {ts : List Token} (opens : t.kind.closer? = none)
      (closes : t.kind.isClose = false) : Nested ts → Nested (t :: ts)
  | group {opener closer : Token} {body rest : List Token}
      (pair : opener.kind.closer? = some closer.kind) : Nested body → Nested rest →
      Nested (opener :: body ++ closer :: rest)

/-- The first tokens of an invocation. -/
inductive Starts : List Token → Prop where
  | intro {name bang opener : Token} {rest : List Token}
      (named : name.kind = .identifier ∨ name.kind = .map) (mark : bang.kind = .not)
      (touches : bang.gap = .none) (opens : opener.kind.isOpen = true) :
      Starts (name :: bang :: opener :: rest)

/-- The tokens of an invocation. -/
inductive Written : Invocation → List Token → Prop where
  | intro {name bang opener closer : Token} {body : List Token}
      (named : name.kind = .identifier ∨ name.kind = .map) (mark : bang.kind = .not)
      (touches : bang.gap = .none) (pair : opener.kind.closer? = some closer.kind)
      (nested : Nested body) :
      Written ⟨name, closer, body⟩ (name :: bang :: opener :: (body ++ [closer]))

/-- The invocations at the top level of a stream, from left to right. -/
inductive TopLevel : List Token → List Invocation → Prop where
  | nil : TopLevel [] []
  | skip {t : Token} {ts : List Token} {is : List Invocation} (other : ¬ Starts (t :: ts)) :
      TopLevel ts is → TopLevel (t :: ts) is
  | found {i : Invocation} {word rest : List Token} {is : List Invocation} (written : Written i word) :
      TopLevel rest is → TopLevel (word ++ rest) (i :: is)

theorem closer_of_closer? {opener closer : TokenKind} (pair : opener.closer? = some closer) :
    closer.isClose = true ∧ closer.closer? = none := by
  cases opener <;> cases pair <;> exact ⟨rfl, rfl⟩

theorem closer?_of_isClose {kind : TokenKind} (closes : kind.isClose = true) :
    kind.closer? = none := by
  cases kind <;> first | rfl | cases closes

/-! Closing delimiters -/

/-- One more token before what stands in front of a closing delimiter. -/
def prepend (t : Token) (found : Except Diagnostic (Option (List Token × Token × List Token))) :
    Except Diagnostic (Option (List Token × Token × List Token)) :=
  found.map (·.map fun (body, c, rest) => (t :: body, c, rest))

theorem prepend_eq_ok {t c : Token}
    {found : Except Diagnostic (Option (List Token × Token × List Token))} {body rest : List Token}
    (same : prepend t found = .ok (some (body, c, rest))) :
    ∃ front, body = t :: front ∧ found = .ok (some (front, c, rest)) := by
  rcases found with _ | _ | ⟨front, c', rest'⟩
  · cases same
  · cases same
  · cases same
    exact ⟨front, rfl, rfl⟩

theorem closing_opener {t : Token} {k want : TokenKind} {outer : List TokenKind} {ts : List Token}
    (opens : t.kind.closer? = some k) :
    closing want outer (t :: ts) = prepend t (closing k (want :: outer) ts) := by
  rw [closing.eq_def want outer (t :: ts)]
  simp only [opens]
  rfl

theorem closing_plain {t : Token} {want : TokenKind} {outer : List TokenKind} {ts : List Token}
    (opens : t.kind.closer? = none) (closes : t.kind.isClose = false) :
    closing want outer (t :: ts) = prepend t (closing want outer ts) := by
  rw [closing.eq_def want outer (t :: ts)]
  simp only [opens, closes]
  rfl

theorem closing_inner {t : Token} {next : TokenKind} {outer : List TokenKind} {ts : List Token}
    (closes : t.kind.isClose = true) :
    closing t.kind (next :: outer) (t :: ts) = prepend t (closing next outer ts) := by
  rw [closing.eq_def t.kind (next :: outer) (t :: ts)]
  simp [closer?_of_isClose closes, closes, prepend]

theorem closing_last {t : Token} {ts : List Token} (closes : t.kind.isClose = true) :
    closing t.kind [] (t :: ts) = .ok (some ([], t, ts)) := by
  rw [closing.eq_def t.kind [] (t :: ts)]
  simp [closer?_of_isClose closes, closes]

theorem closing_wrong {t : Token} {want : TokenKind} {outer : List TokenKind} {ts : List Token}
    (closes : t.kind.isClose = true) (wrong : t.kind ≠ want) :
    closing want outer (t :: ts) = .error (.expected t.span want.quoted t.describe) := by
  rw [closing.eq_def want outer (t :: ts)]
  simp [closer?_of_isClose closes, closes, wrong]

/-- Nested tokens do not change what is still to be closed. -/
theorem closing_append {body : List Token} (nested : Nested body) (want : TokenKind)
    (outer : List TokenKind) (ts : List Token) :
    closing want outer (body ++ ts) =
      (closing want outer ts).map (·.map fun (front, c, rest) => (body ++ front, c, rest)) := by
  induction nested generalizing want outer ts with
  | nil =>
    rw [List.nil_append]
    cases closing want outer ts with
    | error => rfl
    | ok found => cases found <;> rfl
  | plain opens closes _ ih =>
    rw [List.cons_append, closing_plain opens closes, ih]
    cases closing want outer ts with
    | error => rfl
    | ok found => cases found <;> rfl
  | @group opener closer body rest pair _ _ ihBody ihRest =>
    have closes := (closer_of_closer? pair).1
    rw [List.cons_append, List.cons_append, List.append_assoc, List.cons_append,
      closing_opener pair, ihBody, closing_inner closes, ihRest]
    cases closing want outer ts with
    | error => rfl
    | ok found =>
      cases found with
      | none => rfl
      | some found => simp [prepend, Except.map]

theorem closing_of_nested {body : List Token} (nested : Nested body) {closer : Token}
    (closes : closer.kind.isClose = true) (rest : List Token) :
    closing closer.kind [] (body ++ closer :: rest) = .ok (some (body, closer, rest)) := by
  rw [closing_append nested, closing_last closes]
  simp [Except.map]

/-- Tokens that close one delimiter after the other, from the innermost on. -/
inductive Closes : TokenKind → List TokenKind → List Token → Prop where
  | last {body : List Token} {closer : Token} (nested : Nested body) :
      Closes closer.kind [] (body ++ [closer])
  | inner {body word : List Token} {closer : Token} {next : TokenKind} {outer : List TokenKind}
      (nested : Nested body) : Closes next outer word →
      Closes closer.kind (next :: outer) (body ++ closer :: word)

theorem Closes.plain {want : TokenKind} {outer : List TokenKind} {word : List Token}
    (closes : Closes want outer word) {t : Token} (opens : t.kind.closer? = none)
    (noClose : t.kind.isClose = false) : Closes want outer (t :: word) := by
  cases closes with
  | last nested => exact .last (.plain opens noClose nested)
  | inner nested rest => exact .inner (.plain opens noClose nested) rest

theorem Closes.group {want : TokenKind} {outer : List TokenKind} {word : List Token} {t : Token}
    {k : TokenKind} (closes : Closes k (want :: outer) word) (opens : t.kind.closer? = some k) :
    Closes want outer (t :: word) := by
  cases closes with
  | @inner body word closer _ _ nested rest =>
    cases rest with
    | @last behind last nested' =>
      have whole : Closes last.kind [] ((t :: body ++ closer :: behind) ++ [last]) :=
        .last (.group opens nested nested')
      simpa using whole
    | @inner behind word last next outer nested' rest' =>
      have whole : Closes last.kind (next :: outer) ((t :: body ++ closer :: behind) ++ last :: word) :=
        .inner (.group opens nested nested') rest'
      simpa using whole

theorem Closes.of_last {want : TokenKind} {body : List Token} {c : Token}
    (closes : Closes want [] (body ++ [c])) : Nested body ∧ c.kind = want := by
  generalize same : body ++ [c] = word at closes
  cases closes with
  | last nested =>
    obtain ⟨rfl, single⟩ := List.append_inj' same rfl
    cases single
    exact ⟨nested, rfl⟩

/-- What is found to close delimiters does so. -/
theorem closes_of_closing {want : TokenKind} {outer : List TokenKind} {ts body rest : List Token}
    {c : Token} (found : closing want outer ts = .ok (some (body, c, rest))) :
    ts = body ++ c :: rest ∧ c.kind.isClose = true ∧ Closes want outer (body ++ [c]) := by
  induction ts generalizing want outer body with
  | nil => cases found
  | cons t ts ih =>
    cases opens : t.kind.closer? with
    | some k =>
      rw [closing_opener opens] at found
      obtain ⟨front, rfl, inner⟩ := prepend_eq_ok found
      obtain ⟨rfl, isClose, closes⟩ := ih inner
      exact ⟨rfl, isClose, closes.group opens⟩
    | none =>
      cases isClose : t.kind.isClose with
      | false =>
        rw [closing_plain opens isClose] at found
        obtain ⟨front, rfl, inner⟩ := prepend_eq_ok found
        obtain ⟨rfl, last, closes⟩ := ih inner
        exact ⟨rfl, last, closes.plain opens isClose⟩
      | true =>
        by_cases same : t.kind = want
        · subst same
          cases outer with
          | nil =>
            rw [closing_last isClose] at found
            cases found
            exact ⟨rfl, isClose, .last .nil⟩
          | cons next outer =>
            rw [closing_inner isClose] at found
            obtain ⟨front, rfl, inner⟩ := prepend_eq_ok found
            obtain ⟨rfl, last, closes⟩ := ih inner
            exact ⟨rfl, last, .inner .nil closes⟩
        · rw [closing_wrong isClose same] at found
          cases found

/-! The front of a stream -/

theorem opening_of_starts {name bang opener : Token} {rest : List Token}
    (named : name.kind = .identifier ∨ name.kind = .map) (mark : bang.kind = .not)
    (touches : bang.gap = .none) {k : TokenKind} (opens : opener.kind.closer? = some k) :
    opening (name :: bang :: opener :: rest) = some (name, k, rest) := by
  unfold opening
  dsimp only
  rw [if_pos (by simp [named, mark, touches]), opens]
  rfl

theorem opening_eq_some {ts rest : List Token} {name : Token} {k : TokenKind}
    (found : opening ts = some (name, k, rest)) : ∃ bang opener, ts = name :: bang :: opener :: rest ∧
      (name.kind = .identifier ∨ name.kind = .map) ∧ bang.kind = .not ∧ bang.gap = .none ∧
        opener.kind.closer? = some k := by
  unfold opening at found
  split at found
  · rename_i name' bang opener rest'
    split at found
    · rename_i marks
      simp only [Bool.and_eq_true, Bool.or_eq_true, decide_eq_true_eq] at marks
      rw [Option.map_eq_some_iff] at found
      obtain ⟨k', opens, same⟩ := found
      cases same
      exact ⟨bang, opener, rfl, marks.1.1, marks.1.2, marks.2, opens⟩
    · cases found
  · cases found

theorem opening_eq_none_iff (ts : List Token) : opening ts = none ↔ ¬ Starts ts := by
  constructor
  · rintro absent ⟨named, mark, touches, opens⟩
    obtain ⟨k, closer⟩ := Option.isSome_iff_exists.mp opens
    rw [opening_of_starts named mark touches closer] at absent
    cases absent
  · intro other
    cases found : opening ts with
    | none => rfl
    | some front =>
      obtain ⟨name, k, rest⟩ := front
      obtain ⟨bang, opener, rfl, named, mark, touches, closer⟩ := opening_eq_some found
      exact absurd ⟨named, mark, touches, by simp [TokenKind.isOpen, closer]⟩ other

theorem atFront_eq_none_iff (ts : List Token) : atFront ts = .ok none ↔ ¬ Starts ts := by
  rw [← opening_eq_none_iff]
  unfold atFront
  constructor
  · intro nothing
    split at nothing
    · assumption
    · split at nothing <;> cases nothing
  · intro absent
    rw [absent]

theorem atFront_eq_some_iff (ts rest : List Token) (i : Invocation) :
    atFront ts = .ok (some (i, rest)) ↔ ∃ word, Written i word ∧ ts = word ++ rest := by
  constructor
  · intro found
    unfold atFront at found
    split at found
    · cases found
    · rename_i front
      obtain ⟨bang, opener, rfl, named, mark, touches, opens⟩ := opening_eq_some front
      split at found
      · cases found
      · rename_i body c rest' closed
        cases found
        obtain ⟨rfl, -, closes⟩ := closes_of_closing closed
        obtain ⟨nested, rfl⟩ := closes.of_last
        exact ⟨_, ⟨named, mark, touches, opens, nested⟩, by simp⟩
      · cases found
  · rintro ⟨word, ⟨named, mark, touches, pair, nested⟩, rfl⟩
    have closes := (closer_of_closer? pair).1
    unfold atFront
    simp only [List.cons_append, List.append_assoc, List.nil_append,
      opening_of_starts named mark touches pair, closing_of_nested nested closes]

end Desugar.Invocation

namespace Desugar

open Invocation

theorem splitFrom_none {before ts : List Token} {t : Token} (other : ¬ Starts (t :: ts)) :
    splitFrom before (t :: ts) = splitFrom (t :: before) ts := by
  rw [splitFrom]
  split
  · rename_i found
    rw [(atFront_eq_none_iff _).mpr other] at found
    cases found
  · rename_i found
    rw [(atFront_eq_none_iff _).mpr other] at found
    cases found
  · rfl

theorem splitFrom_some {before rest word : List Token} {i : Invocation} (written : Written i word) :
    splitFrom before (word ++ rest) =
      { splitFrom [] rest with chunks := (before.reverse, i) :: (splitFrom [] rest).chunks } := by
  have front := (atFront_eq_some_iff (word ++ rest) rest i).mpr ⟨word, written, rfl⟩
  rw [splitFrom]
  split
  · rename_i found
    rw [front] at found
    cases found
  · rename_i found
    rw [front] at found
    cases found
    rfl
  · rename_i found
    rw [front] at found
    cases found

/-- A stream is split at the invocations at its top level, and into nothing else. -/
theorem topLevel_iff (ts : List Token) (is : List Invocation) :
    TopLevel ts is ↔ (split ts).failure = none ∧ (split ts).chunks.map (·.2) = is := by
  unfold split
  constructor
  · intro topLevel
    generalize ([] : List Token) = before
    induction topLevel generalizing before with
    | nil =>
      rw [splitFrom]
      exact ⟨rfl, rfl⟩
    | skip other _ ih =>
      rw [splitFrom_none other]
      exact ih _
    | found written _ ih =>
      rw [splitFrom_some written]
      exact ⟨(ih []).1, by simp [(ih []).2]⟩
  · rintro ⟨success, rfl⟩
    generalize ([] : List Token) = before at success
    fun_induction splitFrom before ts with
    | case1 => cases success
    | case2 before ts i rest front shorter s ih =>
      obtain ⟨word, written, rfl⟩ := (atFront_eq_some_iff _ _ _).mp front
      exact .found written (ih success)
    | case3 => exact .nil
    | case4 before t ts nothing ih => exact .skip ((atFront_eq_none_iff _).mp nothing) (ih success)

/-- A stream without invocations is left whole. -/
theorem split_plain {ts : List Token} (plain : TopLevel ts []) : split ts = ⟨[], ts, none⟩ := by
  have whole (before : List Token) : splitFrom before ts = ⟨[], before.reverse ++ ts, none⟩ := by
    generalize empty : ([] : List Invocation) = is at plain
    induction plain generalizing before with
    | nil =>
      rw [splitFrom, List.append_nil]
      rfl
    | skip other _ ih =>
      rw [splitFrom_none other, ih _ empty]
      simp
    | found => cases empty
  exact whole []

end Desugar

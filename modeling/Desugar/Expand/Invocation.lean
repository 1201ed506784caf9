import Desugar.Cursor

/-!
# Invocations

`name!{ body }`, or the same with parentheses or brackets: an identifier or the map keyword, directly
followed by an exclamation mark and an opening delimiter. A stream splits into invocations and what
stands before, between and after them.
-/
namespace Desugar

structure Invocation where
  name : Token
  closer : Token
  body : List Token
  deriving DecidableEq, Repr

namespace Invocation

/-- The invocation from its name to its closing delimiter. -/
def span (i : Invocation) : Span := i.name.span.union i.closer.span

/-- The tokens up to the delimiter that closes all that is open, that delimiter, and the rest. `want`
is what closes the innermost open one, `outer` what closes those around it. Without a closing
delimiter there is no result. -/
def closing (want : TokenKind) (outer : List TokenKind) :
    List Token → Except Diagnostic (Option (List Token × Token × List Token))
  | [] => .ok none
  | t :: ts =>
    let goOn (want : TokenKind) (outer : List TokenKind) :=
      (closing want outer ts).map (·.map fun (body, c, rest) => (t :: body, c, rest))
    match t.kind.closer? with
    | some closer => goOn closer (want :: outer)
    | none =>
      if !t.kind.isClose then goOn want outer
      else if t.kind ≠ want then .error (.expected t.span want.quoted t.describe)
      else match outer with
        | [] => .ok (some ([], t, ts))
        | next :: outer => goOn next outer

/-- The name, and what follows the opening delimiter with the delimiter that closes it, if an
invocation starts here. -/
def opening : List Token → Option (Token × TokenKind × List Token)
  | name :: bang :: open_ :: rest =>
    if (name.kind = .identifier || name.kind = .map) && bang.kind = .not && bang.gap = .none then
      open_.kind.closer?.map fun closer => (name, closer, rest)
    else none
  | _ => none

/-- The invocation at the front of a stream, if there is one, and what follows it. -/
def atFront (ts : List Token) : Except Diagnostic (Option (Invocation × List Token)) :=
  match opening ts with
  | none => .ok none
  | some (name, closer, rest) =>
    match closing closer [] rest with
    | .error d => .error d
    | .ok (some (body, c, rest)) => .ok (some (⟨name, c, body⟩, rest))
    | .ok none => .error
      { category := .structural, span := name.span
        message := s!"unterminated macro invocation {name.text}!" }

theorem length_lt_of_closing {want : TokenKind} {outer : List TokenKind} {ts body rest : List Token}
    {c : Token} (h : closing want outer ts = .ok (some (body, c, rest))) :
    rest.length < ts.length := by
  induction ts generalizing want outer body with
  | nil => simp [closing] at h
  | cons t ts ih =>
    have step : ∀ {w o}, (closing w o ts).map
        (·.map fun (x : List Token × Token × List Token) => (t :: x.1, x.2.1, x.2.2)) =
          .ok (some (body, c, rest)) → rest.length < (t :: ts).length := by
      intro w o h
      cases hc : closing w o ts with
      | error d => simp [hc, Except.map] at h
      | ok r =>
        cases r with
        | none => simp [hc, Except.map] at h
        | some r =>
          obtain ⟨b, c', r⟩ := r
          simp only [hc, Except.map, Option.map_some, Except.ok.injEq, Option.some.injEq,
            Prod.mk.injEq] at h
          obtain ⟨-, rfl, rfl⟩ := h
          have := ih hc
          simp only [List.length_cons]
          omega
    unfold closing at h
    split at h
    · exact step h
    · split at h
      · exact step h
      · split at h
        · simp at h
        · split at h
          · simp only [Except.ok.injEq, Option.some.injEq, Prod.mk.injEq] at h
            obtain ⟨-, -, rfl⟩ := h
            simp
          · exact step h

theorem length_lt_of_opening {ts rest : List Token} {name : Token} {closer : TokenKind}
    (h : opening ts = some (name, closer, rest)) : rest.length < ts.length := by
  unfold opening at h
  split at h
  · split at h
    · simp only [Option.map_eq_some_iff, Prod.mk.injEq] at h
      obtain ⟨_, -, -, -, rfl⟩ := h
      simp only [List.length_cons]
      omega
    · simp at h
  · simp at h

theorem length_lt_of_atFront {ts rest : List Token} {i : Invocation}
    (h : atFront ts = .ok (some (i, rest))) : rest.length < ts.length := by
  unfold atFront at h
  split at h
  · simp at h
  · rename_i ho
    split at h
    · simp at h
    · rename_i hc
      simp only [Except.ok.injEq, Option.some.injEq, Prod.mk.injEq] at h
      obtain ⟨-, rfl⟩ := h
      exact Nat.lt_trans (length_lt_of_closing hc) (length_lt_of_opening ho)
    · simp at h

end Invocation

/-- A stream as its invocations, each with the tokens before it, and the tokens after the last one.
If an invocation is not properly closed, the stream is split only up to it. -/
structure Split where
  chunks : List (List Token × Invocation)
  rest : List Token
  failure : Option Diagnostic
  deriving Repr

/-- Splits a stream; `before` are the tokens since the last invocation, the last one first. -/
def splitFrom (before : List Token) (ts : List Token) : Split :=
  match h : Invocation.atFront ts with
  | .error d => ⟨[], before.reverse ++ ts, some d⟩
  | .ok (some (i, rest)) =>
    have := Invocation.length_lt_of_atFront h
    let s := splitFrom [] rest
    { s with chunks := (before.reverse, i) :: s.chunks }
  | .ok none =>
    match ts with
    | [] => ⟨[], before.reverse, none⟩
    | t :: ts => splitFrom (t :: before) ts
termination_by ts.length

def split (ts : List Token) : Split := splitFrom [] ts

end Desugar

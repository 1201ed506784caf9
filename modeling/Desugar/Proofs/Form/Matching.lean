import Desugar.Proofs.Form.Grammar

/-!
# Matching brackets

Brackets are matched in two places: a cursor takes a group, and the search for invocations looks for the
delimiter that ends one. A cursor keeps the outermost closing delimiter apart from those of the groups
inside of it, the search keeps them all on one stack. Both accept a delimiter, tokens in which delimiters
close in pairs, and the delimiter that closes the first one, and nothing else. A stream begins with one
such group at most, so both take the same tokens and go on at the same place.
-/
namespace Desugar

open Invocation Form

namespace Cursor

/-- A cursor behind the first `n` tokens of a stream. -/
def past (ts : List Token) (stop : Span) (n : Nat) : Cursor := ⟨ts.drop n, stop, (ts.take n).reverse⟩

/-- A stream that begins with a group: an opening delimiter, nested tokens and the delimiter that closes
it. -/
inductive Grouped (k : TokenKind) (inner rest : List Token) : List Token → Prop where
  | intro {opener closer : Token} (opens : opener.kind = k) (pair : k.closer? = some closer.kind)
      (nested : Nested inner) : Grouped k inner rest (opener :: (inner ++ closer :: rest))

variable {c : Cursor} {k : TokenKind} {inner inner' rest rest' ts us : List Token} {stop : Span}

theorem moveTo_past {n m : Nat} (forward : n ≤ m) :
    (past ts stop n).moveTo (ts.drop m) = past ts stop m := by
  obtain ⟨j, rfl⟩ := Nat.exists_eq_add_of_le forward
  have between : (ts.drop n).take (ts.length - n - (ts.length - (n + j))) = (ts.drop n).take j := by
    rw [List.take_eq_take_iff, List.length_drop]
    omega
  simp only [past, moveTo, List.length_drop, between, List.take_add, List.reverse_append]

/-! ## Groups -/

/-- A kind that opens nothing opens no group. -/
theorem group_unpaired (unpaired : k.closer? = none) : (c.group k).inner ≠ .ok inner := by
  unfold group
  split
  · exact nofun
  · rename_i opener c' expected
    intro read
    rw [unpaired, Option.getD_none] at read
    generalize body : groupBody .eof c'.stop [] [] c'.rest = found at read
    obtain ⟨taken, left⟩ := found
    obtain rfl : taken = .ok inner := read
    obtain ⟨front, last, found, -⟩ := (groupBody_iff (List.nil_append _)).mp body
    obtain ⟨-, closes, word⟩ := closes_of_closing found
    rw [word.of_last.2] at closes
    cases closes

/-- A group is taken exactly where the stream begins with one. -/
theorem group_iff_grouped :
    (c.group k).inner = .ok inner ∧ (c.group k).cursor.rest = rest ↔ Grouped k inner rest c.rest := by
  cases pair : k.closer? with
  | none =>
    constructor
    · rintro ⟨read, -⟩
      exact absurd read (group_unpaired pair)
    · intro grouped
      generalize c.rest = us at grouped
      cases grouped with
      | intro opens pair' =>
        rw [pair] at pair'
        cases pair'
  | some closer =>
    rw [group_iff pair]
    constructor
    · rintro ⟨opener, last, opens, rfl, nested, front⟩
      rw [front]
      exact .intro opens pair nested
    · intro grouped
      generalize front : c.rest = us at grouped
      cases grouped with
      | @intro opener last opens pair' nested =>
        rw [pair] at pair'
        exact ⟨opener, last, opens, (Option.some.inj pair').symm, nested, rfl⟩

/-- The cursor goes on behind the group. -/
theorem group_moves (read : (c.group k).inner = .ok inner) :
    (c.group k).cursor = (c.moveTo c.rest.tail).moveTo (c.group k).cursor.rest := by
  unfold group at read ⊢
  split at read
  · cases read
  · rename_i opener c' expected
    have passed : c' = c.moveTo c.rest.tail := by
      unfold expect next at expected
      dsimp only at expected
      split at expected
      · exact (Prod.mk.inj (Except.ok.inj expected)).2.symm
      · cases expected
    rw [passed]
    rfl

/-- Where a stream begins with a group, the group is told by the stream. -/
theorem Grouped.unique (first : Grouped k inner rest us) (second : Grouped k inner' rest' us) :
    inner = inner' ∧ rest = rest' := by
  obtain ⟨read, left⟩ := (group_iff_grouped (c := ⟨us, .none, []⟩)).mpr first
  obtain ⟨read', left'⟩ := (group_iff_grouped (c := ⟨us, .none, []⟩)).mpr second
  constructor
  · exact Except.ok.inj (read.symm.trans read')
  · exact left.symm.trans left'

theorem Grouped.drop {n : Nat} (grouped : Grouped k inner rest (ts.drop n)) :
    rest = ts.drop (n + inner.length + 2) := by
  generalize front : ts.drop n = us at grouped
  cases grouped with
  | @intro opener closer =>
    have behind : ts.drop (n + inner.length + 2) = (ts.drop n).drop (inner.length + 2) := by
      rw [List.drop_drop]
      congr 1
    rw [behind, front]
    simp

theorem group_past {n : Nat} (read : ((past ts stop n).group k).inner = .ok inner) :
    ((past ts stop n).group k).cursor = past ts stop (n + inner.length + 2) := by
  have grouped := group_iff_grouped.mp ⟨read, rfl⟩
  have tail : (past ts stop n).rest.tail = ts.drop (n + 1) := by simp [past]
  rw [group_moves read, grouped.drop, tail, moveTo_past (Nat.le_succ n)]
  exact moveTo_past (by omega)

/-! ## Invocations -/

/-- An invocation is found where a group follows its name and its mark, with the inside of the group as
its body. -/
theorem atFront_iff_grouped {name bang opener : Token} (named : name.kind = .identifier ∨ name.kind = .map)
    (mark : bang.kind = .not) (touches : bang.gap = .none) :
    (∃ i, atFront (name :: bang :: opener :: us) = .ok (some (i, rest)) ∧ i.body = inner) ↔
      Grouped opener.kind inner rest (opener :: us) := by
  constructor
  · rintro ⟨i, found, rfl⟩
    obtain ⟨word, written, whole⟩ := (atFront_eq_some_iff _ _ _).mp found
    cases written with
    | @intro name' bang' opener' closer body _ _ _ pair nested =>
      simp only [List.cons_append, List.cons.injEq] at whole
      obtain ⟨rfl, rfl, rfl, rfl⟩ := whole
      have grouped : Grouped opener.kind body rest (opener :: (body ++ closer :: rest)) :=
        .intro rfl pair nested
      simpa using grouped
  · intro grouped
    cases grouped with
    | @intro opener closer opens pair nested =>
      have written : Written ⟨name, closer, inner⟩ (name :: bang :: opener :: (inner ++ [closer])) :=
        .intro named mark touches pair nested
      exact ⟨_, (atFront_eq_some_iff _ _ _).mpr ⟨_, written, by simp⟩, rfl⟩

/-- A cursor takes a group exactly where the stream begins with one, which is told by the stream, and
stands behind its closing delimiter then. Where an invocation starts, it is found exactly if the group at
its opening delimiter is taken, with the same body and the same tokens left. -/
theorem brackets_matched (ts : List Token) (stop : Span) :
    (∀ n k inner rest,
      ((past ts stop n).group k).inner = .ok inner ∧ ((past ts stop n).group k).cursor.rest = rest ↔
        Grouped k inner rest (ts.drop n)) ∧
    (∀ n k inner, ((past ts stop n).group k).inner = .ok inner →
      ((past ts stop n).group k).cursor = past ts stop (n + inner.length + 2)) ∧
    (∀ n k inner rest inner' rest', Grouped k inner rest (ts.drop n) → Grouped k inner' rest' (ts.drop n) →
      inner = inner' ∧ rest = rest') ∧
    ∀ i opener, Starts (ts.drop i) → ts[i + 2]? = some opener → ∀ body rest,
      (∃ found, atFront (ts.drop i) = .ok (some (found, rest)) ∧ found.body = body) ↔
        ((past ts stop (i + 2)).group opener.kind).inner = .ok body ∧
          ((past ts stop (i + 2)).group opener.kind).cursor.rest = rest := by
  refine ⟨fun n k inner rest => group_iff_grouped, fun n k inner => group_past,
    fun n k inner rest inner' rest' => Grouped.unique, ?_⟩
  intro i opener starts third body rest
  have left : (past ts stop (i + 2)).rest = (ts.drop i).drop 2 := by rw [List.drop_drop]; rfl
  rw [group_iff_grouped, left]
  rw [← List.getElem?_drop] at third
  generalize ts.drop i = us at starts third
  cases starts with
  | intro named mark touches opens =>
    obtain rfl := Option.some.inj third
    exact atFront_iff_grouped named mark touches

/-- The tokens of `=a!(b[c])d`. -/
def nestedCall : List Token :=
  [(.assign, "="), (.identifier, "a"), (.not, "!"), (.lparen, "("), (.identifier, "b"), (.lbracket, "["),
    (.identifier, "c"), (.rbracket, "]"), (.rparen, ")"), (.identifier, "d")].map
      fun (kind, text) => ⟨kind, Text.utf8 text, .none, .none⟩

/-- Brackets inside of the parentheses are passed over. -/
theorem brackets_matched_nestedCall :
    Starts (nestedCall.drop 1) ∧
      ∃ found, atFront (nestedCall.drop 1) = .ok (some (found, nestedCall.drop 9)) ∧
        found.body = (nestedCall.drop 4).take 4 := by
  have starts : Starts (nestedCall.drop 1) := .intro (.inl rfl) rfl rfl rfl
  refine ⟨starts, ?_⟩
  exact ((brackets_matched nestedCall .none).2.2.2 1 _ starts rfl _ _).mpr ⟨rfl, rfl⟩

end Cursor
end Desugar

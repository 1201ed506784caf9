import Mathlib
import Desugar.Proofs.Token.Layout

/-!
# Tokens tile their text

Tokens tile a text if each literal is the text between its token's offsets and nothing but white space
and comments stands around them, by which the gaps go. They do unless a raw string has a carriage
return: its literal is shorter than its text, and its last bytes are left over.
-/
namespace Desugar.Host

open Scan

/-- What has no carriage return is told as it is. -/
theorem spelling_eq_self {word : Bytes} (free : 0x0D ∉ word) : spelling word = word := by
  unfold spelling
  split
  · rw [List.filter_eq_self]
    intro b member
    rw [bne_iff_ne]
    rintro rfl
    exact free member
  · rfl

/-- A raw string that is told as the text of its own length from its start has no carriage return:
otherwise it would have a back quote before its last one. -/
theorem RawAt.carriage_free {text : Bytes} {p q n : Nat} (raw : RawAt text p q)
    (bound : q ≤ text.length) (told : spelling (Text.slice text p q) = Text.slice text p (p + n))
    (length : (spelling (Text.slice text p q)).length = n) : 0x0D ∉ Text.slice text p q := by
  obtain ⟨opening, long, body, closing⟩ := raw
  have pieces : Text.slice text p (q - 1) ++ [0x60] = Text.slice text p q := by
    rw [← slice_one closing, Nat.sub_add_cancel (by omega),
      Text.slice_append_slice text (by omega) (by omega)]
  obtain ⟨rest, first⟩ : ∃ rest, Text.slice text p (q - 1) = 0x60 :: rest := by
    rw [← List.head?_eq_some_iff, head?_slice (by omega), opening]
  have filtered : spelling (Text.slice text p q) =
      0x60 :: (rest.filter (· != 0x0D) ++ [0x60]) := by
    unfold spelling
    rw [if_pos (by rw [head?_slice (by omega), opening]), ← pieces, first, List.cons_append,
      List.filter_cons_of_pos (by decide), List.filter_append]
    rfl
  intro carriage
  have short : n < q - p := by
    rw [← length, ← length_slice bound]
    unfold spelling
    rw [if_pos (by rw [head?_slice (by omega), opening]), List.length_filter_lt_length_iff_exists]
    exact ⟨0x0D, carriage, by decide⟩
  have size : n = (rest.filter (· != 0x0D)).length + 2 := by
    rw [← length, filtered, List.length_cons, List.length_append]
    rfl
  refine body (p + n - 1) (by omega) (by omega) ?_
  have last : (Text.slice text p (p + n))[n - 1]? = text[p + n - 1]? := by
    rw [Text.slice, List.getElem?_take_of_lt (by omega), List.getElem?_drop,
      Nat.add_sub_assoc (by omega)]
  have index : n - 1 = (rest.filter (· != 0x0D)).length + 1 := by omega
  rw [← last, ← told, filtered, index, List.getElem?_cons_succ, List.getElem?_concat_length]

end Desugar.Host

namespace Desugar.Lexer

open Host Host.Scan

/-- What a gap says about the bytes since the token before. -/
def GapFits (between : Bytes) : Gap → Prop
  | .none => between = []
  | .space => between ≠ [] ∧ 0x0A ∉ between
  | .newline => 0x0A ∈ between

/-- Tokens tile a text from an offset on: each literal is the text between the token's offsets, tokens
follow each other without overlap, only white space and comments stand around them, and each gap is
that of the bytes since the token before. -/
inductive Tiles (text : Bytes) : Nat → List Token → Prop where
  | done {last : Nat} (blank : Blank text last text.length) : Tiles text last []
  | token {last start stop : Nat} {t : Token} {ts : List Token}
      (starts : t.span.start.offset = start) (stops : t.span.stop.offset = stop)
      (order : last ≤ start) (long : start < stop) (bound : stop ≤ text.length)
      (faithful : t.literal = Text.slice text start stop) (blank : Blank text last start)
      (gap : GapFits (Text.slice text last start) t.gap)
      (rest : Tiles text stop ts) : Tiles text last (t :: ts)

/-- No raw string that a token stands on has a carriage return. -/
def CarriageFree (text : Bytes) (ts : List Token) : Prop :=
  ∀ t ∈ ts, ∀ start stop : Nat, t.span.start.offset = start → RawAt text start stop →
    0x0D ∉ Text.slice text start stop

theorem gapFits_ofText (between : Bytes) : GapFits between (Gap.ofText between) := by
  unfold Gap.ofText
  cases between with
  | nil => exact rfl
  | cons b rest =>
    rw [List.isEmpty_cons, if_neg Bool.false_ne_true]
    by_cases newline : (b :: rest).contains 0x0A = true
    · rw [if_pos newline]
      exact List.contains_iff_mem.mp newline
    · rw [if_neg newline]
      exact ⟨List.cons_ne_nil _ _, fun member => newline (List.contains_iff_mem.mpr member)⟩

theorem Laid.tiles {text : Bytes} {told last : Nat} {ts : List Token} (laid : Laid text told last ts)
    (same : told = last) (free : CarriageFree text ts) : Tiles text last ts := by
  induction laid with
  | done blank => exact .done blank
  | @token told last start stop t ts starts stops long bound literal raw blank gap rest ih =>
    subst same
    have faithful : t.literal = Text.slice text start stop := by
      rw [literal]
      by_cases quote : text[start]? = some 0x60
      · exact spelling_eq_self (free t List.mem_cons_self start stop starts (raw quote).2)
      · exact slice_eq_of_other long quote
    have ends : start + t.literal.length = stop := by
      rw [faithful, length_slice bound]
      omega
    rw [ends] at stops
    refine .token starts stops blank.le long bound faithful blank (gap ▸ gapFits_ofText _) ?_
    exact ih ends fun u member => free u (List.mem_cons_of_mem _ member)

/-- Where a token that tiles its text stands. -/
theorem Tiles.mem {text : Bytes} {last : Nat} {ts : List Token} (tiles : Tiles text last ts) {t : Token}
    (member : t ∈ ts) : ∃ start stop : Nat, t.span.start.offset = start ∧
      t.span.stop.offset = stop ∧ t.literal = Text.slice text start stop := by
  induction tiles with
  | done => cases member
  | token starts stops _ _ _ faithful _ _ _ ih =>
    rcases List.mem_cons.mp member with rfl | behind
    · exact ⟨_, _, starts, stops, faithful⟩
    · exact ih behind

/-- Tokens that are read without faults tile their text exactly if no raw string has a carriage
return. -/
theorem lex_tiles_iff {file : String} {text : Bytes} {ts : List Token}
    (read : lex file text = .ok ts) : Tiles text 0 ts ↔ CarriageFree text ts := by
  have laid := lex_laid read
  constructor
  · intro tiles t member p q starts raw
    obtain ⟨p', q', starts', stops', long, bound, literal, raw'⟩ := laid.mem member
    obtain ⟨p'', q'', starts'', stops'', faithful⟩ := tiles.mem member
    obtain rfl : p = p' := by omega
    obtain rfl : p = p'' := by omega
    obtain rfl : q'' = p + t.literal.length := by omega
    obtain rfl : q = q' := raw.unique (raw' raw.opening).2
    rw [literal] at faithful
    exact raw.carriage_free bound faithful rfl
  · exact laid.tiles rfl

/-- A carriage return between two back quotes: the token ends one byte early. -/
theorem carriage_return_not_tiled :
    ∃ ts, lex "raw.sgo" [0x60, 0x0D, 0x60] = .ok ts ∧ ¬ Tiles [0x60, 0x0D, 0x60] 0 ts := by
  have read : lex "raw.sgo" [0x60, 0x0D, 0x60] =
      .ok [⟨.string, [0x60, 0x60], ⟨⟨"raw.sgo", 1, 1, 0⟩, ⟨"raw.sgo", 1, 3, 2⟩⟩, .none⟩] :=
    eq_ok_of_toOption (by decide +kernel)
  refine ⟨_, read, ?_⟩
  rw [lex_tiles_iff read]
  intro free
  have raw : RawAt [0x60, 0x0D, 0x60] 0 3 := by
    refine ⟨rfl, by omega, ?_, rfl⟩
    intro k behind before
    obtain rfl : k = 1 := by omega
    decide
  exact free _ List.mem_cons_self 0 3 rfl raw (by decide)

end Desugar.Lexer

import Mathlib
import Desugar.Proofs.Host.Statements
import Desugar.Proofs.Token.Layout

/-!
# What an accepted text is

A text is accepted only if its last lexeme has come into view without a fault. So none of its lexemes has
one, and no exclamation mark stands directly behind a name.
-/
namespace Desugar.Host

open Std.Do

set_option mvcgen.warning false

/-- No lexeme has a fault, and no exclamation mark stands directly behind a name. -/
structure Orderly (ls : List Lexeme) : Prop where
  clear : ∀ l ∈ ls, l.faults = []
  apart : ls.IsChain Lexeme.Follows

namespace Parse

/-- Nothing stands behind the end mark. -/
theorem reads_eof {s : Scan.State} {ls done rest : List Lexeme} {l : Lexeme} (reads : Lexer.Reads s ls)
    (split : ls = done ++ l :: rest) (eof : l.kind = .eof) : rest = [] := by
  induction reads generalizing done with
  | stop _ =>
    cases done with
    | nil => exact (List.cons.inj split).2.symm
    | cons d done => simp at split
  | step more _ ih =>
    cases done with
    | nil =>
      obtain ⟨rfl, -⟩ := List.cons.inj split
      exact absurd eof more
    | cons d done => exact ih (List.cons.inj split).2

variable [src : Source] {s : State}

/-- There is room for all lexemes in a loop. -/
theorem Settled.room (h : Settled s) (clean : s.errors = []) : src.lexemes.length ≤ s.bound :=
  let ⟨_, taken, _⟩ := h clean
  taken.room

/-- Once the end mark is in view, nothing is left. -/
@[grind →]
theorem SettledWithin.done {limit : Nat} {start : Scan.State} (reads : Lexer.Reads start src.lexemes)
    (h : SettledWithin limit s) (eof : s.kind = .eof) : SettledWithin 0 s := by
  intro clean
  obtain ⟨seen, ⟨whole, -, view, last, clear, room⟩, chain⟩ := h clean
  obtain ⟨l, rest, -, isEof, member⟩ := last eof
  obtain ⟨a, b, rfl⟩ := List.append_of_mem member
  change src.lexemes = _ at whole
  have nothing := reads_eof reads (by rw [whole, List.append_assoc, List.cons_append]) isEof
  have empty := (List.append_eq_nil_iff.mp nothing).2
  exact ⟨_, @Taken.mk (src.within 0) s _ whole (by simp [empty]) view last clear room, chain⟩

/-- With nothing left, all lexemes have been taken. -/
@[grind →]
theorem SettledWithin.orderly (h : SettledWithin 0 s) (clean : s.errors = []) : Orderly src.lexemes := by
  obtain ⟨seen, ⟨whole, left, -, -, clear, -⟩, chain⟩ := h clean
  rw [List.eq_nil_of_length_eq_zero (Nat.le_zero.mp left), List.append_nil] at whole
  change src.lexemes = seen at whole
  exact whole ▸ ⟨clear, chain⟩

@[grind ←]
theorem SettledWithin.of_errors {limit : Nat} (noted : s.errors ≠ []) : SettledWithin limit s :=
  fun clean => absurd clean noted

theorem single_spec (self : Self) [Steady self] {start : Scan.State}
    (reads : Lexer.Reads start src.lexemes) :
    ⦃fun s => ⌜Settled s ∧ s.kind = .illegal⌝⦄ single self
    ⦃⇓? _ t => ⌜t.errors = [] → Orderly src.lexemes⌝⦄ := by
  have same {s : State} (h : Settled s) : SettledWithin src.limit s := h
  mvcgen [single, expect, -expect_spec] with grind -ring -linarith

/-- A declaration takes a lexeme. -/
theorem decl_takes (self : Self) [∀ src : Source, @Steady src self] (sync : Kind → Bool) (s₀ : State) :
    ⦃fun s => ⌜s = s₀ ∧ (s.errors = [] → s.kind ≠ .eof)⌝⦄ decl self sync
    ⦃⇓? _ t => ⌜∀ limit, SettledWithin (limit + 1) s₀ → SettledWithin limit t⌝⦄ :=
  triple_iff.mpr fun s a t ⟨same, more⟩ gives limit settled =>
    triple_iff.mp (@decl_spec (src.within limit) self _ sync) s a t
      ⟨same ▸ settled, fun eof => SettledWithin.of_errors fun clean => more clean eof⟩ gives

/-- Every declaration takes a lexeme, so the loop over them does not end before the text does. -/
theorem file_spec (self : Self) [∀ src : Source, @Steady src self] {start : Scan.State}
    (whole : src.limit = src.lexemes.length) (reads : Lexer.Reads start src.lexemes) :
    ⦃fun s => ⌜Settled s ∧ s.kind = .illegal⌝⦄ file self
    ⦃⇓? f t => ⌜f.isSome = true → t.errors = [] → Orderly src.lexemes⌝⦄ := by
  have entry {s : State} (h : Settled s) : SettledWithin [:s.bound].toList.length s :=
    h.within fun clean => by simpa [whole] using h.room clean
  mvcgen [file, faulty, decl_takes, -decl_spec]
  invariants
  · ⇓? xs s => ⌜SettledWithin xs.1.suffix.length s⌝
  with grind -ring -linarith

end Parse

open Parse

variable {name : String} {text : Bytes}

/-- A scanned text, of which all may still be ahead. -/
@[reducible]
def Scanned.source (scanned : Scanned) : Source := ⟨scanned.lexemes, scanned.lexemes.length⟩

/-- Before a parse nothing has been taken. -/
theorem settled_start (scanned : Scanned) (keepComments : Bool) :
    @Settled scanned.source (.start scanned keepComments) := by
  refine fun _ => ⟨[], @Taken.mk scanned.source _ _ (List.nil_append _).symm le_rfl ?_ ?_ ?_ ?_, .nil⟩
  · simp
  · exact fun eof => by cases eof
  · simp
  · change scanned.lexemes.length ≤ 16 * scanned.lexemes.length + 64
    omega

/-- An accepted text is orderly if it is whenever the parse ends without a fault. -/
theorem run_orderly {α : Type} {keepComments : Bool} {p : Self → Parse α} (accepts : α → Prop) {a : α}
    {lines : LineTable}
    (spec : ∀ depth, ⦃fun s => ⌜@Settled (scan name text).source s ∧ s.kind = .illegal⌝⦄ p (nested depth)
      ⦃⇓? a t => ⌜accepts a → t.errors = [] → Orderly (scan name text).lexemes⌝⦄)
    (accepted : run name text keepComments p = .ok (a, lines)) (good : accepts a) :
    Orderly (scan name text).lexemes := by
  unfold run at accepted
  dsimp only at accepted
  split at accepted
  · rename_i b t gives
    split at accepted
    · rename_i clean
      obtain ⟨rfl, -⟩ := Prod.mk.inj (Except.ok.inj accepted)
      exact triple_iff.mp (spec _) _ _ _ ⟨settled_start _ _, rfl⟩ gives good (List.isEmpty_iff.mp clean)
    · cases accepted
  · cases accepted

theorem parseExpr_orderly {x : Expr} (accepted : parseExpr name text = .ok x) :
    Orderly (scan name text).lexemes := by
  unfold parseExpr at accepted
  split at accepted
  · rename_i run
    refine run_orderly (fun _ => True) (fun depth => triple_iff.mpr fun s a t before gives _ => ?_) run trivial
    let source := (scan name text).source
    exact triple_iff.mp (single_spec (nested depth) (Lexer.reads_scan name text)) s a t before gives
  · cases accepted

theorem parseFile_orderly {keepComments : Bool} {f : ParsedFile}
    (accepted : parseFile name text keepComments = .ok f) : Orderly (scan name text).lexemes := by
  unfold parseFile at accepted
  split at accepted
  · rename_i run
    refine run_orderly (fun f => f.isSome = true) (fun depth => ?_) run rfl
    exact @file_spec (scan name text).source (nested depth) (fun src => @steady_nested src depth) _ rfl
      (Lexer.reads_scan name text)
  all_goals cases accepted

end Desugar.Host

import Desugar.Host.Format
import Desugar.Proofs.Except
import Desugar.Proofs.Token.Layout

/-!
# What files are called

Line directives name files, and a file has a name of its own. Neither matters for what a text is read as,
nor for how it is laid out: only the places of faults show names.
-/
namespace Desugar.Host

/-! ## Lexemes -/

namespace Scan

/-- Two states differ at most in what files are called. -/
structure State.Renames (s s' : State) : Prop where
  reader : s.reader = s'.reader
  ends : s.ends = s'.ends
  pending : s.pending = s'.pending
  infos : s.infos.map LineInfo.nameless = s'.infos.map LineInfo.nameless

/-- Two steps read the same lexeme and leave states that differ at most in names. -/
structure Parallel (x y : Lexeme × State) : Prop where
  lexeme : x.1 = y.1
  states : x.2.Renames y.2

variable {s s' : State}

theorem State.Renames.emit (renames : s.Renames s') (r : Reader) (kind : Kind) (offset : Nat) (literal : Bytes)
    (ends : Bool) : Parallel (emit s r kind offset literal ends) (emit s' r kind offset literal ends) :=
  ⟨rfl, rfl, rfl, renames.pending, renames.infos⟩

/-- What a line directive says but the name, and what is wrong with it, is told by its text. -/
theorem lineDirective_nameless (dir dir' current current' : String) (start next : Nat) (text : Bytes) :
    (lineDirective dir current start next text).map (Except.map LineInfo.nameless) =
      (lineDirective dir' current' start next text).map (Except.map LineInfo.nameless) := by
  unfold lineDirective
  cases trailingNumber text with
  | none => rfl
  | some found =>
    obtain ⟨i, _ | n⟩ := found
    · rfl
    · dsimp only
      repeat' split
      all_goals rfl

theorem applyDirective_nameless (r : Reader) {infos infos' : List LineInfo}
    {directive directive' : Option (Except Located LineInfo)}
    (same : infos.map LineInfo.nameless = infos'.map LineInfo.nameless)
    (said : directive.map (Except.map LineInfo.nameless) = directive'.map (Except.map LineInfo.nameless)) :
    (applyDirective r infos directive).1 = (applyDirective r infos' directive').1 ∧
      (applyDirective r infos directive).2.map LineInfo.nameless =
        (applyDirective r infos' directive').2.map LineInfo.nameless := by
  have offset {i i' : LineInfo} (same : i.nameless = i'.nameless) : i.offset = i'.offset := by
    change i.nameless.offset = i'.nameless.offset
    rw [same]
  rcases directive with _ | f | info <;> rcases directive' with _ | f' | info' <;> try cases said
  case none.none => exact ⟨rfl, same⟩
  case some.error.some.error => exact ⟨rfl, same⟩
  case some.ok.some.ok =>
    have said : info.nameless = info'.nameless := Except.ok.inj (Option.some.inj said)
    refine ⟨rfl, ?_⟩
    unfold applyDirective
    dsimp only
    rw [offset said]
    cases infos with
    | nil =>
      obtain rfl := List.map_eq_nil_iff.mp same.symm
      dsimp only
      split <;> simp [said]
    | cons last rest =>
      obtain ⟨last', rest', rfl, front, back⟩ := List.map_eq_cons_iff.mp same.symm
      dsimp only
      simp only [offset front]
      split <;> simp [said, front, back]

theorem comment_parallel (renames : s.Renames s') (start : Reader) :
    Parallel (comment s start) (comment s' start) := by
  unfold comment
  rcases commentBody start with ⟨r, newline, stop⟩
  dsimp only
  generalize left : applyDirective r s.infos _ = x
  generalize right : applyDirective r s'.infos _ = y
  have both : x.1 = y.1 ∧ x.2.map LineInfo.nameless = y.2.map LineInfo.nameless := by
    rw [← left, ← right]
    refine applyDirective_nameless r renames.infos ?_
    cases stop with
    | none => rfl
    | some next =>
      dsimp only
      rw [apply_ite (Option.map _), apply_ite (Option.map _), lineDirective_nameless s.dir s'.dir]
  obtain ⟨r, infos⟩ := x
  obtain ⟨r', infos'⟩ := y
  obtain ⟨rfl, same⟩ := both
  dsimp only
  rw [renames.ends]
  split
  · exact ⟨rfl, rfl, rfl, rfl, same⟩
  · exact ⟨rfl, rfl, rfl, renames.pending, same⟩

theorem symbol_parallel (renames : s.Renames s') (start : Reader) :
    Parallel (symbol s start) (symbol s' start) := by
  unfold symbol
  rw [renames.ends]
  split <;> exact renames.emit _ _ _ _ _

theorem lexeme_parallel (renames : s.Renames s') (start : Reader) (c : Char) :
    Parallel (lexeme s start c) (lexeme s' start c) := by
  unfold lexeme
  repeat' split
  all_goals first
    | exact renames.emit _ _ _ _ _
    | exact comment_parallel renames start
    | exact symbol_parallel renames start

theorem next_parallel (renames : s.Renames s') : Parallel (next s) (next s') := by
  unfold next
  rw [renames.pending, renames.reader, renames.ends]
  split
  · exact ⟨rfl, rfl, rfl, rfl, renames.infos⟩
  · dsimp only
    split
    · exact lexeme_parallel renames _ _
    · split <;> exact renames.emit _ _ _ _ _

theorem collect_parallel (renames : s.Renames s') (read : List Lexeme) :
    (collect s read).1 = (collect s' read).1 ∧ (collect s read).2.Renames (collect s' read).2 := by
  induction left : s.measure using Nat.strongRecOn generalizing s s' read with
  | ind n ih =>
    have step := next_parallel renames
    rw [Lexer.collect_eq s, Lexer.collect_eq s', ← step.lexeme]
    by_cases eof : (next s).1.kind = .eof
    · rw [if_pos eof, if_pos eof]
      exact ⟨rfl, step.states⟩
    · rw [if_neg eof, if_neg eof]
      exact ih _ (left ▸ next_measure eof) step.states _ rfl

end Scan

variable (name name' : String) (text : Bytes)

theorem scan_renames :
    (scan name text).lexemes = (scan name' text).lexemes ∧
      (scan name text).lines.nameless = (scan name' text).lines.nameless := by
  have start : (Scan.State.start name text).Renames (.start name' text) := ⟨rfl, rfl, rfl, rfl⟩
  obtain ⟨lexemes, renames⟩ := Scan.collect_parallel start []
  refine ⟨lexemes, ?_⟩
  have infos := congrArg List.reverse renames.infos
  rw [← List.map_reverse, ← List.map_reverse] at infos
  unfold scan LineTable.nameless LineTable.ofText
  exact congrArg _ infos

/-! ## Trees -/

/-- Two files with one tree, whose line tables differ at most in names. -/
structure ParsedFile.Renames (f f' : ParsedFile) : Prop where
  file : f.file = f'.file
  lines : f.lines.nameless = f'.lines.nameless

/-- A text is read the same whatever its file is called. -/
theorem Parse.run_renames {α : Type} (keepComments : Bool) (p : Self → Parse α) :
    Akin (fun x y => x.1 = y.1 ∧ x.2.nameless = y.2.nameless) (run name text keepComments p)
      (run name' text keepComments p) := by
  obtain ⟨lexemes, lines⟩ := scan_renames name name' text
  have start : State.start (scan name text) keepComments = State.start (scan name' text) keepComments := by
    unfold State.start
    rw [lexemes, lines]
  unfold run
  dsimp only
  rw [lexemes, start]
  cases p (nested (4 * (scan name' text).lexemes.length + 16)) (State.start (scan name' text) keepComments) with
  | ok a s =>
    dsimp only
    split
    · exact .ok ⟨rfl, lines⟩
    · exact .error _ _
  | error _ s => exact .error _ _

theorem parseFile_renames (keepComments : Bool) :
    Akin ParsedFile.Renames (parseFile name text keepComments) (parseFile name' text keepComments) := by
  have parsed := Parse.run_renames name name' text keepComments Parse.file
  unfold parseFile
  generalize Parse.run name text keepComments Parse.file = x at parsed
  generalize Parse.run name' text keepComments Parse.file = y at parsed
  cases parsed with
  | error => exact .error _ _
  | @ok a b related =>
    obtain ⟨f, lines⟩ := a
    obtain ⟨f', lines'⟩ := b
    obtain ⟨rfl, same⟩ := related
    cases f with
    | none => exact .error _ _
    | some f => exact .ok ⟨rfl, same⟩

theorem parseExpr_renames : Akin Eq (parseExpr name text) (parseExpr name' text) := by
  have parsed := Parse.run_renames name name' text false Parse.single
  unfold parseExpr
  generalize Parse.run name text false Parse.single = x at parsed
  generalize Parse.run name' text false Parse.single = y at parsed
  cases parsed with
  | error => exact .error _ _
  | ok related => exact .ok related.1

/-! ## Layout -/

namespace LineTable

variable (t : LineTable) (offset : Nat)

/-- Without names places are the same but for the names of their files. -/
theorem place_nameless : t.nameless.place offset = { t.place offset with file := "" } := by
  unfold place
  have infos (o : Nat) : ((t.nameless.infos.takeWhile (·.offset ≤ o)).getLast?) =
      ((t.infos.takeWhile (·.offset ≤ o)).getLast?).map LineInfo.nameless := by
    unfold nameless
    rw [List.takeWhile_map, List.getLast?_map]
    rfl
  have raw : (t.nameless.rawPlace offset).offset = (t.rawPlace offset).offset := rfl
  dsimp only
  rw [infos, raw]
  cases (t.infos.takeWhile (·.offset ≤ (t.rawPlace offset).offset)).getLast? with
  | none => rfl
  | some info => rfl

end LineTable

namespace ParsedFile

variable {f f' : ParsedFile}

theorem Renames.lay_eq (renames : f.Renames f') : f.lay = f'.lay := by
  have size : f.lines.size = f'.lines.size := by
    change f.lines.nameless.size = f'.lines.nameless.size
    rw [renames.lines]
  unfold lay
  rw [renames.lines, renames.file, size]

theorem Renames.format_eq (renames : f.Renames f') : f.format = f'.format := by
  unfold format
  rw [renames.lay_eq, renames.file]

theorem Renames.firstPlace_eq (renames : f.Renames f') : Import.firstPlace f = Import.firstPlace f' := by
  have lineOf (offset : Nat) : (f.lines.place offset).line = (f'.lines.place offset).line := by
    have places := congrArg (fun t => (LineTable.place t offset).line) renames.lines
    simpa only [LineTable.place_nameless] using places
  unfold Import.firstPlace
  simp only [lineOf, renames.file]

/-- An import is added to both files or to none. -/
theorem Renames.addImport (renames : f.Renames f') (path : String) :
    Option.Rel Renames (f.addImport path) (f'.addImport path) := by
  unfold ParsedFile.addImport
  rw [renames.file, renames.firstPlace_eq]
  dsimp only
  split
  · exact .none
  · exact .some ⟨rfl, renames.lines⟩

end ParsedFile
end Desugar.Host

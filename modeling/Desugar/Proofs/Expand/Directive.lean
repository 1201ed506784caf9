import Desugar.Expand.Directive
import Desugar.Proofs.Diagnostic
import Desugar.Proofs.Except
import Desugar.Proofs.SourceFile
import Desugar.Proofs.Token.Lines

/-!
# Where requirements stand

Requirements are looked for on the lines of a source, whatever the lines are part of. So one that is not met is
reported at a line comment, or inside of a raw string or a general comment that has a line of the same look.
-/
namespace Desugar.Directive

open Host

/-- A line makes the check of a source fail, with what is reported about it. -/
structure Blames (tool : Version) (file : String) (source : Bytes) (n : Nat) (d : Diagnostic) : Prop where
  line : 1 ≤ n ∧ n ≤ SourceFile.lineCount ⟨file, source⟩
  fault : (requirement? ⟨file, source⟩ n).bind (fault? tool) = some d
  reported : ∃ e, check tool file source = some e ∧ d ∈ e.toDiagnostics

/-- A line comment of a source starts at a position. -/
def IsComment (file : String) (source : Bytes) (p : Position) : Prop :=
  ∃ l ∈ (scan file source).lexemes, l.IsLineComment source ∧ (l.offset : Int) = p.offset

/-- A position is inside of a raw string or a general comment of a source. -/
def IsEnclosed (file : String) (source : Bytes) (p : Position) : Prop :=
  ∃ l ∈ (scan file source).lexemes, ∃ q : Nat, l.IsLong source q ∧ (l.offset : Int) < p.offset ∧ p.offset < q

/-- Where the requirement of a line stands: behind the blanks of the line, where its text starts. -/
structure Stands (f : SourceFile) (n : Nat) (r : Requirement) (o : Nat) : Prop where
  span : r.span = ⟨f.position o, (f.position o).advance (Text.trimBytes (f.line n))⟩
  front : Text.trimBytes (f.line n) <+: f.content.drop o
  mark : requireMark <+: f.content.drop o
  slashes : ∃ first, SlashesAt f.content first o

variable {tool : Version} {f : SourceFile} {file : String} {source : Bytes} {n : Nat} {r : Requirement}
  {d : Diagnostic}

theorem stands_of_requirement? (pos : 1 ≤ n) (le : n ≤ f.lineCount) (found : requirement? f n = some r) :
    ∃ o, Stands f n r o := by
  obtain ⟨first, offset, line⟩ := f.line_at pos le
  obtain ⟨before, after, whole, ⟨cs, blank, rfl⟩, -⟩ := Text.trimBytes_between (f.line n)
  unfold requirement? at found
  dsimp only at found
  split at found
  · cases found
  · rename_i marked
    have mark : requireMark <+: Text.trimBytes (f.line n) := by
      simpa [List.isPrefixOf_iff_prefix] using marked
    split at found
    · have free : (0x2F : UInt8) ∉ Text.encode cs := fun member =>
        absurd (blank _ (Text.mem_of_mem_encode member (by decide))) (by decide)
      have index : Text.indexOf requireMark (f.line n) = some (Text.encode cs).length := by
        rw [whole, List.append_assoc]
        exact Text.indexOf_behind (by decide) free (mark.trans (List.prefix_append _ _))
      have there : Text.trimBytes (f.line n) <+: f.content.drop (first + (Text.encode cs).length) := by
        obtain ⟨rest, same⟩ := line.front
        rw [← List.drop_drop, ← same]
        conv_rhs => rw [whole, List.append_assoc, List.append_assoc, List.drop_left]
        exact List.prefix_append _ _
      have front : Text.encode cs <+: f.content.drop first := by
        refine List.IsPrefix.trans ?_ line.front
        conv_rhs => rw [whole, List.append_assoc]
        exact List.prefix_append _ _
      refine ⟨first + (Text.encode cs).length, ?_, there, mark.trans there, first, line.starts, ?_, ?_⟩
      · rw [← Option.some.inj found, index, offset]
        rfl
      · refine ⟨cs, fun c member => ⟨blank c member, ?_⟩, front, rfl⟩
        rintro rfl
        refine line.free ?_
        rw [whole]
        exact List.mem_append_left _ (List.mem_append_left _ (List.mem_flatMap.mpr ⟨_, member, by decide⟩))
      · obtain ⟨rest, same⟩ := mark.trans there
        have bytes (k : Nat) : f.content[first + (Text.encode cs).length + k]? = (requireMark ++ rest)[k]? := by
          rw [same, List.getElem?_drop]
        exact ⟨bytes 0, bytes 1⟩
    · cases found

theorem fault?_span (found : fault? tool r = some d) : d.span = r.span := by
  unfold fault? at found
  dsimp only at found
  repeat' split at found
  all_goals cases found
  all_goals rfl

/-- Sources without the mark need not be looked at line by line. -/
theorem check_eq : check tool file source = Failure.ofDiagnostics
    ((List.range (SourceFile.lineCount ⟨file, source⟩)).filterMap fun (i : Nat) =>
      (requirement? ⟨file, source⟩ (i + 1 : Nat)).bind (fault? tool)) := by
  unfold check
  split
  · rename_i unmarked
    refine (Failure.ofDiagnostics_eq_none_iff.mpr (List.filterMap_eq_nil_iff.mpr fun i member => ?_)).symm
    refine Option.bind_eq_none_iff.mpr fun r found => ?_
    obtain ⟨o, stands⟩ := stands_of_requirement? (Nat.succ_pos i) (List.mem_range.mp member) found
    have contained : requireMark <:+: source := stands.mark.isInfix.trans (List.drop_suffix o source).isInfix
    rw [(Text.contains_iff (by decide)).mpr contained] at unmarked
    cases unmarked
  · rfl

/-- A line with a requirement that is not met makes the check fail. -/
theorem blames_iff : Blames tool file source n d ↔ (1 ≤ n ∧ n ≤ SourceFile.lineCount ⟨file, source⟩) ∧
    (requirement? ⟨file, source⟩ n).bind (fault? tool) = some d := by
  refine ⟨fun h => ⟨h.line, h.fault⟩, fun ⟨line, fault⟩ => ⟨line, fault, ?_⟩⟩
  rw [check_eq]
  generalize told : List.filterMap _ _ = ds
  have member : d ∈ ds := by
    rw [← told]
    refine List.mem_filterMap.mpr ⟨n - 1, List.mem_range.mpr (by omega), ?_⟩
    rwa [Nat.sub_add_cancel line.1]
  refine ⟨_, Failure.ofDiagnostics_eq_some_iff.mpr ⟨List.ne_nil_of_mem member, rfl⟩, ?_⟩
  exact (Diagnostic.sort_stable ds).1.mem_iff.mpr member

/-- The check fails exactly if a line makes it fail. -/
theorem check_isSome_iff : (check tool file source).isSome ↔ ∃ n d, Blames tool file source n d := by
  constructor
  · intro fails
    obtain ⟨e, failed⟩ := Option.isSome_iff_exists.mp fails
    rw [check_eq] at failed
    obtain ⟨d, member⟩ := List.exists_mem_of_ne_nil _ (Failure.ofDiagnostics_eq_some_iff.mp failed).1
    obtain ⟨i, inside, fault⟩ := List.mem_filterMap.mp member
    exact ⟨i + 1, d, blames_iff.mpr ⟨⟨Nat.succ_pos i, List.mem_range.mp inside⟩, fault⟩⟩
  · rintro ⟨n, d, blames⟩
    obtain ⟨e, failed, -⟩ := blames.reported
    rw [failed]
    rfl

/-- In a source that is read as tokens, what is reported about a line covers what the line has behind its blanks.
It is reported at a line comment unless it is inside of a raw string or a general comment. -/
theorem check_onlyComments_iff {ts : List Token} (read : Lexer.lex file source = .ok ts) :
    ((check tool file source).isSome ↔ ∃ n d, Blames tool file source n d) ∧
    (∀ n d, Blames tool file source n d →
      (IsComment file source d.span.start ↔ ¬ IsEnclosed file source d.span.start) ∧
      SourceFile.text ⟨file, source⟩ d.span = Text.trimBytes (SourceFile.line ⟨file, source⟩ n)) ∧
    ((∀ n d, Blames tool file source n d → IsComment file source d.span.start) ↔
      ¬ ∃ n d, Blames tool file source n d ∧ IsEnclosed file source d.span.start) := by
  have each (n : Nat) (d : Diagnostic) (blames : Blames tool file source n d) :
      (IsComment file source d.span.start ↔ ¬ IsEnclosed file source d.span.start) ∧
      SourceFile.text ⟨file, source⟩ d.span = Text.trimBytes (SourceFile.line ⟨file, source⟩ n) := by
    obtain ⟨r, found, fault⟩ := Option.bind_eq_some_iff.mp blames.fault
    obtain ⟨o, stands⟩ := stands_of_requirement? blames.line.1 blames.line.2 found
    obtain ⟨first, slashes⟩ := stands.slashes
    have inside : o ≤ source.length := Nat.le_of_lt (List.getElem?_eq_some_iff.mp slashes.slashes.1).1
    have start : (SourceFile.position ⟨file, source⟩ o).offset = o := by
      rw [LineTable.position_eq inside]
    have iff := Lexer.lineComment_iff read slashes
    rw [fault?_span fault, stands.span]
    refine ⟨?_, SourceFile.text_advance _ inside stands.front⟩
    simp only [IsComment, IsEnclosed, start, Int.natCast_inj, Int.ofNat_lt]
    exact iff
  refine ⟨check_isSome_iff, each, fun all => ?_, fun unenclosed n d blames => ?_⟩
  · rintro ⟨n, d, blames, enclosed⟩
    exact (each n d blames).1.mp (all n d blames) enclosed
  · exact (each n d blames).1.mpr fun enclosed => unenclosed ⟨n, d, blames, enclosed⟩

/-- A comment that asks for a later version, indented by one tab. -/
theorem check_onlyComments_iff_indented :
    let tool : Version := ⟨0, 3, 0, "", ""⟩
    let source := Text.utf8 "package p\n\nfunc f() \x7b\n\t//gosugar:require >= 99\n\x7d\n"
    ∃ ts, Lexer.lex "demo.sgo" source = .ok ts ∧ ∃ d, Blames tool "demo.sgo" source 4 d ∧
      IsComment "demo.sgo" source d.span.start ∧ ¬ IsEnclosed "demo.sgo" source d.span.start ∧
      SourceFile.text ⟨"demo.sgo", source⟩ d.span = Text.trimBytes (SourceFile.line ⟨"demo.sgo", source⟩ 4) := by
  intro tool source
  have read : (Lexer.lex "demo.sgo" source).toOption.isSome = true := by decide +kernel
  obtain ⟨ts, read⟩ := Option.isSome_iff_exists.mp read
  have fault : ((requirement? ⟨"demo.sgo", source⟩ 4).bind (fault? tool)).map (·.span.start.offset) = some 23 := by
    decide +kernel
  obtain ⟨d, fault, offset⟩ := Option.map_eq_some_iff.mp fault
  have within : 4 ≤ SourceFile.lineCount ⟨"demo.sgo", source⟩ := by decide
  have blames : Blames tool "demo.sgo" source 4 d := blames_iff.mpr ⟨⟨by decide, within⟩, fault⟩
  have comment : ∃ l ∈ (scan "demo.sgo" source).lexemes,
      l.kind = .comment ∧ source[l.offset + 1]? = some 0x2F ∧ (l.offset : Int) = 23 := by decide +kernel
  obtain ⟨l, member, kind, second, here⟩ := comment
  have comment : IsComment "demo.sgo" source d.span.start := ⟨l, member, ⟨kind, second⟩, here.trans offset.symm⟩
  have told := (check_onlyComments_iff (eq_ok_of_toOption read)).2.1 4 d blames
  exact ⟨ts, eq_ok_of_toOption read, d, blames, comment, told.1.mp comment, told.2⟩

/-- A line of a raw string makes the check fail. -/
theorem check_rawString_fails :
    let tool : Version := ⟨0, 3, 0, "", ""⟩
    let source := Text.utf8 "package p\n\nvar s = `\n//gosugar:require >= 99\n`\n"
    (∃ ts, Lexer.lex "demo.sgo" source = .ok ts) ∧
      ∃ d, Blames tool "demo.sgo" source 4 d ∧ ¬ IsComment "demo.sgo" source d.span.start := by
  intro tool source
  have read : (Lexer.lex "demo.sgo" source).toOption.isSome = true := by decide +kernel
  obtain ⟨ts, read⟩ := Option.isSome_iff_exists.mp read
  have fault : ((requirement? ⟨"demo.sgo", source⟩ 4).bind (fault? tool)).isSome = true := by decide +kernel
  obtain ⟨d, fault⟩ := Option.isSome_iff_exists.mp fault
  have within : 4 ≤ SourceFile.lineCount ⟨"demo.sgo", source⟩ := by decide
  have noComment : ∀ l ∈ (scan "demo.sgo" source).lexemes, l.kind ≠ .comment := by decide +kernel
  refine ⟨⟨ts, eq_ok_of_toOption read⟩, d, blames_iff.mpr ⟨⟨by decide, within⟩, fault⟩, ?_⟩
  rintro ⟨l, member, comment, -⟩
  exact noComment l member comment.kind

end Desugar.Directive

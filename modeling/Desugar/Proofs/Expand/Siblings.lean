import Desugar.Config
import Desugar.Expand.Whole
import Desugar.Proofs.FileTree

/-!
# Outputs beside their sources

What a source is expanded to depends on the other files of its package, but not on what sources have been
expanded to before: a plain file is passed over if a source of the same directory is written to it.
-/
namespace Desugar.Expander

open FileTree

/-- The path of a file that a source beside it is written to: its name without the ending, with the
extension of sources instead. -/
def IsOutput (e : Expander) (t : FileTree) (p : String) : Prop :=
  ∃ stem q content, Path.base p = stem ++ ".go" ∧ Path.base q = stem ++ e.extension ∧
    Path.dir q = Path.dir p ∧ t.entry? q = some (.file content)

/-- Two trees differ at most in whether files that sources are written to are there, and in what they hold. -/
structure SameButOutputs (e : Expander) (t t' : FileTree) : Prop where
  root : t.root = t'.root
  entries (p : String) : t.entry? p = t'.entry? p ∨ (e.IsOutput t p ∧
    t.entry? p ≠ some .directory ∧ t'.entry? p ≠ some .directory)

/-- The one dot of an extension is at its front, and the extension is not that of outputs. -/
structure IsExtension (extension : String) : Prop where
  dotted : ∃ rest, extension = String.ofList ('.' :: rest) ∧ '.' ∉ rest ∧ '/' ∉ rest
  other : extension ≠ ".go"

variable {e : Expander} {t t' : FileTree} {file : String}

theorem IsExtension.plain {extension : String} (ext : IsExtension extension) : '/' ∉ extension.toList := by
  obtain ⟨rest, rfl, -, plain⟩ := ext.dotted
  simpa using plain

theorem IsExtension.ne_empty {extension : String} (ext : IsExtension extension) : extension ≠ "" := by
  obtain ⟨rest, rfl, -⟩ := ext.dotted
  exact fun empty => by simpa using congrArg String.toList empty

theorem SameButOutputs.sameDirectories (same : e.SameButOutputs t t') : t.SameDirectories t' := by
  refine ⟨same.root.symm, fun p => ?_⟩
  rcases same.entries p with agree | ⟨-, other, other'⟩
  · rw [agree]
  · exact iff_of_false other' other

/-- A tree differs by one more output at most from what it was. -/
theorem sameButOutputs_insert {p : String} {content : Bytes} (dot : p ≠ ".")
    (output : e.IsOutput (t.insert p (.file content)) p) (other : t.entry? p ≠ some .directory) :
    e.SameButOutputs (t.insert p (.file content)) t := by
  refine ⟨rfl, fun q => ?_⟩
  by_cases here : q = p
  · subst here
    exact .inr ⟨output, by simp [entry_insert dot], other⟩
  · exact .inl (by rw [entry_insert dot, if_neg here])

/-- The extension of a source has one dot: that of its name starts at the last one. -/
theorem isExtension_of_isSource {c : Config} (valid : c.invalid? = none) (extension : e.extension = c.extension)
    (source : e.isSource file) : IsExtension e.extension := by
  have dot : c.extension.toList.head? = some '.' ∧ c.extension ≠ ".go" := by
    unfold Config.invalid? at valid
    by_cases head : c.extension.toList.head? = some '.' <;> by_cases go : c.extension = ".go" <;>
      simp_all
  have ending : Path.ext file = e.extension := by simpa [isSource] using source
  have nonempty : Path.ext file ≠ "" := by
    rw [ending, extension]
    intro empty
    simp [empty] at dot
  obtain ⟨rest, same, single, plain⟩ := Path.ext_shape nonempty
  exact ⟨⟨rest, ending ▸ same, single, plain⟩, extension ▸ dot.2⟩

/-! ## Sources and outputs -/

/-- What the sources among some entries are written to. -/
def outputsAmong (e : Expander) (entries : List (String × FileEntry)) : List String :=
  (entries.filter fun (name, _) => e.isSource name).map fun (name, _) => e.outputPath name

theorem ext_of_output {entries : List (String × FileEntry)} {name : String}
    (written : name ∈ e.outputsAmong entries) : Path.ext name = ".go" := by
  unfold outputsAmong at written
  obtain ⟨⟨source, entry⟩, -, rfl⟩ := List.mem_map.mp written
  exact Path.ext_append (by decide) (by decide) _

theorem IsOutput.ext_base {p : String} (output : e.IsOutput t p) : Path.ext (Path.base p) = ".go" := by
  obtain ⟨stem, q, content, base, -⟩ := output
  rw [base]
  exact Path.ext_append (by decide) (by decide) _

/-- No source is written to a source. -/
theorem isSource_of_ext (ext : IsExtension e.extension) {path : String} (ending : Path.ext path = ".go") :
    e.isSource path = false := by
  unfold isSource
  rw [ending]
  simpa using ext.other.symm

/-- The outputs in a directory are among those of the sources there. -/
theorem IsOutput.mem_outputsAmong (ext : IsExtension e.extension) (wf : t.WellFormed) {path clean p : String}
    (output : e.IsOutput t p) (there : t.relative? path = some clean) (dir : Path.dir p = clean) :
    Path.base p ∈ e.outputsAmong (t.list path) := by
  obtain ⟨stem, q, content, base, base', dir', found⟩ := output
  obtain ⟨rest, same, single, plain⟩ := ext.dotted
  have dot : q ≠ "." := by
    rintro rfl
    cases found
  have listed : (stem ++ e.extension, FileEntry.file content) ∈ t.list path :=
    (wf.mem_list_iff there).mpr ⟨q, found, dot, dir'.trans dir, base'⟩
  have source : e.isSource (stem ++ e.extension) = true := by
    unfold isSource
    rw [same, Path.ext_append single plain]
    simp
  have written : e.outputPath (stem ++ e.extension) = Path.base p := by
    rw [base]
    unfold outputPath Desugar.outputPath
    rw [Path.dropTail_append]
  unfold outputsAmong
  exact List.mem_map.mpr ⟨_, List.mem_filter.mpr ⟨listed, source⟩, written⟩

theorem outputsAmong_eq (ext : IsExtension e.extension) (wf : t.WellFormed) (wf' : t'.WellFormed)
    (same : e.SameButOutputs t t') (path : String) :
    e.outputsAmong (t.list path) = e.outputsAmong (t'.list path) := by
  unfold outputsAmong
  rw [filter_list_eq wf wf' same.root path]
  intro clean there p entry dot dir source
  rcases same.entries p with agree | ⟨output, -, -⟩
  · rw [agree]
  · dsimp only at source
    rw [isSource_of_ext ext output.ext_base] at source
    cases source

/-- A path of a file that a source is written to has the ending of outputs. -/
theorem IsOutput.ext_path {path p : String} (output : e.IsOutput t p) (there : t.relative? path = some p)
    (inside : p ≠ ".") (asks : Path.asksDirectory path = false) : Path.ext path = ".go" := by
  have name := Path.isPart_lastPart asks
  have last : Path.lastPart p = Path.lastPart path := lastPart_relative there inside name
  rw [← output.ext_base, Path.base_eq (by rw [last]; exact name.nonempty), last, Path.ext_ofList_lastPart]

/-- A source is no output, so it is in both trees. -/
theorem entry_source_eq (ext : IsExtension e.extension) (same : e.SameButOutputs t t') (source : e.isSource file)
    {clean : String} (there : t.relative? file = some clean) (asks : Path.asksDirectory file = false) :
    t.entry? clean = t'.entry? clean := by
  rcases same.entries clean with agree | ⟨output, other, -⟩
  · exact agree
  · rw [isSource_of_ext ext (output.ext_path there (ne_dot_of_entry other) asks)] at source
    cases source

/-- Whether a source is there does not hang on the outputs. -/
theorem exists_source_eq (ext : IsExtension e.extension) (same : e.SameButOutputs t t')
    (source : e.isSource file) : t.exists? file = t'.exists? file := by
  refine exists?_eq same.root (fun p => ?_) fun clean there asks => entry_source_eq ext same source there asks
  rcases same.entries p with agree | ⟨-, other, other'⟩
  · rw [agree]
  · exact iff_of_false other other'

/-! ## The files of a package -/

/-- One round of the loop over the files of a directory. -/
def addSibling (e : Expander) (file package dir : String) (outputs : List String)
    (entry : String × FileEntry) (files : List Host.ParsedFile) :
    Traced (ForInStep (List Host.ParsedFile)) := do
  match entry.2 with
  | .directory => return .yield files
  | .file content =>
    if entry.1 ≠ Path.base file && (!isTestFile entry.1 || isTestFile (Path.base file)) then
      let path := Path.join [dir, entry.1]
      match ← e.siblingText file path entry.1 content outputs with
      | none => return .yield files
      | some text =>
        match Host.parseFile path text false with
        | .ok f => if f.file.name.name = package then return .yield (files ++ [f]) else return .yield files
        | .error _ => return .yield files
    else return .yield files

theorem packageFiles_eq (e : Expander) (t : FileTree) (file package : String) :
    e.packageFiles t file package = if !t.exists? file then pure [] else
      forIn (t.list (Path.dir file)) [] (e.addSibling file package (Path.dir file)
        (e.outputsAmong (t.list (Path.dir file)))) := by
  unfold packageFiles
  split
  · rfl
  · dsimp only
    rw [bind_pure]
    refine congrArg (forIn (m := Traced) (t.list (Path.dir file)) ([] : List Host.ParsedFile)) ?_
    funext ⟨name, entry⟩ files
    cases entry with
    | directory => rfl
    | file content =>
      unfold addSibling
      dsimp only
      split <;> rfl

/-- A file that a source beside it is written to adds nothing. -/
theorem addSibling_output (ext : IsExtension e.extension) {entries : List (String × FileEntry)}
    {entry : String × FileEntry} (written : entry.1 ∈ e.outputsAmong entries) (file package dir : String)
    (files : List Host.ParsedFile) :
    e.addSibling file package dir (e.outputsAmong entries) entry files = pure (.yield files) := by
  have left (path : String) (content : Bytes) :
      e.siblingText file path entry.1 content (e.outputsAmong entries) = pure none := by
    unfold siblingText
    rw [isSource_of_ext ext (ext_of_output written)]
    simp [written]
  unfold addSibling
  split
  · rfl
  · dsimp only
    rw [left, pure_bind, ite_self]

/-- Elements whose rounds change nothing can be left out of a loop. -/
theorem forIn_filter {m : Type → Type} [Monad m] [LawfulMonad m] {α β : Type} {p : α → Bool}
    {round : α → β → m (ForInStep β)} {l : List α}
    (dropped : ∀ a, p a = false → ∀ b, round a b = pure (.yield b)) (b : β) :
    forIn (l.filter p) b round = forIn l b round := by
  induction l generalizing b with
  | nil => rfl
  | cons a l ih =>
    cases kept : p a with
    | true =>
      rw [List.filter_cons_of_pos kept, List.forIn_cons, List.forIn_cons]
      congr 1
      funext step
      cases step with
      | done b => rfl
      | yield b => exact ih b
    | false =>
      rw [List.filter_cons_of_neg (by simp [kept]), List.forIn_cons, dropped a kept, pure_bind]
      exact ih b

/-- The files of a package are the same whatever sources have been written to. -/
theorem packageFiles_congr (ext : IsExtension e.extension) (wf : t.WellFormed) (wf' : t'.WellFormed)
    (same : e.SameButOutputs t t') (source : e.isSource file) (package : String) :
    e.packageFiles t file package = e.packageFiles t' file package := by
  have outputs := outputsAmong_eq ext wf wf' same (Path.dir file)
  have others : (t.list (Path.dir file)).filter (fun entry => entry.1 ∉ e.outputsAmong (t.list (Path.dir file))) =
      (t'.list (Path.dir file)).filter (fun entry => entry.1 ∉ e.outputsAmong (t.list (Path.dir file))) := by
    refine filter_list_eq wf wf' same.root _ fun clean there p entry dot dir other => ?_
    rcases same.entries p with agree | ⟨output, -, -⟩
    · rw [agree]
    · exact absurd (output.mem_outputsAmong ext wf there dir) (by simpa using other)
  have left (l : List (String × FileEntry)) := forIn_filter (l := l)
    (p := fun entry => entry.1 ∉ e.outputsAmong (t.list (Path.dir file)))
    (fun entry written => addSibling_output ext (by simpa using written) file package (Path.dir file)) []
  rw [packageFiles_eq, packageFiles_eq, exists_source_eq ext same source, ← outputs,
    ← left (t.list (Path.dir file)), ← left (t'.list (Path.dir file)), others]

/-- What a source is expanded to, or why it is not, does not depend on what sources were written to. -/
theorem expandSource_ignores_outputs {c : Config} (valid : c.invalid? = none)
    (extension : e.extension = c.extension) (wf : t.WellFormed) (wf' : t'.WellFormed)
    (same : e.SameButOutputs t t') (source : e.isSource file) (content : Bytes) :
    e.expandSource t file content = e.expandSource t' file content := by
  have ext := isExtension_of_isSource valid extension source
  unfold expandSource lower
  simp only [packageFiles_congr ext wf wf' same source]

/-- A constant of an old output is not seen by the source that it was written for. -/
theorem expandSource_ignores_outputs_constant :
    let e : Expander := ⟨.standard, ⟨"", ""⟩, 64, false, ".sgo", ⟨0, 3, 0, "", ""⟩⟩
    let source := Text.utf8 "package p\nvar v = cxp!((true)?(k):(k))"
    let fresh : FileTree := ⟨"/w", [("a.sgo", .file source)]⟩
    let stale := fresh.insert "a.go" (.file (Text.utf8 "package p\nconst k = 1"))
    (Config.standard .four).invalid? = none ∧ e.isSource "a.sgo" ∧
      e.expandSource stale "a.sgo" source = e.expandSource fresh "a.sgo" source := by
  intro e source fresh stale
  have clean : Path.IsClean "a.sgo" := Path.isClean_of_parts (by decide)
  have wf : fresh.WellFormed := by
    refine ⟨by simp [fresh], ?_, ?_⟩
    · simpa [fresh] using clean
    · decide
  have wf' : stale.WellFormed := wf.insert (Path.isClean_of_parts (by decide)) (by decide) (by decide) _
  have output : e.IsOutput stale "a.go" := ⟨"a", "a.sgo", source, by decide, by decide, by decide, by decide⟩
  have same : e.SameButOutputs stale fresh := sameButOutputs_insert (by decide) output (by decide)
  have valid : (Config.standard .four).invalid? = none := by decide
  exact ⟨valid, by decide, expandSource_ignores_outputs valid rfl wf' wf same (by decide) source⟩

end Desugar.Expander

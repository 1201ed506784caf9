import Desugar.Proofs.Command.Outputs
import Desugar.Proofs.Config
import Desugar.Proofs.Expand.Siblings
import Desugar.Proofs.Expand.Spelling
import Desugar.Proofs.Watch.Walking

/-!
# Expanding again

A command that has written its expansions leaves files for which nothing is to be done: the same sources are
found again, and each of them still expands to what its output holds. Outputs are no sources, and what they hold
is not looked at where sources expand. Two sources are written to one output only if they are one file under two
spellings of its path, and then they expand to the same.
-/
namespace Desugar

open FileTree

/-! ## Expansions -/

namespace Expander

variable {e : Expander} {t t' : FileTree} {path path' stem : String} {content content' : Bytes}

/-- What the file at a path is expanded to, if it can be read and expanded. -/
def expansion? (e : Expander) (t : FileTree) (path : String) : Option Bytes :=
  ((e.expandFile t path).run #[]).1.result.toOption

theorem expansion?_of_read (read : t.read path = .ok content) :
    e.expansion? t path = ((e.expandSource t path content).run.run #[]).1.toOption := by
  unfold expansion? expandFile
  rw [read]
  rfl

theorem read_of_expansion? {out : Bytes} (expanded : e.expansion? t path = some out) :
    ∃ content, t.read path = .ok content := by
  unfold expansion? expandFile at expanded
  cases read : t.read path with
  | error f =>
    rw [read] at expanded
    cases expanded
  | ok content => exact ⟨content, rfl⟩

theorem expandFile_result (builtin : e.IsBuiltin) (t : FileTree) (path : String) (log : Array String) :
    ((e.expandFile t path).run log).1.path = path ∧
      ((e.expandFile t path).run log).1.result.toOption = e.expansion? t path := by
  cases read : t.read path with
  | error f =>
    unfold expansion? expandFile
    rw [read]
    exact ⟨rfl, rfl⟩
  | ok content =>
    have akin := expandSource_lockstep builtin (.refl t path) content log #[]
    rw [expansion?_of_read read, ← akin.toOption_eq]
    unfold expandFile
    rw [read]
    exact ⟨rfl, rfl⟩

/-- What becomes of files is what becomes of each of them. -/
theorem expandFiles_results (builtin : e.IsBuiltin) (t : FileTree) (paths : List String) (log : Array String) :
    ((e.expandFiles t paths).run log).1.map (fun r => (r.path, r.result.toOption)) =
      paths.map fun path => (path, e.expansion? t path) := by
  unfold expandFiles
  induction paths generalizing log with
  | nil => rfl
  | cons path paths ih =>
    obtain ⟨same, result⟩ := expandFile_result builtin t path log
    rw [List.mapM_cons, List.map_cons]
    exact congrArg₂ List.cons (Prod.ext same result) (ih _)

/-- What became of some files is told once for each of them or more often, and for no other. -/
structure ResultsOf (e : Expander) (t : FileTree) (paths : List String) (results : List Expanded) : Prop where
  tells : ∀ r ∈ results, r.path ∈ paths ∧ r.result.toOption = e.expansion? t r.path
  covers : ∀ path ∈ paths, ∃ r ∈ results, r.path = path

theorem resultsOf_expandFiles (builtin : e.IsBuiltin) (t : FileTree) (paths : List String) (log : Array String) :
    e.ResultsOf t paths ((e.expandFiles t paths).run log).1 := by
  have results := expandFiles_results builtin t paths log
  constructor
  · intro r member
    have listed := results ▸ List.mem_map_of_mem (f := fun r : Expanded => (r.path, r.result.toOption)) member
    obtain ⟨path, asked, same⟩ := List.mem_map.mp listed
    obtain ⟨rfl, same⟩ := Prod.mk.inj same
    exact ⟨asked, same.symm⟩
  · intro path asked
    have listed := results ▸ List.mem_map_of_mem (f := fun path => (path, e.expansion? t path)) asked
    obtain ⟨r, member, same⟩ := List.mem_map.mp listed
    exact ⟨r, member, (Prod.mk.inj same).1⟩

/-! ## Places of sources -/

theorem isPart_output (stem : String) : Path.IsPart (Path.lastPart (stem ++ ".go")) := by
  rw [Path.lastPart_append (by decide)]
  exact Path.isPart_append (Path.slash_not_mem_lastPart stem) (by decide) (by decide)

/-- A source is a file at some place, and what it is written to has its place beside it. -/
structure StandsAt (e : Expander) (t : FileTree) (path stem : String) (content : Bytes) : Prop where
  isSource : e.isSource path
  file : t.find path = .ok (.file content)
  source : t.relative? path = some (stem ++ e.extension)
  output : t.relative? (e.outputPath path) = some (stem ++ ".go")
  entry : t.entry? (stem ++ e.extension) = some (.file content)

theorem standsAt_of_find (ext : IsExtension e.extension) (source : e.isSource path)
    (found : t.find path = .ok (.file content)) : ∃ stem, e.StandsAt t path stem content := by
  obtain ⟨-, asks, clean, there, entry⟩ := find_eq_file found
  obtain ⟨front, shape⟩ := Path.exists_append_ext path
  have ending : Path.ext path = e.extension := by simpa [isSource] using source
  rw [ending] at shape
  have name := Path.isPart_lastPart asks
  have inside : clean ≠ "." := ne_dot_of_entry (t := t) (by simp [entry])
  have written : e.outputPath path = front ++ ".go" := by
    rw [shape, outputPath, Desugar.outputPath, Path.dropTail_append]
  rw [shape] at name there
  obtain ⟨stem, rfl, there'⟩ := relative?_append ext.plain (by decide) name (isPart_output front) there inside
  exact ⟨stem, source, found, shape ▸ there, written ▸ there', entry⟩

theorem StandsAt.isOutput (ext : IsExtension e.extension) (stands : e.StandsAt t path stem content) :
    e.IsOutput t (stem ++ ".go") := by
  exact ⟨String.ofList (Path.lastPart stem), stem ++ e.extension, content,
    Path.base_append (by decide) stem (by decide), Path.base_append ext.plain stem ext.ne_empty,
    Path.dir_append ext.plain (by decide) stem, stands.entry⟩

theorem StandsAt.isClean_output (ext : IsExtension e.extension) (wf : t.WellFormed)
    (stands : e.StandsAt t path stem content) : Path.IsClean (stem ++ ".go") := by
  have inside : stem ++ e.extension ≠ "." := ne_dot_of_entry (t := t) (by simp [stands.entry])
  exact (wf.isClean stands.entry inside).append ext.plain (by decide) stem (isPart_output stem)

theorem StandsAt.read (stands : e.StandsAt t path stem content) : t.read path = .ok content := by
  rw [FileTree.read, lookup, stands.file]
  rfl

/-- The place of an output tells the place of its source. -/
theorem StandsAt.stem_eq {stem' : String} (stands : e.StandsAt t path stem content)
    (output : t.relative? (e.outputPath path) = some (stem' ++ ".go")) : stem = stem' := by
  have texts := congrArg String.toList (Option.some.inj (stands.output.symm.trans output))
  rw [String.toList_append, String.toList_append] at texts
  exact String.toList_injective (List.append_cancel_right texts)

/-- Sources at one place expand to the same. -/
theorem StandsAt.expansion?_eq (builtin : e.IsBuiltin) (stands : e.StandsAt t path stem content)
    (stands' : e.StandsAt t path' stem content') : e.expansion? t path = e.expansion? t path' := by
  obtain rfl : content = content' := by simpa using stands.entry.symm.trans stands'.entry
  have spells : Spells t path path' := .of_relative? stands.file stands'.file stands.source stands'.source
  rw [expansion?_of_read stands.read, expansion?_of_read stands'.read]
  exact (expandSource_lockstep builtin spells content #[] #[]).toOption_eq

/-! ## Sources in a tree with other outputs -/

/-- What stands below a directory is found by names that are listed. -/
theorem under_of_lists {t t' : FileTree} {names : List String} {first last : FileEntry}
    (lists : ∀ path name (child : FileEntry), child.isDirectory = true ∨ e.isSource name = true →
      (name, child) ∈ t.list path → (name, child) ∈ t'.list path)
    (under : t.Under path first names last)
    (kept : last.isDirectory = true ∨ ∀ name ∈ names.getLast?, e.isSource name = true) :
    t'.Under path first names last := by
  induction under with
  | here => exact .here
  | @down path name child names last listed under ih =>
    cases under with
    | here => exact .down (lists path name child (kept.imp_right fun source => source name rfl) listed) .here
    | @down _ next _ names _ listed' below =>
      have goOn := ih (kept.imp_right fun source => by rwa [List.getLast?_cons_cons] at source)
      exact .down (lists path name .directory (.inl rfl) listed) goOn

theorem isSource_descend {root : String} (nonempty : root ≠ "") {names : List String}
    (proper : ∀ name ∈ names, Path.IsPart name.toList) :
    ∀ name ∈ names.getLast?, e.isSource (Path.descend root names) = e.isSource name := by
  rcases List.eq_nil_or_concat names with rfl | ⟨front, name, rfl⟩
  · exact nofun
  · rw [List.concat_eq_append, List.forall_mem_append, List.forall_mem_singleton] at proper
    obtain ⟨proper, part⟩ := proper
    have last := Path.lastPart_join (Path.descend_ne_empty nonempty proper) part
    have ending : Path.ext (Path.descend root (front ++ [name])) = Path.ext name := by
      rw [Path.descend, List.foldl_append, List.foldl_cons, List.foldl_nil, ← Path.descend, ← Path.ext_ofList_lastPart,
        last, String.ofList_toList]
    simp [isSource, ending]

/-- Sources that are found stay found where what is on the way is listed. -/
theorem sourceNames_of_lists {t t' : FileTree} {root : String} {names : List String} (wf : t.WellFormed)
    (wf' : t'.WellFormed) (nonempty : root ≠ "")
    (lists : ∀ path name (child : FileEntry), child.isDirectory = true ∨ e.isSource name = true →
      (name, child) ∈ t.list path → (name, child) ∈ t'.list path)
    (found : names ∈ Watch.sourceNames e t root) : names ∈ Watch.sourceNames e t' root := by
  rw [Watch.mem_sourceNames e wf nonempty, Watch.mem_watchedNames wf nonempty] at found
  obtain ⟨⟨content, file⟩, source, directory, entered⟩ := found
  have last name (member : name ∈ names.getLast?) : e.isSource name = true :=
    isSource_descend nonempty (wf.isPart_of_under file) name member ▸ source
  rw [Watch.mem_sourceNames e wf' nonempty, Watch.mem_watchedNames wf' nonempty]
  exact ⟨⟨content, under_of_lists lists file (.inr last)⟩, source, under_of_lists lists directory (.inl rfl), entered⟩

section
variable (ext : IsExtension e.extension) (same : e.SameButOutputs t t')
include ext same

theorem find_source (source : e.isSource path) (found : t.find path = .ok (.file content)) :
    t'.find path = .ok (.file content) := by
  obtain ⟨named, asks, clean, there, entry⟩ := find_eq_file found
  refine find_file named asks ((same.sameDirectories.relative?_eq path).trans there) ?_
  rw [← entry_source_eq ext same source there asks, entry]

variable (wf : t.WellFormed) (wf' : t'.WellFormed)
include wf wf'

theorem expansion?_congr (stands : e.StandsAt t path stem content) :
    e.expansion? t path = e.expansion? t' path := by
  have read : t'.read path = .ok content := by
    rw [FileTree.read, lookup, find_source ext same stands.isSource stands.file]
    rfl
  have expands : e.expandSource t path content = e.expandSource t' path content := by
    unfold expandSource lower
    simp only [packageFiles_congr ext wf wf' same stands.isSource]
  rw [expansion?_of_read stands.read, expansion?_of_read read, expands]

/-- Directories and sources are listed in both trees. -/
theorem mem_list_congr {name : String} {child : FileEntry}
    (kept : child.isDirectory = true ∨ e.isSource name = true) :
    (name, child) ∈ t.list path ↔ (name, child) ∈ t'.list path := by
  have lists : (t.list path).filter (fun entry => entry.2.isDirectory || e.isSource entry.1) =
      (t'.list path).filter (fun entry => entry.2.isDirectory || e.isSource entry.1) := by
    refine filter_list_eq wf wf' same.root path fun clean there p entry dot dir kept => ?_
    rcases same.entries p with agree | ⟨output, other, other'⟩
    · rw [agree]
    · rw [isSource_of_ext ext output.ext_base, Bool.or_false] at kept
      cases entry with
      | file => cases kept
      | directory => exact iff_of_false other other'
  have members (l : List (String × FileEntry)) :
      (name, child) ∈ l ↔ (name, child) ∈ l.filter fun entry => entry.2.isDirectory || e.isSource entry.1 := by
    rw [List.mem_filter]
    simpa using fun _ => kept
  rw [members (t.list path), lists, ← members]

/-- From a directory the same sources are found. -/
theorem sourceNames_congr {root : String} (nonempty : root ≠ "") :
    Watch.sourceNames e t root = Watch.sourceNames e t' root := by
  have lists (path name : String) (child : FileEntry) (kept : child.isDirectory = true ∨ e.isSource name = true) :
      (name, child) ∈ t.list path ↔ (name, child) ∈ t'.list path := mem_list_congr ext same wf wf' kept
  refine (Watch.sourceNames_ascends e wf root).eq_of_mem_iff (Watch.sourceNames_ascends e wf' root) fun names => ?_
  exact ⟨sourceNames_of_lists wf wf' nonempty fun _ _ _ kept => (lists _ _ _ kept).mp,
    sourceNames_of_lists wf' wf nonempty fun _ _ _ kept => (lists _ _ _ kept).mpr⟩

end
end Expander

namespace Command

variable {x : Expander} {t t' : FileTree} {paths : List String}

/-! ## Finding the sources -/

/-- The arguments that are looked at: without any it is the directory to work in. -/
def rootsOf (workDir : String) (args : List String) : List String := if args.isEmpty then [workDir] else args

/-- The files that an argument stands for. -/
def filesOf (x : Expander) (t : FileTree) (arg : String) : Except FileError (List String) := do
  match ← t.lookup "stat" arg with
  | .file _ => return [arg]
  | .directory => x.sourceFiles t arg

theorem collect_eq (x : Expander) (t : FileTree) (workDir : String) (args : List String) :
    collect x t workDir args = do return (← (rootsOf workDir args).mapM (filesOf x t)).flatten := rfl

theorem filesOf_eq_ok {arg : String} (found : filesOf x t arg = .ok paths) :
    (∃ content, t.find arg = .ok (.file content) ∧ paths = [arg]) ∨
      t.find arg = .ok .directory ∧ x.sourceFiles t arg = .ok paths := by
  unfold filesOf lookup at found
  cases stands : t.find arg with
  | error cause =>
    rw [stands] at found
    cases found
  | ok entry =>
    rw [stands] at found
    cases entry with
    | file content => exact .inl ⟨content, rfl, (Except.ok.inj found).symm⟩
    | directory => exact .inr ⟨rfl, found⟩

theorem filesOf_file {arg : String} {content : Bytes} (stands : t.find arg = .ok (.file content)) :
    filesOf x t arg = .ok [arg] := by
  rw [filesOf, lookup, stands]
  rfl

theorem filesOf_directory {arg : String} (stands : t.find arg = .ok .directory) :
    filesOf x t arg = x.sourceFiles t arg := by
  rw [filesOf, lookup, stands]
  rfl

theorem isSource_of_sourceFiles {root : String} (found : x.sourceFiles t root = .ok paths) :
    ∀ path ∈ paths, x.isSource path := by
  unfold Expander.sourceFiles at found
  obtain ⟨visits, -, found⟩ := bind_eq_ok found
  obtain rfl := Except.ok.inj found
  intro path member
  obtain ⟨visit, kept, rfl⟩ := List.mem_map.mp member
  simp only [List.mem_filter, Bool.and_eq_true] at kept
  exact kept.2.2

section
variable {workDir : String} {args : List String}
  (files : ∀ root ∈ rootsOf workDir args, ∀ content, t.find root = .ok (.file content) → x.isSource root)
  (collected : collect x t workDir args = .ok paths)
include files collected

theorem isSource_of_collect : ∀ path ∈ paths, x.isSource path := by
  rw [collect_eq] at collected
  obtain ⟨found, ran, collected⟩ := bind_eq_ok collected
  obtain rfl := Except.ok.inj collected
  intro path member
  obtain ⟨sources, listed, member⟩ := List.mem_flatten.mp member
  obtain ⟨root, asked, ran⟩ := mem_of_mapM ran sources listed
  rcases filesOf_eq_ok ran with ⟨content, stands, rfl⟩ | ⟨-, ran⟩
  · exact List.mem_singleton.mp member ▸ files root asked content stands
  · exact isSource_of_sourceFiles ran path member

/-- The same sources are found where other outputs are there. -/
theorem collect_congr (ext : Expander.IsExtension x.extension) (same : x.SameButOutputs t t') (wf : t.WellFormed)
    (wf' : t'.WellFormed) : collect x t' workDir args = .ok paths := by
  rw [collect_eq] at collected ⊢
  obtain ⟨found, ran, collected⟩ := bind_eq_ok collected
  have again : (rootsOf workDir args).mapM (filesOf x t') = .ok found := by
    refine mapM_of_ok ran fun root asked paths ran => ?_
    rcases filesOf_eq_ok ran with ⟨content, stands, rfl⟩ | ⟨stands, ran⟩
    · exact filesOf_file (Expander.find_source ext same (files root asked content stands) stands)
    · have stands' : t'.find root = .ok .directory := same.sameDirectories.find_directory_iff.mpr stands
      have nonempty : root ≠ "" := (find_directory_iff.mp stands).1
      rw [filesOf_directory stands', Watch.sourceFiles_eq x stands',
        ← Expander.sourceNames_congr ext same wf wf' nonempty, ← Watch.sourceFiles_eq x stands, ran]
  rw [again]
  exact collected

end

/-! ## Writing -/

variable {s : Session} {target : String → String}

theorem writeChanged_wellFormed {path : String} {content : Bytes} (wf : t.WellFormed)
    (clean : ∀ p, t.relative? path = some p → Path.IsClean p) (written : writeChanged t path content = .ok t') :
    t'.WellFormed := by
  have writable := writable_of_writeChanged wf.nests written
  obtain ⟨place, there, other, parent⟩ := writable.place
  obtain ⟨_, there', -, ran⟩ := writable.write wf.nests content
  obtain rfl := Option.some.inj (there.symm.trans there')
  have put := wf.insert (clean place there) parent other content
  unfold writeChanged at written
  split at written
  · split at written
    · exact Except.ok.inj written ▸ wf
    · exact Except.ok.inj (ran.symm.trans written) ▸ put
  · exact Except.ok.inj (ran.symm.trans written) ▸ put

theorem emit_wellFormed {target : String} (r : Expanded) (wf : s.tree.WellFormed)
    (clean : ∀ p, s.tree.relative? target = some p → Path.IsClean p) :
    (emit .write target r s).2.tree.WellFormed := by
  unfold emit
  cases r.result with
  | error f => exact wf
  | ok out =>
    dsimp only [dispose]
    cases written : writeChanged s.tree target out with
    | error e => exact wf
    | ok t' => exact writeChanged_wellFormed wf clean written

theorem emitAll_wellFormed (rs : List Expanded) (code : ExitCode) (wf : s.tree.WellFormed)
    (clean : ∀ r ∈ rs, ∀ p, s.tree.relative? (target r.path) = some p → Path.IsClean p) :
    (emitAll .write target rs code s).2.tree.WellFormed := by
  induction rs generalizing code s with
  | nil => exact wf
  | cons r rs ih =>
    have sound := emit_wellFormed r wf (clean r List.mem_cons_self)
    have same : s.tree.SameDirectories (emit .write (target r.path) r s).2.tree := by
      rcases emit_write wf.nests (target r.path) r with ⟨out, -, -, -, puts⟩ | ⟨-, -, kept⟩
      · exact puts.same
      · exact kept ▸ .refl _
    unfold emitAll
    exact ih _ sound fun r' member p there =>
      clean r' (List.mem_cons_of_mem _ member) p ((same.relative?_eq _).symm.trans there)

section
variable {results : List Expanded} (stands : ∀ r ∈ results, ∃ stem content, x.StandsAt t r.path stem content)
  (writable : ∀ r ∈ results, t.Writable (x.outputPath r.path)) (writes : Writes t x.outputPath results t')
include stands writable writes

/-- What is written is all that changes. -/
theorem sameButOutputs_of_writes (ext : Expander.IsExtension x.extension) : x.SameButOutputs t t' := by
  refine ⟨writes.same.root.symm, fun p => ?_⟩
  rcases writes.frame p with kept | ⟨r, member, out, -, there, held⟩
  · exact .inl kept.symm
  · obtain ⟨stem, content, stands⟩ := stands r member
    obtain ⟨p', there', other, -⟩ := (writable r member).place
    obtain rfl := Option.some.inj (there.symm.trans there')
    obtain rfl := Option.some.inj (there.symm.trans stands.output)
    exact .inr ⟨stands.isOutput ext, other, by simp [held]⟩

/-- What an output holds comes from its source, maybe under another spelling of the path. -/
theorem read_of_writes {r : Expanded} {out content : Bytes} {stem : String} (member : r ∈ results)
    (expanded : r.result = .ok out) (here : x.StandsAt t r.path stem content) :
    ∃ r' ∈ results, ∃ out' content', r'.result = .ok out' ∧ x.StandsAt t r'.path stem content' ∧
      t'.read (x.outputPath r.path) = .ok out' := by
  obtain ⟨r', member', out', expanded', there', held⟩ :=
    writes.held r member out _ expanded (writable r member) here.output
  obtain ⟨stem', content', here'⟩ := stands r' member'
  obtain rfl := here'.stem_eq there'
  exact ⟨r', member', out', content', expanded', here', read_file (writable r member).named
    (writable r member).asksFile ((writes.same.relative?_eq _).trans here.output) held⟩

end

/-- The output of each source holds what the source expands to. -/
def Settled (x : Expander) (t : FileTree) (paths : List String) : Prop :=
  ∀ path ∈ paths, ∃ out, x.expansion? t path = some out ∧ t.read (x.outputPath path) = .ok out

/-- What is written is all that changes, and it stays what the sources expand to. -/
theorem settled_of_emitAll (builtin : x.IsBuiltin) (ext : Expander.IsExtension x.extension) (wf : s.tree.WellFormed)
    (sources : ∀ path ∈ paths, x.isSource path) {results : List Expanded} (of : x.ResultsOf s.tree paths results)
    (success : (emitAll .write x.outputPath results .success s).1 = .success) :
    let t' := (emitAll .write x.outputPath results .success s).2.tree
    x.SameButOutputs s.tree t' ∧ t'.WellFormed ∧ Settled x t' paths := by
  intro t'
  obtain ⟨writes, all⟩ := emitAll_write x.outputPath results .success wf.nests
  have writable := (all success).2
  have stands : ∀ r ∈ results, ∃ stem content, x.StandsAt s.tree r.path stem content := by
    intro r member
    obtain ⟨asked, same⟩ := of.tells r member
    obtain ⟨out, expanded⟩ := (expanded_of_emitAll success).2 r member
    rw [expanded] at same
    obtain ⟨content, read⟩ := Expander.read_of_expansion? same.symm
    obtain ⟨stem, stands⟩ := Expander.standsAt_of_find ext (sources _ asked) (find_of_read read)
    exact ⟨stem, content, stands⟩
  have same := sameButOutputs_of_writes stands writable writes ext
  have wf' : t'.WellFormed := by
    refine emitAll_wellFormed results .success wf fun r member p there => ?_
    obtain ⟨stem, content, stands⟩ := stands r member
    obtain rfl := Option.some.inj (there.symm.trans stands.output)
    exact stands.isClean_output ext wf
  refine ⟨same, wf', fun path asked => ?_⟩
  obtain ⟨r, member, rfl⟩ := of.covers path asked
  obtain ⟨out, expanded⟩ := (expanded_of_emitAll success).2 r member
  obtain ⟨stem, content, here⟩ := stands r member
  obtain ⟨r', member', out', content', expanded', here', read⟩ :=
    read_of_writes stands writable writes member expanded here
  refine ⟨out', ?_, read⟩
  rw [← Expander.expansion?_congr ext same wf wf' here, here.expansion?_eq builtin here', ← (of.tells r' member').2,
    expanded']
  rfl

/-- Nothing is to be done for what is settled. -/
theorem emitAll_settled {how : Disposal} (again : how = .write ∨ how = .listStale) {rs : List Expanded}
    (settled : ∀ r ∈ rs, ∃ out, r.result = .ok out ∧ s.tree.read (target r.path) = .ok out) :
    emitAll how target rs .success s = (.success, s) := by
  induction rs with
  | nil => rfl
  | cons r rs ih =>
    obtain ⟨⟨out, expanded, read⟩, settled⟩ := List.forall_mem_cons.mp settled
    have one : emit how (target r.path) r s = (.success, s) := by
      rcases again with rfl | rfl <;> simp [emit, expanded, dispose, writeChanged, isStale, read]
    unfold emitAll
    rw [one]
    exact ih settled

/-! ## The command, and the command after it -/

/-- What a configuration has to say about an expander. -/
theorem expanderFor_eq_ok {c : Config} (made : expanderFor c = .ok x) :
    x.IsBuiltin ∧ (c.extension ≠ "" → x.extension = c.extension) := by
  have forms : (withholding .standard c.disabled).forms = Form.builtins := by
    have all (names : List String) (r : Registry) : (withholding r names).forms = r.forms := by
      unfold withholding
      induction names generalizing r with
      | nil => rfl
      | cons name names ih =>
        rw [List.foldl_cons, ih]
        unfold Registry.disable
        cases r.known name <;> rfl
    exact all _ _
  unfold expanderFor Expander.ofOptions at made
  dsimp only at made
  split at made
  · cases made
  · obtain rfl := Except.ok.inj made
    exact ⟨forms, fun nonempty => if_neg nonempty⟩

/-- Arguments ask for the files of a tree, for what is done with an expansion, and for no path of its own. -/
structure Asks (a : Arguments) (how : Disposal) : Prop where
  disposal : Disposal.ofArguments a = how
  files : a.isOn "stdin" = false
  beside : a.text "o" "" = ""

/-- Arguments ask for the same files with the same settings. -/
structure SameTask (a a' : Arguments) : Prop where
  operands : a'.operands = a.operands
  config : a'.text "config" Config.defaultPath = a.text "config" Config.defaultPath
  header : a'.isOn "header" = a.isOn "header"

/-- Where the configuration that arguments ask for is read. -/
def configPath (a : Arguments) : String := a.text "config" Config.defaultPath

/-- Among what arguments ask for, a file has the ending of sources; directories may have any names. -/
def AsksForSources (around : Surroundings) (a : Arguments) (t : FileTree) : Prop :=
  ∀ c, Config.load t (configPath a) around.processors = .ok c → ∀ root ∈ rootsOf c.workDir a.operands, ∀ content,
    t.find root = .ok (.file content) → Path.ext root = c.extension

/-- The expander that arguments and a configuration ask for. -/
def expanderOn (a : Arguments) (c : Config) : Except Failure Expander :=
  expanderFor { c with header := c.header || a.isOn "header" }

/-- What is expanded where arguments ask for files. -/
theorem work?_files (around : Surroundings) {args : List String} {a : Arguments} {how : Disposal}
    (parsed : parseFlags expandFlags args {} = .ok a) (asks : Asks a how) (t : FileTree) : work? around args t = do
      let c ← (Config.load t (configPath a) around.processors).toOption
      let x ← (expanderOn a c).toOption
      let paths ← (collect x t c.workDir a.operands).toOption
      return ⟨a, x, ((x.expandFiles t paths).run #[]).1⟩ := by
  unfold work? configPath
  rw [parsed]
  change (configuration? around a t).bind _ =
    (Config.load t (a.text "config" Config.defaultPath) around.processors).toOption.bind _
  unfold configuration?
  cases Config.load t (a.text "config" Config.defaultPath) around.processors with
  | error e => rfl
  | ok c =>
    change (expanderOn a c).toOption.bind _ = (expanderOn a c).toOption.bind _
    congr 1
    funext x
    rw [asks.files, asks.beside]
    change (collect x t c.workDir a.operands).toOption.bind _ = (collect x t c.workDir a.operands).toOption.bind _
    congr 1

theorem putOut_files {a : Arguments} {how : Disposal} (asks : Asks a how) (x : Expander) (rs : List Expanded)
    (s : Session) : Work.putOut ⟨a, x, rs⟩ s = emitAll how x.outputPath rs .success s := by
  have target : targetOf x "" = x.outputPath := funext fun path => if_pos rfl
  rw [Work.putOut, Work.given, asks.disposal, asks.beside, target]

/-- What arguments come to in a tree: a configuration, an expander, and files to expand. -/
structure Finds (around : Surroundings) (a : Arguments) (t : FileTree) (c : Config) (x : Expander)
    (paths : List String) : Prop where
  loaded : Config.load t (configPath a) around.processors = .ok c
  made : expanderOn a c = .ok x
  collected : collect x t c.workDir a.operands = .ok paths

section
variable {around : Surroundings} {args : List String} {a : Arguments} {how : Disposal} {c : Config}
  (parsed : parseFlags expandFlags args {} = .ok a) (asks : Asks a how)
include parsed asks

theorem finds_of_success (success : (run around ("expand" :: args) s).1 = .success) :
    ∃ c x paths, Finds around a s.tree c x paths := by
  obtain ⟨s', -, ran⟩ := run_expand around args s
  cases asked : work? around args s.tree with
  | none =>
    rw [asked] at ran
    obtain ⟨code, failed, ran⟩ := ran
    rw [ran] at success
    exact absurd success failed
  | some w =>
    rw [work?_files around parsed asks] at asked
    obtain ⟨c, loaded, asked⟩ := Option.bind_eq_some_iff.mp asked
    obtain ⟨x, made, asked⟩ := Option.bind_eq_some_iff.mp asked
    obtain ⟨paths, collected, -⟩ := Option.bind_eq_some_iff.mp asked
    exact ⟨c, x, paths, eq_ok_of_toOption loaded, eq_ok_of_toOption made, eq_ok_of_toOption collected⟩

theorem run_of_finds (finds : Finds around a s.tree c x paths) : ∃ s', s.Keeps s' ∧
    run around ("expand" :: args) s =
      emitAll how x.outputPath ((x.expandFiles s.tree paths).run #[]).1 .success s' := by
  obtain ⟨s', kept, ran⟩ := run_expand around args s
  have asked : work? around args s.tree = some ⟨a, x, ((x.expandFiles s.tree paths).run #[]).1⟩ := by
    rw [work?_files around parsed asks, finds.loaded]
    change (expanderOn a c).toOption.bind _ = _
    rw [finds.made]
    change (collect x s.tree c.workDir a.operands).toOption.bind _ = _
    rw [finds.collected]
    rfl
  rw [asked] at ran
  exact ⟨s', kept, ran.trans (putOut_files asks ..)⟩

/-- Where the sources are settled, the command finds nothing to do. -/
theorem run_settled (again : how = .write ∨ how = .listStale) (finds : Finds around a s.tree c x paths)
    (settled : Settled x s.tree paths) :
    ∃ s', s.Keeps s' ∧ run around ("expand" :: args) s = (.success, s') := by
  obtain ⟨s', kept, ran⟩ := run_of_finds parsed asks finds
  refine ⟨s', kept, ran.trans (emitAll_settled again fun r member => ?_)⟩
  have builtin := (expanderFor_eq_ok finds.made).1
  obtain ⟨asked, result⟩ := (Expander.resultsOf_expandFiles builtin s.tree paths #[]).tells r member
  obtain ⟨out, expanded, read⟩ := settled _ asked
  exact ⟨out, eq_ok_of_toOption (result.trans expanded), kept.tree.symm ▸ read⟩

end

/-- A run that has written all expansions leaves the same sources, and they are settled. -/
theorem settled_of_run {around : Surroundings} {args : List String} {a : Arguments} {c : Config} (wf : s.tree.WellFormed)
    (parsed : parseFlags expandFlags args {} = .ok a) (asks : Asks a .write) (sources : AsksForSources around a s.tree)
    (finds : Finds around a s.tree c x paths) (success : (run around ("expand" :: args) s).1 = .success) :
    let t' := (run around ("expand" :: args) s).2.tree
    collect x t' c.workDir a.operands = .ok paths ∧ Settled x t' paths := by
  intro t'
  obtain ⟨s', kept, ran⟩ := run_of_finds parsed asks finds
  have tree : (emitAll .write x.outputPath ((x.expandFiles s.tree paths).run #[]).1 .success s').2.tree = t' :=
    (congrArg (·.2.tree) ran).symm
  obtain ⟨builtin, extension⟩ := expanderFor_eq_ok finds.made
  have valid := Config.valid_of_load finds.loaded
  have extension : x.extension = c.extension := extension fun empty => by
    simp [Config.invalid?, show c.extension = "" from empty] at valid
  have files root (member : root ∈ rootsOf c.workDir a.operands) content
      (stands : s.tree.find root = .ok (.file content)) : x.isSource root := by
    rw [Expander.isSource, extension, sources c finds.loaded root member content stands]
    exact decide_eq_true rfl
  by_cases empty : paths = []
  · subst empty
    have same : t' = s.tree := tree.symm.trans kept.tree
    rw [same]
    exact ⟨finds.collected, fun _ member => (List.not_mem_nil member).elim⟩
  · obtain ⟨path, member⟩ := List.exists_mem_of_ne_nil paths empty
    have isSource := isSource_of_collect files finds.collected
    have ext := Expander.isExtension_of_isSource valid extension (isSource path member)
    rw [ran] at success
    rw [← kept.tree] at wf tree
    obtain ⟨same, wf', settled⟩ := settled_of_emitAll builtin ext wf isSource
      (Expander.resultsOf_expandFiles builtin s'.tree paths #[]) (kept.tree.symm ▸ success)
    rw [tree] at same wf' settled
    exact ⟨collect_congr files finds.collected ext (kept.tree ▸ same) (kept.tree ▸ wf) wf', settled⟩

/-- Once all expansions were written, nothing is left to do: asked for the same again, the command lists nothing,
prints nothing, changes nothing and succeeds, if the configuration is the same. -/
theorem expand_again (around around' : Surroundings) {args args' : List String} {a a' : Arguments}
    {how : Disposal} (wf : s.tree.WellFormed) (parsed : parseFlags expandFlags args {} = .ok a)
    (asks : Asks a .write) (parsed' : parseFlags expandFlags args' {} = .ok a') (asks' : Asks a' how)
    (again : how = .write ∨ how = .listStale) (task : SameTask a a')
    (sources : AsksForSources around a s.tree) :
    let ended := run around ("expand" :: args) s
    ended.1 = .success →
      Config.load ended.2.tree (configPath a) around.processors =
        Config.load s.tree (configPath a) around.processors →
      ∀ s' : Session, s'.tree = ended.2.tree →
        let next := run around' ("expand" :: args') s'
        next.1 = .success ∧ next.2.stdout = s'.stdout ∧ next.2.tree = s'.tree := by
  intro ended success config s' here next
  obtain ⟨c, x, paths, finds⟩ := finds_of_success parsed asks success
  obtain ⟨collected, settled⟩ := settled_of_run wf parsed asks sources finds success
  obtain ⟨n, loaded⟩ := Config.load_processors (config.trans finds.loaded) around'.processors
  have finds' : Finds around' a' s'.tree { c with concurrency := n } x paths := by
    constructor
    · rw [configPath, task.config, here]
      exact loaded
    · rw [expanderOn, task.header]
      exact finds.made
    · rw [task.operands, here]
      exact collected
  obtain ⟨s'', kept, ran⟩ := run_settled parsed' asks' again finds' (here ▸ settled)
  have ran : next = (.success, s'') := ran
  rw [ran]
  exact ⟨rfl, kept.stdout, kept.tree⟩

/-- A directory with one source is written, and then nothing in it is stale. -/
theorem expand_again_directory :
    let source := FileEntry.file (Text.utf8 "package p\n")
    let t : FileTree := ⟨"/w", [("d", .directory), ("d/a.sgo", source)]⟩
    let ended := run { time := "" } ["expand", "-w", "d"] ⟨t, [], []⟩
    t.WellFormed ∧ ended.1 = .success ∧ ended.2.tree = t.insert "d/a.go" source ∧
      (run { time := "" } ["expand", "-l", "d"] ⟨ended.2.tree, [], []⟩).1 = .success ∧
      (run { time := "" } ["expand", "-l", "d"] ⟨ended.2.tree, [], []⟩).2.stdout = [] := by
  intro source t ended
  have wf : t.WellFormed := .of_parts (by decide) (by decide) (by decide +kernel)
  have parsed : parseFlags expandFlags ["-w", "d"] {} = .ok ⟨[("w", true)], [], ["d"]⟩ := by decide +kernel
  have parsed' : parseFlags expandFlags ["-l", "d"] {} = .ok ⟨[("l", true)], [], ["d"]⟩ := by decide +kernel
  obtain ⟨success, tree⟩ : ended.1 = .success ∧ ended.2.tree = t.insert "d/a.go" source := by decide +kernel
  have asks : Asks ⟨[("w", true)], [], ["d"]⟩ .write := ⟨by decide, by decide, by decide⟩
  have asks' : Asks ⟨[("l", true)], [], ["d"]⟩ .listStale := ⟨by decide, by decide, by decide⟩
  have config : Config.load ended.2.tree (configPath ⟨[("w", true)], [], ["d"]⟩) =
      Config.load t (configPath ⟨[("w", true)], [], ["d"]⟩) := by
    rw [tree]
    exact Config.load_congr (by decide +kernel) _
  have sources : AsksForSources { time := "" } ⟨[("w", true)], [], ["d"]⟩ t := by
    intro c _ root asked content stands
    obtain rfl : root = "d" := List.mem_singleton.mp asked
    have directory : t.find "d" = .ok .directory := by decide +kernel
    rw [directory] at stands
    cases stands
  obtain ⟨success', quiet, -⟩ := expand_again (s := ⟨t, [], []⟩) { time := "" } { time := "" } wf parsed asks
    parsed' asks' (.inr rfl) ⟨rfl, rfl, rfl⟩ sources success config ⟨ended.2.tree, [], []⟩ rfl
  exact ⟨wf, success, tree, success', quiet⟩

/-- A configuration that has the tool work on one file, whose name has not the ending of sources. -/
def plainConfig : FileEntry := .file (Text.utf8 "\x7b\"work_dir\": \"b.txt\", \"truth_import\": \"t\"\x7d")

/-- A file whose expansion needs to know the type of a constant. -/
def plainSource : FileEntry := .file (Text.utf8 "package p\nvar v = cxp!((true)?(k):(k))\n")

/-- The constant is declared in the file that the expansion is written to. -/
def plainTree : FileTree := ⟨"/w", [("gosugar.json", plainConfig), ("b.txt", plainSource),
  ("b.txt.go", .file (Text.utf8 "package p\n\nconst k = \"x\"\n"))]⟩

/-- What stands in the place of the constant. -/
def plainOutput : FileEntry := .file (Text.utf8 ("package p\n\nimport \"t\"\n\n" ++
  "var v = func() string \x7b\n\tif t.Of(true) \x7b\n\t\treturn k\n\t\x7d\n\treturn k\n\x7d()\n"))

/-- The run that writes the expansion of the file. -/
def plainRun : ExitCode × Session := run { time := "" } ["expand", "-w"] ⟨plainTree, [], []⟩

/-- The files after that run. -/
def plainWritten : FileTree :=
  ⟨"/w", [("gosugar.json", plainConfig), ("b.txt", plainSource), ("b.txt.go", plainOutput)]⟩

theorem plainRun_eq : (plainRun.1, plainRun.2.tree) = (.success, plainWritten) := by decide +kernel

theorem plainWritten_fails : (run { time := "" } ["expand", "-l"] ⟨plainWritten, [], []⟩).1 = .failure := by
  decide +kernel

/-- The output of a file that is no source is looked at where the file expands: what was written once is not
found again. -/
theorem expand_unsettled_plainFile : plainTree.WellFormed ∧ plainRun.1 = .success ∧
    Config.load plainRun.2.tree Config.defaultPath = Config.load plainTree Config.defaultPath ∧
    (run { time := "" } ["expand", "-l"] ⟨plainRun.2.tree, [], []⟩).1 = .failure := by
  have wf : plainTree.WellFormed := .of_parts (by decide) (by decide) (by decide +kernel)
  obtain ⟨success, tree⟩ := Prod.mk.inj plainRun_eq
  rw [tree]
  exact ⟨wf, success, Config.load_congr (by decide +kernel) _, plainWritten_fails⟩

end Command
end Desugar

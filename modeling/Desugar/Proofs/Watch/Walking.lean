import Desugar.Expand.Expander
import Desugar.Proofs.FileTree
import Desugar.Watch.Runner
import Mathlib.Data.List.Perm.Subperm

/-!
# Walks from a directory

Sources are looked for, and directories are watched, by a walk from a directory. What stands below the
directory is told by the names on the way down. The walk comes to all of it, except for what stands in
directories that are skipped, and in the order of the names. So a source is found exactly if its
directory is watched.
-/
namespace Desugar
namespace FileTree

/-! ## What stands below an entry -/

/-- An entry stands below another one, which is at a path, at the end of some names. -/
inductive Under (t : FileTree) : String → FileEntry → List String → FileEntry → Prop
  | here {path e} : Under t path e [] e
  | down {path name child names e} : (name, child) ∈ t.list path →
      Under t (Path.join [path, name]) child names e → Under t path .directory (name :: names) e

variable {t : FileTree} {path root name : String} {enters : String → Bool} {depth : Nat}
  {names : List String} {e e' child : FileEntry}

theorem under_nil : t.Under path e [] e' ↔ e' = e :=
  ⟨fun under => by cases under; rfl, fun same => same ▸ .here⟩

theorem WellFormed.isPart_of_under (wf : t.WellFormed) (under : t.Under path e names e') :
    ∀ name ∈ names, Path.IsPart name.toList := by
  induction under with
  | here => exact nofun
  | down listed _ ih => exact List.forall_mem_cons.mpr ⟨wf.isPart_of_mem_list listed, ih⟩

/-- What stands at the end of some names stands in the directory that the names before the last lead to. -/
theorem Under.parent (under : t.Under path e names e') (nonempty : names ≠ []) :
    t.Under path e names.dropLast .directory := by
  induction under with
  | here => exact absurd rfl nonempty
  | @down path name child names e listed under ih =>
    cases names with
    | nil => exact .here
    | cons => exact .down listed (ih (List.cons_ne_nil _ _))

/-- On the way down there are as many entries as names. -/
theorem WellFormed.entries_of_under (wf : t.WellFormed) (nonempty : path ≠ "") (under : t.Under path e names e') :
    ∃ ps : List String, ps.length = names.length ∧ ps.Nodup ∧ ps ⊆ t.entries.map (·.1) ∧
      ∀ p ∈ ps, ∃ q, q ≠ "" ∧ t.relative? q = Option.some (Path.dir p) ∧
        (Path.kept (t.absolute path)).length ≤ (Path.kept (t.absolute q)).length := by
  induction under with
  | here => exact ⟨[], rfl, .nil, List.nil_subset _, nofun⟩
  | @down path name child names e listed _ ih =>
    have part := wf.isPart_of_mem_list listed
    obtain ⟨ps, length, distinct, inside, deep⟩ := ih (Path.join_ne_empty nonempty part)
    cases there : t.relative? path with
    | none => simp [list, there] at listed
    | some clean =>
      obtain ⟨p, found, dot, rfl, -⟩ := (wf.mem_list_iff there).mp listed
      have entry : p ∈ t.entries.map (·.1) := List.mem_map_of_mem (wf.entry_iff.mpr ⟨found, dot⟩)
      have longer := congrArg List.length (kept_absolute_join t nonempty part)
      rw [List.length_append, List.length_singleton] at longer
      -- An entry further down has its directory in a place that is longer.
      have fresh : p ∉ ps := by
        intro member
        obtain ⟨q, nonempty', there', long⟩ := deep p member
        rw [relative?_injective nonempty nonempty' there there'] at longer
        omega
      refine ⟨p :: ps, by simp [length], List.nodup_cons.mpr ⟨fresh, distinct⟩,
        List.cons_subset.mpr ⟨entry, inside⟩, List.forall_mem_cons.mpr ⟨⟨path, nonempty, there, Nat.le_refl _⟩, ?_⟩⟩
      intro p' member
      obtain ⟨q, nonempty', there', long⟩ := deep p' member
      exact ⟨q, nonempty', there', by omega⟩

theorem WellFormed.length_le_of_under (wf : t.WellFormed) (nonempty : path ≠ "")
    (under : t.Under path e names e') : names.length ≤ t.entries.length := by
  obtain ⟨ps, length, distinct, inside, -⟩ := wf.entries_of_under nonempty under
  have bound := (List.subperm_of_subset distinct inside).length_le
  rwa [length, List.length_map] at bound

/-! ## The way of a walk -/

/-- A walk with the names on the way down to each entry. -/
def trail (t : FileTree) (enters : String → Bool) :
    (depth : Nat) → (path : String) → FileEntry → List (List String × FileEntry)
  | 0, _, e => [([], e)]
  | depth + 1, path, e =>
    ([], e) :: if !e.isDirectory then []
      else (t.list path).flatMap fun (name, e) =>
        if e.isDirectory && !enters name then []
        else (t.trail enters depth (Path.join [path, name]) e).map fun v => (name :: v.1, v.2)

theorem walkFrom_eq (t : FileTree) (enters : String → Bool) (depth : Nat) (path : String) (e : FileEntry) :
    t.walkFrom enters depth path e =
      (t.trail enters depth path e).map fun v => ⟨Path.descend path v.1, v.2⟩ := by
  induction depth generalizing path e with
  | zero => rfl
  | succ depth ih =>
    rw [walkFrom, trail, List.map_cons, Path.descend_nil]
    congr 1
    split
    · rfl
    · rw [List.map_flatMap]
      congr 1
      funext ⟨name, child⟩
      dsimp only
      split
      · rfl
      · rw [ih, List.map_map]
        rfl

/-- Names of directories that a walk enters on its way to an entry. -/
def entered (names : List String) (e : FileEntry) : List String :=
  if e.isDirectory then names else names.dropLast

theorem entered_cons (under : t.Under path child names e) :
    (∀ n ∈ entered (name :: names) e, enters n = true) ↔
      (child.isDirectory = true → enters name = true) ∧ ∀ n ∈ entered names e, enters n = true := by
  unfold entered
  cases under with
  | here => cases e.isDirectory <;> simp
  | down => cases e.isDirectory <;> simp [FileEntry.isDirectory]

theorem mem_trail_succ : (names, e') ∈ t.trail enters (depth + 1) path e ↔
    (names = [] ∧ e' = e) ∨ e = .directory ∧ ∃ name child rest, (name, child) ∈ t.list path ∧
      (child.isDirectory = true → enters name = true) ∧ names = name :: rest ∧
      (rest, e') ∈ t.trail enters depth (Path.join [path, name]) child := by
  rw [trail, List.mem_cons, Prod.mk.injEq]
  refine or_congr_right ?_
  cases e with
  | file content => simp [FileEntry.isDirectory]
  | directory =>
    rw [if_neg (by simp [FileEntry.isDirectory]), List.mem_flatMap]
    constructor
    · rintro ⟨⟨name, child⟩, listed, visited⟩
      dsimp only at visited
      split at visited
      · cases visited
      · rename_i goes
        obtain ⟨⟨rest, last⟩, inside, same⟩ := List.mem_map.mp visited
        obtain ⟨rfl, rfl⟩ := Prod.mk.inj same
        exact ⟨rfl, name, child, rest, listed, fun directory => by simpa [directory] using goes, rfl, inside⟩
    · rintro ⟨-, name, child, rest, listed, goes, rfl, inside⟩
      refine ⟨(name, child), listed, ?_⟩
      dsimp only
      rw [if_neg (by simpa using goes)]
      exact List.mem_map_of_mem inside

/-- A walk comes to what stands below its start and is not too deep, through directories that it enters. -/
theorem mem_trail : (names, e') ∈ t.trail enters depth path e ↔
    t.Under path e names e' ∧ (∀ name ∈ entered names e', enters name = true) ∧ names.length ≤ depth := by
  induction depth generalizing path e names with
  | zero =>
    rw [trail, List.mem_singleton, Prod.mk.injEq, Nat.le_zero, List.length_eq_zero_iff]
    constructor
    · rintro ⟨rfl, rfl⟩
      exact ⟨.here, by simp [entered], rfl⟩
    · rintro ⟨under, -, rfl⟩
      exact ⟨rfl, under_nil.mp under⟩
  | succ depth ih =>
    rw [mem_trail_succ]
    constructor
    · rintro (⟨rfl, rfl⟩ | ⟨rfl, name, child, rest, listed, goes, rfl, inside⟩)
      · exact ⟨.here, by simp [entered], Nat.zero_le _⟩
      · obtain ⟨under, through, short⟩ := ih.mp inside
        exact ⟨.down listed under, (entered_cons under).mpr ⟨goes, through⟩, Nat.succ_le_succ short⟩
    · rintro ⟨_ | ⟨listed, under⟩, through, short⟩
      · exact .inl ⟨rfl, rfl⟩
      · obtain ⟨goes, through⟩ := (entered_cons under).mp through
        refine .inr ⟨rfl, _, _, _, listed, goes, rfl, ih.mpr ⟨under, through, ?_⟩⟩
        exact Nat.le_of_succ_le_succ short

/-- A walk goes in the order of the names. -/
theorem WellFormed.trail_ascends (wf : t.WellFormed) (enters : String → Bool) (depth : Nat) (path : String)
    (e : FileEntry) : (t.trail enters depth path e).Pairwise fun a b => a.1 < b.1 := by
  induction depth generalizing path e with
  | zero => exact List.pairwise_singleton _ _
  | succ depth ih =>
    rw [trail, List.pairwise_cons]
    have front (name : String) (child : FileEntry) : ∀ v ∈ (if child.isDirectory && !enters name then []
        else (t.trail enters depth (Path.join [path, name]) child).map fun v => (name :: v.1, v.2)),
        ∃ rest, v.1 = name :: rest := by
      intro v member
      split at member
      · cases member
      · obtain ⟨u, -, rfl⟩ := List.mem_map.mp member
        exact ⟨u.1, rfl⟩
    refine ⟨fun v member => ?_, ?_⟩
    · split at member
      · cases member
      · obtain ⟨⟨name, child⟩, -, inside⟩ := List.mem_flatMap.mp member
        obtain ⟨rest, same⟩ := front name child v inside
        rw [same]
        exact List.nil_lt_cons _ _
    · split
      · exact .nil
      · rw [List.pairwise_flatMap]
        refine ⟨fun ⟨name, child⟩ _ => ?_, (wf.list_ascends path).imp fun {a b} less x inX y inY => ?_⟩
        · dsimp only
          split
          · exact .nil
          · refine List.pairwise_map.mpr ((ih _ _).imp fun {u v} before => ?_)
            exact List.cons_lt_cons_iff.mpr (.inr ⟨rfl, before⟩)
        · obtain ⟨rest, same⟩ := front a.1 a.2 x inX
          obtain ⟨rest', same'⟩ := front b.1 b.2 y inY
          rw [same, same']
          exact List.cons_lt_cons_iff.mpr (.inl less)

/-- A walk from a path that is found goes on as long as there are names. -/
theorem walk_eq (found : t.find root = .ok e) : t.walk root =
    .ok ((t.trail (!isSkipped ·) (t.entries.length + 1) root e).map fun v => ⟨Path.descend root v.1, v.2⟩) := by
  unfold walk lookup
  rw [found]
  exact congrArg Except.ok (walkFrom_eq _ _ _ _ _)

end FileTree

namespace Watch

open FileTree

variable {t : FileTree} {root : String} {names : List String} {e : FileEntry}

theorem addAll_accepting (dirs : List String) : addAll (fun _ => true) dirs = (dirs, none) := by
  induction dirs with
  | nil => rfl
  | cons dir dirs ih => rw [addAll, if_pos rfl, ih]

theorem isSkipped_eq_false_iff {name : String} : isSkipped name = false ↔
    name.toList.head? ≠ some '.' ∧ name ≠ "vendor" ∧ name ≠ "testdata" := by
  simp [isSkipped, and_assoc]

/-- Names of what a walk from a directory comes to. -/
def reached (t : FileTree) (root : String) : List (List String × FileEntry) :=
  t.trail (!isSkipped ·) (t.entries.length + 1) root .directory

theorem mem_reached (wf : t.WellFormed) (nonempty : root ≠ "") : (names, e) ∈ reached t root ↔
    t.Under root .directory names e ∧ ∀ name ∈ entered names e, isSkipped name = false := by
  rw [reached, mem_trail]
  constructor
  · rintro ⟨under, through, -⟩
    exact ⟨under, fun name member => by simpa using through name member⟩
  · rintro ⟨under, through⟩
    refine ⟨under, fun name member => by simp [through name member], ?_⟩
    exact Nat.le_succ_of_le (wf.length_le_of_under nonempty under)

/-- Names of the directories that are watched. -/
def watchedNames (t : FileTree) (root : String) : List (List String) :=
  ((reached t root).filter (·.2.isDirectory)).map (·.1)

/-- Names of the sources that are looked for. -/
def sourceNames (x : Expander) (t : FileTree) (root : String) : List (List String) :=
  ((reached t root).filter fun v => !v.2.isDirectory && x.isSource (Path.descend root v.1)).map (·.1)

theorem addRecursive_eq (found : t.find root = .ok .directory) : addRecursive t (fun _ => true) root =
    ((watchedNames t root).map (Path.descend root), none) := by
  unfold addRecursive directories
  rw [walk_eq found]
  change addAll _ (List.map _ (List.filter _ (List.map _ (reached t root)))) = _
  rw [addAll_accepting, List.filter_map, List.map_map, watchedNames, List.map_map]
  rfl

theorem sourceFiles_eq (x : Expander) (found : t.find root = .ok .directory) : x.sourceFiles t root =
    .ok ((sourceNames x t root).map (Path.descend root)) := by
  unfold Expander.sourceFiles
  rw [walk_eq found]
  change Except.ok (List.map _ (List.filter _ (List.map _ (reached t root)))) = _
  rw [List.filter_map, List.map_map, sourceNames, List.map_map]
  rfl

theorem mem_watchedNames (wf : t.WellFormed) (nonempty : root ≠ "") : names ∈ watchedNames t root ↔
    t.Under root .directory names .directory ∧ ∀ name ∈ names, isSkipped name = false := by
  rw [watchedNames, List.mem_map]
  constructor
  · rintro ⟨⟨names, e⟩, listed, rfl⟩
    obtain ⟨inside, directory⟩ := List.mem_filter.mp listed
    obtain ⟨under, through⟩ := (mem_reached wf nonempty).mp inside
    cases e with
    | file => cases directory
    | directory => exact ⟨under, through⟩
  · intro watched
    exact ⟨(names, .directory), List.mem_filter.mpr ⟨(mem_reached wf nonempty).mpr watched, rfl⟩, rfl⟩

/-- A source is looked for where its directory is watched. -/
theorem mem_sourceNames (x : Expander) (wf : t.WellFormed) (nonempty : root ≠ "") :
    names ∈ sourceNames x t root ↔ (∃ content, t.Under root .directory names (.file content)) ∧
      x.isSource (Path.descend root names) = true ∧ names.dropLast ∈ watchedNames t root := by
  rw [sourceNames, List.mem_map, mem_watchedNames wf nonempty]
  constructor
  · rintro ⟨⟨names, e⟩, listed, rfl⟩
    obtain ⟨inside, isFile, source⟩ := by simpa [List.mem_filter] using listed
    obtain ⟨under, through⟩ := (mem_reached wf nonempty).mp inside
    cases e with
    | directory => cases isFile
    | file content =>
      have below : names ≠ [] := by
        rintro rfl
        cases under_nil.mp under
      exact ⟨⟨content, under⟩, source, under.parent below, through⟩
  · rintro ⟨⟨content, under⟩, source, -, through⟩
    refine ⟨(names, .file content), List.mem_filter.mpr ⟨(mem_reached wf nonempty).mpr ⟨under, through⟩, ?_⟩, rfl⟩
    simpa [FileEntry.isDirectory] using source

theorem sourceNames_ascends (x : Expander) (wf : t.WellFormed) (root : String) :
    (sourceNames x t root).Pairwise (· < ·) := by
  have walked : (reached t root).Pairwise fun a b => a.1 < b.1 := wf.trail_ascends _ _ _ _
  exact List.pairwise_map.mpr (walked.filter _)

/-- The sources that are looked for below a directory are the files with the ending of sources in the
directories that are watched for it, each once and in the order of their names. A directory is watched
exactly if it is that directory, or no directory on the way down to it, itself included, is hidden or one of
vendored code or of test data. Different names lead to different paths. -/
theorem sources_in_watched (x : Expander) (wf : t.WellFormed) (found : t.find root = .ok .directory) :
    ∃ dirs files : List (List String),
      addRecursive t (fun _ => true) root = (dirs.map (Path.descend root), none) ∧
      x.sourceFiles t root = .ok (files.map (Path.descend root)) ∧
      (∀ names, names ∈ files ↔ (∃ content, t.Under root .directory names (.file content)) ∧
        Path.ext (Path.descend root names) = x.extension ∧ names.dropLast ∈ dirs) ∧
      files.Pairwise (· < ·) ∧ files.Nodup ∧
      (∀ names, names ∈ dirs ↔ t.Under root .directory names .directory ∧
        (names = [] ∨ ∀ name ∈ names,
          name.toList.head? ≠ some '.' ∧ name ≠ "vendor" ∧ name ≠ "testdata")) ∧
      ∀ names others e e', t.Under root .directory names e → t.Under root .directory others e' →
        Path.descend root names = Path.descend root others → names = others := by
  have nonempty : root ≠ "" := by
    rintro rfl
    simp [find] at found
  have ascends := sourceNames_ascends x wf root
  refine ⟨watchedNames t root, sourceNames x t root, addRecursive_eq found, sourceFiles_eq x found,
    fun names => ?_, ascends, ?_, fun names => ?_, ?_⟩
  · rw [mem_sourceNames x wf nonempty, Expander.isSource, decide_eq_true_iff]
  · refine ascends.imp fun {a b} less same => ?_
    rw [same] at less
    exact List.lt_irrefl b less
  · simp only [← isSkipped_eq_false_iff]
    rw [mem_watchedNames wf nonempty, or_iff_right_of_imp]
    rintro rfl
    exact nofun
  · intro names others e e' under under' same
    exact Path.descend_injective nonempty (wf.isPart_of_under under) (wf.isPart_of_under under') same

/-! ## A directory that would be skipped -/

/-- Vendored code with a hidden directory in it. -/
def vendoredTree : FileTree := ⟨"/w", [("vendor", .directory), ("vendor/a.sgo", .file []),
  ("vendor/.git", .directory), ("vendor/.git/b.sgo", .file []), ("vendor/sub", .directory),
  ("vendor/sub/c.sgo", .file [])]⟩

theorem vendoredTree_wellFormed : vendoredTree.WellFormed := .of_parts (by decide) (by decide) (by decide +kernel)

/-- From a directory that is to be skipped a walk starts like from any other. -/
theorem sources_in_watched_vendored :
    let x : Expander := ⟨.standard, ⟨"", ""⟩, 64, false, ".sgo", ⟨0, 3, 0, "", ""⟩⟩
    vendoredTree.WellFormed ∧ vendoredTree.find "vendor" = .ok .directory ∧
      ∃ dirs files : List (List String),
        addRecursive vendoredTree (fun _ => true) "vendor" = (dirs.map (Path.descend "vendor"), none) ∧
        x.sourceFiles vendoredTree "vendor" = .ok (files.map (Path.descend "vendor")) ∧
        [] ∈ dirs ∧ [".git"] ∉ dirs ∧ [".git", "b.sgo"] ∉ files := by
  intro x
  have found : vendoredTree.find "vendor" = .ok .directory := by decide +kernel
  obtain ⟨dirs, files, watched, sources, inFiles, -, -, inDirs, -⟩ :=
    sources_in_watched x vendoredTree_wellFormed found
  have hidden : [".git"] ∉ dirs := fun member => by
    have unskipped := (((inDirs _).mp member).2.resolve_left (by decide)) ".git" (by decide)
    exact absurd unskipped (by decide)
  exact ⟨vendoredTree_wellFormed, found, dirs, files, watched, sources, (inDirs []).mpr ⟨.here, .inl rfl⟩,
    hidden, fun member => hidden ((inFiles _).mp member).2.2⟩

end Watch
end Desugar

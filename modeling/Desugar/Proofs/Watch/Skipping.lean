import Desugar.Proofs.Watch.Crew
import Desugar.Proofs.Watch.Walking

/-!
# Directories that are watched though they are skipped

A walk passes over hidden directories, vendored code and test data, but not where it starts. A watch
starts with a walk from its root, and each directory that is created while it goes on starts a walk of its
own. So a directory below the root that is to be skipped is watched exactly if the creation of one is
told of: what a walk adds stands in a skipped directory if and only if the place where it starts does.
-/
namespace Desugar

/-- A path leads from a directory down through some names. -/
structure Path.Below (root : String) (names : List (List Char)) (path : String) : Prop where
  proper : ∀ name ∈ names, Path.IsPart name
  rooted : Path.isAbs path = Path.isAbs root
  kept : Path.kept path = Path.kept root ++ names

namespace FileTree

/-- A directory is, or lies below, one that is skipped and that lies below a root. -/
def SkippedBelow (root dir : String) : Prop :=
  ∃ names, Path.Below root names dir ∧ ∃ name ∈ names, isSkipped (String.ofList name) = true

variable {t : FileTree} {root path q : String}

theorem skippedBelow_congr (rooted : Path.isAbs path = Path.isAbs q) (kept : Path.kept path = Path.kept q) :
    SkippedBelow root path ↔ SkippedBelow root q := by
  constructor <;> rintro ⟨names, below, skipped⟩
  · exact ⟨names, ⟨below.proper, rooted ▸ below.rooted, kept ▸ below.kept⟩, skipped⟩
  · exact ⟨names, ⟨below.proper, rooted ▸ below.rooted, kept ▸ below.kept⟩, skipped⟩

/-- What is reached through names that are not skipped lies in a skipped directory only if the start of
the way does. -/
theorem skippedBelow_iff {names : List (List Char)} (below : Path.Below path names q)
    (entered : ∀ name ∈ names, isSkipped (String.ofList name) = false) :
    SkippedBelow root q ↔ SkippedBelow root path := by
  constructor
  · rintro ⟨all, way, name, member, skipped⟩
    have whole := way.kept.symm.trans below.kept
    have unskipped : name ∉ names := fun last => by simp [entered name last] at skipped
    rcases List.append_eq_append_iff.mp whole with ⟨front, start, rfl⟩ | ⟨rest, -, rfl⟩
    · refine ⟨front, ⟨fun other inside => way.proper other (by simp [inside]), ?_, start⟩, name, ?_, skipped⟩
      · exact below.rooted.symm.trans way.rooted
      · exact (List.mem_append.mp member).resolve_right unskipped
    · exact absurd (List.mem_append_right rest member) unskipped
  · rintro ⟨front, way, name, member, skipped⟩
    refine ⟨front ++ names, ⟨?_, below.rooted.trans way.rooted, ?_⟩, name, ?_, skipped⟩
    · intro other inside
      exact (List.mem_append.mp inside).elim (way.proper other) (below.proper other)
    · rw [below.kept, way.kept, List.append_assoc]
    · exact List.mem_append_left _ member

/-! ## Walks -/

/-- A walk goes down through names, and into no directory whose name is not to be entered. -/
theorem WellFormed.below_of_mem_walkFrom (wf : t.WellFormed) {enters : String → Bool} {depth : Nat}
    {e : FileEntry} {v : Visit} (nonempty : path ≠ "") (visited : v ∈ t.walkFrom enters depth path e) :
    ∃ names, Path.Below path names v.path ∧
      (v.entry.isDirectory = true → ∀ name ∈ names, enters (String.ofList name) = true) := by
  rw [walkFrom_eq] at visited
  obtain ⟨⟨names, last⟩, inside, rfl⟩ := List.mem_map.mp visited
  obtain ⟨under, through, -⟩ := mem_trail.mp inside
  have proper := wf.isPart_of_under under
  obtain ⟨rooted, kept⟩ := Path.kept_descend nonempty proper
  refine ⟨names.map (·.toList), ⟨List.forall_mem_map.mpr proper, rooted, kept⟩, fun directory => ?_⟩
  dsimp only at directory
  rw [entered, if_pos directory] at through
  exact List.forall_mem_map.mpr fun name member => by rw [String.ofList_toList]; exact through name member

end FileTree

namespace Watch

open FileTree

variable {s : Setup} {t : FileTree} {root path dir : String} {ms : List Move}

/-! ## Directories that are passed to the watcher -/

/-- The path that a watcher refuses to watch. -/
def WatchError.refused? : WatchError → Option String
  | .refused path => some path
  | .file _ => none

/-- Paths that a watcher was asked to watch: those that it added, and the one that it refused. -/
def asked : List String × Option WatchError → List String
  | (added, failure) => added ++ (failure.bind WatchError.refused?).toList

theorem asked_addAll_cons (accepts : String → Bool) (path : String) (rest : List String) :
    asked (addAll accepts (path :: rest)) =
      path :: if accepts path then asked (addAll accepts rest) else [] := by
  rw [addAll]
  split
  · rfl
  · simp [asked, WatchError.refused?]

theorem asked_addAll_subset (accepts : String → Bool) (dirs : List String) :
    asked (addAll accepts dirs) ⊆ dirs := by
  induction dirs with
  | nil => exact List.Subset.refl _
  | cons path rest ih =>
    rw [asked_addAll_cons]
    refine List.cons_subset_cons path ?_
    split
    · exact ih
    · exact List.nil_subset _

/-- What was added is what was asked for and not refused. -/
theorem added_addAll (accepts : String → Bool) (dirs : List String) :
    (addAll accepts dirs).1 = (asked (addAll accepts dirs)).filter accepts := by
  induction dirs with
  | nil => rfl
  | cons path rest ih =>
    rw [asked_addAll_cons, addAll]
    by_cases accepted : accepts path = true
    · rw [if_pos accepted, if_pos accepted, List.filter_cons_of_pos accepted, ← ih]
    · rw [if_neg accepted, if_neg accepted, List.filter_cons_of_neg accepted]
      rfl

theorem added_addRecursive (t : FileTree) (accepts : String → Bool) (path : String) :
    (addRecursive t accepts path).1 = (asked (addRecursive t accepts path)).filter accepts := by
  unfold addRecursive
  split
  · exact added_addAll accepts _
  · rfl

/-- A walk asks for directories in a skipped one only if it starts there. -/
theorem skippedBelow_of_asked (wf : t.WellFormed) {accepts : String → Bool}
    (member : dir ∈ asked (addRecursive t accepts path)) :
    SkippedBelow root dir ↔ SkippedBelow root path := by
  unfold addRecursive directories walk FileTree.lookup at member
  cases found : t.find path with
  | error cause =>
    rw [found] at member
    cases member
  | ok entry =>
    rw [found] at member
    have listed := asked_addAll_subset accepts _ member
    obtain ⟨v, visited, rfl⟩ := List.mem_map.mp listed
    obtain ⟨inWalk, directory⟩ := List.mem_filter.mp visited
    have nonempty : path ≠ "" := by
      rintro rfl
      simp [find] at found
    obtain ⟨names, below, entered⟩ := wf.below_of_mem_walkFrom nonempty inWalk
    exact skippedBelow_iff below fun name inside => by simpa using entered directory name inside

/-- A directory is the first that is asked for on its behalf. -/
theorem self_asked {accepts : String → Bool} (found : t.find path = .ok .directory) :
    path ∈ asked (addRecursive t accepts path) := by
  unfold addRecursive directories walk FileTree.lookup
  rw [found]
  change path ∈ asked (addAll accepts (List.map _ (List.filter _ (walkFrom t _ _ path .directory))))
  rw [walkFrom, List.filter_cons_of_pos rfl, List.map_cons, asked_addAll_cons]
  exact List.mem_cons_self

/-! ## Runs -/

/-- An event tells that a directory was created. -/
def MakesDirectory (tree : FileTree) (e : Event) : Prop :=
  e.changes.contains .created = true ∧ tree.find e.path = .ok .directory

/-- The directories that the watcher is asked to watch for an event. -/
def Setup.asksFor (s : Setup) (e : Event) : List String :=
  match s.tree.find e.path with
  | .ok .directory =>
    if e.changes.contains .created then asked (addRecursive s.tree s.watches e.path) else []
  | _ => []

theorem mem_asksFor {e : Event} : dir ∈ s.asksFor e ↔
    MakesDirectory s.tree e ∧ dir ∈ asked (addRecursive s.tree s.watches e.path) := by
  unfold Setup.asksFor MakesDirectory
  cases s.tree.find e.path with
  | error cause => simp
  | ok entry => cases entry <;> simp

/-- Taking an event in adds the directories that are asked for, but for the one that is refused. -/
theorem added_dispatch (s : Setup) (r : Runs) (e : Event) :
    (s.dispatch r e).2.1.added = (s.asksFor e).filter s.watches := by
  unfold Setup.dispatch Setup.asksFor Setup.isRelevant
  cases created : e.changes.contains .created with
  | false =>
    cases s.tree.find e.path with
    | error cause => cases e.changes.contains .written <;> cases s.accepts e.path <;> rfl
    | ok entry =>
      cases entry <;> cases e.changes.contains .written <;> cases s.accepts e.path <;> rfl
  | true =>
    cases found : s.tree.find e.path with
    | error cause => cases s.accepts e.path <;> rfl
    | ok entry =>
      cases entry with
      | file content => cases s.accepts e.path <;> rfl
      | directory => exact added_addRecursive s.tree s.watches e.path

namespace Move

/-- The directories that the watcher is asked to watch. -/
def asksFor (s : Setup) : Move → List String
  | .event tree e => { s with tree }.asksFor e
  | .join | .turn .. | .receive _ | .cancel | .close | .finish => []

/-- The directories that are watched from a step on. -/
def adds (s : Setup) : Move → List String
  | .event tree e => ({ s with tree }.dispatch .start e).2.1.added
  | .join | .turn .. | .receive _ | .cancel | .close | .finish => []

theorem adds_eq (s : Setup) (m : Move) : m.adds s = (m.asksFor s).filter s.watches := by
  cases m with
  | event tree e => exact added_dispatch { s with tree } .start e
  | join | turn | receive | cancel | close | finish => rfl

end Move

/-- All directories that the watcher is asked to watch: at the start for a root, and by what is done
then. -/
def askedBy (s : Setup) (t : FileTree) (root : String) (ms : List Move) : List String :=
  asked (addRecursive t s.watches root) ++ ms.flatMap (·.asksFor s)

/-- The directories that are watched. -/
def watchedBy (s : Setup) (t : FileTree) (root : String) (ms : List Move) : List String :=
  (addRecursive t s.watches root).1 ++ ms.flatMap (·.adds s)

theorem askedBy_append (s : Setup) (t : FileTree) (root : String) (ms ns : List Move) :
    askedBy s t root (ms ++ ns) = askedBy s t root ms ++ ns.flatMap (·.asksFor s) := by
  simp [askedBy]

theorem watchedBy_subset (s : Setup) (t : FileTree) (root : String) (ms : List Move) :
    watchedBy s t root ms ⊆ askedBy s t root ms := by
  intro dir member
  rw [askedBy, List.mem_append]
  rcases List.mem_append.mp member with first | later
  · rw [added_addRecursive] at first
    exact .inl (List.mem_filter.mp first).1
  · obtain ⟨m, taken, adds⟩ := List.mem_flatMap.mp later
    rw [Move.adds_eq] at adds
    exact .inr (List.mem_flatMap.mpr ⟨m, taken, (List.mem_filter.mp adds).1⟩)

/-- Creations and changes are told of in directories that are watched by then. -/
def Told (s : Setup) (t : FileTree) (root : String) (ms : List Move) : Prop :=
  ∀ before tree e after, ms = before ++ .event tree e :: after → Setup.isRelevant e = true →
    ∃ dir ∈ watchedBy s t root before, Path.dir e.path = Path.clean dir

/-- A step asks for a directory in a skipped one exactly if it takes in that one was created there. -/
theorem skipped_of_step (trees : ∀ tree e, .event tree e ∈ ms → tree.WellFormed) {m : Move}
    (taken : m ∈ ms) : (∃ dir ∈ m.asksFor s, SkippedBelow root dir) ↔
      ∃ tree e, m = .event tree e ∧ MakesDirectory tree e ∧ SkippedBelow root e.path := by
  constructor
  · rintro ⟨dir, asked, skipped⟩
    cases m with
    | event tree e =>
      obtain ⟨makes, listed⟩ := mem_asksFor.mp asked
      exact ⟨tree, e, rfl, makes, (skippedBelow_of_asked (trees tree e taken) listed).mp skipped⟩
    | join | turn | receive | cancel | close | finish => cases asked
  · rintro ⟨tree, e, rfl, makes, skipped⟩
    exact ⟨e.path, mem_asksFor.mpr ⟨makes, self_asked makes.2⟩, skipped⟩

theorem not_skippedBelow_self (root : String) : ¬ SkippedBelow root root := by
  rintro ⟨names, below, name, member, -⟩
  have empty : names = [] := List.self_eq_append_right.mp below.kept
  rw [empty] at member
  cases member

/-- A handler runs because of a change in a directory that is watched. -/
theorem Told.handled {g : Sharing} {c : Crew g} {i : Nat} (told : Told s t root ms)
    (goes : Crew.Goes s .start ms c) (runs : .turn i path .run ∈ ms) :
    ∃ dir ∈ askedBy s t root ms, Path.dir path = Path.clean dir := by
  obtain ⟨before, after, rfl⟩ := List.append_of_mem runs
  obtain ⟨tree, e, taken, rfl, relevant, -⟩ := goes.admitted
  obtain ⟨first, second, rfl⟩ := List.append_of_mem taken
  rw [List.append_assoc, List.cons_append] at told
  have isRelevant : Setup.isRelevant e = true := by simpa [Setup.isRelevant] using relevant
  obtain ⟨dir, watched, parent⟩ := told first tree e _ rfl isRelevant
  refine ⟨dir, ?_, parent⟩
  rw [List.append_assoc, askedBy_append]
  exact List.mem_append_left _ (watchedBy_subset s t root first watched)

/-- A watcher is asked to watch a directory that is, or lies below, one that is skipped exactly if it
tells of such a directory when that is created. If it is never asked to, handlers only run because of
changes in directories that are not skipped. -/
theorem skipped_asked_iff {g : Sharing} {c : Crew g} (goes : Crew.Goes s .start ms c) (wf : t.WellFormed)
    (trees : ∀ tree e, .event tree e ∈ ms → tree.WellFormed) (root : String) :
    ((∃ dir ∈ askedBy s t root ms, SkippedBelow root dir) ↔
      ∃ tree e, .event tree e ∈ ms ∧ MakesDirectory tree e ∧ SkippedBelow root e.path) ∧
    (Told s t root ms → (∀ dir ∈ askedBy s t root ms, ¬ SkippedBelow root dir) →
      ∀ i path, .turn i path .run ∈ ms → ¬ SkippedBelow root (Path.dir path)) := by
  refine ⟨⟨?_, ?_⟩, ?_⟩
  · rintro ⟨dir, asked, skipped⟩
    rcases List.mem_append.mp asked with first | later
    · exact absurd ((skippedBelow_of_asked wf first).mp skipped) (not_skippedBelow_self root)
    · obtain ⟨m, taken, listed⟩ := List.mem_flatMap.mp later
      obtain ⟨tree, e, rfl, made⟩ := (skipped_of_step trees taken).mp ⟨dir, listed, skipped⟩
      exact ⟨tree, e, taken, made⟩
  · rintro ⟨tree, e, taken, made⟩
    obtain ⟨dir, listed, skipped⟩ := (skipped_of_step (s := s) trees taken).mpr ⟨tree, e, rfl, made⟩
    exact ⟨dir, List.mem_append_right _ (List.mem_flatMap.mpr ⟨_, taken, listed⟩), skipped⟩
  · intro told clear i path runs skipped
    obtain ⟨dir, asked, parent⟩ := told.handled goes runs
    obtain ⟨rooted, kept⟩ := Path.kept_clean dir
    rw [parent] at skipped
    exact clear dir asked ((skippedBelow_congr rooted kept).mp skipped)

/-! ## A hidden directory that is watched -/

def emptyTree : FileTree := ⟨"/w", []⟩

def hiddenTree : FileTree := ⟨"/w", [(".git", .directory), (".git/x.sgo", .file [])]⟩

/-- Sources are handled and all directories can be watched. -/
def sourceSetup : Setup :=
  { tree := emptyTree, accepts := fun path => Path.ext path = ".sgo", watches := fun _ => true
    outcome := fun _ => none }

/-- A hidden directory is created, and a source is written in it. -/
def hiddenMoves : List Move :=
  [.event hiddenTree ⟨".git", ⟨Change.created.bit⟩⟩,
    .event hiddenTree ⟨".git/x.sgo", ⟨Change.written.bit⟩⟩, .join] ++
    [Turn.look, .run, .leave, .decide, .forget].map (.turn 0 ".git/x.sgo") ++
    [.receive 0, .close, .finish]

theorem hiddenMoves_go : ∃ c : Crew .lookup, Crew.Goes sourceSetup .start hiddenMoves c :=
  ⟨_, Crew.goes_of_moves? rfl⟩

theorem emptyTree_wellFormed : emptyTree.WellFormed := ⟨.nil, nofun, nofun⟩

theorem hiddenTree_wellFormed : hiddenTree.WellFormed := .of_parts (by decide) (by decide) (by decide +kernel)

theorem hidden_below : Path.Below "." [".git".toList] ".git" :=
  ⟨by decide, by decide, by decide⟩

theorem hidden_skipped : SkippedBelow "." ".git" :=
  ⟨_, hidden_below, _, List.mem_singleton_self _, by decide⟩

theorem hiddenMoves_event {tree : FileTree} {e : Event} (taken : .event tree e ∈ hiddenMoves) :
    tree = hiddenTree ∧ (e.path = ".git" ∨ e.path = ".git/x.sgo") := by
  simp only [hiddenMoves, List.map_cons, List.map_nil, List.cons_append, List.nil_append, List.mem_cons,
    Move.event.injEq, reduceCtorEq, List.not_mem_nil, or_false] at taken
  rcases taken with ⟨rfl, rfl⟩ | ⟨rfl, rfl⟩ <;> simp

theorem hiddenMoves_told : Told sourceSetup emptyTree "." hiddenMoves := by
  intro before tree e after taken _
  match before, taken with
  | [], taken =>
    cases taken
    exact ⟨".", by decide +kernel, by decide +kernel⟩
  | [_], taken =>
    cases taken
    exact ⟨".git", by decide +kernel, by decide +kernel⟩
  | _ :: _ :: before, taken =>
    have last : Move.event tree e ∈ hiddenMoves.drop 2 := by simp [taken]
    simp [hiddenMoves] at last

theorem skipped_asked_hidden :
    (∃ c : Crew .lookup, Crew.Goes sourceSetup .start hiddenMoves c) ∧
      emptyTree.WellFormed ∧ (∀ tree e, .event tree e ∈ hiddenMoves → tree.WellFormed) ∧
      ∃ dir ∈ askedBy sourceSetup emptyTree "." hiddenMoves, SkippedBelow "." dir := by
  have trees : ∀ tree e, Move.event tree e ∈ hiddenMoves → tree.WellFormed := by
    intro tree e taken
    rw [(hiddenMoves_event taken).1]
    exact hiddenTree_wellFormed
  obtain ⟨c, goes⟩ := hiddenMoves_go
  refine ⟨⟨c, goes⟩, emptyTree_wellFormed, trees, ?_⟩
  refine (skipped_asked_iff goes emptyTree_wellFormed trees ".").1.mpr ?_
  exact ⟨hiddenTree, _, List.mem_cons_self, ⟨by decide, by decide +kernel⟩, hidden_skipped⟩

/-- A watch is asked to watch a hidden directory that was created below its root, and a handler runs
because of a change there. -/
theorem hidden_handled : ∃ (s : Setup) (t : FileTree) (ms : List Move) (c : Crew .lookup),
    Crew.Goes s .start ms c ∧ Told s t "." ms ∧
      (∀ tree e, .event tree e ∈ ms → ∃ names, Path.Below "." names e.path) ∧
      (∃ dir ∈ askedBy s t "." ms, SkippedBelow "." dir) ∧
      ∃ i path, .turn i path .run ∈ ms ∧ SkippedBelow "." (Path.dir path) := by
  obtain ⟨c, goes⟩ := hiddenMoves_go
  refine ⟨sourceSetup, emptyTree, hiddenMoves, c, goes, hiddenMoves_told, ?_, ?_, ?_⟩
  · intro tree e taken
    rcases (hiddenMoves_event taken).2 with path | path <;> rw [path]
    · exact ⟨_, hidden_below⟩
    · exact ⟨[".git".toList, "x.sgo".toList], by decide, by decide, by decide⟩
  · exact ⟨".git", by decide +kernel, hidden_skipped⟩
  · have parent : Path.dir ".git/x.sgo" = ".git" := by decide +kernel
    exact ⟨0, ".git/x.sgo", by simp [hiddenMoves], parent ▸ hidden_skipped⟩

end Watch
end Desugar

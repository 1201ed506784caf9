import Desugar.FileTree
import Desugar.Proofs.Path
import Mathlib.Data.List.Sort

/-!
# Trees of files

The entries of a tree have clean paths, each of them once, and every directory above an entry is there. What a
directory lists is then told by looking paths up: names in ascending order, each with the entry that its path
has.
-/
namespace Desugar.FileTree

/-- What the entries of a tree are like. -/
structure WellFormed (t : FileTree) : Prop where
  distinct : (t.entries.map (·.1)).Nodup
  clean : ∀ p ∈ t.entries.map (·.1), Path.IsClean p
  parent : ∀ p ∈ t.entries.map (·.1), t.entry? (Path.dir p) = some .directory

variable {t t' : FileTree} {path clean : String}

theorem WellFormed.of_parts (distinct : (t.entries.map (·.1)).Nodup)
    (proper : ∀ p ∈ t.entries.map (·.1), ∀ part ∈ Path.parts p, Path.IsPart part)
    (parent : ∀ p ∈ t.entries.map (·.1), t.entry? (Path.dir p) = some .directory) : t.WellFormed :=
  ⟨distinct, fun p member => Path.isClean_of_parts (proper p member), parent⟩

theorem lookup_eq_some_iff {α β : Type} [BEq α] [LawfulBEq α] {l : List (α × β)}
    (distinct : (l.map (·.1)).Nodup) {k : α} {v : β} : l.lookup k = some v ↔ (k, v) ∈ l := by
  induction l with
  | nil => simp
  | cons e l ih =>
    obtain ⟨key, value⟩ := e
    rw [List.map_cons, List.nodup_cons] at distinct
    rw [List.lookup_cons, List.mem_cons]
    by_cases same : k = key
    · subst same
      have behind : (k, v) ∉ l := fun member => distinct.1 (List.mem_map_of_mem (f := (·.1)) member)
      simp [behind, eq_comm]
    · have other : (k == key) = false := by simpa using same
      simp [other, same, ih distinct.2]

/-- An entry is looked up by its path. -/
theorem WellFormed.entry_iff (wf : t.WellFormed) {p : String} {e : FileEntry} :
    (p, e) ∈ t.entries ↔ t.entry? p = some e ∧ p ≠ "." := by
  unfold entry?
  constructor
  · intro member
    have dot := (wf.clean p (List.mem_map_of_mem (f := (·.1)) member)).ne_dot
    rw [if_neg dot]
    exact ⟨(lookup_eq_some_iff wf.distinct).mpr member, dot⟩
  · rintro ⟨found, dot⟩
    rw [if_neg dot] at found
    exact (lookup_eq_some_iff wf.distinct).mp found

theorem WellFormed.isClean (wf : t.WellFormed) {p : String} {e : FileEntry} (found : t.entry? p = some e)
    (dot : p ≠ ".") : Path.IsClean p :=
  wf.clean p (List.mem_map_of_mem (f := (·.1)) (wf.entry_iff.mpr ⟨found, dot⟩))

/-- Names with their entries are sorted by insertion. -/
theorem foldr_insertByName (l : List (String × FileEntry)) :
    l.foldr insertByName [] = l.insertionSort fun a b => a.1 ≤ b.1 := by
  have inserted (x : String × FileEntry) (l : List (String × FileEntry)) :
      insertByName x l = l.orderedInsert (fun a b => a.1 ≤ b.1) x := by
    induction l with
    | nil => rfl
    | cons y ys ih => rw [insertByName, List.orderedInsert_cons, ih]
  unfold List.insertionSort
  exact congrArg (fun insert => l.foldr insert []) (funext fun x => funext (inserted x))

/-- What a directory lists is what its paths are entries of. -/
theorem WellFormed.mem_list_iff (wf : t.WellFormed) (there : t.relative? path = some clean)
    {name : String} {e : FileEntry} : (name, e) ∈ t.list path ↔
      ∃ p, t.entry? p = some e ∧ p ≠ "." ∧ Path.dir p = clean ∧ Path.base p = name := by
  unfold list
  rw [there]
  dsimp only
  rw [foldr_insertByName, List.mem_insertionSort, List.mem_map]
  constructor
  · rintro ⟨⟨p, e'⟩, member, same⟩
    obtain ⟨rfl, rfl⟩ := Prod.mk.inj same
    simp only [List.mem_filter, Bool.and_eq_true, decide_eq_true_eq] at member
    exact ⟨p, (wf.entry_iff.mp member.1).1, member.2.1, member.2.2, rfl⟩
  · rintro ⟨p, found, dot, dir, rfl⟩
    refine ⟨(p, e), ?_, rfl⟩
    simp only [List.mem_filter, Bool.and_eq_true, decide_eq_true_eq]
    exact ⟨wf.entry_iff.mpr ⟨found, dot⟩, dot, dir⟩

theorem WellFormed.isPart_of_mem_list (wf : t.WellFormed) {name : String} {e : FileEntry}
    (member : (name, e) ∈ t.list path) : Path.IsPart name.toList := by
  cases there : t.relative? path with
  | none => simp [list, there] at member
  | some clean =>
    obtain ⟨p, found, dot, -, rfl⟩ := (wf.mem_list_iff there).mp member
    obtain ⟨front, part, proper, -, rfl⟩ := (wf.isClean found dot).concat
    rw [Path.base_ofParts proper, String.toList_ofList]
    exact proper

/-- Names in a directory are told once. -/
theorem WellFormed.list_distinct (wf : t.WellFormed) (path : String) :
    (t.list path).Pairwise fun a b => a.1 ≠ b.1 := by
  unfold list
  cases t.relative? path with
  | none => exact .nil
  | some dir =>
    have distinct : t.entries.Pairwise fun a b => a.1 ≠ b.1 := List.pairwise_map.mp wf.distinct
    have inside := distinct.filter fun entry => entry.1 ≠ "." && Path.dir entry.1 = dir
    dsimp only
    rw [foldr_insertByName]
    refine (List.perm_insertionSort _ _).pairwise_iff (fun other => other.symm) |>.mpr ?_
    refine List.pairwise_map.mpr (inside.imp_of_mem fun {a b} member member' other same => other ?_)
    simp only [List.mem_filter, Bool.and_eq_true, decide_eq_true_eq] at member member'
    have clean := wf.clean a.1 (List.mem_map_of_mem member.1)
    have clean' := wf.clean b.1 (List.mem_map_of_mem member'.1)
    exact clean.ext clean' (member.2.2.trans member'.2.2.symm) same

/-- A directory lists its names in ascending order. -/
theorem WellFormed.list_ascends (wf : t.WellFormed) (path : String) :
    (t.list path).Pairwise fun a b => a.1 < b.1 := by
  have ordered : (t.list path).Pairwise fun a b => a.1 ≤ b.1 := by
    unfold list
    cases t.relative? path with
    | none => exact .nil
    | some dir =>
      have total : Std.Total fun a b : String × FileEntry => a.1 ≤ b.1 := ⟨fun a b => String.le_total a.1 b.1⟩
      have trans : IsTrans (String × FileEntry) fun a b => a.1 ≤ b.1 := ⟨fun _ _ _ => String.le_trans⟩
      dsimp only
      rw [foldr_insertByName]
      exact List.pairwise_insertionSort _ _
  refine ordered.imp₂ (fun a b le other => ?_) (wf.list_distinct path)
  exact String.not_le.mp fun ge => other (String.le_antisymm le ge)

/-- Two trees list the same in a directory as far as they agree on the paths there. -/
theorem filter_list_eq (wf : t.WellFormed) (wf' : t'.WellFormed) (root : t.root = t'.root)
    {keep : String × FileEntry → Bool} (path : String)
    (agree : ∀ clean, t.relative? path = some clean → ∀ p e, p ≠ "." → Path.dir p = clean →
      keep (Path.base p, e) → (t.entry? p = some e ↔ t'.entry? p = some e)) :
    (t.list path).filter keep = (t'.list path).filter keep := by
  have there' : t'.relative? path = t.relative? path := by
    unfold relative? absolute
    rw [root]
  have members : ∀ entry, entry ∈ (t.list path).filter keep ↔ entry ∈ (t'.list path).filter keep := by
    rintro ⟨name, e⟩
    rw [List.mem_filter, List.mem_filter]
    refine and_congr_left fun kept => ?_
    cases there : t.relative? path with
    | none => simp [list, there, there'.trans there]
    | some clean =>
      rw [wf.mem_list_iff there, wf'.mem_list_iff (there'.trans there)]
      constructor
      · rintro ⟨p, found, dot, dir, rfl⟩
        exact ⟨p, (agree clean there p e dot dir kept).mp found, dot, dir, rfl⟩
      · rintro ⟨p, found, dot, dir, rfl⟩
        exact ⟨p, (agree clean there p e dot dir kept).mpr found, dot, dir, rfl⟩
  have irreflexive : Std.Irrefl fun a b : String × FileEntry => a.1 < b.1 := ⟨fun a => String.lt_irrefl a.1⟩
  have antisymmetric : Std.Antisymm fun a b : String × FileEntry => a.1 < b.1 :=
    ⟨fun _ _ less greater => absurd greater (String.lt_asymm less)⟩
  exact ((wf.list_ascends path).filter keep).eq_of_mem_iff ((wf'.list_ascends path).filter keep) members

/-! ## Trees with one more file -/

theorem entry_insert {p : String} (dot : p ≠ ".") (e : FileEntry) (q : String) :
    FileTree.entry? (t.insert p e) q = if q = p then some e else t.entry? q := by
  unfold insert entry?
  dsimp only
  by_cases here : q = p
  · subst here
    have gone : (t.entries.filter (·.1 ≠ q)).lookup q = none := by
      rw [List.lookup_eq_none_iff]
      intro entry member
      simp only [List.mem_filter, decide_eq_true_eq] at member
      simpa using Ne.symm member.2
    rw [if_neg dot, if_pos rfl, List.lookup_append, gone]
    simp
  · rw [if_neg here]
    have behind : List.lookup q [(p, e)] = none := by simp [here]
    have kept : (t.entries.filter (·.1 ≠ p)).lookup q = t.entries.lookup q := by
      induction t.entries with
      | nil => rfl
      | cons entry rest ih =>
        obtain ⟨key, value⟩ := entry
        by_cases same : key = p
        · have other : (q == key) = false := by simpa [same] using here
          rw [List.filter_cons_of_neg (by simpa using same), ih, List.lookup_cons, other]
        · rw [List.filter_cons_of_pos (by simpa using same), List.lookup_cons, List.lookup_cons, ih]
    rw [List.lookup_append, kept, behind, Option.or_none]

/-- A file can be put where there is no directory, below one. -/
theorem WellFormed.insert {p : String} (wf : t.WellFormed) (clean : Path.IsClean p)
    (dir : t.entry? (Path.dir p) = some .directory) (other : t.entry? p ≠ some .directory) (content : Bytes) :
    (t.insert p (.file content)).WellFormed := by
  have members {q : String} (member : q ∈ (t.insert p (.file content)).entries.map (·.1)) :
      q = p ∨ q ∈ t.entries.map (·.1) := by
    obtain ⟨entry, listed, rfl⟩ := List.mem_map.mp member
    simp only [FileTree.insert, List.mem_append, List.mem_filter, List.mem_singleton] at listed
    rcases listed with ⟨old, -⟩ | same
    · exact .inr (List.mem_map_of_mem (f := (·.1)) old)
    · exact .inl (congrArg (·.1) same)
  have kept {q : String} (found : t.entry? q = some .directory) :
      FileTree.entry? (t.insert p (.file content)) q = some .directory := by
    rw [entry_insert clean.ne_dot, if_neg, found]
    rintro rfl
    exact other found
  constructor
  · unfold FileTree.insert
    dsimp only
    rw [List.map_append, List.nodup_append]
    refine ⟨(wf.distinct.sublist (List.filter_sublist.map _)), by simp, ?_⟩
    intro a member b last same
    obtain ⟨entry, listed, rfl⟩ := List.mem_map.mp member
    simp only [List.mem_filter, decide_eq_true_eq] at listed
    exact listed.2 (same.trans (by simpa using last))
  · intro q member
    rcases members member with rfl | member
    · exact clean
    · exact wf.clean q member
  · intro q member
    rcases members member with rfl | member
    · exact kept dir
    · exact kept (wf.parent q member)

/-! ## Paths as they are written -/

theorem lastPart_absolute (t : FileTree) (name : Path.IsPart (Path.lastPart path)) :
    Path.lastPart (t.absolute path) = Path.lastPart path := by
  have nonempty : path ≠ "" := by
    rintro rfl
    exact name.nonempty rfl
  unfold absolute
  split
  · exact Path.lastPart_clean name
  · by_cases empty : t.root = ""
    · rw [empty, Path.join_empty nonempty, Path.lastPart_clean name]
    · have last : Path.lastPart (String.ofList (t.root.toList ++ '/' :: path.toList)) =
          Path.lastPart path := by
        rw [Path.lastPart_slash, String.ofList_toList]
      rw [Path.join_eq empty nonempty, Path.lastPart_clean (by rwa [last]), last]

/-- A path that is relative to the working directory leads to it, or to a place below it. -/
theorem absolute_of_relative? (there : t.relative? path = some clean) :
    clean = "." ∧ (t.absolute path).toList = t.root.toList ∨
      (t.absolute path).toList = t.root.toList ++ '/' :: clean.toList := by
  unfold relative? at there
  dsimp only at there
  split at there
  · rename_i root
    exact .inl ⟨(Option.some.inj there).symm, root⟩
  · split at there
    · rename_i below
      obtain ⟨rest, whole⟩ := List.isPrefixOf_iff_prefix.mp below
      obtain rfl := Option.some.inj there
      rw [← whole, List.drop_left' (by simp), String.toList_ofList, List.append_assoc]
      exact .inr rfl
    · cases there

theorem relative?_of_absolute {below : List Char}
    (full : (t.absolute path).toList = t.root.toList ++ '/' :: below) :
    t.relative? path = some (String.ofList below) := by
  have longer : t.root.toList ++ '/' :: below ≠ t.root.toList := fun same => by
    simpa using congrArg List.length same
  have inside : (t.root.toList ++ ['/']).isPrefixOf (t.root.toList ++ '/' :: below) = true :=
    List.isPrefixOf_iff_prefix.mpr ⟨below, by simp⟩
  unfold relative?
  dsimp only
  rw [full, if_neg longer, if_pos inside, List.append_cons, List.drop_left' (by simp)]

/-- A path is relative to the working directory under its name, unless it is that directory. -/
theorem lastPart_relative (there : t.relative? path = some clean) (inside : clean ≠ ".")
    (name : Path.IsPart (Path.lastPart path)) : Path.lastPart clean = Path.lastPart path := by
  rcases absolute_of_relative? there with ⟨dot, -⟩ | full
  · exact absurd dot inside
  · have written : t.absolute path = String.ofList (t.root.toList ++ '/' :: clean.toList) := by
      rw [← full, String.ofList_toList]
    rw [← lastPart_absolute t name, written, Path.lastPart_slash, String.ofList_toList]

theorem absolute_eq_clean (t : FileTree) (nonempty : path ≠ "") :
    ∃ written, t.absolute path = Path.clean written := by
  unfold absolute
  split
  · exact ⟨path, rfl⟩
  · by_cases empty : t.root = ""
    · exact ⟨path, by rw [empty, Path.join_empty nonempty]⟩
    · exact ⟨_, Path.join_eq empty nonempty⟩

/-- Wherever a path starts, one more part stays one more part. -/
theorem kept_absolute_concat (t : FileTree) {longer : String} {part : List Char} (nonempty : path ≠ "")
    (nonempty' : longer ≠ "") (name : Path.IsPart part) (rooted : Path.isAbs longer = Path.isAbs path)
    (parts : Path.kept longer = Path.kept path ++ [part]) :
    Path.isAbs (t.absolute longer) = Path.isAbs (t.absolute path) ∧
      Path.kept (t.absolute longer) = Path.kept (t.absolute path) ++ [part] := by
  unfold absolute
  rw [rooted]
  by_cases absolute : Path.isAbs path = true
  · rw [if_pos absolute, if_pos absolute, (Path.kept_clean _).1, (Path.kept_clean _).1, (Path.kept_clean _).2,
      (Path.kept_clean _).2]
    exact ⟨rooted, parts⟩
  · rw [if_neg absolute, if_neg absolute]
    by_cases empty : t.root = ""
    · rw [empty, Path.join_empty nonempty, Path.join_empty nonempty', (Path.kept_clean _).1, (Path.kept_clean _).1,
        (Path.kept_clean _).2, (Path.kept_clean _).2]
      exact ⟨rooted, parts⟩
    · have relative : Path.isAbs path = false := by simpa using absolute
      obtain ⟨starts, all⟩ := Path.kept_join_relative empty nonempty relative
      obtain ⟨starts', all'⟩ := Path.kept_join_relative empty nonempty' (rooted.trans relative)
      refine ⟨starts'.trans starts.symm, ?_⟩
      rw [all', parts, List.foldl_append, all, List.foldl_cons, List.foldl_nil, Path.pushPart_name name,
        List.reverse_cons]

/-- Wherever a path starts, a name joined to it is one more part. -/
theorem kept_absolute_join (t : FileTree) {name : String} (nonempty : path ≠ "")
    (part : Path.IsPart name.toList) : Path.kept (t.absolute (Path.join [path, name])) =
      Path.kept (t.absolute path) ++ [name.toList] := by
  obtain ⟨rooted, kept⟩ := Path.kept_join nonempty part
  exact (t.kept_absolute_concat nonempty (Path.join_ne_empty nonempty part) part rooted kept).2

/-- Paths that are the same relative to the working directory start from it in the same way. -/
theorem relative?_injective {other : String} (nonempty : path ≠ "") (nonempty' : other ≠ "")
    (there : t.relative? path = Option.some clean) (there' : t.relative? other = Option.some clean) :
    t.absolute path = t.absolute other := by
  -- The working directory itself is no dot in it: a cleaned path does not end in a dot.
  have inside {path : String} (nonempty : path ≠ "") (root : (t.absolute path).toList = t.root.toList ++ ['/', '.']) :
      False := by
    obtain ⟨written, same⟩ := absolute_eq_clean t nonempty
    have full : t.absolute path = String.ofList (t.root.toList ++ '/' :: ['.']) := by
      rw [← root, String.ofList_toList]
    have last := congrArg Path.lastPart full
    rw [Path.lastPart_slash, same] at last
    have single := Path.clean_eq_dot (last.trans (by decide))
    rw [← same, full] at single
    simpa using congrArg (·.toList.length) single
  apply String.toList_injective
  rcases absolute_of_relative? there with ⟨rfl, root⟩ | below
  · rcases absolute_of_relative? there' with ⟨-, root'⟩ | below'
    · rw [root, root']
    · exact (inside nonempty' below').elim
  · rcases absolute_of_relative? there' with ⟨rfl, -⟩ | below'
    · exact (inside nonempty below).elim
    · rw [below, below']

/-- What a path ends in stays at the end of the path from the root, if it has no slash. -/
theorem absolute_append (t : FileTree) (path : String) : ∃ front : List Char, ∀ s : String, '/' ∉ s.toList →
    Path.IsPart (Path.lastPart (path ++ s)) → (t.absolute (path ++ s)).toList = front ++ s.toList := by
  obtain ⟨front, plainly⟩ := Path.clean_append path
  obtain ⟨front', below⟩ := Path.clean_append (String.ofList (t.root.toList ++ '/' :: path.toList))
  have nonempty {s : String} (name : Path.IsPart (Path.lastPart (path ++ s))) : path ++ s ≠ "" := by
    intro empty
    rw [empty] at name
    exact name.nonempty rfl
  have written (s : String) : String.ofList (t.root.toList ++ '/' :: (path ++ s).toList) =
      String.ofList (t.root.toList ++ '/' :: path.toList) ++ s := by
    apply String.toList_injective
    simp
  refine ⟨if Path.isAbs path ∨ t.root = "" then front else front', fun s plain name => ?_⟩
  unfold absolute
  rw [Path.isAbs_append plain]
  by_cases absolute : Path.isAbs path = true
  · rw [if_pos absolute, if_pos (.inl absolute), plainly s plain name]
  · rw [if_neg absolute]
    by_cases empty : t.root = ""
    · rw [if_pos (.inr empty), empty, Path.join_empty (nonempty name), plainly s plain name]
    · rw [if_neg (by simp [absolute, empty]), Path.join_eq empty (nonempty name), written]
      refine below s plain ?_
      rwa [← written, Path.lastPart_slash, String.ofList_toList]

/-- Two spellings of one place have their directories in one place too. -/
theorem relative?_dir {other : String} (name : Path.IsPart (Path.lastPart path))
    (name' : Path.IsPart (Path.lastPart other)) (there : t.relative? path = some clean)
    (there' : t.relative? other = some clean) : t.relative? (Path.dir path) = t.relative? (Path.dir other) := by
  have nonempty {path : String} (name : Path.IsPart (Path.lastPart path)) : path ≠ "" := by
    rintro rfl
    exact name.nonempty rfl
  have below {path : String} (name : Path.IsPart (Path.lastPart path)) :=
    t.kept_absolute_concat (Path.dir_ne_empty path) (nonempty name) name (Path.kept_dir name).1.symm
      (Path.kept_dir name).2
  have same := relative?_injective (nonempty name) (nonempty name') there there'
  obtain ⟨starts, all⟩ := below name
  obtain ⟨starts', all'⟩ := below name'
  have dirs : t.absolute (Path.dir path) = t.absolute (Path.dir other) := by
    obtain ⟨w, written⟩ := absolute_eq_clean t (Path.dir_ne_empty path)
    obtain ⟨w', written'⟩ := absolute_eq_clean t (Path.dir_ne_empty other)
    rw [written] at starts all ⊢
    rw [written'] at starts' all' ⊢
    rw [same] at starts all
    exact Path.clean_ext (starts.symm.trans starts') (List.append_inj' (all.symm.trans all') rfl).1
  unfold relative?
  rw [dirs]

/-- Paths in one directory are relative to the working directory in the same way. -/
theorem relative?_append {s s' : String} (plain : '/' ∉ s.toList) (plain' : '/' ∉ s'.toList)
    (name : Path.IsPart (Path.lastPart (path ++ s))) (name' : Path.IsPart (Path.lastPart (path ++ s')))
    (there : t.relative? (path ++ s) = some clean) (inside : clean ≠ ".") :
    ∃ stem, clean = stem ++ s ∧ t.relative? (path ++ s') = some (stem ++ s') := by
  obtain ⟨front, text⟩ := t.absolute_append path
  rcases absolute_of_relative? there with ⟨dot, -⟩ | full
  · exact absurd dot inside
  -- What ends the path has no slash, so all of it lies behind the working directory.
  obtain ⟨stem, rfl, shape⟩ : ∃ stem, front = t.root.toList ++ '/' :: stem ∧ clean.toList = stem ++ s.toList := by
    rw [text s plain name, List.append_cons] at full
    rcases List.append_eq_append_iff.mp full with ⟨more, same, same'⟩ | ⟨stem, same, same'⟩
    · rcases List.eq_nil_or_concat more with rfl | ⟨before, last, rfl⟩
      · exact ⟨[], by simpa using same.symm, by simpa using same'.symm⟩
      · rw [List.concat_eq_append, ← List.append_assoc] at same
        obtain rfl := (List.cons.inj (List.append_inj' same rfl).2).1
        exact absurd (by simp [same']) plain
    · exact ⟨stem, by simpa using same, same'⟩
  refine ⟨String.ofList stem, String.toList_injective (by simp [shape]), ?_⟩
  have full' := text s' plain' name'
  rw [List.append_assoc, List.cons_append] at full'
  rw [relative?_of_absolute full', String.ofList_append, String.ofList_toList]

theorem exists?_eq (root : t.root = t'.root)
    (directories : ∀ p, t.entry? p = some .directory ↔ t'.entry? p = some .directory)
    (files : ∀ clean, t.relative? path = some clean → Path.asksDirectory path = false →
      t.entry? clean = t'.entry? clean) : t.exists? path = t'.exists? path := by
  have there' : t'.relative? path = t.relative? path := by
    unfold relative? absolute
    rw [root]
  have told (t : FileTree) : t.exists? path = (path ≠ "" && (t.relative? path).any fun clean =>
      t.entry? clean = some .directory || !Path.asksDirectory path && (t.entry? clean).isSome) := by
    unfold exists? find
    by_cases empty : path = ""
    · simp [empty, Except.toBool]
    · rw [if_neg empty]
      cases t.relative? path with
      | none => simp [empty, Except.toBool]
      | some clean =>
        cases found : t.entry? clean with
        | none => simp [empty, found, Except.toBool]
        | some e =>
          cases e with
          | directory => simp [empty, found, Except.toBool]
          | file content =>
            cases Path.asksDirectory path <;> simp [empty, found, Except.toBool]
  rw [told t, told t', there']
  cases there : t.relative? path with
  | none => rfl
  | some clean =>
    cases asks : Path.asksDirectory path with
    | true => simp [directories clean]
    | false => simp [files clean there asks]

/-! ## Written files -/

/-- A tree that another one was made of by writing files has the same directories. -/
structure SameDirectories (t t' : FileTree) : Prop where
  root : t'.root = t.root
  directories : ∀ p, t'.entry? p = some .directory ↔ t.entry? p = some .directory

/-- The directory of every entry is there. -/
def Nests (t : FileTree) : Prop :=
  ∀ p e, t.entry? p = some e → p ≠ "." → t.entry? (Path.dir p) = some .directory

/-- A file can be put at a path: the path may stand for a file, none of the directories is in its place, and
the one that it belongs to is there. -/
structure Writable (t : FileTree) (path : String) : Prop where
  named : path ≠ ""
  asksFile : Path.asksDirectory path = false
  place : ∃ clean, t.relative? path = some clean ∧ t.entry? clean ≠ some .directory ∧
    t.entry? (Path.dir clean) = some .directory

namespace SameDirectories

theorem refl (t : FileTree) : t.SameDirectories t := ⟨rfl, fun _ => Iff.rfl⟩

theorem trans {t'' : FileTree} (first : t.SameDirectories t') (second : t'.SameDirectories t'') :
    t.SameDirectories t'' :=
  ⟨second.root.trans first.root, fun p => (second.directories p).trans (first.directories p)⟩

theorem relative?_eq (same : t.SameDirectories t') (path : String) : t'.relative? path = t.relative? path := by
  unfold relative? absolute
  rw [same.root]

theorem writable_iff (same : t.SameDirectories t') : t'.Writable path ↔ t.Writable path := by
  have place : (∃ clean, t'.relative? path = some clean ∧ t'.entry? clean ≠ some .directory ∧
      t'.entry? (Path.dir clean) = some .directory) ↔ ∃ clean, t.relative? path = some clean ∧
      t.entry? clean ≠ some .directory ∧ t.entry? (Path.dir clean) = some .directory := by
    simp only [same.relative?_eq, ne_eq, same.directories]
  exact ⟨fun w => ⟨w.named, w.asksFile, place.mp w.place⟩, fun w => ⟨w.named, w.asksFile, place.mpr w.place⟩⟩

end SameDirectories

theorem WellFormed.nests (wf : t.WellFormed) : t.Nests := fun p _ found dot =>
  wf.parent p (List.mem_map_of_mem (f := (·.1)) (wf.entry_iff.mpr ⟨found, dot⟩))

/-- Above a directory there are directories only. -/
theorem Nests.above (nests : t.Nests) {p : String} (found : t.entry? p = some .directory) (fuel : Nat) :
    ∀ d ∈ ancestors fuel p, t.entry? d = some .directory := by
  induction fuel generalizing p with
  | zero => simp [ancestors]
  | succ fuel ih =>
    intro d above
    unfold ancestors at above
    dsimp only at above
    split at above
    · cases above
    · rename_i inner
      have dot : p ≠ "." := by
        rintro rfl
        exact inner (by decide +kernel)
      have parent := nests p _ found dot
      rcases List.mem_cons.mp above with rfl | above
      · exact parent
      · exact ih parent d above

theorem Nests.insert {p : String} (nests : t.Nests) (other : t.entry? p ≠ some .directory) (dot : p ≠ ".")
    (parent : t.entry? (Path.dir p) = some .directory) (content : Bytes) :
    (t.insert p (.file content)).Nests := by
  intro q e found away
  have kept {d : String} (directory : t.entry? d = some .directory) :
      FileTree.entry? (t.insert p (.file content)) d = some .directory := by
    rw [entry_insert dot, if_neg (fun here : d = p => other (here ▸ directory)), directory]
  rw [entry_insert dot] at found
  split at found
  · rename_i here
    exact kept (here ▸ parent)
  · exact kept (nests q e found away)

theorem sameDirectories_insert {p : String} (dot : p ≠ ".") (other : t.entry? p ≠ some .directory)
    (content : Bytes) : t.SameDirectories (t.insert p (.file content)) := by
  refine ⟨rfl, fun q => ?_⟩
  rw [entry_insert dot]
  split
  · rename_i here
    subst here
    simp [other]
  · rfl

/-- What stands at a place where a file belongs is no directory, so it is not the working directory. -/
theorem ne_dot_of_entry (other : t.entry? clean ≠ some .directory) : clean ≠ "." := by
  rintro rfl
  exact other (if_pos rfl)

theorem find_file {content : Bytes} (named : path ≠ "") (asksFile : Path.asksDirectory path = false)
    (there : t.relative? path = some clean) (found : t.entry? clean = some (.file content)) :
    t.find path = .ok (.file content) := by
  unfold find
  rw [if_neg named, there]
  dsimp only
  rw [found]
  dsimp only
  rw [if_neg (by simp [asksFile])]

theorem read_file {content : Bytes} (named : path ≠ "") (asksFile : Path.asksDirectory path = false)
    (there : t.relative? path = some clean) (found : t.entry? clean = some (.file content)) :
    t.read path = .ok content := by
  unfold read lookup
  rw [find_file named asksFile there found]
  rfl

theorem find_eq_file {content : Bytes} (found : t.find path = .ok (.file content)) :
    path ≠ "" ∧ Path.asksDirectory path = false ∧ ∃ clean, t.relative? path = some clean ∧
      t.entry? clean = some (.file content) := by
  unfold find at found
  split at found
  · cases found
  · rename_i named
    split at found
    · cases found
    · rename_i clean there
      split at found
      · cases found
      · rename_i e other entry
        split at found
        · cases found
        · rename_i asks
          obtain rfl := Except.ok.inj found
          exact ⟨named, by simpa using asks, clean, there, entry⟩
      · cases found

theorem find_of_read {content : Bytes} (read : t.read path = .ok content) :
    t.find path = .ok (.file content) := by
  unfold FileTree.read lookup at read
  cases found : t.find path with
  | error cause =>
    rw [found] at read
    cases read
  | ok e =>
    rw [found] at read
    cases e with
    | directory => cases read
    | file old =>
      obtain rfl : old = content := Except.ok.inj read
      rfl

theorem find_directory_iff : t.find path = .ok .directory ↔
    path ≠ "" ∧ ∃ clean, t.relative? path = some clean ∧ t.entry? clean = some .directory := by
  constructor
  · intro found
    unfold find at found
    split at found
    · cases found
    · rename_i named
      split at found
      · cases found
      · rename_i clean there
        split at found
        · rename_i entry
          exact ⟨named, clean, there, entry⟩
        · rename_i e other entry
          split at found
          · cases found
          · exact absurd (Except.ok.inj found) other
        · cases found
  · rintro ⟨named, clean, there, entry⟩
    unfold find
    rw [if_neg named, there]
    dsimp only
    rw [entry]

theorem SameDirectories.find_directory_iff (same : t.SameDirectories t') :
    t'.find path = .ok .directory ↔ t.find path = .ok .directory := by
  simp only [FileTree.find_directory_iff, same.relative?_eq, same.directories]

/-- Nothing stands in the way of a file whose directory is there. -/
theorem find_missing (nests : t.Nests) (named : path ≠ "") (there : t.relative? path = some clean)
    (free : t.entry? clean = none) (parent : t.entry? (Path.dir clean) = some .directory) :
    t.find path = .error .missing := by
  have above : (ancestors (clean.length + 1) clean).any
      (fun d => (t.entry? d).any fun e => !e.isDirectory) = false := by
    rw [List.any_eq_false]
    intro d member
    have directory : t.entry? d = some .directory := by
      unfold ancestors at member
      dsimp only at member
      split at member
      · cases member
      · rcases List.mem_cons.mp member with rfl | member
        · exact parent
        · exact nests.above parent _ d member
    simp [directory, FileEntry.isDirectory]
  unfold find
  rw [if_neg named, there]
  dsimp only
  rw [free]
  dsimp only
  rw [above]
  rfl

/-- A file is put where one can be put. -/
theorem Writable.write (writable : t.Writable path) (nests : t.Nests) (content : Bytes) :
    ∃ clean, t.relative? path = some clean ∧ t.entry? clean ≠ some .directory ∧
      t.write path content = .ok (t.insert clean (.file content)) := by
  obtain ⟨clean, there, other, parent⟩ := writable.place
  refine ⟨clean, there, other, ?_⟩
  unfold FileTree.write
  rw [there]
  cases entry : t.entry? clean with
  | none =>
    rw [find_missing nests writable.named there entry parent]
    simp [writable.named, writable.asksFile, parent, FileEntry.isDirectory]
  | some e =>
    cases e with
    | directory => exact absurd entry other
    | file old =>
      rw [find_file writable.named writable.asksFile there entry]

theorem Nests.writable_of_file (nests : t.Nests) {content : Bytes} (found : t.find path = .ok (.file content)) :
    t.Writable path := by
  obtain ⟨named, asksFile, clean, there, entry⟩ := find_eq_file found
  have other : t.entry? clean ≠ some .directory := by simp [entry]
  exact ⟨named, asksFile, clean, there, other, nests _ _ entry (ne_dot_of_entry other)⟩

/-- What a file that was put tells of the place where it was put. -/
theorem write_eq_ok {content : Bytes} (written : t.write path content = .ok t') :
    path ≠ "" ∧ Path.asksDirectory path = false ∧ ∃ clean, t.relative? path = some clean ∧
      t.entry? clean ≠ some .directory ∧ t' = t.insert clean (.file content) ∧
      ((∃ old, t.find path = .ok (.file old)) ∨ t.entry? (Path.dir clean) = some .directory) := by
  unfold FileTree.write at written
  split at written
  · cases written
  · rename_i old clean found there
    obtain ⟨named, asksFile, clean', there', entry⟩ := find_eq_file found
    obtain rfl : clean' = clean := Option.some.inj (there'.symm.trans there)
    exact ⟨named, asksFile, clean', there, by simp [entry], (Except.ok.inj written).symm, .inl ⟨old, found⟩⟩
  · rename_i clean found there
    split at written
    · rename_i parent
      split at written
      · rename_i asks
        rw [Bool.and_eq_true, decide_eq_true_eq] at parent
        refine ⟨parent.1, by simpa using asks, clean, there, fun directory => ?_, (Except.ok.inj written).symm, .inr ?_⟩
        · have here : t.find path = .ok .directory := by
            unfold find
            rw [if_neg parent.1, there]
            dsimp only
            rw [directory]
          rw [here] at found
          cases found
        · cases above : t.entry? (Path.dir clean) with
          | none => simp [above] at parent
          | some e =>
            cases e with
            | directory => rfl
            | file content => simp [above, FileEntry.isDirectory] at parent
      · cases written
    · cases written
  · cases written
  · cases written

/-- No file is put where none can be put. -/
theorem Nests.writable_of_write (nests : t.Nests) {content : Bytes} (written : t.write path content = .ok t') :
    t.Writable path := by
  obtain ⟨named, asksFile, clean, there, other, -, ⟨old, found⟩ | parent⟩ := write_eq_ok written
  · exact nests.writable_of_file found
  · exact ⟨named, asksFile, clean, there, other, parent⟩

/-- A file that was put is read back. -/
theorem read_of_write {content : Bytes} (written : t.write path content = .ok t') : t'.read path = .ok content := by
  obtain ⟨named, asksFile, clean, there, other, rfl, -⟩ := write_eq_ok written
  have here := entry_insert (t := t) (ne_dot_of_entry other) (.file content) clean
  rw [if_pos rfl] at here
  exact read_file named asksFile there here

end Desugar.FileTree

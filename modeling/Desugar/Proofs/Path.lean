import Desugar.Path
import Desugar.Proofs.Text.Splitting

/-!
# Names and directories

A clean relative path is a list of proper parts with slashes between them. Its last part is its name, and
the others are its directory; the two of them tell the path.
-/
namespace Desugar.Path

theorem parts_ne_nil (path : String) : parts path ≠ [] := List.splitOn_ne_nil _ _

theorem slash_not_mem_parts {path : String} {part : List Char} (member : part ∈ parts path) :
    '/' ∉ part := not_mem_of_mem_splitOn member

theorem parts_eq (path : String) : parts path = (parts path).dropLast ++ [lastPart path] := by
  unfold lastPart
  obtain ⟨front, last, same⟩ := (List.eq_nil_or_concat (parts path)).resolve_left (parts_ne_nil path)
  simp [same]

theorem slash_not_mem_lastPart (path : String) : '/' ∉ lastPart path := by
  have last : lastPart path ∈ parts path := by
    rw [parts_eq]
    simp
  exact slash_not_mem_parts last

theorem parts_append {s : String} (plain : '/' ∉ s.toList) (path : String) :
    parts (path ++ s) = (parts path).dropLast ++ [lastPart path ++ s.toList] := by
  unfold parts
  rw [String.toList_append, splitOn_append_of_not_mem _ plain]
  rfl

theorem lastPart_append {s : String} (plain : '/' ∉ s.toList) (path : String) :
    lastPart (path ++ s) = lastPart path ++ s.toList := by
  rw [lastPart, parts_append plain, List.getLast?_concat]
  rfl

theorem parts_slash (front back : List Char) : parts (String.ofList (front ++ '/' :: back)) =
    parts (String.ofList front) ++ parts (String.ofList back) := by
  unfold parts
  rw [String.toList_ofList, String.toList_ofList, String.toList_ofList, List.splitOn_append_cons_self]

theorem lastPart_slash (front back : List Char) :
    lastPart (String.ofList (front ++ '/' :: back)) = lastPart (String.ofList back) := by
  rw [lastPart, parts_slash, parts_eq (String.ofList back), ← List.append_assoc, List.getLast?_concat]
  rfl

theorem lastPart_of_plain {name : String} (plain : '/' ∉ name.toList) : lastPart name = name.toList := by
  rw [lastPart, parts, List.splitOn_eq_singleton plain]
  rfl

/-! ## Endings of names -/

/-- The ending of a name starts at its last dot. -/
theorem ext_append {rest : List Char} (dot : '.' ∉ rest) (slash : '/' ∉ rest) (path : String) :
    ext (path ++ String.ofList ('.' :: rest)) = String.ofList ('.' :: rest) := by
  have plain : '/' ∉ (String.ofList ('.' :: rest)).toList := by simpa using slash
  have first : (rest.reverse ++ '.' :: (lastPart path).reverse).findIdx? (· == '.') = some rest.length := by
    rw [List.findIdx?_append]
    have absent : rest.reverse.findIdx? (· == '.') = none := by
      rw [List.findIdx?_eq_none_iff]
      intro c member
      have other : c ≠ '.' := by
        rintro rfl
        exact dot (List.mem_reverse.mp member)
      simpa using other
    simp [absent, List.findIdx?_cons]
  unfold ext
  dsimp only
  rw [lastPart_append plain, String.toList_ofList, List.reverse_append, List.reverse_cons,
    List.append_assoc, List.singleton_append, first]
  dsimp only
  congr 1
  rw [List.drop_left']
  simp

/-- An ending has one dot, at its front. -/
theorem ext_shape {path : String} (nonempty : ext path ≠ "") :
    ∃ rest, ext path = String.ofList ('.' :: rest) ∧ '.' ∉ rest ∧ '/' ∉ rest := by
  unfold ext at nonempty ⊢
  dsimp only at nonempty ⊢
  cases found : (lastPart path).reverse.findIdx? (· == '.') with
  | none =>
    rw [found] at nonempty
    exact absurd rfl nonempty
  | some i =>
    dsimp only
    obtain ⟨within, dot, before⟩ := List.findIdx?_eq_some_iff_getElem.mp found
    generalize behind : (lastPart path).reverse = back at within dot before
    have whole : lastPart path = (back.drop (i + 1)).reverse ++ '.' :: (back.take i).reverse := by
      have parted : back = back.take i ++ back[i] :: back.drop (i + 1) := by simp
      rw [eq_of_beq dot] at parted
      rw [← List.reverse_reverse (lastPart path), behind]
      conv_lhs => rw [parted]
      simp
    refine ⟨(back.take i).reverse, ?_, ?_, ?_⟩
    · conv_lhs => rw [whole]
      rw [List.drop_left']
      simp
      omega
    · intro member
      obtain ⟨j, less, same⟩ := List.mem_iff_getElem.mp (List.mem_reverse.mp member)
      have less' : j < i := by
        rw [List.length_take] at less
        omega
      rw [List.getElem_take] at same
      exact before j less' (by simp [same])
    · intro member
      exact slash_not_mem_lastPart path (by simp [whole, List.mem_reverse.mp member])

/-- The ending of a path is that of its last part. -/
theorem ext_ofList_lastPart (path : String) : ext (String.ofList (lastPart path)) = ext path := by
  have last : lastPart (String.ofList (lastPart path)) = lastPart path := by
    rw [lastPart_of_plain (by simpa using slash_not_mem_lastPart path), String.toList_ofList]
  unfold ext
  rw [last]

theorem dropTail_append (path tail : String) : dropTail (path ++ tail) tail = path := by
  unfold dropTail
  simp

/-! ## Cleaning -/

/-- A part that names an entry of a directory. -/
structure IsPart (part : List Char) : Prop where
  nonempty : part ≠ []
  plain : '/' ∉ part
  other : part ≠ ['.']
  below : part ≠ ['.', '.']

instance (part : List Char) : Decidable (IsPart part) :=
  decidable_of_iff (part ≠ [] ∧ '/' ∉ part ∧ part ≠ ['.'] ∧ part ≠ ['.', '.'])
    ⟨fun ⟨filled, plain, other, below⟩ => ⟨filled, plain, other, below⟩,
      fun name => ⟨name.nonempty, name.plain, name.other, name.below⟩⟩

theorem isPart_append {front back : List Char} (plain : '/' ∉ front) (plain' : '/' ∉ back)
    (long : 2 < back.length) : IsPart (front ++ back) := by
  have longer : 2 < (front ++ back).length := by
    rw [List.length_append]
    omega
  refine ⟨?_, by simp [plain, plain'], ?_, ?_⟩ <;>
  · intro same
    rw [same] at longer
    simp at longer

theorem isPart_lastPart {path : String} (asks : asksDirectory path = false) : IsPart (lastPart path) := by
  simp only [asksDirectory, List.contains_cons, Bool.or_eq_false_iff, beq_eq_false_iff_ne] at asks
  exact ⟨asks.1, slash_not_mem_lastPart path, asks.2.1, asks.2.2.1⟩

/-- The text of a list of parts with one more part. -/
theorem intercalate_concat {ps : List (List Char)} (nonempty : ps ≠ []) (p : List Char) :
    ['/'].intercalate (ps ++ [p]) = ['/'].intercalate ps ++ '/' :: p := by
  induction ps with
  | nil => exact absurd rfl nonempty
  | cons q ps ih =>
    cases ps with
    | nil => simp [List.intercalate]
    | cons r ps =>
      have rest := ih (by simp)
      simp only [List.intercalate, List.cons_append, List.intersperse_cons_cons, List.flatten_cons] at rest ⊢
      rw [rest]
      simp

theorem toList_eq (path : String) : path.toList = ['/'].intercalate ((parts path).dropLast ++ [lastPart path]) := by
  rw [← parts_eq, parts, List.intercalate_splitOn]

theorem lastPart_suffix (path : String) : lastPart path <:+ path.toList := by
  rw [toList_eq path]
  by_cases alone : (parts path).dropLast = []
  · simp [alone, List.intercalate]
  · rw [intercalate_concat alone]
    exact (List.suffix_cons _ _).trans (List.suffix_append _ _)

/-- The ending of a path stands at its end. -/
theorem exists_append_ext (path : String) : ∃ stem, path = stem ++ ext path := by
  have ending : (ext path).toList <:+ lastPart path := by
    unfold ext
    dsimp only
    split
    · rw [String.toList_ofList]
      exact List.drop_suffix _ _
    · exact List.nil_suffix
  obtain ⟨stem, whole⟩ := ending.trans (lastPart_suffix path)
  refine ⟨String.ofList stem, String.toList_injective ?_⟩
  rw [String.toList_append, String.toList_ofList, whole]

theorem lastPart_intercalate {p : List Char} (plain : '/' ∉ p) (ps : List (List Char)) :
    lastPart (String.ofList (['/'].intercalate (ps ++ [p]))) = p := by
  have alone : lastPart (String.ofList p) = p := by
    rw [lastPart_of_plain (by simpa using plain), String.toList_ofList]
  cases ps with
  | nil => simpa [List.intercalate] using alone
  | cons q ps => rw [intercalate_concat (by simp), lastPart_slash, alone]

theorem pushPart_name {part : List Char} (name : IsPart part) (rooted : Bool) (kept : List (List Char)) :
    pushPart rooted kept part = part :: kept := by
  unfold pushPart
  simp [name.nonempty, name.other, name.below]

/-- Cleaning leaves a name at the end of a path. -/
theorem lastPart_clean {path : String} (name : IsPart (lastPart path)) :
    lastPart (clean path) = lastPart path := by
  have kept : ((parts path).foldl (pushPart (isAbs path)) []).reverse =
      ((parts path).dropLast.foldl (pushPart (isAbs path)) []).reverse ++ [lastPart path] := by
    conv_lhs => rw [parts_eq path]
    rw [List.foldl_append, List.foldl_cons, List.foldl_nil, pushPart_name name, List.reverse_cons]
  unfold clean
  dsimp only
  rw [kept]
  generalize ((parts path).dropLast.foldl (pushPart (isAbs path)) []).reverse = front
  have body := lastPart_intercalate name.plain front
  cases isAbs path with
  | true =>
    have rooted := lastPart_slash [] (['/'].intercalate (front ++ [lastPart path]))
    rw [body] at rooted
    simpa using rooted
  | false =>
    split
    · contradiction
    · split
      · rename_i empty
        rw [List.isEmpty_iff] at empty
        rw [empty] at body
        exact absurd body.symm name.nonempty
      · exact body

/-! ## Clean relative paths -/

/-- The path of some parts. -/
def ofParts (ps : List (List Char)) : String := String.ofList (['/'].intercalate ps)

/-- A clean path of an entry below a directory, relative to it. -/
def IsClean (path : String) : Prop := ∃ ps, ps ≠ [] ∧ (∀ part ∈ ps, IsPart part) ∧ path = ofParts ps

variable {ps : List (List Char)} {p : List Char}

theorem parts_ofParts (nonempty : ps ≠ []) (plain : ∀ part ∈ ps, '/' ∉ part) : parts (ofParts ps) = ps := by
  unfold parts ofParts
  rw [String.toList_ofList, List.splitOn_intercalate '/' plain nonempty]

theorem isClean_of_parts {path : String} (proper : ∀ part ∈ parts path, IsPart part) : IsClean path := by
  refine ⟨parts path, parts_ne_nil path, proper, ?_⟩
  unfold ofParts parts
  rw [List.intercalate_splitOn, String.ofList_toList]

/-- A clean path has a directory and a name. -/
theorem IsClean.concat {path : String} (clean : IsClean path) : ∃ front p, IsPart p ∧
    (∀ part ∈ front, IsPart part) ∧ path = ofParts (front ++ [p]) := by
  obtain ⟨ps, nonempty, proper, rfl⟩ := clean
  obtain ⟨front, p, rfl⟩ := (List.eq_nil_or_concat ps).resolve_left nonempty
  refine ⟨front, p, proper p (by simp), fun part member => proper part (by simp [member]), by simp⟩

theorem lastPart_ofParts (name : IsPart p) (ps : List (List Char)) : lastPart (ofParts (ps ++ [p])) = p :=
  lastPart_intercalate name.plain ps

theorem base_eq {path : String} (filled : lastPart path ≠ []) :
    base path = String.ofList (lastPart path) := by
  have nonempty : path.isEmpty = false := by
    cases empty : path.isEmpty with
    | false => rfl
    | true =>
      obtain rfl : path = "" := String.isEmpty_iff.mp empty
      exact absurd rfl filled
  have last : ((parts path).filter (! ·.isEmpty)).getLast? = Option.some (lastPart path) := by
    rw [parts_eq, List.filter_append]
    simp [filled]
  unfold base
  rw [nonempty, last]
  rfl

theorem base_ofParts (name : IsPart p) : base (ofParts (ps ++ [p])) = String.ofList p := by
  have last := lastPart_ofParts name ps
  rw [base_eq (by rw [last]; exact name.nonempty), last]

theorem foldl_pushPart (proper : ∀ part ∈ ps, IsPart part) (rooted : Bool) (kept : List (List Char)) :
    ps.foldl (pushPart rooted) kept = ps.reverse ++ kept := by
  induction ps generalizing kept with
  | nil => rfl
  | cons q ps ih =>
    rw [List.foldl_cons, pushPart_name (proper q (by simp)), ih fun part member => proper part (by simp [member])]
    simp

theorem isAbs_ofParts (nonempty : p ≠ []) (plain : '/' ∉ p) (rest : List (List Char)) :
    isAbs (ofParts (p :: rest)) = false := by
  obtain ⟨c, cs, rfl⟩ := List.exists_cons_of_ne_nil nonempty
  have other : c ≠ '/' := by
    rintro rfl
    exact plain (by simp)
  have front : (ofParts ((c :: cs) :: rest)).toList.head? = Option.some c := by
    cases rest <;> simp [ofParts, List.intercalate]
  unfold isAbs
  rw [front]
  simpa using other

theorem ofParts_ne_empty (name : IsPart p) (rest : List (List Char)) : ofParts (p :: rest) ≠ "" := by
  obtain ⟨c, cs, rfl⟩ := List.exists_cons_of_ne_nil name.nonempty
  intro empty
  have same := congrArg String.toList empty
  cases rest <;> simp [ofParts, List.intercalate] at same

/-- A path of proper parts is clean; what cleaning drops behind them is dropped. -/
theorem clean_ofParts (name : IsPart p) (proper : ∀ part ∈ ps, IsPart part) {tail : List (List Char)}
    (plain : ∀ part ∈ tail, '/' ∉ part)
    (dropped : ∀ kept, tail.foldl (pushPart false) kept = kept) :
    clean (ofParts (p :: ps ++ tail)) = ofParts (p :: ps) := by
  have all : ∀ part ∈ p :: ps, IsPart part := by
    rintro part member
    rcases List.mem_cons.mp member with rfl | member
    · exact name
    · exact proper part member
  have slashless : ∀ part ∈ p :: ps ++ tail, '/' ∉ part := by
    intro part member
    rcases List.mem_append.mp member with front | behind
    · exact (all part front).plain
    · exact plain part behind
  have relative : isAbs (ofParts (p :: ps ++ tail)) = false := isAbs_ofParts name.nonempty name.plain (ps ++ tail)
  unfold clean
  dsimp only
  rw [relative, parts_ofParts (by simp) slashless, List.foldl_append, foldl_pushPart all, dropped,
    List.append_nil, List.reverse_reverse]
  have nonempty := ofParts_ne_empty name ps
  rw [if_neg (by decide), if_neg]
  · rfl
  · intro empty
    rw [List.isEmpty_iff] at empty
    exact nonempty (by rw [ofParts, empty])

/-- The directory that some parts name: none name the one that paths are relative to. -/
def parentOf (front : List (List Char)) : String := if front = [] then "." else ofParts front

theorem dir_ofParts (name : IsPart p) (proper : ∀ part ∈ ps, IsPart part) :
    dir (ofParts (ps ++ [p])) = parentOf ps := by
  have plain : ∀ part ∈ ps ++ [p], '/' ∉ part := by
    intro part member
    rcases List.mem_append.mp member with front | last
    · exact (proper part front).plain
    · obtain rfl := List.mem_singleton.mp last
      exact name.plain
  unfold dir
  rw [parts_ofParts (by simp) plain, List.dropLast_concat]
  cases ps with
  | nil => rfl
  | cons q ps =>
    exact clean_ofParts (proper q (by simp)) (fun part member => proper part (by simp [member]))
      (by simp) (by simp [pushPart])

theorem parentOf_injective {front other : List (List Char)} (proper : ∀ part ∈ front, IsPart part)
    (proper' : ∀ part ∈ other, IsPart part) (same : parentOf front = parentOf other) : front = other := by
  -- A single dot is no proper part, so the directory itself is not mistaken for an entry of it.
  have named {ps : List (List Char)} (nonempty : ps ≠ []) (proper : ∀ part ∈ ps, IsPart part) :
      ofParts ps ≠ "." := by
    intro dot
    have parts := parts_ofParts nonempty fun part member => (proper part member).plain
    rw [dot] at parts
    have single : Path.parts "." = [['.']] := by decide
    rw [single] at parts
    exact (proper ['.'] (by simp [← parts])).other rfl
  unfold parentOf at same
  by_cases empty : front = [] <;> by_cases empty' : other = []
  · rw [empty, empty']
  · rw [if_pos empty, if_neg empty'] at same
    exact absurd same.symm (named empty' proper')
  · rw [if_neg empty, if_pos empty'] at same
    exact absurd same (named empty proper)
  · rw [if_neg empty, if_neg empty'] at same
    rw [← parts_ofParts empty fun part member => (proper part member).plain, same,
      parts_ofParts empty' fun part member => (proper' part member).plain]

/-- Directory and name tell a clean path. -/
theorem IsClean.ext {path other : String} (clean : IsClean path) (clean' : IsClean other)
    (dirs : dir path = dir other) (bases : base path = base other) : path = other := by
  obtain ⟨front, p, name, proper, rfl⟩ := clean.concat
  obtain ⟨front', p', name', proper', rfl⟩ := clean'.concat
  rw [dir_ofParts name proper, dir_ofParts name' proper'] at dirs
  rw [base_ofParts name, base_ofParts name', String.ofList_inj] at bases
  rw [parentOf_injective proper proper' dirs, bases]

theorem IsClean.ne_dot {path : String} (clean : IsClean path) : path ≠ "." := by
  obtain ⟨front, p, name, proper, rfl⟩ := clean.concat
  intro dot
  have last := lastPart_ofParts name front
  rw [dot] at last
  have single : lastPart "." = ['.'] := by decide
  exact name.other (last.symm.trans single)

/-! ## What cleaning keeps -/

/-- The parts of a path that cleaning keeps, from the front. -/
def kept (path : String) : List (List Char) :=
  ((parts path).foldl (pushPart (isAbs path)) []).reverse

/-- What cleaning has kept so far, the last part first: names, and behind them, where the path is
relative, steps to the directory above. -/
def IsKept (rooted : Bool) : List (List Char) → Prop
  | [] => True
  | part :: below => (IsPart part ∨
      rooted = false ∧ part = ['.', '.'] ∧ ∀ other ∈ below, other = ['.', '.']) ∧ IsKept rooted below

theorem isKept_pushPart {rooted : Bool} {stack : List (List Char)} {part : List Char}
    (sound : IsKept rooted stack) (plain : '/' ∉ part) : IsKept rooted (pushPart rooted stack part) := by
  unfold pushPart
  split
  · exact sound
  · rename_i proper
    split
    · rename_i up
      obtain rfl : part = ['.', '.'] := eq_of_beq up
      cases stack with
      | nil =>
        cases rooted with
        | true => trivial
        | false => exact ⟨.inr ⟨rfl, rfl, by simp⟩, trivial⟩
      | cons top below =>
        by_cases same : top = ['.', '.']
        · subst same
          rcases sound.1 with name | ⟨relative, -, ups⟩
          · exact absurd rfl name.below
          · refine ⟨.inr ⟨relative, rfl, fun other member => ?_⟩, sound⟩
            rcases List.mem_cons.mp member with rfl | deeper
            · rfl
            · exact ups other deeper
        · simpa [same] using sound.2
    · rename_i other
      simp only [Bool.or_eq_true, List.isEmpty_iff, beq_iff_eq, not_or] at proper
      exact ⟨.inl ⟨proper.1, plain, proper.2, by simpa using other⟩, sound⟩

theorem isKept_foldl {rooted : Bool} {ps stack : List (List Char)} (sound : IsKept rooted stack)
    (plain : ∀ part ∈ ps, '/' ∉ part) : IsKept rooted (ps.foldl (pushPart rooted) stack) := by
  induction ps generalizing stack with
  | nil => exact sound
  | cons part ps ih =>
    exact ih (isKept_pushPart sound (plain part (by simp))) fun q member => plain q (by simp [member])

/-- Taking on again what was kept keeps all of it. -/
theorem foldl_of_isKept {rooted : Bool} {stack : List (List Char)} (sound : IsKept rooted stack) :
    stack.reverse.foldl (pushPart rooted) [] = stack := by
  induction stack with
  | nil => rfl
  | cons part below ih =>
    rw [List.reverse_cons, List.foldl_append, ih sound.2, List.foldl_cons, List.foldl_nil]
    rcases sound.1 with name | ⟨rfl, rfl, ups⟩
    · exact pushPart_name name rooted below
    · cases below with
      | nil => rfl
      | cons top rest =>
        obtain rfl := ups top (by simp)
        rfl

theorem IsKept.plain {rooted : Bool} {stack : List (List Char)} (sound : IsKept rooted stack)
    {part : List Char} (member : part ∈ stack) : part ≠ [] ∧ '/' ∉ part := by
  induction stack with
  | nil => cases member
  | cons top below ih =>
    rcases List.mem_cons.mp member with rfl | deeper
    · rcases sound.1 with name | ⟨-, rfl, -⟩
      · exact ⟨name.nonempty, name.plain⟩
      · decide
    · exact ih sound.2 deeper

theorem isKept_kept (path : String) : IsKept (isAbs path) (kept path).reverse := by
  unfold kept
  rw [List.reverse_reverse]
  exact isKept_foldl trivial fun part member => slash_not_mem_parts member

theorem clean_eq (path : String) : clean path =
    if isAbs path then String.ofList ('/' :: ['/'].intercalate (kept path))
    else if kept path = [] then "." else ofParts (kept path) := by
  have empty : (['/'].intercalate (kept path)).isEmpty = true ↔ kept path = [] := by
    cases parts : kept path with
    | nil => simp [List.intercalate]
    | cons part rest =>
      have member : part ∈ (kept path).reverse := by simp [parts]
      obtain ⟨c, cs, rfl⟩ := List.exists_cons_of_ne_nil ((isKept_kept path).plain member).1
      cases rest <;> simp [List.intercalate]
  rw [← if_congr empty rfl rfl]
  rfl

theorem kept_rooted {ps : List (List Char)} (sound : IsKept true ps.reverse) :
    isAbs (String.ofList ('/' :: ['/'].intercalate ps)) = true ∧
      kept (String.ofList ('/' :: ['/'].intercalate ps)) = ps := by
  have absolute : isAbs (String.ofList ('/' :: ['/'].intercalate ps)) = true := by simp [isAbs]
  refine ⟨absolute, ?_⟩
  have split := parts_slash [] (['/'].intercalate ps)
  have front : parts (String.ofList []) = [[]] := by decide
  rw [List.nil_append, front] at split
  rw [kept, absolute, split, List.foldl_append]
  by_cases empty : ps = []
  · rw [empty]
    decide
  · have rest := parts_ofParts empty fun part member => (sound.plain (List.mem_reverse.mpr member)).2
    have again := foldl_of_isKept sound
    rw [List.reverse_reverse] at again
    unfold ofParts at rest
    rw [rest]
    change (List.foldl (pushPart true) [] ps).reverse = ps
    rw [again, List.reverse_reverse]

theorem kept_relative {ps : List (List Char)} (nonempty : ps ≠ []) (sound : IsKept false ps.reverse) :
    isAbs (ofParts ps) = false ∧ kept (ofParts ps) = ps := by
  have plain : ∀ part ∈ ps, part ≠ [] ∧ '/' ∉ part :=
    fun part member => sound.plain (List.mem_reverse.mpr member)
  have relative : isAbs (ofParts ps) = false := by
    obtain ⟨part, behind, shape⟩ := List.exists_cons_of_ne_nil nonempty
    have first := plain part (by simp [shape])
    rw [shape]
    exact isAbs_ofParts first.1 first.2 behind
  have rest := parts_ofParts nonempty fun part member => (plain part member).2
  have again := foldl_of_isKept sound
  rw [List.reverse_reverse] at again
  refine ⟨relative, ?_⟩
  rw [kept, relative, rest, again, List.reverse_reverse]

/-- Cleaning a second time keeps all. -/
theorem kept_clean (path : String) : isAbs (clean path) = isAbs path ∧ kept (clean path) = kept path := by
  have sound := isKept_kept path
  rw [clean_eq]
  cases rooted : isAbs path with
  | true =>
    rw [if_pos rfl]
    rw [rooted] at sound
    exact kept_rooted sound
  | false =>
    rw [if_neg (by decide)]
    rw [rooted] at sound
    by_cases empty : kept path = []
    · rw [if_pos empty, empty]
      decide
    · rw [if_neg empty]
      exact kept_relative empty sound

theorem join_empty {path : String} (nonempty : path ≠ "") : join ["", path] = clean path := by
  simp [join, nonempty]

theorem join_eq {path name : String} (nonempty : path ≠ "") (named : name ≠ "") :
    join [path, name] = clean (String.ofList (path.toList ++ '/' :: name.toList)) := by
  have text : "/".intercalate [path, name] = String.ofList (path.toList ++ '/' :: name.toList) := by
    have same : "/".intercalate [path, name] = path ++ "/" ++ name := rfl
    apply String.toList_injective
    simp [same]
  simp [join, nonempty, named, text]

/-- Taking on the parts of a relative path, or only those that cleaning keeps, comes to the same. -/
theorem foldl_kept {path : String} (relative : isAbs path = false) (rooted : Bool)
    (stack : List (List Char)) :
    (kept path).foldl (pushPart rooted) stack = (parts path).foldl (pushPart rooted) stack := by
  unfold kept
  rw [relative]
  have plain : ∀ part ∈ parts path, '/' ∉ part := fun part member => slash_not_mem_parts member
  generalize parts path = ps at plain
  induction ps using List.reverseRecOn with
  | nil => rfl
  | append_singleton ps part ih =>
    have before := ih fun part member => plain part (by simp [member])
    have sound : IsKept false (ps.foldl (pushPart false) []) :=
      isKept_foldl trivial fun part member => plain part (by simp [member])
    rw [List.foldl_append, List.foldl_append, ← before]
    generalize ps.foldl (pushPart false) [] = kept at sound
    rw [List.foldl_cons, List.foldl_nil, List.foldl_cons, List.foldl_nil]
    by_cases dropped : (part.isEmpty || part == ['.']) = true
    · simp only [pushPart, dropped, if_true]
    · by_cases up : part = ['.', '.']
      · subst up
        cases kept with
        | nil => rfl
        | cons top below =>
          rcases sound.1 with name | ⟨-, rfl, -⟩
          · -- The name on top is given up, before and after.
            have top_ne : (top == ['.', '.']) = false := by simpa using name.below
            rw [List.reverse_cons, List.foldl_append, List.foldl_cons, List.foldl_nil, pushPart_name name]
            simp [pushPart, top_ne]
          · simp [pushPart]
      · have other : (part == ['.', '.']) = false := by simpa using up
        have kept_part : pushPart false kept part = part :: kept := by
          simp only [pushPart, dropped, other, Bool.false_eq_true, if_false]
        rw [kept_part, List.reverse_cons, List.foldl_append]
        rfl

theorem kept_join_relative {path rest : String} (nonempty : path ≠ "") (nonempty' : rest ≠ "")
    (relative : isAbs rest = false) : isAbs (join [path, rest]) = isAbs path ∧ kept (join [path, rest]) =
      ((kept rest).foldl (pushPart (isAbs path)) (kept path).reverse).reverse := by
  have absolute : isAbs (String.ofList (path.toList ++ '/' :: rest.toList)) = isAbs path := by
    obtain ⟨c, cs, shape⟩ := List.exists_cons_of_ne_nil (fun empty => nonempty (String.toList_injective empty))
    simp [isAbs, shape]
  have again := kept_clean (String.ofList (path.toList ++ '/' :: rest.toList))
  rw [join_eq nonempty nonempty', again.1, again.2, absolute]
  have stack : (kept path).reverse = (parts path).foldl (pushPart (isAbs path)) [] :=
    List.reverse_reverse _
  refine ⟨rfl, ?_⟩
  rw [kept, parts_slash, absolute, String.ofList_toList, String.ofList_toList, List.foldl_append,
    foldl_kept relative, stack]

/-- A name joined to a path is one more part. -/
theorem kept_join {path name : String} (nonempty : path ≠ "") (part : IsPart name.toList) :
    isAbs (join [path, name]) = isAbs path ∧ kept (join [path, name]) = kept path ++ [name.toList] := by
  have named : name ≠ "" := by
    rintro rfl
    exact part.nonempty rfl
  have alone : [name.toList].intersperse ['/'] = [name.toList] := rfl
  have written : name = ofParts [name.toList] := by
    simp [ofParts, List.intercalate, alone]
  obtain ⟨relative, self⟩ := kept_relative (List.cons_ne_nil name.toList []) ⟨.inl part, trivial⟩
  rw [← written] at relative self
  obtain ⟨rooted, kept⟩ := kept_join_relative nonempty named relative
  refine ⟨rooted, ?_⟩
  rw [kept, self, List.foldl_cons, List.foldl_nil, pushPart_name part, List.reverse_cons,
    List.reverse_reverse]

/-- What is kept does not end in a single dot, unless nothing is kept. -/
theorem clean_eq_dot {path : String} (dot : lastPart (clean path) = ['.']) : clean path = "." := by
  have sound := isKept_kept path
  rcases List.eq_nil_or_concat (kept path) with empty | ⟨front, part, shape⟩
  · rw [clean_eq, empty] at dot ⊢
    split at dot
    · exact absurd dot (by decide)
    · rename_i relative
      rw [if_neg relative, if_pos rfl]
  · rw [List.concat_eq_append] at shape
    rw [shape, List.reverse_append, List.reverse_singleton, List.singleton_append] at sound
    have plain := (sound.plain List.mem_cons_self).2
    have last : lastPart (clean path) = part := by
      rw [clean_eq, shape]
      split
      · exact (lastPart_slash [] _).trans (lastPart_intercalate plain front)
      · rw [if_neg (by simp)]
        exact lastPart_intercalate plain front
    rw [last] at dot
    subst dot
    rcases sound.1 with name | ⟨-, ups, -⟩
    · exact absurd rfl name.other
    · cases ups

/-! ## Ways down -/

/-- The path that is reached from a directory through names. -/
def descend (root : String) (names : List String) : String :=
  names.foldl (fun dir name => join [dir, name]) root

@[simp] theorem descend_nil (root : String) : descend root [] = root := rfl

theorem descend_cons (root name : String) (names : List String) :
    descend root (name :: names) = descend (join [root, name]) names := rfl

theorem join_ne_empty {path name : String} (nonempty : path ≠ "") (part : IsPart name.toList) :
    join [path, name] ≠ "" := by
  intro blank
  have last := (kept_join nonempty part).2
  have empty : kept "" = [] := by decide
  rw [blank, empty] at last
  simp at last

theorem lastPart_join {path name : String} (nonempty : path ≠ "") (part : IsPart name.toList) :
    lastPart (join [path, name]) = name.toList := by
  have named : name ≠ "" := by
    rintro rfl
    exact part.nonempty rfl
  have last : lastPart (String.ofList (path.toList ++ '/' :: name.toList)) = name.toList := by
    rw [lastPart_slash, String.ofList_toList, lastPart_of_plain part.plain]
  rw [join_eq nonempty named, lastPart_clean (by rwa [last]), last]

theorem descend_ne_empty {root : String} (nonempty : root ≠ "") {names : List String}
    (proper : ∀ name ∈ names, IsPart name.toList) : descend root names ≠ "" := by
  induction names generalizing root with
  | nil => exact nonempty
  | cons name names ih =>
    obtain ⟨part, proper⟩ := List.forall_mem_cons.mp proper
    exact ih (join_ne_empty nonempty part) proper

theorem kept_descend {root : String} (nonempty : root ≠ "") {names : List String}
    (proper : ∀ name ∈ names, IsPart name.toList) : isAbs (descend root names) = isAbs root ∧
      kept (descend root names) = kept root ++ names.map (·.toList) := by
  induction names generalizing root with
  | nil => simp
  | cons name names ih =>
    rw [List.forall_mem_cons] at proper
    obtain ⟨rooted, all⟩ := ih (join_ne_empty nonempty proper.1) proper.2
    obtain ⟨rooted', one⟩ := kept_join nonempty proper.1
    rw [descend_cons, all, one, rooted, rooted']
    simp

/-- Different names lead to different paths. -/
theorem descend_injective {root : String} (nonempty : root ≠ "") {names others : List String}
    (proper : ∀ name ∈ names, IsPart name.toList) (proper' : ∀ name ∈ others, IsPart name.toList)
    (same : descend root names = descend root others) : names = others := by
  have texts := (kept_descend nonempty proper).2.symm.trans (same ▸ (kept_descend nonempty proper').2)
  exact (List.map_inj_right fun _ _ same => String.toList_injective same).mp (List.append_cancel_left texts)

/-! ## Directories of paths -/

theorem isAbs_append {s : String} (plain : '/' ∉ s.toList) (path : String) : isAbs (path ++ s) = isAbs path := by
  unfold isAbs
  rw [String.toList_append]
  cases path.toList with
  | nil =>
    cases text : s.toList with
    | nil => rfl
    | cons c cs =>
      have other : c ≠ '/' := by
        rintro rfl
        simp [text] at plain
      simp [other]
  | cons => rfl

/-- When a path is cleaned, what it ends in stays at the end if that has no slash. -/
theorem clean_append (path : String) : ∃ front : List Char, ∀ s : String, '/' ∉ s.toList →
    IsPart (lastPart (path ++ s)) → (clean (path ++ s)).toList = front ++ s.toList := by
  have whole {s : String} (plain : '/' ∉ s.toList) (name : IsPart (lastPart (path ++ s))) :
      kept (path ++ s) =
        ((parts path).dropLast.foldl (pushPart (isAbs path)) []).reverse ++ [lastPart path ++ s.toList] := by
    rw [lastPart_append plain] at name
    unfold kept
    rw [isAbs_append plain, parts_append plain, List.foldl_append, List.foldl_cons, List.foldl_nil, pushPart_name name,
      List.reverse_cons]
  generalize ((parts path).dropLast.foldl (pushPart (isAbs path)) []).reverse = above at whole
  have text (s : List Char) : ['/'].intercalate (above ++ [lastPart path ++ s]) =
      (if above = [] then [] else ['/'].intercalate above ++ ['/']) ++ lastPart path ++ s := by
    split
    · rename_i empty
      subst empty
      simp [List.intercalate]
    · rename_i nonempty
      rw [intercalate_concat nonempty]
      simp
  refine ⟨(if isAbs path then ['/'] else []) ++
    ((if above = [] then [] else ['/'].intercalate above ++ ['/']) ++ lastPart path), fun s plain name => ?_⟩
  rw [clean_eq, isAbs_append plain, whole plain name]
  split
  · rw [String.toList_ofList, text]
    simp
  · rw [if_neg (by simp), ofParts, String.toList_ofList, text]
    simp

/-- A path is its directory and its last part. -/
theorem kept_dir {path : String} (name : IsPart (lastPart path)) :
    isAbs (dir path) = isAbs path ∧ kept path = kept (dir path) ++ [lastPart path] := by
  have own (rooted : Bool) : (parts path).foldl (pushPart rooted) [] =
      lastPart path :: (parts path).dropLast.foldl (pushPart rooted) [] := by
    conv_lhs => rw [parts_eq path, List.foldl_append, List.foldl_cons, List.foldl_nil, pushPart_name name]
  have text := toList_eq path
  have plain : ∀ part ∈ (parts path).dropLast, '/' ∉ part :=
    fun part member => slash_not_mem_parts (List.dropLast_subset _ member)
  unfold dir
  cases front : (parts path).dropLast with
  | nil =>
    rw [front] at text
    have relative : isAbs path = false := by
      obtain ⟨c, cs, last⟩ := List.exists_cons_of_ne_nil name.nonempty
      have slash := name.plain
      rw [last] at slash
      have other : c ≠ '/' := fun same => slash (by simp [same])
      simp [isAbs, text, last, List.intercalate, other]
    refine ⟨relative.symm ▸ by decide, ?_⟩
    rw [kept, own, front]
    rfl
  | cons first more =>
    rw [front] at text plain
    have nonempty : first :: more ≠ [] := List.cons_ne_nil _ _
    have plain' : ∀ part ∈ first :: more ++ [[]], '/' ∉ part := by
      intro part member
      rcases List.mem_append.mp member with front | last
      · exact plain part front
      · simp [List.mem_singleton.mp last]
    have written : parts (String.ofList (['/'].intercalate (first :: more ++ [[]]))) = first :: more ++ [[]] := by
      unfold parts
      rw [String.toList_ofList, List.splitOn_intercalate '/' plain' (by simp)]
    have rooted : isAbs (String.ofList (['/'].intercalate (first :: more ++ [[]]))) = isAbs path := by
      unfold isAbs
      rw [text, String.toList_ofList, intercalate_concat nonempty, intercalate_concat nonempty]
      cases ['/'].intercalate (first :: more) <;> rfl
    dsimp only
    refine ⟨(kept_clean _).1.trans rooted, ?_⟩
    rw [(kept_clean _).2, kept, kept, own, front, rooted, written, List.foldl_append, List.reverse_cons]
    rfl

theorem clean_ne_empty (path : String) : clean path ≠ "" := by
  unfold clean
  dsimp only
  split
  · exact fun blank => by simpa using congrArg String.toList blank
  · split
    · decide
    · rename_i nonempty
      intro blank
      have empty := congrArg String.toList blank
      rw [String.toList_ofList] at empty
      rw [empty] at nonempty
      exact nonempty rfl

theorem dir_ne_empty (path : String) : dir path ≠ "" := by
  unfold dir
  split
  · decide
  · exact clean_ne_empty _

/-- A cleaned path is told by where it starts and by its parts. -/
theorem clean_ext {path other : String} (rooted : isAbs (clean path) = isAbs (clean other))
    (parts : kept (clean path) = kept (clean other)) : clean path = clean other := by
  rw [(kept_clean path).1, (kept_clean other).1] at rooted
  rw [(kept_clean path).2, (kept_clean other).2] at parts
  rw [clean_eq, clean_eq, rooted, parts]

/-! ## Names with other endings -/

section
variable {s s' : String} (plain : '/' ∉ s.toList) (plain' : '/' ∉ s'.toList) (path : String)
include plain

theorem base_append (nonempty : s ≠ "") : base (path ++ s) = String.ofList (lastPart path) ++ s := by
  have last := lastPart_append plain path
  have filled : lastPart (path ++ s) ≠ [] := by
    rw [last]
    exact List.append_ne_nil_of_right_ne_nil _ fun empty => nonempty (String.toList_injective empty)
  rw [base_eq filled, last]
  exact String.toList_injective (by simp)

include plain'

theorem dir_append : dir (path ++ s) = dir (path ++ s') := by
  unfold dir
  rw [parts_append plain, parts_append plain', List.dropLast_concat, List.dropLast_concat]

theorem IsClean.append (clean : IsClean (path ++ s)) (name : IsPart (lastPart (path ++ s'))) :
    IsClean (path ++ s') := by
  have proper : ∀ part ∈ (parts path).dropLast, IsPart part := by
    obtain ⟨ps, nonempty, proper, written⟩ := clean
    have parted := parts_append plain path
    rw [written, parts_ofParts nonempty fun part member => (proper part member).plain] at parted
    exact fun part member => proper part (by simp [parted, member])
  refine isClean_of_parts fun part member => ?_
  rw [parts_append plain', ← lastPart_append plain'] at member
  rcases List.mem_append.mp member with front | last
  · exact proper part front
  · exact List.mem_singleton.mp last ▸ name

end
end Desugar.Path

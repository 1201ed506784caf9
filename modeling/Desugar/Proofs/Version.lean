import Mathlib.Algebra.Group.Nat.Defs
import Mathlib.Data.List.TakeWhile
import Desugar.Proofs.Except
import Desugar.Proofs.Text.Decimal
import Desugar.Proofs.Text.Splitting
import Desugar.Version

/-!
# Versions

Versions are ordered by their numbers and their pre-releases, and constraints and directives are read as floors of
that order.
-/

/-!
## The order of versions

A version comes before another if the first of its numbers that differs is smaller. With the same numbers it comes
before if it is a pre-release and the other is none, or if both are and its identifiers come first. Identifiers are
compared one by one: numbers by value, numbers before words, words by their characters, and a list of identifiers
before one that goes on behind it. A number has at most 64 bits; an identifier of more digits is a word.
-/
namespace Desugar.Version

variable {v w : Version} {cs rest : List Char}

/-- What an identifier of a pre-release says. -/
inductive Identifier where
  | number (value : Nat)
  | word (chars : List Char)

def Identifier.ofChars (cs : List Char) : Identifier :=
  if cs.all Char.isDigit ∧ Nat.ofDigitChars 10 cs 0 < 2 ^ 64 then number (Nat.ofDigitChars 10 cs 0) else word cs

inductive Identifier.Before : Identifier → Identifier → Prop
  | numbers {m n : Nat} (less : m < n) : Before (number m) (number n)
  | numberWord (n : Nat) (cs : List Char) : Before (number n) (word cs)
  | words {cs ds : List Char} (less : cs < ds) : Before (word cs) (word ds)

def numbers (v : Version) : Nat × Nat × Nat := (v.major, v.minor, v.patch)

/-- The identifiers of a pre-release. -/
def labels (v : Version) : List Identifier := (v.pre.toList.splitOn '.').map .ofChars

inductive Before (v w : Version) : Prop
  | major (less : v.major < w.major)
  | minor (same : v.major = w.major) (less : v.minor < w.minor)
  | patch (same : v.major = w.major) (same' : v.minor = w.minor) (less : v.patch < w.patch)
  | release (same : v.numbers = w.numbers) (pre : v.pre ≠ "") (empty : w.pre = "")
  | preRelease (same : v.numbers = w.numbers) (pre : v.pre ≠ "") (pre' : w.pre ≠ "")
    (less : List.Lex Identifier.Before v.labels w.labels)

/-! ### Versions as they are read -/

/-- Characters that an identifier can have: some, and no zero in front of other digits. -/
structure IsIdentifier (cs : List Char) : Prop where
  ne_nil : cs ≠ []
  front : hasLeadingZero cs = false

/-- A version whose pre-release is made of identifiers. -/
def IsProper (v : Version) : Prop := v.pre ≠ "" → ∀ i ∈ v.pre.toList.splitOn '.', IsIdentifier i

theorem number_eq_ok_iff {n : Nat} : number cs = .ok n ↔ Nat.ofDigitChars 10 cs 0 = n ∧ n < 2 ^ 64 := by
  change (if Nat.ofDigitChars 10 cs 0 < 2 ^ 64 then Except.ok (Nat.ofDigitChars 10 cs 0) else .error _) = .ok n ↔ _
  constructor
  · intro read
    split at read
    · next less =>
      obtain rfl := Except.ok.inj read
      exact ⟨rfl, less⟩
    · cases read
  · rintro ⟨rfl, less⟩
    exact if_pos less

theorem point_not_mem_takeWhile : '.' ∉ cs.takeWhile isIdentChar := by
  intro member
  exact absurd (List.mem_takeWhile_imp member) (by decide)

/-- What is read as identifiers has no empty one among them. -/
theorem ne_nil_of_identifiers {fuel : Nat} {ids : List Char} (read : identifiers fuel cs = some (ids, rest)) :
    ids ≠ [] ∧ ∀ i ∈ ids.splitOn '.', i ≠ [] := by
  induction fuel generalizing cs ids rest with
  | zero => cases read
  | succ fuel ih =>
    unfold identifiers at read
    dsimp only at read
    have single : (cs.takeWhile isIdentChar).splitOn '.' = [cs.takeWhile isIdentChar] :=
      List.splitOn_eq_singleton point_not_mem_takeWhile
    split at read
    · cases read
    · next nonempty =>
      rw [List.isEmpty_iff] at nonempty
      split at read
      · split at read
        · next more _ inner =>
          obtain ⟨rfl, -⟩ := Prod.mk.inj (Option.some.inj read)
          refine ⟨by simp, ?_⟩
          rw [List.splitOn_append_cons_self, single]
          intro i member
          rcases List.mem_append.mp member with first | later
          · rw [List.mem_singleton.mp first]
            exact nonempty
          · exact (ih inner).2 i later
        · obtain ⟨rfl, -⟩ := Prod.mk.inj (Option.some.inj read)
          exact ⟨nonempty, by rw [single]; simpa using nonempty⟩
      · obtain ⟨rfl, -⟩ := Prod.mk.inj (Option.some.inj read)
        exact ⟨nonempty, by rw [single]; simpa using nonempty⟩

theorem ne_nil_of_tail {mark : Char} {i : List Char} (nonempty : (tail mark cs).1 ≠ [])
    (member : i ∈ (tail mark cs).1.splitOn '.') : i ≠ [] := by
  cases cs with
  | nil => exact absurd rfl nonempty
  | cons c rest =>
    simp only [tail] at nonempty member
    split at nonempty
    · next marked =>
      rw [if_pos marked] at member
      cases read : identifiers (rest.length + 1) rest with
      | none =>
        rw [read] at nonempty
        exact absurd rfl nonempty
      | some found =>
        rw [read] at member
        exact (ne_nil_of_identifiers read).2 i member
    · exact absurd rfl nonempty

/-- What a text has to be made of to be read as a version. -/
structure Spells (p : Parts) (v : Version) : Prop where
  major : number p.major = .ok v.major
  minor : number p.minor = .ok v.minor
  patch : number p.patch = .ok v.patch
  front : ∀ i ∈ p.pre.splitOn '.', hasLeadingZero i = false
  pre : v.pre = String.ofList p.pre
  build : v.build = String.ofList p.build

theorem parse_eq_ok_iff {text : String} :
    parse text = .ok v ↔ ∃ p, parts? Char.isDigit text.toList = some (p, []) ∧ Spells p v := by
  unfold parse
  constructor
  · intro read
    split at read
    · next p found =>
      obtain ⟨major, readMajor, read⟩ := bind_eq_ok read
      obtain ⟨minor, readMinor, read⟩ := bind_eq_ok read
      obtain ⟨patch, readPatch, read⟩ := bind_eq_ok read
      dsimp only at read
      split at read
      · cases read
      · next front =>
        obtain rfl := Except.ok.inj read
        exact ⟨p, found, readMajor, readMinor, readPatch, by simpa using front, rfl, rfl⟩
    · cases read
  · rintro ⟨p, found, major, minor, patch, front, pre, build⟩
    have fronts : (p.pre.splitOn '.').any hasLeadingZero = false := by simpa using front
    simp only [found, major, minor, patch, fronts]
    exact congrArg Except.ok (by rw [← pre, ← build])

theorem pre_of_parts? {isDigit : Char → Bool} {p : Parts} (found : parts? isDigit cs = some (p, rest)) :
    ∃ front, p.pre = (tail '-' front).1 := by
  unfold parts? at found
  dsimp only at found
  split at found
  all_goals
    rw [Option.ite_none_left_eq_some, Option.some_inj] at found
    obtain ⟨rfl, -⟩ := Prod.mk.inj found.2
    exact ⟨_, rfl⟩

/-- Versions that are read are proper. -/
theorem isProper_of_parse {text : String} (read : parse text = .ok v) : v.IsProper := by
  obtain ⟨p, found, spells⟩ := parse_eq_ok_iff.mp read
  intro nonempty i member
  rw [spells.pre, String.toList_ofList] at member
  refine ⟨?_, spells.front i member⟩
  obtain ⟨rest, told⟩ := pre_of_parts? found
  rw [told] at member
  refine ne_nil_of_tail (fun empty => nonempty ?_) member
  rw [spells.pre, told, empty]

/-! ### Comparisons -/

variable {a b : List Char}

theorem isNumeral_of_isIdentifier (identifier : IsIdentifier a) (digits : a.all Char.isDigit = true) :
    IsNumeral a := by
  refine ⟨identifier.ne_nil, List.all_eq_true.mp digits, fun zero => ?_⟩
  have front := identifier.front
  simp only [hasLeadingZero, zero, digits, decide_true, Bool.and_true, decide_eq_false_iff_not] at front
  match a, zero, front with
  | ['0'], rfl, _ => rfl
  | _ :: _ :: _, _, long => exact absurd (Nat.lt_add_of_pos_left (Nat.succ_pos _)) long

theorem Identifier.ofChars_inj (identifier : IsIdentifier a) (identifier' : IsIdentifier b) :
    ofChars a = ofChars b ↔ a = b := by
  refine ⟨fun same => ?_, congrArg _⟩
  unfold ofChars at same
  split at same <;> split at same
  · next digits digits' =>
    exact (isNumeral_of_isIdentifier identifier digits.1).eq_of_value
      (isNumeral_of_isIdentifier identifier' digits'.1) (Identifier.number.inj same)
  · cases same
  · cases same
  · exact Identifier.word.inj same

/-- The number that an identifier is. -/
def Identifier.value? : Identifier → Option Nat
  | number n => some n
  | word _ => none

theorem Identifier.value?_ofChars (a : List Char) :
    (ofChars a).value? = if a.all Char.isDigit then (Version.number a).toOption else none := by
  cases digits : a.all Char.isDigit with
  | false => simp [ofChars, digits, value?]
  | true =>
    by_cases less : Nat.ofDigitChars 10 a 0 < 2 ^ 64
    · have number' : ofChars a = number (Nat.ofDigitChars 10 a 0) := if_pos ⟨digits, less⟩
      rw [number', number_eq_ok_iff.mpr ⟨rfl, less⟩, if_pos rfl]
      rfl
    · have word' : ofChars a = word a := if_neg fun fits => less fits.2
      have fails : ∀ n, Version.number a ≠ .ok n := by
        intro n read
        obtain ⟨rfl, less'⟩ := number_eq_ok_iff.mp read
        exact less less'
      cases read : Version.number a with
      | ok n => exact absurd read (fails n)
      | error f => rw [word', if_pos rfl]; rfl

theorem Identifier.eq_word {ds : List Char} (word' : ofChars a = word ds) : ds = a := by
  unfold ofChars at word'
  split at word'
  · cases word'
  · exact (word.inj word').symm

theorem Identifier.Before.irrefl (i : Identifier) : ¬ i.Before i := by
  rintro (less | _ | less)
  · exact Nat.lt_irrefl _ less
  · exact List.lt_irrefl _ less

theorem compareIdentifier_of_ne (filled : a ≠ []) (filled' : b ≠ []) (other : a ≠ b) :
    compareIdentifier a b = match (Identifier.ofChars a).value?, (Identifier.ofChars b).value? with
      | none, none => if String.ofList b < String.ofList a then .gt else .lt
      | some _, none => .lt
      | none, some _ => .gt
      | some m, some n => if n < m then .gt else .lt := by
  have full : a.isEmpty = false := List.isEmpty_eq_false_iff.mpr filled
  have full' : b.isEmpty = false := List.isEmpty_eq_false_iff.mpr filled'
  rw [Identifier.value?_ofChars, Identifier.value?_ofChars]
  cases value : if a.all Char.isDigit then (number a).toOption else none <;>
    cases value' : if b.all Char.isDigit then (number b).toOption else none <;>
    simp only [compareIdentifier, if_neg other, full, full', value, value', Bool.not_false, Bool.true_and,
      Bool.false_eq_true, if_false]

theorem compareIdentifier_ne_eq (nonempty : a ≠ []) (nonempty' : b ≠ []) (other : a ≠ b) :
    compareIdentifier a b ≠ .eq := by
  rw [compareIdentifier_of_ne nonempty nonempty' other]
  split
  · split <;> nofun
  · nofun
  · nofun
  · split <;> nofun

/-- Identifiers are compared as what they say. -/
theorem compareIdentifier_eq_lt_iff (identifier : IsIdentifier a) (identifier' : IsIdentifier b) :
    compareIdentifier a b = .lt ↔ (Identifier.ofChars a).Before (.ofChars b) := by
  by_cases same : a = b
  · subst same
    simp [compareIdentifier, Identifier.Before.irrefl]
  rw [compareIdentifier_of_ne identifier.ne_nil identifier'.ne_nil same]
  have other := mt (Identifier.ofChars_inj identifier identifier').mp same
  cases first : Identifier.ofChars a with
  | number m =>
    cases second : Identifier.ofChars b with
    | number n =>
      rw [first, second, Identifier.number.injEq] at other
      constructor
      · intro less
        refine .numbers (Nat.lt_of_le_of_ne (Nat.le_of_not_lt fun less' => ?_) other)
        simp [Identifier.value?, less'] at less
      · rintro (less | _ | _)
        simp [Identifier.value?, Nat.lt_asymm less]
    | word ds => simp [Identifier.value?, Identifier.Before.numberWord]
  | word cs =>
    obtain rfl := Identifier.eq_word first
    cases second : Identifier.ofChars b with
    | number n =>
      constructor
      · nofun
      · nofun
    | word ds =>
      obtain rfl := Identifier.eq_word second
      simp only [Identifier.value?, String.lt_iff, String.toList_ofList]
      constructor
      · intro less
        refine .words (Decidable.byContradiction fun not => ?_)
        have less' : ds < cs := Decidable.byContradiction fun not' => same (List.le_antisymm not' not)
        simp [less'] at less
      · rintro (_ | _ | less)
        simp [List.lt_asymm less]

variable {as bs : List (List Char)}

/-- Lists of identifiers are compared like words in a dictionary. -/
theorem compareIdentifiers_eq_lt_iff (identifiers : ∀ a ∈ as, IsIdentifier a)
    (identifiers' : ∀ b ∈ bs, IsIdentifier b) :
    compareIdentifiers as bs = .lt ↔
      List.Lex Identifier.Before (as.map Identifier.ofChars) (bs.map Identifier.ofChars) := by
  induction as generalizing bs with
  | nil =>
    cases bs with
    | nil => simp [compareIdentifiers]
    | cons b bs =>
      have other : [] ≠ b := (identifiers' b (List.mem_cons_self ..)).ne_nil.symm
      simp [compareIdentifiers, compareIdentifier, other]
  | cons a as ih =>
    have head := identifiers a (List.mem_cons_self ..)
    cases bs with
    | nil => simp [compareIdentifiers, compareIdentifier, head.ne_nil]
    | cons b bs =>
      have head' := identifiers' b (List.mem_cons_self ..)
      have rest := ih (fun a member => identifiers a (List.mem_cons_of_mem _ member))
        (fun b member => identifiers' b (List.mem_cons_of_mem _ member))
      rw [compareIdentifiers, Ordering.then_eq_lt, compareIdentifier_eq_lt_iff head head', rest, List.map_cons,
        List.map_cons, List.cons_lex_cons_iff, Identifier.ofChars_inj head head']
      by_cases same : a = b
      · simp [same, compareIdentifier]
      · simp [same, compareIdentifier_ne_eq head.ne_nil head'.ne_nil same]

theorem comparePre_eq_lt_iff (proper : v.IsProper) (proper' : w.IsProper) :
    comparePre v.pre w.pre = .lt ↔
      v.pre ≠ "" ∧ (w.pre = "" ∨ w.pre ≠ "" ∧ List.Lex Identifier.Before v.labels w.labels) := by
  unfold comparePre
  by_cases release : v.pre = ""
  · by_cases release' : w.pre = "" <;> simp [release, release']
  · by_cases release' : w.pre = ""
    · simp [release, release']
    · simp [release, release', compareIdentifiers_eq_lt_iff (proper release) (proper' release'), labels]

/-- Versions that are read are compared by their order. -/
theorem cmp_eq_lt_iff (proper : v.IsProper) (proper' : w.IsProper) : v.cmp w = .lt ↔ v.Before w := by
  have pre := comparePre_eq_lt_iff proper proper'
  simp only [cmp, Ordering.then_eq_lt, Ordering.then_eq_eq, Nat.compare_eq_lt, Nat.compare_eq_eq, pre]
  constructor
  · rintro ((less | ⟨same, less⟩) | ⟨⟨same, same'⟩, less | ⟨same'', nonempty, empty | ⟨nonempty', less⟩⟩⟩)
    · exact .major less
    · exact .minor same less
    · exact .patch same same' less
    · exact .release (by simp [numbers, same, same', same'']) nonempty empty
    · exact .preRelease (by simp [numbers, same, same', same'']) nonempty nonempty' less
  · rintro (less | ⟨same, less⟩ | ⟨same, same', less⟩ | ⟨same, nonempty, empty⟩ | ⟨same, nonempty, nonempty', less⟩)
    · exact .inl (.inl less)
    · exact .inl (.inr ⟨same, less⟩)
    · exact .inr ⟨⟨same, same'⟩, .inl less⟩
    · simp only [numbers, Prod.mk.injEq] at same
      exact .inr ⟨⟨same.1, same.2.1⟩, .inr ⟨same.2.2, nonempty, .inl empty⟩⟩
    · simp only [numbers, Prod.mk.injEq] at same
      exact .inr ⟨⟨same.1, same.2.1⟩, .inr ⟨same.2.2, nonempty, .inr ⟨nonempty', less⟩⟩⟩

end Desugar.Version

/-!
## Reading numbers and floors

Two or three numbers parted by points are read as a version, if each has at most 64 bits; what comes behind them
has to be a pre-release or metadata. A floor, the constraint `>= M.N`, holds for the releases that do not come
before it.
-/
namespace Desugar.Version

variable {isDigit : Char → Bool} {digits major minor patch rest cs : List Char} {v : Version}

/-! ### Numbers -/

theorem segment_digits (nonempty : digits ≠ []) (all : ∀ c ∈ digits, isDigit c = true)
    (stops : Stops isDigit rest) : segment isDigit ('.' :: (digits ++ rest)) = (digits, rest) := by
  simp [segment, takeWhile_run all stops, nonempty]

theorem segment_of_head (head : rest.head? ≠ some '.') : segment isDigit rest = ([], rest) := by
  unfold segment
  split
  · exact absurd rfl head
  · rfl

theorem tail_of_head {mark : Char} (head : rest.head? ≠ some mark) : tail mark rest = ([], rest) := by
  cases rest with
  | nil => rfl
  | cons c rest =>
    have other : c ≠ mark := fun same => head (by rw [same]; rfl)
    simp [tail, other]

/-- Numbers parted by points, as digits; the last number may be left out. -/
def dotted (major minor patch : List Char) : List Char :=
  major ++ '.' :: (minor ++ if patch = [] then [] else '.' :: patch)

/-- What goes on behind the last number of a version, and is no part of it. -/
structure StopsVersion (isDigit : Char → Bool) (rest : List Char) : Prop where
  digit : Stops isDigit rest
  point : rest.head? ≠ some '.'
  hyphen : rest.head? ≠ some '-'
  plus : rest.head? ≠ some '+'

theorem stopsVersion_nil : StopsVersion isDigit [] := ⟨nofun, nofun, nofun, nofun⟩

theorem segment_patch (all : ∀ c ∈ patch, isDigit c = true) (stops : StopsVersion isDigit rest) :
    segment isDigit ((if patch = [] then [] else '.' :: patch) ++ rest) = (patch, rest) := by
  by_cases empty : patch = []
  · rw [if_pos empty, empty]
    exact segment_of_head stops.point
  · rw [if_neg empty, List.cons_append]
    exact segment_digits empty all stops.digit

theorem parts?_dotted (nonempty : major ≠ []) (nonempty' : minor ≠ []) (all : ∀ c ∈ major, isDigit c = true)
    (all' : ∀ c ∈ minor, isDigit c = true) (all'' : ∀ c ∈ patch, isDigit c = true) (letter : isDigit 'v' = false)
    (point : isDigit '.' = false) (stops : StopsVersion isDigit rest) :
    parts? isDigit (dotted major minor patch ++ rest) = some (⟨major, minor, patch, [], []⟩, rest) := by
  have shape : dotted major minor patch ++ rest =
      major ++ '.' :: (minor ++ ((if patch = [] then [] else '.' :: patch) ++ rest)) := by simp [dotted]
  have behind : Stops isDigit ((if patch = [] then [] else '.' :: patch) ++ rest) := by
    by_cases empty : patch = []
    · simpa [empty] using stops.digit
    · intro c head
      obtain rfl : '.' = c := by simpa [empty] using head
      exact point
  have front : Stops isDigit ('.' :: (minor ++ ((if patch = [] then [] else '.' :: patch) ++ rest))) := by
    intro c head
    obtain rfl := Option.some.inj head
    exact point
  have noMark : ∀ more, dotted major minor patch ++ rest ≠ 'v' :: more := by
    intro more same
    obtain ⟨m, ms, rfl⟩ := List.exists_cons_of_ne_nil nonempty
    rw [shape, List.cons_append, List.cons.injEq] at same
    have digit := all m (List.mem_cons_self ..)
    rw [same.1, letter] at digit
    cases digit
  unfold parts?
  dsimp only
  split
  · next more same => exact absurd same (noMark more)
  · rw [shape, takeWhile_run all front, List.drop_left, segment_digits nonempty' all' behind]
    simp [nonempty, nonempty', segment_patch all'' stops, tail_of_head stops.hyphen, tail_of_head stops.plus]

/-! ### Versions -/

/-- A version of numbers alone. -/
def release (major minor patch : Nat) : Version := ⟨major, minor, patch, "", ""⟩

/-- The numbers of a version as they are written, the last one only if there is one. -/
def spelt (major minor : Nat) (patch? : Option Nat) : List Char :=
  dotted (Nat.toDigits 10 major) (Nat.toDigits 10 minor) (patch?.elim [] (Nat.toDigits 10))

theorem number_toDigits_iff {n m : Nat} : number (Nat.toDigits 10 n) = .ok m ↔ m = n ∧ n < 2 ^ 64 := by
  rw [number_eq_ok_iff, Nat.ofDigitChars_toDigits (by decide) (by decide)]
  constructor
  · rintro ⟨rfl, less⟩
    exact ⟨rfl, less⟩
  · rintro ⟨rfl, less⟩
    exact ⟨rfl, less⟩

theorem number_patch_iff {patch? : Option Nat} {m : Nat} :
    number (patch?.elim [] (Nat.toDigits 10)) = .ok m ↔ m = patch?.getD 0 ∧ patch?.getD 0 < 2 ^ 64 := by
  cases patch? with
  | none =>
    rw [Option.elim_none, number_eq_ok_iff, Nat.ofDigitChars_nil, Option.getD_none]
    constructor
    · rintro ⟨rfl, less⟩
      exact ⟨rfl, less⟩
    · rintro ⟨rfl, less⟩
      exact ⟨rfl, less⟩
  | some n => exact number_toDigits_iff

theorem isDigit_of_mem_patch {patch? : Option Nat} : ∀ c ∈ patch?.elim [] (Nat.toDigits 10), c.isDigit = true := by
  intro c member
  cases patch? with
  | none => cases member
  | some n => exact (isNumeral_toDigits n).digits c member

theorem parts?_spelt (major minor : Nat) (patch? : Option Nat) (digit : ∀ c, c.isDigit = true → isDigit c = true)
    (letter : isDigit 'v' = false) (point : isDigit '.' = false) (stops : StopsVersion isDigit rest) :
    parts? isDigit (spelt major minor patch? ++ rest) = some (⟨Nat.toDigits 10 major, Nat.toDigits 10 minor,
      patch?.elim [] (Nat.toDigits 10), [], []⟩, rest) :=
  have numeral := isNumeral_toDigits major
  have numeral' := isNumeral_toDigits minor
  parts?_dotted numeral.ne_nil numeral'.ne_nil (fun c member => digit c (numeral.digits c member))
    (fun c member => digit c (numeral'.digits c member)) (fun c member => digit c (isDigit_of_mem_patch c member))
    letter point stops

/-- Numbers are a version if each has at most 64 bits and nothing stands behind them. -/
theorem parse_spelt_iff {text : String} {major minor : Nat} {patch? : Option Nat}
    (chars : text.toList = spelt major minor patch? ++ rest) (stops : StopsVersion Char.isDigit rest) :
    parse text = .ok v ↔ rest = [] ∧ v = release major minor (patch?.getD 0) ∧
      major < 2 ^ 64 ∧ minor < 2 ^ 64 ∧ patch?.getD 0 < 2 ^ 64 := by
  have parts := parts?_spelt major minor patch? (fun _ digit => digit)
    (by decide) (by decide) stops
  rw [parse_eq_ok_iff, chars, parts]
  constructor
  · rintro ⟨p, found, spells⟩
    obtain ⟨rfl, empty⟩ := Prod.mk.inj (Option.some.inj found)
    obtain ⟨readMajor, readMinor, readPatch, -, pre, build⟩ := spells
    rw [number_toDigits_iff] at readMajor readMinor
    rw [number_patch_iff] at readPatch
    refine ⟨empty, ?_, readMajor.2, readMinor.2, readPatch.2⟩
    cases v
    simp_all [release]
  · rintro ⟨rfl, rfl, less, less', less''⟩
    refine ⟨_, rfl, number_toDigits_iff.mpr ⟨rfl, less⟩, number_toDigits_iff.mpr ⟨rfl, less'⟩,
      number_patch_iff.mpr ⟨rfl, less''⟩, ?_, rfl, rfl⟩
    simp [hasLeadingZero]

/-! ### What is read ends where the rest begins -/

theorem suffix_of_identifiers {fuel : Nat} {ids : List Char} (read : identifiers fuel cs = some (ids, rest)) :
    rest <:+ cs := by
  induction fuel generalizing cs ids rest with
  | zero => cases read
  | succ fuel ih =>
    unfold identifiers at read
    dsimp only at read
    have dropped : cs.drop (cs.takeWhile isIdentChar).length <:+ cs := List.drop_suffix _ _
    split at read
    · cases read
    · split at read
      · next more point =>
        rw [point] at dropped
        split at read
        · next inner =>
          obtain ⟨-, rfl⟩ := Prod.mk.inj (Option.some.inj read)
          exact (ih inner).trans ((List.suffix_cons _ _).trans dropped)
        · obtain ⟨-, rfl⟩ := Prod.mk.inj (Option.some.inj read)
          exact dropped
      · obtain ⟨-, rfl⟩ := Prod.mk.inj (Option.some.inj read)
        exact dropped

theorem tail_suffix (mark : Char) (cs : List Char) : (tail mark cs).2 <:+ cs := by
  unfold tail
  split
  · next c rest =>
    split
    · cases read : identifiers (rest.length + 1) rest with
      | none => exact List.suffix_rfl
      | some found => exact (suffix_of_identifiers read).trans (List.suffix_cons _ _)
    · exact List.suffix_rfl
  · exact List.suffix_rfl

theorem segment_suffix (isDigit : Char → Bool) (cs : List Char) : (segment isDigit cs).2 <:+ cs := by
  unfold segment
  split
  · dsimp only
    split
    · exact List.suffix_rfl
    · exact (List.drop_suffix _ _).trans (List.suffix_cons _ _)
  · exact List.suffix_rfl

theorem segments_suffix (isDigit : Char → Bool) (cs : List Char) :
    (if (segment isDigit cs).1.isEmpty then ([], (segment isDigit cs).2)
      else segment isDigit (segment isDigit cs).2).2 <:+ cs := by
  split
  · exact segment_suffix isDigit cs
  · exact (segment_suffix isDigit _).trans (segment_suffix isDigit cs)

theorem suffix_of_parts? {p : Parts} (read : parts? isDigit cs = some (p, rest)) : rest <:+ cs := by
  unfold parts? at read
  dsimp only at read
  split at read
  all_goals
    rw [Option.ite_none_left_eq_some, Option.some_inj] at read
    obtain ⟨-, rfl⟩ := Prod.mk.inj read.2
    refine (tail_suffix _ _).trans ((tail_suffix _ _).trans ((segments_suffix _ _).trans ?_))
  · exact (List.drop_suffix _ _).trans (List.suffix_cons _ _)
  · exact List.drop_suffix _ _

namespace Constraint

/-! ### Floors -/

theorem alternatives_of_not_mem (plain : '|' ∉ cs) : alternatives cs = [cs] := by
  induction cs with
  | nil => rfl
  | cons c cs ih =>
    have other : c ≠ '|' := fun same => plain (by simp [same])
    rw [alternatives]
    · rw [ih fun member => plain (List.mem_cons_of_mem _ member)]
    · intro rest same
      exact absurd same other

theorem range?_of_not_mem (plain : '-' ∉ cs) : range? cs = none := by
  cases found : range? cs with
  | none => rfl
  | some range =>
    unfold range? at found
    obtain ⟨⟨⟨low, p⟩, rest⟩, read, found⟩ := Option.bind_eq_some_iff.mp found
    obtain ⟨⟨p', rest'⟩, inner, same⟩ := Option.map_eq_some_iff.mp read
    obtain rfl : rest' = rest := congrArg Prod.snd same
    have inside : skip rest' <:+ cs :=
      (List.dropWhile_suffix _).trans ((suffix_of_parts? inner).trans (List.dropWhile_suffix _))
    dsimp only at found
    split at found
    · next second hyphen =>
      rw [hyphen] at inside
      exact absurd (inside.subset (List.mem_cons_self ..)) plain
    · cases found

theorem spellOutRanges_of_not_mem {fuel : Nat} (plain : '-' ∉ cs) : spellOutRanges fuel cs = cs := by
  induction fuel generalizing cs with
  | zero => rfl
  | succ fuel ih =>
    cases cs with
    | nil => rfl
    | cons c cs =>
      unfold spellOutRanges
      rw [range?_of_not_mem plain]
      exact congrArg _ (ih fun member => plain (List.mem_cons_of_mem _ member))

/-- The comparison that a floor is. -/
def floor (major minor : Nat) : Comparison :=
  { operator := .greaterEqual, version := release major minor 0, written := String.ofList (spelt major minor none)
    isOpen := true, minorOpen := false, patchOpen := true }

theorem isOpenNumber_toDigits (n : Nat) : isOpenNumber (Nat.toDigits 10 n) = false := by
  have numeral := isNumeral_toDigits n
  have letter {c : Char} (same : Nat.toDigits 10 n = [c]) : c.isDigit = true :=
    numeral.digits c (by rw [same]; exact List.mem_singleton_self c)
  simp only [isOpenNumber, Bool.or_eq_false_iff, decide_eq_false_iff_not]
  refine ⟨⟨⟨numeral.ne_nil, fun same => ?_⟩, fun same => ?_⟩, fun same => ?_⟩
  all_goals exact absurd (letter same) (by decide)

theorem comparison_floor {major minor : Nat} :
    comparison .greaterEqual (spelt major minor none) ⟨Nat.toDigits 10 major, Nat.toDigits 10 minor, [], [], []⟩ =
      if major < 2 ^ 64 ∧ minor < 2 ^ 64 then .ok (floor major minor) else .error .unreadable := by
  have chars :
      (String.ofList (Nat.toDigits 10 major ++ '.' :: Nat.toDigits 10 minor ++ '.' :: ['0'] ++ [] ++ [])).toList =
        spelt major minor (some 0) ++ [] := by simp [spelt, dotted]
  have read (v : Version) := parse_spelt_iff (v := v) chars stopsVersion_nil
  have missing : isOpenNumber [] = true := by decide
  simp only [comparison, isOpenNumber_toDigits, missing, if_true, Bool.false_eq_true, if_false, List.isEmpty_nil]
  split
  · next v parsed =>
    obtain ⟨-, rfl, less, less', -⟩ := (read v).mp parsed
    rw [if_pos ⟨less, less'⟩]
    rfl
  · next f parsed =>
    refine (if_neg fun less => ?_).symm
    have parsed' := (read _).mpr ⟨rfl, rfl, less.1, less.2, by decide⟩
    rw [parsed] at parsed'
    cases parsed'

theorem isBlank_of_isDigit {c : Char} (digit : c.isDigit = true) : isBlank c = false := by
  rw [Bool.eq_false_iff]
  intro blank
  simp only [isBlank, Bool.or_eq_true, decide_eq_true_eq] at blank
  obtain (((rfl | rfl) | rfl) | rfl) | rfl := blank <;> exact absurd digit (by decide)

theorem mem_spelt {major minor : Nat} {c : Char} (member : c ∈ spelt major minor none) :
    c = '.' ∨ c.isDigit = true := by
  have shape : spelt major minor none = Nat.toDigits 10 major ++ '.' :: Nat.toDigits 10 minor := by
    simp [spelt, dotted]
  rw [shape, List.mem_append, List.mem_cons] at member
  rcases member with first | point | second
  · exact .inr ((isNumeral_toDigits major).digits c first)
  · exact .inl point
  · exact .inr ((isNumeral_toDigits minor).digits c second)

theorem pairs_floor (fuel major minor : Nat) :
    pairs (fuel + 1) (">= ".toList ++ spelt major minor none) =
      some [(.greaterEqual, spelt major minor none, ⟨Nat.toDigits 10 major, Nat.toDigits 10 minor, [], [], []⟩)] := by
  have number : skip (spelt major minor none) = spelt major minor none := by
    refine dropWhile_of_stops fun c head => ?_
    rcases mem_spelt (List.mem_of_head? head) with rfl | digit
    · decide
    · exact isBlank_of_isDigit digit
  have blank : skip (' ' :: spelt major minor none) = spelt major minor none := number
  have front : operator (skip (">= ".toList ++ spelt major minor none)) =
      (.greaterEqual, ' ' :: spelt major minor none) := rfl
  have isOpen (c : Char) (digit : c.isDigit = true) : isOpenDigit c = true := by simp [isOpenDigit, digit]
  have parts := parts?_spelt major minor none isOpen (by decide) (by decide) stopsVersion_nil
  rw [List.append_nil] at parts
  have written : openVersion? (spelt major minor none) =
      some ((spelt major minor none, ⟨Nat.toDigits 10 major, Nat.toDigits 10 minor, [], [], []⟩), []) := by
    rw [openVersion?, parts]
    simp
  rw [pairs, front]
  dsimp only
  rw [blank, written]
  rfl

/-- Reading a floor. -/
theorem parse_floor {text : String} {major minor : Nat}
    (chars : text.toList = ">= ".toList ++ spelt major minor none) :
    parse text = if major < 2 ^ 64 ∧ minor < 2 ^ 64 then .ok [[floor major minor]] else .error .unreadable := by
  have plain {mark : Char} (other : mark ∉ ">= .".toList) (noDigit : mark.isDigit = false) : mark ∉ text.toList := by
    intro member
    rw [chars, List.mem_append] at member
    rcases member with front | number
    · exact other (List.mem_append_left ['.'] front)
    · rcases mem_spelt number with rfl | digit
      · exact other (by decide)
      · rw [noDigit] at digit
        cases digit
  unfold parse
  rw [spellOutRanges_of_not_mem (plain (by decide) (by decide)),
    alternatives_of_not_mem (plain (by decide) (by decide)), chars]
  simp only [List.mapM_cons, List.mapM_nil, alternative, pairs_floor, comparison_floor]
  split <;> rfl

theorem holds_floor_iff (major minor : Nat) (empty : v.pre = "") :
    holds [[floor major minor]] v = true ↔ v.cmp (release major minor 0) ≠ .lt := by
  simp [holds, Comparison.refuses?, Comparison.refusesPre, Comparison.refusesRelease?, floor, empty]

end Constraint

end Desugar.Version

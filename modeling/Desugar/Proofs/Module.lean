import Desugar.Module.Check
import Desugar.Proofs.Version

/-!
# What a module file says

A module is looked at for two things: whether it has the support library, and how recent its language is.
-/

/-!
## Whether a module has the support library

A module has the library if it is the library itself, or if its first line that needs the library names a version
that will do: one that is replaced, or one with the major number of the minimum and not before it. A replacement
may name the version that it is for, but the check takes any replacement of the library for one of the version
that is needed.
-/
namespace Desugar.Module.Manifest

variable {m : Manifest} {path version text minimum : String} {floor v : Version}

/-- The first line that needs a module needs it at this version. -/
def Requires (m : Manifest) (path version : String) : Prop :=
  ∃ before after, m.file.require = before ++ ⟨path, version⟩ :: after ∧ ∀ r ∈ before, r.path ≠ path

/-- A line replaces a module at a version: it names that version, or none. -/
def Redirects (m : Manifest) (path version : String) : Prop :=
  ∃ r ∈ m.file.replace, r.path = path ∧ (r.version = "" ∨ r.version = version)

/-- A text is a version with the major number of another one and not before it. -/
def Meets (text : String) (floor : Version) : Prop :=
  ∃ v, Version.parse text = .ok v ∧ v.major = floor.major ∧ ¬ v.Before floor

def Supports (m : Manifest) (path : String) (floor : Version) : Prop :=
  m.path = path ∨ ∃ version, m.Requires path version ∧ (m.Redirects path version ∨ Meets version floor)

/-- The module needs another one at a version that will not do, and replaces it at other versions only. -/
structure ReplacesElsewhere (m : Manifest) (path version : String) (floor : Version) : Prop where
  other : m.path ≠ path
  needed : m.Requires path version
  replaced : ∃ r ∈ m.file.replace, r.path = path
  elsewhere : ¬ m.Redirects path version
  unmet : ¬ Meets version floor

theorem requirement_eq_some_iff : m.requirement path = some version ↔ m.Requires path version := by
  unfold requirement Requires
  rw [Option.map_eq_some_iff]
  constructor
  · rintro ⟨⟨path', version'⟩, found, rfl⟩
    obtain ⟨named, before, after, lines, first⟩ := List.find?_eq_some_iff_append.mp found
    obtain rfl : path' = path := by simpa using named
    exact ⟨before, after, lines, fun r member => by simpa using first r member⟩
  · rintro ⟨before, after, lines, first⟩
    refine ⟨⟨path, version⟩, List.find?_eq_some_iff_append.mpr ⟨by simp, before, after, lines, ?_⟩, rfl⟩
    intro r member
    simpa using first r member

theorem isReplaced_iff : m.isReplaced path = true ↔ ∃ r ∈ m.file.replace, r.path = path := by
  simp [isReplaced]

theorem Requires.unique {version' : String} (needed : m.Requires path version) (needed' : m.Requires path version') :
    version = version' := by
  rw [← requirement_eq_some_iff] at needed needed'
  exact Option.some.inj (needed.symm.trans needed')

theorem meets_iff (parsed : Version.parse text = .ok v) :
    Meets text floor ↔ v.major = floor.major ∧ ¬ v.Before floor := by
  simp [Meets, parsed]

/-- What the check lets pass: any replacement of the library counts. -/
theorem checkSupport_eq_ok_iff (read : Version.parse minimum = .ok floor) :
    m.checkSupport path minimum = .ok () ↔ m.path = path ∨ ∃ version, m.Requires path version ∧
      ((∃ r ∈ m.file.replace, r.path = path) ∨ Meets version floor) := by
  have proper := Version.isProper_of_parse read
  unfold checkSupport
  by_cases own : m.path = path
  · simp only [own, if_true, true_or, iff_true]
    rfl
  simp only [own, if_false, false_or, read, Except.mapError]
  cases needed : m.requirement path with
  | none =>
    have never : ∀ version, ¬ m.Requires path version := by
      intro version required
      rw [← requirement_eq_some_iff, needed] at required
      cases required
    constructor
    · intro passes
      cases passes
    · rintro ⟨version, required, -⟩
      exact absurd required (never version)
  | some version =>
    have requires := requirement_eq_some_iff.mp needed
    have only : (∃ version, m.Requires path version ∧
        ((∃ r ∈ m.file.replace, r.path = path) ∨ Meets version floor)) ↔
        (∃ r ∈ m.file.replace, r.path = path) ∨ Meets version floor := by
      refine ⟨?_, fun serves => ⟨version, requires, serves⟩⟩
      rintro ⟨version', requires', serves⟩
      rwa [requires.unique requires']
    rw [only, ← isReplaced_iff]
    by_cases replaced : m.isReplaced path = true
    · simp only [replaced, true_or, iff_true]
      rfl
    cases parsed : Version.parse version with
    | error f => simp [replaced, Meets, parsed, bind, Except.bind]
    | ok v =>
      rw [meets_iff parsed, ← Version.cmp_eq_lt_iff (Version.isProper_of_parse parsed) proper]
      by_cases major : v.major = floor.major
      · by_cases old : v.cmp floor = .lt
        · simp [replaced, parsed, major, old, bind, Except.bind, throw, throwThe, MonadExceptOf.throw]
        · simp [replaced, parsed, major, old, bind, Except.bind, pure, Except.pure]
      · simp [replaced, parsed, major, bind, Except.bind, throw, throwThe, MonadExceptOf.throw]

/-- The check lets those modules pass that have the library, if and only if the module does not need the library
at a version that will not do while it replaces other versions of it. -/
theorem checkSupport_iff (read : Version.parse minimum = .ok floor) :
    (m.checkSupport path minimum = .ok () ↔ m.Supports path floor) ↔
      ∀ version, ¬ m.ReplacesElsewhere path version floor := by
  rw [checkSupport_eq_ok_iff read, Supports]
  constructor
  · rintro agrees version ⟨other, needed, replaced, elsewhere, unmet⟩
    rcases agrees.mp (.inr ⟨version, needed, .inl replaced⟩) with own | ⟨version', needed', serves⟩
    · exact other own
    · obtain rfl := needed.unique needed'
      exact serves.elim elsewhere unmet
  · intro never
    constructor
    · rintro (own | ⟨version, needed, serves⟩)
      · exact .inl own
      by_contra fails
      simp only [not_or, not_exists, not_and] at fails
      have refused := fails.2 version needed
      rcases serves with replaced | meets
      · exact never version ⟨fails.1, needed, replaced, refused.1, refused.2⟩
      · exact refused.2 meets
    · rintro (own | ⟨version, needed, ⟨r, member, named, -⟩ | meets⟩)
      · exact .inl own
      · exact .inr ⟨version, needed, .inl ⟨r, member, named⟩⟩
      · exact .inr ⟨version, needed, .inr meets⟩

/-- A module that needs an early version of the library passes with a replacement of any version, and fails
without. -/
theorem checkSupport_iff_replaced :
    let requires : File := ⟨some "example.com/app", none, none, [⟨"example.com/lib", "v0.1.0"⟩], []⟩
    let replaces : File := { requires with replace := [⟨"example.com/lib", "", "../lib", ""⟩] }
    let floor : Version := ⟨0, 3, 0, "", ""⟩
    Version.parse "0.3.0" = .ok floor ∧
      Manifest.Supports ⟨"go.mod", replaces⟩ "example.com/lib" floor ∧
      Manifest.checkSupport ⟨"go.mod", replaces⟩ "example.com/lib" "0.3.0" = .ok () ∧
      ¬ Manifest.Supports ⟨"go.mod", requires⟩ "example.com/lib" floor := by
  intro requires replaces floor
  have read : Version.parse "0.3.0" = .ok floor := eq_ok_of_toOption (by decide +kernel)
  have supports : Manifest.Supports ⟨"go.mod", replaces⟩ "example.com/lib" floor :=
    .inr ⟨"v0.1.0", ⟨[], [], rfl, nofun⟩, .inl ⟨_, List.mem_singleton_self _, rfl, .inl rfl⟩⟩
  have agrees := (@checkSupport_iff ⟨"go.mod", replaces⟩ "example.com/lib" "0.3.0" floor read).mpr ?_
  have agrees' := (@checkSupport_iff ⟨"go.mod", requires⟩ "example.com/lib" "0.3.0" floor read).mpr ?_
  · refine ⟨read, supports, agrees.mpr supports, fun supports => ?_⟩
    have passes := agrees'.mpr supports
    revert passes
    decide +kernel
  · rintro version ⟨-, -, ⟨r, member, -⟩, -⟩
    cases member
  · rintro version ⟨-, -, ⟨r, member, named⟩, elsewhere, -⟩
    exact elsewhere ⟨r, member, named, .inl (by rw [List.mem_singleton.mp member])⟩

/-- A module passes that needs an early version of the library and replaces a later one. -/
theorem checkSupport_replaced_elsewhere :
    let text := "module example.com/app\n\nrequire example.com/lib v0.1.0\n\nreplace example.com/lib v0.9.9 => ../lib\n"
    let file : File := ⟨some "example.com/app", none, none, [⟨"example.com/lib", "v0.1.0"⟩],
      [⟨"example.com/lib", "v0.9.9", "../lib", ""⟩]⟩
    let floor : Version := ⟨0, 3, 0, "", ""⟩
    File.parse (Text.utf8 text) = .ok file ∧ Version.parse "0.3.0" = .ok floor ∧
      Manifest.checkSupport ⟨"go.mod", file⟩ "example.com/lib" "0.3.0" = .ok () ∧
      ¬ Manifest.Supports ⟨"go.mod", file⟩ "example.com/lib" floor := by
  intro text file floor
  have passes : Manifest.checkSupport ⟨"go.mod", file⟩ "example.com/lib" "0.3.0" = .ok () :=
    eq_ok_of_toOption (by decide +kernel)
  refine ⟨eq_ok_of_toOption (by decide +kernel), eq_ok_of_toOption (by decide +kernel), passes, ?_⟩
  have needed : Manifest.Requires ⟨"go.mod", file⟩ "example.com/lib" "v0.1.0" := ⟨[], [], rfl, nofun⟩
  rintro (own | ⟨version, needed', serves⟩)
  · revert own
    decide
  obtain rfl := needed.unique needed'
  rcases serves with ⟨r, member, -, applies⟩ | ⟨v, parsed, -, late⟩
  · rw [List.mem_singleton.mp member] at applies
    revert applies
    decide
  · have early : Version.parse "v0.1.0" = .ok ⟨0, 1, 0, "", ""⟩ := eq_ok_of_toOption (by decide +kernel)
    obtain rfl := Except.ok.inj (parsed.symm.trans early)
    exact late (.minor rfl (by decide))

end Desugar.Module.Manifest

/-!
## The version of the language

A version of the language has two numbers and a stage: `1.21`, then its candidates such as `1.21rc2`, then the
patches from `1.21.0` on. Before 21 the version without a patch is the release itself and comes after its
candidates. Any other text counts as before all of these. The check reads the version as one of another kind, which
cannot have a candidate's letters.
-/
namespace Desugar.Module

/-- How far a version of the language has come. -/
inductive Stage where
  | bare
  | candidate (kind : String) (n : Nat)
  | patch (n : Nat)

/-- Before 21 the version without a patch is its first release. -/
def Stage.settled (minor : Nat) : Stage → Stage
  | bare => if minor < 21 then patch 0 else bare
  | stage => stage

inductive Stage.Before : Stage → Stage → Prop
  | bareCandidate (kind : String) (n : Nat) : Before bare (candidate kind n)
  | barePatch (n : Nat) : Before bare (patch n)
  | kinds {kind kind' : String} (m n : Nat) (less : kind < kind') : Before (candidate kind m) (candidate kind' n)
  | candidates {m n : Nat} (kind : String) (less : m < n) : Before (candidate kind m) (candidate kind n)
  | candidatePatch (kind : String) (m n : Nat) : Before (candidate kind m) (patch n)
  | patches {m n : Nat} (less : m < n) : Before (patch m) (patch n)

theorem Stage.not_before_bare {stage : Stage} {minor : Nat} (release : ∀ kind n, stage ≠ candidate kind n) :
    ¬ (stage.settled minor).Before (bare.settled minor) := by
  rcases Nat.lt_or_ge minor 21 with old | new
  · intro before
    cases stage with
    | candidate kind n => exact release kind n rfl
    | bare =>
      simp only [settled, if_pos old] at before
      cases before with
      | patches less => exact Nat.lt_irrefl _ less
    | patch n =>
      simp only [settled, if_pos old] at before
      cases before with
      | patches less => exact Nat.not_lt_zero _ less
  · have last : bare.settled minor = bare := if_neg (Nat.not_lt.mpr new)
    rw [last]
    generalize stage.settled minor = settled
    nofun

/-- A version of the language. -/
structure Language where
  major : Nat
  minor : Nat
  stage : Stage

namespace Language

variable {l l' : Language} {text : String} {M N : Nat}

inductive Before (l l' : Language) : Prop
  | major (less : l.major < l'.major)
  | minor (same : l.major = l'.major) (less : l.minor < l'.minor)
  | stage (same : l.major = l'.major) (same' : l.minor = l'.minor)
    (less : (l.stage.settled l.minor).Before (l'.stage.settled l'.minor))

def render (l : Language) : String :=
  s!"{l.major}.{l.minor}" ++ match l.stage with
    | .bare => ""
    | .candidate kind n => s!"{kind}{n}"
    | .patch n => s!".{n}"

/-- A candidate's kind is a word of small letters. -/
def IsNamed (l : Language) : Prop :=
  ∀ kind n, l.stage = .candidate kind n → kind ≠ "" ∧ ∀ c ∈ kind.toList, c.isLower = true

def IsRelease (l : Language) : Prop := ∀ kind n, l.stage ≠ .candidate kind n

def patch? (l : Language) : Option Nat :=
  match l.stage with
  | .patch n => some n
  | _ => none

/-- Each number has at most 64 bits. -/
structure Fits (l : Language) : Prop where
  major : l.major < 2 ^ 64
  minor : l.minor < 2 ^ 64
  patch : l.patch?.getD 0 < 2 ^ 64

/-- A text is a version of the language that does not come before `M.N`. -/
def AtLeast (text : String) (M N : Nat) : Prop :=
  ∃ l : Language, l.IsNamed ∧ l.render = text ∧ ¬ l.Before ⟨M, N, .bare⟩

/-- What stands behind the numbers. -/
def suffix (l : Language) : List Char :=
  match l.stage with
  | .candidate kind n => kind.toList ++ Nat.toDigits 10 n
  | _ => []

theorem toList_render (l : Language) : l.render.toList = Version.spelt l.major l.minor l.patch? ++ l.suffix := by
  have word (s : String) : (toString s).toList = s.toList := rfl
  cases stage : l.stage <;>
    simp [render, patch?, suffix, stage, Version.spelt, Version.dotted, word, Nat.toDigits_ne_nil]

theorem isRelease_iff (named : l.IsNamed) : l.IsRelease ↔ l.suffix = [] := by
  cases stage : l.stage with
  | bare => simp [IsRelease, suffix, stage]
  | patch n => simp [IsRelease, suffix, stage]
  | candidate kind n => simp [IsRelease, suffix, stage, (named kind n stage).1]

theorem stopsVersion_of_isLower {rest : List Char} (letter : ∀ c, rest.head? = some c → c.isLower = true) :
    Version.StopsVersion Char.isDigit rest := by
  have other {c : Char} (head : rest.head? = some c) : c.isDigit = false ∧ c ≠ '.' ∧ c ≠ '-' ∧ c ≠ '+' := by
    have lower := letter c head
    refine ⟨?_, ?_, ?_, ?_⟩
    · rw [Bool.eq_false_iff]
      intro digit
      have range := digit_range digit
      have low : 97 ≤ c.toNat := of_decide_eq_true (Bool.and_eq_true_iff.mp lower).1
      omega
    all_goals
      rintro rfl
      exact absurd lower (by decide)
  exact ⟨fun c head => (other head).1, fun head => (other head).2.1 rfl, fun head => (other head).2.2.1 rfl,
    fun head => (other head).2.2.2 rfl⟩

theorem stopsVersion_suffix (named : l.IsNamed) : Version.StopsVersion Char.isDigit l.suffix := by
  refine stopsVersion_of_isLower fun c head => ?_
  cases stage : l.stage with
  | bare => simp [suffix, stage] at head
  | patch n => simp [suffix, stage] at head
  | candidate kind n =>
    obtain ⟨nonempty, lower⟩ := named kind n stage
    have full : kind.toList ≠ [] := by simpa using nonempty
    rw [suffix, stage, List.head?_append_of_ne_nil _ full] at head
    exact lower c (List.mem_of_head? head)

theorem isDigit_of_isLower {c : Char} (lower : c.isLower = true) : c.isDigit = false :=
  have stops : Version.StopsVersion Char.isDigit [c] := stopsVersion_of_isLower (by simpa using lower)
  stops.digit c rfl

/-- A text is at most one version. -/
theorem render_inj (named : l.IsNamed) (named' : l'.IsNamed) (same : l.render = l'.render) : l = l' := by
  have parts := Version.parts?_spelt l.major l.minor l.patch? (fun _ digit => digit)
    (by decide) (by decide) (stopsVersion_suffix named)
  have parts' := Version.parts?_spelt l'.major l'.minor l'.patch? (fun _ digit => digit)
    (by decide) (by decide) (stopsVersion_suffix named')
  rw [← toList_render, same, toList_render, parts'] at parts
  simp only [Option.some.injEq, Prod.mk.injEq, Version.Parts.mk.injEq, and_true, toDigits_inj] at parts
  obtain ⟨⟨major, minor, patch⟩, behind⟩ := parts
  have stages : l.stage = l'.stage := by
    cases stage : l.stage with
    | bare =>
      cases stage' : l'.stage with
      | bare => rfl
      | candidate kind n => simp [suffix, stage, stage', (named' kind n stage').1] at behind
      | patch n => simp [patch?, stage, stage', Nat.toDigits_ne_nil] at patch
    | patch n =>
      cases stage' : l'.stage with
      | bare => simp [patch?, stage, stage', Nat.toDigits_ne_nil] at patch
      | candidate kind n => simp [patch?, stage, stage', Nat.toDigits_ne_nil] at patch
      | patch n' =>
        simp only [patch?, stage, stage', Option.elim_some, toDigits_inj] at patch
        rw [patch]
    | candidate kind n =>
      cases stage' : l'.stage with
      | bare => simp [suffix, stage, stage', (named kind n stage).1] at behind
      | patch n' => simp [patch?, stage, stage', Nat.toDigits_ne_nil] at patch
      | candidate kind' n' =>
        have letters {kind : String} (lower : ∀ c ∈ kind.toList, c.isLower = true) (n : Nat) :
            (kind.toList ++ Nat.toDigits 10 n).takeWhile Char.isLower = kind.toList := by
          refine takeWhile_run lower fun c head => ?_
          rw [Bool.eq_false_iff]
          intro letter
          have digit := (isNumeral_toDigits n).digits c (List.mem_of_head? head)
          rw [isDigit_of_isLower letter] at digit
          cases digit
        simp only [suffix, stage, stage'] at behind
        have kinds := congrArg (List.takeWhile Char.isLower) behind
        rw [letters (named kind n stage).2, letters (named' kind' n' stage').2, String.toList_inj] at kinds
        subst kinds
        rw [toDigits_inj.mp (List.append_cancel_left behind).symm]
  cases l
  cases l'
  simp_all

/-- Only a release is read as a version of the other kind. -/
theorem parse_render_iff (named : l.IsNamed) {v : Version} :
    Version.parse l.render = .ok v ↔ l.IsRelease ∧ l.Fits ∧ v = Version.release l.major l.minor (l.patch?.getD 0) := by
  rw [Version.parse_spelt_iff l.toList_render (stopsVersion_suffix named), isRelease_iff named]
  constructor
  · rintro ⟨release, rfl, major, minor, patch⟩
    exact ⟨release, ⟨major, minor, patch⟩, rfl⟩
  · rintro ⟨release, ⟨major, minor, patch⟩, rfl⟩
    exact ⟨release, rfl, major, minor, patch⟩

/-- With no candidate, only the first two numbers tell what comes before a version without a patch. -/
theorem before_bare_iff (release : l.IsRelease) :
    l.Before ⟨M, N, .bare⟩ ↔ (Version.release l.major l.minor (l.patch?.getD 0)).Before (Version.release M N 0) := by
  constructor
  · rintro (less | ⟨same, less⟩ | ⟨same, same', less⟩)
    · exact .major less
    · exact .minor same less
    · rw [same'] at less
      exact absurd less (Stage.not_before_bare release)
  · rintro (less | ⟨same, less⟩ | ⟨same, same', less⟩ | ⟨-, pre, -⟩ | ⟨-, pre, -⟩)
    · exact .major less
    · exact .minor same less
    · exact absurd less (Nat.not_lt_zero _)
    · exact absurd rfl pre
    · exact absurd rfl pre

end Language

/-! ### What a module file may give -/

theorem languageNumber_eq_some {allowZero : Bool} {cs rest : List Char}
    (read : languageNumber allowZero cs = some rest) : ∃ n, cs = Nat.toDigits 10 n ++ rest := by
  unfold languageNumber at read
  obtain ⟨⟨digits, rest'⟩, number, read⟩ := Option.bind_eq_some_iff.mp read
  rw [Option.ite_none_left_eq_some, Option.some_inj] at read
  obtain ⟨-, rfl⟩ := read
  unfold number? at number
  dsimp only at number
  rw [Option.ite_none_left_eq_some, Option.some_inj] at number
  obtain ⟨plain, same⟩ := number
  obtain ⟨rfl, rfl⟩ := Prod.mk.inj same
  simp only [Bool.or_eq_true, Bool.and_eq_true, decide_eq_true_eq, not_or, not_and, List.isEmpty_iff] at plain
  have digits : (cs.takeWhile Char.isDigit).all Char.isDigit = true := List.all_takeWhile
  have front : Version.hasLeadingZero (cs.takeWhile Char.isDigit) = false := by
    simpa [Version.hasLeadingZero] using fun long zero => absurd zero (plain.2 long)
  have numeral := Version.isNumeral_of_isIdentifier ⟨plain.1, front⟩ digits
  have cut : cs = cs.takeWhile Char.isDigit ++ cs.drop (cs.takeWhile Char.isDigit).length :=
    (List.prefix_iff_eq_append.mp (List.takeWhile_prefix _)).symm
  exact ⟨_, by rw [numeral.toDigits_eq]; exact cut⟩

/-- What stands behind the numbers begins with a letter. -/
theorem exists_spelt {text : String} (valid : isLanguageVersion text = true) :
    ∃ major minor patch? rest, text.toList = Version.spelt major minor patch? ++ rest ∧
      ∀ c, rest.head? = some c → c.isLower = true := by
  have letter {rest : List Char}
      (tail : (rest.isEmpty || (!(rest.takeWhile Char.isLower).isEmpty &&
        !(rest.drop (rest.takeWhile Char.isLower).length).isEmpty &&
        (rest.drop (rest.takeWhile Char.isLower).length).all Char.isDigit)) = true) :
      ∀ c, rest.head? = some c → c.isLower = true := by
    intro c head
    obtain ⟨more, rfl⟩ : ∃ more, rest = c :: more := by
      cases rest with
      | nil => cases head
      | cons c' more =>
        obtain rfl := Option.some.inj head
        exact ⟨more, rfl⟩
    by_contra other
    simp [other] at tail
  unfold isLanguageVersion at valid
  dsimp only at valid
  split at valid
  · next rest first =>
    obtain ⟨major, chars⟩ := languageNumber_eq_some first
    split at valid
    · next rest' second =>
      obtain ⟨minor, chars'⟩ := languageNumber_eq_some second
      split at valid
      · next rest'' third =>
        obtain ⟨patch, chars''⟩ := languageNumber_eq_some third
        refine ⟨major, minor, some patch, rest'', ?_, letter valid⟩
        simp [chars, chars', chars'', Version.spelt, Version.dotted, Nat.toDigits_ne_nil]
      · cases valid
    · next rest' _ second =>
      obtain ⟨minor, chars'⟩ := languageNumber_eq_some second
      refine ⟨major, minor, none, rest', ?_, letter valid⟩
      simp [chars, chars', Version.spelt, Version.dotted]
    · cases valid
  · cases valid

/-- A text that may be given as the language is one of its versions, or is not read as a version of the other
kind. -/
theorem exists_language {text : String} (valid : isLanguageVersion text = true) :
    (∃ l : Language, l.IsNamed ∧ l.render = text) ∨ ∀ v, Version.parse text ≠ .ok v := by
  obtain ⟨major, minor, patch?, rest, chars, letter⟩ := exists_spelt valid
  by_cases empty : rest = []
  · left
    refine ⟨⟨major, minor, patch?.elim .bare .patch⟩, ?_, String.toList_inj.mp ?_⟩
    · intro kind n stage
      cases patch? <;> cases stage
    · rw [Language.toList_render, chars, empty]
      cases patch? <;> rfl
  · right
    intro v read
    exact empty ((Version.parse_spelt_iff chars (Language.stopsVersion_of_isLower letter)).mp read).1

/-- The language of a file, if it is given, is one that may be. -/
def File.GivesLanguage (f : File) : Prop := ∀ text, f.language = some text → isLanguageVersion text = true

variable {f : File}

theorem addDirective_givesLanguage (gives : f.GivesLanguage) (verb : String) (args : List String) :
    (addDirective f verb args).1.GivesLanguage := by
  have words (word : Except Cause String) (f' : File) (added : word.map (fun _ => f) = .ok f') : f'.GivesLanguage := by
    cases word with
    | ok value => exact Except.ok.inj added ▸ gives
    | error c => cases added
  unfold addDirective
  extract_lets check
  have checked (r : Except Cause File) (same : ∀ f', r = .ok f' → f'.GivesLanguage) : (check r).1.GivesLanguage := by
    cases r with
    | ok f' => exact same f' rfl
    | error c => exact gives
  split
  · refine checked _ fun f' added => ?_
    split at added
    · cases added
    split at added
    · split at added
      · next valid =>
        obtain rfl := Except.ok.inj added
        rintro text ⟨⟩
        exact valid
      · cases added
    · cases added
  · refine checked _ fun f' added => ?_
    split at added
    · cases added
    split at added
    · split at added
      · obtain rfl := Except.ok.inj added
        exact gives
      · cases added
    · cases added
  · split
    · exact gives
    split
    · split <;> exact gives
    · exact gives
  · refine checked _ fun f' added => ?_
    split at added
    · split at added
      · cases added
      · obtain rfl := Except.ok.inj added
        exact gives
    · cases added
  · refine checked _ fun f' added => ?_
    obtain ⟨r, -, added⟩ := bind_eq_ok added
    obtain rfl := Except.ok.inj added
    exact gives
  · refine checked _ fun f' added => ?_
    obtain ⟨r, -, added⟩ := bind_eq_ok added
    obtain rfl := Except.ok.inj added
    exact gives
  · refine checked _ fun f' added => ?_
    obtain ⟨r, -, added⟩ := bind_eq_ok added
    obtain rfl := Except.ok.inj added
    exact gives
  · refine checked _ fun f' added => ?_
    obtain ⟨rest, -, added⟩ := bind_eq_ok added
    split at added
    · obtain rfl := Except.ok.inj added
      exact gives
    · cases added
  · refine checked _ fun f' added => ?_
    split at added
    · exact words _ f' added
    · cases added
  · refine checked _ fun f' added => ?_
    split at added
    · exact words _ f' added
    · cases added
  · exact gives

theorem addLine_givesLanguage {acc : File × List Fault} (gives : acc.1.GivesLanguage) (verb : String)
    (args : Line → List String) (l : Line) : (addLine verb args acc l).1.GivesLanguage :=
  addDirective_givesLanguage gives verb (args l)

theorem addLines_givesLanguage (verb : String) (args : Line → List String) (ls : List Line) {acc : File × List Fault}
    (gives : acc.1.GivesLanguage) : (ls.foldl (addLine verb args) acc).1.GivesLanguage := by
  induction ls generalizing acc with
  | nil => exact gives
  | cons l ls ih => exact ih (addLine_givesLanguage gives verb args l)

theorem addStatement_givesLanguage {acc : File × List Fault} (gives : acc.1.GivesLanguage) (s : Statement) :
    (addStatement acc s).1.GivesLanguage := by
  cases s with
  | line l => exact addLine_givesLanguage gives _ _ l
  | block head ls =>
    simp only [addStatement]
    split
    · split
      · exact addLines_givesLanguage _ _ ls gives
      · exact gives
    · exact gives

theorem addStatements_givesLanguage (ss : List Statement) {acc : File × List Fault} (gives : acc.1.GivesLanguage) :
    (ss.foldl addStatement acc).1.GivesLanguage := by
  induction ss generalizing acc with
  | nil => exact gives
  | cons s ss ih => exact ih (addStatement_givesLanguage gives s)

/-- A file that is read gives a language that may be given. -/
theorem givesLanguage_of_parse {data : Bytes} (read : File.parse data = .ok f) : f.GivesLanguage := by
  unfold File.parse at read
  split at read
  · cases read
  · next ss _ =>
    have gives : (ss.foldl addStatement ({}, [])).1.GivesLanguage := addStatements_givesLanguage ss nofun
    split at read
    · next f' told =>
      obtain rfl := Except.ok.inj read
      rwa [told] at gives
    · cases read

namespace Manifest

open Desugar.Module.Language

variable {m : Manifest} {l : Language} {M N : Nat} {text : String}

/-- The check lets a version pass that is a release of numbers that fit, if it is not before the minimum. -/
theorem checkLanguage_eq_ok_iff (given : m.file.language = some l.render) (named : l.IsNamed) :
    m.checkLanguage s!"{M}.{N}" = .ok () ↔
      l.IsRelease ∧ l.Fits ∧ M < 2 ^ 64 ∧ N < 2 ^ 64 ∧ ¬ l.Before ⟨M, N, .bare⟩ := by
  have word (s : String) : (toString s).toList = s.toList := rfl
  have minimum : (s!"{M}.{N}").toList = Version.spelt M N none := by
    simp [Version.spelt, Version.dotted, word]
  have floor (text : String) : (s!">= {text}").toList = ">= ".toList ++ text.toList := by simp [word]
  have chars := floor s!"{M}.{N}"
  rw [minimum] at chars
  unfold checkLanguage
  rw [given]
  dsimp only
  rw [Version.Constraint.parse_floor chars]
  by_cases less : M < 2 ^ 64 ∧ N < 2 ^ 64
  · rw [if_pos less]
    cases parsed : Version.parse l.render with
    | error f =>
      constructor
      · intro passes
        cases passes
      · rintro ⟨release, fits, -⟩
        rw [(parse_render_iff named).mpr ⟨release, fits, rfl⟩] at parsed
        cases parsed
    | ok v =>
      obtain ⟨release, fits, rfl⟩ := (parse_render_iff named).mp parsed
      rw [before_bare_iff release]
      have proper := Version.isProper_of_parse parsed
      have proper' : (Version.release M N 0).IsProper := fun pre => absurd rfl pre
      rw [← Version.cmp_eq_lt_iff proper proper']
      have holds := Version.Constraint.holds_floor_iff M N
        (v := Version.release l.major l.minor (l.patch?.getD 0)) rfl
      by_cases early : (Version.release l.major l.minor (l.patch?.getD 0)).cmp (Version.release M N 0) = .lt
      · have refuses : Version.Constraint.holds [[Version.Constraint.floor M N]]
            (.release l.major l.minor (l.patch?.getD 0)) = false := by
          rw [Bool.eq_false_iff]
          exact fun passes => holds.mp passes early
        simp [Except.mapError, bind, Except.bind, refuses, early, throw, throwThe, MonadExceptOf.throw]
      · refine iff_of_true ?_ ⟨release, fits, less.1, less.2, early⟩
        simp [Except.mapError, bind, Except.bind, pure, Except.pure, holds.mpr early]
  · rw [if_neg less]
    constructor
    · intro passes
      cases passes
    · rintro ⟨-, -, less', less'', -⟩
      exact absurd ⟨less', less''⟩ less

theorem exists_version_of_checkLanguage {minimum : String} (given : m.file.language = some text)
    (passes : m.checkLanguage minimum = .ok ()) : ∃ v, Version.parse text = .ok v := by
  unfold checkLanguage at passes
  rw [given] at passes
  obtain ⟨c, -, passes⟩ := bind_eq_ok passes
  obtain ⟨v, parsed, -⟩ := bind_eq_ok passes
  cases read : Version.parse text with
  | ok v => exact ⟨v, rfl⟩
  | error f =>
    rw [read] at parsed
    cases parsed

/-- The check tells the files whose language is not before the minimum, if and only if such a language is no
candidate and no number has more than 64 bits. -/
theorem checkLanguage_iff {data : Bytes} (read : File.parse data = .ok m.file) (given : m.file.language = some text) :
    (m.checkLanguage s!"{M}.{N}" = .ok () ↔ AtLeast text M N) ↔
      ∀ l : Language, l.IsNamed → l.render = text → ¬ l.Before ⟨M, N, .bare⟩ →
        l.IsRelease ∧ l.Fits ∧ M < 2 ^ 64 ∧ N < 2 ^ 64 := by
  have valid := givesLanguage_of_parse read text given
  constructor
  · rintro agrees l named rfl late
    obtain ⟨release, fits, less, less', -⟩ :=
      (checkLanguage_eq_ok_iff given named).mp (agrees.mpr ⟨l, named, rfl, late⟩)
    exact ⟨release, fits, less, less'⟩
  · intro plain
    constructor
    · intro passes
      rcases exists_language valid with ⟨l, named, rfl⟩ | fails
      · exact ⟨l, named, rfl, ((checkLanguage_eq_ok_iff given named).mp passes).2.2.2.2⟩
      · obtain ⟨v, parsed⟩ := exists_version_of_checkLanguage given passes
        exact absurd parsed (fails v)
    · rintro ⟨l, named, rfl, late⟩
      obtain ⟨release, fits, less, less'⟩ := plain l named rfl late
      exact (checkLanguage_eq_ok_iff given named).mpr ⟨release, fits, less, less', late⟩

/-- A patch of a version not before the minimum passes. -/
theorem checkLanguage_iff_patch :
    let text := "module example.com/app\n\ngo 1.23.4\n"
    let file : File := { path := some "example.com/app", language := some "1.23.4" }
    File.parse (Text.utf8 text) = .ok file ∧ AtLeast "1.23.4" 1 22 ∧
      (⟨"go.mod", file⟩ : Manifest).checkLanguage s!"{1}.{22}" = .ok () := by
  intro text file
  have read : File.parse (Text.utf8 text) = .ok file := eq_ok_of_toOption (by decide +kernel)
  have named : IsNamed ⟨1, 23, .patch 4⟩ := nofun
  have spelt : render ⟨1, 23, .patch 4⟩ = "1.23.4" := by decide +kernel
  have late : AtLeast "1.23.4" 1 22 := by
    refine ⟨_, named, spelt, ?_⟩
    rintro (less | ⟨-, less⟩ | ⟨-, same, -⟩)
    · exact absurd less (by decide)
    · exact absurd less (by decide)
    · exact absurd same (by decide)
  refine ⟨read, late, (checkLanguage_iff (m := ⟨"go.mod", file⟩) read rfl).mpr ?_ |>.mpr late⟩
  intro l named' same _
  obtain rfl := render_inj named' named (same.trans spelt.symm)
  exact ⟨nofun, ⟨by decide, by decide, by decide⟩, by decide, by decide⟩

/-- A candidate of a version not before the minimum fails. -/
theorem checkLanguage_candidate_fails :
    let text := "module example.com/app\n\ngo 1.23rc1\n"
    let file : File := { path := some "example.com/app", language := some "1.23rc1" }
    File.parse (Text.utf8 text) = .ok file ∧ AtLeast "1.23rc1" 1 22 ∧
      (⟨"go.mod", file⟩ : Manifest).checkLanguage s!"{1}.{22}" ≠ .ok () := by
  intro text file
  refine ⟨eq_ok_of_toOption (by decide +kernel), ⟨⟨1, 23, .candidate "rc" 1⟩, ?_, by decide +kernel, ?_⟩,
    by decide +kernel⟩
  · rintro kind n ⟨⟩
    exact ⟨by decide, by decide⟩
  · rintro (less | ⟨-, less⟩ | ⟨-, same, -⟩)
    · exact absurd less (by decide)
    · exact absurd less (by decide)
    · exact absurd same (by decide)

end Manifest

end Desugar.Module

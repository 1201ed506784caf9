import Desugar.Form.Registry
import Desugar.Proofs.Text.Decimal
import Desugar.Proofs.Text.Splitting

/-!
# Names that forms make up

A name that is made up is a base and a number behind two underscores. Base and number can be read off it,
whatever the base looks like, and the numbers of a base go up by one. So no name is made up twice, and which
name a base gives next depends on nothing but how often it has been asked for. The forms use three bases
only. What the source itself calls its variables is not looked at.
-/
namespace Desugar

namespace Context

/-- How many names have been made up from a base. -/
def countOf (c : Context) (base : String) : Nat := (c.counters.lookup base).getD 0

/-- A name has been made up. -/
def Made (c : Context) (name : String) : Prop :=
  ∃ base n, 0 < n ∧ n ≤ c.countOf base ∧ name = s!"{base}__{n}"

/-- The bases that forms make up names from. -/
def bases : List String := ["m", "yield", "it"]

variable {c c' c'' : Context} {base : String}

theorem fresh_fst (c : Context) (base : String) : (c.fresh base).1 = s!"{base}__{c.countOf base + 1}" := rfl

theorem lookup_filter_ne {α : Type} (l : List (String × α)) {base b : String} (other : b ≠ base) :
    (l.filter (·.1 ≠ base)).lookup b = l.lookup b := by
  induction l with
  | nil => rfl
  | cons e l ih =>
    obtain ⟨key, value⟩ := e
    by_cases same : key = base
    · subst same
      rw [List.filter_cons_of_neg (by simp), ih, List.lookup_cons, beq_false_of_ne other]
    · rw [List.filter_cons_of_pos (by simpa using same), List.lookup_cons, List.lookup_cons, ih]

theorem countOf_fresh (c : Context) (base b : String) :
    (c.fresh base).2.countOf b = if b = base then c.countOf base + 1 else c.countOf b := by
  unfold fresh countOf
  dsimp only
  by_cases same : b = base
  · subst same
    simp
  · rw [if_neg same, List.lookup_cons, beq_false_of_ne same, lookup_filter_ne _ same]

/-- Of the names that are made up afterwards, one is the fresh one and the others were before. -/
theorem made_fresh (c : Context) (base name : String) :
    (c.fresh base).2.Made name ↔ name = (c.fresh base).1 ∨ c.Made name := by
  rw [fresh_fst]
  constructor
  · rintro ⟨b, n, pos, le, rfl⟩
    rw [countOf_fresh] at le
    split at le
    · rename_i same
      subst same
      rcases Nat.lt_or_eq_of_le le with less | rfl
      · exact .inr ⟨b, n, pos, by omega, rfl⟩
      · exact .inl rfl
    · exact .inr ⟨b, n, pos, le, rfl⟩
  · rintro (rfl | ⟨b, n, pos, le, rfl⟩)
    · exact ⟨base, c.countOf base + 1, Nat.succ_pos _, by simp [countOf_fresh], rfl⟩
    · refine ⟨b, n, pos, ?_, rfl⟩
      rw [countOf_fresh]
      split
      · rename_i same
        subst same
        omega
      · exact le

theorem toList_name (base : String) (n : Nat) :
    (s!"{base}__{n}").toList = base.toList ++ '_' :: '_' :: Nat.toDigits 10 n := by
  simp [String.toList_append, toString, Nat.toList_repr]

/-- Base and number can be read off a name. -/
theorem name_injective {base other : String} {n k : Nat} (same : s!"{base}__{n}" = s!"{other}__{k}") :
    base = other ∧ n = k := by
  -- From its end, a name is a run of digits that an underscore stops.
  have mirrored := congrArg (fun name => name.toList.reverse) same
  simp only [toList_name, List.reverse_append, List.reverse_cons, List.append_assoc, List.nil_append,
    List.cons_append] at mirrored
  have digits (n : Nat) : ∀ c ∈ (Nat.toDigits 10 n).reverse, c.isDigit = true := fun c member =>
    Nat.isDigit_of_mem_toDigits (by decide) (by decide) (List.mem_reverse.mp member)
  have stops (base : String) : Stops Char.isDigit ('_' :: '_' :: base.toList.reverse) := stops_cons rfl
  have number := congrArg (List.takeWhile Char.isDigit) mirrored
  rw [takeWhile_run (digits n) (stops base), takeWhile_run (digits k) (stops other)] at number
  have front := congrArg (List.dropWhile Char.isDigit) mirrored
  rw [dropWhile_run (digits n) (stops base), dropWhile_run (digits k) (stops other)] at front
  have bases : base.toList.reverse = other.toList.reverse := (List.cons.inj (List.cons.inj front).2).2
  exact ⟨String.toList_injective (List.reverse_injective bases),
    toDigits_inj.mp (List.reverse_injective number)⟩

/-- A fresh name has not been made up before. -/
theorem fresh_new (c : Context) (base : String) : ¬ c.Made (c.fresh base).1 := by
  rintro ⟨b, n, pos, le, same⟩
  obtain ⟨rfl, rfl⟩ := name_injective same
  exact Nat.not_succ_le_self _ le

/-! ## Names of a run

A context is asked for names, and for other things in between.
-/

/-- What a context is asked for. -/
inductive Request where
  | name (base : String)
  | require (path : String)
  | conditional
  /-- Another invocation is transformed. -/
  | enter (span : Span)
  deriving DecidableEq

/-- The context that a request leaves. -/
def serve (c : Context) : Request → Context
  | .name base => (c.fresh base).2
  | .require path => (c.require path).2
  | .conditional => c.conditional.2
  | .enter span => { c with span }

/-- The name that a request gives, if any, with its base. -/
def answer (c : Context) : Request → List (String × String)
  | .name base => [(base, (c.fresh base).1)]
  | _ => []

/-- The names that a run of requests gives, in order, each with its base. -/
def given (c : Context) : List Request → List (String × String)
  | [] => []
  | r :: rs => c.answer r ++ (c.serve r).given rs

theorem countOf_serve (c : Context) (r : Request) (base : String) :
    (c.serve r).countOf base = c.countOf base + if r = .name base then 1 else 0 := by
  cases r with
  | name b =>
    rw [serve, countOf_fresh]
    by_cases same : base = b
    · subst same
      simp
    · simp [same, Ne.symm same]
  | require path => rfl
  | conditional => rfl
  | enter span => rfl

theorem made_serve (c : Context) (r : Request) (name : String) :
    (c.serve r).Made name ↔ name ∈ (c.answer r).map Prod.snd ∨ c.Made name := by
  cases r with
  | name base =>
    rw [serve, made_fresh]
    simp [answer]
  | require path => simp [answer, Made, countOf_serve]
  | conditional => simp [answer, Made, countOf_serve]
  | enter span => simp [answer, Made, countOf_serve]

theorem answer_new {r : Request} {name : String} (given : name ∈ (c.answer r).map Prod.snd) : ¬ c.Made name := by
  cases r with
  | name base =>
    obtain rfl := List.mem_singleton.mp given
    exact c.fresh_new base
  | require path => cases given
  | conditional => cases given
  | enter span => cases given

theorem nodup_answer (c : Context) (r : Request) : ((c.answer r).map Prod.snd).Nodup := by
  cases r <;> simp [answer]

/-- The names of a run are apart from each other and from those that were made up before it. -/
theorem given_new (c : Context) (rs : List Request) :
    ((c.given rs).map Prod.snd).Nodup ∧ ∀ name ∈ (c.given rs).map Prod.snd, ¬ c.Made name := by
  induction rs generalizing c with
  | nil => simp [given]
  | cons r rs ih =>
    obtain ⟨apart, later⟩ := ih (c.serve r)
    rw [given, List.map_append]
    constructor
    · refine List.nodup_append.mpr ⟨c.nodup_answer r, apart, fun name first again member => ?_⟩
      rintro rfl
      exact later name member ((c.made_serve r name).mpr (.inl first))
    · intro name member
      rcases List.mem_append.mp member with first | again
      · exact answer_new first
      · exact fun made => later name again ((c.made_serve r name).mpr (.inr made))

/-- The names that a run gives for a base go on from its number. -/
theorem given_base (c : Context) (rs : List Request) (base : String) :
    ((c.given rs).filter (·.1 = base)).map Prod.snd =
      (List.range (rs.count (.name base))).map fun k => s!"{base}__{c.countOf base + k + 1}" := by
  induction rs generalizing c with
  | nil => rfl
  | cons r rs ih =>
    rw [given, List.filter_append, List.map_append, ih, countOf_serve]
    by_cases asked : r = .name base
    · subst asked
      rw [List.count_cons_self, List.range_succ_eq_map, List.map_cons, List.map_map, if_pos rfl]
      simp [answer, fresh_fst, Function.comp_def, Nat.add_assoc, Nat.add_comm 1]
    · have empty : (c.answer r).filter (·.1 = base) = [] := by
        cases r with
        | name b => simpa [answer] using asked
        | require path => rfl
        | conditional => rfl
        | enter span => rfl
      rw [empty, List.count_cons_of_ne asked, if_neg asked]
      rfl

/-- The names of a run are pairwise different, whatever their bases are, and the names for a base are numbered
on, whatever else the context is asked for in between. -/
theorem names_distinct (c : Context) (rs : List Request) :
    ((c.given rs).map Prod.snd).Nodup ∧ ∀ base,
      ((c.given rs).filter (·.1 = base)).map Prod.snd =
        (List.range (rs.count (.name base))).map fun k => s!"{base}__{c.countOf base + k + 1}" :=
  ⟨(c.given_new rs).1, c.given_base rs⟩

example : ((start "m.sgo" .standard).given
    [.name "m", .name "m__1", .conditional, .name "m", .name "m__1_", .name "m__1"]).map Prod.snd =
    ["m__1", "m__1__1", "m__2", "m__1___1", "m__1__2"] := by decide +kernel

/-! ## Names of the forms -/

/-- What making up names does to a context: the counts of the bases in use go up. -/
structure Advances (c c' : Context) : Prop where
  more (base : String) : c.countOf base ≤ c'.countOf base
  kept (base : String) : base ∉ bases → c'.countOf base = c.countOf base

theorem Advances.of_counters (same : c'.counters = c.counters) : c.Advances c' := by
  constructor <;> simp [countOf, same]

theorem Advances.refl (c : Context) : c.Advances c := .of_counters rfl

theorem Advances.trans (first : c.Advances c') (second : c'.Advances c'') : c.Advances c'' where
  more base := Nat.le_trans (first.more base) (second.more base)
  kept base other := (second.kept base other).trans (first.kept base other)

theorem Advances.fresh (used : base ∈ bases) (before : c.Advances c') : c.Advances (c'.fresh base).2 := by
  refine before.trans ⟨fun b => ?_, fun b other => ?_⟩
  · rw [countOf_fresh]
    split
    · rename_i same
      subst same
      omega
    · exact Nat.le_refl _
  · rw [countOf_fresh, if_neg (by rintro rfl; exact other used)]

theorem Advances.base_of_start {file : String} {imports : Imports} (run : (start file imports).Advances c)
    {n : Nat} (pos : 0 < n) (le : n ≤ c.countOf base) : base ∈ bases := by
  by_contra other
  have unmoved := run.kept base other
  have empty : (start file imports).countOf base = 0 := rfl
  omega

end Context

namespace Form

open Context

theorem MapLiteral.emit_advances (m : MapLiteral) (ctx : Context) : ctx.Advances (m.emit ctx).2 := by
  obtain ⟨type, entries⟩ := m
  cases type with
  | none => cases entries <;> exact .of_counters rfl
  | some t =>
    cases entries with
    | nil => exact .refl ctx
    | cons => exact (Advances.refl ctx).fresh (by decide)

theorem Spread.emit_advances (s : Spread) (ctx : Context) : ctx.Advances (s.emit ctx).2 := by
  obtain ⟨iterable, fields⟩ := s
  have sugar : ctx.Advances ctx.sugar.2 := .of_counters rfl
  cases fields with
  | nil => exact sugar
  | cons => exact (sugar.fresh (by decide)).fresh (by decide)

theorem Interpolation.emit_advances (s : Interpolation) (ctx : Context) : ctx.Advances (s.emit ctx).2 := by
  obtain ⟨literal, template, exprs⟩ := s
  cases exprs <;> exact .of_counters rfl

/-- A form succeeds with what it emits for what it has parsed. -/
theorem transform_of {α : Type} {name : String} {parse : Span → List Token → Except Failure α}
    {emit : α → Context → List Token × Context} {ctx ctx' : Context} {ts out : List Token}
    (h : (Form.of name parse emit).transform ctx ts = .ok (out, ctx')) :
    ∃ a, parse ctx.stop ts = .ok a ∧ (emit a ctx).1 = out ∧ (emit a ctx).2 = ctx' := by
  change (parse ctx.stop ts).map (fun a => emit a ctx) = .ok (out, ctx') at h
  cases parsed : parse ctx.stop ts with
  | error d => rw [parsed] at h; cases h
  | ok a =>
    rw [parsed] at h
    exact ⟨a, rfl, Prod.ext_iff.mp (Except.ok.inj h)⟩

/-- A form makes up names from the bases in use, if any. -/
theorem transform_advances {f : Form} (known : f ∈ builtins) {ctx ctx' : Context} {ts out : List Token}
    (done : f.transform ctx ts = .ok (out, ctx')) : ctx.Advances ctx' := by
  simp only [builtins, List.mem_cons, List.not_mem_nil, or_false] at known
  rcases known with rfl | rfl | rfl | rfl | rfl | rfl | rfl | rfl | rfl <;>
    obtain ⟨e, -, -, rfl⟩ := transform_of done
  · exact .of_counters rfl
  · exact .of_counters rfl
  · exact .of_counters rfl
  · exact .of_counters rfl
  · exact e.emit_advances ctx
  · exact e.emit_advances ctx
  · exact e.emit_advances ctx
  · exact e.emit_advances ctx
  · exact .of_counters rfl

end Form
end Desugar

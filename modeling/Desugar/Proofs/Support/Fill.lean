import Desugar.Proofs.Support.Selector
import Mathlib.Data.List.Lex
import Mathlib.Data.Set.Finite.List
import Mathlib.Order.Preorder.Finite

/-!
# Selecting on a filled value

Filling goes down through embedded fields, depth first, and enters no type a second time. Selectors mean
the shallowest field. So where a type is embedded along two chains, the chain on which it is filled need
not be the one that a selector goes along.
-/
namespace Desugar.Support

namespace Declarations

variable {ds : Declarations} {type record inner : FieldType} {fields : List Field} {values : List Datum}
  {seen : List FieldType} {chain : List Nat} {fuel n : Nat}
  {one other : List FieldType → FieldType → Datum → Datum × List FieldType}

/-! ## The walk ends

No type is entered twice. So the walk does not depend on how deep it may go, if it may go as deep as there
are types.
-/

theorem fillFields_subset (grows : ∀ seen type v, seen ⊆ (one seen type v).2) (seen : List FieldType)
    (fields : List Field) (values : List Datum) : seen ⊆ (fillFields ds one seen fields values).2 := by
  induction fields generalizing seen values with
  | nil => simp [fillFields]
  | cons f fields ih =>
    cases values with
    | nil => simp [fillFields]
    | cons v values =>
      cases embedded : f.embedded with
      | false => simpa [fillFields, embedded] using ih seen values
      | true =>
        simp only [fillFields, embedded, if_true]
        exact List.Subset.trans (grows _ _ _) (ih _ _)

theorem fillFields_congr (grows : ∀ seen type v, seen ⊆ (one seen type v).2)
    (same : ∀ later, seen ⊆ later → ∀ type v, one later type v = other later type v)
    (fields : List Field) (values : List Datum) :
    fillFields ds one seen fields values = fillFields ds other seen fields values := by
  induction fields generalizing seen values with
  | nil => simp [fillFields]
  | cons f fields ih =>
    cases values with
    | nil => simp [fillFields]
    | cons v values =>
      cases embedded : f.embedded with
      | false => simp [fillFields, embedded, ih same]
      | true =>
        have rest (w : Datum) :=
          ih (fun later more => same later (List.Subset.trans (grows seen f.type w) more)) values
        simp only [fillFields, embedded, if_true, ← same seen (List.Subset.refl _), rest]

theorem fillRecord_enter (found : ds.fields? record = some fields) (new : record ∉ seen) :
    fillRecord ds one seen record (.record values) =
      let (values, seen) := fillFields ds one (record :: seen) fields values
      (.record values, seen) := by
  simp [fillRecord, found, new]

/-- What is no record, or was seen, is left alone. -/
theorem fillRecord_pass (closed : ∀ fields, ds.fields? record = some fields → record ∈ seen) (v : Datum) :
    fillRecord ds one seen record v = (v, seen) := by
  unfold fillRecord
  split
  · rename_i fields values found
    simp [closed fields found]
  · rfl

theorem fillRecord_subset (grows : ∀ seen type v, seen ⊆ (one seen type v).2) (seen : List FieldType)
    (record : FieldType) (v : Datum) : seen ⊆ (fillRecord ds one seen record v).2 := by
  unfold fillRecord
  split
  · split
    · exact List.Subset.refl _
    · exact List.Subset.trans (List.subset_cons_self _ _) (fillFields_subset grows _ _ _)
  · exact List.Subset.refl _

theorem fillEmbedded_pointer (fuel : Nat) (seen : List FieldType) (target : FieldType) (v : Datum) :
    fillEmbedded ds (fuel + 1) seen (.pointer target) (.pointer v) =
      let (v, seen) := fillRecord ds (fillEmbedded ds fuel) seen target v
      (.pointer v, seen) := rfl

theorem fillEmbedded_direct {v : Datum} (direct : ¬ (type.IsPointer ∧ ∃ w, v = .pointer w)) (fuel : Nat)
    (seen : List FieldType) :
    fillEmbedded ds (fuel + 1) seen type v = fillRecord ds (fillEmbedded ds fuel) seen type v := by
  refine fillEmbedded.eq_3 ds seen type v fuel fun target w pointer led => ?_
  exact direct ⟨⟨target, pointer⟩, w, led⟩

theorem fillEmbedded_subset (fuel : Nat) (seen : List FieldType) (type : FieldType) (v : Datum) :
    seen ⊆ (fillEmbedded ds fuel seen type v).2 := by
  induction fuel generalizing seen type v with
  | zero => exact List.Subset.refl _
  | succ fuel ih =>
    by_cases led : type.IsPointer ∧ ∃ w, v = .pointer w
    · obtain ⟨⟨target, rfl⟩, w, rfl⟩ := led
      exact fillRecord_subset ih seen target w
    · rw [fillEmbedded_direct led]
      exact fillRecord_subset ih seen type v

/-- How many declared types were not seen. -/
def unseen (ds : Declarations) (seen : List FieldType) : Nat :=
  ds.countP fun entry => FieldType.named entry.1 ∉ seen

theorem unseen_le (ds : Declarations) (seen : List FieldType) : ds.unseen seen ≤ ds.length :=
  List.countP_le_length

theorem unseen_lt {later : List FieldType} (found : ds.fields? record = some fields) (new : record ∉ seen)
    (more : record :: seen ⊆ later) : ds.unseen later < ds.unseen seen := by
  obtain ⟨name, rfl, declared⟩ := fields?_eq_some.mp found
  have marked := more (List.mem_cons_self ..)
  refine countP_lt (mem_of_lookup declared) ?_ (by simpa using new) (by simpa using marked)
  intro entry _ absent
  simp only [decide_eq_true_eq] at absent ⊢
  exact fun present => absent (more (List.mem_cons_of_mem _ present))

theorem fillEmbedded_more {more : Nat} (enough : ds.unseen seen < fuel) (deeper : fuel ≤ more)
    (type : FieldType) (v : Datum) : fillEmbedded ds more seen type v = fillEmbedded ds fuel seen type v := by
  induction fuel generalizing more seen type v with
  | zero => omega
  | succ fuel ih =>
    obtain ⟨more, rfl⟩ := Nat.exists_eq_add_one.mpr (Nat.lt_of_lt_of_le (Nat.succ_pos fuel) deeper)
    have step (record : FieldType) (v : Datum) : fillRecord ds (fillEmbedded ds more) seen record v =
        fillRecord ds (fillEmbedded ds fuel) seen record v := by
      unfold fillRecord
      split
      · rename_i fields values found
        split
        · rfl
        · rename_i new
          rw [fillFields_congr (fillEmbedded_subset more)]
          intro later larger type v
          have fewer := unseen_lt found (by simpa using new) larger
          exact ih (by omega) (by omega) type v
      · rfl
    by_cases led : type.IsPointer ∧ ∃ w, v = .pointer w
    · obtain ⟨⟨target, rfl⟩, w, rfl⟩ := led
      rw [fillEmbedded_pointer, fillEmbedded_pointer, step]
    · rw [fillEmbedded_direct led, fillEmbedded_direct led, step]

/-- What leads to no record, or to one whose type was seen, is left alone. -/
theorem fillEmbedded_pass (closed : ∀ fields, ds.fields? type.target = some fields → type.target ∈ seen)
    (fuel : Nat) (v : Datum) : fillEmbedded ds fuel seen type v = (v, seen) := by
  cases fuel with
  | zero => rfl
  | succ fuel =>
    by_cases led : type.IsPointer ∧ ∃ w, v = .pointer w
    · obtain ⟨⟨target, rfl⟩, w, rfl⟩ := led
      rw [FieldType.target_pointer] at closed
      rw [fillEmbedded_pointer, fillRecord_pass closed]
    · rw [fillEmbedded_direct led, fillRecord_pass]
      intro fields found
      have plain : ¬ type.IsPointer := by
        rintro ⟨target, rfl⟩
        simp [fields?] at found
      rw [FieldType.target_eq plain] at closed
      exact closed fields found

/-! ## What is filled

The walk goes over zero values, whose embedded pointers it has just given something to lead to.
-/

/-- The value of an embedded field when the walk comes to it. -/
def fresh (ds : Declarations) (type : FieldType) : Datum := ds.allocate type (ds.zero type)

theorem fresh_pointer (ranked : ds.Ranked) (found : ds.fields? record = some fields) :
    ds.fresh (.pointer record) = .pointer (.record (fields.map (ds.zero ·.type))) := by
  rw [fresh, zero_pointer ⟨record, rfl⟩, allocate, if_pos (isFillable_iff.mpr ⟨fields, found⟩),
    zero_record ranked found]

theorem fresh_record (ranked : ds.Ranked) (found : ds.fields? record = some fields) :
    ds.fresh record = .record (fields.map (ds.zero ·.type)) := by
  obtain ⟨name, rfl, -⟩ := fields?_eq_some.mp found
  rw [fresh, zero_record ranked found, allocate]
  simp

theorem fields?_fresh (ranked : ds.Ranked) (found : ds.fields? type.target = some fields) :
    (ds.fresh type).fields? = some (fields.map (ds.zero ·.type)) := by
  by_cases pointer : type.IsPointer
  · obtain ⟨record, rfl⟩ := pointer
    rw [FieldType.target_pointer] at found
    rw [fresh_pointer ranked found]
    rfl
  · rw [FieldType.target_eq pointer] at found
    rw [fresh_record ranked found]
    rfl

/-- The types that were seen when the walk has gone through some fields. -/
def seenBehind (ds : Declarations) (fuel : Nat) (seen : List FieldType) (fields : List Field) :
    List FieldType :=
  fields.foldl (fun seen f =>
    if f.embedded then (fillEmbedded ds fuel seen f.type (ds.fresh f.type)).2 else seen) seen

theorem fillFields_seen (fuel : Nat) (seen : List FieldType) (fields : List Field) :
    (fillFields ds (fillEmbedded ds fuel) seen fields (fields.map (ds.zero ·.type))).2 =
      ds.seenBehind fuel seen fields := by
  induction fields generalizing seen with
  | nil => rfl
  | cons f fields ih =>
    cases embedded : f.embedded <;> simp [fillFields, seenBehind, embedded, ih, fresh]

theorem fillFields_length (fillOne : List FieldType → FieldType → Datum → Datum × List FieldType)
    (seen : List FieldType) (fields : List Field) (values : List Datum) :
    (fillFields ds fillOne seen fields values).1.length = values.length := by
  induction fields generalizing seen values with
  | nil => simp [fillFields]
  | cons f fields ih => cases values <;> simp [fillFields, ih]

/-- An embedded field is filled with the types seen that were seen in the fields before it. -/
theorem fillFields_getElem? {f : Field} (there : fields[n]? = some f) (embedded : f.embedded = true)
    (fuel : Nat) (seen : List FieldType) :
    (fillFields ds (fillEmbedded ds fuel) seen fields (fields.map (ds.zero ·.type))).1[n]? =
      some (fillEmbedded ds fuel (ds.seenBehind fuel seen (fields.take n)) f.type (ds.fresh f.type)).1 := by
  induction fields generalizing seen n with
  | nil => simp at there
  | cons g fields ih =>
    cases n with
    | zero =>
      obtain rfl := Option.some.inj there
      simp [fillFields, seenBehind, embedded, fresh]
    | succ n =>
      rw [List.getElem?_cons_succ] at there
      cases first : g.embedded <;> simp [fillFields, seenBehind, first, fresh, ih there]

/-- The chains of embedded fields that lead to the records that filling enters. -/
def Enters (ds : Declarations) : Nat → List FieldType → FieldType → List Nat → Prop
  | 0, _, _, _ => False
  | _ + 1, seen, type, [] => ds.isFillable type.target ∧ type.target ∉ seen
  | fuel + 1, seen, type, n :: chain => type.target ∉ seen ∧ ∃ fields inner,
    ds.fields? type.target = some fields ∧ ds.embedded? type.target n = some inner ∧
      ds.Enters fuel (ds.seenBehind fuel (type.target :: seen) (fields.take n)) inner chain

theorem enters_nil (found : ds.fields? type.target = some fields) :
    ds.Enters (fuel + 1) seen type [] ↔ type.target ∉ seen := by
  simp [Enters, isFillable, found]

theorem enters_cons (found : ds.fields? type.target = some fields)
    (embedded : ds.embedded? type.target n = some inner) :
    ds.Enters (fuel + 1) seen type (n :: chain) ↔ type.target ∉ seen ∧
      ds.Enters fuel (ds.seenBehind fuel (type.target :: seen) (fields.take n)) inner chain := by
  simp [Enters, found, embedded]

/-- Nothing is entered behind what is left alone. -/
theorem Enters.start (enters : ds.Enters fuel seen type chain) : ds.Enters fuel seen type [] := by
  cases fuel with
  | zero => exact enters.elim
  | succ fuel =>
    cases chain with
    | nil => exact enters
    | cons n chain =>
      obtain ⟨new, fields, inner, found, -⟩ := enters
      exact (enters_nil found).mpr new

theorem fillEmbedded_of_not_enters (closed : ¬ ds.Enters fuel seen type []) (v : Datum) :
    fillEmbedded ds fuel seen type v = (v, seen) := by
  cases fuel with
  | zero => rfl
  | succ fuel =>
    refine fillEmbedded_pass (fun fields found => ?_) (fuel + 1) v
    rwa [enters_nil found, not_not] at closed

theorem fillEmbedded_fresh (ranked : ds.Ranked) (found : ds.fields? type.target = some fields)
    (new : type.target ∉ seen) (fuel : Nat) :
    ∃ w, fillEmbedded ds (fuel + 1) seen type (ds.fresh type) =
        (w, ds.seenBehind fuel (type.target :: seen) fields) ∧
      w.fields? = some (fillFields ds (fillEmbedded ds fuel) (type.target :: seen) fields
        (fields.map (ds.zero ·.type))).1 := by
  by_cases pointer : type.IsPointer
  · obtain ⟨record, rfl⟩ := pointer
    rw [FieldType.target_pointer] at found new ⊢
    rw [fresh_pointer ranked found, fillEmbedded_pointer, fillRecord_enter found new, ← fillFields_seen]
    exact ⟨_, rfl, rfl⟩
  · rw [FieldType.target_eq pointer] at found new ⊢
    rw [fresh_record ranked found, fillEmbedded_direct (fun led => pointer led.1), fillRecord_enter found new,
      ← fillFields_seen]
    exact ⟨_, rfl, rfl⟩

theorem select_of_not_enters (ranked : ds.Ranked) {f : Field} (present : ds.field? type chain n = some f)
    (closed : ¬ ds.Enters fuel seen type []) :
    ((fillEmbedded ds fuel seen type (ds.fresh type)).1.select (chain ++ [n])).isSome = true ↔
      ds.PointersIn (ds.Enters fuel seen type) type chain := by
  obtain ⟨fields, found⟩ := fields?_of_field? present
  have nowhere : ds.Enters fuel seen type = fun _ => False :=
    funext fun front => eq_false fun enters => closed enters.start
  rw [fillEmbedded_of_not_enters closed, nowhere]
  exact select_zero ranked found (fields?_fresh ranked found) present

/-- On a filled value, a field is selected if every pointer on the way stands in a record that was entered. -/
theorem select_fillEmbedded (ranked : ds.Ranked) {f : Field} (present : ds.field? type chain n = some f)
    (fuel : Nat) (seen : List FieldType) :
    ((fillEmbedded ds fuel seen type (ds.fresh type)).1.select (chain ++ [n])).isSome = true ↔
      ds.PointersIn (ds.Enters fuel seen type) type chain := by
  -- The selector and the walk go on by one field together. Where the walk stops, what is left of the way
  -- goes over zero values.
  induction chain generalizing type fuel seen with
  | nil =>
    by_cases start : ds.Enters fuel seen type []
    · cases fuel with
      | zero => exact start.elim
      | succ fuel =>
        obtain ⟨fields, found⟩ := fields?_of_field? present
        obtain ⟨w, filled, within⟩ := fillEmbedded_fresh ranked found ((enters_nil found).mp start) fuel
        have bound : n < (fields.map (ds.zero ·.type)).length := by
          rw [List.length_map]
          exact (List.getElem?_eq_some_iff.mp (field?_nil found ▸ present)).1
        rw [← fillFields_length (fillEmbedded ds fuel) (type.target :: seen) fields] at bound
        rw [filled, List.nil_append, Datum.select_cons within (List.getElem?_eq_getElem bound)]
        simp [Datum.select, pointersIn_nil]
    · exact select_of_not_enters ranked present start
  | cons m chain ih =>
    by_cases start : ds.Enters fuel seen type []
    · cases fuel with
      | zero => exact start.elim
      | succ fuel =>
        obtain ⟨fields, found⟩ := fields?_of_field? present
        obtain ⟨w, filled, within⟩ := fillEmbedded_fresh ranked found ((enters_nil found).mp start) fuel
        obtain ⟨inner, embedded, present⟩ := field?_cons present
        obtain ⟨g, there, marked, rfl⟩ := (embedded?_eq_some found).mp embedded
        have entered (front : List Nat) : ds.Enters (fuel + 1) seen type (m :: front) ↔
            ds.Enters fuel (ds.seenBehind fuel (type.target :: seen) (fields.take m)) g.type front := by
          rw [enters_cons found embedded, and_iff_right ((enters_nil found).mp start)]
        rw [filled, List.cons_append, Datum.select_cons within (fillFields_getElem? there marked fuel _),
          ih present, pointersIn_cons embedded]
        simp only [entered, start, implies_true, true_and]
    · exact select_of_not_enters ranked present start

/-! ## Which records are entered -/

theorem seenBehind_take_succ (found : ds.fields? record = some fields) (seen : List FieldType) (n : Nat) :
    ds.seenBehind fuel seen (fields.take (n + 1)) = match ds.embedded? record n with
      | some inner =>
        (fillEmbedded ds fuel (ds.seenBehind fuel seen (fields.take n)) inner (ds.fresh inner)).2
      | none => ds.seenBehind fuel seen (fields.take n) := by
  rw [List.take_add_one, embedded?, found, Option.bind_some, seenBehind, List.foldl_append]
  cases there : fields[n]? with
  | none => rfl
  | some f => cases embedded : f.embedded <;> simp [embedded, seenBehind]

/-- What was seen when filling is through with a type: what was seen before, and what it has entered. -/
def Collects (ds : Declarations) (fuel : Nat) : Prop :=
  ∀ seen type t, t ∈ (fillEmbedded ds fuel seen type (ds.fresh type)).2 ↔
    t ∈ seen ∨ ∃ chain, ds.Enters fuel seen type chain ∧ ds.reach type chain = some t

/-- Filling the fields before the `n`-th one enters a record of this type. -/
def EntersBefore (ds : Declarations) (fuel : Nat) (seen : List FieldType) (record : FieldType)
    (fields : List Field) (n : Nat) (t : FieldType) : Prop :=
  ∃ m < n, ∃ inner chain, ds.embedded? record m = some inner ∧
    ds.Enters fuel (ds.seenBehind fuel seen (fields.take m)) inner chain ∧ ds.reach inner chain = some t

theorem Collects.mem_seenBehind (collects : ds.Collects fuel) (found : ds.fields? record = some fields)
    (seen : List FieldType) (n : Nat) (t : FieldType) :
    t ∈ ds.seenBehind fuel seen (fields.take n) ↔ t ∈ seen ∨ ds.EntersBefore fuel seen record fields n t := by
  induction n with
  | zero => simp [seenBehind, EntersBefore]
  | succ n ih =>
    rw [seenBehind_take_succ found]
    have split : ds.EntersBefore fuel seen record fields (n + 1) t ↔
        ds.EntersBefore fuel seen record fields n t ∨ ∃ inner chain, ds.embedded? record n = some inner ∧
          ds.Enters fuel (ds.seenBehind fuel seen (fields.take n)) inner chain ∧
            ds.reach inner chain = some t := by
      simp only [EntersBefore, Nat.lt_succ_iff_lt_or_eq, or_and_right, exists_or, exists_eq_left]
    rw [split]
    cases embedded : ds.embedded? record n with
    | none => simp [ih]
    | some inner =>
      rw [collects, ih, or_assoc]
      simp

theorem collects_all (ranked : ds.Ranked) (fuel : Nat) : ds.Collects fuel := by
  induction fuel with
  | zero => simp [Collects, fillEmbedded, Enters]
  | succ fuel ih =>
    intro seen type t
    by_cases start : ds.Enters (fuel + 1) seen type []
    · obtain ⟨fields, found⟩ := isFillable_iff.mp start.1
      obtain ⟨w, filled, -⟩ := fillEmbedded_fresh ranked found start.2 fuel
      have all := ih.mem_seenBehind found (type.target :: seen) fields.length t
      rw [List.take_length] at all
      rw [filled, all, List.mem_cons]
      constructor
      · rintro ((rfl | before) | ⟨m, -, inner, chain, embedded, enters, reached⟩)
        · exact .inr ⟨[], start, reach_nil found⟩
        · exact .inl before
        · refine .inr ⟨m :: chain, (enters_cons found embedded).mpr ⟨start.2, enters⟩, ?_⟩
          rwa [reach_cons embedded]
      · rintro (before | ⟨chain, enters, reached⟩)
        · exact .inl (.inr before)
        · cases chain with
          | nil => exact .inl (.inl (reach_nil_eq_some.mp reached).1.symm)
          | cons m chain =>
            obtain ⟨inner, embedded, reached⟩ := reach_cons_eq_some.mp reached
            obtain ⟨f, there, -⟩ := (embedded?_eq_some found).mp embedded
            have inside := (List.getElem?_eq_some_iff.mp there).1
            have enters := ((enters_cons found embedded).mp enters).2
            exact .inr ⟨m, inside, inner, chain, embedded, enters, reached⟩
    · rw [fillEmbedded_of_not_enters start]
      exact ⟨.inl, fun either => either.resolve_right fun ⟨chain, enters, _⟩ => start enters.start⟩

/-- What lies before a chain in the order of the walk lies in the same field, or in one before it, or is the
record itself. -/
theorem ne_before_cons_iff (ranked : ds.Ranked) (found : ds.fields? type.target = some fields)
    (new : type.target ∉ seen) (embedded : ds.embedded? type.target n = some inner) :
    (record ∉ seen ∧ ∀ earlier < n :: chain, ds.Enters (fuel + 1) seen type earlier →
      ds.reach type earlier ≠ some record) ↔
    record ∉ ds.seenBehind fuel (type.target :: seen) (fields.take n) ∧ ∀ earlier < chain,
      ds.Enters fuel (ds.seenBehind fuel (type.target :: seen) (fields.take n)) inner earlier →
        ds.reach inner earlier ≠ some record := by
  rw [(collects_all ranked fuel).mem_seenBehind found, List.mem_cons, not_or, not_or]
  constructor
  · rintro ⟨unseen, unreached⟩
    refine ⟨⟨⟨?_, unseen⟩, ?_⟩, fun earlier lower enters => ?_⟩
    · rintro rfl
      exact unreached [] (List.nil_lt_cons ..) ((enters_nil found).mpr new) (reach_nil found)
    · rintro ⟨m, lower, other, front, there, enters, reached⟩
      have absent := unreached (m :: front) (List.cons_lt_cons_iff.mpr (.inl lower))
        ((enters_cons found there).mpr ⟨new, enters⟩)
      exact absent (by rwa [reach_cons there])
    · have absent := unreached (n :: earlier) (List.cons_lt_cons_iff.mpr (.inr ⟨rfl, lower⟩))
        ((enters_cons found embedded).mpr ⟨new, enters⟩)
      rwa [reach_cons embedded] at absent
  · rintro ⟨⟨⟨other, unseen⟩, before⟩, unreached⟩
    refine ⟨unseen, fun earlier lower enters reached => ?_⟩
    cases earlier with
    | nil => exact other (reach_nil_eq_some.mp reached).1.symm
    | cons m front =>
      obtain ⟨held, there, reached⟩ := reach_cons_eq_some.mp reached
      have inside := ((enters_cons found there).mp enters).2
      rcases List.cons_lt_cons_iff.mp lower with less | ⟨rfl, less⟩
      · exact before ⟨m, less, held, front, there, inside, reached⟩
      · obtain rfl := Option.some.inj (embedded.symm.trans there)
        exact unreached front less inside reached

/-- Filling enters each record on the first way to its type that goes through entered records, first in the
order in which the walk goes. -/
theorem enters_iff (ranked : ds.Ranked) (enough : ds.unseen seen < fuel) :
    ds.Enters fuel seen type chain ↔ ∃ record, ds.reach type chain = some record ∧
      (chain = [] ∨ ds.Enters fuel seen type chain.dropLast) ∧ record ∉ seen ∧
      ∀ earlier < chain, ds.Enters fuel seen type earlier → ds.reach type earlier ≠ some record := by
  -- Fewer types are unseen in each field than there were before the record, so there is fuel left for it.
  induction fuel generalizing seen type chain with
  | zero => omega
  | succ fuel ih =>
    cases chain with
    | nil => simp [Enters, reach_nil_eq_some, and_comm]
    | cons n chain =>
      by_cases start : ds.Enters (fuel + 1) seen type []
      · obtain ⟨fields, found⟩ := isFillable_iff.mp start.1
        cases embedded : ds.embedded? type.target n with
        | none => simp [Enters, reach, embedded]
        | some inner =>
          have seen_at := (collects_all ranked fuel).mem_seenBehind found (type.target :: seen) n
          have fewer := unseen_lt found start.2 fun t member => (seen_at t).mpr (.inl member)
          have enters_at (front : List Nat) : ds.Enters (fuel + 1) seen type (n :: front) ↔
              ds.Enters fuel (ds.seenBehind fuel (type.target :: seen) (fields.take n)) inner front := by
            rw [enters_cons found embedded, and_iff_right start.2]
          have parent : (n :: chain = [] ∨ ds.Enters (fuel + 1) seen type (n :: chain).dropLast) ↔
              chain = [] ∨ ds.Enters fuel (ds.seenBehind fuel (type.target :: seen) (fields.take n)) inner
                chain.dropLast := by
            cases chain with
            | nil => simp [start]
            | cons k chain => simp [List.dropLast_cons_cons, enters_at]
          rw [enters_at, ih (by omega)]
          refine exists_congr fun record => ?_
          rw [reach_cons embedded, parent, ne_before_cons_iff ranked found start.2 embedded]
      · have closed (front : List Nat) : ¬ ds.Enters (fuel + 1) seen type front :=
          fun enters => start enters.start
        simp [closed]

/-! ## Depth-first walks -/

/-- The chains to the records that a walk enters which goes down field by field and enters no type twice:
those that go on from an entered record to one whose type no entered record before it has. -/
def DepthFirst (ds : Declarations) (type : FieldType) (entered : List Nat → Prop) : Prop :=
  ∀ chain, entered chain ↔ ∃ record, ds.reach type chain = some record ∧
    (chain = [] ∨ entered chain.dropLast) ∧
    ∀ earlier < chain, entered earlier → ds.reach type earlier ≠ some record

/-! ## Filled zero values -/

theorem fill_zero (ranked : ds.Ranked) (found : ds.fields? type.target = some fields) :
    fill ds type (ds.zero type) = (fillEmbedded ds (ds.length + 2) [] type (ds.fresh type)).1 := by
  by_cases pointer : type.IsPointer
  · obtain ⟨record, rfl⟩ := pointer
    rw [FieldType.target_pointer] at found
    rw [fresh_pointer ranked found, ← zero_record ranked found]
    rfl
  · rw [FieldType.target_eq pointer] at found
    obtain ⟨name, rfl, -⟩ := fields?_eq_some.mp found
    rw [fresh_record ranked found, ← zero_record ranked found]
    rfl

theorem depthFirst_enters (ranked : ds.Ranked) (type : FieldType) :
    ds.DepthFirst type (ds.Enters (ds.length + 2) [] type) := by
  intro chain
  have unseen := ds.unseen_le []
  rw [enters_iff ranked (by omega)]
  simp only [List.not_mem_nil, not_false_eq_true, true_and]

theorem select_fill (ranked : ds.Ranked) {f : Field} (present : ds.field? type chain n = some f) :
    ((fill ds type (ds.zero type)).select (chain ++ [n])).isSome = true ↔
      ds.PointersIn (ds.Enters (ds.length + 2) [] type) type chain := by
  obtain ⟨fields, found⟩ := fields?_of_field? present
  rw [fill_zero ranked found]
  exact select_fillEmbedded ranked present (ds.length + 2) []

end Declarations

open Declarations

/-- A field that a selector means is selected on a filled zero value, or a filled nil pointer, if and only
if each pointer that the selector goes through stands in a record that filling enters. These are the first
ones of their types on the way of a depth-first walk. The walk ends, whatever the value. -/
theorem fill_selects_iff {ds : Declarations} (ranked : ds.Ranked) (type : FieldType) :
    ∃ entered, ds.DepthFirst type entered ∧
      (∀ name chain n, ds.Resolves type name chain n →
        (((fill ds type (ds.zero type)).select (chain ++ [n])).isSome = true ↔
          ds.PointersIn entered type chain)) ∧
      ∀ fuel, ds.length < fuel → ∀ v,
        fillEmbedded ds fuel [] type v = fillEmbedded ds (ds.length + 2) [] type v := by
  refine ⟨_, depthFirst_enters ranked type, fun name chain n resolves => ?_, fun fuel deep v => ?_⟩
  · obtain ⟨f, present, -⟩ := Option.map_eq_some_iff.mp resolves.offers
    exact select_fill ranked present
  · have unseen := ds.unseen_le []
    have settled (more : Nat) (deep : ds.length + 1 ≤ more) :
        fillEmbedded ds more [] type v = fillEmbedded ds (ds.length + 1) [] type v :=
      fillEmbedded_more (by omega) deep type v
    rw [settled fuel deep, settled (ds.length + 2) (by omega)]

/-- Records one of which is embedded along two chains. The walk comes to it on the longer one first, and
selectors go along the shorter one. -/
def twoWays : Declarations :=
  [("T", .record [⟨"A", .named "A", true⟩, ⟨"B", .pointer (.named "B"), true⟩]),
   ("A", .record [⟨"B", .pointer (.named "B"), true⟩]),
   ("B", .record [⟨"D", .pointer (.named "D"), true⟩]),
   ("D", .record [⟨"X", .integer, false⟩])]

theorem twoWays_ranked : twoWays.Ranked := ⟨(if · = "T" then 1 else 0), by decide⟩

theorem fill_selects_through : ∃ entered, twoWays.DepthFirst (.named "T") entered ∧
    ¬ twoWays.PointersIn entered (.named "T") [1, 0] := by
  obtain ⟨entered, walk, selects, -⟩ := fill_selects_iff twoWays_ranked (.named "T")
  have resolves : twoWays.Resolves (.named "T") "X" [1, 0] 0 := by decide
  refine ⟨entered, walk, fun pointers => ?_⟩
  exact absurd ((selects "X" [1, 0] 0 resolves).mpr pointers) (by decide)

/-- The field `X` of `T` lies behind `B` and `D`. The `B` that is entered is the one in `A`, and so the
pointer to `D` in the other one leads nowhere. -/
theorem fill_selects_nil : twoWays.Resolves (.named "T") "X" [1, 0] 0 ∧
    (fill twoWays (.named "T") (twoWays.zero (.named "T"))).select [1, 0, 0] = none ∧
    (fill twoWays (.pointer (.named "T")) .nil).select [1, 0, 0] = none := by
  exact ⟨by decide, rfl, rfl⟩

end Desugar.Support

import Desugar.Support.Fill
import Mathlib.Data.List.Basic
import Mathlib.Data.Nat.Basic

/-!
# Selectors of promoted fields

A selector names a field. It means the field of that name that lies at the shallowest depth among the
fields of a record and of the records that it embeds, and it is rejected if there is more than one such
field at that depth. To evaluate it is to go down through the embedded fields on the way, each chosen by
its place in its record. That fails where a pointer on the way leads nowhere.
-/
namespace Desugar.Support

/-- The type, or what it points to: whose fields are selected on a value of the type. -/
def FieldType.target : FieldType → FieldType
  | .pointer target => target
  | type => type

def FieldType.IsPointer (type : FieldType) : Prop := ∃ target, type = .pointer target

theorem FieldType.target_pointer (target : FieldType) : (FieldType.pointer target).target = target := rfl

theorem FieldType.target_eq {type : FieldType} (plain : ¬ type.IsPointer) : type.target = type := by
  cases type with
  | pointer target => exact absurd ⟨target, rfl⟩ plain
  | _ => rfl

/-! ## What a selector means -/

namespace Declarations

variable (ds : Declarations) {type record inner : FieldType} {fields : List Field} {name : String}
  {chain : List Nat} {n : Nat}

/-- The type of an embedded field of a record, by the place of the field. -/
def embedded? (record : FieldType) (n : Nat) : Option FieldType :=
  ((ds.fields? record).bind (·[n]?)).bind fun f => if f.embedded then some f.type else none

/-- The record that a chain of embedded fields leads to. -/
def reach : FieldType → List Nat → Option FieldType
  | type, [] => if ds.isFillable type.target then some type.target else none
  | type, n :: chain => (ds.embedded? type.target n).bind (reach · chain)

/-- The field at a place of the record that a chain of embedded fields leads to. -/
def field? (type : FieldType) (chain : List Nat) (n : Nat) : Option Field :=
  ((ds.reach type chain).bind ds.fields?).bind (·[n]?)

/-- There is a field of that name at a place behind a chain of embedded fields. -/
def Offers (type : FieldType) (name : String) (chain : List Nat) (n : Nat) : Prop :=
  (ds.field? type chain n).map (·.name) = some name

/-- A name means a field: no other field of that name lies as shallow as it. -/
structure Resolves (type : FieldType) (name : String) (chain : List Nat) (n : Nat) : Prop where
  offers : ds.Offers type name chain n
  alone : ∀ other m, ds.Offers type name other m → other.length ≤ chain.length → other = chain ∧ m = n

/-- A chain of embedded fields goes on through a field that is a pointer. -/
def ThroughPointer (type : FieldType) (front : List Nat) (n : Nat) : Prop :=
  ∃ record inner, ds.reach type front = some record ∧ ds.embedded? record n = some inner ∧ inner.IsPointer

variable {ds}

theorem embedded?_eq_some (found : ds.fields? record = some fields) :
    ds.embedded? record n = some inner ↔ ∃ f, fields[n]? = some f ∧ f.embedded = true ∧ f.type = inner := by
  simp [embedded?, found, Option.bind_eq_some_iff]

theorem fields?_of_embedded? (embedded : ds.embedded? record n = some inner) :
    ∃ fields, ds.fields? record = some fields := by
  cases found : ds.fields? record with
  | none => simp [embedded?, found] at embedded
  | some fields => exact ⟨fields, rfl⟩

theorem isFillable_iff : ds.isFillable type = true ↔ ∃ fields, ds.fields? type = some fields := by
  rw [isFillable, Option.isSome_iff_exists]

theorem reach_nil (found : ds.fields? type.target = some fields) : ds.reach type [] = some type.target :=
  if_pos (isFillable_iff.mpr ⟨fields, found⟩)

theorem reach_cons (embedded : ds.embedded? type.target n = some inner) :
    ds.reach type (n :: chain) = ds.reach inner chain :=
  congrArg (·.bind (ds.reach · chain)) embedded

theorem reach_nil_eq_some : ds.reach type [] = some record ↔
    type.target = record ∧ ds.isFillable type.target = true := by
  change (if ds.isFillable type.target then some type.target else none) = some record ↔ _
  simp [and_comm]

theorem reach_cons_eq_some : ds.reach type (n :: chain) = some record ↔
    ∃ inner, ds.embedded? type.target n = some inner ∧ ds.reach inner chain = some record :=
  Option.bind_eq_some_iff

theorem reached_of_field? {f : Field} (present : ds.field? type chain n = some f) :
    ∃ record, ds.reach type chain = some record := by
  obtain ⟨fields, found, -⟩ := Option.bind_eq_some_iff.mp present
  obtain ⟨record, reached, -⟩ := Option.bind_eq_some_iff.mp found
  exact ⟨record, reached⟩

/-- What has a field behind a chain is a record, or a pointer to one. -/
theorem fields?_of_field? {f : Field} (present : ds.field? type chain n = some f) :
    ∃ fields, ds.fields? type.target = some fields := by
  obtain ⟨record, reached⟩ := reached_of_field? present
  cases chain with
  | nil => exact isFillable_iff.mp (reach_nil_eq_some.mp reached).2
  | cons m chain =>
    obtain ⟨inner, embedded, -⟩ := reach_cons_eq_some.mp reached
    exact fields?_of_embedded? embedded

theorem field?_nil (found : ds.fields? type.target = some fields) : ds.field? type [] n = fields[n]? := by
  rw [field?, reach_nil found, Option.bind_some, found, Option.bind_some]

theorem field?_cons {m : Nat} {f : Field} (present : ds.field? type (m :: chain) n = some f) :
    ∃ inner, ds.embedded? type.target m = some inner ∧ ds.field? inner chain n = some f := by
  obtain ⟨record, reached⟩ := reached_of_field? present
  obtain ⟨inner, embedded, -⟩ := reach_cons_eq_some.mp reached
  exact ⟨inner, embedded, by rwa [field?, reach_cons embedded] at present⟩

/-! ### Resolving is decidable

At each depth there are finitely many chains of embedded fields.
-/

/-- The chains of so many embedded fields that lead to records. -/
def chains (ds : Declarations) : Nat → FieldType → List (List Nat)
  | 0, type => if ds.isFillable type.target then [[]] else []
  | depth + 1, type => (List.range ((ds.fields? type.target).getD []).length).flatMap fun n =>
    match ds.embedded? type.target n with
    | some inner => (ds.chains depth inner).map (n :: ·)
    | none => []

theorem mem_chains {depth : Nat} : chain ∈ ds.chains depth type ↔
    chain.length = depth ∧ ∃ record, ds.reach type chain = some record := by
  induction depth generalizing type chain with
  | zero =>
    cases chain with
    | nil => cases fillable : ds.isFillable type.target <;> simp [chains, reach, fillable]
    | cons n chain => cases fillable : ds.isFillable type.target <;> simp [chains, fillable]
  | succ depth ih =>
    simp only [chains, List.mem_flatMap, List.mem_range]
    constructor
    · rintro ⟨n, -, member⟩
      cases embedded : ds.embedded? type.target n with
      | none => simp [embedded] at member
      | some inner =>
        simp only [embedded, List.mem_map] at member
        obtain ⟨rest, member, rfl⟩ := member
        obtain ⟨length, reached⟩ := ih.mp member
        exact ⟨by simp [length], by rwa [reach_cons embedded]⟩
    · rintro ⟨length, record, reached⟩
      obtain ⟨n, rest, rfl⟩ := List.exists_cons_of_length_eq_add_one length
      obtain ⟨inner, embedded, reached⟩ := reach_cons_eq_some.mp reached
      obtain ⟨fields, found⟩ := fields?_of_embedded? embedded
      obtain ⟨f, at_n, -⟩ := (embedded?_eq_some found).mp embedded
      refine ⟨n, ?_, ?_⟩
      · rw [found]
        exact (List.getElem?_eq_some_iff.mp at_n).1
      · simp only [embedded, List.mem_map]
        exact ⟨rest, ih.mpr ⟨by simpa using length, record, reached⟩, rfl⟩

/-- How many fields the record has that a chain leads to. -/
def width (ds : Declarations) (type : FieldType) (chain : List Nat) : Nat :=
  (((ds.reach type chain).bind ds.fields?).getD []).length

theorem lt_width {f : Field} (present : ds.field? type chain n = some f) : n < ds.width type chain := by
  obtain ⟨fields, found, at_n⟩ := Option.bind_eq_some_iff.mp present
  rw [width, found]
  exact (List.getElem?_eq_some_iff.mp at_n).1

instance : Decidable (ds.Offers type name chain n) := inferInstanceAs (Decidable (_ = _))

theorem resolves_iff : ds.Resolves type name chain n ↔ ds.Offers type name chain n ∧
    ∀ other ∈ (List.range (chain.length + 1)).flatMap (ds.chains · type), ∀ m < ds.width type other,
      ds.Offers type name other m → other = chain ∧ m = n := by
  constructor
  · rintro ⟨offers, alone⟩
    refine ⟨offers, fun other member m _ offers => alone other m offers ?_⟩
    obtain ⟨depth, shallow, member⟩ := List.mem_flatMap.mp member
    rw [(mem_chains.mp member).1]
    exact Nat.lt_succ_iff.mp (List.mem_range.mp shallow)
  · rintro ⟨offers, alone⟩
    refine ⟨offers, fun other m offers shallow => ?_⟩
    obtain ⟨f, present, -⟩ := Option.map_eq_some_iff.mp offers
    refine alone other ?_ m (lt_width present) offers
    refine List.mem_flatMap.mpr ⟨other.length, List.mem_range.mpr (Nat.lt_succ_iff.mpr shallow), ?_⟩
    exact mem_chains.mpr ⟨rfl, reached_of_field? present⟩

instance : Decidable (ds.Resolves type name chain n) := decidable_of_iff' _ resolves_iff

/-! ### Pointers on the way -/

/-- Wherever the chain goes on through a pointer, the chain up to there is one of these. -/
def PointersIn (ds : Declarations) (entered : List Nat → Prop) (type : FieldType) (chain : List Nat) : Prop :=
  ∀ front n back, chain = front ++ n :: back → ds.ThroughPointer type front n → entered front

variable {entered : List Nat → Prop}

theorem pointersIn_nil : ds.PointersIn entered type [] := by
  intro front n back whole
  simp at whole

theorem pointersIn_cons (embedded : ds.embedded? type.target n = some inner) :
    ds.PointersIn entered type (n :: chain) ↔
      (inner.IsPointer → entered []) ∧ ds.PointersIn (fun front => entered (n :: front)) inner chain := by
  obtain ⟨fields, found⟩ := fields?_of_embedded? embedded
  constructor
  · intro all
    refine ⟨fun pointer => all [] n chain rfl ⟨_, _, reach_nil found, embedded, pointer⟩, ?_⟩
    rintro front m back rfl ⟨record, next, reached, through⟩
    exact all (n :: front) m back rfl ⟨record, next, by rwa [reach_cons embedded], through⟩
  · rintro ⟨first, rest⟩ front m back whole ⟨record, next, reached, next_embedded, pointer⟩
    cases front with
    | nil =>
      obtain ⟨rfl, rfl⟩ := List.cons.inj whole
      obtain ⟨rfl, -⟩ := reach_nil_eq_some.mp reached
      obtain rfl := Option.some.inj (embedded.symm.trans next_embedded)
      exact first pointer
    | cons k front =>
      obtain ⟨rfl, whole⟩ := List.cons.inj whole
      rw [reach_cons embedded] at reached
      exact rest front m back (by simpa using whole) ⟨record, next, reached, next_embedded, pointer⟩

end Declarations

/-! ## Selecting on a value -/

namespace Datum

/-- The values of a record's fields, or of the record that a pointer leads to. -/
def fields? : Datum → Option (List Datum)
  | .record values => some values
  | .pointer (.record values) => some values
  | _ => none

/-- Selects a field in what was selected before, again and again, each by its place. It fails where a
pointer leads nowhere. -/
def select : Datum → List Nat → Option Datum
  | v, [] => some v
  | v, n :: places => (v.fields?.bind (·[n]?)).bind (select · places)

theorem select_cons {v w : Datum} {values : List Datum} {n : Nat} (fields : v.fields? = some values)
    (there : values[n]? = some w) (places : List Nat) : v.select (n :: places) = w.select places := by
  simp [select, fields, there]

theorem select_nil (places : List Nat) (n : Nat) : Datum.nil.select (places ++ [n]) = none := by
  cases places <;> rfl

end Datum

/-! ## Zero values -/

/-- The type's name, if it is declared. -/
def FieldType.name? : FieldType → Option String
  | .named name => some name
  | _ => none

/-- The names of the types of which a declared type holds values. -/
def Declared.nested : Declared → List String
  | .record fields => fields.filterMap (·.type.name?)
  | .other type => type.name?.toList

namespace Declarations

variable {ds : Declarations} {type record : FieldType} {fields : List Field} {chain : List Nat} {n : Nat}

/-- Types do not hold values of themselves: what a type holds ranks below it. -/
def Ranked (ds : Declarations) : Prop :=
  ∃ rank : String → Nat, ∀ entry ∈ ds, ∀ name ∈ entry.2.nested, rank name < rank entry.1

theorem mem_of_lookup {name : String} {declared : Declared} (found : ds.lookup name = some declared) :
    (name, declared) ∈ ds := by
  obtain ⟨front, back, rfl, -⟩ := List.lookup_eq_some_iff.mp found
  simp

theorem fields?_eq_some : ds.fields? record = some fields ↔
    ∃ name, record = .named name ∧ ds.lookup name = some (.record fields) := by
  cases record with
  | named name =>
    cases found : ds.lookup name with
    | none => simp [fields?, found]
    | some declared => cases declared <;> simp [fields?, found]
  | _ => simp [fields?]

/-- How many declared types rank no higher: the zero value is no deeper. -/
def height (ds : Declarations) (rank : String → Nat) : FieldType → Nat
  | .named name => ds.countP fun entry => rank entry.1 ≤ rank name
  | _ => 0

theorem countP_lt {α : Type} {p q : α → Bool} {l : List α} {a : α} (member : a ∈ l)
    (weaker : ∀ b ∈ l, p b = true → q b = true) (holds : q a = true) (fails : p a = false) :
    l.countP p < l.countP q := by
  obtain ⟨front, back, rfl⟩ := List.append_of_mem member
  have before : front.countP p ≤ front.countP q :=
    List.countP_mono_left fun b inside => weaker b (by simp [inside])
  have behind : back.countP p ≤ back.countP q :=
    List.countP_mono_left fun b inside => weaker b (by simp [inside])
  simp only [List.countP_append, List.countP_cons, holds, fails]
  simp
  omega

/-- What a declared type holds has a zero value that is less deep. -/
theorem height_lt {rank : String → Nat} {name : String} {declared : Declared}
    (ranked : ∀ entry ∈ ds, ∀ inner ∈ entry.2.nested, rank inner < rank entry.1)
    (found : ds.lookup name = some declared) (held : FieldType)
    (nested : ∀ inner, held = .named inner → inner ∈ declared.nested) :
    ds.height rank held < ds.height rank (.named name) := by
  have member := mem_of_lookup found
  have here : decide (rank name ≤ rank name) = true := by simp
  cases held with
  | named inner =>
    have lower : rank inner < rank name := ranked _ member inner (nested inner rfl)
    refine countP_lt member ?_ here (by simpa using lower)
    intro entry _ below
    simp only [decide_eq_true_eq] at below ⊢
    omega
  | _ => exact List.countP_pos_iff.mpr ⟨_, member, here⟩

/-- A zero value does not depend on how deep it may be, if it may be deep enough. -/
theorem zero_congr {rank : String → Nat}
    (ranked : ∀ entry ∈ ds, ∀ inner ∈ entry.2.nested, rank inner < rank entry.1) {fuel more : Nat}
    (enough : ds.height rank type ≤ fuel) (enough' : ds.height rank type ≤ more) :
    Datum.zero ds fuel type = Datum.zero ds more type := by
  induction fuel generalizing more type with
  | zero =>
    cases type with
    | named name =>
      cases found : ds.lookup name with
      | none => cases more <;> simp [Datum.zero, found]
      | some declared =>
        have positive := height_lt ranked found .integer (by simp)
        omega
    | _ => simp [Datum.zero]
  | succ fuel ih =>
    cases type with
    | named name =>
      cases found : ds.lookup name with
      | none => cases more <;> simp [Datum.zero, found]
      | some declared =>
        have positive := height_lt ranked found .integer (by simp)
        obtain ⟨more, rfl⟩ : ∃ k, more = k + 1 := Nat.exists_eq_add_one.mpr (by omega)
        have same (held : FieldType) (nested : ∀ inner, held = .named inner → inner ∈ declared.nested) :
            Datum.zero ds fuel held = Datum.zero ds more held := by
          have lower := height_lt ranked found held nested
          exact ih (by omega) (by omega)
        cases declared with
        | record fields =>
          simp only [Datum.zero, found, Datum.record.injEq]
          refine List.map_congr_left fun f member => same f.type fun inner named => ?_
          exact List.mem_filterMap.mpr ⟨f, member, by rw [named]; rfl⟩
        | other type =>
          simp only [Datum.zero, found]
          exact same type fun inner named => by simp [Declared.nested, named, FieldType.name?]
    | _ => simp [Datum.zero]

/-- The zero value of a record holds the zero values of its fields' types. -/
theorem zero_record (ranked : ds.Ranked) (found : ds.fields? record = some fields) :
    ds.zero record = .record (fields.map (ds.zero ·.type)) := by
  obtain ⟨rank, ranked⟩ := ranked
  obtain ⟨name, rfl, declared⟩ := fields?_eq_some.mp found
  simp only [zero, Datum.zero, declared, Datum.record.injEq]
  refine List.map_congr_left fun f member => ?_
  have lower := height_lt ranked declared f.type fun inner named =>
    List.mem_filterMap.mpr ⟨f, member, by rw [named]; rfl⟩
  have bounded : ds.height rank (.named name) ≤ ds.length := List.countP_le_length
  exact zero_congr ranked (by omega) (by omega)

theorem zero_pointer (pointer : type.IsPointer) : ds.zero type = .nil := by
  obtain ⟨target, rfl⟩ := pointer
  rfl

/-- In a zero value nothing is selected through a pointer. -/
theorem select_zero (ranked : ds.Ranked) {v : Datum} {f : Field}
    (found : ds.fields? type.target = some fields)
    (zeros : v.fields? = some (fields.map (ds.zero ·.type))) (present : ds.field? type chain n = some f) :
    (v.select (chain ++ [n])).isSome = true ↔ ds.PointersIn (fun _ => False) type chain := by
  induction chain generalizing type fields v with
  | nil =>
    rw [field?_nil found] at present
    simp [pointersIn_nil, Datum.select, zeros, present]
  | cons m chain ih =>
    obtain ⟨inner, embedded, present⟩ := field?_cons present
    obtain ⟨g, at_m, -, rfl⟩ := (embedded?_eq_some found).mp embedded
    have value : (fields.map (ds.zero ·.type))[m]? = some (ds.zero g.type) := by
      rw [List.getElem?_map, at_m]
      rfl
    rw [pointersIn_cons embedded, List.cons_append, Datum.select_cons zeros value]
    by_cases pointer : g.type.IsPointer
    · simp [zero_pointer pointer, Datum.select_nil, pointer]
    · obtain ⟨inside, found⟩ := fields?_of_field? present
      have zeros : (ds.zero g.type).fields? = some (inside.map (ds.zero ·.type)) := by
        rw [← FieldType.target_eq pointer, zero_record ranked found]
        rfl
      simp [ih found zeros present, pointer]

end Declarations
end Desugar.Support

import Desugar.Support.Truth

/-!
# Truth by a rule

A value whose type has a rule counts as true if the rule says so. A pointer to a variable that holds such a value
follows the rule in two cases: the pointer's own type has it, which the type of pointers to the variable's type
has unless that is a type of pointers itself, or the variable is of an interface type. Any other pointer to the
value counts as true whatever the rule says.
-/
namespace Desugar.Support.Value

variable {b p : Value} {answer : Bool}

/-- The value's type has a rule, and that is what it answers of the value. A type has the rule that is declared on
its values, and the type of pointers to these has it too, as it has the one that is declared on them. -/
inductive Decides : Value → Bool → Prop
  | value (answer : Bool) (underlying : Value) : Decides (ruled .value answer underlying) answer
  | pointer (receiver : Receiver) (answer : Bool) (underlying : Value) :
    Decides (pointer (ruled receiver answer underlying)) answer

/-- The value is a pointer to a variable that holds another one. The variable is of that one's type or of an
interface type, and the pointer may be of a type of its own. -/
inductive LeadsTo : Value → Value → Prop
  | own (held : Value) : LeadsTo (pointer held) held
  | interface (held : Value) : LeadsTo (interfacePointer (some held)) held
  | defined {p held : Value} : LeadsTo p held → LeadsTo (defined p) held

/-- Whether the value is a pointer to a variable of an interface type. -/
def leadsToInterface : Value → Bool
  | interfacePointer _ => true
  | defined p => p.leadsToInterface
  | _ => false

theorem answer?_eq_some_iff : b.answer? = some answer ↔ b.Decides answer := by
  constructor
  · intro answered
    unfold answer? at answered
    split at answered
    · obtain rfl := Option.some.inj answered
      exact .value _ _
    · obtain rfl := Option.some.inj answered
      exact .pointer _ _ _
    · cases answered
  · rintro (_ | _) <;> rfl

theorem LeadsTo.not_nil (leads : p.LeadsTo b) : p.isNil = false := by
  induction leads with
  | own => rfl
  | interface => rfl
  | defined _ ih => exact ih

/-- By its kind, a pointer to a variable of an interface type follows the rule of what that holds, and any other
pointer counts as true. -/
theorem LeadsTo.byKind_eq (leads : p.LeadsTo b) (decides : b.Decides answer) :
    p.byKind = if p.leadsToInterface then answer else true := by
  induction leads with
  | own => rfl
  | interface => simp [byKind, leadsToInterface, answer?_eq_some_iff.mpr decides]
  | defined _ ih => exact ih decides

/-- What the rule of a pointer's type answers is what the rule of the value answers that the pointer leads to. -/
theorem LeadsTo.decides_eq (leads : p.LeadsTo b) (decides : b.Decides answer) {other : Bool}
    (decides' : p.Decides other) : other = answer := by
  cases decides' with
  | value => cases leads
  | pointer =>
    cases leads
    cases decides
    rfl

/-- A value that is not nil follows the rule of its type. A pointer to it follows it if and only if the rule
calls the value true, as every pointer counts by its kind, or the pointer's own type has the rule, or the
variable that it leads to is of an interface type. -/
theorem rule_followed_iff (decides : b.Decides answer) (notNil : b.isNil = false) :
    truth (some b) = answer ∧ ∀ p, p.LeadsTo b →
      (truth (some p) = answer ↔ answer = true ∨ p.Decides answer ∨ p.leadsToInterface = true) := by
  have own : truth (some b) = answer := by simp [truth, notNil, answer?_eq_some_iff.mpr decides]
  refine ⟨own, fun p leads => ?_⟩
  have told : truth (some p) = p.answer?.getD p.byKind := by simp [truth, leads.not_nil]
  rw [told, leads.byKind_eq decides]
  cases answered : p.answer? with
  | some other =>
    have follows := answer?_eq_some_iff.mp answered
    obtain rfl := leads.decides_eq decides follows
    simp [follows]
  | none =>
    have silent : ¬ p.Decides answer := fun follows => by
      rw [answer?_eq_some_iff.mpr follows] at answered
      cases answered
    cases p.leadsToInterface <;> simp [silent, eq_comm]

/-- A pointer to a record whose rule is declared on records follows the rule, as one to a variable of an
interface type does that holds the record. -/
theorem rule_followed_record :
    let flag := ruled .value false record
    flag.Decides false ∧ flag.isNil = false ∧ (pointer flag).LeadsTo flag ∧
      (interfacePointer (some flag)).LeadsTo flag ∧ truth (some flag) = false ∧
      truth (some (pointer flag)) = false ∧ truth (some (interfacePointer (some flag))) = false := by
  intro flag
  have decides : flag.Decides false := .value _ _
  have notNil : flag.isNil = false := rfl
  obtain ⟨own, followed⟩ := rule_followed_iff decides notNil
  exact ⟨decides, notNil, .own _, .interface _, own, (followed _ (.own _)).mpr (.inr (.inl (.pointer _ _ _))),
    (followed _ (.interface _)).mpr (.inr (.inr rfl))⟩

/-- A pointer to a variable that holds a pointer with a rule counts as true, although the rule calls that
false. -/
theorem rule_not_followed_twice :
    let counter := pointer (ruled .pointer false record)
    counter.Decides false ∧ counter.isNil = false ∧ (pointer counter).LeadsTo counter ∧
      truth (some counter) = false ∧ truth (some (pointer counter)) = true :=
  ⟨.pointer _ _ _, rfl, .own _, rfl, rfl⟩

end Desugar.Support.Value

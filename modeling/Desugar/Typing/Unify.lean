import Desugar.Typing.Lookup

/-!
# Unification

Finds types for type parameters under which two types become the same. What is known of a type parameter
is kept in a slot; type parameters that must be equal share one.
-/
namespace Desugar.Typing

structure Unifier where
  /-- The slots of the type parameters that are to be found. -/
  slotOf : List (Nat × Nat)
  slots : Array (Option Ty)
  deriving Inhabited

abbrev Unification := StateT Unifier Check

namespace Unifier

def start (params : List Nat) (known : List (Option Ty)) : Unifier :=
  { slotOf := params.zipIdx, slots := known.toArray }

/-- The type of a parameter as far as it is known. -/
def known? (u : Unifier) (param : Nat) : Option Ty :=
  (u.slotOf.lookup param).bind fun slot => (u.slots[slot]?).join

def set (u : Unifier) (param : Nat) (ty : Ty) : Unifier :=
  match u.slotOf.lookup param with
  | some slot => { u with slots := u.slots.modify slot fun _ => some ty }
  | none => u

/-- Makes all parameters of one slot use another one. -/
def merge (u : Unifier) (old new : Nat) : Unifier :=
  { u with slotOf := u.slotOf.map fun (p, s) => (p, if s = old then new else s) }

/-- Makes two parameters share a slot, unless the types of both are known already. -/
def join? (u : Unifier) (p q : Nat) : Option Unifier :=
  match u.slotOf.lookup p, u.slotOf.lookup q with
  | some a, some b =>
    if a = b then some u
    else if (u.known? p).isSome && (u.known? q).isSome then none
    else if (u.known? p).isSome then some (u.merge b a)
    else some (u.merge a b)
  | _, _ => none

/-- How many parameters are still unknown. -/
def unknowns (u : Unifier) : Nat := u.slotOf.countP fun (p, _) => (u.known? p).isNone

/-- The number of a type parameter that is to be found. -/
def bound? (u : Unifier) (t : Tables) (ty : Ty) : Option Nat :=
  match t.unalias ty with
  | .param id => if (u.slotOf.lookup id).isSome then some id else none
  | _ => none

end Unifier

namespace Judge

/-- Makes two types the same; an inexact match passes over declared types and over what channels allow,
and with `assign` it does so only at the outermost level. -/
def unify (j : Judge) (assign : Bool) : (fuel : Nat) → (exact : Bool) → Ty → Ty → Unification Bool
  | 0, _, _, _ => return false
  | fuel + 1, exact, x, y => do
    let t ← tables
    let unifier ← get
    if t.unalias x == t.unalias y then return true
    let (x, y) := if t.isNamed x || (unifier.bound? t y).isSome then (y, x) else (x, y)
    let y := if !exact && t.isNamed y && t.isLiteral x && !t.isPlainInterface x then t.under y else y
    if t.unalias x == t.unalias y then return true
    let inner := exact || assign
    let pairs (xs ys : List Ty) : Unification Bool := do
      if xs.length ≠ ys.length then return false
      for (a, b) in xs.zip ys do
        if !(← j.unify assign fuel inner a b) then return false
      return true
    match unifier.bound? t x, unifier.bound? t y with
    | some p, some q =>
      match unifier.join? p q with
      | some u => set u; return true
      | none =>
        match unifier.known? p, unifier.known? q with
        | some a, some b => j.unify assign fuel exact a b
        | _, _ => return false
    | some p, none =>
      match unifier.known? p with
      | none => set (unifier.set p y); return true
      | some a =>
        if !(← j.unify assign fuel exact a y) then return false
        if t.isPlainInterface a && t.isPlainInterface y then
          if t.isNamed a && t.isNamed y then
            if !t.identical a y then return false
          else if (t.typeSet a).methods.length ≠ (t.typeSet y).methods.length then return false
        else if t.isPlainInterface a || t.isPlainInterface y then return false
        if !exact && !t.isNamed a then
          let isDirected := match t.under y with
            | .chan d _ => d ≠ .both
            | _ => false
          if t.isNamed y || isDirected then modify (·.set p y)
        return true
    | _, _ =>
      if !exact && t.isPlainInterface x && t.isPlainInterface y then
        let a := t.typeSet x
        let b := t.typeSet y
        if a.comparable ≠ b.comparable || !t.sameTerms Tables.depthBound a.terms b.terms then
          return false
        let (few, many) := if b.methods.length < a.methods.length then (b, a) else (a, b)
        for (m, f) in few.methods do
          match many.methods.find? (·.1.sameName m) with
          | some (_, g) => if !(← j.unify assign fuel true f g) then return false
          | none => return false
        return true
      if !exact && (t.isPlainInterface x || t.isPlainInterface y) then
        let (i, v) := if t.isPlainInterface y then (y, x) else (x, y)
        for (m, f) in (t.typeSet i).methods do
          match ((← getThe State).searchType false m.name m.package false v).selected? with
          | some s =>
            if !s.isMethod || !(← j.unify assign fuel true f (← j.methodType s)) then return false
          | none => return false
        return true
      let (x, y) := if t.isParam y then (y, x) else (x, y)
      match t.unalias x, t.unalias y with
      | .basic a, .basic b => return a.canon = b.canon
      | .array m a, .array n b =>
        if m.isSome && n.isSome && m ≠ n then return false
        j.unify assign fuel inner a b
      | .slice a, .slice b => j.unify assign fuel inner a b
      | .pointer a, .pointer b => j.unify assign fuel inner a b
      | .map k v, .map l w => pairs [k, v] [l, w]
      | .chan d a, .chan e b =>
        if exact && d ≠ e then return false
        j.unify assign fuel inner a b
      | .struct fs, .struct gs =>
        if fs.length ≠ gs.length then return false
        for (f, g) in fs.zip gs do
          if f.1.embedded ≠ g.1.embedded || f.1.tag ≠ g.1.tag || !f.1.sameName g.1 then return false
        pairs (fs.map (·.2)) (gs.map (·.2))
      | .func _ ps rs v, .func _ qs ss w =>
        if v ≠ w then return false
        if !(← pairs (ps.map (·.2)) (qs.map (·.2))) then return false
        pairs (rs.map (·.2)) (ss.map (·.2))
      | .iface .., .iface .. =>
        let a := t.typeSet x
        let b := t.typeSet y
        if a.comparable ≠ b.comparable || a.methods.length ≠ b.methods.length ||
            !t.sameTerms Tables.depthBound a.terms b.terms then return false
        for (m, f) in a.methods do
          match b.methods.find? (·.1.sameName m) with
          | some (_, g) => if !(← j.unify assign fuel exact f g) then return false
          | none => return false
        return true
      | .named a as, .named b bs =>
        if as.length ≠ bs.length then return false
        for (x, y) in as.zip bs do
          if !(← j.unify assign fuel exact x y) then return false
        return a = b
      | .param _, _ =>
        match t.core x with
        | some c => j.unify true fuel false c y
        | none => return false
      | _, _ => return false

end Judge
end Desugar.Typing

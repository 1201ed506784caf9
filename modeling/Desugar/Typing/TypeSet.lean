import Desugar.Typing.Type

/-!
# Identity of types and what constraints admit

The type set of an interface is what its methods and its embedded types admit. Operators on values of a
type parameter ask something of all types in the type set of its constraint.
-/
namespace Desugar.Typing

/-- A type, or a type with all that are declared by it. -/
abbrev Term := Bool × Ty

structure TypeSet where
  methods : List (Member × Ty) := []
  comparable : Bool := false
  /-- The types that are admitted; `none` stands for all types. -/
  terms : Option (List Term) := none
  deriving Inhabited

/-- Whether a name can be used outside of its package. -/
def isExported (name : String) : Bool :=
  match name.toList.head? with
  | some c => Text.isUpper c
  | none => false

/-- Whether two members have one name, where a name that is not exported belongs to its package. -/
def Member.sameName (a b : Member) : Bool :=
  a.name = b.name && (isExported a.name || a.package = b.package)

namespace Tables

/-- How deep types are compared. -/
def depthBound : Nat := 64

mutual

/-- Whether two types are the same. -/
def identicalFrom (t : Tables) : (fuel : Nat) → Ty → Ty → Bool
  | 0, _, _ => true
  | fuel + 1, x, y =>
    match t.unalias x, t.unalias y with
    | .basic a, .basic b => a.canon = b.canon
    | .named a as, .named b bs => a = b && identicalAll t fuel as bs
    | .param a, .param b => a = b
    | .pointer a, .pointer b => identicalFrom t fuel a b
    | .slice a, .slice b => identicalFrom t fuel a b
    | .array m a, .array n b => (m.isNone || n.isNone || m = n) && identicalFrom t fuel a b
    | .map k v, .map l w => identicalFrom t fuel k l && identicalFrom t fuel v w
    | .chan d a, .chan e b => d = e && identicalFrom t fuel a b
    | .struct fs, .struct gs =>
      fs.length = gs.length &&
        (fs.zip gs).all (fun (f, g) => f.1.embedded = g.1.embedded && f.1.tag = g.1.tag &&
          f.1.sameName g.1) &&
        identicalAll t fuel (fs.map (·.2)) (gs.map (·.2))
    | .func ps as rs v, .func qs bs ss w =>
      let rename := Ty.substParams qs (ps.map .param)
      ps.length = qs.length && v = w && identicalAll t fuel (as.map (·.2)) (bs.map (rename ·.2)) &&
        identicalAll t fuel (rs.map (·.2)) (ss.map (rename ·.2)) &&
        identicalAll t fuel (ps.map fun p => (t.paramInfo p).constraint)
          (qs.map fun q => rename (t.paramInfo q).constraint)
    | .iface ms es i, .iface ns fs j =>
      let a := typeSetFrom t fuel (.iface ms es i)
      let b := typeSetFrom t fuel (.iface ns fs j)
      .iface ms es i == Ty.iface ns fs j ||
      (a.comparable = b.comparable && sameTerms t fuel a.terms b.terms &&
        a.methods.length = b.methods.length &&
        a.methods.all fun (m, x) => match b.methods.find? (m.sameName ·.1) with
          | some (_, y) => identicalFrom t fuel x y
          | none => false)
    | .tilde a, .tilde b => identicalFrom t fuel a b
    | .union as, .union bs => identicalAll t fuel as bs
    | .tuple as, .tuple bs => identicalAll t fuel (as.map (·.2)) (bs.map (·.2))
    | _, _ => false

def identicalAll (t : Tables) : (fuel : Nat) → List Ty → List Ty → Bool
  | 0, _, _ => true
  | fuel + 1, xs, ys =>
    xs.length = ys.length && (xs.zip ys).all fun (x, y) => identicalFrom t fuel x y

/-- Whether two lists of terms admit the same types. -/
def sameTerms (t : Tables) : (fuel : Nat) → Option (List Term) → Option (List Term) → Bool
  | 0, _, _ => true
  | _, none, none => true
  | fuel + 1, some xs, some ys =>
    let within (xs ys : List Term) : Bool := xs.all fun (p, x) => ys.any fun (q, y) =>
      if q then identicalFrom t fuel (t.under x) (t.under y) else !p && identicalFrom t fuel x y
    within xs ys && within ys xs
  | _, _, _ => false

/-- The types that two terms admit both. -/
def meetTerm (t : Tables) : (fuel : Nat) → Term → Term → Option Term
  | 0, _, _ => none
  | fuel + 1, (p, x), (q, y) =>
    let a := if q then t.under x else x
    let b := if p then t.under y else y
    if !identicalFrom t fuel a b then none
    else if p && !q then some (q, y) else some (p, x)

/-- What an interface admits. -/
def typeSetFrom (t : Tables) : (fuel : Nat) → Ty → TypeSet
  | 0, _ => {}
  | fuel + 1, ty =>
    if t.unalias ty == .named comparableId [] then { comparable := true }
    else match ty with
    | .tilde x => { terms := some [(true, x)] }
    | .union xs =>
      let sets := xs.map (typeSetFrom t fuel)
      { terms := if sets.any (·.terms.isNone) then none
          else some (sets.flatMap fun s => s.terms.getD []) }
    | ty =>
      match t.under ty with
      | .iface ms es _ =>
        es.foldl (fun s e =>
          let n := typeSetFrom t fuel e
          let fresh := n.methods.filter fun m => !s.methods.any (m.1.sameName ·.1)
          let terms := match s.terms, n.terms with
            | none, y => y
            | x, none => x
            | some xs, some ys =>
              some (xs.flatMap fun x => ys.filterMap fun y => meetTerm t fuel x y)
          { methods := s.methods ++ fresh, comparable := s.comparable || n.comparable, terms })
          { methods := ms }
      | .basic .invalid => {}
      | .union xs => typeSetFrom t fuel (.union xs)
      | .tilde x => { terms := some [(true, x)] }
      | _ => { terms := some [(false, ty)] }

end

def identical (t : Tables) (x y : Ty) : Bool := t.identicalFrom depthBound x y

def typeSet (t : Tables) (ty : Ty) : TypeSet := t.typeSetFrom depthBound ty

/-- The types that a value of a type may have: those that a type parameter's constraint names, if it
names any. -/
def termsOf (t : Tables) (ty : Ty) : Option (List Term) :=
  match t.unalias ty with
  | .param id => (t.typeSet (t.paramInfo id).constraint).terms
  | _ => some [(false, ty)]

/-- Whether the structure of a type is a basic type with some property. -/
def isBasic (t : Tables) (p : Basic → Bool) (ty : Ty) : Bool :=
  match t.under ty with
  | .basic b => p b
  | _ => false

/-- Whether all types that a value may have are basic types with some property. -/
def allBasic (t : Tables) (p : Basic → Bool) (ty : Ty) : Bool :=
  match t.termsOf ty with
  | some [] | none => false
  | some ts => ts.all fun x => t.isBasic p x.2

/-- Whether values can be compared; `dynamic` admits interfaces, which may fail when it happens. -/
def comparableFrom (t : Tables) (dynamic : Bool) : (fuel : Nat) → Ty → Bool
  | 0, _ => true
  | fuel + 1, ty =>
    match t.under ty with
    | .basic b => b ≠ .untypedNil
    | .pointer _ | .chan .. => true
    | .iface .. =>
      (dynamic && !t.isParam ty) ||
        let s := match t.unalias ty with
          | .param id => t.typeSet (t.paramInfo id).constraint
          | ty => t.typeSet ty
        match s.terms with
        | none => s.comparable
        | some ts => ts.all fun x => comparableFrom t false fuel x.2
    | .struct fs => fs.all fun f => comparableFrom t dynamic fuel f.2
    | .array _ e => comparableFrom t dynamic fuel e
    | _ => false

def comparable (t : Tables) (ty : Ty) : Bool := t.comparableFrom true depthBound ty

/-- Whether values of a type hold values of a declared type, which need not be reached through declared
types that are passed already. -/
def holdsFrom (t : Tables) (id : Nat) : (fuel : Nat) → (path : List Nat) → Ty → Bool
  | 0, _, _ => false
  | fuel + 1, path, ty =>
    match t.unalias ty with
    | .named n args =>
      n = id || (!path.contains n &&
        let info := t.namedInfo n
        match info.underlying with
        | some u => t.holdsFrom id fuel (n :: path) (u.substParams info.tparams args)
        | none => false)
    | .array _ e => t.holdsFrom id fuel path e
    | .struct fs => fs.any fun f => t.holdsFrom id fuel path f.2
    | .iface _ es _ => es.any fun e => t.holdsFrom id fuel path e
    | .union es => es.any fun e => t.holdsFrom id fuel path e
    | .tilde e => t.holdsFrom id fuel path e
    | _ => false

def holds (t : Tables) (id : Nat) (ty : Ty) : Bool := t.holdsFrom id depthBound [] ty

/-- Whether a type has no value but through its constraint. -/
def hasNil (t : Tables) (ty : Ty) : Bool :=
  let direct (ty : Ty) : Bool := match t.under ty with
    | .basic b => b = .unsafePointer || b = .untypedNil
    | .slice _ | .pointer _ | .func .. | .map .. | .chan .. | .iface .. => true
    | _ => false
  if t.isParam ty then match t.termsOf ty with
    | some [] | none => false
    | some ts => ts.all fun x => direct x.2
  else direct ty

/-- Why the types that a value may have share no structure: they are not known, one has a structure that
will not do, or two differ. -/
inductive Discord where
  | unspecific
  | unfit (x : Ty)
  | elements (x y : Ty)
  | directions (x y : Ty)
  | structures (x y : Ty)
  deriving Inhabited

/-- The structure that types share, where `u`, which is that of `x`, is the one of those before. Channels
may differ in what they allow; the one that allows less counts. -/
def commonFrom (t : Tables) (fits : Ty → Bool) (x u : Ty) : List Ty → Except Discord Ty
  | [] => .ok u
  | y :: ys =>
    let v := t.under y
    if !fits v then .error (.unfit y)
    else match u, v with
      | .chan d e, .chan d' e' =>
        if !t.identical e e' then .error (.elements x y)
        else if d ≠ d' && d = .both then commonFrom t fits y v ys
        else if d ≠ d' && d' ≠ .both then .error (.directions x y)
        else commonFrom t fits x u ys
      | _, _ => if t.identical u v then commonFrom t fits x u ys else .error (.structures x y)

/-- The types that a value may have, if they are known. -/
def typesOf (t : Tables) (ty : Ty) : Option (List Ty) := (t.termsOf ty).map (·.map (·.2))

/-- The structure that all types of a value share, each of which has to fit. -/
def common (t : Tables) (fits : Ty → Bool) (ty : Ty) : Except Discord Ty :=
  match t.typesOf ty with
  | some (x :: xs) =>
    if fits (t.under x) then t.commonFrom fits x (t.under x) xs else .error (.unfit x)
  | _ => .error .unspecific

/-- The structure that all types of a value share. -/
def core (t : Tables) (ty : Ty) : Option Ty := (t.common (fun _ => true) ty).toOption

/-- What the structures of all types of a value have in common: `part` gives it of one, and `merge` joins
what two give, unless they differ in it. -/
def shared {α : Type} (t : Tables) (part : Ty → Option α) (merge : α → α → Option α) (ty : Ty) :
    Except Discord α :=
  let step (x : Ty) (a : α) (y : Ty) : Except Discord α :=
    match part (t.under y) with
    | none => .error (.unfit y)
    | some b => (merge a b).elim (.error (.elements x y)) .ok
  match t.typesOf ty with
  | some (x :: xs) =>
    match part (t.under x) with
    | none => .error (.unfit x)
    | some a => xs.foldlM (step x) a
  | _ => .error .unspecific

/-- The type that the structures of all types of a value have in common, as `part` gives it. -/
def sharedType (t : Tables) (part : Ty → Option Ty) (ty : Ty) : Except Discord Ty :=
  t.shared part (fun a b => if t.identical a b then some a else none) ty

/-- Whether the structures of all types of a value fit. -/
def eachFits (t : Tables) (fits : Ty → Bool) (ty : Ty) : Except Discord Unit :=
  t.shared (fun u => if fits u then some () else none) (fun _ _ => some ()) ty

end Tables
end Desugar.Typing

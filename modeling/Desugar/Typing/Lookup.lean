import Desugar.Typing.Judge

/-!
# Fields and methods

A name is looked up in a type and, level by level, in the types that it embeds. The shallowest level
with the name decides, and it must have the name once.
-/
namespace Desugar.Typing

/-- What a selector stands for. -/
inductive Selected where
  | field (m : Member) (type : Ty)
  /-- A declared method, with the type arguments of its receiver. -/
  | method (id : Nat) (args : List Ty)
  | abstract (m : Member) (type : Ty)
  deriving Inhabited

namespace Selected

def isMethod : Selected → Bool
  | field .. => false
  | _ => true

def word : Selected → String
  | field .. => "field"
  | _ => "method"

end Selected

inductive Search where
  /-- What was found, and whether a pointer leads to it. -/
  | found (s : Selected) (indirect : Bool)
  | ambiguous
  /-- A method of pointers that was asked for on something that has no address. -/
  | needsPointer
  | missing
  deriving Inhabited

def Search.selected? : Search → Option Selected
  | found s _ => some s
  | _ => none

/-- A type on one level of a search. -/
structure Level where
  type : Ty
  indirect : Bool
  /-- Whether it stands on this level more than once. -/
  multiple : Bool

/-- Behind a pointer. -/
def Tables.deref (t : Tables) (ty : Ty) : Ty × Bool :=
  match t.unalias ty with
  | .pointer b => (b, true)
  | _ => (ty, false)

namespace State

/-- Whether names agree, perhaps but for case. -/
def sameName (fold : Bool) (name : String) (package : Nat) (m : Member) : Bool :=
  if fold then name.toLower = m.name.toLower else m.sameName { name, package }

/-- What a name stands for in one type of a level. -/
def matchesAt (s : State) (fold : Bool) (name : String) (package : Nat) (l : Level) : List Selected :=
  let methods : List Selected := match s.tables.unalias l.type with
    | .named id args =>
      (s.tables.namedInfo id).methods.filterMap fun (n, obj) =>
        let o : Obj := (s.objects[obj]?).getD default
        if sameName fold name package { name := n, package := o.package } then
          some (.method obj args)
        else none
    | _ => []
  if !methods.isEmpty then methods.take 1
  else match s.tables.under l.type with
    | .struct fields => fields.filterMap fun (m, ty) =>
      if sameName fold name package m then some (.field m ty) else none
    | .iface .. =>
      let bound := match s.tables.unalias l.type with
        | .param id => (s.tables.paramInfo id).constraint
        | ty => ty
      ((s.tables.typeSet bound).methods.filterMap fun (m, ty) =>
        if sameName fold name package m then some (.abstract m ty) else none).take 1
    | _ => []

/-- The types that a type of a level embeds. -/
def embedded (s : State) (l : Level) : List Level :=
  match s.tables.under l.type with
  | .struct fields => fields.filterMap fun (m, ty) =>
    if !m.embedded then none
    else
      let (base, isPointer) := s.tables.deref ty
      some { type := base, indirect := l.indirect || isPointer, multiple := l.multiple }
  | _ => []

/-- One entry for each type of a level. -/
def consolidate (s : State) (ls : List Level) : List Level :=
  ls.foldl (fun done l =>
    let same (m : Level) : Bool := s.tables.identical l.type m.type
    if done.any same then done.map fun m => if same m then { m with multiple := true } else m
    else done ++ [l]) []

/-- Searches level by level. -/
def searchLevels (s : State) (fold : Bool) (name : String) (package : Nat) (addressable : Bool) :
    (fuel : Nat) → (seen : List Ty) → List Level → Search
  | 0, _, _ => .missing
  | _, _, [] => .missing
  | fuel + 1, seen, levels =>
    let levels := levels.filter fun l => !seen.any (s.tables.identical l.type)
    let here := levels.map fun l => (l, s.matchesAt fold name package l)
    match here.flatMap fun (l, found) => found.map (l, ·) with
    | [] =>
      let named := (levels.map (·.type)).filter s.tables.isNamed
      s.searchLevels fold name package addressable fuel (named ++ seen)
        (s.consolidate (levels.flatMap s.embedded))
    | [(l, found)] =>
      if l.multiple then .ambiguous
      else
        let pointer := match found with
          | .method id _ => ((s.objects[id]?).getD default).hasPointerReceiver
          | _ => false
        if pointer && !l.indirect && !addressable then .needsPointer
        else .found found l.indirect
    | _ => .ambiguous

/-- What a name stands for in a type. -/
def searchType (s : State) (fold : Bool) (name : String) (package : Nat) (addressable : Bool)
    (ty : Ty) : Search :=
  let (base, isPointer) := s.tables.deref ty
  if name = "_" || (isPointer && s.tables.isInterface base) then .missing
  else s.searchLevels fold name package addressable Tables.depthBound []
    [{ type := base, indirect := isPointer, multiple := false }]

/-- What a name stands for in a type; declared pointer types have no methods. -/
def search (s : State) (fold : Bool) (name : String) (package : Nat) (addressable : Bool) (ty : Ty) :
    Search :=
  match s.tables.isNamed ty, s.tables.under ty with
  | true, .pointer b =>
    match s.searchType fold name package false (.pointer b) with
    | .found f indirect => if f.isMethod then .missing else .found f indirect
    | r => r
  | _, _ => s.searchType fold name package addressable ty

end State

/-- The type of a method as it is called, that is, without its receiver. -/
def Judge.methodType (j : Judge) : Selected → Check Ty
  | .field _ ty => return ty
  | .abstract _ ty => return ty
  | .method id args => do
    let ty ← j.typeOf id
    return ty.substParams (← objectAt id).receiverParams args

/-- The name of what was selected, and the package that it belongs to. -/
def Selected.member : Selected → Check Member
  | .field m _ => return m
  | .abstract m _ => return m
  | .method id _ => do
    let o ← objectAt id
    return { name := o.name, package := o.package }

/-- Whether a type points to an interface. -/
def Tables.isInterfacePointer (t : Tables) (ty : Ty) : Bool :=
  match t.under ty with
  | .pointer b => t.isInterface b
  | _ => false

def interfacePointerText (ty : Ty) : Check String := do
  let text ← typeText ty
  match (← tables).under ty with
  | .pointer b =>
    if (← tables).isParam b then
      return s!"type {text} is pointer to type parameter, not type parameter"
    else return s!"type {text} is pointer to interface, not interface"
  | _ => return s!"type {text} is pointer to interface, not interface"

/-- Why a name stands for nothing in a type, given what it stands for but for case. -/
def lookupText (ty : Ty) (name : String) (similar : Option Selected) (inLiteral : Bool) :
    Check String := do
  let text ← typeText ty
  let missing :=
    if inLiteral then s!"unknown field {name} in struct literal of type {text}"
    else s!"type {text} has no field or method {name}"
  match similar with
  | none => return missing
  | some s =>
    let m ← s.member
    let word := if inLiteral then "" else s.word ++ " "
    let tail (w : String) : List Char := w.toList.drop 1
    let misspelled := s!"{missing}, but does have {word}{m.name}"
    if m.package = Tables.ownPackage then return misspelled
    else if isExported m.name then
      return if tail m.name = tail name || isExported name then misspelled else missing
    else if m.name = name then
      return if inLiteral then s!"cannot refer to unexported field {name} in struct literal of type {text}"
        else s!"cannot refer to unexported {word}{name}"
    else if isExported name && tail m.name = tail name then
      return s!"{missing}, but does have unexported {word}{m.name}"
    else return missing

/-- A method with its signature. -/
def methodText (m : Member) (ty : Ty) : Check String := do
  return m.name ++ Tables.dropChars 4 (← typeText ty)

/-- Why a type lacks one of some methods; `none` if it has them all. Without `static`, an interface may
lack methods that its values have. -/
def Judge.missingMethod (j : Judge) (v : Ty) (wanted : List (Member × Ty)) (static : Bool)
    (same : Ty → Ty → Check Bool) : Check (Option String) := do
  let t ← tables
  for (m, want) in wanted do
    if t.isInterface v then
      let bound := match t.unalias v with
        | .param id => (t.paramInfo id).constraint
        | ty => ty
      match (t.typeSet bound).methods.find? (·.1.sameName m) with
      | none => if static then return some s!"(missing method {m.name})"
      | some (f, given) =>
        if !(← same given want) then
          let first ← methodText f given
          let second ← methodText m want
          return some s!"(wrong type for method {m.name})\n\t\thave {first}\n\t\twant {second}"
    else
      match (← get).searchType false m.name m.package false v with
      | .found (.field ..) _ => return some s!"(missing method {m.name})"
      | .found f _ =>
        let given ← j.methodType f
        if !(← same given want) then
          let first ← methodText (← f.member) given
          let second ← methodText m want
          if first = second then return some s!"(wrong type for method {m.name})"
          return some s!"(wrong type for method {m.name})\n\t\thave {first}\n\t\twant {second}"
      | .ambiguous =>
        let text ← typeText v
        return some s!"(ambiguous selector {text}.{m.name})"
      | .needsPointer => return some s!"(method {m.name} has pointer receiver)"
      | .missing =>
        if t.isInterfacePointer v then
          let text ← interfacePointerText v
          return some s!"({text})"
        match ((← get).searchType true m.name m.package false v).selected? with
        | some f =>
          if f.isMethod then
            let similar ← f.member
            if similar.name = m.name then return some s!"(unexported method {m.name})"
            let first ← methodText similar (← j.methodType f)
            let second ← methodText m want
            return some s!"(missing method {m.name})\n\t\thave {first}\n\t\twant {second}"
          else return some s!"(missing method {m.name})"
        | none => return some s!"(missing method {m.name})"
  return none

/-- Whether a term admits a type. -/
def Tables.termAdmits (t : Tables) (x : Term) (v : Ty) : Bool :=
  if x.1 then t.identical (t.under x.2) (t.under v) else t.identical x.2 v

/-- Why a type does not implement an interface or satisfy a constraint; `none` if it does. -/
def Judge.obstacle (j : Judge) (v ty : Ty) (constraint : Bool) : Check (Option String) := do
  let t ← tables
  let vu := t.under v
  let verb := if constraint then "satisfy" else "implement"
  let vText ← typeText v
  let tText ← typeText ty
  if vu.isInvalid || (t.under ty).isInvalid then return none
  match vu with
  | .pointer b => if (t.under b).isInvalid then return none
  | _ => pure ()
  if !t.isInterface ty then
    let detail ← if t.isInterfacePointer ty then interfacePointerText ty
      else pure s!"{tText} is not an interface"
    return some s!"{vText} does not {verb} {tText} ({detail})"
  let set := t.typeSet ty
  if set.methods.isEmpty && !set.comparable && set.terms.isNone then return none
  if set.terms.any (·.isEmpty) then return some s!"cannot {verb} {tText} (empty type set)"
  match ← j.missingMethod v set.methods true identical with
  | some cause => return some s!"{vText} does not {verb} {tText} {cause}"
  | none => pure ()
  let comparability : Option String :=
    let asked := match set.terms with
      | none => set.comparable
      | some ts => ts.all fun x => t.comparableFrom false Tables.depthBound x.2
    if !asked || t.comparableFrom constraint Tables.depthBound v then none
    else some s!"{vText} does not {verb} comparable"
  match set.terms with
  | none => return comparability
  | some terms =>
    let values := match t.unalias v with
      | .param id => (t.typeSet (t.paramInfo id).constraint).terms
      | _ => if t.isInterface v then (t.typeSet v).terms else some [(false, v)]
    let admitted (x : Term) : Bool := terms.any fun y =>
      if x.1 then y.1 && t.identical (t.under x.2) (t.under y.2) else t.termAdmits y x.2
    match values with
    | some vs => if vs.all admitted then return comparability
    | none => pure ()
    if t.isInterface v then return some s!"{vText} does not {verb} {tText}"
    match terms.find? fun y => !y.1 && t.identical y.2 (t.under y.2) && t.termAdmits (true, y.2) v with
    | some y =>
      let alt ← typeText y.2
      return some s!"{vText} does not {verb} {tText} (possibly missing ~ for {alt} in {tText})"
    | none =>
      let u ← typeText (t.under ty)
      return some s!"{vText} does not {verb} {tText} ({vText} missing in {u})"

end Desugar.Typing

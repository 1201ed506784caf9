import Desugar.Proofs.Form.Code
import Desugar.Proofs.Form.MapGrammar
import Desugar.Proofs.Form.Names

/-!
# Numbers behind placeholders

A conditional is emitted as a call of a placeholder whose first argument is its number. All that other
forms do to such a call is to move it or to copy it: they take runs of tokens, none of which ends between
the placeholder and its number, and the code that they put behind a run is no part of a call. So wherever
a placeholder that a conditional has emitted gets to, the number stays behind it.
-/
namespace Desugar

namespace Form

open Invocation

/-- The identifier that conditionals are emitted as calls of. -/
structure IsPlaceholder (t : Token) : Prop where
  kind : t.kind = .identifier
  literal : t.literal = Text.utf8 placeholder

/-- A token of a marker in one of the string literals among some tokens. -/
def Interpolated (source : List Token) (t : Token) : Prop :=
  ∃ literal ∈ source, ∃ gap stop s, Interpolation.parse stop [{ literal with gap }] = .ok s ∧
    ∃ e ∈ s.exprs, ∃ u ∈ e.tokens, u.bare = t.bare

/-- What stands behind a placeholder at a place: a parenthesis and the number that the place is listed
under, from 1 on. If the package that conditions are tested with has that name, it may be a point. -/
inductive Leads (package : String) (places : List Span) (place : Span) : List Token → Prop where
  | number {opener number : Token} {rest : List Token} {n : Nat} (opens : opener.kind = .lparen)
      (kind : number.kind = .int) (literal : number.literal = Text.utf8 (n + 1).repr)
      (here : number.span = place) (listed : places[n]? = some place)
      (other : rest.head?.map Token.kind ≠ some .colon) : Leads package places place (opener :: number :: rest)
  | package {dot : Token} {rest : List Token} (named : package = placeholder) (kind : dot.kind = .period) :
      Leads package places place (dot :: rest)

/-- Every placeholder at one of the places listed leads to the number of its place. -/
def Numbered (package : String) (places : List Span) (source ts : List Token) : Prop :=
  ∀ front t rest, ts = front ++ t :: rest → IsPlaceholder t → t.span ∈ places → ¬ Interpolated source t →
    Leads package places t.span rest

/-- The last token is no number of a conditional. -/
def Settled (places : List Span) (ts : List Token) : Prop :=
  ∀ t ∈ ts.getLast?, t.kind = .int → t.span ∉ places

/-- Tokens before which no call of a placeholder is cut off. -/
def Severs (ts : List Token) : Prop :=
  ∀ t rest, ts = t :: rest → t.kind ≠ .period ∧ t.kind ≠ .lparen ∧
    (t.kind = .int → rest.head?.map Token.kind = some .colon)

variable {package : String} {places : List Span} {source ts us front rest : List Token} {t : Token}

/-! ## Runs of tokens -/

theorem numbered_cons : Numbered package places source (t :: ts) ↔
    (IsPlaceholder t → t.span ∈ places → ¬ Interpolated source t → Leads package places t.span ts) ∧
      Numbered package places source ts := by
  constructor
  · intro h
    exact ⟨h [] t ts rfl, fun front u rest same => h (t :: front) u rest (by rw [same]; rfl)⟩
  · rintro ⟨here, later⟩ front u rest same
    cases front with
    | nil =>
      obtain ⟨rfl, rfl⟩ := List.cons.inj same
      exact here
    | cons _ front => exact later front u rest (List.cons.inj same).2

theorem numbered_nil : Numbered package places source [] := fun front _ _ same => by
  cases front <;> cases same

theorem numbered_of_forall (other : ∀ t ∈ ts, IsPlaceholder t → t.span ∈ places → Interpolated source t) :
    Numbered package places source ts := by
  rintro front t rest rfl isPlaceholder member apart
  exact absurd (other t (by simp) isPlaceholder member) apart

theorem Numbered.suffix (h : Numbered package places source (front ++ ts)) : Numbered package places source ts := by
  rintro pre t rest rfl
  exact h (front ++ pre) t rest (by simp)

theorem Leads.append {place : Span} (h : Leads package places place ts) (member : place ∈ places)
    (meets : Settled places ts ∨ us.head?.map Token.kind ≠ some .colon) :
    Leads package places place (ts ++ us) := by
  cases h with
  | package named kind => exact .package named kind
  | @number opener number rest n opens kind literal here listed other =>
    refine .number opens kind literal here listed ?_
    cases rest with
    | cons t rest => exact other
    | nil =>
      rcases meets with settled | apart
      · exact absurd (here ▸ member) (settled number rfl kind)
      · exact apart

theorem Settled.tail (h : Settled places (t :: ts)) : Settled places ts := by
  intro u last
  refine h u ?_
  rw [List.getLast?_cons, Option.mem_def.mp last]
  rfl

/-- Runs can be put together if no number of a conditional gets a colon behind it. -/
theorem Numbered.append (h : Numbered package places source ts) (h' : Numbered package places source us)
    (meets : Settled places ts ∨ us.head?.map Token.kind ≠ some .colon) :
    Numbered package places source (ts ++ us) := by
  induction ts with
  | nil => exact h'
  | cons t ts ih =>
    obtain ⟨here, later⟩ := numbered_cons.mp h
    have meets := meets.imp_left Settled.tail
    refine numbered_cons.mpr ⟨fun isPlaceholder member apart => ?_, ih later meets⟩
    exact (here isPlaceholder member apart).append member meets

theorem Leads.cut {place : Span} (h : Leads package places place (us ++ rest)) (severs : Severs rest) :
    Leads package places place us := by
  generalize whole : us ++ rest = all at h
  cases h with
  | package named kind =>
    cases us with
    | nil => exact absurd kind (severs _ _ whole).1
    | cons t us =>
      obtain ⟨rfl, -⟩ := List.cons.inj whole
      exact .package named kind
  | @number opener number behind n opens kind literal here listed other =>
    rcases us with _ | ⟨t, _ | ⟨u, us⟩⟩
    · exact absurd opens (severs _ _ whole).2.1
    · obtain ⟨-, whole⟩ := List.cons.inj whole
      exact absurd ((severs _ _ whole).2.2 kind) other
    · obtain ⟨rfl, behind⟩ := List.cons.inj whole
      obtain ⟨rfl, rfl⟩ := List.cons.inj behind
      refine .number opens kind literal here listed ?_
      cases us with
      | nil => simp
      | cons v us => exact other

/-- A run before which and behind which no call is cut off. -/
theorem Numbered.cut (h : Numbered package places source (front ++ (us ++ rest))) (severs : Severs rest) :
    Numbered package places source us := by
  rintro pre t behind rfl isPlaceholder member apart
  exact (h (front ++ pre) t (behind ++ rest) (by simp) isPlaceholder member apart).cut severs

theorem severs_nil : Severs [] := by simp [Severs]

theorem severs_cons (kind : t.kind ∉ [.period, .lparen, .int]) : Severs (t :: rest) := by
  rintro u behind same
  obtain ⟨rfl, rfl⟩ := List.cons.inj same
  simp only [List.mem_cons, List.not_mem_nil, or_false, not_or] at kind
  exact ⟨kind.1, kind.2.1, fun int => absurd int kind.2.2⟩

/-! Blanks are of no account. -/

theorem Leads.congr {place : Span} (h : Leads package places place ts) (same : us.map Token.bare = ts.map Token.bare) :
    Leads package places place us := by
  cases h with
  | package named kind =>
    obtain ⟨dot, us, rfl, alike, -⟩ := List.map_eq_cons_iff.mp same
    exact .package named ((kind_eq_of_bare alike).1.trans kind)
  | number opens kind literal here listed other =>
    obtain ⟨opener', us, rfl, alike, same⟩ := List.map_eq_cons_iff.mp same
    obtain ⟨number', us, rfl, alike', same⟩ := List.map_eq_cons_iff.mp same
    obtain ⟨kind', literal', span'⟩ := kind_eq_of_bare alike'
    refine .number ((kind_eq_of_bare alike).1.trans opens) (kind'.trans kind) (literal'.trans literal)
      (span'.trans here) listed ?_
    have kinds := congrArg (List.map Token.kind) same
    rw [List.map_map, List.map_map] at kinds
    rw [← List.head?_map] at other ⊢
    exact (congrArg List.head? kinds).trans_ne other

theorem Numbered.congr (h : Numbered package places source ts) (same : us.map Token.bare = ts.map Token.bare) :
    Numbered package places source us := by
  rintro front t rest rfl isPlaceholder member apart
  rw [List.map_append, List.map_cons] at same
  obtain ⟨front', behind, rfl, -, alike⟩ := List.map_eq_append_iff.mp same.symm
  obtain ⟨t', rest', rfl, token, alike⟩ := List.map_eq_cons_iff.mp alike
  obtain ⟨kind, literal, span⟩ := kind_eq_of_bare token
  have leads := h front' t' rest' rfl ⟨kind.trans isPlaceholder.kind, literal.trans isPlaceholder.literal⟩
    (span ▸ member) (by simpa only [Interpolated, token] using apart)
  exact (span ▸ leads).congr alike.symm

theorem getLast?_of_bare (same : us.map Token.bare = ts.map Token.bare) (last : t ∈ us.getLast?) :
    ∃ u ∈ ts.getLast?, u.bare = t.bare := by
  have lasts := congrArg List.getLast? same
  rw [List.getLast?_map, List.getLast?_map, Option.mem_def.mp last] at lasts
  exact Option.map_eq_some_iff.mp lasts.symm

theorem Settled.congr (h : Settled places ts) (same : us.map Token.bare = ts.map Token.bare) :
    Settled places us := by
  intro u last
  obtain ⟨t, found, alike⟩ := getLast?_of_bare same last
  obtain ⟨kind, -, span⟩ := kind_eq_of_bare alike
  rw [← kind, ← span]
  exact h t found

/-! ## What grammars take -/

theorem Numbered.of_infix (h : Numbered package places source ts) {word : List Token} (part : word <:+: ts) :
    ∃ rest, Numbered package places source (word ++ rest) := by
  obtain ⟨front, rest, rfl⟩ := part
  rw [List.append_assoc] at h
  exact ⟨rest, h.suffix⟩

theorem Enclosed.numbered {word : List Token} (enclosed : Enclosed us word) (part : word <:+: ts)
    (h : Numbered package places source ts) : Numbered package places source us := by
  obtain ⟨rest, h⟩ := h.of_infix part
  cases enclosed with
  | @intro opener closer opens closes nested =>
    have h : Numbered package places source ([opener] ++ (us ++ (closer :: rest))) := by simpa using h
    exact h.cut (severs_cons (by rw [closes]; decide))

theorem Conditional.Written.numbered {e : Conditional} (written : e.Written ts)
    (h : Numbered package places source ts) : Numbered package places source e.condition.tokens ∧
      Numbered package places source e.result.tokens ∧ Numbered package places source e.alternative.tokens := by
  cases written with
  | @intro sign condition result alternative question colon negation first mark second separator third =>
    refine ⟨first.enclosed.numbered ⟨sign, question :: (result ++ colon :: alternative), by simp⟩ h,
      second.enclosed.numbered ⟨sign ++ (condition ++ [question]), colon :: alternative, by simp⟩ h,
      third.enclosed.numbered ⟨sign ++ (condition ++ question :: (result ++ [colon])), [], by simp⟩ h⟩

theorem Elvis.Written.numbered {e : Elvis} (written : e.Written ts) (h : Numbered package places source ts) :
    Numbered package places source e.condition.tokens ∧ Numbered package places source e.alternative.tokens := by
  cases written with
  | @intro sign condition alternative operator negation first mark second =>
    exact ⟨first.enclosed.numbered ⟨sign, operator :: alternative, by simp⟩ h,
      second.enclosed.numbered ⟨sign ++ (condition ++ [operator]), [], by simp⟩ h⟩

theorem ElvisAssign.Written.numbered {e : ElvisAssign} (written : e.Written ts)
    (h : Numbered package places source ts) : Numbered package places source [e.target] ∧
      Numbered package places source e.alternative.tokens := by
  cases written with
  | @intro sign name alternative operator negation first target mark second =>
    exact ⟨first.numbered ⟨sign, operator :: alternative, by simp⟩ h,
      second.enclosed.numbered ⟨sign ++ (name ++ [operator]), [], by simp⟩ h⟩

theorem IncDec.Written.numbered {e : IncDec} (written : e.Written ts) (h : Numbered package places source ts) :
    Numbered package places source [e.name] := by
  cases written with
  | @intro operator target mark =>
    have h : Numbered package places source ([] ++ ([e.name] ++ [operator])) := h
    refine h.cut (severs_cons ?_)
    rw [mark]
    split <;> decide

theorem Spread.Written.numbered {e : Spread} (written : e.Written ts) (h : Numbered package places source ts) :
    Numbered package places source e.iterable.tokens := by
  cases written with
  | @intro iterable fields first behind => exact first.enclosed.numbered ⟨[], fields, rfl⟩ h

theorem Fields.behind {fields word : List Token} (shape : Fields fields word) :
    ∀ f ∈ fields, ∃ front rest, word = front ++ f :: rest ∧ ∀ t ∈ rest.head?, t.kind = .spreadDot := by
  induction shape with
  | nil => exact List.forall_mem_nil _
  | @cons dot field fields ts mark kind later ih =>
    refine List.forall_mem_cons.mpr ⟨⟨[dot], ts, rfl, ?_⟩, fun f member => ?_⟩
    · cases later with
      | nil => simp
      | cons mark' kind' later' => simpa using mark'
    · obtain ⟨front, rest, rfl, behind⟩ := ih f member
      exact ⟨dot :: field :: front, rest, rfl, behind⟩

/-- No field is the placeholder of a conditional, since behind that a parenthesis or a point stands. -/
theorem Spread.Written.interpolated {e : Spread} (written : e.Written ts) (h : Numbered package places source ts) :
    ∀ f ∈ e.fields, IsPlaceholder f → f.span ∈ places → Interpolated source f := by
  intro f member isPlaceholder place
  by_contra own
  cases written with
  | @intro iterable fields first shape =>
    obtain ⟨front, rest, rfl, behind⟩ := shape.behind f member
    have leads := h (iterable ++ front) f rest (List.append_assoc ..).symm isPlaceholder place own
    cases leads with
    | package named kind =>
      rw [behind _ rfl] at kind
      cases kind
    | number opens =>
      rw [behind _ rfl] at opens
      cases opens

theorem MapEntry.Written.numbered {e : MapEntry} {word : List Token} (written : e.Written word)
    (h : Numbered package places source (word ++ rest)) (severs : Severs rest) :
    Numbered package places source [e.key] ∧ Numbered package places source e.value.tokens := by
  cases written with
  | @intro colon key mark =>
    have first : Numbered package places source ([] ++ ([e.key] ++ (colon :: (e.value.tokens ++ rest)))) := h
    have second : Numbered package places source ([e.key, colon] ++ (e.value.tokens ++ rest)) := h
    exact ⟨first.cut (severs_cons (by rw [mark]; decide)), second.cut severs⟩

theorem Entries.numbered {es : List MapEntry} {word : List Token} (listed : Entries es word)
    (h : Numbered package places source (word ++ rest)) (severs : Severs rest) :
    ∀ e ∈ es, Numbered package places source [e.key] ∧ Numbered package places source e.value.tokens := by
  have comma {t : Token} (mark : t.kind = .comma) (behind : List Token) : Severs (t :: behind) :=
    severs_cons (by rw [mark]; decide)
  induction listed with
  | last written => exact List.forall_mem_singleton.mpr (written.numbered h severs)
  | @closed e word mark written isComma =>
    rw [List.append_assoc] at h
    exact List.forall_mem_singleton.mpr (written.numbered h (comma isComma rest))
  | @cons e es word behind mark written isComma _ ih =>
    rw [List.append_assoc] at h
    refine List.forall_mem_cons.mpr ⟨written.numbered h (comma isComma _), ih ?_⟩
    have later : Numbered package places source ((word ++ [mark]) ++ (behind ++ rest)) := by simpa using h
    exact later.suffix

/-- A map type ends before a key that a colon follows, so behind a parenthesis it ends before no number. -/
theorem Listing.severs {es : List MapEntry} {word : List Token} (listed : Listing es word)
    (severs : Severs rest) : Severs (word ++ rest) := by
  cases listed with
  | nothing => exact severs
  | colon kind => exact severs_cons (by rw [kind]; decide)
  | entries listed =>
    obtain ⟨key, colon, us, k, rfl, kind, mark⟩ := listed.head
    rintro t behind same
    obtain ⟨rfl, rfl⟩ := List.cons.inj same
    refine ⟨?_, ?_, fun _ => congrArg some mark⟩
    · rintro period
      simp [keyKind?, Token.isLiteral, period, TokenKind.isLiteral] at kind
    · rintro lparen
      simp [keyKind?, Token.isLiteral, lparen, TokenKind.isLiteral] at kind

theorem MapLiteral.Composes.numbered {m : MapLiteral} (composes : m.Composes ts)
    (h : Numbered package places source ts) : (∀ t ∈ m.type, Numbered package places source t.tokens) ∧
      ∀ e ∈ m.entries, Numbered package places source [e.key] ∧
        Numbered package places source e.value.tokens := by
  obtain ⟨listed, whole⟩ := composes
  rename_i listing
  obtain ⟨front, rest, rfl, severs⟩ : ∃ front rest, ts = front ++ (m.typeTokens ++ (listing ++ rest)) ∧
      Severs rest := by
    cases whole with
    | bare => exact ⟨[], [], by simp, severs_nil⟩
    | @within opener closer opens closes =>
      exact ⟨[opener], [closer], by simp, severs_cons (by rw [closes]; decide)⟩
  constructor
  · intro t type
    have typed : m.typeTokens = t.tokens := by rw [MapLiteral.typeTokens, Option.mem_def.mp type]; rfl
    exact typed ▸ h.cut (listed.severs severs)
  · generalize m.entries = es at listed
    cases listed with
    | nothing => simp
    | colon => simp
    | entries listed => exact listed.numbered h.suffix.suffix severs

end Form
end Desugar

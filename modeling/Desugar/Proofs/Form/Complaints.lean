import Desugar.Proofs.Diagnostic
import Desugar.Proofs.Form.Parts

/-!
# Complaints of forms

Whatever fails does so with diagnostics: a form that fails names at least one mistake, and each that it names
is one in the body of its invocation, not one of the expansion. So a collection of complaints is empty only if
nothing has failed.
-/
namespace Desugar

/-- What fails does so with diagnostics. -/
def Reports {α : Type} (x : Except Failure α) : Prop := ∀ f, x = .error f → f.toDiagnostics ≠ []

namespace Reports

variable {α : Type}

theorem ok (a : α) : Reports (.ok a) := by
  rintro f ⟨⟩

theorem diagnostic (d : Diagnostic) : Reports (.error (.diagnostic d) : Except Failure α) := by
  rintro f ⟨⟩
  simp [Failure.toDiagnostics, Failure.diagnostics?]

theorem collected {ds : List Diagnostic} {f : Failure} (found : Failure.ofDiagnostics ds = some f) :
    Reports (.error f : Except Failure α) := by
  obtain ⟨any, rfl⟩ := Failure.ofDiagnostics_eq_some_iff.mp found
  rintro f ⟨⟩
  simpa [Failure.toDiagnostics, Failure.diagnostics?] using Failure.sort_ne_nil any

end Reports

/-- What fails names mistakes, none of which is about the expansion. -/
def Complains {α : Type} (x : Except Failure α) : Prop :=
  ∀ f, x = .error f → f.toDiagnostics ≠ [] ∧ ∀ d ∈ f.toDiagnostics, d.category ≠ .expansion

namespace Complains

variable {α β : Type}

theorem reports {x : Except Failure α} (complains : Complains x) : Reports x :=
  fun f failed => (complains f failed).1

theorem ok (a : α) : Complains (.ok a) := by
  rintro f ⟨⟩

theorem diagnostic {d : Diagnostic} (other : (d.category == .expansion) = false) :
    Complains (.error (.diagnostic d) : Except Failure α) := by
  rintro f ⟨⟩
  simpa [Failure.toDiagnostics, Failure.diagnostics?] using other

theorem collected {ds : List Diagnostic} {f : Failure} (found : Failure.ofDiagnostics ds = some f)
    (other : ∀ d ∈ ds, d.category ≠ .expansion) : Complains (.error f : Except Failure α) := by
  obtain ⟨any, rfl⟩ := Failure.ofDiagnostics_eq_some_iff.mp found
  rintro f ⟨⟩
  refine ⟨Failure.sort_ne_nil any, fun d member => other d ?_⟩
  exact (Diagnostic.sort_stable ds).1.mem_iff.mp member

theorem bind {x : Except Failure α} {f : α → Except Failure β} (first : Complains x)
    (second : ∀ a, Complains (f a)) : Complains (x >>= f) := by
  cases x with
  | error e =>
    rintro _ ⟨⟩
    exact first e rfl
  | ok a => exact second a

theorem map {x : Except Failure α} (h : Complains x) (f : α → β) : Complains (x.map f) := by
  cases x with
  | error e =>
    rintro _ ⟨⟩
    exact h e rfl
  | ok a => exact .ok _

end Complains

/-- A mistake that is found in tokens is not about the expansion. -/
def Misplaced {α : Type} (x : Except Diagnostic α) : Prop := ∀ d, x = .error d → d.category ≠ .expansion

namespace Cursor

theorem expected_category (span : Span) (want got : String) :
    (Diagnostic.expected span want got).category ≠ .expansion := nofun

theorem expect_misplaced (c : Cursor) (k : TokenKind) : Misplaced (c.expect k) := by
  unfold expect
  dsimp only
  split
  · rintro d ⟨⟩
  · rintro d ⟨⟩
    exact expected_category _ _ _

theorem expectEnd_misplaced (c : Cursor) : Misplaced c.expectEnd := by
  unfold expectEnd
  dsimp only
  split
  · rintro d ⟨⟩
  · rintro d ⟨⟩
    exact expected_category _ _ _

theorem groupBody_misplaced (closer : TokenKind) (stop : Span) (open_ : List TokenKind)
    (inner ts : List Token) : Misplaced (groupBody closer stop open_ inner ts).1 := by
  fun_induction groupBody closer stop open_ inner ts with
  | case1 | case4 | case6 =>
    rintro d ⟨⟩
    exact expected_category _ _ _
  | case3 => rintro d ⟨⟩
  | case2 _ _ _ _ _ _ ih | case5 _ _ _ _ _ _ ih | case7 _ _ _ _ _ _ ih => exact ih

theorem group_misplaced (c : Cursor) (k : TokenKind) : Misplaced (c.group k).inner := by
  unfold group
  have opening := expect_misplaced c k
  cases first : c.expect k with
  | error d =>
    rintro _ ⟨⟩
    exact opening d first
  | ok read => exact groupBody_misplaced _ _ _ _ _

end Cursor

theorem Lexer.lexAt_complains (o : Origin) (text : Bytes) : Complains (lexAt o text) := by
  unfold lexAt
  dsimp only
  split
  · rename_i found
    refine .collected found fun d member => ?_
    obtain ⟨fault, -, shown⟩ := List.mem_filterMap.mp member
    unfold diagnostic? at shown
    split at shown
    · cases shown
    · obtain rfl := Option.some.inj shown
      exact nofun
  · exact .ok _

namespace Form

variable (ts : List Token) (stop place : Span) (c : Cursor)

theorem lift_complains {α : Type} {x : Except Diagnostic α} (misplaced : Misplaced x) :
    Complains (lift x) := by
  cases x with
  | error d => exact .diagnostic (beq_eq_false_iff_ne.mpr (misplaced d rfl))
  | ok a => exact .ok a

theorem expect_complains (k : TokenKind) : Complains (lift (c.expect k)) :=
  lift_complains (c.expect_misplaced k)

theorem expectEnd_complains : Complains (lift c.expectEnd) := lift_complains c.expectEnd_misplaced

theorem group_complains (k : TokenKind) : Complains (lift (c.group k).inner) :=
  lift_complains (c.group_misplaced k)

theorem parseExpression_complains : Complains (parseExpression ts place) := by
  unfold parseExpression
  split
  · exact .diagnostic rfl
  · split
    · exact .ok _
    · exact .diagnostic rfl
    · exact .diagnostic rfl

theorem parseIdentifier_complains : Complains (parseIdentifier ts place) := by
  unfold parseIdentifier
  split
  · exact .diagnostic rfl
  · dsimp only
    split
    · exact .diagnostic rfl
    · split
      · exact .diagnostic rfl
      · split
        · exact .diagnostic rfl
        · exact .ok _

theorem parenthesized_complains : Complains (parenthesized c) := by
  refine (group_complains _ _).bind fun inner => ?_
  exact (parseExpression_complains _ _).bind fun e => .ok _

theorem Conditional.parse_complains : Complains (Conditional.parse stop ts) := by
  refine (parenthesized_complains _).bind fun _ => (expect_complains _ _).bind fun _ => ?_
  refine (parenthesized_complains _).bind fun _ => (expect_complains _ _).bind fun _ => ?_
  exact (parenthesized_complains _).bind fun _ => (expectEnd_complains _).bind fun _ => .ok _

theorem Elvis.parse_complains : Complains (Elvis.parse stop ts) := by
  refine (parenthesized_complains _).bind fun _ => (expect_complains _ _).bind fun _ => ?_
  exact (parenthesized_complains _).bind fun _ => (expectEnd_complains _).bind fun _ => .ok _

theorem ElvisAssign.parse_complains : Complains (ElvisAssign.parse stop ts) := by
  refine (group_complains _ _).bind fun _ => (parseIdentifier_complains _ _).bind fun _ => ?_
  refine (expect_complains _ _).bind fun _ => (parenthesized_complains _).bind fun _ => ?_
  exact (expectEnd_complains _).bind fun _ => .ok _

theorem IncDec.parse_complains : Complains (IncDec.parse stop ts) := by
  refine (parseIdentifier_complains _ _).bind fun name => ?_
  dsimp only
  split
  · exact (expectEnd_complains _).bind fun _ => .ok _
  · exact (expectEnd_complains _).bind fun _ => .ok _
  · exact .diagnostic rfl

theorem Truthiness.parse_complains : Complains (Truthiness.parse stop ts) :=
  (parseExpression_complains ts stop).map _

theorem parseMapType_complains : Complains (parseMapType c) := by
  refine (group_complains _ _).bind fun _ => ?_
  exact (parseExpression_complains _ _).bind fun _ => .ok _

theorem parseEntries_complains : Complains (parseEntries stop ts) := by
  fun_induction parseEntries stop ts with
  | case1 => exact .ok _
  | case2 => exact .diagnostic rfl
  | case3 key rest kind known ih =>
    refine (expect_complains _ _).bind fun _ => (parseExpression_complains _ _).bind fun _ => ?_
    exact ih.bind fun _ => .ok _

theorem listing_complains (type : Option Expression) : Complains (listing stop type ts) := by
  unfold listing
  split
  · exact .ok _
  · split
    · exact .ok _
    · exact (parseEntries_complains _ _).bind fun _ => .ok _
  · exact (parseEntries_complains _ _).bind fun _ => .ok _

theorem MapLiteral.parse_complains : Complains (MapLiteral.parse stop ts) := by
  rw [MapLiteral.parse_eq]
  dsimp only
  split
  · exact (parseMapType_complains _).bind fun typed => listing_complains _ _ _
  · exact listing_complains _ _ _

theorem parseFields_complains : Complains (parseFields stop ts) := by
  fun_induction parseFields stop ts with
  | case1 => exact .ok _
  | case2 => exact .diagnostic rfl
  | case3 _ _ _ _ _ ih => exact ih.bind fun _ => .ok _
  | case4 => exact .diagnostic rfl
  | case5 => exact .ok _

theorem Spread.parse_complains : Complains (Spread.parse stop ts) := by
  refine (parenthesized_complains _).bind fun _ => (parseFields_complains _ _).bind fun _ => ?_
  exact (expectEnd_complains _).bind fun _ => .ok _

variable (literal : Token) (exact : Bool) (offset : Nat)

theorem checkText_complains (text : Bytes) : Complains (checkText literal exact offset text) := by
  unfold checkText
  split
  · exact .ok _
  · dsimp only
    split
    · exact .diagnostic rfl
    · exact .diagnostic rfl

theorem parseMarker_complains (body : Bytes) : Complains (parseMarker literal exact offset body) := by
  refine (Lexer.lexAt_complains _ _).bind fun tokens => ?_
  dsimp only
  split
  · exact .diagnostic rfl
  · exact parseExpression_complains _ _

theorem parsePieces_complains (ps : List Piece) : Complains (parsePieces literal exact offset ps) := by
  induction ps generalizing offset with
  | nil => exact .ok _
  | cons p ps ih =>
    cases p with
    | text bytes =>
      refine (checkText_complains _ _ _ _).bind fun _ => ?_
      exact (ih _).bind fun _ => .ok _
    | marker body =>
      refine (parseMarker_complains _ _ _ _).bind fun _ => ?_
      exact (ih _).bind fun _ => .ok _

theorem Interpolation.parse_complains : Complains (Interpolation.parse stop ts) := by
  unfold Interpolation.parse
  dsimp only
  split
  · exact .diagnostic rfl
  · refine (expectEnd_complains _).bind fun _ => ?_
    split
    · exact .diagnostic rfl
    · exact (parsePieces_complains _ _ _ _).bind fun _ => .ok _

/-- A form that fails names mistakes in the body of its invocation. -/
theorem transform_complains {f : Form} (known : f ∈ builtins) (ctx : Context) :
    Complains (f.transform ctx ts) := by
  simp only [builtins, List.mem_cons, List.not_mem_nil, or_false] at known
  rcases known with rfl | rfl | rfl | rfl | rfl | rfl | rfl | rfl | rfl
  · exact (Conditional.parse_complains _ _).map _
  · exact (Elvis.parse_complains _ _).map _
  · exact (ElvisAssign.parse_complains _ _).map _
  · exact (IncDec.parse_complains _ _).map _
  · exact (MapLiteral.parse_complains _ _).map _
  · exact (MapLiteral.parse_complains _ _).map _
  · exact (Spread.parse_complains _ _).map _
  · exact (Interpolation.parse_complains _ _).map _
  · exact (Truthiness.parse_complains _ _).map _

end Form
end Desugar

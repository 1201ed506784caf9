import Mathlib
import Desugar.Proofs.Host.Operands

/-!
# No operand behind a name: statements

Statements and declarations keep the faults that they find. Each ends behind its line, where any
operand may start.
-/
namespace Desugar.Host.Parse

open Std.Do

set_option mvcgen.warning false

@[grind →]
theorem isAssignment_other {k : Kind} (h : isAssignment k = true) : k ≠ .not ∧ k.isName = false := by
  cases k <;> first | exact ⟨by decide, rfl⟩ | cases h

variable [src : Source] (self : Self) [Steady self]

@[spec]
theorem simpleStmt_spec (setting : Setting) :
    ⦃fun s => ⌜Settled s⌝⦄ simpleStmt self setting
    ⦃⇓? r t => ⌜Sound t ∧ ∀ label colon stmt, r.1 = .labeled label colon stmt → Settled t⌝⦄ := by
  mvcgen [simpleStmt] with grind -ring -linarith

@[spec]
theorem callOf_spec (word : String) :
    ⦃fun s => ⌜Settled s⌝⦄ callOf self word ⦃⇓? _ t => ⌜Sound t⌝⦄ := by
  mvcgen [callOf] with grind -ring -linarith

@[spec]
theorem goStmt_spec : ⦃fun s => ⌜Sound s⌝⦄ goStmt self ⦃⇓? _ t => ⌜Settled t⌝⦄ := by
  mvcgen [goStmt] with grind -ring -linarith

@[spec]
theorem deferStmt_spec : ⦃fun s => ⌜Sound s⌝⦄ deferStmt self ⦃⇓? _ t => ⌜Settled t⌝⦄ := by
  mvcgen [deferStmt] with grind -ring -linarith

@[spec]
theorem returnStmt_spec : ⦃fun s => ⌜Sound s⌝⦄ returnStmt self ⦃⇓? _ t => ⌜Settled t⌝⦄ := by
  mvcgen [returnStmt] with grind -ring -linarith

omit [Steady self] in
@[spec]
theorem branchStmt_spec (k : Kind) (other : k ≠ .not) :
    ⦃fun s => ⌜Sound s⌝⦄ branchStmt k ⦃⇓? _ t => ⌜Settled t⌝⦄ := by
  mvcgen [branchStmt] with grind -ring -linarith

omit src [Steady self] in
/-- A statement is asked for its expression without another lexeme taken. -/
@[spec]
theorem exprOf_spec (s : Option Stmt) (want : String) (s₀ : State) :
    ⦃fun s => ⌜s = s₀⌝⦄ exprOf s want ⦃⇓? _ t => ⌜t = s₀ ∨ t.errors ≠ []⌝⦄ := by
  mvcgen [exprOf] with grind -ring -linarith

@[spec]
theorem ifHeader_spec : ⦃fun s => ⌜Settled s⌝⦄ ifHeader self ⦃⇓? _ t => ⌜Sound t⌝⦄ := by
  mvcgen [ifHeader] with grind -ring -linarith

@[spec]
theorem ifGoal_spec : ⦃fun s => ⌜Sound s⌝⦄ ifGoal self ⦃⇓? _ t => ⌜Settled t⌝⦄ := by
  mvcgen [ifGoal] with grind -ring -linarith

@[spec]
theorem stmtList_spec : ⦃fun s => ⌜Settled s⌝⦄ stmtList self ⦃⇓? _ t => ⌜Settled t⌝⦄ := by
  mvcgen [stmtList]
  invariants
  · ⇓? _ s => ⌜Settled s⌝

theorem blockGoal_spec : ⦃fun s => ⌜Sound s⌝⦄ blockGoal self ⦃⇓? _ t => ⌜Sound t⌝⦄ := by
  mvcgen [blockGoal] with grind -ring -linarith

@[spec]
theorem caseClause_spec : ⦃fun s => ⌜Sound s⌝⦄ caseClause self ⦃⇓? _ t => ⌜Settled t⌝⦄ := by
  mvcgen [caseClause] with grind -ring -linarith

@[spec]
theorem clauses_spec {clause : Parse Stmt} (h : ⦃fun s => ⌜Sound s⌝⦄ clause ⦃⇓? _ t => ⌜Settled t⌝⦄) :
    ⦃fun s => ⌜Sound s⌝⦄ clauses clause ⦃⇓? _ t => ⌜Settled t⌝⦄ := by
  mvcgen [clauses, h]
  invariants
  · ⇓? _ s => ⌜Settled s⌝
  with grind -ring -linarith

omit [Steady self] in
@[spec]
theorem isTypeGuard_spec (s : Stmt) :
    ⦃fun s => ⌜Sound s⌝⦄ isTypeGuard s ⦃⇓? _ t => ⌜Sound t⌝⦄ := by
  mvcgen [isTypeGuard] with grind -ring -linarith

@[spec]
theorem switchStmt_spec : ⦃fun s => ⌜Sound s⌝⦄ switchStmt self ⦃⇓? _ t => ⌜Settled t⌝⦄ := by
  mvcgen [switchStmt] with grind -ring -linarith

@[spec]
theorem commClause_spec : ⦃fun s => ⌜Sound s⌝⦄ commClause self ⦃⇓? _ t => ⌜Settled t⌝⦄ := by
  mvcgen [commClause] with grind -ring -linarith

@[spec]
theorem selectStmt_spec : ⦃fun s => ⌜Sound s⌝⦄ selectStmt self ⦃⇓? _ t => ⌜Settled t⌝⦄ := by
  mvcgen [selectStmt] with grind -ring -linarith

@[spec]
theorem forHeader_spec : ⦃fun s => ⌜Settled s⌝⦄ forHeader self ⦃⇓? _ t => ⌜Sound t⌝⦄ := by
  mvcgen [forHeader] with grind -ring -linarith

@[spec]
theorem forStmt_spec : ⦃fun s => ⌜Sound s⌝⦄ forStmt self ⦃⇓? _ t => ⌜Settled t⌝⦄ := by
  mvcgen [forStmt] with grind -ring -linarith

/-! ## Declarations -/

omit [Steady self] in
@[spec]
theorem importSpec_spec (doc : Option CommentGroup) :
    ⦃fun s => ⌜Settled s⌝⦄ importSpec doc ⦃⇓? _ t => ⌜Settled t⌝⦄ := by
  mvcgen [importSpec] with grind -ring -linarith

@[spec]
theorem valueSpec_spec (keyword : Kind) (doc : Option CommentGroup) :
    ⦃fun s => ⌜Settled s⌝⦄ valueSpec self keyword doc ⦃⇓? _ t => ⌜Settled t⌝⦄ := by
  mvcgen [valueSpec] with grind -ring -linarith

@[spec]
theorem aliasOrType_spec : ⦃fun s => ⌜Sound s⌝⦄ aliasOrType self ⦃⇓? _ t => ⌜Sound t⌝⦄ := by
  mvcgen [aliasOrType] with grind -ring -linarith

@[spec]
theorem typeSpec_spec (doc : Option CommentGroup) :
    ⦃fun s => ⌜Settled s⌝⦄ typeSpec self doc ⦃⇓? _ t => ⌜Settled t⌝⦄ := by
  mvcgen [typeSpec] with grind -ring -linarith

omit [Steady self] in
/-- A declaration passes its keyword. -/
@[spec]
theorem genDecl_spec (keyword : Kind) (other : keyword.isName = false)
    {spec : Option CommentGroup → Parse Spec}
    (h : ∀ doc, ⦃fun s => ⌜Settled s⌝⦄ spec doc ⦃⇓? _ t => ⌜Settled t⌝⦄) :
    ⦃fun s => ⌜Due s ∧ s.kind = keyword⌝⦄ genDecl keyword spec ⦃⇓? _ t => ⌜Settled t⌝⦄ := by
  mvcgen [genDecl, expect, h, -expect_spec]
  invariants
  · ⇓? _ s => ⌜Settled s⌝
  · ⇓? _ s => ⌜Settled s⌝
  with grind -ring -linarith

@[spec]
theorem funcDecl_spec :
    ⦃fun s => ⌜Due s ∧ s.kind = .kwFunc⌝⦄ funcDecl self ⦃⇓? _ t => ⌜Settled t⌝⦄ := by
  mvcgen [funcDecl, expect, -expect_spec] with grind -ring -linarith

@[spec]
theorem decl_spec (sync : Kind → Bool) :
    ⦃fun s => ⌜Due s⌝⦄ decl self sync ⦃⇓? _ t => ⌜Settled t⌝⦄ := by
  mvcgen [decl] with grind -ring -linarith

theorem stmtGoal_spec : ⦃fun s => ⌜Settled s⌝⦄ stmtGoal self ⦃⇓? _ t => ⌜Settled t⌝⦄ := by
  mvcgen [stmtGoal] with grind -ring -linarith

/-! ## The grammar -/

/-- One level more keeps the grammar as it should be: by cases on the production. -/
theorem steady_grammar : Steady (grammar self) where
  spec
    | .binary least => triple_iff.mpr fun s x t ⟨settled, binds⟩ gives =>
      triple_iff.mp (binary_spec self none least binds) s x t ⟨settled.sound, fun _ => settled⟩ gives
    | .unary => unaryGoal_spec self
    | .type => typeGoal_spec self
    | .block => blockGoal_spec self
    | .stmt => stmtGoal_spec self
    | .ifThen => ifGoal_spec self
    | .literalValue t => literalValue_spec self t

omit [Steady self] self in
instance steady_nested (depth : Nat) : Steady (nested depth) := by
  induction depth with
  | zero => exact ⟨fun g => triple_iff.mpr fun s a t _ gives => by cases gives⟩
  | succ depth ih => exact steady_grammar (nested depth)

end Desugar.Host.Parse

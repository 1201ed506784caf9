/-!
# Steps that may fail

What runs through comes from steps that run through. Two runs whose steps come to related values are
related as a whole, however they fail.
-/
namespace Desugar

variable {ε ε' α β γ δ : Type}

theorem eq_ok_of_toOption {x : Except ε α} {a : α} (found : x.toOption = some a) : x = .ok a := by
  cases x with
  | error => cases found
  | ok b => exact congrArg _ (Option.some.inj found)

theorem bind_eq_ok {x : Except ε α} {f : α → Except ε β} {b : β} (h : (x >>= f) = .ok b) :
    ∃ a, x = .ok a ∧ f a = .ok b := by
  cases x with
  | error e => cases h
  | ok a => exact ⟨a, rfl, h⟩

theorem mapError_eq_ok_iff {x : Except ε α} {f : ε → ε'} {a : α} : x.mapError f = .ok a ↔ x = .ok a := by
  cases x with
  | error e => exact ⟨fun h => (by cases h), fun h => (by cases h)⟩
  | ok b => exact ⟨fun h => congrArg _ (Except.ok.inj h), fun h => congrArg _ (Except.ok.inj h)⟩

theorem mem_of_mapM {f : α → Except ε β} {as : List α} {bs : List β} (ran : as.mapM f = .ok bs) :
    ∀ b ∈ bs, ∃ a ∈ as, f a = .ok b := by
  induction as generalizing bs with
  | nil =>
    obtain rfl : [] = bs := Except.ok.inj ran
    exact nofun
  | cons a as ih =>
    rw [List.mapM_cons] at ran
    obtain ⟨b, first, ran⟩ := bind_eq_ok ran
    obtain ⟨bs, rest, ran⟩ := bind_eq_ok ran
    obtain rfl := Except.ok.inj ran
    refine List.forall_mem_cons.mpr ⟨⟨a, List.mem_cons_self, first⟩, fun b' member => ?_⟩
    obtain ⟨a', listed, same⟩ := ih rest b' member
    exact ⟨a', List.mem_cons_of_mem _ listed, same⟩

theorem mapM_of_ok {f g : α → Except ε β} {as : List α} {bs : List β} (ran : as.mapM f = .ok bs)
    (same : ∀ a ∈ as, ∀ b, f a = .ok b → g a = .ok b) : as.mapM g = .ok bs := by
  induction as generalizing bs with
  | nil => exact ran
  | cons a as ih =>
    rw [List.mapM_cons] at ran ⊢
    obtain ⟨b, first, ran⟩ := bind_eq_ok ran
    obtain ⟨bs', rest, ran⟩ := bind_eq_ok ran
    rw [same a List.mem_cons_self b first, ih rest fun a' member => same a' (List.mem_cons_of_mem _ member)]
    exact ran

/-- Both fail, or both come to values that are related. -/
inductive Akin (R : α → β → Prop) : Except ε α → Except ε' β → Prop
  | ok {a : α} {b : β} (related : R a b) : Akin R (.ok a) (.ok b)
  | error (e : ε) (e' : ε') : Akin R (.error e) (.error e')

namespace Akin

variable {R : α → β → Prop} {S : γ → δ → Prop} {x : Except ε α} {y : Except ε' β}

theorem bind {f : α → Except ε γ} {g : β → Except ε' δ} (akin : Akin R x y)
    (next : ∀ a b, R a b → Akin S (f a) (g b)) : Akin S (x >>= f) (y >>= g) := by
  cases akin with
  | ok related => exact next _ _ related
  | error e e' => exact .error e e'

theorem map {f : α → γ} {g : β → δ} (akin : Akin R x y) (next : ∀ a b, R a b → S (f a) (g b)) :
    Akin S (x.map f) (y.map g) := by
  cases akin with
  | ok related => exact .ok (next _ _ related)
  | error e e' => exact .error e e'

theorem toOption_eq {y : Except ε' α} (akin : Akin Eq x y) : x.toOption = y.toOption := by
  cases akin with
  | ok related => exact congrArg some related
  | error => rfl

end Akin
end Desugar

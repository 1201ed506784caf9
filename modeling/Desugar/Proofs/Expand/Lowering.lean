import Mathlib.Data.List.Nodup
import Mathlib.Data.List.Perm.Basic
import Desugar.Expand.Lowering

/-!
# Lowering replaces calls by their structure

Calls of placeholders nest: a call that stands in another one stands in one of its parts. A part of a text
is rewritten by replacing the outermost calls in it, each by the function of its three parts, which are
rewritten in the same way; what stands between the calls is kept. The rewriting that is computed passes
over one flat list with a cursor for every part. It picks the same calls, because a call that was replaced
leaves the cursor behind all calls in it, and calls around the part start before it.
-/
namespace Desugar

def Extent.Within (a b : Extent) : Prop := b.start ≤ a.start ∧ a.stop ≤ b.stop

instance (a b : Extent) : Decidable (a.Within b) := inferInstanceAs (Decidable (_ ∧ _))

theorem Extent.Within.trans {a b c : Extent} (first : a.Within b) (second : b.Within c) : a.Within c :=
  ⟨Nat.le_trans second.1 first.1, Nat.le_trans first.2 second.2⟩

namespace Placeholder

def parts (p : Placeholder) : List Extent := [p.condition, p.result, p.alternative]

/-- The parts of a placeholder stand in its call, apart from each other. -/
structure Proper (p : Placeholder) : Prop where
  inside : ∀ e ∈ p.parts, p.call.start < e.start ∧ e.start ≤ e.stop ∧ e.stop < p.call.stop
  apart : p.parts.Pairwise fun d e => d.stop ≤ e.start ∨ e.stop ≤ d.start

theorem Proper.long {p : Placeholder} (proper : p.Proper) : p.call.start < p.call.stop := by
  have inside := proper.inside p.condition (by simp [parts])
  omega

/-- What stands in a part of a call reaches neither end of the call. -/
theorem Proper.strict {p : Placeholder} (proper : p.Proper) {a : Extent}
    (nested : ∃ e ∈ p.parts, a.Within e) : p.call.start < a.start ∧ a.stop < p.call.stop := by
  obtain ⟨e, member, within⟩ := nested
  have inside := proper.inside e member
  exact ⟨Nat.lt_of_lt_of_le inside.1 within.1, Nat.lt_of_le_of_lt within.2 inside.2.2⟩

end Placeholder

namespace Lowering

variable {source : Bytes} {all : List Typed} {part : Extent} {c d : Typed}

/-! ## What lowering is to do -/

/-- Placeholders as a walk over a tree meets them: of two of them the second stands in a part of the
first, or behind it. -/
structure InPreorder (all : List Typed) : Prop where
  proper : ∀ c ∈ all, c.1.Proper
  order : all.Pairwise fun c d =>
    (∃ e ∈ c.1.parts, d.1.call.Within e) ∨ c.1.call.stop ≤ d.1.call.start

/-- A call stands in a part of the text, and in no other call there. -/
def IsOutermost (all : List Typed) (part : Extent) (c : Typed) : Prop :=
  c.1.call.Within part ∧ ∀ d ∈ all, d.1.call.Within part → c.1.call.Within d.1.call → d = c

instance (all : List Typed) (part : Extent) (c : Typed) : Decidable (IsOutermost all part c) :=
  inferInstanceAs (Decidable (_ ∧ _))

def outermost (all : List Typed) (part : Extent) : List Typed := all.filter (IsOutermost all part ·)

/-- The function that evaluates one of two branches. -/
def branching (type : String) (condition result alternative : Bytes) : Bytes :=
  Text.utf8 s!"func() {type} \x7b if " ++ condition ++ Text.utf8 " \x7b return " ++ result ++
    Text.utf8 " \x7d; return " ++ alternative ++ Text.utf8 " \x7d()"

/-- The text from an offset up to `stop` with something new in the place of some calls. -/
def replaceCalls (source : Bytes) (new : Typed → Bytes) (stop : Nat) :
    (offset : Nat) → List Typed → Bytes
  | offset, [] => Text.slice source offset stop
  | offset, c :: rest => Text.slice source offset c.1.call.start ++ new c ++
      replaceCalls source new stop c.1.call.stop rest

/-- What becomes of a part of a text, and which placeholders are lowered in it: its outermost ones, and
those that are lowered in their parts. -/
inductive Becomes (source : Bytes) (all : List Typed) : Extent → Bytes → List Typed → Prop where
  | intro {part : Extent} {out : Bytes} {lowered : List Typed} (inner : Extent → Bytes)
      (below : Extent → List Typed)
      (parts : ∀ c ∈ outermost all part, ∀ e ∈ c.1.parts, Becomes source all e (inner e) (below e))
      (text : out = replaceCalls source
        (fun c => branching c.2 (inner c.1.condition) (inner c.1.result) (inner c.1.alternative))
        part.stop part.start (outermost all part))
      (members : lowered = (outermost all part).flatMap fun c => c :: c.1.parts.flatMap below) :
      Becomes source all part out lowered

theorem replaceCalls_congr {new new' : Typed → Bytes} {cs : List Typed} (stop offset : Nat)
    (same : ∀ c ∈ cs, new c = new' c) :
    replaceCalls source new stop offset cs = replaceCalls source new' stop offset cs := by
  induction cs generalizing offset with
  | nil => rfl
  | cons c cs ih =>
    rw [replaceCalls, replaceCalls, same c List.mem_cons_self,
      ih _ fun d member => same d (List.mem_cons_of_mem _ member)]

theorem flatMap_congr_mem {α β : Type} {l : List α} {f g : α → List β} (same : ∀ a ∈ l, f a = g a) :
    l.flatMap f = l.flatMap g := by
  rw [List.flatMap_def, List.flatMap_def, List.map_congr_left same]

/-- A part of a text becomes one text only. -/
theorem Becomes.unique {out out' : Bytes} {lowered lowered' : List Typed}
    (first : Becomes source all part out lowered) (second : Becomes source all part out' lowered') :
    out = out' ∧ lowered = lowered' := by
  induction first generalizing out' lowered' with
  | intro inner below parts text members ih =>
    obtain ⟨inner', below', parts', text', members'⟩ := second
    have same : ∀ c ∈ outermost all _, ∀ e ∈ c.1.parts, inner e = inner' e ∧ below e = below' e :=
      fun c outer e member => ih c outer e member (parts' c outer e member)
    subst text members text' members'
    refine ⟨replaceCalls_congr _ _ fun c outer => ?_, flatMap_congr_mem fun c outer => ?_⟩
    · rw [(same c outer c.1.condition (by simp [Placeholder.parts])).1,
        (same c outer c.1.result (by simp [Placeholder.parts])).1,
        (same c outer c.1.alternative (by simp [Placeholder.parts])).1]
    · rw [flatMap_congr_mem fun e member => (same c outer e member).2]

/-! ## Which calls the cursor stops at -/

theorem InPreorder.tail (order : InPreorder (c :: all)) : InPreorder all :=
  ⟨fun d member => order.proper d (List.mem_cons_of_mem _ member), order.order.of_cons⟩

/-- No later call stands around an earlier one. -/
theorem InPreorder.head_outermost (order : InPreorder (c :: all)) (within : c.1.call.Within part) :
    IsOutermost (c :: all) part c := by
  refine ⟨within, fun d member _ around => ?_⟩
  rcases List.mem_cons.mp member with rfl | later
  · rfl
  · have long := (order.proper c List.mem_cons_self).long
    rcases (List.pairwise_cons.mp order.order).1 d later with nested | behind
    · have strict := (order.proper c List.mem_cons_self).strict nested
      have start := around.1
      omega
    · have start := around.1
      omega

/-- Behind the first call in a part the outermost ones are those of what is left of the part. -/
theorem InPreorder.isOutermost_iff (order : InPreorder (c :: all)) (within : c.1.call.Within part)
    (member : d ∈ all) :
    IsOutermost (c :: all) part d ↔ IsOutermost all ⟨c.1.call.stop, part.stop⟩ d := by
  have proper := order.proper c List.mem_cons_self
  have later := (List.pairwise_cons.mp order.order).1
  have long := proper.long
  have long' := (order.proper d (List.mem_cons_of_mem _ member)).long
  constructor
  · rintro ⟨inPart, outer⟩
    rcases later d member with nested | behind
    · have strict := proper.strict nested
      have same := outer c List.mem_cons_self within ⟨by omega, by omega⟩
      rw [same] at strict
      omega
    · refine ⟨⟨behind, inPart.2⟩, fun x inside inRest around => ?_⟩
      have start : part.start ≤ c.1.call.start := within.1
      have start' : c.1.call.stop ≤ x.1.call.start := inRest.1
      exact outer x (List.mem_cons_of_mem _ inside) ⟨by omega, inRest.2⟩ around
  · rintro ⟨inRest, outer⟩
    have start : c.1.call.stop ≤ d.1.call.start := inRest.1
    have start' : part.start ≤ c.1.call.start := within.1
    refine ⟨⟨by omega, inRest.2⟩, fun x inside inPart around => ?_⟩
    have ends := around.2
    rcases List.mem_cons.mp inside with rfl | inside
    · omega
    · rcases later x inside with nested | behind
      · have strict := proper.strict nested
        omega
      · exact outer x inside ⟨behind, inPart.2⟩ around

theorem InPreorder.outermost_within (order : InPreorder (c :: all)) (within : c.1.call.Within part) :
    outermost (c :: all) part = c :: outermost all ⟨c.1.call.stop, part.stop⟩ := by
  unfold outermost
  rw [List.filter_cons_of_pos (by simpa using order.head_outermost within)]
  congr 1
  refine List.filter_congr fun d member => ?_
  exact decide_eq_decide.mpr (order.isOutermost_iff within member)

theorem outermost_outside (outside : ¬ c.1.call.Within part) :
    outermost (c :: all) part = outermost all part := by
  unfold outermost
  rw [List.filter_cons_of_neg (by simpa using fun h : IsOutermost _ _ _ => outside h.1)]
  refine List.filter_congr fun d member => decide_eq_decide.mpr (and_congr_right fun _ => ?_)
  simp [outside]

/-- Passing over the list with a cursor replaces the outermost calls. -/
theorem pieces_eq (order : InPreorder all) (inner : Extent → Bytes) (stop offset : Nat) :
    pieces source inner stop all offset =
      replaceCalls source (fun c => function inner c.1 c.2) stop offset
        (outermost all ⟨offset, stop⟩) := by
  fun_induction pieces source inner stop all offset with
  | case1 => rfl
  | case2 p type rest offset skipped ih =>
    rw [ih order.tail, outermost_outside]
    rintro ⟨start, inside⟩
    simp only [Bool.or_eq_true, decide_eq_true_eq] at skipped
    rcases skipped with before | beyond
    · exact Nat.not_lt_of_le start before
    · exact Nat.not_lt_of_le inside beyond
  | case3 p type rest offset taken ih =>
    simp only [Bool.or_eq_true, decide_eq_true_eq, not_or, Nat.not_lt] at taken
    have within : p.call.Within ⟨offset, stop⟩ := taken
    rw [ih order.tail, order.outermost_within within, replaceCalls]

/-! ## How deep calls nest -/

def inside (all : List Typed) (part : Extent) : List Typed := all.filter (·.1.call.Within part)

theorem mem_inside : c ∈ inside all part ↔ c ∈ all ∧ c.1.call.Within part := by
  simp [inside]

theorem mem_outermost : c ∈ outermost all part ↔ c ∈ all ∧ IsOutermost all part c := by
  simp [outermost]

/-- A part of a call has fewer calls in it than the part of the text that the call is in. -/
theorem InPreorder.inside_lt (order : InPreorder all) (outer : c ∈ outermost all part) {e : Extent}
    (member : e ∈ c.1.parts) : (inside all e).length < (inside all part).length := by
  obtain ⟨listed, within, -⟩ := mem_outermost.mp outer
  have bounds := (order.proper c listed).inside e member
  have start := within.1
  have stop := within.2
  have narrow : inside all e = (inside all part).filter (·.1.call.Within e) := by
    unfold inside
    rw [List.filter_filter]
    refine List.filter_congr fun d _ => ?_
    rw [← Bool.decide_and]
    refine decide_eq_decide.mpr ⟨fun h => ⟨h, ?_⟩, And.left⟩
    exact h.trans ⟨by omega, by omega⟩
  rw [narrow, List.length_filter_lt_length_iff_exists]
  refine ⟨c, mem_inside.mpr ⟨listed, within⟩, ?_⟩
  intro h
  have front : e.start ≤ c.1.call.start := (of_decide_eq_true h).1
  omega

/-- The placeholders that are lowered in a part, in the order in which their functions are written. -/
def lowered (all : List Typed) : (depth : Nat) → (part : Extent) → List Typed
  | 0, _ => []
  | depth + 1, part => (outermost all part).flatMap fun c => c :: c.1.parts.flatMap (lowered all depth)

/-- The computed text is what becomes of a part, if the depth exceeds the number of calls in it. -/
theorem InPreorder.becomes_text (order : InPreorder all) {depth : Nat}
    (deep : (inside all part).length < depth) :
    Becomes source all part (text source all depth part) (lowered all depth part) := by
  induction depth generalizing part with
  | zero => exact absurd deep (Nat.not_lt_zero _)
  | succ depth ih =>
    refine .intro (text source all depth) (lowered all depth) (fun c outer e member => ?_) ?_ rfl
    · have less := order.inside_lt outer member
      exact ih (by omega)
    · exact pieces_eq order (text source all depth) part.stop part.start

/-! ## Each placeholder once -/

/-- Each call in a part of the text is an outermost one, or stands in a part of one. -/
theorem InPreorder.exists_outermost (order : InPreorder all) (member : d ∈ inside all part) :
    ∃ c ∈ outermost all part, d = c ∨ ∃ e ∈ c.1.parts, d.1.call.Within e := by
  induction all generalizing part with
  | nil => cases member
  | cons c all ih =>
    obtain ⟨listed, within⟩ := mem_inside.mp member
    by_cases taken : c.1.call.Within part
    · rw [order.outermost_within taken]
      rcases List.mem_cons.mp listed with rfl | later
      · exact ⟨d, List.mem_cons_self, .inl rfl⟩
      · rcases (List.pairwise_cons.mp order.order).1 d later with nested | behind
        · exact ⟨c, List.mem_cons_self, .inr nested⟩
        · have rest : d ∈ inside all ⟨c.1.call.stop, part.stop⟩ :=
            mem_inside.mpr ⟨later, behind, within.2⟩
          obtain ⟨x, outer, place⟩ := ih order.tail rest
          exact ⟨x, List.mem_cons_of_mem _ outer, place⟩
    · rw [outermost_outside taken]
      rcases List.mem_cons.mp listed with rfl | later
      · exact absurd within taken
      · exact ih order.tail (mem_inside.mpr ⟨later, within⟩)

theorem InPreorder.mem_inside_iff (order : InPreorder all) : d ∈ inside all part ↔
    ∃ c ∈ outermost all part, d ∈ c :: c.1.parts.flatMap (inside all) := by
  simp only [List.mem_cons, List.mem_flatMap]
  constructor
  · intro member
    obtain ⟨c, outer, place⟩ := order.exists_outermost member
    refine ⟨c, outer, place.imp_right ?_⟩
    rintro ⟨e, part, within⟩
    exact ⟨e, part, mem_inside.mpr ⟨(mem_inside.mp member).1, within⟩⟩
  · rintro ⟨c, outer, rfl | ⟨e, part, member⟩⟩
    · obtain ⟨listed, within, -⟩ := mem_outermost.mp outer
      exact mem_inside.mpr ⟨listed, within⟩
    · obtain ⟨listed, within, -⟩ := mem_outermost.mp outer
      obtain ⟨listed', nested⟩ := mem_inside.mp member
      have strict := (order.proper c listed).strict ⟨e, part, nested⟩
      refine mem_inside.mpr ⟨listed', Extent.Within.trans ?_ within⟩
      exact ⟨Nat.le_of_lt strict.1, Nat.le_of_lt strict.2⟩

theorem InPreorder.nodup_inside (order : InPreorder all) (part : Extent) :
    (inside all part).Nodup := by
  refine List.Nodup.filter _ (order.order.imp_of_mem fun {c d} listed _ apart => ?_)
  rintro rfl
  have long := (order.proper c listed).long
  rcases apart with nested | behind
  · exact Nat.lt_irrefl _ ((order.proper c listed).strict nested).1
  · omega

/-- Apart from each other stand what is in a call, its parts, and calls that are both outermost. -/
theorem InPreorder.nodup_outermost (order : InPreorder all) (part : Extent) :
    ((outermost all part).flatMap fun c => c :: c.1.parts.flatMap (inside all)).Nodup := by
  have bounds {c d : Typed} (listed : c ∈ all) (member : d ∈ c :: c.1.parts.flatMap (inside all)) :
      d ∈ all ∧ d.1.call.Within c.1.call := by
    rcases List.mem_cons.mp member with rfl | nested
    · exact ⟨listed, Nat.le_refl _, Nat.le_refl _⟩
    · obtain ⟨e, part, member⟩ := List.mem_flatMap.mp nested
      obtain ⟨listed', within⟩ := mem_inside.mp member
      have strict := (order.proper c listed).strict ⟨e, part, within⟩
      exact ⟨listed', Nat.le_of_lt strict.1, Nat.le_of_lt strict.2⟩
  rw [List.nodup_flatMap]
  constructor
  · intro c outer
    have proper := order.proper c (mem_outermost.mp outer).1
    rw [List.nodup_cons, List.nodup_flatMap]
    refine ⟨fun nested => ?_, fun e _ => order.nodup_inside e, ?_⟩
    · obtain ⟨e, part, member⟩ := List.mem_flatMap.mp nested
      exact Nat.lt_irrefl _ (proper.strict ⟨e, part, (mem_inside.mp member).2⟩).1
    · refine proper.apart.imp fun {e f} apart => ?_
      intro d first second
      obtain ⟨listed, within⟩ := mem_inside.mp first
      have within' := (mem_inside.mp second).2
      have long := (order.proper d listed).long
      obtain ⟨_, _⟩ := within
      obtain ⟨_, _⟩ := within'
      omega
  · refine (order.order.filter _).imp_of_mem fun {c d} outer outer' apart => ?_
    obtain ⟨listed, within, -⟩ := mem_outermost.mp outer
    obtain ⟨listed', within', last⟩ := mem_outermost.mp outer'
    intro x first second
    obtain ⟨member, inFirst⟩ := bounds listed first
    obtain ⟨-, inSecond⟩ := bounds listed' second
    have long := (order.proper x member).long
    rcases apart with nested | behind
    · have strict := (order.proper c listed).strict nested
      have same := last c listed within ⟨Nat.le_of_lt strict.1, Nat.le_of_lt strict.2⟩
      rw [same] at strict
      exact Nat.lt_irrefl _ strict.1
    · obtain ⟨_, _⟩ := inFirst
      obtain ⟨_, _⟩ := inSecond
      omega

theorem InPreorder.lowered_perm (order : InPreorder all) {depth : Nat}
    (deep : (inside all part).length < depth) : (lowered all depth part).Perm (inside all part) := by
  induction depth generalizing part with
  | zero => exact absurd deep (Nat.not_lt_zero _)
  | succ depth ih =>
    have deeper : (lowered all (depth + 1) part).Perm
        ((outermost all part).flatMap fun c => c :: c.1.parts.flatMap (inside all)) := by
      refine List.Perm.flatMap_left _ fun c outer => ?_
      refine (List.Perm.flatMap_left _ fun e member => ih ?_).cons c
      have less := order.inside_lt outer member
      omega
    refine deeper.trans ?_
    rw [List.perm_ext_iff_of_nodup (order.nodup_outermost part) (order.nodup_inside part)]
    intro d
    rw [List.mem_flatMap, order.mem_inside_iff]

/-- Lowering replaces every outermost call in a text by the function of its parts, in which calls are
replaced in the same way, and keeps what stands between the calls; each placeholder is lowered once. No
other text comes of this, and going deeper than there are placeholders changes nothing. -/
theorem whole_replaces (order : InPreorder all) (bounded : ∀ c ∈ all, c.1.call.stop ≤ source.length) :
    (∃ lowered, Becomes source all ⟨0, source.length⟩ (whole source all) lowered ∧ lowered.Perm all) ∧
      (∀ out lowered, Becomes source all ⟨0, source.length⟩ out lowered → out = whole source all) ∧
      ∀ depth, all.length < depth →
        text source all depth ⟨0, source.length⟩ = whole source all := by
  have everything : inside all ⟨0, source.length⟩ = all :=
    List.filter_eq_self.mpr fun c member => decide_eq_true ⟨Nat.zero_le _, bounded c member⟩
  have becomes : ∀ depth, all.length < depth → Becomes source all ⟨0, source.length⟩
      (text source all depth ⟨0, source.length⟩) (lowered all depth ⟨0, source.length⟩) :=
    fun depth deep => order.becomes_text (by rwa [everything])
  have whole := becomes (all.length + 1) (Nat.lt_succ_self _)
  refine ⟨⟨_, whole, ?_⟩, fun out lowered other => (other.unique whole).1, fun depth deep => ?_⟩
  · have deep : (inside all ⟨0, source.length⟩).length < all.length + 1 := by
      rw [everything]
      exact Nat.lt_succ_self _
    have perm := order.lowered_perm deep
    rwa [everything] at perm
  · exact ((becomes depth deep).unique whole).1

/-- A conditional whose first branch is one, too. -/
def nestedConditionals : List Typed :=
  [({ number := 1, closing := 22, call := ⟨0, 25⟩, condition := ⟨23, 24⟩, result := ⟨5, 18⟩,
      alternative := ⟨20, 21⟩ }, "int"),
   ({ number := 2, closing := 15, call := ⟨5, 18⟩, condition := ⟨16, 17⟩, result := ⟨10, 11⟩,
      alternative := ⟨13, 14⟩ }, "int")]

theorem whole_replaces_nested :
    (InPreorder nestedConditionals ∧ ∀ c ∈ nestedConditionals,
      c.1.call.stop ≤ (Text.utf8 "p(1, p(2, a, b)(c), d)(e)").length) ∧
      ∃ lowered, Becomes (Text.utf8 "p(1, p(2, a, b)(c), d)(e)") nestedConditionals ⟨0, 25⟩
        (Text.utf8 ("func() int \x7b if e \x7b return func() int \x7b if c \x7b return a \x7d; return b" ++
          " \x7d() \x7d; return d \x7d()")) lowered ∧ lowered.Perm nestedConditionals := by
  have order : InPreorder nestedConditionals := by
    refine ⟨fun c member => ?_, by decide⟩
    rcases List.mem_cons.mp member with rfl | member
    · exact ⟨by decide, by decide⟩
    · obtain rfl := List.mem_singleton.mp member
      exact ⟨by decide, by decide⟩
  have bounded : ∀ c ∈ nestedConditionals,
      c.1.call.stop ≤ (Text.utf8 "p(1, p(2, a, b)(c), d)(e)").length := by decide
  exact ⟨⟨order, bounded⟩, (whole_replaces order bounded).1⟩

end Lowering
end Desugar

import Desugar.Form.Expression
import Desugar.Proofs.Host.LineTable

/-!
# Offsets of tokens in the text of a stream

A stream is written out with each literal behind the one before it. So the offset that is noted for a token
is where its literal stands, and the offsets ascend as long as no literal is empty. The host complains about
an offset of that text. Halving leads it back to the last token that starts there or before it, which is the
token that it falls on, or the one in front of the blanks that it falls on.
-/
namespace Desugar.Form

variable {ts : List Token} {t : Token} {i start : Nat} {offset : Int}

theorem length_offsetsFrom (offset : Nat) (ts : List Token) :
    (offsetsFrom offset ts).length = ts.length := by
  induction ts generalizing offset with
  | nil => rfl
  | cons t ts ih => simp [offsetsFrom, ih]

@[simp] theorem length_offsets (ts : List Token) : (offsets ts).length = ts.length := by
  cases ts with
  | nil => rfl
  | cons t ts => simp [offsets, length_offsetsFrom]

theorem le_of_mem_offsetsFrom {offset : Nat} (member : start ∈ offsetsFrom offset ts) : offset ≤ start := by
  induction ts generalizing offset with
  | nil => cases member
  | cons t ts ih =>
    rcases List.mem_cons.mp member with rfl | later
    · omega
    · have := ih later
      omega

theorem offsetsFrom_sorted (each : ∀ t ∈ ts, t.literal ≠ []) (offset : Nat) :
    (offsetsFrom offset ts).Pairwise (· < ·) := by
  induction ts generalizing offset with
  | nil => exact .nil
  | cons t ts ih =>
    obtain ⟨here, later⟩ := List.forall_mem_cons.mp each
    have long := List.length_pos_iff.mpr here
    refine .cons (fun next member => ?_) (ih later _)
    have := le_of_mem_offsetsFrom member
    omega

/-- Where no literal is empty, each token starts behind the one before it. -/
theorem offsets_sorted (each : ∀ t ∈ ts, t.literal ≠ []) : (offsets ts).Pairwise (· < ·) := by
  cases ts with
  | nil => exact .nil
  | cons t ts =>
    obtain ⟨here, later⟩ := List.forall_mem_cons.mp each
    refine .cons (fun next member => ?_) (offsetsFrom_sorted later _)
    exact Nat.lt_of_lt_of_le (List.length_pos_iff.mpr here) (le_of_mem_offsetsFrom member)

theorem renderTail_at (here : ts[i]? = some t) (offset : Nat) : ∃ front,
    renderTail ts = front ++ (t.literal ++ renderTail (ts.drop (i + 1))) ∧
      (offsetsFrom offset ts)[i]? = some (offset + front.length) := by
  induction ts generalizing i offset with
  | nil => cases here
  | cons u ts ih =>
    have written : renderTail (u :: ts) = u.gap.text ++ (u.literal ++ renderTail ts) := by simp [renderTail]
    cases i with
    | zero =>
      obtain rfl := Option.some.inj here
      exact ⟨u.gap.text, written, rfl⟩
    | succ i =>
      obtain ⟨front, behind, found⟩ := ih here (offset + u.gap.text.length + u.literal.length)
      refine ⟨u.gap.text ++ (u.literal ++ front), by simp [written, behind], ?_⟩
      rw [offsetsFrom, List.getElem?_cons_succ, found]
      simp [Nat.add_assoc]

/-- A token's literal stands at its offset, in front of the tokens behind it. -/
theorem renderTokens_at (here : ts[i]? = some t) : ∃ front,
    renderTokens ts = front ++ (t.literal ++ renderTail (ts.drop (i + 1))) ∧
      (offsets ts)[i]? = some front.length := by
  cases ts with
  | nil => cases here
  | cons u ts =>
    cases i with
    | zero =>
      obtain rfl := Option.some.inj here
      exact ⟨[], rfl, rfl⟩
    | succ i =>
      have there : ts[i]? = some t := here
      obtain ⟨front, behind, found⟩ := renderTail_at there u.literal.length
      refine ⟨u.literal ++ front, by simp [renderTokens, behind], ?_⟩
      rw [offsets, List.getElem?_cons_succ, found, List.length_append]

theorem slice_literal (here : ts[i]? = some t) (starts : (offsets ts)[i]? = some start) :
    Text.slice (renderTokens ts) start (start + t.literal.length) = t.literal := by
  obtain ⟨front, written, found⟩ := renderTokens_at here
  obtain rfl := Option.some.inj (starts.symm.trans found)
  simp [Text.slice, written]

/-- The text ends with the literal of the last token. -/
theorem length_renderTokens (here : ts[i]? = some t) (starts : (offsets ts)[i]? = some start)
    (last : i + 1 = ts.length) : (renderTokens ts).length = start + t.literal.length := by
  obtain ⟨front, written, found⟩ := renderTokens_at here
  obtain rfl := Option.some.inj (starts.symm.trans found)
  rw [written, last, List.drop_length]
  simp [renderTail]

/-- An offset falls on a token or behind one, whatever it is. -/
theorem spanAt_mem (ne_nil : ts ≠ []) (offset : Int) :
    ∃ t ∈ ts, spanAt ts offset = t.span ∨ spanAt ts offset = .point t.span.stop := by
  unfold spanAt
  dsimp only
  generalize found : (if offset < 0 then 0 else
    Host.LineTable.search (offsets ts).toArray offset.toNat 0 (offsets ts).toArray.size) = upTo
  have fewer := Host.LineTable.search_le (offsets ts).toArray offset.toNat 0 (offsets ts).toArray.size
  rw [List.size_toArray, length_offsets] at fewer found
  have long := List.length_pos_iff.mpr ne_nil
  have bound : upTo - 1 < ts.length := by
    split at found <;> omega
  rw [List.getElem?_eq_getElem bound]
  refine ⟨ts[upTo - 1], List.getElem_mem bound, ?_⟩
  dsimp only
  split
  · exact .inr rfl
  · exact .inl rfl

/-- An offset falls on the last token that starts there or before it. -/
theorem spanAt_eq (sorted : (offsets ts).Pairwise (· < ·)) (here : ts[i]? = some t)
    (starts : (offsets ts)[i]? = some start) (le : start ≤ offset) (next : ∀ x ∈ (offsets ts)[i + 1]?, offset < x) :
    spanAt ts offset =
      if start + t.literal.length ≤ offset ∧ i + 1 = ts.length then .point t.span.stop else t.span := by
  have found : Host.LineTable.search (offsets ts).toArray offset.toNat 0 (offsets ts).toArray.size = i + 1 := by
    refine Host.LineTable.search_eq (by simpa using sorted) (by simpa using starts) (by omega) fun x there => ?_
    have := next x (by simpa using there)
    omega
  have nonneg : ¬ offset < 0 := by omega
  have stands : (offsets ts).toArray.getD i 0 = start := by
    simp [Array.getD_eq_getD_getElem?, starts]
  unfold spanAt
  simp only [if_neg nonneg, found, Nat.add_sub_cancel, here, stands, Bool.and_eq_true, decide_eq_true_eq]

theorem spanAt_of_neg (first : ts[0]? = some t) (neg : offset < 0) : spanAt ts offset = t.span := by
  unfold spanAt
  simp only [if_pos neg, Nat.zero_sub, first, Bool.and_eq_true, decide_eq_true_eq]
  rw [if_neg (by omega)]

/-- The offsets of a stream of tokens that are not empty ascend, each literal stands at its own, and an offset
is led back to the token that it falls on: to the first one in front of the text, to a token from where it
starts up to where the next one does, and to the end of the last one from the end of the text on. -/
theorem offsets_lead_back (ne_nil : ts ≠ []) (each : ∀ t ∈ ts, t.literal ≠ []) :
    (offsets ts).length = ts.length ∧ (offsets ts).Pairwise (· < ·) ∧
      (∀ i t (start : Nat), ts[i]? = some t → (offsets ts)[i]? = some start →
        Text.slice (renderTokens ts) start (start + t.literal.length) = t.literal ∧
        (∀ next : Nat, (offsets ts)[i + 1]? = some next →
          ∀ offset : Int, start ≤ offset → offset < next → spanAt ts offset = t.span) ∧
        (i + 1 = ts.length →
          ∀ offset : Int, start ≤ offset → offset < start + t.literal.length → spanAt ts offset = t.span)) ∧
      (∀ offset < 0, spanAt ts offset = (ts.head ne_nil).span) ∧
      ∀ offset : Int, (renderTokens ts).length ≤ offset →
        spanAt ts offset = .point (ts.getLast ne_nil).span.stop := by
  have sorted := offsets_sorted each
  refine ⟨length_offsets ts, sorted, fun i t start here starts => ⟨slice_literal here starts, ?_, ?_⟩, ?_, ?_⟩
  · intro next behind offset le less
    have inner : i + 1 < (offsets ts).length := (List.getElem?_eq_some_iff.mp behind).1
    rw [length_offsets] at inner
    rw [spanAt_eq sorted here starts le (by simpa [behind] using less), if_neg (by omega)]
  · intro last offset le less
    have absent : (offsets ts)[i + 1]? = none := by simp [last]
    rw [spanAt_eq sorted here starts le (by simp [absent]), if_neg (by omega)]
  · intro offset neg
    exact spanAt_of_neg (by rw [← List.head?_eq_getElem?, List.head?_eq_some_head ne_nil]) neg
  · intro offset past
    have long := List.length_pos_iff.mpr ne_nil
    have here : ts[ts.length - 1]? = some (ts.getLast ne_nil) := by
      rw [← List.getLast?_eq_getElem?, List.getLast?_eq_some_getLast ne_nil]
    have last : ts.length - 1 + 1 = ts.length := by omega
    obtain ⟨front, -, starts⟩ := renderTokens_at here
    have absent : (offsets ts)[ts.length - 1 + 1]? = none := by simp [last]
    rw [length_renderTokens here starts last] at past
    rw [spanAt_eq sorted here starts (by omega) (by simp [absent]), if_pos ⟨by omega, last⟩]

/-- In `x + ) y`, the offset of the parenthesis and that of the blank behind it lead to the parenthesis. -/
theorem offsets_lead_back_parenthesis :
    let place (n : Int) : Span := ⟨⟨"m.sgo", 1, n + 1, n⟩, ⟨"m.sgo", 1, n + 2, n + 1⟩⟩
    let ts : List Token := [⟨.identifier, Text.utf8 "x", place 0, .none⟩,
      ⟨.operator, Text.utf8 "+", place 2, .space⟩, ⟨.rparen, Text.utf8 ")", place 4, .space⟩,
      ⟨.identifier, Text.utf8 "y", place 6, .space⟩]
    ts ≠ [] ∧ (∀ t ∈ ts, t.literal ≠ []) ∧ renderTokens ts = Text.utf8 "x + ) y" ∧
      spanAt ts 4 = place 4 ∧ spanAt ts 5 = place 4 ∧ spanAt ts (-1) = place 0 ∧
      spanAt ts 7 = .point (place 6).stop := by
  intro place ts
  have ne_nil : ts ≠ [] := by decide
  have each : ∀ t ∈ ts, t.literal ≠ [] := by decide +kernel
  have text : renderTokens ts = Text.utf8 "x + ) y" := by decide +kernel
  have starts : offsets ts = [0, 2, 4, 6] := by decide +kernel
  have size : (renderTokens ts).length = 7 := by decide +kernel
  obtain ⟨-, -, within, before, past⟩ := offsets_lead_back ne_nil each
  obtain ⟨-, between, -⟩ := within 2 _ 4 rfl (by rw [starts]; rfl)
  have next : (offsets ts)[3]? = some 6 := by rw [starts]; rfl
  exact ⟨ne_nil, each, text, between 6 next 4 (by decide) (by decide), between 6 next 5 (by decide) (by decide),
    before (-1) (by decide), past 7 (by omega)⟩

end Desugar.Form

import Desugar.Proofs.Host.Twin
import Desugar.Proofs.Host.Lexeme

/-!
# Numbers are told by their own characters

A number that is read up to what stands behind it in one text is read from the same characters in
another text, with the same faults, if what stands behind it there does not extend it. The parts of a
number are followed one by one: the mark of its base, its digits, its point, its exponent and the mark
of an imaginary number.
-/
namespace Desugar.Host.Scan

open Reader

variable {S : Setting} {w : List Char} {r r' : Reader}

/-! Numbers -/

/-- What two runs of digits hold, with digits that are too large at the same distances. -/
structure SameDigits (S : Setting) (upTo : Nat) (seen seen' : Digits) : Prop where
  digit : seen'.digit = seen.digit
  separator : seen'.separator = seen.separator
  invalid : seen'.invalid.map (· + S.start) = seen.invalid.map (· + S.start')
  within : ∀ i, seen.invalid = some i → S.start ≤ i ∧ i ≤ upTo

theorem SameDigits.mono {upTo upTo' : Nat} {seen seen' : Digits}
    (h : SameDigits S upTo seen seen') (le : upTo ≤ upTo') : SameDigits S upTo' seen seen' :=
  ⟨h.digit, h.separator, h.invalid, fun i noted =>
    ⟨(h.within i noted).1, Nat.le_trans (h.within i noted).2 le⟩⟩

theorem sameDigits_none (digit separator : Bool) (upTo : Nat) :
    SameDigits S upTo ⟨digit, separator, none⟩ ⟨digit, separator, none⟩ :=
  ⟨rfl, rfl, rfl, nofun⟩

/-- Whether a run of digits of a base goes on. -/
def isDigitOf (base : Nat) : Option Char → Bool
  | none => false
  | some c => c == '_' || if base ≤ 10 then isDecimal c else isHex c

theorem digits_stop {base : Nat} (stop : isDigitOf base r.char? = false) (seen : Digits) :
    digits base r seen = (r, seen) := by
  rw [digits]
  split
  · rfl
  · rename_i c char
    simp only [isDigitOf, char, Bool.or_eq_false_iff] at stop
    rw [if_neg (by simp [stop.1])]
    split
    · rename_i small
      rw [if_pos small] at stop
      rw [if_neg (by simp [stop.2])]
    · rename_i large
      rw [if_neg large] at stop
      rw [if_neg (by simp [stop.2])]

theorem idle_digits (base : Nat) : ∀ x ∈ idle, isDigitOf base x = false := by
  unfold isDigitOf
  by_cases small : base ≤ 10
  · simp only [small, if_true]
    decide
  · simp only [small, if_false]
    decide

theorem digits_go (base : Nat) {c : Char} (char : r.char? = some c) (seen : Digits) :
    digits base r seen =
      if c == '_' then digits base r.next { seen with separator := true }
      else if base ≤ 10 then
        if isDecimal c then
          digits base r.next { seen with
            digit := true
            invalid := seen.invalid <|> if c.toNat < 48 + base then none else some r.offset }
        else (r, seen)
      else if isHex c then digits base r.next { seen with digit := true }
      else (r, seen) := by
  rw [digits]
  split
  · rename_i absent
    rw [char] at absent
    cases absent
  · rename_i x seen
    rw [char] at seen
    cases seen
    rfl

/-- A digit that is too large is noted at the same distance. -/
theorem SameDigits.note {upTo : Nat} {seen seen' : Digits} (h : SameDigits S upTo seen seen')
    {o o' : Nat} (apart : o + S.start' = o' + S.start) (after : S.start ≤ o) (le : o ≤ upTo)
    (fits : Prop) [Decidable fits] :
    SameDigits S upTo
      { seen with digit := true, invalid := seen.invalid <|> if fits then none else some o }
      { seen' with digit := true, invalid := seen'.invalid <|> if fits then none else some o' } := by
  obtain ⟨-, separator, invalid, within⟩ := h
  refine ⟨rfl, separator, ?_, ?_⟩
  · by_cases fit : fits <;> cases first : seen.invalid <;> cases first' : seen'.invalid <;>
      simp_all
  · intro i noted
    cases first : seen.invalid with
    | some j => exact within i (by simpa [first] using noted)
    | none =>
      by_cases fit : fits
      · simp [first, fit] at noted
      · have here : o = i := by simpa [first, fit] using noted
        omega

theorem digits_twin (t : Twin S w r r') (follows : GoesOn S.behind S.behind') (base : Nat) {seen seen' : Digits}
    (same : SameDigits S r.offset seen seen')
    (left : S.size ≤ (digits base r seen).1.rest.length) :
    ∃ v, Twin S v (digits base r seen).1 (digits base r' seen').1 ∧
      SameDigits S (digits base r seen).1.offset (digits base r seen).2 (digits base r' seen').2 := by
  have stays {r r' : Reader} {seen seen' : Digits} {w : List Char} (t : Twin S w r r')
      (same : SameDigits S r.offset seen seen') (stop : isDigitOf base r.char? = false) :
      ∃ v, Twin S v r (digits base r' seen').1 ∧ SameDigits S r.offset seen (digits base r' seen').2 := by
    rw [digits_stop (t.stops follows _ (idle_digits base) stop)]
    exact ⟨w, t, same⟩
  fun_induction digits base r seen generalizing w r' seen' with
  | case1 r seen char => exact stays t same (by rw [char]; rfl)
  | case4 r seen c char separator small other => exact stays t same (by simp_all [isDigitOf])
  | case6 r seen c char separator large other =>
    refine stays t same ?_
    simp [isDigitOf, char, separator, other, Nat.not_le.mpr (Nat.lt_of_not_le large)]
  | case2 r seen c char separator ih =>
    have shorter := digits_rest_length base r.next { seen with separator := true }
    obtain ⟨v, rfl, twin, char'⟩ := t.cons char (by omega)
    rw [digits_go _ char', if_pos separator]
    have further := t.left.stands.offset_le_next
    exact ih twin ⟨same.digit, rfl, same.invalid, (same.mono further).within⟩ left
  | case3 r seen c char separator small digit bad =>
    rename_i ih
    have shorter := digits_rest_length base r.next { seen with
      digit := true, invalid := seen.invalid <|> bad }
    obtain ⟨v, rfl, twin, char'⟩ := t.cons char (by omega)
    rw [digits_go _ char', if_neg separator, if_pos small, if_pos digit]
    have further := t.left.stands.offset_le_next
    exact ih twin ((same.mono further).note t.apart t.started further _) left
  | case5 r seen c char separator large digit ih =>
    have shorter := digits_rest_length base r.next { seen with digit := true }
    obtain ⟨v, rfl, twin, char'⟩ := t.cons char (by omega)
    rw [digits_go _ char', if_neg separator, if_neg large, if_pos digit]
    have further := t.left.stands.offset_le_next
    exact ih twin ⟨rfl, same.separator, same.invalid, (same.mono further).within⟩ left

/-- The base and the radix that a mark behind a zero gives. -/
def baseMark? (c : Option Char) : Option (Nat × Radix) :=
  match c.map lower with
  | some 'x' => some (16, .hexadecimal)
  | some 'o' => some (8, .octal)
  | some 'b' => some (2, .binary)
  | _ => none

theorem numberBase_eq (r : Reader) : numberBase r =
    if r.sees '0' then
      match baseMark? r.next.char? with
      | some (base, radix) => (r.next.next, base, radix, false)
      | none => (r.next, 8, .zero, true)
    else (r, 10, .decimal, false) := by
  unfold numberBase baseMark?
  dsimp only
  generalize Option.map lower r.next.char? = mark
  split
  · split <;> simp_all
  · rfl

theorem numberBase_twin {c : Char} (t : Twin S (c :: w) r r') (follows : GoesOn S.behind S.behind')
    (left : S.size ≤ (numberBase r).1.rest.length) :
    ∃ v, Twin S v (numberBase r).1 (numberBase r').1 ∧ (numberBase r').2 = (numberBase r).2 := by
  simp only [numberBase_eq, t.sees_cons] at left ⊢
  split
  · rename_i zero
    rw [if_pos zero] at left
    obtain ⟨same, moves⟩ := t.next.agrees follows (fun x => (baseMark? x).isSome) (by decide) (by
      intro present
      obtain ⟨mark, found⟩ := Option.isSome_iff_exists.mp present
      simpa [found] using left)
    cases found : baseMark? r.next.char? with
    | some mark =>
      obtain ⟨x, v, rfl, char, char', twin⟩ := moves (by simp [found])
      rw [char] at found
      rw [char', found]
      exact ⟨v, twin, rfl⟩
    | none =>
      have absent : baseMark? r'.next.char? = none := by simpa [found] using same
      rw [absent]
      exact ⟨w, t.next, rfl⟩
  · exact ⟨c :: w, t, rfl⟩

/-- A part of a number, read of both texts. -/
structure SamePart (S : Setting) (out out' : Reader × Kind × Digits) : Prop where
  readers : ∃ v, Twin S v out.1 out'.1
  kind : out'.2.1 = out.2.1
  digits : SameDigits S out.1.offset out.2.2 out'.2.2

theorem wholePart_twin {c : Char} (t : Twin S (c :: w) r r') (follows : GoesOn S.behind S.behind')
    (left : S.size ≤ (wholePart r).1.rest.length) :
    SamePart S ((wholePart r).1, (wholePart r).2.1, (wholePart r).2.2.2.2)
        ((wholePart r').1, (wholePart r').2.1, (wholePart r').2.2.2.2) ∧
      (wholePart r').2.2.1 = (wholePart r).2.2.1 ∧ (wholePart r').2.2.2.1 = (wholePart r).2.2.2.1 := by
  unfold wholePart at left ⊢
  rw [t.sees_cons]
  split
  · exact ⟨⟨⟨_, t⟩, rfl, sameDigits_none _ _ _⟩, rfl, rfl⟩
  · rename_i point
    rw [if_neg point] at left
    dsimp only at left ⊢
    obtain ⟨v, twin, same⟩ := numberBase_twin t follows
      (Nat.le_trans left (digits_rest_length _ _ _))
    simp only [same, and_self, and_true]
    obtain ⟨u, twin', digits⟩ := digits_twin twin follows _ (sameDigits_none _ _ _) left
    exact ⟨⟨u, twin'⟩, rfl, digits⟩

theorem fraction_twin (t : Twin S w r r') (follows : GoesOn S.behind S.behind') (base : Nat) (radix : Radix)
    (kind : Kind) {seen seen' : Digits} (same : SameDigits S r.offset seen seen')
    (left : S.size ≤ (fraction base radix r kind seen).1.rest.length) :
    SamePart S (fraction base radix r kind seen) (fraction base radix r' kind seen') := by
  have twin := t.faultIf (.radixPoint radix) ((radix = .octal || radix = .binary) = true)
  unfold fraction sees at left ⊢
  dsimp only at left ⊢
  obtain ⟨agree, moves⟩ := twin.agrees follows (· == some '.') (by decide) (by
    intro point
    rw [Twin.char?_faultIf] at point
    rw [if_pos point] at left
    exact Nat.le_trans left (digits_rest_length _ _ _))
  simp only [Twin.char?_faultIf] at agree moves
  rw [agree]
  split
  · rename_i point
    rw [if_pos point] at left
    obtain ⟨x, v, rfl, -, -, next⟩ := moves point
    have further := twin.left.stands.offset_le_next
    rw [Twin.offset_faultIf] at further
    obtain ⟨u, twin', digits⟩ := digits_twin next follows base (same.mono further) left
    exact ⟨⟨u, twin'⟩, rfl, digits⟩
  · exact ⟨⟨w, t⟩, rfl, same⟩

/-- What begins an exponent. -/
def isExponent (c : Option Char) : Bool :=
  match c with
  | some c => lower c == 'e' || lower c == 'p'
  | none => false

theorem exponent_plain {radix : Radix} (stop : isExponent r.char? = false) (kind : Kind)
    (seen : Digits) : exponent radix r kind seen = exponent.plain radix kind seen r := by
  unfold exponent
  split
  · rfl
  · rename_i c char
    simp only [isExponent, char] at stop
    simp only [stop]
    rfl

theorem plain_twin (t : Twin S w r r') (radix : Radix) (kind : Kind) {seen seen' : Digits}
    (same : SameDigits S r.offset seen seen') :
    SamePart S (exponent.plain radix kind seen r) (exponent.plain radix kind seen' r') := by
  unfold exponent.plain
  split
  · exact ⟨⟨w, t.faultHere _⟩, rfl, same⟩
  · exact ⟨⟨w, t⟩, rfl, same⟩

/-- The sign of an exponent is passed in both texts. -/
theorem sign_twin (t : Twin S w r r') (follows : GoesOn S.behind S.behind')
    (left : S.size ≤ (if r.sees '+' || r.sees '-' then r.next else r).rest.length) :
    ∃ v, Twin S v (if r.sees '+' || r.sees '-' then r.next else r)
      (if r'.sees '+' || r'.sees '-' then r'.next else r') := by
  unfold sees at left ⊢
  obtain ⟨agree, moves⟩ := t.agrees follows (fun c => c == some '+' || c == some '-') (by decide)
    (fun sign => by rwa [if_pos sign] at left)
  rw [agree]
  split
  · rename_i sign
    obtain ⟨-, v, -, -, -, next⟩ := moves sign
    exact ⟨v, next⟩
  · exact ⟨w, t⟩

/-- Notes a mark that does not go with the radix of its number. -/
def checkMark (radix : Radix) (c : Char) (r : Reader) : Reader :=
  if lower c == 'e' && radix ≠ .decimal && radix ≠ .zero then r.fault r.offset (.decimalExponent c)
  else if lower c == 'p' && radix ≠ .hexadecimal then r.fault r.offset (.hexadecimalExponent c)
  else r

/-- An exponent behind its mark. -/
def exponentTail (r : Reader) (seen : Digits) : Reader × Kind × Digits :=
  let r := if r.sees '+' || r.sees '-' then r.next else r
  let (r, ds) := digits 10 r ⟨false, false, none⟩
  let r := if ds.digit then r else r.fault r.offset .exponentDigits
  (r, .float, { seen with separator := seen.separator || ds.separator })

theorem exponent_mark {radix : Radix} {c : Char} (char : r.char? = some c)
    (mark : isExponent r.char? = true) (kind : Kind) (seen : Digits) :
    exponent radix r kind seen = exponentTail (checkMark radix c r).next seen := by
  unfold exponent
  split
  · rename_i absent
    rw [char] at absent
    cases absent
  · rename_i x same
    rw [char] at same
    cases same
    simp only [isExponent, char] at mark
    simp only [mark]
    rfl

@[simp] theorem checkMark_char? (radix : Radix) (c : Char) (r : Reader) :
    (checkMark radix c r).char? = r.char? := by
  unfold checkMark
  repeat' split
  all_goals rfl

@[simp] theorem checkMark_offset (radix : Radix) (c : Char) (r : Reader) :
    (checkMark radix c r).offset = r.offset := by
  unfold checkMark
  repeat' split
  all_goals rfl

theorem checkMark_twin (t : Twin S w r r') (radix : Radix) (c : Char) :
    Twin S w (checkMark radix c r) (checkMark radix c r') := by
  unfold checkMark
  repeat' split
  · exact t.faultHere _
  · exact t.faultHere _
  · exact t

theorem exponentTail_rest_length (r : Reader) (seen : Digits) :
    (exponentTail r seen).1.rest.length ≤ r.rest.length := by
  have sign : (if r.sees '+' || r.sees '-' then r.next else r).rest.length ≤ r.rest.length := by
    split
    · exact next_rest_length r
    · exact Nat.le_refl _
  unfold exponentTail
  dsimp only
  rw [Twin.rest_faultUnless]
  exact Nat.le_trans (digits_rest_length _ _ _) sign

theorem exponentTail_twin (t : Twin S w r r') (follows : GoesOn S.behind S.behind') {seen seen' : Digits}
    (same : SameDigits S r.offset seen seen')
    (left : S.size ≤ (exponentTail r seen).1.rest.length) :
    SamePart S (exponentTail r seen) (exponentTail r' seen') := by
  unfold exponentTail at left ⊢
  dsimp only at left ⊢
  rw [Twin.rest_faultUnless] at left
  obtain ⟨v, sign⟩ := sign_twin t follows (Nat.le_trans left (digits_rest_length _ _ _))
  obtain ⟨u, twin, digits⟩ := digits_twin sign follows 10 (sameDigits_none _ _ _) left
  have signed := t.left.stands.offset_le
    (Reaches.ite (c := (r.sees '+' || r.sees '-') = true) (reaches_next r) .refl)
  have run := sign.left.stands.offset_le (reaches_digits 10 _ ⟨false, false, none⟩)
  refine ⟨⟨u, ?_⟩, rfl, ⟨same.digit, ?_, same.invalid, ?_⟩⟩
  · dsimp only
    rw [digits.digit]
    exact twin.faultUnless _ _
  · simp only [same.separator, digits.separator]
  · intro i noted
    have := same.within i noted
    dsimp only
    rw [Twin.offset_faultUnless]
    omega

theorem exponent_twin (t : Twin S w r r') (follows : GoesOn S.behind S.behind') (radix : Radix) (kind : Kind)
    {seen seen' : Digits} (same : SameDigits S r.offset seen seen')
    (left : S.size ≤ (exponent radix r kind seen).1.rest.length) :
    SamePart S (exponent radix r kind seen) (exponent radix r' kind seen') := by
  cases char : r.char? with
  | none =>
    have stop : isExponent r.char? = false := by rw [char]; rfl
    rw [exponent_plain stop, exponent_plain (t.stops follows _ (by decide) stop)]
    exact plain_twin t radix kind same
  | some c =>
    cases mark : isExponent r.char? with
    | false =>
      rw [exponent_plain mark, exponent_plain (t.stops follows _ (by decide) mark)]
      exact plain_twin t radix kind same
    | true =>
      rw [exponent_mark char mark] at left ⊢
      obtain ⟨v, rfl, next, char'⟩ := (checkMark_twin t radix c).cons (by simpa using char)
        (Nat.le_trans left (exponentTail_rest_length _ _))
      rw [checkMark_char?] at char'
      rw [exponent_mark char' (by rw [char', ← char]; exact mark)]
      have further := (checkMark_twin t radix c).left.stands.offset_le_next
      rw [checkMark_offset] at further
      exact exponentTail_twin next follows (same.mono further) left

/-! The whole number -/

theorem misplaced_le (hex : Bool) (i : Nat) (previous : Char) (cs : List Char) {k : Nat}
    (found : misplaced hex i previous cs = some k) : k ≤ i + cs.length := by
  fun_induction misplaced hex i previous cs with
  | case1 => simp at found; omega
  | case2 => simp at found
  | case3 i previous c cs separator digit ih =>
    have := ih found
    simp only [List.length_cons]
    omega
  | case4 => simp at found; omega
  | case5 i previous c cs separator digit ih =>
    have := ih found
    simp only [List.length_cons]
    omega
  | case6 => simp at found; omega
  | case7 i previous c cs separator digit other ih =>
    have := ih found
    simp only [List.length_cons]
    omega

theorem misplacedSeparator?_le {literal : List Char} {k : Nat}
    (found : misplacedSeparator? literal = some k) : k ≤ literal.length := by
  unfold misplacedSeparator? at found
  split at found
  · dsimp only at found
    split at found
    · have := misplaced_le _ _ _ _ found
      simp only [List.length_cons]
      omega
    · have := misplaced_le _ _ _ _ found
      omega
  · have := misplaced_le _ _ _ _ found
    omega

/-- A text has no more characters than bytes. -/
theorem length_chars_le (text : Bytes) : (Text.chars text).length ≤ text.length := by
  fun_induction Text.chars text with
  | case1 => exact Nat.le_refl _
  | case2 b rest d ih =>
    simp only [List.length_cons, List.length_drop] at ih ⊢
    omega

/-- A reader behind an integer in which a digit may have been noted that is too large. -/
def withInvalid (kind : Kind) (invalid : Option Nat) (q : Reader) (faulty : Nat → Reader) : Reader :=
  match kind, invalid with
  | .int, some i => faulty i
  | _, _ => q

theorem withInvalid_offset (kind : Kind) (invalid : Option Nat) (q : Reader) (f : Nat → Fault) :
    (withInvalid kind invalid q fun i => q.fault i (f i)).offset = q.offset := by
  unfold withInvalid
  split <;> rfl

theorem checkDigits_twin {v : List Char} {q q' : Reader} (first : Twin S w r r')
    (here : r.offset = S.start) (there : r'.offset = S.start') (last : Twin S v q q') (kind : Kind)
    (radix : Radix) {seen seen' : Digits} (same : SameDigits S q.offset seen seen') :
    Twin S v (checkDigits r.offset kind radix seen (between r q) q)
      (checkDigits r'.offset kind radix seen' (between r' q') q') := by
  have inside : (between r q).length ≤ q.offset - r.offset := List.length_take_le _ _
  have started := last.started
  rw [first.between_eq last, here, there]
  unfold checkDigits
  dsimp only
  have large : Twin S v
      (withInvalid kind seen.invalid q fun i => q.fault i (.invalidDigit
        (Char.ofNat (((between r q)[i - S.start]?).getD 0).toNat) radix))
      (withInvalid kind seen'.invalid q' fun i => q'.fault i (.invalidDigit
        (Char.ofNat (((between r q)[i - S.start']?).getD 0).toNat) radix)) := by
    unfold withInvalid
    obtain ⟨-, -, invalid, within⟩ := same
    cases noted : seen.invalid with
    | none =>
      have absent : seen'.invalid = none := by simpa [noted] using invalid
      rw [absent]
      cases kind <;> exact last
    | some i =>
      obtain ⟨i', noted', apart⟩ : ∃ i', seen'.invalid = some i' ∧ i' + S.start = i + S.start' := by
        simpa [noted] using invalid
      obtain ⟨after, upTo⟩ := within i noted
      have index : i' - S.start' = i - S.start := by omega
      rw [noted']
      cases kind
      case int =>
        dsimp only
        rw [index]
        exact last.fault _ apart.symm after upTo
      all_goals exact last
  rw [same.separator]
  split
  · cases misplaced : misplacedSeparator? (Text.chars (between r q)) with
    | none => exact large
    | some k =>
      have place := misplacedSeparator?_le misplaced
      have chars := length_chars_le (between r q)
      refine large.fault _ (by omega) (by omega) ?_
      rw [withInvalid_offset]
      omega
  · exact large

/-- A number before its exponent, with its radix. -/
def mantissa (start : Reader) : (Reader × Kind × Digits) × Radix :=
  let (r, kind, base, radix, seen) := wholePart start
  let (r, kind, seen) := fraction base radix r kind seen
  ((if seen.digit then r else r.fault r.offset (.noDigits radix), kind, seen), radix)

/-- The mark of an imaginary number, if it is there. -/
def imaginary (r : Reader) (kind : Kind) : Reader × Kind :=
  if r.sees 'i' then (r.next, Kind.imag) else (r, kind)

theorem number_eq (start : Reader) : number start =
    let m := mantissa start
    let e := exponent m.2 m.1.1 m.1.2.1 m.1.2.2
    let i := imaginary e.1 e.2.1
    (checkDigits start.offset i.2 m.2 e.2.2 (between start i.1) i.1, i.2, between start i.1) := by
  unfold number mantissa imaginary
  rfl

theorem imaginary_rest_length (r : Reader) (kind : Kind) :
    (imaginary r kind).1.rest.length ≤ r.rest.length := by
  unfold imaginary
  split
  · exact next_rest_length r
  · exact Nat.le_refl _

theorem mantissa_twin {c : Char} (t : Twin S (c :: w) r r') (follows : GoesOn S.behind S.behind')
    (left : S.size ≤ (mantissa r).1.1.rest.length) :
    SamePart S (mantissa r).1 (mantissa r').1 ∧ (mantissa r').2 = (mantissa r).2 := by
  unfold mantissa at left ⊢
  dsimp only at left ⊢
  rw [Twin.rest_faultUnless] at left
  obtain ⟨⟨⟨v, whole⟩, kind, digits⟩, base, radix⟩ := wholePart_twin t follows
    (Nat.le_trans left (fraction_rest_length _ _ _ _ _))
  obtain ⟨⟨u, twin⟩, kind', digits'⟩ := fraction_twin whole follows (wholePart r).2.2.1
    (wholePart r).2.2.2.1 (wholePart r).2.1 digits left
  dsimp only at kind
  rw [kind, base, radix]
  refine ⟨⟨⟨u, ?_⟩, kind', ?_⟩, rfl⟩
  · dsimp only
    rw [digits'.digit]
    exact twin.faultUnless _ _
  · dsimp only
    rw [Twin.offset_faultUnless]
    exact digits'

theorem imaginary_twin (t : Twin S w r r') (follows : GoesOn S.behind S.behind') (kind : Kind)
    (left : S.size ≤ (imaginary r kind).1.rest.length) :
    (∃ v, Twin S v (imaginary r kind).1 (imaginary r' kind).1) ∧
      (imaginary r' kind).2 = (imaginary r kind).2 := by
  unfold imaginary sees at left ⊢
  obtain ⟨agree, moves⟩ := t.agrees follows (· == some 'i') (by decide) (by
    intro mark
    rwa [if_pos mark] at left)
  rw [agree]
  split
  · rename_i mark
    obtain ⟨-, v, -, -, -, next⟩ := moves mark
    exact ⟨⟨v, next⟩, rfl⟩
  · exact ⟨⟨w, t⟩, rfl⟩

/-- A number is read the same in both texts. -/
theorem number_twin {c : Char} (t : Twin S (c :: w) r r') (follows : GoesOn S.behind S.behind')
    (here : r.offset = S.start) (there : r'.offset = S.start')
    (left : S.size ≤ (number r).1.rest.length) :
    (∃ v, Twin S v (number r).1 (number r').1) ∧ (number r').2 = (number r).2 := by
  rw [number_eq] at left ⊢
  rw [number_eq r']
  dsimp only at left ⊢
  rw [checkDigits_rest] at left
  have left' := Nat.le_trans left (imaginary_rest_length _ _)
  obtain ⟨⟨⟨v, twin⟩, kind, digits⟩, radix⟩ := mantissa_twin t follows
    (Nat.le_trans left' (exponent_rest_length _ _ _ _))
  rw [kind, radix]
  obtain ⟨⟨u, twin'⟩, kind', digits'⟩ := exponent_twin twin follows _ _ digits left'
  rw [kind']
  obtain ⟨⟨x, twin''⟩, kind''⟩ := imaginary_twin twin' follows _ left
  rw [kind'']
  refine ⟨⟨x, checkDigits_twin t here there twin'' _ _ (digits'.mono ?_)⟩, ?_⟩
  · refine twin'.left.stands.offset_le ?_
    unfold imaginary
    split
    · exact reaches_next _
    · exact .refl
  · rw [t.between_eq twin'']

end Desugar.Host.Scan

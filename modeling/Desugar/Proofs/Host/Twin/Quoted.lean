import Desugar.Proofs.Host.Twin
import Desugar.Proofs.Host.Lexeme

/-!
# Strings and characters are told by their own characters

An interpreted string ends with its closing quote, and reading it looks at nothing behind that. A
character literal may be left open without a fault of account: then it ends with its line, and so it
does in another text only if the line ends there too.
-/
namespace Desugar.Host.Scan

open Reader

variable {S : Setting} {w : List Char} {r r' : Reader}

/-! Escapes -/

/-- No fault is noted where the first text goes on behind the characters, if reading stops there. -/
def Calm (S : Setting) (r : Reader) : Prop :=
  r.rest.length = S.size → ∀ f ∈ r.faults, f.offset + S.size ≠ S.text.length

theorem Calm.not_here {f : Fault} (calm : Calm S (r.fault r.offset f)) (t : Twin S w r r') : w ≠ [] := by
  rintro rfl
  have length := t.length
  have whole := t.left.length
  simp only [Text.encode_nil, List.length_nil, Nat.zero_add, List.nil_append] at length whole
  exact calm length _ List.mem_cons_self whole

/-- An escape moves on, or it notes a fault where it stands. -/
theorem escapeDigits_moves (start base limit count : Nat) (r : Reader) (value : Nat) :
    (∃ f, (escapeDigits start base limit (count + 1) r value).1 = r.fault r.offset f) ∨
      (escapeDigits start base limit (count + 1) r value).1.rest.length < r.rest.length := by
  unfold escapeDigits
  split
  · exact .inl ⟨_, rfl⟩
  · rename_i c char
    split
    · exact .inr (Nat.lt_of_le_of_lt (escapeDigits_rest_length _ _ _ _ _ _) (next_rest_length_lt char))
    · exact .inl ⟨_, rfl⟩

theorem escape_moves (mark : Char) (r : Reader) :
    (∃ f, (escape mark r).1 = r.fault r.offset f) ∨
      (escape mark r).1.rest.length < r.rest.length := by
  unfold escape
  split
  · exact .inl ⟨_, rfl⟩
  · rename_i c char
    have forward := next_rest_length_lt char
    split
    · exact .inr forward
    split
    · exact escapeDigits_moves _ _ _ _ _ _
    split
    · exact .inr (Nat.lt_of_le_of_lt (escapeDigits_rest_length _ _ _ _ _ _) forward)
    split
    · exact .inr (Nat.lt_of_le_of_lt (escapeDigits_rest_length _ _ _ _ _ _) forward)
    split
    · exact .inr (Nat.lt_of_le_of_lt (escapeDigits_rest_length _ _ _ _ _ _) forward)
    · exact .inl ⟨_, rfl⟩

theorem escapeDigits_twin (t : Twin S w r r') {o o' : Nat} (apart : o + S.start' = o' + S.start)
    (after : S.start ≤ o) (upTo : o ≤ r.offset) (base limit count value : Nat)
    (left : S.size ≤ (escapeDigits o base limit count r value).1.rest.length)
    (calm : Calm S (escapeDigits o base limit count r value).1) :
    (∃ v, Twin S v (escapeDigits o base limit count r value).1
        (escapeDigits o' base limit count r' value).1) ∧
      (escapeDigits o' base limit count r' value).2 = (escapeDigits o base limit count r value).2 := by
  induction count generalizing w r r' value with
  | zero =>
    unfold escapeDigits
    split
    · exact ⟨⟨w, t.fault _ apart after upTo⟩, rfl⟩
    · exact ⟨⟨w, t⟩, rfl⟩
  | succ count ih =>
    cases w with
    | nil =>
      have length := t.length
      simp only [Text.encode_nil, List.length_nil, Nat.zero_add] at length
      rcases escapeDigits_moves o base limit count r value with ⟨f, stays⟩ | moves
      · rw [stays] at calm
        exact absurd rfl (calm.not_here t)
      · omega
    | cons c w =>
      unfold escapeDigits at left calm ⊢
      rw [t.char.1] at left calm ⊢
      rw [t.char.2]
      dsimp only at left calm ⊢
      split
      · rename_i digit
        rw [if_pos digit] at left calm
        exact ih t.next (Nat.le_trans upTo t.left.stands.offset_le_next) _ left calm
      · exact ⟨⟨_, t.faultHere _⟩, rfl⟩

/-- An escape is read the same in both texts. -/
theorem escape_twin (t : Twin S w r r') (mark : Char)
    (left : S.size ≤ (escape mark r).1.rest.length) (calm : Calm S (escape mark r).1) :
    (∃ v, Twin S v (escape mark r).1 (escape mark r').1) ∧ (escape mark r').2 = (escape mark r).2 := by
  cases w with
  | nil =>
    have length := t.length
    simp only [Text.encode_nil, List.length_nil, Nat.zero_add] at length
    rcases escape_moves mark r with ⟨f, stays⟩ | moves
    · rw [stays] at calm
      exact absurd rfl (calm.not_here t)
    · omega
  | cons c w =>
    have further := t.left.stands.offset_le_next
    unfold escape at left calm ⊢
    rw [t.char.1] at left calm ⊢
    rw [t.char.2]
    dsimp only at left calm ⊢
    split
    · exact ⟨⟨w, t.next⟩, rfl⟩
    rename_i simple
    rw [if_neg simple] at left calm
    split
    · rename_i octal
      rw [if_pos octal] at left calm
      exact escapeDigits_twin t t.apart t.started (Nat.le_refl _) _ _ _ _ left calm
    rename_i octal
    rw [if_neg octal] at left calm
    split
    · rename_i hex
      rw [if_pos hex] at left calm
      exact escapeDigits_twin t.next t.apart t.started further _ _ _ _ left calm
    rename_i hex
    rw [if_neg hex] at left calm
    split
    · rename_i short
      rw [if_pos short] at left calm
      exact escapeDigits_twin t.next t.apart t.started further _ _ _ _ left calm
    rename_i short
    rw [if_neg short] at left calm
    split
    · rename_i long
      rw [if_pos long] at left calm
      exact escapeDigits_twin t.next t.apart t.started further _ _ _ _ left calm
    · exact ⟨⟨_, t.faultHere _⟩, rfl⟩

/-! Strings -/

theorem stringBody_none (start : Nat) (absent : r.char? = none) :
    stringBody start r = r.fault start .openString := by
  rw [stringBody]
  split
  · rfl
  · rename_i char
    rw [absent] at char
    cases char

theorem stringBody_some (start : Nat) {c : Char} (char : r.char? = some c) :
    stringBody start r =
      if c == '\n' then r.fault start .openString
      else if c == '"' then r.next
      else if c == '\\' then stringBody start (escape '"' r.next).1
      else stringBody start r.next := by
  rw [stringBody]
  split
  · rename_i absent
    rw [char] at absent
    cases absent
  · rename_i x same
    rw [char] at same
    cases same
    rfl

/-- A string that is closed takes its closing quote. -/
theorem stringBody_closed {start : Nat} (closed : ⟨start, .openString⟩ ∉ (stringBody start r).faults) :
    ∃ c, r.char? = some c ∧ ¬ (c == '\n') = true ∧
      (stringBody start r).rest.length < r.rest.length := by
  cases char : r.char? with
  | none => exact absurd List.mem_cons_self (stringBody_none start char ▸ closed)
  | some c =>
    have forward := next_rest_length_lt char
    have behind := stringBody_rest_length start r.next
    have escaped := stringBody_rest_length start (escape '"' r.next).1
    have escape := escape_rest_length '"' r.next
    rw [stringBody_some start char] at closed ⊢
    by_cases newline : (c == '\n') = true
    · rw [if_pos newline] at closed
      exact absurd List.mem_cons_self closed
    · refine ⟨c, rfl, newline, ?_⟩
      rw [if_neg newline]
      repeat' split
      all_goals omega

/-- A string that is closed is read the same in both texts. -/
theorem stringBody_twin (t : Twin S w r r')
    (closed : ⟨S.start, .openString⟩ ∉ (stringBody S.start r).faults)
    (left : S.size ≤ (stringBody S.start r).rest.length) :
    ∃ v, Twin S v (stringBody S.start r) (stringBody S.start' r') := by
  induction size : r.rest.length using Nat.strongRecOn generalizing r r' w with
  | ind n ih =>
    subst size
    obtain ⟨c, char, newline, shorter⟩ := stringBody_closed closed
    have forward := next_rest_length_lt char
    cases w with
    | nil =>
      have length := t.length
      simp only [Text.encode_nil, List.length_nil, Nat.zero_add] at length
      omega
    | cons x w =>
      obtain rfl : x = c := by simpa [t.char.1] using char
      rw [stringBody_some _ char, if_neg newline] at closed left ⊢
      rw [stringBody_some _ t.char.2, if_neg newline]
      by_cases quote : (x == '"') = true
      · rw [if_pos quote, if_pos quote]
        exact ⟨w, t.next⟩
      rw [if_neg quote] at closed left ⊢
      rw [if_neg quote]
      by_cases backslash : (x == '\\') = true
      · rw [if_pos backslash] at closed left ⊢
        rw [if_pos backslash]
        obtain ⟨-, -, -, inside⟩ := stringBody_closed closed
        have escaped := escape_rest_length '"' r.next
        obtain ⟨⟨v, twin⟩, -⟩ := escape_twin t.next '"' (by omega) fun stops => by omega
        exact ih _ (by omega) twin closed left rfl
      · rw [if_neg backslash] at closed left ⊢
        rw [if_neg backslash]
        exact ih _ forward t.next closed left rfl

/-! Characters -/

/-- What stands behind the closing quote of a character literal whose opening quote is passed: the first
quote that no backslash takes away, where a backslash takes away a quote or another backslash. -/
def runeRest? : List Char → Option (List Char)
  | [] => none
  | '\'' :: cs => some cs
  | '\\' :: '\'' :: cs => runeRest? cs
  | '\\' :: '\\' :: cs => runeRest? cs
  | _ :: cs => runeRest? cs

theorem runeRest?_plain {c : Char} (quote : c ≠ '\'') (backslash : c ≠ '\\') (cs : List Char) :
    runeRest? (c :: cs) = runeRest? cs := by
  rw [runeRest?.eq_def]
  split <;> simp_all

theorem runeRest?_escape {c : Char} (quote : c ≠ '\'') (backslash : c ≠ '\\') (cs : List Char) :
    runeRest? ('\\' :: c :: cs) = runeRest? cs := by
  rw [runeRest?, runeRest?_plain quote backslash]
  · decide
  · intro rest _ same
    exact quote (List.cons.inj same).1
  · intro rest _ same
    exact backslash (List.cons.inj same).1

theorem runeRest?_length {cs rest : List Char} (h : runeRest? cs = some rest) :
    rest.length < cs.length := by
  fun_induction runeRest? cs with
  | case1 => cases h
  | case2 cs => cases h; simp
  | case3 cs ih => have := ih h; simp only [List.length_cons]; omega
  | case4 cs ih => have := ih h; simp only [List.length_cons]; omega
  | case5 c cs _ _ _ ih => have := ih h; simp only [List.length_cons]; omega

theorem runeRest?_append {cs rest : List Char} (h : runeRest? cs = some rest) (more : List Char) :
    runeRest? (cs ++ more) = some (rest ++ more) := by
  fun_induction runeRest? cs with
  | case1 => cases h
  | case2 cs => cases h; rfl
  | case3 cs ih => exact ih h
  | case4 cs ih => exact ih h
  | case5 c cs quote escaped doubled ih =>
    have behind := ih h
    by_cases backslash : c = '\\'
    · subst backslash
      cases cs with
      | nil => cases h
      | cons d cs =>
        have free : d ≠ '\'' := by rintro rfl; exact escaped cs rfl rfl
        have single : d ≠ '\\' := by rintro rfl; exact doubled cs rfl rfl
        rw [List.cons_append, List.cons_append, runeRest?_escape free single]
        rwa [List.cons_append, runeRest?_plain free single] at behind
    · rw [List.cons_append, runeRest?_plain (by rintro rfl; exact quote rfl) backslash, behind]

theorem digit_plain {c : Char} (digit : digitValue c < 16) : c ≠ '\'' ∧ c ≠ '\\' := by
  constructor <;> (rintro rfl; exact absurd digit (by decide))

theorem escapeDigits_over {text : Bytes} {cs : List Char} (h : r.Over text cs) (o base : Nat)
    (small : base ≤ 16) (limit count value : Nat) :
    ∃ v, (escapeDigits o base limit count r value).1.Over text v ∧ runeRest? cs = runeRest? v := by
  induction count generalizing cs r value with
  | zero =>
    unfold escapeDigits
    split
    · exact ⟨cs, h.fault _ _, rfl⟩
    · exact ⟨cs, h, rfl⟩
  | succ count ih =>
    unfold escapeDigits
    rw [h.char?]
    cases cs with
    | nil => exact ⟨[], h.fault _ _, rfl⟩
    | cons c cs =>
      dsimp only [List.head?_cons]
      split
      · rename_i digit
        obtain ⟨v, upon, same⟩ := ih h.next.1 (value * base + digitValue c)
        obtain ⟨quote, backslash⟩ := digit_plain (Nat.lt_of_lt_of_le digit small)
        exact ⟨v, upon, (runeRest?_plain quote backslash cs).trans same⟩
      · exact ⟨c :: cs, h.fault _ _, rfl⟩

/-- An escape takes no quote and no backslash but the one behind its own. -/
theorem escape_over {text : Bytes} {cs : List Char} (h : r.Over text cs) :
    ∃ v, (escape '\'' r).1.Over text v ∧ runeRest? ('\\' :: cs) = runeRest? v := by
  unfold escape
  rw [h.char?]
  cases cs with
  | nil => exact ⟨[], h.fault _ _, rfl⟩
  | cons c cs =>
    have digits {cs : List Char} {q : Reader} (upon : q.Over text cs) (o limit count : Nat) {base : Nat}
        (small : base ≤ 16) (same : runeRest? ('\\' :: c :: cs) = runeRest? cs) :
        ∃ v, (escapeDigits o base limit count q 0).1.Over text v ∧
          runeRest? ('\\' :: c :: cs) = runeRest? v := by
      obtain ⟨v, there, rest⟩ := escapeDigits_over upon o _ small limit count 0
      exact ⟨v, there, same.trans rest⟩
    dsimp only [List.head?_cons]
    split
    · rename_i simple
      refine ⟨cs, h.next.1, ?_⟩
      by_cases quote : c = '\''
      · rw [quote, runeRest?]
      by_cases backslash : c = '\\'
      · rw [backslash, runeRest?]
      · exact runeRest?_escape quote backslash cs
    rename_i other
    have quote : c ≠ '\'' := by rintro rfl; exact other (by decide)
    have backslash : c ≠ '\\' := by rintro rfl; exact other (by decide)
    have escaped := runeRest?_escape quote backslash cs
    have plain := runeRest?_plain quote backslash cs
    split
    · obtain ⟨v, there, rest⟩ := escapeDigits_over h r.offset 8 (by decide) 255 3 0
      exact ⟨v, there, (escaped.trans plain.symm).trans rest⟩
    split
    · exact digits h.next.1 _ _ _ (by decide) escaped
    split
    · exact digits h.next.1 _ _ _ (by decide) escaped
    split
    · exact digits h.next.1 _ _ _ (by decide) escaped
    · exact ⟨c :: cs, h.fault _ _, escaped.trans plain.symm⟩

/-- What a reader gives that has no character left of a literal. -/
def runeStop (start : Nat) (r : Reader) (valid : Bool) : Reader :=
  if valid then r.fault start .openRune else r

theorem runeBody_stop {start count : Nat} {valid : Bool} (stop : r.char? ∈ [none, some '\n']) :
    runeBody start r count valid = runeStop start r valid := by
  rw [runeBody]
  split
  · rfl
  · rename_i c char
    obtain rfl : c = '\n' := by simpa [char] using stop
    rfl

theorem runeBody_some (start : Nat) {c : Char} (char : r.char? = some c) (newline : c ≠ '\n')
    (count : Nat) (valid : Bool) :
    runeBody start r count valid =
      if c == '\'' then
        if valid && count ≠ 1 then r.next.fault start .runeLength else r.next
      else if c == '\\' then
        runeBody start (escape '\'' r.next).1 (count + 1) (valid && (escape '\'' r.next).2)
      else runeBody start r.next (count + 1) valid := by
  rw [runeBody]
  split
  · rename_i absent
    rw [char] at absent
    cases absent
  · rename_i x same
    rw [char] at same
    cases same
    rw [if_neg (by simpa using newline)]

/-- A literal ends with its line, or it takes a character. -/
theorem runeBody_moves (start count : Nat) (valid : Bool) (r : Reader) :
    r.char? ∈ [none, some '\n'] ∨ (runeBody start r count valid).rest.length < r.rest.length := by
  by_cases stop : r.char? ∈ [none, some '\n']
  · exact .inl stop
  · right
    simp only [List.mem_cons, List.not_mem_nil, or_false, not_or] at stop
    obtain ⟨c, char⟩ := Option.ne_none_iff_exists'.mp stop.1
    have forward := next_rest_length_lt char
    have escaped := escape_rest_length '\'' r.next
    rw [runeBody_some start char (by rintro rfl; exact stop.2 char)]
    split
    · split
      · exact forward
      · exact forward
    split
    · exact Nat.lt_of_le_of_lt (Nat.le_trans (runeBody_rest_length _ _ _ _) escaped) forward
    · exact Nat.lt_of_le_of_lt (runeBody_rest_length _ _ _ _) forward

theorem runeStop_twin (t : Twin S w r r') (valid : Bool) :
    Twin S w (runeStop S.start r valid) (runeStop S.start' r' valid) := by
  unfold runeStop
  split
  · exact t.fault _ (Nat.add_comm _ _) (Nat.le_refl _) t.started
  · exact t

/-- Where a literal goes on behind an escape, the escape notes no fault at its end: a question mark there
would be taken. -/
theorem escape_calm {start count : Nat} {valid : Bool} (h : r.next.At S.text)
    (masked : Masked S.text (runeBody start (escape '\'' r.next).1 count valid).faults)
    (left : S.size ≤ (runeBody start (escape '\'' r.next).1 count valid).rest.length) :
    Calm S (escape '\'' r.next).1 := by
  intro stops f noted last
  have there := h.reaches (reaches_escape '\'' r.next)
  have mark := masked f ((reaches_runeBody start _ count valid).faults noted)
  have whole := there.length_rest
  have place : f.offset = (escape '\'' r.next).1.offset := by omega
  rw [place] at mark
  have char := there.char_of_byte mark (by decide)
  rcases runeBody_moves start count valid (escape '\'' r.next).1 with stop | moves
  · rw [char] at stop
    revert stop
    decide
  · omega

/-- A character literal without faults of account is read the same in both texts, if it is closed or the
line ends behind it in the second one, too. -/
theorem runeBody_twin (t : Twin S w r r') (count : Nat) (valid : Bool)
    (masked : Masked S.text (runeBody S.start r count valid).faults)
    (ends : runeRest? (w ++ S.behind) = some S.behind ∨ S.behind'.head? ∈ [none, some '\n'])
    (left : S.size ≤ (runeBody S.start r count valid).rest.length) :
    ∃ v, Twin S v (runeBody S.start r count valid) (runeBody S.start' r' count valid) := by
  induction size : r.rest.length using Nat.strongRecOn generalizing r r' w count valid with
  | ind n ih =>
    subst size
    cases w with
    | nil =>
      have length := t.length
      simp only [Text.encode_nil, List.length_nil, Nat.zero_add] at length
      rcases runeBody_moves S.start count valid r with stop | moves
      · have unclosed : S.behind'.head? ∈ [none, some '\n'] := by
          refine ends.resolve_left fun closes => ?_
          exact Nat.lt_irrefl _ (runeRest?_length closes)
        rw [runeBody_stop stop, runeBody_stop (t.right.char? ▸ unclosed)]
        exact ⟨[], runeStop_twin t valid⟩
      · omega
    | cons x w =>
      obtain ⟨char, char'⟩ := t.char
      by_cases newline : x = '\n'
      · subst newline
        rw [runeBody_stop (by simp [char]), runeBody_stop (by simp [char'])]
        exact ⟨_, runeStop_twin t valid⟩
      have forward := next_rest_length_lt char
      rw [runeBody_some _ char newline] at masked left ⊢
      rw [runeBody_some _ char' newline]
      by_cases quote : (x == '\'') = true
      · rw [if_pos quote, if_pos quote]
        refine ⟨w, ?_⟩
        have started := t.next.started
        split
        · exact t.next.fault _ (Nat.add_comm _ _) (Nat.le_refl _) started
        · exact t.next
      rw [if_neg quote] at masked left ⊢
      rw [if_neg quote]
      by_cases backslash : (x == '\\') = true
      · rw [if_pos backslash] at masked left ⊢
        rw [if_pos backslash]
        have escaped := escape_rest_length '\'' r.next
        have inside := Nat.le_trans left (runeBody_rest_length _ _ _ _)
        obtain ⟨⟨v, twin⟩, valid'⟩ := escape_twin t.next '\'' inside
          (escape_calm t.next.left.stands masked left)
        rw [valid']
        refine ih _ (by omega) twin _ _ masked (ends.imp_left fun closes => ?_) left rfl
        obtain ⟨u, upon, same⟩ := escape_over t.next.left
        have chars : u = v ++ S.behind :=
          Text.encode_injective (upon.front.symm.trans twin.left.front)
        rw [← chars, ← same]
        rwa [beq_iff_eq.mp backslash] at closes
      · rw [if_neg backslash] at masked left ⊢
        rw [if_neg backslash]
        refine ih _ forward t.next _ _ masked (ends.imp_left fun closes => ?_) left rfl
        rwa [List.cons_append, runeRest?_plain (by simpa using quote) (by simpa using backslash)]
          at closes

/-- A literal is read up to its closing quote, or up to the end of its line. -/
theorem runeBody_over {text : Bytes} {cs : List Char} (h : r.Over text cs) (start count : Nat)
    (valid : Bool) :
    ∃ v, (runeBody start r count valid).Over text v ∧
      (runeRest? cs = some v ∨ v.head? ∈ [none, some '\n']) := by
  induction size : r.rest.length using Nat.strongRecOn generalizing r cs count valid with
  | ind n ih =>
    subst size
    by_cases stop : r.char? ∈ [none, some '\n']
    · rw [runeBody_stop stop]
      refine ⟨cs, ?_, .inr (h.char? ▸ stop)⟩
      unfold runeStop
      split
      · exact h.fault _ _
      · exact h
    cases cs with
    | nil => exact absurd (by simp [h.char?]) stop
    | cons c cs =>
      have char : r.char? = some c := h.char?
      have forward := next_rest_length_lt char
      rw [runeBody_some _ char (by rintro rfl; exact stop (by simp [char]))]
      by_cases quote : (c == '\'') = true
      · rw [if_pos quote]
        obtain rfl : c = '\'' := by simpa using quote
        refine ⟨cs, ?_, .inl rfl⟩
        split
        · exact h.next.1.fault _ _
        · exact h.next.1
      rw [if_neg quote]
      by_cases backslash : (c == '\\') = true
      · rw [if_pos backslash]
        obtain rfl : c = '\\' := by simpa using backslash
        obtain ⟨u, upon, same⟩ := escape_over h.next.1
        have escaped := escape_rest_length '\'' r.next
        obtain ⟨v, there, ends⟩ := ih _ (by omega) upon (count + 1) _ rfl
        exact ⟨v, there, by rwa [same]⟩
      · rw [if_neg backslash]
        obtain ⟨v, there, ends⟩ := ih _ forward h.next.1 (count + 1) valid rfl
        refine ⟨v, there, ?_⟩
        rwa [runeRest?_plain (by simpa using quote) (by simpa using backslash)]

end Desugar.Host.Scan

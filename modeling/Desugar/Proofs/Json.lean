import Desugar.Json
import Desugar.Proofs.Except
import Desugar.Proofs.Text.Decimal
import Desugar.Proofs.Text.Splitting

/-!
# JSON that is written and read again
-/

/-!
## Strings of JSON

What is written for a string is read back as it: a character is written as itself or as an escape, and each is
read as the character, up to the closing mark.
-/
namespace Desugar.JsonValue

variable {cs rest : List Char}

/-! ### Escapes by number -/

theorem hexValue?_hexDigit (n : Nat) : hexValue? (Text.hexDigit n) = some (n % 16) := by
  have each : ∀ m < 16, hexValue? (Nat.digitChar m) = some m := by decide
  exact each (n % 16) (Nat.mod_lt _ (by decide))

theorem fourHex_hex {n : Nat} (small : n < 0x10000) : fourHex (Text.hex 4 n) = some n := by
  simp only [fourHex, Text.hex, List.nil_append, List.cons_append, List.length_cons, List.length_nil, List.foldl_cons,
    List.foldl_nil, hexValue?_hexDigit, if_true, Option.pure_def, Option.bind_eq_bind, Option.bind_some]
  congr 1
  omega

theorem length_hex (width n : Nat) : (Text.hex width n).length = width := by
  induction width generalizing n with
  | zero => rfl
  | succ width ih => simp [Text.hex, ih]

theorem readUnit_hex {n : Nat} (small : n < 0x10000) (rest : List Char) :
    readUnit (Text.hex 4 n ++ rest) = .ok (n, rest) := by
  have front : (Text.hex 4 n ++ rest).take 4 = Text.hex 4 n := List.take_left' (length_hex 4 n)
  have behind : (Text.hex 4 n ++ rest).drop 4 = rest := List.drop_left' (length_hex 4 n)
  simp only [readUnit, front, behind, fourHex_hex small]

/-! ### Characters -/

/-- How one character is read: what is written for it stands for it, whatever follows. -/
def StandsFor (written : List Char) (c : Char) : Prop :=
  ∀ fuel rest, readInside (fuel + 1) (written ++ rest) =
    (readInside fuel rest).map fun (more, rest) => (c :: more, rest)

theorem standsFor_letter {letter c : Char} (known : letterEscapes.lookup letter = some c) (other : letter ≠ 'u') :
    StandsFor ['\\', letter] c := by
  intro fuel rest
  have mark : ('\\' = '"') = False := by decide
  simp only [List.cons_append, List.nil_append, readInside, mark, if_false, if_true, known]
  cases readInside fuel rest <;> rfl

theorem standsFor_unit {c : Char} (small : c.toNat < 0xD800) : StandsFor ('\\' :: 'u' :: Text.hex 4 c.toNat) c := by
  intro fuel rest
  have mark : ('\\' = '"') = False := by decide
  have whole : joinUnits c.toNat rest = (c, rest) := by simp [joinUnits, small]
  simp only [List.cons_append, readInside, mark, if_false, if_true,
    readUnit_hex (Nat.lt_trans small (by decide)) rest, bind, Except.bind, whole]
  cases readInside fuel rest <;> rfl

theorem standsFor_self {c : Char} (noMark : c ≠ '"') (noEscape : c ≠ '\\') (shown : 0x20 ≤ c.toNat) :
    StandsFor [c] c := by
  intro fuel rest
  simp only [List.cons_append, List.nil_append, readInside, noMark, noEscape, if_false, Nat.not_lt.mpr shown]
  cases readInside fuel rest <;> rfl

theorem standsFor_writeChar (c : Char) : StandsFor (writeChar c) c := by
  unfold writeChar
  split
  · exact standsFor_letter rfl (by decide)
  · exact standsFor_letter rfl (by decide)
  · exact standsFor_letter rfl (by decide)
  · exact standsFor_letter rfl (by decide)
  · exact standsFor_letter rfl (by decide)
  · exact standsFor_letter rfl (by decide)
  · exact standsFor_letter rfl (by decide)
  · next noMark noEscape _ _ _ _ _ =>
    split
    · next escaped =>
      refine standsFor_unit ?_
      simp only [Bool.or_eq_true, decide_eq_true_eq] at escaped
      rcases escaped with ((((low | rfl) | rfl) | rfl) | rfl) | rfl
      · omega
      all_goals decide
    · next plain =>
      simp only [Bool.or_eq_true, decide_eq_true_eq, not_or, Nat.not_lt] at plain
      exact standsFor_self noMark noEscape plain.1.1.1.1.1

/-! ### Strings -/

theorem readInside_write (s : List Char) {fuel : Nat} (enough : s.length < fuel) (rest : List Char) :
    readInside fuel (s.flatMap writeChar ++ '"' :: rest) = .ok (s, rest) := by
  induction s generalizing fuel with
  | nil =>
    obtain ⟨fuel, rfl⟩ := Nat.exists_eq_succ_of_ne_zero (Nat.ne_of_gt enough)
    rfl
  | cons c s ih =>
    obtain ⟨fuel, rfl⟩ := Nat.exists_eq_succ_of_ne_zero (Nat.ne_of_gt (Nat.lt_of_le_of_lt (Nat.zero_le _) enough))
    rw [List.flatMap_cons, List.append_assoc, standsFor_writeChar c fuel, ih (by simpa using enough)]
    rfl

theorem writeChar_ne_nil (c : Char) : writeChar c ≠ [] := by
  unfold writeChar
  split
  all_goals first | exact List.cons_ne_nil _ _ | split <;> exact List.cons_ne_nil _ _

theorem length_le_write (s : List Char) : s.length ≤ (s.flatMap writeChar).length := by
  induction s with
  | nil => exact Nat.le_refl 0
  | cons c s ih =>
    have one := List.length_pos_iff.mpr (writeChar_ne_nil c)
    rw [List.flatMap_cons, List.length_append, List.length_cons]
    omega

/-- A string is read back as it was, and what follows it is left. -/
theorem readText_write (s : String) (rest : List Char) :
    readText (s.toList.flatMap writeChar ++ '"' :: rest) = .ok (s, rest) := by
  have enough : s.toList.length < (s.toList.flatMap writeChar ++ '"' :: rest).length + 1 := by
    have short := length_le_write s.toList
    rw [List.length_append]
    omega
  unfold readText
  rw [readInside_write s.toList enough rest]
  exact congrArg (fun s => Except.ok (s, rest)) String.ofList_toList

end Desugar.JsonValue

/-!
## Values of JSON

What is written for a value is read back as it, if its numbers are integers and it nests no deeper than values may.
A value is read up to what cannot go on a number; elements and members are read one after the other, the blanks in
front of them passed over.
-/
namespace Desugar.JsonValue

variable {cs digits rest : List Char} {level levels : Nat} {v : JsonValue}

/-! ### Numbers -/

/-- Characters that go on a number. -/
def isNumberPart (c : Char) : Bool := c.isDigit || c = '.' || c = 'e' || c = 'E'

theorem stops_isDigit (ends : Stops isNumberPart rest) : Stops Char.isDigit rest := by
  intro c head
  have noPart := ends c head
  simp only [isNumberPart, Bool.or_eq_false_iff] at noPart
  exact noPart.1.1.1

theorem readDigits_run (nonempty : digits ≠ []) (all : ∀ c ∈ digits, c.isDigit = true)
    (ends : Stops Char.isDigit rest) : readDigits (digits ++ rest) = .ok (digits, rest) := by
  obtain ⟨d, ds, rfl⟩ := List.exists_cons_of_ne_nil nonempty
  have front := takeWhile_run all ends
  unfold readDigits
  simp only [List.cons_append] at front ⊢
  rw [front]
  simp

theorem readFraction_none (ends : Stops isNumberPart rest) : readFraction rest = .ok ([], rest) := by
  unfold readFraction
  split
  · exact absurd (ends '.' rfl) (by decide)
  · rfl

theorem readExponent_none (ends : Stops isNumberPart rest) : readExponent rest = .ok ([], rest) := by
  cases rest with
  | nil => rfl
  | cons c rest =>
    have noPart := ends c rfl
    simp only [isNumberPart, Bool.or_eq_false_iff, decide_eq_false_iff_not] at noPart
    simp [readExponent, noPart]

theorem head?_toDigits (n : Nat) : (Nat.toDigits 10 n ++ rest).head? = (Nat.toDigits 10 n).head? :=
  List.head?_append_of_ne_nil _ Nat.toDigits_ne_nil

theorem readNumber_toDigits {sign : List Char} (signed : sign = [] ∨ sign = ['-']) (n : Nat)
    (ends : Stops isNumberPart rest) :
    readNumber (sign ++ (Nat.toDigits 10 n ++ rest)) =
      .ok (.number (String.ofList (sign ++ Nat.toDigits 10 n)), rest) := by
  have numeral := isNumeral_toDigits n
  unfold readNumber
  split
  next sign' after told =>
  have parts : sign' = sign ∧ after = Nat.toDigits 10 n ++ rest := by
    rcases signed with rfl | rfl
    · split at told
      · next behind minus =>
        have head := congrArg List.head? minus
        rw [List.nil_append, head?_toDigits] at head
        exact absurd (numeral.digits '-' (List.mem_of_head? head)) (by decide)
      · obtain ⟨rfl, rfl⟩ := Prod.mk.inj told
        exact ⟨rfl, rfl⟩
    · obtain ⟨rfl, rfl⟩ := Prod.mk.inj told
      exact ⟨rfl, rfl⟩
  obtain ⟨rfl, rfl⟩ := parts
  split
  · next behind zero =>
    have head := congrArg List.head? zero
    rw [head?_toDigits] at head
    rw [numeral.front head] at zero ⊢
    obtain rfl : rest = behind := (List.cons.inj zero).2
    simp only [pure, Except.pure, bind, Except.bind, readFraction_none ends, readExponent_none ends, List.append_nil]
  · rw [readDigits_run numeral.ne_nil numeral.digits (stops_isDigit ends)]
    simp only [pure, Except.pure, bind, Except.bind, readFraction_none ends, readExponent_none ends, List.append_nil]

theorem readNumber_int (i : Int) (ends : Stops isNumberPart rest) :
    readNumber ((toString i).toList ++ rest) = .ok (.number (toString i), rest) := by
  have signed : (if i < 0 then ['-'] else []) = [] ∨ (if i < 0 then ['-'] else []) = ['-'] := by
    split
    · exact .inr rfl
    · exact .inl rfl
  have read := readNumber_toDigits signed i.natAbs ends
  rwa [← List.append_assoc, ← toList_int, String.ofList_toList] at read

theorem exists_head_int (i : Int) : ∃ c more, (toString i).toList = c :: more ∧ (c = '-' ∨ c.isDigit = true) := by
  rw [toList_int]
  split
  · exact ⟨'-', _, rfl, .inl rfl⟩
  · have numeral := isNumeral_toDigits i.natAbs
    obtain ⟨d, ds, digits⟩ := List.exists_cons_of_ne_nil numeral.ne_nil
    exact ⟨d, ds, digits, .inr (numeral.digits d (by rw [digits]; exact List.mem_cons_self ..))⟩

theorem ne_of_number {c d : Char} (number : c = '-' ∨ c.isDigit = true) (noMinus : d ≠ '-')
    (noDigit : d.isDigit = false) : c ≠ d := by
  rintro rfl
  rcases number with minus | digit
  · exact noMinus minus
  · rw [digit] at noDigit
    cases noDigit

/-! ### Values -/

/-- A value whose numbers are integers, and that nests so many levels deep at most. -/
inductive Nested : (levels : Nat) → JsonValue → Prop
  | null {levels : Nat} : Nested (levels + 1) null
  | bool {levels : Nat} (b : Bool) : Nested (levels + 1) (bool b)
  | number {levels : Nat} (i : Int) : Nested (levels + 1) (number (toString i))
  | text {levels : Nat} (s : String) : Nested (levels + 1) (text s)
  | array {levels : Nat} {vs : List JsonValue} (inner : ∀ v ∈ vs, Nested levels v) : Nested (levels + 1) (array vs)
  | object {levels : Nat} {ms : List (String × JsonValue)} (inner : ∀ m ∈ ms, Nested levels m.2) :
    Nested (levels + 1) (object ms)

/-- How what is written for a value begins. -/
def Opens (written : List Char) : Prop :=
  ∃ c more, written = c :: more ∧ isBlank c = false ∧ c ≠ ']' ∧ c ≠ '}'

theorem Opens.stops (opens : Opens cs) : Stops isBlank (cs ++ rest) := by
  obtain ⟨c, more, rfl, shown, -⟩ := opens
  intro c' head
  obtain rfl := Option.some.inj head
  exact shown

theorem opens_int (i : Int) : Opens (toString i).toList := by
  obtain ⟨c, more, written, first⟩ := exists_head_int i
  have other {d : Char} := ne_of_number (d := d) first
  refine ⟨c, more, written, ?_, other (by decide) (by decide), other (by decide) (by decide)⟩
  simp [isBlank, other (d := ' ') (by decide) (by decide), other (d := '\t') (by decide) (by decide),
    other (d := '\n') (by decide) (by decide), other (d := '\r') (by decide) (by decide)]

theorem Nested.opens (nested : Nested levels v) (level : Nat) : Opens (write level v) := by
  cases nested with
  | null => exact ⟨_, _, by rw [write]; rfl, by decide, by decide, by decide⟩
  | bool b =>
    cases b
    · exact ⟨_, _, by rw [write]; rfl, by decide, by decide, by decide⟩
    · exact ⟨_, _, by rw [write]; rfl, by decide, by decide, by decide⟩
  | number i =>
    rw [write]
    exact opens_int i
  | text s => exact ⟨'"', _, by rw [write]; rfl, by decide, by decide, by decide⟩
  | array inner =>
    rename_i vs
    cases vs with
    | nil => exact ⟨'[', _, by rw [write], by decide, by decide, by decide⟩
    | cons v vs => exact ⟨'[', _, by rw [write]; rfl, by decide, by decide, by decide⟩
  | object inner =>
    rename_i ms
    cases ms with
    | nil => exact ⟨'{', _, by rw [write], by decide, by decide, by decide⟩
    | cons m ms => exact ⟨'{', _, by rw [write]; rfl, by decide, by decide, by decide⟩

theorem skipBlanks_newLine (level : Nat) (ends : Stops isBlank rest) : skipBlanks (newLine level ++ rest) = rest := by
  refine dropWhile_run ?_ ends
  intro c member
  simp only [newLine, List.mem_cons, List.mem_replicate] at member
  rcases member with rfl | ⟨-, rfl⟩ <;> decide

theorem skipBlanks_cons {c : Char} (shown : isBlank c = false) : skipBlanks (c :: rest) = c :: rest := by
  simp [skipBlanks, shown]

/-- A value is read back from what is written for it, whatever follows that does not go on a number. -/
def ReadsBack (read : List Char → Except Fault (Rest JsonValue)) (level : Nat) (v : JsonValue) : Prop :=
  Opens (write level v) ∧ ∀ rest, Stops isNumberPart rest → read (write level v ++ rest) = .ok (v, rest)

theorem stops_writeElements (level outer : Nat) (vs : List JsonValue) (rest : List Char) :
    Stops isNumberPart (writeElements level vs ++ (newLine outer ++ rest)) := by
  cases vs with
  | nil =>
    rw [writeElements]
    exact stops_cons (by decide)
  | cons v vs =>
    rw [writeElements]
    exact stops_cons (by decide)

theorem length_le_writeElements (level : Nat) (vs : List JsonValue) : vs.length ≤ (writeElements level vs).length := by
  induction vs with
  | nil => exact Nat.zero_le _
  | cons v vs ih =>
    rw [writeElements]
    simp only [List.length_cons, List.length_append]
    omega

variable {read : List Char → Except Fault (Rest JsonValue)} {fuel : Nat}

theorem readElements_write {vs : List JsonValue} (outer : Nat) (each : ∀ u ∈ v :: vs, ReadsBack read level u)
    (enough : vs.length < fuel)
    (front : skipBlanks cs = write level v ++ (writeElements level vs ++ (newLine outer ++ ']' :: rest))) :
    readElements read fuel cs = .ok (v :: vs, rest) := by
  induction vs generalizing v fuel cs with
  | nil =>
    obtain ⟨fuel, rfl⟩ := Nat.exists_eq_succ_of_ne_zero (Nat.ne_of_gt enough)
    have here := (each v (List.mem_cons_self ..)).2 _ (stops_writeElements level outer [] (']' :: rest))
    have closing : skipBlanks (writeElements level [] ++ (newLine outer ++ ']' :: rest)) = ']' :: rest := by
      rw [writeElements, List.nil_append]
      exact skipBlanks_newLine outer (stops_cons (by decide))
    rw [readElements, front, here]
    simp only [bind, Except.bind, closing]
    rfl
  | cons u us ih =>
    obtain ⟨fuel, rfl⟩ := Nat.exists_eq_succ_of_ne_zero (Nat.ne_of_gt (Nat.zero_lt_of_lt enough))
    have here := (each v (List.mem_cons_self ..)).2 _ (stops_writeElements level outer (u :: us) (']' :: rest))
    have comma : skipBlanks (writeElements level (u :: us) ++ (newLine outer ++ ']' :: rest)) =
        ',' :: (newLine level ++ (write level u ++ (writeElements level us ++ (newLine outer ++ ']' :: rest)))) := by
      rw [writeElements]
      simp only [List.cons_append, List.append_assoc]
      exact skipBlanks_cons (by decide)
    have later := ih (fun w member => each w (List.mem_cons_of_mem _ member))
      (Nat.lt_of_succ_lt_succ enough) (skipBlanks_newLine level (each u (by simp)).1.stops)
    rw [readElements, front, here]
    simp only [bind, Except.bind, comma, later]
    rfl

/-- A member as it is written. -/
def writeMember (level : Nat) (m : String × JsonValue) : List Char := writeText m.1 ++ ':' :: ' ' :: write level m.2

theorem stops_writeMembers (level outer : Nat) (ms : List (String × JsonValue)) (rest : List Char) :
    Stops isNumberPart (writeMembers level ms ++ (newLine outer ++ rest)) := by
  cases ms with
  | nil =>
    rw [writeMembers]
    exact stops_cons (by decide)
  | cons m ms =>
    rw [writeMembers]
    exact stops_cons (by decide)

theorem length_le_writeMembers (level : Nat) (ms : List (String × JsonValue)) :
    ms.length ≤ (writeMembers level ms).length := by
  induction ms with
  | nil => exact Nat.zero_le _
  | cons m ms ih =>
    rw [writeMembers]
    simp only [List.length_cons, List.length_append]
    omega

/-- A member is taken off the front: it is the last one, or a comma and the others follow. -/
theorem readMembers_member {m : String × JsonValue} {ms : List (String × JsonValue)} {after : List Char}
    (back : ReadsBack read level m.2) (ends : Stops isNumberPart after)
    (front : skipBlanks cs = writeMember level m ++ after)
    (behind : (skipBlanks after = '}' :: rest ∧ ms = []) ∨
      ∃ more, skipBlanks after = ',' :: more ∧ readMembers read fuel more = .ok (ms, rest)) :
    readMembers read (fuel + 1) cs = .ok (m :: ms, rest) := by
  have name : writeMember level m ++ after =
      '"' :: (m.1.toList.flatMap writeChar ++ '"' :: (':' :: ' ' :: (write level m.2 ++ after))) := by
    simp [writeMember, writeText]
  have colon : skipBlanks (':' :: ' ' :: (write level m.2 ++ after)) = ':' :: ' ' :: (write level m.2 ++ after) :=
    skipBlanks_cons (by decide)
  have value : skipBlanks (' ' :: (write level m.2 ++ after)) = write level m.2 ++ after :=
    dropWhile_of_stops (p := isBlank) back.1.stops
  rw [readMembers, front, name]
  simp only [bind, Except.bind, readText_write, colon, pure, Except.pure, value, back.2 after ends]
  rcases behind with ⟨closing, rfl⟩ | ⟨more, comma, later⟩
  · simp only [closing]
  · simp only [comma, later]

theorem readMembers_write {m : String × JsonValue} {ms : List (String × JsonValue)} (outer : Nat)
    (each : ∀ n ∈ m :: ms, ReadsBack read level n.2) (enough : ms.length < fuel)
    (front : skipBlanks cs = writeMember level m ++ (writeMembers level ms ++ (newLine outer ++ '}' :: rest))) :
    readMembers read fuel cs = .ok (m :: ms, rest) := by
  induction ms generalizing m fuel cs with
  | nil =>
    obtain ⟨fuel, rfl⟩ := Nat.exists_eq_succ_of_ne_zero (Nat.ne_of_gt enough)
    have closing : skipBlanks (writeMembers level [] ++ (newLine outer ++ '}' :: rest)) = '}' :: rest := by
      rw [writeMembers, List.nil_append]
      exact skipBlanks_newLine outer (stops_cons (by decide))
    exact readMembers_member (each m (List.mem_cons_self ..)) (stops_writeMembers level outer [] _) front
      (.inl ⟨closing, rfl⟩)
  | cons u us ih =>
    obtain ⟨fuel, rfl⟩ := Nat.exists_eq_succ_of_ne_zero (Nat.ne_of_gt (Nat.zero_lt_of_lt enough))
    have comma : skipBlanks (writeMembers level (u :: us) ++ (newLine outer ++ '}' :: rest)) =
        ',' ::
          (newLine level ++ (writeMember level u ++ (writeMembers level us ++ (newLine outer ++ '}' :: rest)))) := by
      rw [writeMembers]
      simp only [List.cons_append, List.append_assoc, writeMember]
      exact skipBlanks_cons (by decide)
    have quoted : Stops isBlank (writeMember level u ++ (writeMembers level us ++ (newLine outer ++ '}' :: rest))) :=
      stops_cons (by decide)
    have later := ih (fun w member => each w (List.mem_cons_of_mem _ member))
      (Nat.lt_of_succ_lt_succ enough) (skipBlanks_newLine level quoted)
    exact readMembers_member (each m (List.mem_cons_self ..)) (stops_writeMembers level outer (u :: us) _) front
      (.inr ⟨_, comma, later⟩)

theorem readValue_of_number {c : Char} (number : c = '-' ∨ c.isDigit = true) :
    readValue (levels + 1) (c :: cs) = readNumber (c :: cs) := by
  have other {d : Char} := ne_of_number (d := d) number
  unfold readValue
  split
  · next empty => cases empty
  · next same => exact absurd (List.cons.inj same).1 (other (by decide) (by decide))
  · next same => exact absurd (List.cons.inj same).1 (other (by decide) (by decide))
  · next same => exact absurd (List.cons.inj same).1 (other (by decide) (by decide))
  · next same => exact absurd (List.cons.inj same).1 (other (by decide) (by decide))
  · next same => exact absurd (List.cons.inj same).1 (other (by decide) (by decide))
  · next same => exact absurd (List.cons.inj same).1 (other (by decide) (by decide))
  · next same =>
    obtain rfl := (List.cons.inj same).1
    simp [number]

theorem Opens.ne {c : Char} {more : List Char} (opens : Opens cs) (closing : c = ']' ∨ c = '}') :
    cs ++ rest ≠ c :: more := by
  obtain ⟨first, behind, rfl, -, noBracket, noBrace⟩ := opens
  intro same
  obtain rfl := (List.cons.inj same).1
  exact closing.elim noBracket noBrace

theorem readValue_array {vs : List JsonValue} (each : ∀ v ∈ vs, ReadsBack (readValue levels) (level + 1) v) :
    readValue (levels + 1) (write level (.array vs) ++ rest) = .ok (.array vs, rest) := by
  cases vs with
  | nil =>
    rw [write]
    rfl
  | cons v vs =>
    have opens := (each v (List.mem_cons_self ..)).1
    have written : write level (.array (v :: vs)) ++ rest = '[' :: (newLine (level + 1) ++
        (write (level + 1) v ++ (writeElements (level + 1) vs ++ (newLine level ++ ']' :: rest)))) := by
      rw [write]
      simp
    have shown : Stops isBlank (write (level + 1) v ++
        (writeElements (level + 1) vs ++ (newLine level ++ ']' :: rest))) := opens.stops
    have long := length_le_writeElements (level + 1) vs
    rw [written, readValue, skipBlanks_newLine (level + 1) shown]
    split
    · next same => exact absurd same (opens.ne (.inl rfl))
    · rw [readElements_write level each ?_ (dropWhile_of_stops shown)]
      · rfl
      · simp only [List.length_append]
        omega

theorem readValue_object {ms : List (String × JsonValue)}
    (each : ∀ m ∈ ms, ReadsBack (readValue levels) (level + 1) m.2) :
    readValue (levels + 1) (write level (.object ms) ++ rest) = .ok (.object ms, rest) := by
  cases ms with
  | nil =>
    rw [write]
    rfl
  | cons m ms =>
    have written : write level (.object (m :: ms)) ++ rest = '{' :: (newLine (level + 1) ++
        (writeMember (level + 1) m ++ (writeMembers (level + 1) ms ++ (newLine level ++ '}' :: rest)))) := by
      rw [write]
      simp [writeMember]
    have quoted : Stops isBlank (writeMember (level + 1) m ++
        (writeMembers (level + 1) ms ++ (newLine level ++ '}' :: rest))) := stops_cons (by decide)
    have long := length_le_writeMembers (level + 1) ms
    rw [written, readValue, skipBlanks_newLine (level + 1) quoted]
    split
    · next same => exact absurd (List.cons.inj same).1 (by decide)
    · rw [readMembers_write level each ?_ (dropWhile_of_stops quoted)]
      · rfl
      · simp only [List.length_append]
        omega

/-- What is written for a value is read back as it. -/
theorem Nested.readsBack (nested : Nested levels v) (level : Nat) : ReadsBack (readValue levels) level v := by
  refine ⟨nested.opens level, fun rest ends => ?_⟩
  induction nested generalizing level rest with
  | null => rfl
  | bool b => cases b <;> rfl
  | number i =>
    obtain ⟨c, more, written, first⟩ := exists_head_int i
    have number := readNumber_int i ends
    rw [written, List.cons_append] at number
    rw [write, written, List.cons_append, readValue_of_number first, number]
  | text s =>
    have written : write level (.text s) ++ rest = '"' :: (s.toList.flatMap writeChar ++ '"' :: rest) := by
      rw [write]
      simp [writeText]
    rw [written, readValue, readText_write]
    rfl
  | array inner ih =>
    exact readValue_array fun v member => ⟨(inner v member).opens _, fun rest ends => ih v member _ rest ends⟩
  | object inner ih =>
    exact readValue_object fun m member => ⟨(inner m member).opens _, fun rest ends => ih m member _ rest ends⟩

/-- A value that nests no deeper than values may is what its text is read as. -/
theorem parse_render (nested : Nested (maxDepth + 1) v) : parse v.render = .ok v := by
  obtain ⟨opens, read⟩ := nested.readsBack 0
  have front : skipBlanks v.render.toList = write 0 v := by
    rw [render, String.toList_ofList, ← List.append_nil (write 0 v)]
    exact dropWhile_of_stops opens.stops
  have value := read [] nofun
  rw [List.append_nil] at value
  unfold parse
  rw [front, value]
  rfl

end Desugar.JsonValue

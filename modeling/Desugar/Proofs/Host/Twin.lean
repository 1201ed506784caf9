import Desugar.Proofs.Host.Characters

/-!
# Reading the same characters in two texts

Two readers in two texts stand before the same characters, with other characters behind them. As long as
what is read from the one text stops where the same characters stop, the same is read from the other
text, and the same faults are noted at the same distance, if nothing behind the characters extends what
was read.
-/
namespace Desugar.Host

open Reader Scan

/-- Two texts with the same characters read from two offsets on, and what stands behind them. -/
structure Setting where
  text : Bytes
  text' : Bytes
  behind : List Char
  behind' : List Char
  start : Nat
  start' : Nat

/-- Nothing, a blank or a delimiter: what extends no lexeme. -/
def idle : List (Option Char) :=
  [none, some ' ', some '\n', some ',', some ')', some ']', some ';']

/-- What makes no longer lexeme of a point, a colon or an equals sign before it. -/
def IsStill (c : Option Char) : Prop := c ≠ some '.' ∧ c ≠ some '=' ∧ ∀ d, c = some d → isDecimal d = false

/-- The second characters go on as the first ones do, or not at all. What the scanner looks at behind the
next character is told by `second`. -/
structure GoesOn (cs cs' : List Char) : Prop where
  head : cs'.head? = cs.head? ∨ (cs'.head? ∈ idle ∧ cs.head? ≠ some '?')
  second : ∀ c ∈ [':', '=', '.'], cs'.head? = some c →
    cs'[1]? = cs[1]? ∨ (IsStill cs[1]? ∧ IsStill cs'[1]?)

/-- The readers stand before the characters `w` in the two texts of a setting, and have noted the same
faults at the same distances from the start. -/
structure Twin (S : Setting) (w : List Char) (r r' : Reader) : Prop where
  left : r.Over S.text (w ++ S.behind)
  right : r'.Over S.text' (w ++ S.behind')
  apart : r.offset + S.start' = r'.offset + S.start
  faults : r'.faults.map (fun f => f.offset + S.start) = r.faults.map (fun f => f.offset + S.start')
  within : ∀ f ∈ r.faults, S.start ≤ f.offset ∧ f.offset ≤ r.offset
  started : S.start ≤ r.offset

/-- How many bytes stand behind in the first text. -/
def Setting.size (S : Setting) : Nat := (Text.encode S.behind).length

namespace Twin

variable {S : Setting} {w : List Char} {r r' : Reader} {c : Char}

theorem next (t : Twin S (c :: w) r r') : Twin S w r.next r'.next := by
  obtain ⟨upon, faults, offset⟩ := t.left.next
  obtain ⟨upon', faults', offset'⟩ := t.right.next
  have apart := t.apart
  have started := t.started
  refine ⟨upon, upon', by omega, by rw [faults, faults', t.faults], ?_, by omega⟩
  intro f noted
  rw [faults] at noted
  have := t.within f noted
  omega

theorem char (t : Twin S (c :: w) r r') : r.char? = some c ∧ r'.char? = some c :=
  ⟨t.left.char?, t.right.char?⟩

theorem length (t : Twin S w r r') : r.rest.length = (Text.encode w).length + S.size := by
  rw [t.left.front, Text.encode_append, List.length_append, Setting.size]

/-- A fault noted in both texts at the same distance. -/
theorem fault (t : Twin S w r r') {o o' : Nat} (f : Fault) (apart : o + S.start' = o' + S.start)
    (after : S.start ≤ o) (upTo : o ≤ r.offset) : Twin S w (r.fault o f) (r'.fault o' f) := by
  refine ⟨t.left.fault o f, t.right.fault o' f, t.apart, ?_, ?_, t.started⟩
  · simp only [Reader.fault, List.map_cons, t.faults, apart]
  · intro g noted
    rcases List.mem_cons.mp noted with rfl | before
    · exact ⟨after, upTo⟩
    · exact t.within g before

/-- A fault noted where the readers stand. -/
theorem faultHere (t : Twin S w r r') (f : Fault) :
    Twin S w (r.fault r.offset f) (r'.fault r'.offset f) :=
  t.fault f t.apart t.started (Nat.le_refl _)

/-- What is read of the first text up to what stands behind is read of both. -/
theorem cons (t : Twin S w r r') (char : r.char? = some c) (left : S.size ≤ r.next.rest.length) :
    ∃ v, w = c :: v ∧ Twin S v r.next r'.next ∧ r'.char? = some c := by
  cases w with
  | nil =>
    have shorter := next_rest_length_lt char
    have length := t.length
    simp at length
    omega
  | cons x w =>
    have seen := t.char.1
    rw [char] at seen
    obtain rfl : c = x := by simpa using seen
    exact ⟨w, rfl, t.next, t.char.2⟩

/-- What does not go on in the first text does not go on in the second one. -/
theorem stops (t : Twin S w r r') (follows : GoesOn S.behind S.behind') (p : Option Char → Bool)
    (calm : ∀ x ∈ idle, p x = false) (stop : p r.char? = false) : p r'.char? = false := by
  cases w with
  | cons c w => rwa [t.char.2, ← t.char.1]
  | nil =>
    rw [t.right.char?, List.nil_append]
    rw [t.left.char?, List.nil_append] at stop
    rcases follows.head with same | ⟨stopped, -⟩
    · rwa [same]
    · exact calm _ stopped

/-- A test of the current character comes out the same, and what it lets pass is passed in both. -/
theorem agrees (t : Twin S w r r') (follows : GoesOn S.behind S.behind') (p : Option Char → Bool)
    (calm : ∀ x ∈ idle, p x = false) (left : p r.char? = true → S.size ≤ r.next.rest.length) :
    p r'.char? = p r.char? ∧
      (p r.char? = true → ∃ c v, w = c :: v ∧ r.char? = some c ∧ r'.char? = some c ∧
        Twin S v r.next r'.next) := by
  cases seen : p r.char? with
  | false => exact ⟨t.stops follows p calm seen, nofun⟩
  | true =>
    cases char : r.char? with
    | none => rw [char, calm none (by decide)] at seen; cases seen
    | some c =>
      obtain ⟨v, rfl, twin, char'⟩ := t.cons char (left seen)
      refine ⟨by rw [char', ← char, seen], fun _ => ⟨c, v, rfl, rfl, char', twin⟩⟩

theorem sees_cons (t : Twin S (c :: w) r r') (x : Char) : r'.sees x = r.sees x := by
  simp [sees, t.char]

@[simp] theorem char?_faultIf (r : Reader) (o : Nat) (f : Fault) (b : Prop) [Decidable b] :
    (if b then r.fault o f else r).char? = r.char? := by
  split <;> rfl

@[simp] theorem offset_faultIf (r : Reader) (o : Nat) (f : Fault) (b : Prop) [Decidable b] :
    (if b then r.fault o f else r).offset = r.offset := by
  split <;> rfl

@[simp] theorem rest_faultUnless (r : Reader) (o : Nat) (f : Fault) (b : Prop) [Decidable b] :
    (if b then r else r.fault o f).rest = r.rest := by
  split <;> rfl

@[simp] theorem offset_faultUnless (r : Reader) (o : Nat) (f : Fault) (b : Prop) [Decidable b] :
    (if b then r else r.fault o f).offset = r.offset := by
  split <;> rfl

/-- A fault that is noted where the readers stand, or none. -/
theorem faultIf (t : Twin S w r r') (f : Fault) (b : Prop) [Decidable b] :
    Twin S w (if b then r.fault r.offset f else r) (if b then r'.fault r'.offset f else r') := by
  split
  · exact t.faultHere f
  · exact t

theorem faultUnless (t : Twin S w r r') (f : Fault) (b : Prop) [Decidable b] :
    Twin S w (if b then r else r.fault r.offset f) (if b then r' else r'.fault r'.offset f) := by
  split
  · exact t
  · exact t.faultHere f

/-- The same was read between readers that stand before the same characters. -/
theorem between_eq {v : List Char} {q q' : Reader} (first : Twin S w r r') (last : Twin S v q q') :
    Scan.between r' q' = Scan.between r q := by
  have wide := first.left.length
  have wide' := last.left.length
  have apart := first.apart
  have apart' := last.apart
  simp only [Text.encode_append, List.length_append] at wide wide'
  have less : q.offset - r.offset ≤ (Text.encode w).length := by omega
  have same : q'.offset - r'.offset = q.offset - r.offset := by omega
  rw [Scan.between, Scan.between, first.left.front, first.right.front, same, Text.encode_append,
    Text.encode_append, List.take_append_of_le_length less, List.take_append_of_le_length less]

end Twin
end Desugar.Host

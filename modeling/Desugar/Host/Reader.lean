import Desugar.Host.Fault

/-!
# Reading characters

A reader stands on one character of a text. Moving onto a character that may not stand in a source
records a fault there; reading goes on.
-/
namespace Desugar.Host

structure Reader where
  /-- Offset of the current character. -/
  offset : Nat
  /-- The text from the current character on. -/
  rest : Bytes
  /-- Length of the whole text. -/
  size : Nat
  /-- Offset of the first byte of the current line. -/
  lineStart : Nat
  /-- Faults found so far, the last one first. -/
  faults : List Located
  deriving Repr, Inhabited

namespace Reader

/-- The current character, or nothing at the end. -/
def char? (r : Reader) : Option Char := (Text.decode? r.rest).map (·.char)

/-- Whether the current character is `c`. -/
def sees (r : Reader) (c : Char) : Bool := r.char? == some c

/-- The byte after the current character, zero at the end. -/
def peek (r : Reader) : UInt8 :=
  match r.rest with
  | [] => 0
  | b :: rest => ((rest.drop (Text.decodeCons b rest).more).head?).getD 0

def fault (r : Reader) (offset : Nat) (f : Fault) : Reader :=
  { r with faults := ⟨offset, f⟩ :: r.faults }

/-- The fault of a character that may not stand at an offset after the first. -/
def characterFault? : Bytes → Option Fault
  | [] => none
  | b :: rest =>
    let d := Text.decodeCons b rest
    if b = 0 then some .nul
    else if !d.valid then some .encoding
    else if d.char = '\uFEFF' then some .byteOrderMark
    else none

/-- Records the current character's fault, if it has one. -/
def inspect (r : Reader) : Reader :=
  match characterFault? r.rest with
  | some f => r.fault r.offset f
  | none => r

/-- Moves to the next character. -/
def next (r : Reader) : Reader :=
  match r.rest with
  | [] => r
  | b :: rest =>
    let d := Text.decodeCons b rest
    let rest := rest.drop d.more
    let offset := if rest.isEmpty then r.size else r.offset + d.width
    inspect { r with rest, offset, lineStart := if b = 0x0A then offset else r.lineStart }

@[simp] theorem fault_rest (r : Reader) (o : Nat) (f : Fault) : (r.fault o f).rest = r.rest := rfl

@[simp] theorem inspect_rest (r : Reader) : r.inspect.rest = r.rest := by
  unfold inspect; split <;> rfl

theorem next_rest_length (r : Reader) : r.next.rest.length ≤ r.rest.length := by
  unfold next
  split
  · exact Nat.le_refl _
  · rename_i h
    simp only [inspect_rest, List.length_drop, h, List.length_cons]
    omega

theorem next_rest_length_lt {r : Reader} {c : Char} (h : r.char? = some c) :
    r.next.rest.length < r.rest.length := by
  unfold next
  split
  · rename_i e; simp [char?, Text.decode?, e] at h
  · rename_i e
    simp only [inspect_rest, List.length_drop, e, List.length_cons]
    omega

/-- Moves over all characters that satisfy `p`. -/
def skipWhile (p : Char → Bool) (r : Reader) : Reader :=
  match _h : r.char? with
  | some c => if p c then skipWhile p r.next else r
  | none => r
termination_by r.rest.length
decreasing_by exact next_rest_length_lt _h

theorem skipWhile_rest_length (p : Char → Bool) (r : Reader) :
    (skipWhile p r).rest.length ≤ r.rest.length := by
  fun_induction skipWhile p r with
  | case1 r c h _ ih => exact Nat.le_trans ih (next_rest_length r)
  | case2 => exact Nat.le_refl _
  | case3 => exact Nat.le_refl _

/-- Moving over a character that satisfies `p` makes progress. -/
theorem skipWhile_rest_length_lt {p : Char → Bool} {r : Reader} {c : Char}
    (h : r.char? = some c) (hp : p c) : (skipWhile p r).rest.length < r.rest.length := by
  have e : skipWhile p r = skipWhile p r.next := by
    rw [skipWhile]
    split
    · rename_i h'
      rw [h] at h'
      cases h'
      simp [hp]
    · rename_i h'
      rw [h] at h'
      cases h'
  rw [e]
  exact Nat.lt_of_le_of_lt (skipWhile_rest_length p r.next) (next_rest_length_lt h)

/-- Moves on if the current character is `c`, and tells whether it was. -/
def accept (r : Reader) (c : Char) : Reader × Bool := if r.sees c then (r.next, true) else (r, false)

/-- The start of a text. A byte order mark there is passed over; a text in a wider encoding is
one character that cannot be read. -/
def ofText (text : Bytes) : Reader :=
  let r : Reader := ⟨0, text, text.length, 0, []⟩
  match text with
  | 0xFF :: 0xFE :: _ | 0xFE :: 0xFF :: _ =>
    { r with rest := text.take 1, faults := [⟨0, .wideEncoding⟩] }
  | _ =>
    if r.sees '\uFEFF' then r.next else inspect r

end Reader
end Desugar.Host

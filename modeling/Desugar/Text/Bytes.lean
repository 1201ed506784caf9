/-!
# Source text as bytes

Source text is a list of bytes, because spans are byte offsets and a source may hold bytes that
are no UTF-8. A character is read off the front of such a text; a byte that starts no character is
read as the replacement character and has width one, so that reading always moves on.
-/
namespace Desugar

/-- Text as it stands in a file. -/
abbrev Bytes := List UInt8

namespace Text

/-- The bytes of a string in UTF-8. -/
def utf8 (s : String) : Bytes :=
  s.toList.flatMap String.utf8EncodeChar

/-- A character at the front of a text: its code point, how many bytes it takes after the first,
and whether those bytes are well formed. -/
structure Decoded where
  char : Char
  more : Nat
  valid : Bool
  deriving DecidableEq, Repr

/-- How many bytes the character takes. -/
def Decoded.width (d : Decoded) : Nat := d.more + 1

/-- What stands for a byte that starts no character. -/
def replacement : Char := '\uFFFD'

/-- A byte that starts no character. -/
def Decoded.malformed : Decoded := ⟨replacement, 0, false⟩

/-- A byte of the form `10xxxxxx`. -/
def isContinuation (b : UInt8) : Bool := 0x80 ≤ b && b ≤ 0xBF

/-- The low six bits of a continuation byte. -/
def low6 (b : UInt8) : Nat := b.toNat % 64

/-- The character that starts with byte `b` when `rest` follows. -/
def decodeCons (b : UInt8) (rest : Bytes) : Decoded :=
  if b < 0x80 then ⟨Char.ofNat b.toNat, 0, true⟩
  else match rest with
    | c :: rest =>
      if 0xC2 ≤ b && b ≤ 0xDF then
        if isContinuation c then ⟨Char.ofNat ((b.toNat % 32) * 64 + low6 c), 1, true⟩ else .malformed
      else match rest with
        | d :: rest =>
          if 0xE0 ≤ b && b ≤ 0xEF then
            let low : UInt8 := if b == 0xE0 then 0xA0 else 0x80
            let high : UInt8 := if b == 0xED then 0x9F else 0xBF
            if low ≤ c && c ≤ high && isContinuation d then
              ⟨Char.ofNat ((b.toNat % 16) * 4096 + low6 c * 64 + low6 d), 2, true⟩
            else .malformed
          else match rest with
            | e :: _ =>
              let low : UInt8 := if b == 0xF0 then 0x90 else 0x80
              let high : UInt8 := if b == 0xF4 then 0x8F else 0xBF
              if 0xF0 ≤ b && b ≤ 0xF4 && low ≤ c && c ≤ high && isContinuation d &&
                  isContinuation e then
                ⟨Char.ofNat ((b.toNat % 8) * 262144 + low6 c * 4096 + low6 d * 64 + low6 e), 3, true⟩
              else .malformed
            | [] => .malformed
        | [] => .malformed
    | [] => .malformed

/-- The character at the front of a text, if there is one. -/
def decode? : Bytes → Option Decoded
  | [] => none
  | b :: rest => some (decodeCons b rest)

/-- All characters of a text, bytes that start none read as the replacement character. -/
def chars : Bytes → List Char
  | [] => []
  | b :: rest =>
    let d := decodeCons b rest
    d.char :: chars (rest.drop d.more)
termination_by bs => bs.length
decreasing_by simp only [List.length_drop, List.length_cons]; omega

/-- The text as a string, bytes that start no character read as the replacement character. -/
def toString (bs : Bytes) : String := String.ofList (chars bs)

/-- Whether the text is well-formed UTF-8. -/
def isUtf8 : Bytes → Bool
  | [] => true
  | b :: rest =>
    let d := decodeCons b rest
    d.valid && isUtf8 (rest.drop d.more)
termination_by bs => bs.length
decreasing_by simp only [List.length_drop, List.length_cons]; omega

/-- Where `pattern` first stands in a text, as a byte offset. -/
def indexOf (pattern : Bytes) : Bytes → Option Nat
  | [] => if pattern.isEmpty then some 0 else none
  | b :: rest =>
    if pattern.isPrefixOf (b :: rest) then some 0
    else (indexOf pattern rest).map (· + 1)

/-- Whether `pattern` stands in the text. -/
def contains (pattern text : Bytes) : Bool := (indexOf pattern text).isSome

/-- The bytes from offset `start` up to `stop`. -/
def slice (text : Bytes) (start stop : Nat) : Bytes := (text.drop start).take (stop - start)

/-- The text without `tail` at its end, if it ends so. -/
def dropEnd (text tail : Bytes) : Bytes :=
  if tail.isSuffixOf text then text.take (text.length - tail.length) else text

theorem Decoded.width_pos (d : Decoded) : 0 < d.width := Nat.succ_pos _

theorem slice_append_slice (text : Bytes) {i j k : Nat} (hij : i ≤ j) (hjk : j ≤ k) :
    slice text i j ++ slice text j k = slice text i k := by
  unfold slice
  have : text.drop j = (text.drop i).drop (j - i) := by
    rw [List.drop_drop]; congr 1; omega
  rw [this]
  have hk : k - i = (j - i) + (k - j) := by omega
  rw [hk, List.take_add]

end Text
end Desugar

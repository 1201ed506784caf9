import Desugar.Host.LineTable
import Desugar.Host.Reader
import Desugar.Host.Token

/-!
# Lexemes of the host language

A text is read as a sequence of lexemes, comments included. A newline after a lexeme that can end a
statement is a semicolon of its own, spelt as a newline. Each lexeme carries the faults found while
it was read; reading never stops before the end of the text.
-/
namespace Desugar.Host

structure Lexeme where
  kind : Kind
  offset : Nat
  /-- The text of the lexeme, without carriage returns where they do not count; empty for
  operators. -/
  literal : Bytes
  faults : List Located
  deriving DecidableEq, Repr, Inhabited

namespace Lexeme

/-- The lexeme's spelling. -/
def text (l : Lexeme) : Bytes := if l.literal.isEmpty then Text.utf8 l.kind.text else l.literal

/-- A semicolon that stands for a newline or the end of the text. -/
def isAutomatic (l : Lexeme) : Bool := l.kind = .semicolon && l.literal = [0x0A]

end Lexeme

namespace Scan

open Reader

def isDecimal (c : Char) : Bool := '0' ≤ c && c ≤ '9'

def lower (c : Char) : Char := if 'A' ≤ c && c ≤ 'Z' then Char.ofNat (c.toNat + 32) else c

def isHex (c : Char) : Bool := isDecimal c || ('a' ≤ lower c && lower c ≤ 'f')

def isLetter (c : Char) : Bool := Text.isLetter c

def isWordChar (c : Char) : Bool := Text.isLetter c || Text.isDigit c

/-- The text between two readers. -/
def between (start stop : Reader) : Bytes := start.rest.take (stop.offset - start.offset)

/-! Numbers -/

/-- What a run of digits and separators holds. -/
structure Digits where
  digit : Bool
  separator : Bool
  /-- Offset of the first digit that is not below the base. -/
  invalid : Option Nat
  deriving Repr

def Digits.join (a b : Digits) : Digits :=
  ⟨a.digit || b.digit, a.separator || b.separator, a.invalid <|> b.invalid⟩

/-- Reads digits and separators. A base up to ten takes all decimal digits and notes the first
that is too large. -/
def digits (base : Nat) (r : Reader) (seen : Digits) : Reader × Digits :=
  match _h : r.char? with
  | none => (r, seen)
  | some c =>
    if c == '_' then digits base r.next { seen with separator := true }
    else if base ≤ 10 then
      if isDecimal c then
        let bad := if c.toNat < 48 + base then none else some r.offset
        digits base r.next { seen with digit := true, invalid := seen.invalid <|> bad }
      else (r, seen)
    else if isHex c then digits base r.next { seen with digit := true }
    else (r, seen)
termination_by r.rest.length
decreasing_by all_goals exact next_rest_length_lt _h

/-- Where a separator stands that does not separate two digits. `hex` tells whether letters count
as digits, `previous` is the class of the character before: separator, digit or neither. -/
def misplaced (hex : Bool) (i : Nat) (previous : Char) : List Char → Option Nat
  | [] => if previous == '_' then some (i - 1) else none
  | c :: cs =>
    if c == '_' then
      if previous == '0' then misplaced hex (i + 1) '_' cs else some i
    else if isDecimal c || (hex && isHex c) then misplaced hex (i + 1) '0' cs
    else if previous == '_' then some (i - 1)
    else misplaced hex (i + 1) '.' cs

/-- Where the first misplaced separator of a number stands; a base mark counts as a digit. -/
def misplacedSeparator? (literal : List Char) : Option Nat :=
  match literal with
  | '0' :: m :: rest =>
    let mark := lower m
    if mark == 'x' || mark == 'o' || mark == 'b' then misplaced (mark == 'x') 2 '0' rest
    else misplaced false 0 '.' literal
  | _ => misplaced false 0 '.' literal

/-- The base of a number and its radix, after its mark. -/
def numberBase (r : Reader) : Reader × Nat × Radix × Bool :=
  if r.sees '0' then
    let r := r.next
    match (r.char?).map lower with
    | some 'x' => (r.next, 16, .hexadecimal, false)
    | some 'o' => (r.next, 8, .octal, false)
    | some 'b' => (r.next, 2, .binary, false)
    | _ => (r, 8, .zero, true)
  else (r, 10, .decimal, false)

/-- The exponent of a number, if it has one. -/
def exponent (radix : Radix) (r : Reader) (kind : Kind) (seen : Digits) : Reader × Kind × Digits :=
  match r.char? with
  | none => plain r
  | some c =>
    let e := lower c
    if e == 'e' || e == 'p' then
      let r :=
        if e == 'e' && radix ≠ .decimal && radix ≠ .zero then r.fault r.offset (.decimalExponent c)
        else if e == 'p' && radix ≠ .hexadecimal then r.fault r.offset (.hexadecimalExponent c)
        else r
      let r := r.next
      let r := if r.sees '+' || r.sees '-' then r.next else r
      let (r, ds) := digits 10 r ⟨false, false, none⟩
      let r := if ds.digit then r else r.fault r.offset .exponentDigits
      (r, .float, { seen with separator := seen.separator || ds.separator })
    else plain r
where
  plain (r : Reader) : Reader × Kind × Digits :=
    if radix = .hexadecimal && kind = .float then (r.fault r.offset .missingExponent, kind, seen)
    else (r, kind, seen)

/-- The part of a number before its point, with its base, its radix and what its digits hold. -/
def wholePart (start : Reader) : Reader × Kind × Nat × Radix × Digits :=
  if start.sees '.' then (start, .illegal, 10, .decimal, ⟨false, false, none⟩)
  else
    let (r, base, radix, zero) := numberBase start
    let (r, ds) := digits base r ⟨zero, false, none⟩
    (r, .int, base, radix, ds)

/-- The part of a number from its point on, if it has one. -/
def fraction (base : Nat) (radix : Radix) (r : Reader) (kind : Kind) (seen : Digits) :
    Reader × Kind × Digits :=
  if r.sees '.' then
    let r := if radix = .octal || radix = .binary then r.fault r.offset (.radixPoint radix) else r
    let (r, ds) := digits base r.next seen
    (r, .float, ds)
  else (r, kind, seen)

/-- Notes what is wrong with the digits of a number that starts at an offset. -/
def checkDigits (start : Nat) (kind : Kind) (radix : Radix) (seen : Digits) (literal : Bytes)
    (r : Reader) : Reader :=
  let r := match kind, seen.invalid with
    | .int, some i => r.fault i (.invalidDigit (Char.ofNat ((literal[i - start]?).getD 0).toNat) radix)
    | _, _ => r
  if seen.separator then
    match misplacedSeparator? (Text.chars literal) with
    | some i => r.fault (start + i) .separator
    | none => r
  else r

@[simp] theorem checkDigits_rest (start : Nat) (kind : Kind) (radix : Radix) (seen : Digits)
    (literal : Bytes) (r : Reader) : (checkDigits start kind radix seen literal r).rest = r.rest := by
  unfold checkDigits
  dsimp only
  repeat' split
  all_goals rfl

/-- Reads a number, which starts with a digit or with a point before a digit. -/
def number (start : Reader) : Reader × Kind × Bytes :=
  let (r, kind, base, radix, seen) := wholePart start
  let (r, kind, seen) := fraction base radix r kind seen
  let r := if seen.digit then r else r.fault r.offset (.noDigits radix)
  let (r, kind, seen) := exponent radix r kind seen
  let (r, kind) := if r.sees 'i' then (r.next, Kind.imag) else (r, kind)
  let literal := between start r
  (checkDigits start.offset kind radix seen literal r, kind, literal)

/-! Strings, characters and escapes -/

def digitValue (c : Char) : Nat :=
  if isDecimal c then c.toNat - 48
  else if isHex c then (lower c).toNat - 87
  else 16

/-- Reads `count` digits of an escape that starts at `start`; tells whether its value is fine. -/
def escapeDigits (start base limit : Nat) : (count : Nat) → Reader → Nat → Reader × Bool
  | 0, r, value =>
    if limit < value || (0xD800 ≤ value && value < 0xE000) then (r.fault start .escapeValue, false)
    else (r, true)
  | count + 1, r, value =>
    match r.char? with
    | none => (r.fault r.offset .openEscape, false)
    | some c =>
      if digitValue c < base then
        escapeDigits start base limit count r.next (value * base + digitValue c)
      else (r.fault r.offset (.escapeCharacter c), false)

/-- Reads an escape behind its backslash; tells whether it is well formed. -/
def escape (mark : Char) (r : Reader) : Reader × Bool :=
  match r.char? with
  | none => (r.fault r.offset .openEscape, false)
  | some c =>
    if c == mark || ['a', 'b', 'f', 'n', 'r', 't', 'v', '\\'].contains c then (r.next, true)
    else if '0' ≤ c && c ≤ '7' then escapeDigits r.offset 8 255 3 r 0
    else if c == 'x' then escapeDigits r.offset 16 255 2 r.next 0
    else if c == 'u' then escapeDigits r.offset 16 0x10FFFF 4 r.next 0
    else if c == 'U' then escapeDigits r.offset 16 0x10FFFF 8 r.next 0
    else (r.fault r.offset .unknownEscape, false)

theorem escapeDigits_rest_length (start base limit count : Nat) (r : Reader) (value : Nat) :
    (escapeDigits start base limit count r value).1.rest.length ≤ r.rest.length := by
  induction count generalizing r value with
  | zero => unfold escapeDigits; split <;> simp
  | succ count ih =>
    unfold escapeDigits
    split
    · simp
    · split
      · exact Nat.le_trans (ih _ _) (next_rest_length r)
      · simp

theorem escape_rest_length (mark : Char) (r : Reader) :
    (escape mark r).1.rest.length ≤ r.rest.length := by
  unfold escape
  split
  · simp
  · repeat' split
    all_goals first
      | exact Nat.le_trans (escapeDigits_rest_length _ _ _ _ _ _) (next_rest_length r)
      | exact escapeDigits_rest_length _ _ _ _ _ _
      | exact next_rest_length r
      | simp

/-- Reads an interpreted string behind its opening quote, which stands at `start`. -/
def stringBody (start : Nat) (r : Reader) : Reader :=
  match _h : r.char? with
  | none => r.fault start .openString
  | some c =>
    if c == '\n' then r.fault start .openString
    else if c == '"' then r.next
    else if c == '\\' then stringBody start (escape '"' r.next).1
    else stringBody start r.next
termination_by r.rest.length
decreasing_by
  · exact Nat.lt_of_le_of_lt (escape_rest_length _ _) (next_rest_length_lt _h)
  · exact next_rest_length_lt _h

/-- Reads a character literal behind its opening quote, which stands at `start`; `count` characters
were read before, all well formed if `valid`. -/
def runeBody (start : Nat) (r : Reader) (count : Nat) (valid : Bool) : Reader :=
  match _h : r.char? with
  | none => if valid then r.fault start .openRune else r
  | some c =>
    if c == '\n' then if valid then r.fault start .openRune else r
    else if c == '\'' then
      if valid && count ≠ 1 then r.next.fault start .runeLength else r.next
    else if c == '\\' then
      let e := escape '\'' r.next
      runeBody start e.1 (count + 1) (valid && e.2)
    else runeBody start r.next (count + 1) valid
termination_by r.rest.length
decreasing_by
  · exact Nat.lt_of_le_of_lt (escape_rest_length _ _) (next_rest_length_lt _h)
  · exact next_rest_length_lt _h

/-- Reads a raw string behind its opening quote, which stands at `start`. -/
def rawBody (start : Nat) (r : Reader) : Reader :=
  match _h : r.char? with
  | none => r.fault start .openRawString
  | some c => if c == Char.ofNat 0x60 then r.next else rawBody start r.next
termination_by r.rest.length
decreasing_by exact next_rest_length_lt _h

/-! Comments -/

/-- Drops carriage returns, but in a general comment not those that keep a star from a slash. -/
def dropReturns (general : Bool) (kept : Bytes) : Bytes → Bytes
  | [] => kept.reverse
  | b :: rest =>
    if b ≠ 0x0D || (general && 2 < kept.length && kept.head? == some 0x2A && rest.head? == some 0x2F)
    then dropReturns general (b :: kept) rest
    else dropReturns general kept rest

/-- Reads a general comment behind its opening. `newline` is the offset of the first newline in
it; the last component tells whether it is closed. -/
def generalBody (r : Reader) (newline : Option Nat) : Reader × Option Nat × Bool :=
  match _h : r.char? with
  | none => (r, newline, false)
  | some c =>
    let newline := newline <|> if c == '\n' then some r.offset else none
    if c == '*' && r.next.sees '/' then (r.next.next, newline, true)
    else generalBody r.next newline
termination_by r.rest.length
decreasing_by exact next_rest_length_lt _h

/-- The number behind the last colon of a text, with the place behind the colon. A number of 64 bits
is read as a signed one. -/
def trailingNumber (text : Bytes) : Option (Nat × Option Int) :=
  let size : Nat := Nat.pow 2 64
  match text.reverse.findIdx? (· == 0x3A) with
  | none => none
  | some i =>
    let digits := text.drop (text.length - i)
    let value : Option Int :=
      if digits.isEmpty || !digits.all (fun b => 0x30 ≤ b && b ≤ 0x39) then none
      else
        let n : Nat := digits.foldl (fun n b => n * 10 + (b.toNat - 48)) 0
        if n < size / 2 then some n else if n < size then some (n - size : Int) else none
    some (text.length - i, value)

/-- The largest line or column that a line directive may name. -/
def maxLine : Int := Nat.pow 2 30

/-- Reads a line directive: `text` stands behind the word `line` at offset `start`, and what it
says holds from `next` on. `current` is the file that the text before belongs to, `dir` the
directory of relative names. -/
def lineDirective (dir current : String) (start next : Nat) (text : Bytes) :
    Option (Except Located LineInfo) :=
  match trailingNumber text with
  | none => none
  | some (i, none) => some (.error ⟨start + i, .lineNumber (Text.toString (text.drop i))⟩)
  | some (i, some n) =>
    let named (i : Nat) (line column : Int) (text : Bytes) (keepName : Bool) :
        Except Located LineInfo :=
      if line = 0 || maxLine < line then
        .error ⟨start + i, .lineNumber (Text.toString (text.drop i))⟩
      else
        let name := Text.toString (text.take (i - 1))
        let file :=
          if name = "" then if keepName then current else ""
          else
            let name := Path.clean name
            if Path.isAbs name then name else Path.join [dir, name]
        .ok ⟨next, file, line, column⟩
    match trailingNumber (text.take (i - 1)) with
    | some (j, some line) =>
      if n = 0 || maxLine < n then
        some (.error ⟨start + i, .columnNumber (Text.toString (text.drop i))⟩)
      else some (named j line n (text.take (i - 1)) true)
    | _ => some (named i n 0 text false)

/-! The scanner -/

/-- What is left to read, and what the lexemes read so far mean for it. -/
structure State where
  reader : Reader
  /-- A newline here is a semicolon. -/
  ends : Bool := false
  /-- Where a newline inside the last comment stands that is a semicolon. -/
  pending : Option Nat := none
  /-- Line directives read so far, the last one first. -/
  infos : List LineInfo := []
  dir : String
  file : String
  deriving Repr, Inhabited

/-- The operators by their first characters, longer ones first. -/
def operatorTable : List (List Char × Kind) :=
  [3, 2, 1].flatMap fun n =>
    (Kind.operators.map fun (k, s) => (s.toList, k)).filter fun (s, _) => s.length = n

/-- The longest operator at the front of a text. -/
def operator? (text : Bytes) : Option (Nat × Kind) :=
  let front := (text.take 3).map fun b => Char.ofNat b.toNat
  (operatorTable.find? fun (s, _) => s.isPrefixOf front).map fun (s, k) => (s.length, k)

/-- Moves on by a number of characters. -/
def skip : Nat → Reader → Reader
  | 0, r => r
  | n + 1, r => skip n r.next

theorem skip_rest_length (n : Nat) (r : Reader) : (skip n r).rest.length ≤ r.rest.length := by
  induction n generalizing r with
  | zero => exact Nat.le_refl _
  | succ n ih => exact Nat.le_trans (ih r.next) (next_rest_length r)

def isBlank (ends : Bool) (c : Char) : Bool :=
  c == ' ' || c == '\t' || c == '\r' || (c == '\n' && !ends)

/-- Hands over a lexeme with the faults found since the last one. -/
def emit (s : State) (r : Reader) (kind : Kind) (offset : Nat) (literal : Bytes) (ends : Bool) :
    Lexeme × State :=
  ({ kind, offset, literal, faults := r.faults.reverse },
    { s with reader := { r with faults := [] }, ends })

def automatic (s : State) (r : Reader) (offset : Nat) : Lexeme × State :=
  emit s r .semicolon offset [0x0A] false

/-- Reads the text of a comment; `start` stands on its first slash. Gives also the offset of the
first newline inside of a general comment and, unless the comment is open, the offset that a line
directive in it holds from. -/
def commentBody (start : Reader) : Reader × Option Nat × Option Nat :=
  if start.next.sees '*' then
    let (r, newline, closed) := generalBody start.next.next none
    if closed then (r, newline, some r.offset)
    else (r.fault start.offset .openComment, newline, none)
  else
    let r := start.next.next.skipWhile (· != '\n')
    (r, none, some (if r.sees '\n' then r.offset + 1 else r.offset))

/-- Adds what a line directive says to what earlier ones say, or notes what is wrong with it. -/
def applyDirective (r : Reader) (infos : List LineInfo) :
    Option (Except Located LineInfo) → Reader × List LineInfo
  | some (.error f) => (r.fault f.offset f.fault, infos)
  | some (.ok info) =>
    let later := match infos with
      | last :: _ => last.offset < info.offset
      | [] => true
    (r, if later && info.offset < r.size then info :: infos else infos)
  | none => (r, infos)

/-- Reads a comment; `start` stands on its first slash. A line directive holds in a general
comment, and in a line comment that starts its line. -/
def comment (s : State) (start : Reader) : Lexeme × State :=
  let general := start.next.sees '*'
  let (r, newline, stop) := commentBody start
  let raw := between start r
  let literal := if general then raw else Text.dropEnd raw [0x0D]
  let directive :=
    match stop with
    | some next =>
      if (general || start.offset = start.lineStart) && (Text.utf8 "line ").isPrefixOf (literal.drop 2) then
        let body := literal.drop 7
        let body := if general then body.take (body.length - 2) else body
        let current := (s.infos.head?.map LineInfo.file).getD s.file
        lineDirective s.dir current (start.offset + 7) next body
      else none
    | none => none
  let (r, infos) := applyDirective r s.infos directive
  let text := dropReturns general [] literal
  if s.ends && newline.isSome then
    emit { s with infos, pending := newline } r .comment start.offset text false
  else emit { s with infos } r .comment start.offset text s.ends

/-- Reads what is neither a word, a number, a string nor a comment. -/
def symbol (s : State) (start : Reader) : Lexeme × State :=
  match operator? start.rest with
  | some (n, kind) =>
    let literal := if kind = .semicolon then [0x3B] else []
    emit s (skip (n - 1) start.next) kind start.offset literal kind.endsStatement
  | none =>
    let c := (start.char?).getD '\x00'
    let r := start.next
    let r :=
      if c == '\uFEFF' then r
      else if c == '\u201C' || c == '\u201D' then r.fault start.offset (.curlyQuote c)
      else r.fault start.offset (.illegalCharacter c)
    emit s r .illegal start.offset (String.utf8EncodeChar c) s.ends

/-- Reads a lexeme from its first character `c` on, which `start` stands on. -/
def lexeme (s : State) (start : Reader) (c : Char) : Lexeme × State :=
  if isLetter c then
    let r := start.skipWhile isWordChar
    let word := between start r
    let kind := Kind.ofWord (Text.toString word)
    emit s r kind start.offset word kind.endsStatement
  else if isDecimal c || (c == '.' && 0x30 ≤ start.peek && start.peek ≤ 0x39) then
    let (r, kind, literal) := number start
    emit s r kind start.offset literal true
  else if c == '\n' then automatic s start.next start.offset
  else if c == '"' then
    let r := stringBody start.offset start.next
    emit s r .string start.offset (between start r) true
  else if c == '\'' then
    let r := runeBody start.offset start.next 0 true
    emit s r .char start.offset (between start r) true
  else if c == Char.ofNat 0x60 then
    let r := rawBody start.offset start.next
    emit s r .string start.offset ((between start r).filter (· != 0x0D)) true
  else if c == '/' && (start.next.sees '/' || start.next.sees '*') then comment s start
  else symbol s start

/-- Reads one lexeme. At the end of the text that is the end mark, again and again. -/
def next (s : State) : Lexeme × State :=
  match s.pending with
  | some offset => automatic { s with pending := none } s.reader offset
  | none =>
    let start := s.reader.skipWhile (isBlank s.ends)
    match start.char? with
    | some c => lexeme s start c
    | none =>
      if s.ends then automatic s start start.offset
      else emit s start .eof start.offset [] false

def State.start (file : String) (text : Bytes) : State :=
  { reader := Reader.ofText text, dir := Path.dir file, file }

/-- What is left to do: the text, and a semicolon that may come before any of it is read. -/
def State.measure (s : State) : Nat :=
  2 * s.reader.rest.length + (if s.ends || s.pending.isSome then 1 else 0)

/-! Progress -/

theorem digits_rest_length (base : Nat) (r : Reader) (seen : Digits) :
    (digits base r seen).1.rest.length ≤ r.rest.length := by
  fun_induction digits base r seen with
  | case1 => exact Nat.le_refl _
  | case2 r _ _ _ _ ih => exact Nat.le_trans ih (next_rest_length r)
  | case3 r _ _ _ _ _ _ _ ih => exact Nat.le_trans ih (next_rest_length r)
  | case4 => exact Nat.le_refl _
  | case5 r _ _ _ _ _ _ ih => exact Nat.le_trans ih (next_rest_length r)
  | case6 => exact Nat.le_refl _

theorem digits_rest_length_lt {r : Reader} {c : Char} (h : r.char? = some c) (hc : isDecimal c)
    (seen : Digits) : (digits 10 r seen).1.rest.length < r.rest.length := by
  rw [digits]
  split
  · rename_i h'
    rw [h] at h'
    cases h'
  · rename_i h'
    rw [h] at h'
    cases h'
    repeat' split
    all_goals first
      | exact Nat.lt_of_le_of_lt (digits_rest_length _ _ _) (next_rest_length_lt h)
      | omega

theorem stringBody_rest_length (start : Nat) (r : Reader) :
    (stringBody start r).rest.length ≤ r.rest.length := by
  fun_induction stringBody start r with
  | case1 => simp
  | case2 => simp
  | case3 r _ _ _ _ => exact next_rest_length r
  | case4 r _ _ _ _ _ ih =>
    exact Nat.le_trans ih (Nat.le_trans (escape_rest_length _ _) (next_rest_length r))
  | case5 r _ _ _ _ _ ih => exact Nat.le_trans ih (next_rest_length r)

theorem runeBody_rest_length (start : Nat) (r : Reader) (count : Nat) (valid : Bool) :
    (runeBody start r count valid).rest.length ≤ r.rest.length := by
  fun_induction runeBody start r count valid <;>
    first
    | exact Nat.le_refl _
    | exact next_rest_length _
    | exact Nat.le_trans ‹_› (Nat.le_trans (escape_rest_length _ _) (next_rest_length _))
    | exact Nat.le_trans ‹_› (next_rest_length _)

theorem rawBody_rest_length (start : Nat) (r : Reader) :
    (rawBody start r).rest.length ≤ r.rest.length := by
  fun_induction rawBody start r with
  | case1 => simp
  | case2 r _ _ _ => exact next_rest_length r
  | case3 r _ _ _ ih => exact Nat.le_trans ih (next_rest_length r)

theorem generalBody_rest_length (r : Reader) (newline : Option Nat) :
    (generalBody r newline).1.rest.length ≤ r.rest.length := by
  fun_induction generalBody r newline <;>
    first
    | exact Nat.le_refl _
    | exact Nat.le_trans (next_rest_length _) (next_rest_length _)
    | exact Nat.le_trans ‹_› (next_rest_length _)

theorem exponent_rest_length (radix : Radix) (r : Reader) (kind : Kind) (seen : Digits) :
    (exponent radix r kind seen).1.rest.length ≤ r.rest.length := by
  have faulty (r' : Reader) (h : r'.rest.length ≤ r.rest.length) (o : Nat) (f : Fault) (b : Bool) :
      (if b then r' else r'.fault o f).rest.length ≤ r.rest.length := by
    split <;> exact h
  have plain : (exponent.plain radix kind seen r).1.rest.length ≤ r.rest.length := by
    unfold exponent.plain
    split <;> exact Nat.le_refl _
  unfold exponent
  split
  · exact plain
  · simp only
    split
    · apply faulty
      apply Nat.le_trans (digits_rest_length _ _ _)
      repeat' split
      all_goals first
        | exact Nat.le_trans (next_rest_length _) (next_rest_length _)
        | exact next_rest_length _
    · exact plain

theorem fraction_rest_length (base : Nat) (radix : Radix) (r : Reader) (kind : Kind)
    (seen : Digits) : (fraction base radix r kind seen).1.rest.length ≤ r.rest.length := by
  unfold fraction
  split
  · apply Nat.le_trans (digits_rest_length _ _ _)
    apply Nat.le_trans (next_rest_length _)
    split <;> exact Nat.le_refl _
  · exact Nat.le_refl _

/-- A number takes at least its first character. -/
theorem number_rest_length_lt {start : Reader} {c : Char} (h : start.char? = some c)
    (hc : isDecimal c || c == '.') : (number start).1.rest.length < start.rest.length := by
  have body : (fraction (wholePart start).2.2.1 (wholePart start).2.2.2.1 (wholePart start).1
      (wholePart start).2.1 (wholePart start).2.2.2.2).1.rest.length < start.rest.length := by
    by_cases point : start.sees '.'
    · have e : wholePart start = (start, .illegal, 10, .decimal, ⟨false, false, none⟩) := by
        unfold wholePart; rw [if_pos point]
      rw [e]
      unfold fraction
      rw [if_pos point]
      exact Nat.lt_of_le_of_lt (digits_rest_length _ _ _) (next_rest_length_lt h)
    · refine Nat.lt_of_le_of_lt (fraction_rest_length _ _ _ _ _) ?_
      unfold wholePart
      rw [if_neg point]
      by_cases zero : start.sees '0'
      · refine Nat.lt_of_le_of_lt (digits_rest_length _ _ _) ?_
        unfold numberBase
        rw [if_pos zero]
        have step := next_rest_length_lt h
        dsimp only
        split
        all_goals first
          | exact Nat.lt_of_le_of_lt (next_rest_length _) step
          | exact step
      · have e : numberBase start = (start, 10, .decimal, false) := by
          unfold numberBase; rw [if_neg zero]
        rw [e]
        refine digits_rest_length_lt h ?_ _
        simp only [sees, h, Option.some_beq_some] at point
        simpa [point] using hc
  have imaginary (r : Reader) (kind : Kind) :
      (if r.sees 'i' then (r.next, Kind.imag) else (r, kind)).1.rest.length ≤ r.rest.length := by
    split
    · exact next_rest_length r
    · exact Nat.le_refl _
  unfold number
  dsimp only
  rw [checkDigits_rest]
  refine Nat.lt_of_le_of_lt (imaginary _ _) ?_
  refine Nat.lt_of_le_of_lt (exponent_rest_length _ _ _ _) ?_
  split <;> exact body

theorem commentBody_rest_length (start : Reader) :
    (commentBody start).1.rest.length ≤ start.next.rest.length := by
  unfold commentBody
  split
  · have body := Nat.le_trans (generalBody_rest_length start.next.next none) (next_rest_length _)
    dsimp only
    split <;> exact body
  · exact Nat.le_trans (skipWhile_rest_length _ _) (next_rest_length _)

theorem applyDirective_rest (r : Reader) (infos : List LineInfo)
    (directive : Option (Except Located LineInfo)) :
    (applyDirective r infos directive).1.rest = r.rest := by
  unfold applyDirective
  split <;> rfl

theorem comment_rest_length_lt (s : State) {start : Reader} {c : Char} (h : start.char? = some c) :
    (comment s start).2.reader.rest.length < start.rest.length := by
  have body := Nat.lt_of_le_of_lt (commentBody_rest_length start) (next_rest_length_lt h)
  unfold comment
  dsimp only
  split <;> (dsimp only [emit]; rw [applyDirective_rest]; exact body)

theorem symbol_rest_length_lt (s : State) {start : Reader} {c : Char} (h : start.char? = some c) :
    (symbol s start).2.reader.rest.length < start.rest.length := by
  unfold symbol
  split
  · exact Nat.lt_of_le_of_lt (skip_rest_length _ _) (next_rest_length_lt h)
  · dsimp only [emit]
    repeat' split
    all_goals exact next_rest_length_lt h

/-- A lexeme takes at least its first character. -/
theorem lexeme_rest_length_lt (s : State) {start : Reader} {c : Char} (h : start.char? = some c) :
    (lexeme s start c).2.reader.rest.length < start.rest.length := by
  have tail {r : Reader} (le : r.rest.length ≤ start.next.rest.length) :=
    Nat.lt_of_le_of_lt le (next_rest_length_lt h)
  unfold lexeme
  split
  · rename_i letter
    exact skipWhile_rest_length_lt h ((Bool.or_eq_true _ _).mpr (.inl letter))
  split
  · rename_i digit
    refine number_rest_length_lt h ?_
    cases d : isDecimal c <;> simp_all
  split
  · exact next_rest_length_lt h
  split
  · exact tail (stringBody_rest_length _ _)
  split
  · exact tail (runeBody_rest_length _ _ _ _)
  split
  · exact tail (rawBody_rest_length _ _)
  split
  · exact comment_rest_length_lt s h
  · exact symbol_rest_length_lt s h

/-- A lexeme other than the end mark takes something off what is left to do. -/
theorem next_measure {s : State} (h : (next s).1.kind ≠ .eof) : (next s).2.measure < s.measure := by
  have blanks := skipWhile_rest_length (isBlank s.ends) s.reader
  unfold next at h ⊢
  dsimp only at h ⊢
  generalize s.reader.skipWhile (isBlank s.ends) = start at *
  split
  · rename_i pending
    simp [State.measure, automatic, emit, pending]
  · rename_i pending
    simp only [pending] at h
    split
    · rename_i c e
      have := Nat.lt_of_lt_of_le (lexeme_rest_length_lt s e) blanks
      unfold State.measure
      repeat' split
      all_goals omega
    · rename_i e
      simp only [e] at h
      split
      · rename_i ends
        simp only [State.measure, automatic, emit, pending, ends]
        simp
        omega
      · rename_i ends
        simp [ends, emit] at h

/-- All lexemes from a state on, the end mark last, after those already read. -/
def collect (s : State) (read : List Lexeme) : List Lexeme × State :=
  match _h : next s with
  | (l, s') => if _e : l.kind = .eof then ((l :: read).reverse, s') else collect s' (l :: read)
termination_by s.measure
decreasing_by
  have := next_measure (s := s)
  rw [_h] at this
  exact this _e

end Scan

/-- A text taken apart into lexemes, with its line table. -/
structure Scanned where
  lexemes : List Lexeme
  lines : LineTable
  deriving Repr, Inhabited

/-- Reads a whole text. -/
def scan (file : String) (text : Bytes) : Scanned :=
  let (lexemes, s) := Scan.collect (.start file text) []
  { lexemes, lines := .ofText file text s.infos.reverse }

end Desugar.Host

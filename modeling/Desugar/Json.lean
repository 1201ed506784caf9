import Desugar.Text.CharClass
import Desugar.Text.Quoted

/-!
# JSON

Values of the data format, and how they are read. A number is kept as it is written; the members of an
object are kept in order, also where a name occurs twice.
-/
namespace Desugar

inductive JsonValue where
  | null
  | bool (b : Bool)
  | number (literal : String)
  | text (s : String)
  | array (elements : List JsonValue)
  | object (members : List (String × JsonValue))
  deriving Repr

namespace JsonValue

/-- What is read where an unexpected character stands. -/
inductive Place where
  | value | key | afterKey | afterMember | afterElement | afterTop | number | text
  | literal (word : String) (expected : Char)
  deriving DecidableEq, Repr

def Place.message : Place → String
  | value => "looking for beginning of value"
  | key => "looking for beginning of object key string"
  | afterKey => "after object key"
  | afterMember => "after object key:value pair"
  | afterElement => "after array element"
  | afterTop => "after top-level value"
  | number => "in numeric literal"
  | text => "in string"
  | literal word expected => s!"in literal {word} (expecting {Text.quoteChar expected})"

/-- Why a text is no value. -/
inductive Fault where
  | unexpectedEnd
  | unexpected (c : Char) (place : Place)
  | badEscape (written : String)
  | tooDeep
  deriving DecidableEq, Repr

/-- Whether an escape can be shown as it is written. -/
def isPlain (c : Char) : Bool :=
  c ≠ Char.ofNat 0x60 && c ≠ Text.replacement && !Text.isSpace c && Text.isPrintable c

def Fault.message : Fault → String
  | unexpectedEnd => "unexpected end of JSON input"
  | unexpected c place => s!"invalid character {Text.quoteChar c} {place.message}"
  | badEscape written =>
    let mark := String.singleton (Char.ofNat 0x60)
    let shown := if written.toList.all isPlain then mark ++ written ++ mark else Text.quote written
    s!"invalid escape sequence {shown} in string"
  | tooDeep => "exceeded max depth"

/-- How deep values may nest. -/
def maxDepth : Nat := 10000

/-- Something read off the front of a text, and what follows. -/
abbrev Rest (α : Type) := α × List Char

def isBlank (c : Char) : Bool := c = ' ' || c = '\t' || c = '\n' || c = '\r'

def skipBlanks (cs : List Char) : List Char := cs.dropWhile isBlank

/-- Reads a word that has only one spelling. -/
def readWord (word : String) (value : JsonValue) (cs : List Char) : Except Fault (Rest JsonValue) :=
  go word.toList cs
where
  go : List Char → List Char → Except Fault (Rest JsonValue)
    | [], cs => .ok (value, cs)
    | _ :: _, [] => .error .unexpectedEnd
    | w :: ws, c :: cs => if c = w then go ws cs else .error (.unexpected c (.literal word w))

/-- Reads at least one digit. -/
def readDigits (cs : List Char) : Except Fault (Rest (List Char)) :=
  match cs with
  | [] => .error .unexpectedEnd
  | c :: _ =>
    let digits := cs.takeWhile Char.isDigit
    if digits.isEmpty then .error (.unexpected c .number) else .ok (digits, cs.drop digits.length)

/-- Reads a fraction, if there is one. -/
def readFraction (cs : List Char) : Except Fault (Rest (List Char)) :=
  match cs with
  | '.' :: rest => do
    let (digits, rest) ← readDigits rest
    return ('.' :: digits, rest)
  | _ => .ok ([], cs)

/-- Reads an exponent, if there is one. -/
def readExponent (cs : List Char) : Except Fault (Rest (List Char)) :=
  match cs with
  | c :: rest =>
    if c = 'e' || c = 'E' then do
      let (sign, rest) := match rest with
        | '+' :: rest => (['+'], rest)
        | '-' :: rest => (['-'], rest)
        | _ => ([], rest)
      let (digits, rest) ← readDigits rest
      return (c :: sign ++ digits, rest)
    else .ok ([], cs)
  | [] => .ok ([], [])

/-- Reads a number. A zero at its front ends the whole part. -/
def readNumber (cs : List Char) : Except Fault (Rest JsonValue) := do
  let (sign, cs) := match cs with
    | '-' :: rest => (['-'], rest)
    | _ => ([], cs)
  let (whole, cs) ← match cs with
    | '0' :: rest => pure (['0'], rest)
    | _ => readDigits cs
  let (fraction, cs) ← readFraction cs
  let (exponent, cs) ← readExponent cs
  return (.number (String.ofList (sign ++ whole ++ fraction ++ exponent)), cs)

def hexValue? (c : Char) : Option Nat :=
  if c.toNat < 0x80 then Text.hexValue? (UInt8.ofNat c.toNat) else none

/-- The number of four hexadecimal digits. -/
def fourHex (cs : List Char) : Option Nat :=
  if cs.length = 4 then
    cs.foldl (fun n c => do return (← n) * 16 + (← hexValue? c)) (some 0)
  else none

/-- Characters that a backslash and a letter stand for. -/
def letterEscapes : List (Char × Char) :=
  [('"', '"'), ('\\', '\\'), ('/', '/'), ('b', '\x08'), ('f', '\x0c'), ('n', '\n'), ('r', '\r'),
    ('t', '\t')]

/-- Reads a number of 16 bits behind `\u`. -/
def readUnit (cs : List Char) : Except Fault (Rest Nat) :=
  let digits := cs.take 4
  match fourHex digits with
  | some n => .ok (n, cs.drop 4)
  | none =>
    if digits.length < 4 && digits.all fun c => (hexValue? c).isSome then .error .unexpectedEnd
    else .error (.badEscape (String.ofList ('\\' :: 'u' :: digits)))

/-- The character of a number of 16 bits that stands behind `\u`, and what follows. Two halves that
belong together make one character; a lone half makes the replacement character. -/
def joinUnits (high : Nat) (cs : List Char) : Char × List Char :=
  if high < 0xD800 || 0xDFFF < high then (Char.ofNat high, cs)
  else match cs with
    | '\\' :: 'u' :: rest =>
      match fourHex (rest.take 4) with
      | some low =>
        if high < 0xDC00 && 0xDC00 ≤ low && low ≤ 0xDFFF then
          (Char.ofNat (0x10000 + (high - 0xD800) * 0x400 + (low - 0xDC00)), rest.drop 4)
        else (Text.replacement, cs)
      | none => (Text.replacement, cs)
    | _ => (Text.replacement, cs)

/-- Reads the inside of a string and its closing mark; the fuel bounds its length. -/
def readInside : (fuel : Nat) → List Char → Except Fault (Rest (List Char))
  | 0, _ => .error .unexpectedEnd
  | _, [] => .error .unexpectedEnd
  | fuel + 1, c :: cs => do
    if c = '"' then return ([], cs)
    else if c = '\\' then
      match cs with
      | [] => throw .unexpectedEnd
      | 'u' :: rest =>
        let (unit, rest) ← readUnit rest
        let (c, rest) := joinUnits unit rest
        let (more, rest) ← readInside fuel rest
        return (c :: more, rest)
      | letter :: rest =>
        match letterEscapes.lookup letter with
        | some c =>
          let (more, rest) ← readInside fuel rest
          return (c :: more, rest)
        | none => throw (.badEscape (String.ofList ['\\', letter]))
    else if c.toNat < 0x20 then throw (.unexpected c .text)
    else
      let (more, rest) ← readInside fuel cs
      return (c :: more, rest)

/-- Reads a string behind its opening mark. -/
def readText (cs : List Char) : Except Fault (Rest String) := do
  let (inside, rest) ← readInside (cs.length + 1) cs
  return (String.ofList inside, rest)

/-- Reads the elements of an array behind its opening bracket or a comma. -/
def readElements (readValue : List Char → Except Fault (Rest JsonValue)) :
    (fuel : Nat) → List Char → Except Fault (Rest (List JsonValue))
  | 0, _ => .error .unexpectedEnd
  | fuel + 1, cs => do
    let (v, cs) ← readValue (skipBlanks cs)
    match skipBlanks cs with
    | [] => throw .unexpectedEnd
    | ']' :: cs => return ([v], cs)
    | ',' :: cs =>
      let (more, cs) ← readElements readValue fuel cs
      return (v :: more, cs)
    | c :: _ => throw (.unexpected c .afterElement)

/-- Reads the members of an object behind its opening brace or a comma. -/
def readMembers (readValue : List Char → Except Fault (Rest JsonValue)) :
    (fuel : Nat) → List Char → Except Fault (Rest (List (String × JsonValue)))
  | 0, _ => .error .unexpectedEnd
  | fuel + 1, cs => do
    let (key, cs) ← match skipBlanks cs with
      | [] => throw .unexpectedEnd
      | '"' :: cs => readText cs
      | c :: _ => throw (.unexpected c .key)
    let cs ← match skipBlanks cs with
      | [] => throw .unexpectedEnd
      | ':' :: cs => pure cs
      | c :: _ => throw (.unexpected c .afterKey)
    let (v, cs) ← readValue (skipBlanks cs)
    match skipBlanks cs with
    | [] => throw .unexpectedEnd
    | '}' :: cs => return ([(key, v)], cs)
    | ',' :: cs =>
      let (more, cs) ← readMembers readValue fuel cs
      return ((key, v) :: more, cs)
    | c :: _ => throw (.unexpected c .afterMember)

/-- Reads a value at the front of a text, in which others may nest so many levels deep. -/
def readValue : (levels : Nat) → List Char → Except Fault (Rest JsonValue)
  | 0, _ => .error .tooDeep
  | levels + 1, cs =>
    match cs with
    | [] => .error .unexpectedEnd
    | 'n' :: _ => readWord "null" .null cs
    | 't' :: _ => readWord "true" (.bool true) cs
    | 'f' :: _ => readWord "false" (.bool false) cs
    | '"' :: cs => do
      let (s, cs) ← readText cs
      return (.text s, cs)
    | '[' :: cs =>
      match skipBlanks cs with
      | ']' :: cs => .ok (.array [], cs)
      | cs => do
        let (vs, cs) ← readElements (readValue levels) (cs.length + 1) cs
        return (.array vs, cs)
    | '{' :: cs =>
      match skipBlanks cs with
      | '}' :: cs => .ok (.object [], cs)
      | cs => do
        let (ms, cs) ← readMembers (readValue levels) (cs.length + 1) cs
        return (.object ms, cs)
    | c :: _ => if c = '-' || c.isDigit then readNumber cs else .error (.unexpected c .value)

/-- Reads a text that is one value, blanks around it apart. -/
def parse (text : String) : Except Fault JsonValue := do
  let (v, rest) ← readValue (maxDepth + 1) (skipBlanks text.toList)
  match skipBlanks rest with
  | [] => return v
  | c :: _ => throw (.unexpected c .afterTop)

/-- What kind of value this is. -/
def kindName : JsonValue → String
  | null => "null"
  | bool _ => "bool"
  | number _ => "number"
  | text _ => "string"
  | array _ => "array"
  | object _ => "object"

end JsonValue
/-!
## Writing JSON

Values are written with every member and element on a line of its own, two blanks further in than what
holds it.
-/
namespace JsonValue

/-- One character of a string. Characters that mean something in a page or a script are escaped. -/
def writeChar (c : Char) : List Char :=
  match c with
  | '"' => ['\\', '"']
  | '\\' => ['\\', '\\']
  | '\x08' => ['\\', 'b']
  | '\x0c' => ['\\', 'f']
  | '\n' => ['\\', 'n']
  | '\r' => ['\\', 'r']
  | '\t' => ['\\', 't']
  | c =>
    if c.toNat < 0x20 || c = '<' || c = '>' || c = '&' || c = '\u2028' || c = '\u2029' then
      '\\' :: 'u' :: Text.hex 4 c.toNat
    else [c]

def writeText (s : String) : List Char := '"' :: s.toList.flatMap writeChar ++ ['"']

/-- The start of a line that many levels in. -/
def newLine (level : Nat) : List Char := '\n' :: List.replicate (2 * level) ' '

mutual

/-- Writes a value whose lines are that many levels in. -/
def write (level : Nat) : JsonValue → List Char
  | null => "null".toList
  | bool b => (if b then "true" else "false").toList
  | number literal => literal.toList
  | text s => writeText s
  | array [] => ['[', ']']
  | array (v :: vs) => '[' :: newLine (level + 1) ++ write (level + 1) v ++ writeElements (level + 1) vs ++
      newLine level ++ [']']
  | object [] => ['{', '}']
  | object ((k, v) :: ms) => '{' :: newLine (level + 1) ++ writeText k ++ [':', ' '] ++
      write (level + 1) v ++ writeMembers (level + 1) ms ++ newLine level ++ ['}']

/-- Writes elements after the first one. -/
def writeElements (level : Nat) : List JsonValue → List Char
  | [] => []
  | v :: vs => ',' :: newLine level ++ write level v ++ writeElements level vs

/-- Writes members after the first one. -/
def writeMembers (level : Nat) : List (String × JsonValue) → List Char
  | [] => []
  | (k, v) :: ms => ',' :: newLine level ++ writeText k ++ [':', ' '] ++ write level v ++
      writeMembers level ms

end

/-- The text of a value. -/
def render (v : JsonValue) : String := String.ofList (write 0 v)

end JsonValue

end Desugar

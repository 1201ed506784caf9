import Desugar.Text.Quoted

/-!
# Formats over strings

A format is text with verbs; each verb is a percent sign, flags, an optional width and precision,
and a letter, and shows the next argument, or the one whose number stands in brackets before the
letter. A star takes a width or a precision from the arguments. All arguments here are strings, so
that a star never gets the number that it asks for. A verb that does not fit, an argument too few or
too many, a bad argument number and a percent sign at the end are shown as such in the result.
-/
namespace Desugar.Text

/-- The flags, width and precision of a verb. -/
structure Verb where
  sharp : Bool := false
  zero : Bool := false
  plus : Bool := false
  minus : Bool := false
  space : Bool := false
  width : Option Nat := none
  precision : Option Nat := none
  deriving DecidableEq, Repr

namespace Verb

/-- Fills a text up to the width. -/
def pad (v : Verb) (text : List Char) : List Char :=
  let missing := v.width.getD 0 - text.length
  if v.minus then text ++ List.replicate missing ' '
  else List.replicate missing (if v.zero then '0' else ' ') ++ text

def truncate (v : Verb) (text : List Char) : List Char :=
  match v.precision with
  | some n => text.take n
  | none => text

/-- One character of a quoted text that has to be plain ASCII. -/
def escapeAscii (c : Char) : List Char :=
  if c.toNat < 0x80 then escapeChar '"' c
  else if c.toNat < 0x10000 then '\\' :: 'u' :: hex 4 c.toNat
  else '\\' :: 'U' :: hex 8 c.toNat

/-- Whether a text can stand between back quotes. -/
def canBackquote (text : List Char) : Bool :=
  text.all fun c => c != '\uFEFF' && !(c.toNat < 0x20 && c != '\t') && c != Char.ofNat 0x60 &&
    c != '\x7f'

def quoted (v : Verb) (text : List Char) : List Char :=
  let text := v.truncate text
  let mark := Char.ofNat 0x60
  v.pad <|
    if v.sharp && canBackquote text then mark :: text ++ [mark]
    else if v.plus then '"' :: text.flatMap escapeAscii ++ ['"']
    else '"' :: text.flatMap (escapeChar '"') ++ ['"']

/-- The bytes of a text in hexadecimal. -/
def inHex (v : Verb) (upper : Bool) (text : List Char) : List Char :=
  let bytes := text.flatMap String.utf8EncodeChar
  let bytes := match v.precision with
    | some n => bytes.take n
    | none => bytes
  let lead : List Char := if v.sharp then ['0', if upper then 'X' else 'x'] else []
  let one (b : UInt8) : List Char := (hex 2 b.toNat).map fun c => if upper then c.toUpper else c
  let body :=
    if bytes.isEmpty then []
    else if v.space then [' '].intercalate (bytes.map fun b => lead ++ one b)
    else lead ++ bytes.flatMap one
  v.pad body

/-- A string shown as a letter stands for it. Where a text is shown in the syntax of the language,
the sharp flag says so and nothing else. -/
def plain (v : Verb) (literal : Bool) (text : List Char) : List Char :=
  if v.sharp && literal then { v with sharp := false, plus := false }.quoted text
  else v.pad (v.truncate text)

/-- A string shown by a verb's letter. -/
def apply (v : Verb) (letter : Char) (arg : String) : List Char :=
  let text := arg.toList
  match letter with
  | 'v' => v.plain true text
  | 's' => v.plain false text
  | 'q' => v.quoted text
  | 'x' => v.inHex false text
  | 'X' => v.inHex true text
  | 'T' => v.plain false "string".toList
  | c => "%!".toList ++ c :: "(string=".toList ++ v.plain (c == 'w') text ++ [')']

end Verb

/-- The largest number that another digit may follow. -/
def numberLimit : Nat := 1000000

/-- Reads digits behind a number `n` that is read already. A number that is far too large is none,
and nothing is left behind it. -/
def readDigits (n : Nat) : List Char → Option Nat × List Char
  | [] => (some n, [])
  | c :: cs =>
    if !c.isDigit then (some n, c :: cs)
    else if numberLimit < n then (none, [])
    else readDigits (n * 10 + (c.toNat - 48)) cs

/-- Reads a decimal number at the front of a text, if there is one. -/
def readNumber : List Char → Option Nat × List Char
  | [] => (none, [])
  | c :: cs => if c.isDigit then readDigits (c.toNat - 48) cs else (none, c :: cs)

/-- Reads flags at the front of a text. -/
def readFlags (v : Verb) : List Char → Verb × List Char
  | '#' :: cs => readFlags { v with sharp := true } cs
  | '0' :: cs => readFlags { v with zero := true } cs
  | '+' :: cs => readFlags { v with plus := true } cs
  | '-' :: cs => readFlags { v with minus := true } cs
  | ' ' :: cs => readFlags { v with space := true } cs
  | cs => (v, cs)

theorem readDigits_length (n : Nat) (cs : List Char) : (readDigits n cs).2.length ≤ cs.length := by
  fun_induction readDigits n cs with
  | case1 => exact Nat.le_refl _
  | case2 => exact Nat.le_refl _
  | case3 => exact Nat.zero_le _
  | case4 n c cs _ _ ih => exact Nat.le_succ_of_le ih

theorem readNumber_length (cs : List Char) : (readNumber cs).2.length ≤ cs.length := by
  unfold readNumber
  split
  · exact Nat.le_refl _
  · split
    · exact Nat.le_succ_of_le (readDigits_length _ _)
    · exact Nat.le_refl _

theorem readFlags_length (v : Verb) (cs : List Char) :
    (readFlags v cs).2.length ≤ cs.length := by
  fun_induction readFlags v cs with
  | case6 => exact Nat.le_refl _
  | _ _ _ ih => exact Nat.le_succ_of_le ih

/-- A format half read. -/
structure Reading where
  rest : List Char
  /-- The index of the argument that comes next. -/
  next : Nat
  /-- Some argument was asked for by its number. -/
  reordered : Bool
  deriving Repr

/-- What stands between the percent sign and the letter of a verb. -/
structure Front where
  verb : Verb
  /-- Complaints about stars, which come before the verb's own text. -/
  complaints : List Char := []
  /-- Every argument number is one, and stands where it may. -/
  good : Bool := true
  /-- An argument number was the last thing read. -/
  numbered : Bool := false
  reading : Reading

namespace Front

def rest (f : Front) : List Char := f.reading.rest

def withRest (f : Front) (rest : List Char) : Front := { f with reading.rest := rest }

/-- Reads an argument number in brackets, if one is there; `count` is the number of arguments. -/
def argument (count : Nat) (f : Front) : Front :=
  match f.rest with
  | '[' :: cs =>
    let f := { f with reading.reordered := true }
    let inside := cs.takeWhile (· != ']')
    if inside.length = cs.length || cs == [']'] then { f.withRest cs with good := false, numbered := false }
    else
      let f := f.withRest (cs.drop (inside.length + 1))
      match readNumber inside with
      | (some n, []) =>
        if 0 < n && n ≤ count then { f with numbered := true, reading.next := n - 1 }
        else { f with numbered := true, good := false }
      | _ => { f with numbered := false, good := false }
  | _ => { f with numbered := false }

/-- Takes the argument that a star asks for, which is no number. -/
def star (count : Nat) (complaint : String) (f : Front) : Front :=
  { f with
    complaints := f.complaints ++ complaint.toList
    numbered := false
    reading.next := if f.reading.next < count then f.reading.next + 1 else f.reading.next }

/-- Reads a width, if one is there. -/
def width (count : Nat) (f : Front) : Front :=
  match f.rest with
  | '*' :: cs => (f.withRest cs).star count "%!(BADWIDTH)"
  | cs =>
    let (n, cs) := readNumber cs
    let f := f.withRest cs
    { f with verb.width := n, good := f.good && !(f.numbered && n.isSome) }

/-- Reads a precision, if one is there. A point at the very end is no precision. -/
def precision (count : Nat) (f : Front) : Front :=
  match f.rest with
  | '.' :: c :: cs =>
    let f := { f.withRest (c :: cs) with good := f.good && !f.numbered }.argument count
    match f.rest with
    | '*' :: cs => (f.withRest cs).star count "%!(BADPREC)"
    | cs =>
      let (n, cs) := readNumber cs
      let f := f.withRest cs
      { f with verb.precision := some (n.getD 0) }
  | _ => f

/-- Reads a verb behind its percent sign, up to its letter. -/
def read (count : Nat) (r : Reading) : Front :=
  let (verb, rest) := readFlags {} r.rest
  let f : Front := { verb, reading := { r with rest } }
  let f := ((f.argument count).width count).precision count
  if f.numbered then f else f.argument count

theorem argument_rest_length (count : Nat) (f : Front) :
    (f.argument count).rest.length ≤ f.rest.length := by
  unfold argument
  split
  · rename_i cs h
    simp only [h, List.length_cons]
    split
    · exact Nat.le_succ _
    · have : (cs.drop ((cs.takeWhile (· != ']')).length + 1)).length ≤ cs.length + 1 := by
        simp only [List.length_drop]; omega
      split
      · split <;> exact this
      · exact this
  · exact Nat.le_refl _

theorem width_rest_length (count : Nat) (f : Front) :
    (f.width count).rest.length ≤ f.rest.length := by
  unfold width
  split
  · rename_i h
    rw [h]
    exact Nat.le_succ _
  · exact readNumber_length _

theorem precision_rest_length (count : Nat) (f : Front) :
    (f.precision count).rest.length ≤ f.rest.length := by
  unfold precision
  split
  · rename_i c cs h
    have inner := argument_rest_length count
      { f.withRest (c :: cs) with good := f.good && !f.numbered }
    have outer : (c :: cs).length ≤ f.rest.length := by rw [h]; exact Nat.le_succ _
    refine Nat.le_trans ?_ (Nat.le_trans inner outer)
    dsimp only
    split
    · rename_i h'
      rw [h']
      exact Nat.le_succ _
    · exact readNumber_length _
  · exact Nat.le_refl _

theorem read_rest_length (count : Nat) (r : Reading) :
    (read count r).rest.length ≤ r.rest.length := by
  have flags := readFlags_length {} r.rest
  have front : ∀ f : Front, (((f.argument count).width count).precision count).rest.length ≤
      f.rest.length := fun f =>
    Nat.le_trans (precision_rest_length _ _)
      (Nat.le_trans (width_rest_length _ _) (argument_rest_length _ _))
  unfold read
  dsimp only
  split
  · exact Nat.le_trans (front _) flags
  · exact Nat.le_trans (argument_rest_length _ _) (Nat.le_trans (front _) flags)

end Front

/-- Arguments that no verb asked for. -/
def extra : List String → List Char
  | [] => []
  | args =>
    "%!(EXTRA ".toList ++ ", ".toList.intercalate (args.map fun a => "string=".toList ++ a.toList) ++
      [')']

/-- Fills in what is left of a format. -/
def fill (args : List String) (r : Reading) : List Char :=
  match _h : r.rest with
  | [] => if r.reordered then [] else extra (args.drop r.next)
  | c :: cs =>
    if c ≠ '%' then c :: fill args { r with rest := cs }
    else
      let f := Front.read args.length { r with rest := cs }
      f.complaints ++
        match _e : f.rest with
        | [] => "%!(NOVERB)".toList ++ fill args { f.reading with rest := [] }
        | letter :: rest =>
          let after := { f.reading with rest }
          let shown (what : String) : List Char := "%!".toList ++ letter :: what.toList
          if letter = '%' then '%' :: fill args after
          else if !f.good then shown "(BADINDEX)" ++ fill args after
          else match args[after.next]? with
            | none => shown "(MISSING)" ++ fill args after
            | some arg => f.verb.apply letter arg ++ fill args { after with next := after.next + 1 }
termination_by r.rest.length
decreasing_by
  · simp only [_h, List.length_cons]; omega
  · simp only [_h, List.length_cons, List.length_nil]; omega
  all_goals
    have step := Front.read_rest_length args.length { r with rest := cs }
    have taken : (Front.read args.length { r with rest := cs }).rest.length = rest.length + 1 :=
      congrArg List.length _e
    have whole : r.rest.length = cs.length + 1 := congrArg List.length _h
    simp only at step
    omega

/-- A format with its arguments filled in. -/
def format (template : String) (args : List String) : String :=
  String.ofList (fill args ⟨template.toList, 0, false⟩)

end Desugar.Text

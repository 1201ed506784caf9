import Desugar.FileTree
import Desugar.Json

/-!
# Configuration

How a run is set up. A configuration file overrides the usual settings; it is refused if a value has the
wrong type, or if the tool cannot work with it.
-/
namespace Desugar

structure Config where
  verbose : Bool := false
  debug : Bool := false
  workDir : String := ""
  extension : String := ""
  /-- Forms that are not expanded. -/
  disabled : List String := []
  sugarImport : String := ""
  truthImport : String := ""
  maxDepth : Int := 0
  header : Bool := false
  /-- How many files are expanded at a time. -/
  concurrency : Int := 0
  deriving DecidableEq, Repr

namespace Config

/-- Where the configuration is looked for. -/
def defaultPath : String := "gosugar.json"

/-- How many processors run code at a time. -/
structure Processors where
  count : Nat
  positive : 0 < count
  deriving DecidableEq, Repr

def Processors.four : Processors := ⟨4, by decide⟩

/-- The settings where nothing else is said; each processor has a file to expand. -/
def standard (processors : Processors) : Config :=
  { workDir := ".", extension := ".sgo", maxDepth := 64, concurrency := processors.count }

/-- Settings that the tool cannot work with. -/
inductive Invalid where
  | extensionWithoutDot (extension : String)
  | extensionOfOutput
  | maxDepth (n : Int)
  | concurrency (n : Int)
  deriving DecidableEq, Repr

def Invalid.message : Invalid → String
  | extensionWithoutDot e => s!"extension {Text.quote e} must start with a dot"
  | extensionOfOutput => "extension must differ from .go"
  | maxDepth n => s!"max_depth must be positive, got {n}"
  | concurrency n => s!"concurrency must be positive, got {n}"

/-- The first setting that the tool cannot work with. -/
def invalid? (c : Config) : Option Invalid :=
  if c.extension.toList.head? ≠ some '.' then some (.extensionWithoutDot c.extension)
  else if c.extension = ".go" then some .extensionOfOutput
  else if c.maxDepth < 1 then some (.maxDepth c.maxDepth)
  else if c.concurrency < 1 then some (.concurrency c.concurrency)
  else none

/-! ## Writing -/

/-- A member that is left out if it says nothing. -/
def optional (name value : String) : List (String × JsonValue) :=
  if value = "" then [] else [(name, .text value)]

/-- The configuration as a value; settings that say nothing are left out where they may be. -/
def toJson (c : Config) : JsonValue :=
  .object <|
    [("verbose", .bool c.verbose), ("debug", .bool c.debug), ("work_dir", .text c.workDir),
      ("extension", .text c.extension)] ++
    (if c.disabled.isEmpty then [] else [("disabled", .array (c.disabled.map .text))]) ++
    optional "sugar_import" c.sugarImport ++ optional "truth_import" c.truthImport ++
    [("max_depth", .number (toString c.maxDepth)), ("header", .bool c.header),
      ("concurrency", .number (toString c.concurrency))]

def render (c : Config) : String := c.toJson.render

/-! ## Reading -/

/-- Where a value stands that has the wrong type. -/
inductive Spot where
  | whole
  | member (name : String)
  | element (name : String) (index : Nat)
  deriving DecidableEq, Repr

def Spot.message : Spot → String
  | whole => "Go value"
  | member name => s!"Go struct field Config.{name}"
  | element name index => s!"Config.{name}.{index}"

/-- A value of the wrong type: what it is, where it stands and what it should have been. -/
structure Mismatch where
  found : String
  spot : Spot
  expected : String
  deriving DecidableEq, Repr

def Mismatch.message (m : Mismatch) : String :=
  s!"json: cannot unmarshal {m.found} into {m.spot.message} of type {m.expected}"

/-- What a member may set, by its name. -/
inductive Setting where
  | verbose | debug | workDir | extension | disabled | sugarImport | truthImport | maxDepth | header
  | concurrency
  deriving DecidableEq, Repr

namespace Setting

def all : List (String × Setting) :=
  [("verbose", verbose), ("debug", debug), ("work_dir", workDir), ("extension", extension),
    ("disabled", disabled), ("sugar_import", sugarImport), ("truth_import", truthImport),
    ("max_depth", maxDepth), ("header", header), ("concurrency", concurrency)]

/-- A character without its case; two more characters count as letters of the alphabet. -/
def fold (c : Char) : Char :=
  if c = '\u017F' then 's' else if c = '\u212A' then 'k' else c.toLower

/-- The setting of a name, in upper or lower case. -/
def ofName? (name : String) : Option Setting :=
  match all.lookup name with
  | some s => some s
  | none => all.lookup (String.ofList (name.toList.map fold))

end Setting

def readBool (spot : Spot) (old : Bool) : JsonValue → Except Mismatch Bool
  | .null => .ok old
  | .bool b => .ok b
  | v => .error ⟨v.kindName, spot, "bool"⟩

def readString (spot : Spot) (old : String) : JsonValue → Except Mismatch String
  | .null => .ok old
  | .text s => .ok s
  | v => .error ⟨v.kindName, spot, "string"⟩

/-- An integer as it is written, without fraction and exponent, of at most 64 bits. -/
def integer? (literal : String) : Option Int :=
  let (negative, digits) := match literal.toList with
    | '-' :: rest => (true, rest)
    | cs => (false, cs)
  if digits.isEmpty || !digits.all Char.isDigit then none
  else
    let n : Int := digits.foldl (fun n c => 10 * n + ((c.toNat - '0'.toNat : Nat) : Int)) 0
    let n := if negative then -n else n
    let limit : Int := Nat.pow 2 63
    if -limit ≤ n && n < limit then some n else none

def readInt (spot : Spot) (old : Int) : JsonValue → Except Mismatch Int
  | .null => .ok old
  | .number literal =>
    match integer? literal with
    | some n => .ok n
    | none => .error ⟨s!"number {literal}", spot, "int"⟩
  | v => .error ⟨v.kindName, spot, "int"⟩

/-- A configuration half read, where a name may occur again. -/
structure Draft where
  config : Config
  /-- What stands in the places of the list of forms. An element that says nothing keeps what its
  place holds, also behind the end of a list that was shorter; an empty list clears the places. -/
  places : List String
  deriving Repr

/-- Reads elements; `old` is what stands in their places so far. -/
def readElements (name : String) : (index : Nat) → List String → List JsonValue →
    Except Mismatch (List String)
  | _, _, [] => .ok []
  | index, old, v :: vs => do
    let s ← readString (.element name index) (old.head?.getD "") v
    return s :: (← readElements name (index + 1) old.tail vs)

def Draft.readForms (d : Draft) (name : String) : JsonValue → Except Mismatch Draft
  | .null | .array [] => .ok { d with config.disabled := [], places := [] }
  | .array vs => do
    let forms ← readElements name 0 d.places vs
    return { config := { d.config with disabled := forms }
             places := forms ++ d.places.drop forms.length }
  | v => .error ⟨v.kindName, .member name, "[]string"⟩

/-- Applies one member; a name that is no setting is passed over. -/
def Draft.apply (d : Draft) (name : String) (v : JsonValue) : Except Mismatch Draft := do
  let c := d.config
  let spot : Spot := .member name
  let put (c : Config) : Draft := { d with config := c }
  match Setting.ofName? name with
  | none => return d
  | some .verbose => return put { c with verbose := ← readBool spot c.verbose v }
  | some .debug => return put { c with debug := ← readBool spot c.debug v }
  | some .workDir => return put { c with workDir := ← readString spot c.workDir v }
  | some .extension => return put { c with extension := ← readString spot c.extension v }
  | some .disabled => d.readForms name v
  | some .sugarImport => return put { c with sugarImport := ← readString spot c.sugarImport v }
  | some .truthImport => return put { c with truthImport := ← readString spot c.truthImport v }
  | some .maxDepth => return put { c with maxDepth := ← readInt spot c.maxDepth v }
  | some .header => return put { c with header := ← readBool spot c.header v }
  | some .concurrency => return put { c with concurrency := ← readInt spot c.concurrency v }

/-- Overrides settings by those of a value. -/
def override (c : Config) : JsonValue → Except Mismatch Config
  | .null => .ok c
  | .object members => do
    let d ← members.foldlM (fun (d : Draft) (name, v) => d.apply name v) ⟨c, c.disabled⟩
    return d.config
  | v => .error ⟨v.kindName, .whole, "cli.Config"⟩

/-- Why there is no configuration. -/
inductive LoadError where
  | unreadable (e : FileError)
  | malformed (f : JsonValue.Fault)
  | mismatch (m : Mismatch)
  | invalid (path : String) (i : Invalid)
  deriving DecidableEq, Repr

def LoadError.message : LoadError → String
  | unreadable e => s!"failed to read config file: {e.message}"
  | malformed f => s!"failed to parse config file: {f.message}"
  | mismatch m => s!"failed to parse config file: {m.message}"
  | invalid path i => s!"invalid config file {path}: {i.message}"

/-- Reads the text of a configuration file. -/
def parse (processors : Processors) (path text : String) : Except LoadError Config := do
  let v ← (JsonValue.parse text).mapError .malformed
  let c ← ((standard processors).override v).mapError .mismatch
  match c.invalid? with
  | some i => throw (.invalid path i)
  | none => return c

/-- Loads the configuration at a path; no path and no file mean the usual settings. -/
def load (t : FileTree) (path : String) (processors : Processors := .four) : Except LoadError Config :=
  if path = "" then .ok (standard processors)
  else match t.read path with
    | .ok data => parse processors path (Text.toString data)
    | .error e => if e.cause = .missing then .ok (standard processors) else .error (.unreadable e)

/-- Writes a configuration to a path. -/
def save (t : FileTree) (path : String) (c : Config) : Except String FileTree :=
  match t.write path (Text.utf8 c.render) with
  | .ok t => .ok t
  | .error e => .error s!"failed to write config file: {e.message}"

end Config
end Desugar

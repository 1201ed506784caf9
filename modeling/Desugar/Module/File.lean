import Desugar.Module.Line
import Desugar.Module.ModuleVersion

/-!
# Module files

A module file says which module this is, which version of the language it is written in, and which
versions of other modules it needs.
-/
namespace Desugar.Module

/-- A module needed at a version. -/
structure Requirement where
  path : String
  version : String
  deriving DecidableEq, Repr

/-- A module that is taken from somewhere else, at one version or, if that is empty, at any. -/
structure Replacement where
  path : String
  version : String
  newPath : String
  newVersion : String
  deriving DecidableEq, Repr

structure File where
  /-- The path of the module itself. -/
  path : Option String := none
  /-- The version of the language. -/
  language : Option String := none
  toolchain : Option String := none
  require : List Requirement := []
  replace : List Replacement := []
  deriving DecidableEq, Repr

/-- What is wrong with a directive. -/
inductive Cause where
  | unknownDirective (verb : String)
  | unknownBlock (words : List String)
  | repeated (verb : String)
  | oneArgument (verb : String)
  | badLanguage (version : String)
  | badToolchain (name : String)
  | usage (text : String)
  | badString (why : String)
  | badVersion (verb path version why : String)
  | badPath (verb? : Option String) (path : String)
  | replacementAtVersion | replacementNoDirectory | replacementBackslash
  | replacementDirectoryVersion (path : String)
  | interval (expected : String)
  | afterInterval (word : String)
  deriving DecidableEq, Repr

def Cause.message : Cause → String
  | unknownDirective verb => s!"unknown directive: {verb}"
  | unknownBlock words => "unknown block type: " ++ " ".intercalate words
  | repeated verb => s!"repeated {verb} statement"
  | oneArgument verb => s!"{verb} directive expects exactly one argument"
  | badLanguage v => s!"invalid go version '{v}': must match format 1.23.0"
  | badToolchain name =>
    s!"invalid toolchain version '{name}': must match format go1.23.0 or default"
  | usage text => s!"usage: {text}"
  | badString why => s!"invalid quoted string: {why}"
  | badVersion verb path version why =>
    let directive := if path = "" then s!"{verb}: " else s!"{verb} {path}: "
    directive ++ s!"version {Text.quote version} invalid: {why}"
  | badPath none path => s!"invalid module path: {path}"
  | badPath (some verb) path => s!"{verb} {path}: invalid module path: {path}"
  | replacementAtVersion =>
    "replacement module must match format 'path version', not 'path@version'"
  | replacementNoDirectory =>
    "replacement module without version must be directory path (rooted or starting with . or ..)"
  | replacementBackslash =>
    "replacement directory appears to be Windows path (on a non-windows system)"
  | replacementDirectoryVersion path =>
    s!"replacement module directory path {Text.quote path} cannot have version"
  | interval expected => s!"expected {expected}"
  | afterInterval word => s!"unexpected token after version: {Text.quote word}"

/-! ## Words -/

/-- The value of a word, which may be quoted. -/
def wordValue (word : String) : Except String String :=
  if word.toList.head? = some '"' then
    match Text.unquote? (Text.utf8 word) with
    | some bs => .ok (Text.toString bs)
    | none => .error "invalid syntax"
  else if word.toList.any fun c => c = '"' || c = '\'' || c = Char.ofNat 0x60 then
    .error "unquoted string cannot contain quote"
  else .ok word

def stringWord (word : String) : Except Cause String := (wordValue word).mapError .badString

/-- The value of a word that stands for a version; it may be of any form. -/
def looseVersion (verb path word : String) : Except Cause String :=
  (wordValue word).mapError (.badVersion verb path word)

/-- A version in its canonical form. -/
def versionWord (verb path word : String) : Except Cause Parsed := do
  let text ← looseVersion verb path word
  match Parsed.ofText? text with
  | some p => return p
  | none => throw (.badVersion verb path text "must be of the form v1.2.3")

/-- Refuses a version whose major number does not go with the path. -/
def checkMajor (verb path : String) (p : Parsed) (pathMajor : List Char) : Except Cause Unit :=
  match wrongMajor? p pathMajor with
  | none => .ok ()
  | some wanted =>
    .error (.badVersion verb path p.canonical s!"should be {wanted}, not {p.majorName}")

/-! ## Directives -/

/-- A number without leading zeros at the front of a text, and what follows. -/
def languageNumber (allowZero : Bool) (cs : List Char) : Option (List Char) := do
  let (digits, rest) ← number? cs
  if !allowZero && digits.head? = some '0' then none else some rest

/-- Whether a text is a version of the language: two or three numbers, and perhaps letters and a number
behind them. -/
def isLanguageVersion (text : String) : Bool :=
  let tailOk (cs : List Char) : Bool :=
    let letters := cs.takeWhile Char.isLower
    let digits := cs.drop letters.length
    cs.isEmpty || (!letters.isEmpty && !digits.isEmpty && digits.all Char.isDigit)
  match languageNumber false text.toList with
  | some ('.' :: rest) =>
    match languageNumber true rest with
    | some ('.' :: rest) =>
      match languageNumber true rest with
      | some rest => tailOk rest
      | none => false
    | some rest => tailOk rest
    | none => false
  | _ => false

def isToolchain (name : String) : Bool :=
  name = "default" || name = "go1" || "go1.".toList.isPrefixOf name.toList

/-- Whether a replacement is a directory, in any system's way to write one. -/
def isDirectoryPath (path : String) : Bool :=
  let cs := path.toList
  let starts (s : String) : Bool := s.toList.isPrefixOf cs
  path = "." || starts "./" || starts ".\\" || path = ".." || starts "../" || starts "..\\" ||
    starts "/" || starts "\\" || match cs with
      | c :: ':' :: _ => c.isAlpha
      | _ => false

def parseRequire (verb : String) : List String → Except Cause Requirement
  | [path, version] => do
    let path ← stringWord path
    let v ← versionWord verb path version
    match pathMajor? path with
    | none => throw (.badPath none path)
    | some major =>
      checkMajor verb path v major
      return ⟨path, v.canonical⟩
  | _ => .error (.usage s!"{verb} module/path v1.2.3")

/-- What a replaced module is replaced by. -/
def parseTarget (verb : String) : List String → Except Cause (String × String)
  | [path] => do
    let path ← stringWord path
    if !isDirectoryPath path then
      throw (if path.toList.contains '@' then .replacementAtVersion else .replacementNoDirectory)
    if path.toList.contains '\\' then throw .replacementBackslash
    return (path, "")
  | path :: version :: _ => do
    let path ← stringWord path
    let v ← versionWord verb path version
    if isDirectoryPath path then throw (.replacementDirectoryVersion path)
    return (path, v.canonical)
  | [] => .ok ("", "")

def parseReplace (verb : String) (args : List String) : Except Cause Replacement := do
  let arrow := if args[1]? = some "=>" then 1 else 2
  if args.length < arrow + 2 || arrow + 3 < args.length || args[arrow]? ≠ some "=>" then
    throw (.usage (s!"{verb} module/path [v1.2.3] => other/module v1.4\n\t or {verb} " ++
      "module/path [v1.2.3] => ../local/directory"))
  let path ← stringWord (args.headD "")
  match pathMajor? path with
  | none => throw (.badPath (some verb) path)
  | some major =>
    let version ← if arrow = 2 then do
        let v ← versionWord verb path (args.getD 1 "")
        checkMajor verb path v major
        pure v.canonical
      else pure ""
    let (newPath, newVersion) ← parseTarget verb (args.drop (arrow + 1))
    return ⟨path, version, newPath, newVersion⟩

/-- Checks a version or an interval of versions; the words behind it are returned. -/
def parseInterval (verb : String) : List String → Except Cause (List String)
  | [] | "(" :: _ => .error (.interval "'[' or version")
  | "[" :: rest => do
    let rest ← match rest with
      | [] => throw (.interval "version after '['")
      | low :: rest => do
        let _ ← looseVersion verb "" low
        pure rest
    let rest ← match rest with
      | "," :: rest => pure rest
      | _ => throw (.interval "',' after version")
    let rest ← match rest with
      | [] => throw (.interval "version after ','")
      | high :: rest => do
        let _ ← looseVersion verb "" high
        pure rest
    match rest with
    | "]" :: rest => return rest
    | _ => throw (.interval "']' after version")
  | version :: rest => do
    let _ ← looseVersion verb "" version
    return rest

/-- Adds a directive to what a file says. -/
def addDirective (f : File) (verb : String) (args : List String) : File × Option Cause :=
  let check (r : Except Cause File) : File × Option Cause := match r with
    | .ok f => (f, none)
    | .error c => (f, some c)
  match verb with
  | "go" => check <|
    if f.language.isSome then .error (.repeated verb)
    else match args with
      | [v] => if isLanguageVersion v then .ok { f with language := some v } else .error (.badLanguage v)
      | _ => .error (.oneArgument verb)
  | "toolchain" => check <|
    if f.toolchain.isSome then .error (.repeated verb)
    else match args with
      | [n] => if isToolchain n then .ok { f with toolchain := some n } else .error (.badToolchain n)
      | _ => .error (.oneArgument verb)
  | "module" =>
    if f.path.isSome then (f, some (.repeated verb))
    else
      let named (path : String) : File := { f with path := some path }
      match args with
      | [path] => match stringWord path with
        | .ok path => (named path, none)
        | .error c => (named "", some c)
      | _ => (named "", some (.usage "module module/path"))
  | "godebug" => check <| match args with
    | [a] =>
      let quotes : List Char := ['"', Char.ofNat 0x60, '\'', ',']
      if a.toList.any quotes.contains || !a.toList.contains '=' then .error (.usage "godebug key=value")
      else .ok f
    | _ => .error (.usage "godebug key=value")
  | "require" => check do return { f with require := f.require ++ [← parseRequire verb args] }
  | "exclude" => check do
    let _ ← parseRequire verb args
    return f
  | "replace" => check do return { f with replace := f.replace ++ [← parseReplace verb args] }
  | "retract" => check do
    match ← parseInterval verb args with
    | [] => return f
    | word :: _ => throw (.afterInterval word)
  | "tool" | "ignore" => check <| match args with
    | [a] => (stringWord a).map fun _ => f
    | _ => .error (.oneArgument verb)
  | _ => (f, some (.unknownDirective verb))

/-- Words that may stand before a block. -/
def blockVerbs : List String :=
  ["module", "godebug", "require", "exclude", "replace", "retract", "tool", "ignore"]

structure Fault where
  place : Place
  cause : Cause
  deriving DecidableEq, Repr

/-- A message with the place that it is about; a column is given where it is not the first. -/
def locate (file : String) (p : Place) (message : String) : String :=
  if 1 < p.column then s!"{file}:{p.line}:{p.column}: {message}" else s!"{file}:{p.line}: {message}"

/-- Adds a line of words behind a verb to what a file says. -/
def addLine (verb : String) (args : Line → List String) (acc : File × List Fault) (l : Line) :
    File × List Fault :=
  let (f, cause) := addDirective acc.1 verb (args l)
  (f, acc.2 ++ (cause.map (Fault.mk l.place)).toList)

def addStatement (acc : File × List Fault) : Statement → File × List Fault
  | .line l => addLine (l.words.headD "") (·.words.drop 1) acc l
  | .block head lines =>
    match head.words with
    | [verb] =>
      if blockVerbs.contains verb then lines.foldl (addLine verb (·.words)) acc
      else (acc.1, acc.2 ++ [⟨head.place, .unknownBlock head.words⟩])
    | words => (acc.1, acc.2 ++ [⟨head.place, .unknownBlock words⟩])

/-- Why a text is no module file. -/
inductive ParseError where
  | malformed (f : SyntaxFault)
  | faults (fs : List Fault)
  deriving DecidableEq, Repr

def ParseError.message (file : String) : ParseError → String
  | malformed f => locate file f.place (f.cause.message file)
  | faults fs => "\n".intercalate (fs.map fun f => locate file f.place f.cause.message)

/-- Reads a module file. -/
def File.parse (text : Bytes) : Except ParseError File :=
  match parseStatements (Text.chars text) with
  | .error f => .error (.malformed f)
  | .ok ss =>
    match ss.foldl addStatement ({}, []) with
    | (f, []) => .ok f
    | (_, fs) => .error (.faults fs)

end Desugar.Module

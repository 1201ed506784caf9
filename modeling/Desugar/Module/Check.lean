import Desugar.FileTree
import Desugar.Module.File
import Desugar.Version

/-!
# Checks of a module

Expanded code needs the support library and a recent enough language. Whether a module has both is read
off its module file.
-/
namespace Desugar.Module

/-- The module of the support library. -/
def supportModule : String := "github.com/orizon-lang/gosugar"

/-- The oldest version of the language that the support library is written for. -/
def minLanguage : String := "1.22"

/-- Looks for a module file in a directory and those above it. -/
def findUpwards (t : FileTree) : (fuel : Nat) → (dir : String) → Option String
  | 0, _ => none
  | fuel + 1, dir =>
    let candidate := Path.join [dir, "go.mod"]
    if t.exists? candidate then some candidate
    else
      let parent := Path.dir dir
      if parent = dir then none else findUpwards t fuel parent

/-- The nearest module file at or above a directory. -/
def find (t : FileTree) (dir : String) : Except String String :=
  let start := t.absolute dir
  match findUpwards t (start.length + 1) start with
  | some path => .ok path
  | none => .error "no go.mod found"

/-- A module file and where it was found. -/
structure Manifest where
  location : String
  file : File
  deriving DecidableEq, Repr

def load (t : FileTree) (path : String) : Except String Manifest := do
  let data ← (t.read path).mapError FileError.message
  match File.parse data with
  | .ok file => return ⟨path, file⟩
  | .error e => throw s!"failed to parse {path}: {e.message path}"

namespace Manifest

/-- The module's own path; empty if it has none. -/
def path (m : Manifest) : String := m.file.path.getD ""

/-- The version at which a module is needed: the first that is given. -/
def requirement (m : Manifest) (path : String) : Option String :=
  (m.file.require.find? (·.path = path)).map (·.version)

/-- Whether a module is taken from somewhere else. -/
def isReplaced (m : Manifest) (path : String) : Bool := m.file.replace.any (·.path = path)

/-- What keeps expanded code from being built. -/
inductive Obstacle where
  | badMinimum (version : String) (f : Version.Fault)
  | notRequired (path : String) (minimum : Version)
  | badRequirement (path version : String) (f : Version.Fault)
  | otherMajor (path version : String) (minimum : Version)
  | tooOld (path version : String) (minimum : Version)
  | noLanguage
  | badConstraint (f : Version.Constraint.Fault)
  | badLanguage (version : String) (f : Version.Fault)
  | oldLanguage (version minimum : String)
  deriving DecidableEq, Repr

def Obstacle.message (location : String) : Obstacle → String
  | badMinimum version f => s!"invalid minimum version {Text.quote version}: {f.message}"
  | notRequired path minimum =>
    s!"{location} does not require {path}; run: go get {path}@v{minimum.render}"
  | badRequirement path version f =>
    s!"{location} requires {path} at unparsable version {Text.quote version}: {f.message}"
  | otherMajor path version minimum =>
    s!"{location} requires {path} {version}, want major version {minimum.major}"
  | tooOld path version minimum =>
    s!"{location} requires {path} {version}, want v{minimum.render} or later"
  | noLanguage => s!"{location} has no go directive"
  | badConstraint f => f.message
  | badLanguage version f => s!"invalid go directive {Text.quote version}: {f.message}"
  | oldLanguage version minimum =>
    s!"{location} declares go {version}, the runtime packages need go {minimum}"

/-- Whether a module is needed at a minimum version or later, with the same major number. The module
itself and replaced modules pass. -/
def checkSupport (m : Manifest) (path minimum : String) : Except Obstacle Unit := do
  if m.path = path then return
  let floor ← (Version.parse minimum).mapError (.badMinimum minimum)
  match m.requirement path with
  | none => throw (.notRequired path floor)
  | some version =>
    if m.isReplaced path then return
    let v ← (Version.parse version).mapError (.badRequirement path version)
    if v.major ≠ floor.major then throw (.otherMajor path version floor)
    if v.cmp floor = .lt then throw (.tooOld path version floor)

/-- Whether the module is written in a minimum version of the language or later. -/
def checkLanguage (m : Manifest) (minimum : String) : Except Obstacle Unit := do
  match m.file.language with
  | none => throw .noLanguage
  | some version =>
    let c ← (Version.Constraint.parse s!">= {minimum}").mapError .badConstraint
    let v ← (Version.parse version).mapError (.badLanguage version)
    if !c.holds v then throw (.oldLanguage version minimum)

end Manifest
end Desugar.Module

import Desugar.Host.Parse.File
import Desugar.Typing.Collect
import Desugar.Typing.Library.Data
import Desugar.Typing.Library.System
import Desugar.Typing.Library.Text

/-!
# Members of packages

A known package is read when one of its members is first asked for.
-/
namespace Desugar.Typing

namespace Library

def packages : List Package := textPackages ++ systemPackages ++ dataPackages

def find? (path : String) : Option Package := packages.find? (·.path = path)

/-- The name of a known package. -/
def describe (path : String) : Option String := (find? path).map Package.name

end Library

/-- What is built into the package of pointers without types. -/
def unsafeMembers : List (String × Entity × Option Ty) :=
  [("Pointer", .type, some (.basic .unsafePointer)),
   ("Add", .builtin .pointerAdd, none), ("Alignof", .builtin .alignOf, none),
   ("Offsetof", .builtin .offsetOf, none), ("Sizeof", .builtin .sizeOf, none),
   ("Slice", .builtin .pointerSlice, none), ("SliceData", .builtin .sliceData, none),
   ("String", .builtin .pointerString, none), ("StringData", .builtin .stringData, none)]

/-- Reads the declarations of a known package. -/
def readPackage (id : Nat) (info : PackageInfo) : Check Unit := do
  if id = Tables.unsafePackage then
    for (name, entity, type) in unsafeMembers do
      let obj ← addObject { name, entity, type := some (type.getD .invalid), package := id }
      discard <| declareIn info.scope name obj
  else match Library.find? info.path with
    | none => pure ()
    | some p =>
      match Host.parseFile p.path (Text.utf8 p.source) false with
      | .error _ => pure ()
      | .ok parsed =>
        let inner ← openScope info.scope
        let scope : FileScope :=
          { package := id, file := libraryFile + id, outer := info.scope, inner }
        let collected ← collectFile Library.describe scope parsed.file
        attachMethods info.scope collected.methods

/-- Makes sure that the declarations of a package have been read. -/
def loadPackage (id : Nat) : Check Unit := do
  let info := (← tables).packageInfo id
  if info.isLoaded then return
  modifyTables fun t =>
    { t with packages := t.packages.modify id fun p => { p with isLoaded := true } }
  readPackage id info

/-- The object that a package declares under a name. -/
def packageMember (id : Nat) (name : String) : Check (Option Nat) := do
  loadPackage id
  inScope? ((← tables).packageInfo id).scope name

end Desugar.Typing

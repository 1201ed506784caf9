import Desugar.Expand.Whole

/-!
# Expanding many files

Files are expanded one by one; a file that fails leaves the others alone.
-/
namespace Desugar

/-- What became of a file. -/
structure Expanded where
  path : String
  /-- What was read; nothing if the file cannot be read. -/
  source : Bytes
  result : Except Failure Bytes

namespace Expander

/-- Expands a text as the content of a file. -/
def expandText (e : Expander) (t : FileTree) (path : String) (source : Bytes) :
    StateM (Array String) Expanded := do
  return ⟨path, source, ← (e.expandSource t path source).run⟩

/-- Reads and expands a file. -/
def expandFile (e : Expander) (t : FileTree) (path : String) : StateM (Array String) Expanded :=
  match t.read path with
  | .error f => return ⟨path, [], .error (.plain f.message)⟩
  | .ok source => e.expandText t path source

/-- Expands files in order. -/
def expandFiles (e : Expander) (t : FileTree) (paths : List String) :
    StateM (Array String) (List Expanded) :=
  paths.mapM (e.expandFile t)

/-- Expands files unless that was cancelled beforehand: what became of each file that was looked at, and
why the others were not. -/
def expandUnless (e : Expander) (t : FileTree) (cancelled : Bool) (paths : List String) :
    StateM (Array String) (List (Option Expanded) × Option String) := do
  if cancelled && !paths.isEmpty then return (paths.map fun _ => none, some "context canceled")
  else return ((← e.expandFiles t paths).map some, none)

end Expander
end Desugar

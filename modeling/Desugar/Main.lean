import Desugar.Command.Run
import Std.Time.Zoned

/-!
# The program

Reads the files of the working directory, lets the tool work on them, and writes what it changed. Hidden
directories and what cannot be read are left alone.
-/
namespace Desugar.Main

open Command (Session Surroundings Watching)

/-- Entries at and below an entry of a directory whose path is `parent`. -/
partial def entriesOf (parent : String) (e : IO.FS.DirEntry) : IO (List (String × FileEntry)) := do
  let path := Path.join [parent, e.fileName]
  if ← e.path.isDir then
    if e.fileName.toList.head? = some '.' then return []
    let below ← (← e.path.readDir).toList.mapM (entriesOf path)
    return (path, .directory) :: below.flatten
  else
    try return [(path, .file (← IO.FS.readBinFile e.path).toList)]
    catch _ => return []

/-- The working directory as it is now. -/
def readFiles : IO FileTree := do
  let here ← IO.currentDir
  let entries ← (← here.readDir).toList.mapM (entriesOf "")
  return ⟨here.toString, entries.flatten⟩

/-- Writes files that differ from what was there. -/
def writeFiles (before after : FileTree) : IO Unit := do
  for (path, content) in after.files do
    unless before.entry? path = some (.file content) do
      IO.FS.writeBinFile path ⟨content.toArray⟩

/-- Puts out what a session wrote and changed since `before`, and starts its outputs anew. -/
def flush (before : FileTree) (s : Session) : IO Session := do
  writeFiles before s.tree
  let out ← IO.getStdout
  out.write ⟨s.stdout.toArray⟩
  out.flush
  let err ← IO.getStderr
  err.write ⟨s.stderr.toArray⟩
  err.flush
  return { s with stdout := [], stderr := [] }

/-- Everything that is left of an input. -/
partial def readAll (input : IO.FS.Stream) : IO Bytes := do
  let chunk ← input.read 65536
  if chunk.isEmpty then return []
  return chunk.toList ++ (← readAll input)

/-- The time of day. -/
def timeOfDay : IO String := do
  let now ← Std.Time.PlainTime.now
  let two (n : Int) : String := if n < 10 then s!"0{n}" else s!"{n}"
  return s!"{two now.hour.val}:{two now.minute.val}:{two now.second.val}"

/-- Looks for files that came or changed, again and again. -/
partial def poll (w : Watching) (s : Session) : IO Unit := do
  IO.sleep 200
  let now ← readFiles
  let time ← timeOfDay
  let w := { w with journal := { w.journal with time } }
  let arrived := now.files.filter fun (path, content) => s.tree.entry? path ≠ some (.file content)
  let next := arrived.foldl (fun s (path, content) => w.arrive path content s) { s with tree := now }
  poll w (← flush now next)

end Desugar.Main

open Desugar in
def main (args : List String) : IO UInt32 := do
  let tree ← Main.readFiles
  let input ← if Command.readsInput args then Main.readAll (← IO.getStdin) else pure []
  let around : Command.Surroundings := { input, time := ← Main.timeOfDay }
  match args with
  | "watch" :: rest =>
    match (Command.startWatching around rest).run.run { tree } with
    | (.ok w, s) =>
      Main.poll w (← Main.flush tree s)
      return 0
    | (.error code, s) =>
      discard <| Main.flush tree s
      return code.number.toUInt32
  | _ =>
    let (code, s) := Command.run around args { tree }
    discard <| Main.flush tree s
    return code.number.toUInt32

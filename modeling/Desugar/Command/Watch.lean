import Desugar.Command.Setup
import Desugar.Watch.Runner

/-!
# The command that watches

Sources are expanded once, and again whenever they change. Failures are reported and do not end the
watch.
-/
namespace Desugar.Command

/-- Writes an expansion beside its source, or reports why there is none. -/
def refresh (j : Journal) (x : Expander) (r : Expanded) (s : Session) : Session :=
  match r.result with
  | .error f => s.warn (report r.path r.source f)
  | .ok out =>
    let target := x.outputPath r.path
    match writeChanged s.tree target out with
    | .error e => j.write .error e.message s
    | .ok tree => j.write .info s!"wrote {target}" { s with tree }

/-- Expands a source that changed. -/
def handle (j : Journal) (x : Expander) (path : String) (s : Session) : Session :=
  let (r, s) := j.traced (x.expandFile s.tree path) s
  refresh j x r s

/-- The event of a file that arrives in a watched directory, named by that directory's clean path. -/
def arrival? (watched : List String) (path : String) : Option Watch.Event :=
  let dir := Path.dir (Path.clean path)
  if (watched.map Path.clean).contains dir then
    some ⟨s!"{dir}/{Path.base path}", ⟨Watch.Change.created.bit⟩⟩
  else none

/-- A watch that was set up. -/
structure Watching where
  journal : Journal
  expander : Expander
  /-- Directories that are watched. -/
  directories : List String

/-- Lets a file arrive and handles its event. -/
def Watching.arrive (w : Watching) (path : String) (content : Bytes) (s : Session) : Session :=
  let s := { s with tree := s.tree.put path content }
  match arrival? w.directories path with
  | none => s
  | some e =>
    let setup : Watch.Setup :=
      { tree := s.tree, accepts := w.expander.isSource, watches := fun _ => true
        outcome := fun _ => none }
    let (_, seen) := setup.deliver (fun _ => false) .start e
    let s := seen.handled.foldl (fun s path => handle w.journal w.expander path s) s
    seen.reported.foldl (fun s message => w.journal.write .error s!"watch: {message}" s) s

/-- Sets a watch up and expands what is there. -/
def startWatching (around : Surroundings) (args : List String) : Task Watching := do
  let a ← arguments "watch" sharedFlags args
  let c ← configure around a
  let j := journalOf around c
  let x ← expanderOf j c
  let dirs := if a.operands.isEmpty then [c.workDir] else a.operands
  let watched ← orFail FileError.message (dirs.mapM (Watch.directories (← get).tree))
  let paths ← orFail FileError.message (collect x (← get).tree c.workDir dirs)
  let results ← modifyGet fun s => j.traced (x.expandFiles s.tree paths) s
  modify fun s => results.foldl (fun s r => refresh j x r s) s
  modify (j.write .info s!"watching {dirs.length} directories")
  return ⟨j, x, watched.flatten⟩

/-- Watches while files arrive; the end of the watch is its success. -/
def watch (around : Surroundings) (args : List String) : Task ExitCode := do
  let w ← startWatching around args
  modify fun s => around.arrivals.foldl (fun s (path, content) => w.arrive path content s) s
  return .success

end Desugar.Command

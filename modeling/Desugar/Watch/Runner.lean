import Desugar.FileTree

/-!
# Watching
-/

/-!
## Watched directories

A directory is watched together with the directories below it, without those that are skipped.
-/
namespace Desugar.Watch

/-- Why a directory is not watched. -/
inductive WatchError where
  | file (e : FileError)
  | refused (path : String)
  deriving DecidableEq, Repr

def WatchError.message : WatchError → String
  | file e => e.message
  | refused path => s!"cannot watch {path}"

/-- Adds paths one after the other up to the first that is refused. -/
def addAll (accepts : String → Bool) : List String → List String × Option WatchError
  | [] => ([], none)
  | path :: rest =>
    if accepts path then
      let (added, failure) := addAll accepts rest
      (path :: added, failure)
    else ([], some (.refused path))

/-- The directories to be watched for a path, in the order of a walk. -/
def directories (t : FileTree) (path : String) : Except FileError (List String) := do
  let visits ← t.walk path
  return (visits.filter (·.entry.isDirectory)).map (·.path)

/-- Watches a path and the directories below it: those that were added, and why it stopped early. -/
def addRecursive (t : FileTree) (accepts : String → Bool) (path : String) :
    List String × Option WatchError :=
  match directories t path with
  | .ok dirs => addAll accepts dirs
  | .error e => ([], some (.file e))

end Desugar.Watch

/-!
## Runs of a handler

For each path at most one call is under way; it runs the handler, and runs it again if further events
for the path were counted meanwhile. An event is counted first and joins its path's call, or starts one,
in a later step. A call is over in two steps: it decides to stop, and later it is forgotten; an event in
between still joins it.

The steps are given one by one, so that every order of them can be talked about. `settle` takes them
in one order: as far as the handlers go on.
-/
namespace Desugar.Watch

/-!
### File changes

What happened to a file is a set of changes, written as a number with one bit for each of them.
-/

inductive Change where
  | created | written | removed | renamed | modeChanged
  deriving DecidableEq, Repr

namespace Change

def all : List Change := [created, written, removed, renamed, modeChanged]

/-- The bit that stands for a change. -/
def bit : Change → Nat
  | created => 1
  | written => 2
  | removed => 4
  | renamed => 8
  | modeChanged => 16

end Change

/-- A set of changes as bits. -/
structure Changes where
  bits : Nat
  deriving DecidableEq, Repr

namespace Changes

/-- Whether all of the other changes are among these. -/
def has (c other : Changes) : Bool := c.bits &&& other.bits = other.bits

def contains (c : Changes) (change : Change) : Bool := c.has ⟨change.bit⟩

/-- The changes that are known among some bits. -/
def ofBits (bits : Nat) : Changes :=
  ⟨(Change.all.filter (Changes.mk bits).contains).foldl (fun n c => n ||| c.bit) 0⟩

end Changes

/-- A change of the file or directory at a path. -/
structure Event where
  path : String
  changes : Changes
  deriving DecidableEq, Repr

/-! ### Calls -/

/-- How far the call of a path is. -/
inductive Call where
  /-- No call. -/
  | idle
  /-- About to look how many events were counted. -/
  | ready
  /-- About to run the handler; so many events had been counted. -/
  | looked (seen : Nat)
  /-- Running the handler. -/
  | running (seen : Nat)
  /-- The handler has returned. -/
  | returned (seen : Nat)
  /-- Stopped, and not yet forgotten. -/
  | stopped
  deriving DecidableEq, Repr

/-- What is known of a path: its accepted events and its call. -/
structure Progress where
  events : Nat
  call : Call
  deriving DecidableEq, Repr

def Progress.start : Progress := ⟨0, .idle⟩

/-- The paths of a runner. A path that is not listed had no event. -/
structure Runs where
  paths : List (String × Progress)
  /-- The path of the event that has been counted and is about to join a call. -/
  joining : Option String := none
  cancelled : Bool
  deriving DecidableEq, Repr

namespace Runs

def start : Runs := { paths := [], cancelled := false }

def progress (r : Runs) (path : String) : Progress := (r.paths.lookup path).getD .start

def set (r : Runs) (path : String) (p : Progress) : Runs :=
  if r.paths.any (·.1 = path) then
    { r with paths := r.paths.map fun (q, old) => (q, if q = path then p else old) }
  else { r with paths := r.paths ++ [(path, p)] }

/-- Moves the call of a path on. -/
def move (r : Runs) (path : String) (call : Call) : Runs :=
  r.set path { r.progress path with call }

/-- Counts an event. -/
def count (r : Runs) (path : String) : Runs :=
  let p := r.progress path
  { r.set path { p with events := p.events + 1 } with joining := some path }

/-- Lets the event that was counted join the call of its path, or start one if there is none. -/
def join (r : Runs) : Runs :=
  match r.joining with
  | none => r
  | some path =>
    let r := { r with joining := none }
    if (r.progress path).call = .idle then r.move path .ready else r

/-- Takes an event in. -/
def event (r : Runs) (path : String) : Runs := (r.count path).join

/-- Looks how many events were counted before the handler of a call runs. -/
def look? (r : Runs) (path : String) : Option Runs :=
  let p := r.progress path
  match p.call with
  | .ready => some (r.move path (.looked p.events))
  | _ => none

/-- Starts the handler of a call. -/
def run? (r : Runs) (path : String) : Option Runs :=
  match (r.progress path).call with
  | .looked seen => some (r.move path (.running seen))
  | _ => none

/-- Starts the handler of a call that is about to run it. -/
def begin? (r : Runs) (path : String) : Option Runs := (r.look? path).bind (·.run? path)

/-- Ends the handler of a call. -/
def leave? (r : Runs) (path : String) : Option Runs :=
  match (r.progress path).call with
  | .running seen => some (r.move path (.returned seen))
  | _ => none

/-- Decides how a call goes on: its handler runs again if more events were counted, unless all is
cancelled. -/
def decide? (r : Runs) (path : String) : Option Runs :=
  let p := r.progress path
  match p.call with
  | .returned seen =>
    some (r.move path (if p.events = seen || r.cancelled then .stopped else .ready))
  | _ => none

/-- Ends the handler of a call, which goes on or stops. -/
def finish? (r : Runs) (path : String) : Option Runs := (r.leave? path).bind (·.decide? path)

/-- Forgets a call that stopped. -/
def forget? (r : Runs) (path : String) : Option Runs :=
  match (r.progress path).call with
  | .stopped => some (r.move path .idle)
  | _ => none

def isRunning (r : Runs) (path : String) : Bool :=
  match (r.progress path).call with
  | .running _ => true
  | _ => false

/-- Paths whose handlers run. -/
def runningPaths (r : Runs) : List String := (r.paths.map (·.1)).filter r.isRunning

end Runs

/-- What a runner is set up with. -/
structure Setup where
  tree : FileTree
  /-- Paths whose events count. -/
  accepts : String → Bool
  /-- Directories that can be watched. -/
  watches : String → Bool
  /-- The error that the handler of a path ends with. -/
  outcome : String → Option String
  /-- Whether anybody is told of errors. -/
  reports : Bool := true

/-- What can be seen of a runner: handlers that started, errors, and directories that were added. -/
structure Seen where
  handled : List String := []
  reported : List String := []
  added : List String := []
  deriving DecidableEq, Repr

def Seen.append (a b : Seen) : Seen :=
  ⟨a.handled ++ b.handled, a.reported ++ b.reported, a.added ++ b.added⟩

namespace Setup

/-- What can be seen where nobody may be told of errors. -/
def visible (s : Setup) (seen : Seen) : Seen :=
  if s.reports then seen else { seen with reported := [] }

/-- Lets the call of a path go on until it is forgotten or its handler is held, which the steps
bound. -/
def settle (s : Setup) (held : String → Bool) :
    (steps : Nat) → Runs → (path : String) → Runs × Seen
  | 0, r, _ => (r, {})
  | steps + 1, r, path =>
    match r.begin? path with
    | some r =>
      let begun : Seen := { handled := [path] }
      if held path then (r, begun)
      else
        let (r, seen) := s.settle held steps r path
        (r, begun.append seen)
    | none =>
      match r.finish? path with
      | some r =>
        let (r, seen) := s.settle held steps r path
        (r, Seen.append { reported := (s.outcome path).toList } seen)
      | none =>
        match r.forget? path with
        | some r => (r, {})
        | none => (r, {})

/-- Steps after which a call is forgotten or held: from one run of the handler to a second. -/
def settleSteps : Nat := 5

/-- Whether an event asks for a handler or a directory at all. -/
def isRelevant (e : Event) : Bool := e.changes.contains .created || e.changes.contains .written

/-- Takes an event in: a new directory is watched, and an accepted path is counted. The path is
returned if its call may go on. -/
def dispatch (s : Setup) (r : Runs) (e : Event) : Runs × Seen × Option String :=
  let isDirectory := match s.tree.find e.path with
    | .ok entry => entry.isDirectory
    | .error _ => false
  if !isRelevant e then (r, {}, none)
  else if e.changes.contains .created && isDirectory then
    let (added, failure) := addRecursive s.tree s.watches e.path
    (r, { reported := (failure.map WatchError.message).toList, added }, none)
  else if s.accepts e.path then (r.event e.path, {}, some e.path)
  else (r, {}, none)

/-- Delivers an event and lets the call of its path go on, unless that is already running. -/
def deliver (s : Setup) (held : String → Bool) (r : Runs) (e : Event) : Runs × Seen :=
  match s.dispatch r e with
  | (r, seen, some path) =>
    if r.isRunning path then (r, seen)
    else
      let (r, more) := s.settle held settleSteps r path
      (r, seen.append more)
  | (r, seen, none) => (r, seen)

/-- Lets the running handler of a path end, and its call go on. -/
def release (s : Setup) (held : String → Bool) (r : Runs) (path : String) : Runs × Seen :=
  if r.isRunning path then s.settle held settleSteps r path else (r, {})

end Setup
end Desugar.Watch

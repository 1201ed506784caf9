import Desugar.Watch.Runner

/-!
# Scripts of a watch

A script says what a watcher delivers and when handlers that are held may go on. After each step the
handlers go on as far as they can.
-/
namespace Desugar.Watch

inductive Step where
  | event (e : Event)
  /-- The watcher fails. -/
  | failure (message : String)
  /-- From now on handlers of the path are held. -/
  | hold (path : String)
  /-- Handlers of the path go on; with `keep` only the one that runs. -/
  | release (path : String) (keep : Bool)
  | cancel
  | close
  deriving DecidableEq, Repr

/-- A script that is under way. -/
structure Session where
  runs : Runs := .start
  /-- Paths whose handlers are held. -/
  held : List String
  /-- Whether nothing more is delivered. -/
  ended : Bool := false

namespace Session

def holds (s : Session) (path : String) : Bool := s.held.contains path

/-- Takes a step, all errors included in what is seen. -/
def advance (setup : Setup) (s : Session) : Step → Session × Option Seen
  | .hold path => ({ s with held := path :: s.held }, some {})
  | .release path keep =>
    let held := if keep then s.held else s.held.filter (· ≠ path)
    let (runs, seen) := setup.release held.contains s.runs path
    ({ s with runs, held }, some seen)
  | delivered =>
    if s.ended then (s, none)
    else match delivered with
      | .event e =>
        let (runs, seen) := setup.deliver s.holds s.runs e
        ({ s with runs }, some seen)
      | .failure message => (s, some { reported := [message] })
      | .cancel =>
        ({ s with runs := { s.runs with cancelled := true }, ended := true }, some {})
      | _ => ({ s with ended := true }, some {})

/-- Takes a step; there is nothing to be seen of a delivery after the end. -/
def step (setup : Setup) (s : Session) (next : Step) : Session × Option Seen :=
  let (s, seen) := s.advance setup next
  (s, seen.map setup.visible)

/-- The end: all handlers go on, path by path in ascending order. -/
def finish (setup : Setup) (s : Session) : Session × Seen :=
  (s.runs.runningPaths.mergeSort (· ≤ ·)).foldl
    (fun (s, seen) path =>
      let (runs, more) := setup.release (fun _ => false) s.runs path
      ({ s with runs }, seen.append (setup.visible more)))
    ({ s with held := [], ended := true }, {})

/-- Why the runner ended, if it was told to. -/
def returned (s : Session) : Option String :=
  if s.runs.cancelled then some "context canceled" else none

end Session
end Desugar.Watch

import Desugar.Command.Setup
import Desugar.Diff

/-!
# The command that expands

Sources are expanded all together, and then each expansion is put out: written beside its source or to a
given path, printed, compared with what is there, or shown as a diff. A source that cannot be expanded is
reported, and nothing is put out for it.
-/
namespace Desugar.Command

def expandFlags : List Flag :=
  sharedFlags ++
  [⟨"w", .switch, "write foo.go next to every foo.sgo instead of stdout"⟩,
    ⟨"l", .switch, "list files whose generated .go file is missing or stale"⟩,
    ⟨"d", .switch, "show a diff between each source and its expansion"⟩,
    ⟨"stdin", .switch, "read from stdin, write the expansion to stdout"⟩,
    ⟨"o", .text "", "write the expansion of a single file to this path"⟩,
    ⟨"header", .switch, "prepend a 'Code generated ... DO NOT EDIT.' header"⟩]

/-- What is done with an expansion. -/
inductive Disposal where
  | showDiff | listStale | write | print
  deriving DecidableEq, Repr

/-- The first of the ways that were asked for. What was read from the standard input is written only to a
path that was given. -/
def Disposal.ofArguments (a : Arguments) : Disposal :=
  if a.isOn "d" then showDiff
  else if a.isOn "l" then listStale
  else if a.isOn "w" && !a.isOn "stdin" || a.text "o" "" ≠ "" then write
  else print

/-- Where the expansion of a source belongs: to the given path, if there is one. -/
def targetOf (x : Expander) (given path : String) : String :=
  if given = "" then x.outputPath path else given

/-- Whether a file is missing or has another content. -/
def isStale (t : FileTree) (path : String) (content : Bytes) : Except FileError Bool :=
  match t.read path with
  | .ok old => .ok (old ≠ content)
  | .error e => if e.cause = .missing then .ok (content ≠ []) else .error e

/-- Puts an expansion out. -/
def dispose (how : Disposal) (target : String) (path : String) (source out : Bytes) (s : Session) :
    ExitCode × Session :=
  match how with
  | .showDiff => (.success, s.print (Diff.unified path target source out))
  | .listStale =>
    match isStale s.tree target out with
    | .ok stale => (.success, if stale then s.printLine path else s)
    | .error e => (.failure, s.warnLine e.message)
  | .write =>
    match writeChanged s.tree target out with
    | .ok tree => (.success, { s with tree })
    | .error e => (.failure, s.warnLine e.message)
  | .print => (.success, s.print out)

/-- Reports a failure, or puts an expansion out. -/
def emit (how : Disposal) (target : String) (r : Expanded) (s : Session) : ExitCode × Session :=
  match r.result with
  | .error f => (.failure, s.warn (report r.path r.source f))
  | .ok out => dispose how target r.path r.source out s

/-- Emits one after the other; the last code that is no success remains. -/
def emitAll (how : Disposal) (target : String → String) :
    List Expanded → ExitCode → Session → ExitCode × Session
  | [], code, s => (code, s)
  | r :: rs, code, s =>
    let (next, s) := emit how (target r.path) r s
    emitAll how target rs (if next = .success then code else next) s

def expand (around : Surroundings) (args : List String) : Task ExitCode := do
  let a ← arguments "expand" expandFlags args
  let c ← configure around a
  let c := { c with header := c.header || a.isOn "header" }
  let j := journalOf around c
  let x ← expanderOf j c
  let given := a.text "o" ""
  let emitted := emitAll (Disposal.ofArguments a) (targetOf x given)
  if a.isOn "stdin" then
    let r ← modifyGet fun s => j.traced (x.expandText s.tree "<stdin>" around.input) s
    modifyGet (emitted [r] .success)
  else
    let paths ← orFail FileError.message (collect x (← get).tree c.workDir a.operands)
    if given ≠ "" && paths.length ≠ 1 then stop .misuse "-o needs exactly one input file"
    modify (j.write .info s!"expanding {paths.length} files")
    let results ← modifyGet fun s => j.traced (x.expandFiles s.tree paths) s
    modifyGet (emitted results .success)

end Desugar.Command

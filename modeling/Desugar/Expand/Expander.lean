import Desugar.Expand.Directive
import Desugar.Expand.Invocation
import Desugar.FileTree
import Desugar.Form.Registry
import Desugar.Host.Format
import Desugar.Token.Lexer

/-!
# Expanding invocations

An invocation is expanded from the inside out: first the invocations in its body, then itself. The
expansions of a source are spliced into it, the imports that they need are added, and the result is
laid out.
-/
namespace Desugar

/-- The version of the tool. -/
def toolVersion : String := "0.3.0"

/-- What an expander is set up with; empty and non-positive values stand for the usual ones. -/
structure ExpandOptions where
  registry : Registry := .standard
  imports : Imports := ⟨"", ""⟩
  maxDepth : Int := 0
  header : Bool := false
  concurrency : Int := 0
  extension : String := ""
  version : String := ""

structure Expander where
  registry : Registry
  imports : Imports
  /-- How deep invocations may nest. -/
  maxDepth : Nat
  /-- Whether a comment that says where the code comes from is put before it. -/
  header : Bool
  /-- How the names of sources end. -/
  extension : String
  version : Version

/-- How deep invocations may nest if nothing else is said. -/
def defaultMaxDepth : Nat := 64

def defaultExtension : String := ".sgo"

def Expander.ofOptions (o : ExpandOptions) : Except Failure Expander :=
  let version := if o.version = "" then toolVersion else o.version
  match Version.parse version with
  | .error e => .error (.plain s!"invalid tool version {Text.quote version}: {e.message}")
  | .ok v => .ok
    { registry := o.registry, imports := o.imports
      maxDepth := if o.maxDepth ≤ 0 then defaultMaxDepth else o.maxDepth.toNat
      header := o.header
      extension := if o.extension = "" then defaultExtension else o.extension
      version := v }

/-- Computations that leave a trace of what they did, also where they fail. -/
abbrev Traced := ExceptT Failure (StateM (Array String))

def trace {m : Type → Type} [MonadStateOf (Array String) m] (message : String) : m Unit :=
  modifyThe (Array String) (·.push message)

/-- Computations on the context of a source, which keeps what was done before a failure. -/
abbrev Expansion := ExceptT Failure (StateT Context (StateM (Array String)))

namespace Expander

def refuse (i : Invocation) (message : String) : Expansion (List Token) :=
  throw (.diagnostic { category := .expansion, span := i.name.span, message })

/-- The first of some tokens takes over a gap. -/
def withGap (gap : Gap) : List Token → List Token
  | [] => []
  | t :: ts => { t with gap } :: ts

/-- Expands all invocations of a split stream; all failures are collected. -/
def expandChunks (expandOne : Invocation → Expansion (List Token)) (s : Split) :
    Expansion (List (List Token × Invocation × List Token)) := do
  let mut done := []
  let mut failures : List Diagnostic := []
  for (before, i) in s.chunks do
    match ← ExceptT.lift (ExceptT.run (expandOne i)) with
    | .ok ts => done := (before, i, ts) :: done
    | .error f => failures := failures ++ f.toDiagnostics
  match Failure.ofDiagnostics (failures ++ s.failure.toList) with
  | some f => throw f
  | none => return done.reverse

/-- A stream with its invocations replaced by their expansions. -/
def expandStream (expandOne : Invocation → Expansion (List Token)) (ts : List Token) :
    Expansion (List Token) := do
  let s := split ts
  let done ← expandChunks expandOne s
  return done.flatMap (fun (before, i, produced) => before ++ withGap i.name.gap produced) ++ s.rest

/-- Expands an invocation in which others may nest so many levels deep. -/
def expandInvocation (e : Expander) : (levels : Nat) → Invocation → Expansion (List Token)
  | 0, i => refuse i s!"macro expansion exceeds maximum depth {e.maxDepth}"
  | levels + 1, i => do
    let name := i.name.text
    match e.registry.lookup name with
    | none =>
      if e.registry.known name then refuse i s!"macro {Text.quote name} is disabled"
      else refuse i s!"unknown macro {Text.quote name}"
    | some form =>
      let body ← expandStream (e.expandInvocation levels) i.body
      let ctx := { (← get) with span := i.span }
      match form.transform ctx body with
      | .error f => throw f
      | .ok (out, ctx) =>
        set ctx
        trace s!"{i.name.span.start.render}: {name}! -> {Text.toString (renderTokens out)}"
        return out

/-- Puts expansions in the place of their invocations, from an offset on. -/
def splice (source : Bytes) : (offset : Nat) → List (Invocation × List Token) → Bytes
  | offset, [] => source.drop offset
  | offset, (i, produced) :: rest =>
    Text.slice source offset i.name.span.start.offset.toNat ++ renderTokens produced ++
      splice source i.closer.span.stop.offset.toNat rest

/-- A failure that is about a file as a whole. -/
def fileFailure (file message : String) : Failure :=
  .diagnostic (.wrap .expansion (.ofFile file) message)

/-- Adds imports to a source and lays it out. -/
def format (file : String) (source : Bytes) (required : List String) : Traced Bytes := do
  match Host.parseFile file source true with
  | .error es =>
    throw (fileFailure file s!"expanded source is not valid Go: {Host.SyntaxError.renderAll es}")
  | .ok parsed =>
    let mut parsed := parsed
    for path in required do
      match parsed.addImport path with
      | some p =>
        trace s!"{file}: added import {Text.quote path}"
        parsed := p
      | none => pure ()
    match parsed.format with
    | .ok out => return out
    | .error message => throw (fileFailure file message)

/-- A source with its expansions in the place of its invocations, and the context that they leave. -/
def substitute (e : Expander) (file : String) (source : Bytes) : Traced (Bytes × Context) := do
  match Directive.check e.version file source with
  | some f => throw f
  | none => pure ()
  let tokens ← liftM (Lexer.lex file source)
  let expanded := expandChunks (e.expandInvocation e.maxDepth) (split tokens)
  let (result, ctx) ← ExceptT.lift (expanded.run.run (Context.start file e.imports))
  let done ← liftM result
  trace s!"{file}: expanded {done.length} invocations"
  return (splice source 0 (done.map fun (_, i, produced) => (i, produced)), ctx)

/-- Expands a source up to its conditionals, which are left as placeholders. -/
def prepare (e : Expander) (file : String) (source : Bytes) : Traced (Bytes × Context) := do
  let (out, ctx) ← e.substitute file source
  return (← format file out ctx.requiredPaths, ctx)

/-- The comment before generated code. -/
def headerOf (file : String) : Bytes :=
  Text.utf8 s!"// Code generated by gosugar from {Path.base file}. DO NOT EDIT.\n\n"

end Expander
/-!
## Sources in a tree

A source is told by how its name ends; what it expands to is written beside it.
-/

/-- The path of what the source at `path` expands to, for sources that end in `extension`. -/
def outputPath (path extension : String) : String := Path.dropTail path extension ++ ".go"

namespace Expander

def outputPath (e : Expander) (path : String) : String := Desugar.outputPath path e.extension

def isSource (e : Expander) (path : String) : Bool := Path.ext path = e.extension

/-- The sources at and below a path, in the order of a walk. -/
def sourceFiles (e : Expander) (t : FileTree) (path : String) : Except FileError (List String) := do
  let visits ← t.walk path
  return (visits.filter fun v => !v.entry.isDirectory && e.isSource v.path).map (·.path)

end Expander
end Desugar

import Desugar.Command.Expand
import Desugar.Command.Setup
import Desugar.Command.Watch
import Desugar.Module.Check
import Desugar.Usage

/-!
# Running the tool
-/

/-!
## The command that checks

A module has to require the support library and a recent enough language; both are looked at, whatever
the first look says.
-/
namespace Desugar.Command

def checkFlags : List Flag :=
  sharedFlags ++ [⟨"dir", .text ".", "directory inside the module to check"⟩]

/-- What keeps a module from using expanded code. -/
def obstacles (m : Module.Manifest) : List Module.Manifest.Obstacle :=
  [m.checkLanguage Module.minLanguage, m.checkSupport Module.supportModule toolVersion].filterMap fun
    | .ok _ => none
    | .error o => some o

def check (around : Surroundings) (args : List String) : Task ExitCode := do
  let a ← arguments "check" checkFlags args
  let c ← configure around a
  let dir := a.text "dir" "."
  let path ← orFail (fun e => s!"{dir}: {e}") (Module.find (← get).tree dir)
  modify ((journalOf around c).write .info s!"checking {path}")
  let m ← orFail id (Module.load (← get).tree path)
  match obstacles m with
  | [] =>
    modify (·.printLine s!"{m.path}: ok")
    return .success
  | os =>
    modify fun s => os.foldl (fun s o => s.warnLine (o.message m.location)) s
    return .failure

end Desugar.Command

/-!
## Commands about the tool itself
-/
namespace Desugar.Command

def toolName : String := "gosugar"

def commands : List CommandInfo :=
  [{ name := "expand", description := "Expand macro invocations into plain Go" },
    { name := "check", description := "Check that go.mod requires the runtime packages" },
    { name := "watch", description := "Re-expand sources when they change" },
    { name := "macros", description := "List the available macros" },
    { name := "version", description := "Show version information" }]

def usage : String := usageText toolName commands

/-- How the tool was built. -/
structure Build where
  version : String
  date : String
  commit : String
  /-- The version of the language's tools. -/
  language : String
  platform : String
  arch : String
  deriving DecidableEq, Repr

namespace Build

/-- The word for a commit that nobody noted. -/
def noCommit : String := "unknown"

def current : Build :=
  { version := toolVersion, date := "2026-10-19", commit := noCommit, language := "go1.27.1"
    platform := "linux", arch := "amd64" }

/-- The build as text; a commit that is not known is left out. -/
def render (b : Build) : String :=
  s!"{toolName} v{b.version}\nBuild Date: {b.date}\n" ++
    (if b.commit = noCommit || b.commit = "" then "" else s!"Commit: {b.commit}\n") ++
    s!"Go Version: {b.language}\nPlatform: {b.platform}/{b.arch}\n"

def toJson (b : Build) : JsonValue :=
  .object
    [("tool", .text toolName),
      ("version_info", .object
        [("version", .text b.version), ("build_date", .text b.date), ("commit_sha", .text b.commit),
          ("go_version", .text b.language), ("platform", .text b.platform), ("arch", .text b.arch)])]

end Build

/-- Shows the version, as a value on demand. -/
def version (args : List String) : Task ExitCode := do
  if args.contains "--json" || args.contains "-j" then modify (·.printLine Build.current.toJson.render)
  else modify (·.print (Text.utf8 Build.current.render))
  return .success

/-- Lists the forms that can be expanded. -/
def listForms (around : Surroundings) (args : List String) : Task ExitCode := do
  let a ← arguments "macros" sharedFlags args
  let c ← configure around a
  let x ← expanderOf (journalOf around c) c
  modify fun s => x.registry.names.foldl (fun s name => s.printLine name) s
  return .success

end Desugar.Command

/-!
## The command line

The first argument names the command, the others are its own.
-/
namespace Desugar.Command

/-- What the arguments ask for. -/
def task (around : Surroundings) : List String → Task ExitCode
  | [] => do
    modify (·.warn (Text.utf8 usage))
    return .misuse
  | name :: args =>
    if ["help", "-h", "--help"].contains name then do
      modify (·.print (Text.utf8 usage))
      return .success
    else if ["version", "-v", "--version"].contains name then version args
    else if name = "expand" then expand around args
    else if name = "check" then check around args
    else if name = "watch" then watch around args
    else if name = "macros" then listForms around args
    else do
      modify (·.warn (Text.utf8 (s!"unknown subcommand: {name}\n" ++ usage)))
      return .misuse

/-- Whether the arguments ask for the standard input to be read. -/
def readsInput : List String → Bool
  | name :: args =>
    name = "expand" && (parseFlags expandFlags args {}).toOption.any (·.isOn "stdin")
  | [] => false

/-- Runs the tool: its exit code, and what it leaves. -/
def run (around : Surroundings) (args : List String) (s : Session) : ExitCode × Session :=
  match (task around args).run.run s with
  | (.ok code, s) => (code, s)
  | (.error code, s) => (code, s)

end Desugar.Command

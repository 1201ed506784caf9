import Desugar.Command.Flag
import Desugar.Command.Session
import Desugar.Config
import Desugar.Expand.Batch

/-!
# Setting up

Every command reads a configuration, which flags can only make more talkative, and most of them expand
with it.
-/
namespace Desugar.Command

/-- Flags that every command has. -/
def sharedFlags : List Flag :=
  [⟨"config", .text Config.defaultPath, "configuration file"⟩,
    ⟨"v", .switch, "verbose output"⟩,
    ⟨"debug", .switch, "debug output"⟩]

/-- Sorts out the arguments of a command. -/
def arguments (command : String) (flags : List Flag) (args : List String) : Task Arguments :=
  match parseFlags flags args {} with
  | .ok a => return a
  | .error f => do
    modify (·.warn (Text.utf8 (f.message ++ flagUsage command flags)))
    throw .misuse

/-- The configuration with what the flags turn on. -/
def configure (around : Surroundings) (a : Arguments) : Task Config := do
  let c ← orFail Config.LoadError.message
    (Config.load (← get).tree (a.text "config" Config.defaultPath) around.processors)
  return { c with verbose := c.verbose || a.isOn "v", debug := c.debug || a.isOn "debug" }

def journalOf (around : Surroundings) (c : Config) : Journal :=
  ⟨⟨c.verbose, c.debug⟩, around.time⟩

/-- Hides forms; a name that is no form is warned of. -/
def disableAll (j : Journal) : List String → Registry → Session → Registry × Session
  | [], r, s => (r, s)
  | name :: names, r, s =>
    match r.disable name with
    | .ok r => disableAll j names r s
    | .error f => disableAll j names r (j.write .warn s!"config: {f.message}" s)

/-- The expander of a configuration. -/
def expanderOf (j : Journal) (c : Config) : Task Expander := do
  let registry ← modifyGet (disableAll j c.disabled Registry.standard)
  orFail Failure.message <| Expander.ofOptions
    { registry, imports := ⟨c.sugarImport, c.truthImport⟩, maxDepth := c.maxDepth, header := c.header
      concurrency := c.concurrency, extension := c.extension }

/-- The files that arguments stand for: directories stand for the sources below them, and no argument for
the directory to work in. -/
def collect (x : Expander) (t : FileTree) (workDir : String) (args : List String) :
    Except FileError (List String) := do
  let found ← (if args.isEmpty then [workDir] else args).mapM fun arg => do
    match ← t.lookup "stat" arg with
    | .file _ => return [arg]
    | .directory => x.sourceFiles t arg
  return found.flatten

/-- Writes a file unless it has that content already. -/
def writeChanged (t : FileTree) (path : String) (content : Bytes) : Except FileError FileTree :=
  match t.read path with
  | .ok old => if old = content then .ok t else t.write path content
  | .error _ => t.write path content

end Desugar.Command

/-!
# Usage texts
-/
namespace Desugar

/-- What a command is for and how it is called. -/
structure CommandInfo where
  name : String
  usage : String := ""
  description : String
  examples : List String := []
  deriving DecidableEq, Repr

/-- Fills a text up with blanks on its right. -/
def padRight (width : Nat) (text : String) : String :=
  text ++ String.ofList (List.replicate (width - text.length) ' ')

/-- How a tool is called and which commands it has. -/
def usageText (tool : String) (commands : List CommandInfo) : String :=
  let listing := commands.map fun c => s!"    {padRight 12 c.name} {c.description}\n"
  s!"{tool} - compile-time syntax extensions for Go\n\nUSAGE:\n    {tool} <command> [OPTIONS]\n\n" ++
    (if commands.isEmpty then "" else s!"COMMANDS:\n{String.join listing}\n") ++
    s!"Use '{tool} <command> -h' for more information about a command.\n"

/-- How one command is called. -/
def CommandInfo.usageText (tool : String) (c : CommandInfo) : String :=
  let listing := c.examples.map fun e => s!"    {e}\n"
  s!"{tool} {c.name} - {c.description}\n\nUSAGE:\n    {c.usage}\n\n" ++
    if c.examples.isEmpty then "" else s!"EXAMPLES:\n{String.join listing}\n"

end Desugar

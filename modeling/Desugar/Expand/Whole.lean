import Desugar.Expand.Lowering
import Desugar.Expand.Expander

/-!
# Expanding a whole source

After the invocations of a source have been expanded, its conditionals are lowered. Their types depend on
the other files of the package, which stand in the same directory: plain files that are no output of a
source, and sources, which are expanded up to their own conditionals.
-/
namespace Desugar

open Host (ParsedFile)

/-- Whether a file belongs to the tests of its package. -/
def isTestFile (name : String) : Bool :=
  "_test".toList.isSuffixOf (Path.dropTail name (Path.ext name)).toList

namespace Expander

/-- The text of a file of a package: that of a plain file, or what a source becomes. -/
def siblingText (e : Expander) (file path name : String) (content : Bytes) (outputs : List String) :
    Traced (Option Bytes) := do
  if e.isSource name then
    match ← ExceptT.lift (ExceptT.run (e.prepare path content)) with
    | .ok (out, _) => return some out
    | .error f =>
      trace s!"{file}: skipping {path}: {f.message}"
      return none
  else if Path.ext name = ".go" && !outputs.contains name then return some content
  else return none

/-- The other files of the package of a file, if that file is there. -/
def packageFiles (e : Expander) (t : FileTree) (file package : String) : Traced (List ParsedFile) := do
  if !t.exists? file then return []
  let dir := Path.dir file
  let entries := t.list dir
  let self := Path.base file
  let outputs := (entries.filter fun (name, _) => e.isSource name).map fun (name, _) =>
    e.outputPath name
  let mut files := []
  for (name, entry) in entries do
    match entry with
    | .directory => pure ()
    | .file content =>
      if name ≠ self && (!isTestFile name || isTestFile self) then
        let path := Path.join [dir, name]
        match ← e.siblingText file path name content outputs with
        | none => pure ()
        | some text =>
          match Host.parseFile path text false with
          | .ok f => if f.file.name.name = package then files := files ++ [f]
          | .error _ => pure ()
  return files

/-- Replaces the placeholders of an expanded source. -/
def lower (e : Expander) (t : FileTree) (file : String) (source : Bytes) (ctx : Context) :
    Traced (Bytes × List String) := do
  match Host.parseFile file source false with
  | .error es =>
    throw (fileFailure file s!"expanded source is not valid Go: {Host.SyntaxError.renderAll es}")
  | .ok parsed =>
    let placeholders := Placeholder.collect parsed.file
    if placeholders.isEmpty then return (source, [])
    let package := parsed.file.name.name
    let others ← e.packageFiles t file package
    let declaration := match Host.parseFile Branch.declarationFile (Branch.declaration package) false with
      | .ok d => [d]
      | .error _ => []
    let files := parsed :: others ++ declaration
    let checked := Typing.check package (files.map ParsedFile.file)
    let names := Branch.importNames parsed.file
    let types := placeholders.map fun p => (p, Branch.type? checked p)
    let texts := types.map fun (p, ty) =>
      (p, ty.map (checked.tables.render (Branch.qualifier checked.tables names)))
    let failed := texts.filter fun (_, text) => text.all Branch.isWrong
    let lines := (files.map ParsedFile.lines).toArray
    let complaints := failed.map fun (p, _) =>
      { category := .expansion, span := ctx.conditionalSpan p.number
        message := "cannot infer the type of the conditional branches" ++ Branch.hint lines checked p }
    match Failure.ofDiagnostics complaints with
    | some f => throw f
    | none =>
      trace s!"{file}: lowered {placeholders.length} conditionals"
      let imports := Branch.missingImports checked.tables names (types.filterMap (·.2))
      return (Lowering.whole source (texts.map fun (p, text) => (p, text.getD "")), imports)

/-- Expands a source. -/
def expandSource (e : Expander) (t : FileTree) (file : String) (source : Bytes) : Traced Bytes := do
  let (prepared, ctx) ← e.prepare file source
  let out ← if ctx.conditionals.isEmpty then pure prepared
    else
      let (lowered, imports) ← e.lower t file prepared ctx
      format file lowered imports
  return if e.header then headerOf file ++ out else out

end Expander
end Desugar

/-!
# Known packages
-/
namespace Desugar.Typing.Library

/-- A package whose declarations are known; functions have no bodies. -/
structure Package where
  path : String
  name : String
  /-- What follows the package clause. -/
  declarations : String

/-- The package as a file. -/
def Package.source (p : Package) : String := s!"package {p.name}\n{p.declarations}"

end Desugar.Typing.Library

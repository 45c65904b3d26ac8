import ArchiveCatalog.Error
import ArchiveCatalog.Text.Pieces

namespace ArchiveCatalog

/-! # Configuration errors -/

/-- Why a configuration or a schema document contradicts itself. -/
inductive ValidationFault
  | vectorsWithoutColumns
  | duplicateElement (name id : String)
  | duplicateType (id : String)
  | unknownDeclaration (type element : String)
  deriving DecidableEq, Repr

/-- The wording of a validation fault. -/
def ValidationFault.message : ValidationFault → String
  | .vectorsWithoutColumns => "sqlite.vector_elements only applies to the wide layout"
  | .duplicateElement name id => s!"duplicate element '{name}' ({id})"
  | .duplicateType id => s!"duplicate product type id '{id}'"
  | .unknownDeclaration type element =>
    s!"product type '{type}' declares unknown element '{element}'"

/-- A number that has to lie between two others. -/
structure Limit where
  field : String
  least : Nat
  greatest : Nat
  hint : String
  deriving DecidableEq, Repr

/-- Why settings cannot be loaded or a catalog not be opened. -/
inductive ConfigError
  | range (limit : Limit) (value : Nat)
  | missingVersion
  | unsupportedVersion (found : Nat)
  | unknownBackend (name : String) (known : List String)
  | missingCollaborator (backend requirement : String)
  | backend (cause : CatalogError)
  | validation (fault : ValidationFault)
  | unreadableFile
  | malformedYaml
  deriving DecidableEq, Repr

namespace ConfigError

/-- The only supported version of the documents. -/
def supportedVersion : Nat := 1

/-- The wording of a configuration error. -/
def message : ConfigError → String
  | .range limit value =>
    let field := limit.field
    let least := limit.least
    let greatest := limit.greatest
    let hint := limit.hint
    s!"Invalid range for field '{field}': {value} not in {least}..={greatest}. {hint}"
  | .missingVersion =>
    "Missing 'version' field in configuration file. " ++
      "Add 'version: 1' to the top of your YAML file."
  | .unsupportedVersion found =>
    s!"Unsupported configuration version {found}. Supported versions: {supportedVersion}"
  | .unknownBackend name known =>
    let names := Text.join ", " known
    s!"Unknown catalog backend '{name}'. Registered backends: {names}"
  | .missingCollaborator name requirement => s!"Backend '{name}' requires {requirement}"
  | .backend cause => "Backend initialization failed: " ++ cause.display
  | .validation fault => "Validation error: " ++ fault.message
  | .unreadableFile => "IO error"
  | .malformedYaml => "YAML parsing error"

end ConfigError

end ArchiveCatalog

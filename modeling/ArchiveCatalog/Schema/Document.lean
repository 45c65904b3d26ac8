import ArchiveCatalog.Config.Error
import ArchiveCatalog.Schema.Lookup

namespace ArchiveCatalog

/-! # Schema documents

A document lists elements and product types with the elements each declares. A consistent
document names no element or type id twice and declares only elements it lists; turned
into a schema it loses nothing.
-/

/-- A product type of a document, with the names of its elements. -/
structure TypeEntry where
  type : ProductType
  elements : List String
  deriving DecidableEq, Repr

/-- A schema document. -/
structure SchemaDocument where
  version : Nat
  elements : List Element
  types : List TypeEntry
  deriving DecidableEq, Repr, Inhabited

namespace SchemaDocument

/-- No element has the id or the name of one before it. -/
def checkElements (seen : List Element) : List Element → Except ConfigError Unit
  | [] => .ok ()
  | e :: rest =>
    if seen.any fun s => s.id == e.id || s.name == e.name then
      .error (.validation (.duplicateElement e.name e.id))
    else checkElements (e :: seen) rest

/-- No type has the id of one before it, and types declare only the names given. -/
def checkTypes (names seen : List String) : List TypeEntry → Except ConfigError Unit
  | [] => .ok ()
  | entry :: rest =>
    if entry.type.id ∈ seen then .error (.validation (.duplicateType entry.type.id))
    else
      match entry.elements.find? (fun name => !names.contains name) with
      | some name => .error (.validation (.unknownDeclaration entry.type.name name))
      | none => checkTypes names (entry.type.id :: seen) rest

/-- The document is consistent. -/
def validate (d : SchemaDocument) : Except ConfigError Unit := do
  checkElements [] d.elements
  checkTypes (d.elements.map Element.name) [] d.types

/-- The version is the supported one. -/
def checkVersion (version : Nat) : Except ConfigError Unit :=
  if version = 0 then .error .missingVersion
  else if version = ConfigError.supportedVersion then .ok ()
  else .error (.unsupportedVersion version)

/-- The elements and declarations of a document. -/
def elementRegistry (d : SchemaDocument) : ElementRegistry :=
  d.types.foldl (fun r entry => r.declare entry.type.id entry.elements)
    (d.elements.foldl ElementRegistry.register .empty)

/-- The types of a document. -/
def typeRegistry (d : SchemaDocument) : TypeRegistry :=
  d.types.foldl (fun r entry => r.register entry.type) .empty

/-- The schema of a document. -/
def toSchema (d : SchemaDocument) : Schema := ⟨d.elementRegistry, d.typeRegistry, .none⟩

end SchemaDocument

end ArchiveCatalog

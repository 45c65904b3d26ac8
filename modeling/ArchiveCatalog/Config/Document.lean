import ArchiveCatalog.Config
import ArchiveCatalog.Schema.Document
import ArchiveCatalog.Yaml.Writing

namespace ArchiveCatalog

/-! # Documents in YAML

Configurations and schema documents are read from YAML. Their version is checked after all
of the document has been read, and what it says after that. Configurations are written
without the settings that say nothing.
-/

namespace Config

/-- The greatest 32-bit and 64-bit numbers. -/
def greatestWord (bits : Nat) : Nat := (1 <<< bits) - 1

/-- A layout by name. -/
def readLayout : Yaml.Reader LayoutKind := fun n => do LayoutKind.ofLabel? (← Yaml.asText n)

/-- Pairs where a later one replaces an earlier one of the same key. -/
def lastOfEach (pairs : List (String × String)) : List (String × String) :=
  pairs.foldl (fun kept p => kept.filter (·.1 != p.1) ++ [p]) []

/-- Puts the settings of the relational backend into a configuration. -/
def readRelational (c : Config) : Yaml.Reader Config := fun n => do
  let fields ← Yaml.asFields ["path", "layout", "vector_elements", "type_table_map"] false n
  return { c with
    databasePath := ← Yaml.defaulted fields "path" none (Yaml.optionally Yaml.asText)
    layout := ← Yaml.defaulted fields "layout" .narrow readLayout
    vectorElements := ← Yaml.defaulted fields "vector_elements" [] (Yaml.asList Yaml.asText)
    tableBases := lastOfEach
      (← Yaml.defaulted fields "type_table_map" [] (Yaml.asMapping Yaml.asText)) }

/-- Puts the settings of the index backend into a configuration. -/
def readIndex (c : Config) : Yaml.Reader Config := fun n => do
  let fields ← Yaml.asFields ["path", "writer_heap_bytes"] false n
  return { c with
    indexPath := ← Yaml.defaulted fields "path" none (Yaml.optionally Yaml.asText)
    heapBytes := ← Yaml.defaulted fields "writer_heap_bytes" default.heapBytes
      (Yaml.asNatural (greatestWord 64)) }

/-- A configuration as written; its version is 0 if it has none. -/
def read : Yaml.Reader Config := fun n => do
  let fields ← Yaml.asFields ["version", "backend", "page_size", "sqlite", "index"] false n
  let c : Config := { default with
    version := ← Yaml.defaulted fields "version" 0 (Yaml.asNatural (greatestWord 32))
    backend := ← Yaml.defaulted fields "backend" default.backend Yaml.asText
    pageSize := ← Yaml.defaulted fields "page_size" default.pageSize
      (Yaml.asNatural (greatestWord 64)) }
  let c ← Yaml.defaulted fields "sqlite" c (readRelational c)
  Yaml.defaulted fields "index" c (readIndex c)

/-- The configuration of a text. -/
def ofYaml (text : String) : Except ConfigError Config :=
  match (Yaml.Node.parse? text.toList).bind read with
  | none => .error .malformedYaml
  | some c => do
    SchemaDocument.checkVersion c.version
    c.validate
    return c

/-- The outline of the settings of the relational backend. -/
def relationalOutline (c : Config) : Yaml.Outline :=
  .mapping ((c.databasePath.map fun path => ("path", Yaml.Outline.text path)).toList ++
    [("layout", .text c.layout.label)] ++
    (if c.vectorElements.isEmpty then [] else [("vector_elements", .list c.vectorElements)]) ++
    (if c.tableBases.isEmpty then []
     else [("type_table_map", .mapping (c.tableBases.map fun (t, base) => (t, .text base)))]))

/-- The outline of the settings of the index backend. -/
def indexOutline (c : Config) : Yaml.Outline :=
  .mapping ((c.indexPath.map fun path => ("path", Yaml.Outline.text path)).toList ++
    [("writer_heap_bytes", .number c.heapBytes)])

/-- A configuration as text. -/
def toYaml (c : Config) : String :=
  Yaml.Outline.fields 0 [("version", .number c.version), ("backend", .text c.backend),
    ("page_size", .number c.pageSize), ("sqlite", c.relationalOutline), ("index", c.indexOutline)]

end Config

namespace SchemaDocument

/-- An element; fields that are not known are skipped. -/
def readElement : Yaml.Reader Element := fun n => do
  let fields ← Yaml.asFields ["id", "name", "description"] true n
  return { id := ← Yaml.required fields "id" Yaml.asText
           name := ← Yaml.required fields "name" Yaml.asText
           description := ← Yaml.defaulted fields "description" "" Yaml.asText }

/-- The fields of a product type. -/
def typeFields : List String :=
  ["id", "name", "description", "repository_path", "versioner", "metadata", "elements"]

/-- A product type with the names of its elements. -/
def readType : Yaml.Reader TypeEntry := fun n => do
  let fields ← Yaml.asFields typeFields false n
  let type : ProductType :=
    { id := ← Yaml.required fields "id" Yaml.asText
      name := ← Yaml.required fields "name" Yaml.asText
      description := ← Yaml.defaulted fields "description" "" Yaml.asText
      repositoryPath := ← Yaml.defaulted fields "repository_path" "" Yaml.asText
      versioner := ← Yaml.defaulted fields "versioner" "" Yaml.asText
      metadata := .ofEntries
        (← Yaml.defaulted fields "metadata" [] (Yaml.asMapping (Yaml.asList Yaml.asText))) }
  return ⟨type, ← Yaml.defaulted fields "elements" [] (Yaml.asList Yaml.asText)⟩

/-- A schema document as written; its version is 0 if it has none. -/
def read : Yaml.Reader SchemaDocument := fun n => do
  let fields ← Yaml.asFields ["version", "elements", "product_types"] false n
  return { version := ← Yaml.defaulted fields "version" 0 (Yaml.asNatural (Config.greatestWord 32))
           elements := ← Yaml.defaulted fields "elements" [] (Yaml.asList readElement)
           types := ← Yaml.defaulted fields "product_types" [] (Yaml.asList readType) }

/-- The schema document of a text. -/
def ofYaml (text : String) : Except ConfigError SchemaDocument :=
  match (Yaml.Node.parse? text.toList).bind read with
  | none => .error .malformedYaml
  | some d => do
    checkVersion d.version
    d.validate
    return d

end SchemaDocument

end ArchiveCatalog

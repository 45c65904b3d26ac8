import ArchiveCatalog.Instant.Reading
import ArchiveCatalog.Instant.Writing
import ArchiveCatalog.Json.Value
import ArchiveCatalog.Product
import ArchiveCatalog.Text.Numeral

namespace ArchiveCatalog.Json

/-! # Products as JSON

Products and references are written as objects with their fields in a fixed order, and
read from objects with the fields in any order, or from lists of their values in order.
Fields that are not known are skipped; a known field must not come twice.
-/

/-! ## Reading values -/

/-- A reader of values that may refuse. -/
abbrev Reader (α : Type) := Value → Option α

/-- Text. -/
def asText : Reader String
  | .text spelling => read? spelling
  | _ => none

/-- The greatest number a reader of counts takes. -/
def greatestNatural : Nat := (1 <<< 64) - 1

/-- A natural number in range, without sign, point and exponent. -/
def asNatural : Reader Nat
  | .number spelling => (Text.readNat? spelling).filter (· ≤ greatestNatural)
  | _ => none

/-- A value, or null for none. -/
def optionally {α : Type} (reader : Reader α) : Reader (Option α)
  | .null => some none
  | v => (reader v).map some

/-- A list of values. -/
def asList {α : Type} (reader : Reader α) : Reader (List α)
  | .list items => items.mapM reader
  | _ => none

/-- One of several names, alone or as the only key of an object with nothing under it. -/
def asName {α : Type} (ofName : String → Option α) : Reader α
  | .text spelling => (read? spelling).bind ofName
  | .object [(key, .null)] => (read? key).bind ofName
  | _ => none

/-- Metadata: an object of lists of text; a later key replaces an earlier one. -/
def asMetadata : Reader Metadata
  | .object fields => do
    let entries ← fields.mapM fun (key, v) => return (← read? key, ← asList asText v)
    return .ofEntries entries
  | _ => none

/-! ## Reading records -/

/-- The fields of a record by name, as far as they are known. -/
abbrev Fields := List (String × Value)

/-- The known fields of an object, none twice. -/
def knownFields (known : List String) : List (List Char × Value) → Option Fields
  | [] => some []
  | (key, v) :: rest => do
    let name ← read? key
    let fields ← knownFields known rest
    if name ∈ known then
      if (fields.lookup name).isSome then none else return (name, v) :: fields
    else return fields

/-- The fields of a record, named or in order. -/
def asFields (known : List String) : Reader Fields
  | .object fields => knownFields known fields
  | .list items => if items.length ≤ known.length then some (known.zip items) else none
  | _ => none

/-- A field that must be there. -/
def required {α : Type} (fields : Fields) (name : String) (reader : Reader α) : Option α :=
  (fields.lookup name).bind reader

/-- A field that has a value of its own when it is not there. -/
def defaulted {α : Type} (fields : Fields) (name : String) (absent : α) (reader : Reader α) :
    Option α :=
  match fields.lookup name with
  | some v => reader v
  | none => some absent

/-- A field that may be missing from an object, but not from a list. -/
def nullable {α : Type} (named : Bool) (fields : Fields) (name : String) (reader : Reader α) :
    Option (Option α) :=
  match fields.lookup name with
  | some v => optionally reader v
  | none => if named then some none else none

/-- The value is an object, so that its fields have names. -/
def isObject : Value → Bool
  | .object _ => true
  | _ => false

/-! ## References -/

/-- The fields of a reference in order. -/
def referenceFields : List String := ["original_uri", "datastore_uri", "file_size", "mime_type"]

/-- A reference. -/
def asReference : Reader FileReference := fun v => do
  let fields ← asFields referenceFields v
  return { original := ← required fields "original_uri" asText
           stored := ← required fields "datastore_uri" asText
           size := ← required fields "file_size" asNatural
           mimeType := ← nullable (isObject v) fields "mime_type" asText }

/-- Text as a value. -/
def ofText (s : String) : Value := .text (spell s)

/-- Optional text as a value. -/
def ofOptional (s : Option String) : Value := (s.map ofText).getD .null

/-- A field with its name. -/
def field (name : String) (v : Value) : List Char × Value := (spell name, v)

/-- A reference as a value. -/
def ofReference (r : FileReference) : Value :=
  .object [field "original_uri" (ofText r.original), field "datastore_uri" (ofText r.stored),
    field "file_size" (.number (Nat.repr r.size).toList), field "mime_type" (ofOptional r.mimeType)]

/-- References as text. -/
def writeReferences (references : List FileReference) : String :=
  String.ofList (Value.list (references.map ofReference)).render

/-- The references of a text. -/
def readReferences (text : String) : Except CatalogError (List FileReference) :=
  match (Value.parse? text.toList).bind (asList asReference) with
  | some references => .ok references
  | none => .error .malformedJson

/-! ## Products -/

/-- Metadata as a value. -/
def ofMetadata (m : Metadata) : Value :=
  .object (m.entries.map fun (key, values) => field key (.list (values.map ofText)))

/-- The fields of a type in order. -/
def typeFields : List String :=
  ["id", "name", "description", "repository_path", "versioner", "metadata"]

/-- A type. -/
def asType : Reader ProductType := fun v => do
  let fields ← asFields typeFields v
  return { id := ← required fields "id" asText
           name := ← required fields "name" asText
           description := ← defaulted fields "description" "" asText
           repositoryPath := ← defaulted fields "repository_path" "" asText
           versioner := ← defaulted fields "versioner" "" asText
           metadata := ← defaulted fields "metadata" .empty asMetadata }

/-- A type as a value. -/
def ofType (t : ProductType) : Value :=
  .object [field "id" (ofText t.id), field "name" (ofText t.name),
    field "description" (ofText t.description),
    field "repository_path" (ofText t.repositoryPath), field "versioner" (ofText t.versioner),
    field "metadata" (ofMetadata t.metadata)]

/-- The name of a status in a product record. -/
def statusName : TransferStatus → String
  | .transferring => "Transferring"
  | .received => "Received"

/-- The status of a name in a product record. -/
def statusOfName (name : String) : Option TransferStatus :=
  if name = "Transferring" then some .transferring
  else if name = "Received" then some .received
  else none

/-- The time of a timestamp. -/
def asInstant : Reader Instant := fun v => do Instant.ofRelaxed? (← asText v).toList

/-- The fields of a product in order. -/
def productFields : List String :=
  ["id", "name", "product_type", "structure", "transfer_status", "references", "received_time"]

/-- A product. -/
def asProduct : Reader Product := fun v => do
  let fields ← asFields productFields v
  return { id := ← nullable (isObject v) fields "id" asText
           name := ← required fields "name" asText
           productType := ← required fields "product_type" asType
           fileStructure := ← required fields "structure"
             (asName fun name => (FileStructure.ofLabel name).toOption)
           status := ← required fields "transfer_status" (asName statusOfName)
           references := ← required fields "references" (asList asReference)
           received := ← nullable (isObject v) fields "received_time" asInstant }

/-- A product as a value. -/
def ofProduct (p : Product) : Value :=
  .object [field "id" (ofOptional p.id), field "name" (ofText p.name),
    field "product_type" (ofType p.productType),
    field "structure" (ofText p.fileStructure.label),
    field "transfer_status" (ofText (statusName p.status)),
    field "references" (.list (p.references.map ofReference)),
    field "received_time" (ofOptional (p.received.map Instant.stamp))]

/-- A product as text. -/
def writeProduct (p : Product) : String := String.ofList (ofProduct p).render

/-- The product of a text. -/
def readProduct (text : String) : Except CatalogError Product :=
  match (Value.parse? text.toList).bind asProduct with
  | some p => .ok p
  | none => .error .malformedJson

end ArchiveCatalog.Json

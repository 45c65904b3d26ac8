import ArchiveCatalog.Product

namespace ArchiveCatalog.Inverted

/-! # Indexed documents

A complete product is indexed as one document. Its metadata are searched as terms, the
name of the element and the value with a separator between them, all in one field; the
terms of an element lie between two bounds, because nothing comes between the separator
and the character after it.
-/

/-! ## Metadata terms -/

/-- The character between the element and the value of a term. -/
def separator : String := "\x1f"

/-- The character after the separator. -/
def afterSeparator : String := " "

/-- The term of a value of an element. -/
def metadataTerm (element value : String) : String := element ++ separator ++ value

/-- A bound that every term of an element reaches. -/
def elementLowerBound (element : String) : String := element ++ separator

/-- A bound that every term of an element stays below. -/
def elementUpperBound (element : String) : String := element ++ afterSeparator

/-- The terms of all values. -/
def metadataTerms (m : Metadata) : List String :=
  m.entries.flatMap fun (element, values) => values.map (metadataTerm element)

/-! ## Fields -/

/-- The fields of a document. -/
inductive Field
  | productId
  | productName
  | typeId
  | typeName
  | fileStructure
  | transferStatus
  | receivedTime
  | metadata
  | metadataText
  | referencesText
  deriving DecidableEq, Repr

namespace Field

/-- All fields in order. -/
def all : List Field :=
  [.productId, .productName, .typeId, .typeName, .fileStructure, .transferStatus, .receivedTime,
    .metadata, .metadataText, .referencesText]

/-- The name of a field. -/
def name : Field → String
  | .productId => "product_id"
  | .productName => "product_name"
  | .typeId => "product_type_id"
  | .typeName => "product_type_name"
  | .fileStructure => "product_structure"
  | .transferStatus => "transfer_status"
  | .receivedTime => "received_time"
  | .metadata => "metadata"
  | .metadataText => "metadata_json"
  | .referencesText => "references_json"

/-- What is put into the field can be read back. -/
def isStored : Field → Bool
  | .metadata => false
  | _ => true

/-- The field can be searched. -/
def isIndexed : Field → Bool
  | .receivedTime | .metadataText | .referencesText => false
  | _ => true

end Field

/-! ## Documents -/

/-- The document of a product: the product with the time in milliseconds, and its
metadata. -/
structure Document where
  id : String
  name : String
  typeId : String
  typeName : String
  fileStructure : FileStructure
  status : TransferStatus
  received : Int
  metadata : Metadata
  references : List FileReference
  deriving DecidableEq, Repr

namespace Document

/-- The document of a product and its metadata. -/
def ofProduct (id : String) (p : Product) (m : Metadata) : Document where
  id
  name := p.name
  typeId := p.productType.id
  typeName := p.productType.name
  fileStructure := p.fileStructure
  status := p.status
  received := (p.received.map Instant.toMillis).getD 0
  metadata := m
  references := p.references

/-- The terms of a field. -/
def terms (d : Document) : Field → List String
  | .productId => [d.id]
  | .productName => [d.name]
  | .typeId => [d.typeId]
  | .typeName => [d.typeName]
  | .fileStructure => [d.fileStructure.label]
  | .transferStatus => [d.status.label]
  | .metadata => metadataTerms d.metadata
  | .receivedTime | .metadataText | .referencesText => []

/-- The product of a document, given its full type. -/
def product (d : Document) (t : ProductType) : Product where
  id := some d.id
  name := d.name
  productType := t
  fileStructure := d.fileStructure
  status := d.status
  references := d.references
  received := Instant.ofMillis? d.received

/-- The first document is newer, or as new with the larger id. -/
def newerOrSame (a b : Document) : Bool :=
  b.received < a.received || (a.received == b.received && decide (b.id ≤ a.id))

/-- Documents in the order in which products are answered. -/
def newestFirst (documents : List Document) : List Document := documents.mergeSort newerOrSame

end Document

end ArchiveCatalog.Inverted

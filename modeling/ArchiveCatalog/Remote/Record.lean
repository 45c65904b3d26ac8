import ArchiveCatalog.Json.Record
import ArchiveCatalog.Schema.Lookup
import ArchiveCatalog.Text.Numeral

namespace ArchiveCatalog.Remote

/-! # Product records

A product is stored as one flat record: its metadata and, under reserved keys, what
describes the product itself. Metadata of products never touch the reserved keys.
-/

namespace Key

/-- The key of the name. -/
def name : String := "ProductName"

/-- The key of the type's name. -/
def typeName : String := "ProductType"

/-- The key of the type's id. -/
def typeId : String := "ProductTypeId"

/-- The key of the file structure. -/
def fileStructure : String := "ProductStructure"

/-- The key of the transfer status. -/
def transferStatus : String := "ProductTransferStatus"

/-- The key of the received time, in milliseconds. -/
def receivedTime : String := "ProductReceivedTime"

/-- The key of the references, as one JSON text. -/
def references : String := "ProductReferences"

/-- The keys that metadata of products never touch. -/
def reserved : List String :=
  [name, typeName, typeId, fileStructure, transferStatus, receivedTime, references]

end Key

/-- Metadata without the reserved keys. -/
def withoutReserved (m : Metadata) : Metadata := m.eraseAll Key.reserved

/-- Puts a single value under a key. -/
def assign (key value : String) (record : Metadata) : Metadata := record.replace key [value]

/-- Puts the references of a product into a record. -/
def writeReferences (p : Product) (record : Metadata) : Metadata :=
  assign Key.references (Json.writeReferences p.references) record

/-- Puts what describes a product into a record, but not its received time. -/
def writeProduct (p : Product) (record : Metadata) : Metadata :=
  writeReferences p <|
    assign Key.transferStatus p.status.label <|
    assign Key.fileStructure p.fileStructure.label <|
    assign Key.typeId p.productType.id <|
    assign Key.typeName p.productType.name <|
    assign Key.name p.name record

/-- The first value under a key, which must be there. -/
def required (record : Metadata) (key : String) : Except CatalogError String :=
  match record.first? key with
  | some value => .ok value
  | none => .error (.missingRecordKey key)

/-- The references in a record. -/
def readReferences (record : Metadata) : Except CatalogError (List FileReference) :=
  match record.first? Key.references with
  | some text => Json.readReferences text
  | none => .ok []

/-- The received time in a record. -/
def readReceived (record : Metadata) : Except CatalogError (Option Instant) :=
  match record.first? Key.receivedTime with
  | none => .ok none
  | some text =>
    match Text.readInt64? text.toList with
    | some millis => .ok (Instant.ofMillis? millis)
    | none => .error (.badReceivedTime text)

/-- The full type of the product of a record. -/
def readType (s : Schema) (record : Metadata) : Except CatalogError ProductType := do
  s.typeById (← required record Key.typeId)

/-- The product of a record. -/
def readProduct (s : Schema) (id : String) (record : Metadata) : Except CatalogError Product := do
  let references ← readReferences record
  let received ← readReceived record
  let name ← required record Key.name
  let productType ← readType s record
  let fileStructure ← FileStructure.ofLabel (← required record Key.fileStructure)
  let status ← TransferStatus.ofLabel (← required record Key.transferStatus)
  return { id := some id, name, productType, fileStructure, status, references, received }

end ArchiveCatalog.Remote

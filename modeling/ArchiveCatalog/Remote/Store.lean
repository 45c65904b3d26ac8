import ArchiveCatalog.Catalog
import ArchiveCatalog.Remote.Record
import ArchiveCatalog.Remote.Service

namespace ArchiveCatalog.Remote

/-! # The remote catalog

Every product is one record of a service; its id is the transaction id. Records are only
stored whole, so a change reads the record, changes it and stores it again.
-/

/-- How a remote catalog is set up. -/
structure Store where
  schema : Schema
  pageSize : Nat

namespace Store

/-- Which collaborators fail. -/
def outage (s : Store) : Outage := s.schema.outage

/-! ## Records -/

/-- The record of a product. -/
def storedRecord (s : Store) (id : String) : Action Service Metadata := do
  match ← record? s.outage id with
  | some record => return record
  | none => throw (.notFound "Product" id)

/-- The product of an id. -/
def load (s : Store) (id : String) : Action Service Product := do
  .ofExcept (readProduct s.schema id (← s.storedRecord id))

/-- The products of ids. -/
def loadAll (s : Store) (ids : List String) : Action Service (List Product) := ids.mapM s.load

/-- Changes the record of a product. -/
def update (s : Store) (p : Product) (change : Metadata → Except CatalogError Metadata) :
    Action Service Unit := do
  let id ← .ofExcept p.requireId
  let record ← s.storedRecord id
  replace s.outage id (← .ofExcept (change record))

/-! ## Queries -/

/-- The criterion that restricts a query to a type. -/
def typeCriterion (t : ProductType) : Criteria := .term Key.typeId t.id

/-- The query for the products of a type. -/
def typeQuery (t : ProductType) : Query := ⟨[typeCriterion t]⟩

/-- A query restricted to the full type. -/
def restricted (s : Store) (q : Query) (t : ProductType) : Except CatalogError Query := do
  let t ← s.schema.resolveType t
  s.schema.checkQuery q t
  return q.restrict (typeCriterion t)

/-! ## Operations -/

/-- Registers a product. -/
def add (s : Store) (r : Registration) (p : Product) : Action Service Product := do
  .ofExcept p.requireUnregistered
  let t ← .ofExcept (s.schema.resolveType p.productType)
  let stored := { p with productType := t, received := Instant.ofMillis? r.millis }
  let record := assign Key.receivedTime (toString r.millis) (writeProduct stored .empty)
  let id ← ingest s.outage r.freshId record
  return { stored with id := some id }

/-- Replaces name, structure, status and references. -/
def modify (s : Store) (p : Product) : Action Service Unit :=
  s.update p fun record => do
    let t ← readType s.schema record
    return writeProduct { p with productType := t } record

/-- Erases a product. -/
def removeProduct (s : Store) (p : Product) : Action Service Unit := do
  let id ← .ofExcept p.requireId
  unless ← remove s.outage id do throw (.notFound "Product" id)

/-- Replaces the transfer status. -/
def setStatus (s : Store) (p : Product) : Action Service Unit :=
  s.update p fun record => .ok (assign Key.transferStatus p.status.label record)

/-- Replaces the references. -/
def addReferences (s : Store) (p : Product) : Action Service Unit :=
  s.update p fun record => .ok (writeReferences p record)

/-- Merges the declared part of metadata into a record. -/
def addMetadata (s : Store) (m : Metadata) (p : Product) : Action Service Unit :=
  s.update p fun record => do
    let t ← readType s.schema record
    return record.merge (withoutReserved (← s.schema.declaredMetadata t m))

/-- Removes values of metadata from a record. -/
def removeMetadata (s : Store) (m : Metadata) (p : Product) : Action Service Unit :=
  s.update p fun record => .ok (record.removeValues (withoutReserved m))

/-- The only product of a name. -/
def byName (s : Store) (name : String) : Action Service Product := do
  match ← Remote.query s.outage ⟨[.term Key.name name]⟩ with
  | [] => throw (.notFound "Product" name)
  | [id] => s.load id
  | ids => throw (.ambiguousProduct ids.length name)

/-- The references of a product. -/
def references (s : Store) (p : Product) : Action Service (List FileReference) := do
  return (← s.load (← .ofExcept p.requireId)).references

/-- All products. -/
def products (s : Store) : Action Service (List Product) := do
  s.loadAll (← Remote.query s.outage .everything)

/-- The products of a type. -/
def productsOfType (s : Store) (t : ProductType) : Action Service (List Product) := do
  let t ← .ofExcept (s.schema.resolveType t)
  s.loadAll (← Remote.query s.outage (typeQuery t))

/-- The metadata of a product. -/
def metadata (s : Store) (p : Product) : Action Service Metadata := do
  return withoutReserved (← s.storedRecord (← .ofExcept p.requireId))

/-- The ids of the products of a type that satisfy a query. -/
def query (s : Store) (q : Query) (t : ProductType) : Action Service (List String) := do
  Remote.query s.outage (← .ofExcept (s.restricted q t))

/-- The part of a result that a window selects: where it starts and how long it is. -/
def extent (s : Store) (hits : Nat) : PageWindow → Nat × Nat
  | .blank => (0, 0)
  | .all => (0, hits)
  | .slice _ offset => (offset, s.pageSize)

/-- One page of the products of a type that satisfy a query. -/
def page (s : Store) (q : Query) (t : ProductType) (number : Int) : Action Service Page := do
  let q ← .ofExcept (s.restricted q t)
  let hits ← Remote.count s.outage q
  let window ← .ofQuery (PageWindow.resolve number s.pageSize hits)
  if window = .blank then return Page.blank s.pageSize
  let (offset, limit) := s.extent hits window
  let (ids, _) ← Remote.page s.outage q offset limit
  return window.page s.pageSize hits (← s.loadAll ids)

/-- The newest products. -/
def newest (s : Store) (n : Nat) : Action Service (List Product) := do
  s.loadAll (← Remote.page s.outage .everything 0 n).1

/-- The newest products of a type. -/
def newestOfType (s : Store) (n : Nat) (t : ProductType) : Action Service (List Product) := do
  let t ← .ofExcept (s.schema.resolveType t)
  s.loadAll (← Remote.page s.outage (typeQuery t) 0 n).1

/-- The number of products of a type. -/
def count (s : Store) (t : ProductType) : Action Service Nat := do
  let t ← .ofExcept (s.schema.resolveType t)
  Remote.count s.outage (typeQuery t)

/-- The remote catalog. -/
def catalog (s : Store) : Catalog Service where
  pageSize := s.pageSize
  add := s.add
  modify := s.modify
  remove := s.removeProduct
  setStatus := s.setStatus
  addReferences := s.addReferences
  addMetadata := s.addMetadata
  removeMetadata := s.removeMetadata
  byId := s.load
  byName := s.byName
  references := s.references
  products := s.products
  productsOfType := s.productsOfType
  metadata := s.metadata
  query := s.query
  page := s.page
  newest := s.newest
  newestOfType := s.newestOfType
  count := s.count

end Store

end ArchiveCatalog.Remote

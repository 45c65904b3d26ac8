import ArchiveCatalog.Catalog
import ArchiveCatalog.Inverted.Assembly
import ArchiveCatalog.Inverted.Search
import ArchiveCatalog.Schema.Lookup

namespace ArchiveCatalog.Inverted

/-! # The index catalog

Reads see indexed documents only. A write works on the product in its slot, or on the one
rebuilt from its document; afterwards a complete product is indexed and leaves the cache,
and an incomplete one is withdrawn from the index and waits in the cache.
-/

/-- The documents and the products that wait for completion. -/
structure Archive where
  documents : List Document
  cache : AssemblyCache
  deriving DecidableEq, Repr

namespace Archive

/-- An archive without products. -/
def empty : Archive := ⟨[], .empty⟩

instance : Inhabited Archive := ⟨empty⟩

/-- The document of a product. -/
def document? (a : Archive) (id : String) : Option Document := a.documents.find? (·.id == id)

/-- Removes the document of a product. -/
def withdraw (a : Archive) (id : String) : Archive :=
  { a with documents := a.documents.filter (·.id != id) }

/-- Puts a document in place of the one of the same product. -/
def index (a : Archive) (d : Document) : Archive :=
  { a with documents := (a.withdraw d.id).documents ++ [d] }

/-- Puts what waits for a product. -/
def store (a : Archive) (id : String) (pending : Option Pending) : Archive :=
  { a with cache := a.cache.store id pending }

/-- Indexes a complete product; withdraws an incomplete one that is indexed. -/
def settle (a : Archive) (id : String) (p : Pending) : Archive :=
  if p.isComplete then
    (a.index (.ofProduct id p.product (p.metadata.getD .empty))).store id none
  else if p.indexed then (a.withdraw id).store id (some { p with indexed := false })
  else a.store id (some p)

/-- The archive as it is found when it is opened again: what waited is lost. -/
def reopened (a : Archive) : Archive := { a with cache := .empty }

end Archive

/-- How an index catalog is set up. -/
structure Store where
  schema : Schema
  pageSize : Nat

namespace Store

/-! ## Reading documents -/

/-- The product of a document. -/
def productOf (s : Store) (d : Document) : Except CatalogError Product :=
  return d.product (← s.schema.typeById d.typeId)

/-- The document of a product, which must be indexed. -/
def requireDocument (id : String) : Action Archive Document := .reading fun a =>
  match a.document? id with
  | some d => .ok d
  | none => .error (.notFound "Product" id)

/-- The products that a search finds, newest first. -/
def productsFound (s : Store) (search : Search) : Action Archive (List Product) :=
  .reading fun a =>
    (Document.newestFirst (a.documents.filter fun d => search.accepts d)).mapM s.productOf

/-- A product rebuilt from its document. -/
def loadPending (s : Store) (id : String) : Action Archive Pending := do
  let d ← requireDocument id
  return ⟨← .ofExcept (s.productOf d), some d.metadata, true⟩

/-! ## Writing -/

/-- Runs an action while the slot of a product is reserved and releases the slot after it,
also when it fails. -/
def withSlot {α : Type} (id : String) (action : Action Archive α) : Action Archive α :=
  fun a =>
    let (answer, a) := action.run { a with cache := a.cache.reserve id }
    (answer, { a with cache := a.cache.release id })

/-- Puts the product rebuilt from its document into its slot, unless something waits there, and
tells whether it did. -/
def load (s : Store) (id : String) : Action Archive Bool := do
  if (← get).cache.contains id then return false
  let pending ← s.loadPending id
  modify fun a => a.store id (some pending)
  return true

/-- Runs an action on what waits in the slot of a product. -/
def onPending (id : String) (change : Action Pending Unit) : Action Archive Unit := fun a =>
  match a.cache.pending? id with
  | some pending =>
    let (answer, changed) := change.run pending
    (answer, a.store id (some changed))
  | none => (.ok (), a)

/-- Settles what waits in the slot of a product. -/
def flush (id : String) : Action Archive Unit := modify fun a =>
  match a.cache.pending? id with
  | some pending => a.settle id pending
  | none => a

/-- Changes a product in its slot and settles it. When the change fails, a product that was loaded
for it leaves the slot again. -/
def changeInSlot (s : Store) (id : String) (change : Action Pending Unit) :
    Action Archive Unit := do
  let loaded ← s.load id
  try
    onPending id change
  catch e =>
    if loaded then modify fun a => a.store id none
    throw e
  flush id

/-- Changes a product. -/
def mutate (s : Store) (p : Product) (change : Action Pending Unit) : Action Archive Unit := do
  let id ← .ofExcept p.requireId
  withSlot id (s.changeInSlot id change)

/-- Registers a product; it waits for its metadata. -/
def add (s : Store) (r : Registration) (p : Product) : Action Archive Product := do
  .ofExcept p.requireUnregistered
  let t ← .ofExcept (s.schema.resolveType p.productType)
  let stored := { p with id := some r.freshId, productType := t,
                         received := Instant.ofMillis? r.millis }
  withSlot r.freshId do
    modify fun a => a.store r.freshId (some (.ofProduct stored))
  return stored

/-- Replaces name, structure, status and references. -/
def modifyProduct (s : Store) (p : Product) : Action Archive Unit :=
  s.mutate p <| modify fun pending =>
    { pending with product := { pending.product with
      name := p.name, fileStructure := p.fileStructure, status := p.status,
      references := p.references } }

/-- Takes a product out of its slot and out of the index. -/
def eraseInSlot (id : String) : Action Archive Unit := do
  let a ← get
  match a.cache.pending? id with
  | some pending => set ((if pending.indexed then a.withdraw id else a).store id none)
  | none =>
    discard (requireDocument id)
    set (a.withdraw id)

/-- Erases a product. -/
def remove (p : Product) : Action Archive Unit := do
  let id ← .ofExcept p.requireId
  withSlot id (eraseInSlot id)

/-- Replaces the transfer status. -/
def setStatus (s : Store) (p : Product) : Action Archive Unit :=
  s.mutate p <| modify fun pending =>
    { pending with product := { pending.product with status := p.status } }

/-- Replaces the references. -/
def addReferences (s : Store) (p : Product) : Action Archive Unit :=
  s.mutate p <| modify fun pending =>
    { pending with product := { pending.product with references := p.references } }

/-- Merges the declared part of metadata into those of what is worked on. -/
def mergeDeclared (s : Store) (m : Metadata) : Action Pending Unit := do
  let pending ← get
  let declared ← .ofExcept (s.schema.declaredMetadata pending.product.productType m)
  set { pending with metadata := some ((pending.metadata.getD .empty).merge declared) }

/-- Merges the declared part of metadata into those of a product. -/
def addMetadata (s : Store) (m : Metadata) (p : Product) : Action Archive Unit :=
  s.mutate p (s.mergeDeclared m)

/-- Removes values from the metadata of a product, if it has any. -/
def removeMetadata (s : Store) (m : Metadata) (p : Product) : Action Archive Unit :=
  s.mutate p <| modify fun pending =>
    { pending with metadata := pending.metadata.map fun stored => stored.removeValues m }

/-! ## Reading -/

/-- The product of an id. -/
def byId (s : Store) (id : String) : Action Archive Product := do
  .ofExcept (s.productOf (← requireDocument id))

/-- The only product of a name. -/
def byName (s : Store) (name : String) : Action Archive Product := do
  match ← s.productsFound (.term .productName name) with
  | [] => throw (.notFound "Product" name)
  | [p] => return p
  | found => throw (.ambiguousProduct found.length name)

/-- The references of a product. -/
def references (s : Store) (p : Product) : Action Archive (List FileReference) := do
  return (← s.byId (← .ofExcept p.requireId)).references

/-- All products. -/
def products (s : Store) : Action Archive (List Product) := s.productsFound .everything

/-- The products of a type. -/
def productsOfType (s : Store) (t : ProductType) : Action Archive (List Product) := do
  let t ← .ofExcept (s.schema.resolveType t)
  s.productsFound (.ofType t.id)

/-- The metadata of a product. -/
def metadata (p : Product) : Action Archive Metadata := do
  return (← requireDocument (← .ofExcept p.requireId)).metadata

/-- The products of a type that satisfy a query. -/
def matching (s : Store) (q : Query) (t : ProductType) : Action Archive (List Product) := do
  let t ← .ofExcept (s.schema.resolveType t)
  .ofExcept (s.schema.checkQuery q t)
  s.productsFound (.ofQuery q t.id)

/-- The ids of the products of a type that satisfy a query. -/
def query (s : Store) (q : Query) (t : ProductType) : Action Archive (List String) := do
  return (← s.matching q t).filterMap Product.id

/-- One page of the products of a type that satisfy a query. -/
def page (s : Store) (q : Query) (t : ProductType) (number : Int) : Action Archive Page := do
  let found ← s.matching q t
  let window ← .ofQuery (PageWindow.resolve number s.pageSize found.length)
  return window.page s.pageSize found.length (window.cut s.pageSize found)

/-- The number of products of a type. -/
def count (s : Store) (t : ProductType) : Action Archive Nat := do
  let t ← .ofExcept (s.schema.resolveType t)
  return ((← get).documents.filter fun d => (Search.ofType t.id).accepts d).length

/-- The index catalog. -/
def catalog (s : Store) : Catalog Archive where
  pageSize := s.pageSize
  add := s.add
  modify := s.modifyProduct
  remove := remove
  setStatus := s.setStatus
  addReferences := s.addReferences
  addMetadata := s.addMetadata
  removeMetadata := s.removeMetadata
  byId := s.byId
  byName := s.byName
  references := s.references
  products := s.products
  productsOfType := s.productsOfType
  metadata := metadata
  query := s.query
  page := s.page
  newest n := return (← s.products).take n
  newestOfType n t := return (← s.productsOfType t).take n
  count := s.count

end Store

end ArchiveCatalog.Inverted

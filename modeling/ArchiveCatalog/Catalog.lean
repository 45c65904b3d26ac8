import ArchiveCatalog.Action
import ArchiveCatalog.Page
import ArchiveCatalog.Query

namespace ArchiveCatalog

/-! # Catalogs

A catalog registers products, keeps their references and metadata, and finds them again.
It is a record of actions on the state in which it keeps them, so that every way of
storing a catalog is used through the same operations.
-/

/-- What the surroundings supply when a product is registered: an id that no other product
has, and the time in milliseconds. -/
structure Registration where
  freshId : String
  millis : Int
  deriving DecidableEq, Repr

/-- The operations of a catalog whose state is `σ`. -/
structure Catalog (σ : Type) where
  /-- The number of products on a page. -/
  pageSize : Nat
  /-- Registers a product and answers it with its id, full type and received time. -/
  add : Registration → Product → Action σ Product
  /-- Replaces name, structure, status and references; metadata stay. -/
  modify : Product → Action σ Unit
  /-- Erases a product with its references and metadata. -/
  remove : Product → Action σ Unit
  /-- Replaces the transfer status. -/
  setStatus : Product → Action σ Unit
  /-- Replaces the references. -/
  addReferences : Product → Action σ Unit
  /-- Merges the declared part of metadata into the metadata of a product. -/
  addMetadata : Metadata → Product → Action σ Unit
  /-- Removes values from the metadata of a product. -/
  removeMetadata : Metadata → Product → Action σ Unit
  /-- The product of an id. -/
  byId : String → Action σ Product
  /-- The only product of a name. -/
  byName : String → Action σ Product
  /-- The references of a product. -/
  references : Product → Action σ (List FileReference)
  /-- All products, newest first. -/
  products : Action σ (List Product)
  /-- The products of a type, newest first. -/
  productsOfType : ProductType → Action σ (List Product)
  /-- The metadata of a product. -/
  metadata : Product → Action σ Metadata
  /-- The ids of the products of a type that satisfy a query, newest first. -/
  query : Query → ProductType → Action σ (List String)
  /-- One page of the products of a type that satisfy a query. -/
  page : Query → ProductType → Int → Action σ Page
  /-- The newest products, so many at most. -/
  newest : Nat → Action σ (List Product)
  /-- The newest products of a type. -/
  newestOfType : Nat → ProductType → Action σ (List Product)
  /-- The number of products of a type. -/
  count : ProductType → Action σ Nat

namespace Catalog

variable {σ τ : Type}

/-- The entries of the listed elements in the metadata of a product. -/
def reducedMetadata (c : Catalog σ) (p : Product) (elements : List String) :
    Action σ Metadata := do
  return (← c.metadata p).reduce elements

/-- Registers the product of a caller, which the registered one replaces. -/
def addInPlace (c : Catalog σ) (r : Registration) : Action (Product × σ) Unit := do
  let stored ← (c.add r (← get).1).within Prod.snd fun s caller => (caller.1, s)
  set (stored, (← get).2)

/-- The same catalog kept in a part of a larger state. -/
def within (part : σ → τ) (put : τ → σ → σ) (c : Catalog τ) : Catalog σ where
  pageSize := c.pageSize
  add r p := (c.add r p).within part put
  modify p := (c.modify p).within part put
  remove p := (c.remove p).within part put
  setStatus p := (c.setStatus p).within part put
  addReferences p := (c.addReferences p).within part put
  addMetadata m p := (c.addMetadata m p).within part put
  removeMetadata m p := (c.removeMetadata m p).within part put
  byId id := (c.byId id).within part put
  byName name := (c.byName name).within part put
  references p := (c.references p).within part put
  products := c.products.within part put
  productsOfType t := (c.productsOfType t).within part put
  metadata p := (c.metadata p).within part put
  query q t := (c.query q t).within part put
  page q t n := (c.page q t n).within part put
  newest n := (c.newest n).within part put
  newestOfType n t := (c.newestOfType n t).within part put
  count t := (c.count t).within part put

end Catalog

end ArchiveCatalog

import ArchiveCatalog.Catalog

namespace ArchiveCatalog.Catalog

/-! # Leafing through a type

The first, last, next and previous page of all products of a type, by page requests alone.
The next page of the last one and the previous page of the first one are those pages
themselves, unchanged.
-/

variable {σ : Type}

/-- A page of all products of a type. -/
def pageOfType (c : Catalog σ) (t : ProductType) (number : Int) : Action σ Page :=
  c.page .everything t number

/-- The first page. -/
def firstPage (c : Catalog σ) (t : ProductType) : Action σ Page := c.pageOfType t 1

/-- The last page. -/
def lastPage (c : Catalog σ) (t : ProductType) : Action σ Page := do
  let first ← c.firstPage t
  if first.isLast then return first
  c.pageOfType t (signedWord first.totalPages)

/-- The page after another, the first one after none. -/
def nextPage (c : Catalog σ) (t : ProductType) : Option Page → Action σ Page
  | none => c.firstPage t
  | some p => if p.isLast then return p else c.pageOfType t (signedWord p.number + 1)

/-- The page before another, the first one before none. -/
def previousPage (c : Catalog σ) (t : ProductType) : Option Page → Action σ Page
  | none => c.firstPage t
  | some p => if p.isFirst then return p else c.pageOfType t (signedWord p.number - 1)

end ArchiveCatalog.Catalog

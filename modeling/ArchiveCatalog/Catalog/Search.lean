import ArchiveCatalog.Catalog
import ArchiveCatalog.Dsl.Statement
import ArchiveCatalog.Instant.Reading
import ArchiveCatalog.Schema.Lookup
import ArchiveCatalog.Template
import ArchiveCatalog.Text.Decimal
import ArchiveCatalog.Timeline

namespace ArchiveCatalog

/-! # Searches over several types

A complex query runs on every type it selects; types that do not declare what it asks
about are passed over. Its filter, its order and its selection of fields are applied to
all hits together, in this sequence, so that filter and order see metadata that are not
answered.
-/

/-- A product found, with all of its metadata. -/
structure Hit where
  product : Product
  metadata : Metadata
  deriving DecidableEq, Repr

/-- A product found, with the metadata asked for and the output format. -/
structure SearchResult where
  product : Product
  metadata : Metadata
  format : Option String
  deriving DecidableEq, Repr

/-- The text of a result: its format with the values put in, or the name of the product. -/
def SearchResult.text (r : SearchResult) : String :=
  match r.format with
  | some template => Template.expand template r.metadata
  | none => r.product.name

namespace Hit

/-! ## Filtering -/

/-- The time that a hit has under a key. -/
def timeUnder (h : Hit) (key : String) : Except QueryFault Int :=
  match h.metadata.first? key with
  | some value => Instant.readMillis value
  | none => .error (.missingFilterValue h.product.name key)

/-- The priority that a hit has under a key, 0 if it has none. -/
def priorityUnder (h : Hit) (key : String) : Except QueryFault Float :=
  match h.metadata.first? key with
  | none => .ok 0
  | some value =>
    match Text.readDecimal? (Text.trim value.toList) with
    | some priority => .ok priority
    | none => .error (.unreadablePriority value key)

/-- The time event that a hit is for a filter. -/
def event (f : EventFilter) (h : Hit) : Except QueryFault (TimeEvent Float Hit) := do
  let start ← h.timeUnder f.startKey
  let stop ← h.timeUnder f.endKey
  let priority ← h.priorityUnder f.priorityKey
  return ⟨start, stop, priority, h⟩

/-- The hits that a filter keeps. -/
def filtered (f : EventFilter) (hits : List Hit) : Except QueryFault (List Hit) := do
  let events ← hits.mapM (event f)
  return (TimeEvent.filtered f.algorithm f.epsilon events).map TimeEvent.item

/-! ## Order and answer -/

/-- The first hit comes before the second or equals it in the order of a key: by the first
value, hits without one last. -/
def beforeOrSame (key : String) (a b : Hit) : Bool :=
  match a.metadata.first? key, b.metadata.first? key with
  | some x, some y => x ≤ y
  | some _, none => true
  | none, some _ => false
  | none, none => true

/-- Hits in the order of a key; equal ones keep their order. -/
def sorted (key : String) (hits : List Hit) : List Hit := hits.mergeSort (beforeOrSame key)

/-- What is answered of a hit. -/
def result (q : ComplexQuery) (h : Hit) : SearchResult :=
  { product := h.product
    metadata := match q.fields with
      | some fields => h.metadata.reduce fields
      | none => h.metadata
    format := q.format }

/-- The results of a query, given its hits. -/
def results (q : ComplexQuery) (hits : List Hit) : Except QueryFault (List SearchResult) := do
  let hits ← match q.filter with
    | some f => filtered f hits
    | none => .ok hits
  let hits := match q.sortBy with
    | some key => sorted key hits
    | none => hits
  return hits.map (result q)

end Hit

namespace Catalog

variable {σ : Type}

/-- The types that a query selects. -/
def selectedTypes (s : Schema) (q : ComplexQuery) : Except CatalogError (List ProductType) :=
  match q.types with
  | none => s.productTypes
  | some names => names.mapM fun name => s.resolveType (.named name)

/-- The type declares everything that the query asks about. -/
def isAnswerable (s : Schema) (q : Query) (t : ProductType) : Except CatalogError Bool :=
  match s.checkQuery q t with
  | .ok () => .ok true
  | .error e => if e.kind = .schema then .ok false else .error e

/-- The products of a type that a query finds. -/
def hitsOfType (c : Catalog σ) (q : Query) (t : ProductType) : Action σ (List Hit) := do
  (← c.query q t).mapM fun id => do
    let product ← c.byId id
    return ⟨product, ← c.metadata product⟩

/-- The products of all types that a query finds. -/
def hits (c : Catalog σ) (s : Schema) (q : ComplexQuery) : Action σ (List Hit) := do
  let types ← .ofExcept (selectedTypes s q)
  let found ← types.mapM fun t => do
    if ← .ofExcept (isAnswerable s q.query t) then c.hitsOfType q.query t else return []
  return found.flatten

/-- Runs a complex query. -/
def search (c : Catalog σ) (s : Schema) (q : ComplexQuery) : Action σ (List SearchResult) := do
  .ofQuery (Hit.results q (← c.hits s q))

/-- Runs the query of a statement. -/
def searchStatement (c : Catalog σ) (s : Schema) (text : String) :
    Action σ (List SearchResult) := do
  c.search s (← .ofQuery (Dsl.parseStatement text))

end Catalog

end ArchiveCatalog

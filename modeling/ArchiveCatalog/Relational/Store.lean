import ArchiveCatalog.Catalog
import ArchiveCatalog.Relational.Counting
import ArchiveCatalog.Relational.Selection
import ArchiveCatalog.Schema.Lookup
import ArchiveCatalog.Text.Numeral

namespace ArchiveCatalog.Relational

/-! # The relational catalog

Products are rows of one table; references and metadata are in tables of their types,
which are created and widened as they are needed. Every write happens completely or not at
all. Queries are checked and translated before the database is touched.
-/

/-- How a relational catalog is set up. -/
structure Store where
  layout : Layout
  bases : TableBases
  schema : Schema
  pageSize : Nat

namespace Store

/-! ## Tables -/

/-- The tables of a type. -/
def tablesOf (s : Store) (t : ProductType) : Action Database TypeTables :=
  .ofExcept (TypeTables.ofType s.bases t)

/-- Creates the metadata table of the narrow layout. -/
def ensureNarrow (tables : TypeTables) : Action Database Unit := do
  alter fun db => db.createTable tables.metadata (.unkeyed [elementIdColumn, valueColumn])
  inspect fun db => do (← db.table tables.metadata).requireColumns [elementIdColumn, valueColumn]

/-- Creates the column or the side table of an element, given the columns there were. -/
def ensureElement (s : Store) (tables : TypeTables) (columns : List String) (e : Element) :
    Action Database Unit := do
  if s.layout.isVector e.name then
    let side ← .ofExcept (tables.valuesOf e.name)
    alter fun db => db.createTable side (.unkeyed [valueColumn])
  else if columns.contains e.name then return
  else
    let name ← .ofExcept (usableName e.name)
    alter fun db => db.updateTable tables.metadata fun t => t.addColumn name

/-- Creates the metadata table of the wide layout and widens it to the declared elements. -/
def ensureWide (s : Store) (tables : TypeTables) (t : ProductType) : Action Database Unit := do
  alter fun db => db.createTable tables.metadata .keyedByProduct
  let columns ← inspect fun db => return (← db.table tables.metadata).columnNames
  for e in ← .ofExcept ((s.schema.inStage .widening).elementsFor t) do
    s.ensureElement tables columns e

/-- Creates the tables of a type as far as they are not there. -/
def ensureTables (s : Store) (t : ProductType) : Action Database Unit := do
  let tables ← s.tablesOf t
  alter fun db => db.createReferences tables.reference
  match s.layout with
  | .narrow => ensureNarrow tables
  | .wide _ => s.ensureWide tables t

/-! ## Products and references -/

/-- The number of an id; ids that are no numbers belong to no product. -/
def idNumber (id : String) : Except CatalogError Int :=
  match Text.readInt64? id.toList with
  | some n => .ok n
  | none => .error (.notFound "Product" id)

/-- The number of the id of a registered product. -/
def numberOf (p : Product) : Except CatalogError Int := do idNumber (← p.requireId)

/-- The row of an id. -/
def productRow (id : Int) : Action Database ProductRow := .reading fun db =>
  match db.product? id with
  | some row => .ok row
  | none => .error (.notFound "Product" (toString id))

/-- The type of a stored product. -/
def storedType (s : Store) (id : Int) : Action Database ProductType := do
  let row ← productRow id
  .ofExcept (s.schema.typeById row.typeId)

/-- The references of a product of a type. -/
def loadReferences (s : Store) (t : ProductType) (id : Int) :
    Action Database (List FileReference) := do
  let tables ← s.tablesOf t
  inspect fun db => db.referencesOf tables.reference id

/-- Replaces the references of a product of a type. -/
def storeReferences (s : Store) (t : ProductType) (id : Int) (references : List FileReference) :
    Action Database Unit := do
  let tables ← s.tablesOf t
  alter fun db => db.replaceReferences tables.reference id references

/-- The product of an id. -/
def loadProduct (s : Store) (id : Int) : Action Database Product := do
  let row ← productRow id
  let t ← .ofExcept (s.schema.typeById row.typeId)
  let references ← s.loadReferences t row.id
  return { id := some (toString row.id), name := row.name, productType := t,
           fileStructure := row.fileStructure, status := row.status, references,
           received := Instant.ofMillis? row.received }

/-- The products of rows. -/
def loadProducts (s : Store) (rows : List ProductRow) : Action Database (List Product) :=
  rows.mapM fun row => s.loadProduct row.id

/-! ## Metadata -/

/-- The name of the element id in a row, declared or not. -/
def elementName (s : Store) (declared : List Element) (row : Nat) (id : String) :
    Except CatalogError String :=
  match declared.find? (·.id == id) with
  | some e => .ok e.name
  | none => return (← (s.schema.inStage (.row row)).elementById id).name

/-- The text of a cell, which must be there. -/
def cellText (r : Row) (column : String) : Except StoreFault String :=
  match r.cell? column with
  | some text => .ok text
  | none => .error (.missingText column)

/-- The element id and value of a row of the narrow layout. -/
def entryOf (r : Row) : Except StoreFault (String × String) := do
  return (← cellText r elementIdColumn, ← cellText r valueColumn)

/-- Metadata in the narrow layout. -/
def loadNarrow (s : Store) (tables : TypeTables) (t : ProductType) (id : Int) :
    Action Database Metadata := do
  let declared ← .ofExcept ((s.schema.inStage .loading).elementsFor t)
  let entries ← inspect fun db => do
    let table ← db.table tables.metadata
    table.requireColumns [elementIdColumn, valueColumn]
    (table.rowsOf id).mapM entryOf
  let named ← .ofExcept (entries.zipIdx.mapM fun ((elementId, value), row) =>
    return (← s.elementName declared row elementId, value))
  return .ofPairs named

/-- The columns of a row with their texts, as far as there are any. -/
def cellsOf (table : Table) (r : Row) : List (String × String) :=
  table.columns.filterMap fun c => (r.cell? c.name).map fun text => (c.name, text)

/-- The values of an element in its side table. -/
def loadVector (tables : TypeTables) (id : Int) (element : String) :
    Action Database (List String) := do
  let side ← .ofExcept (tables.valuesOf element)
  inspect fun db => do ((← db.table side).rowsOf id).mapM fun r => cellText r valueColumn

/-- Metadata in the wide layout. -/
def loadWide (s : Store) (tables : TypeTables) (t : ProductType) (id : Int) :
    Action Database Metadata := do
  let cells ← inspect fun db => do
    let table ← db.table tables.metadata
    return ((table.rowsOf id).head?.map (cellsOf table)).getD []
  let declared ← .ofExcept ((s.schema.inStage .loading).elementsFor t)
  (declared.filter fun e => s.layout.isVector e.name).foldlM
    (fun m e => return m.addAll e.name (← loadVector tables id e.name)) (Metadata.ofPairs cells)

/-- The metadata of a product of a type. -/
def loadMetadata (s : Store) (t : ProductType) (id : Int) : Action Database Metadata := do
  let tables ← s.tablesOf t
  match s.layout with
  | .narrow => s.loadNarrow tables t id
  | .wide _ => s.loadWide tables t id

/-- Removes the metadata of a product of a type. -/
def deleteMetadata (s : Store) (t : ProductType) (id : Int) : Action Database Unit := do
  let tables ← s.tablesOf t
  alter fun db => db.updateTable tables.metadata fun table => .ok (table.erase id)
  match s.layout with
  | .narrow => return
  | .wide vectors =>
    for e in ← .ofExcept ((s.schema.inStage .erasing).elementsFor t) do
      if vectors.contains e.name then
        let side ← .ofExcept (tables.valuesOf e.name)
        alter fun db => db.updateTable side fun table => .ok (table.erase id)

/-- Inserts a row for each of the values. -/
def insertValues (table : String) (id : Int) (cellsFor : String → List (String × String))
    (values : List String) : Action Database Unit := do
  inspect fun db => discard (db.table table)
  for value in values do
    alter fun db => db.updateTable table fun t => t.insert id (cellsFor value)

/-- Stores metadata in the narrow layout; elements that are not declared are left out. -/
def storeNarrow (s : Store) (tables : TypeTables) (t : ProductType) (id : Int) (m : Metadata) :
    Action Database Unit := do
  let declared ← .ofExcept ((s.schema.inStage .storing).elementsFor t)
  for (name, values) in m.entries do
    match declared.find? (·.name == name) with
    | none => pure ()
    | some e =>
      insertValues tables.metadata id
        (fun value => [(elementIdColumn, e.id), (valueColumn, value)]) values

/-- Stores the values of an element in its side table. -/
def storeVector (tables : TypeTables) (id : Int) (element : String) (values : List String) :
    Action Database Unit := do
  let side ← .ofExcept (tables.valuesOf element)
  insertValues side id (fun value => [(valueColumn, value)]) values

/-- Stores metadata in the wide layout; a column keeps the first value only. -/
def storeWide (s : Store) (tables : TypeTables) (id : Int) (m : Metadata) :
    Action Database Unit := do
  let cells ← m.entries.filterMapM fun (name, values) => do
    if s.layout.isVector name then
      storeVector tables id name values
      return none
    else
      match values.head? with
      | none => return none
      | some value => return some (← Action.ofExcept (usableName name), value)
  alter fun db => db.updateTable tables.metadata fun t => t.insert id cells

/-- Replaces the metadata of a product of a type. -/
def storeMetadata (s : Store) (t : ProductType) (id : Int) (m : Metadata) :
    Action Database Unit := do
  let tables ← s.tablesOf t
  s.deleteMetadata t id
  match s.layout with
  | .narrow => s.storeNarrow tables t id m
  | .wide _ => s.storeWide tables id m

/-! ## Queries -/

/-- The translation of criteria for a type. -/
def translation (s : Store) (t : ProductType) : Except CatalogError Translation := do
  let declared ← (s.schema.inStage .translating).elementsFor t
  let tables ← TypeTables.ofType s.bases t
  return { layout := s.layout, typeId := t.id, typeName := t.name, tables,
           elementIds := declared.map fun e => (e.name, e.id) }

/-- The full type and the selection of a query on it. -/
def matching (s : Store) (q : Query) (t : ProductType) :
    Except CatalogError (ProductType × Selection) := do
  let t ← s.schema.resolveType t
  s.schema.checkQuery q t
  return (t, ← (← s.translation t).ofQuery q)

/-- The rows of the products of a type that a selection selects, newest first. -/
def selectedRows (db : Database) (t : ProductType) (selection : Selection) : List ProductRow :=
  Database.newestFirst
    (db.products.filter fun row => row.typeId == t.id && selection.selects db row.id)

/-- The rows of the products of a type, newest first. -/
def rowsOfType (db : Database) (t : ProductType) : List ProductRow :=
  Database.newestFirst (db.products.filter (·.typeId == t.id))

/-! ## Operations -/

/-- Registers a product. -/
def add (s : Store) (r : Registration) (p : Product) : Action Database Product := do
  .ofExcept p.requireUnregistered
  let t ← .ofExcept (s.schema.resolveType p.productType)
  let id ← Action.atomically do
    s.ensureTables t
    let id := (← get).nextId
    alter fun db => db.insertProduct p t.id r.millis
    s.storeReferences t id p.references
    return id
  return { p with id := some (toString id), productType := t,
                  received := Instant.ofMillis? r.millis }

/-- Replaces name, structure, status and references. -/
def modify (s : Store) (p : Product) : Action Database Unit := do
  let id ← .ofExcept (numberOf p)
  Action.atomically do
    let t ← s.storedType id
    alter fun db => .ok (db.updateProduct id fun row =>
      { row with name := p.name, fileStructure := p.fileStructure, status := p.status })
    s.storeReferences t id p.references

/-- Erases a product. -/
def remove (s : Store) (p : Product) : Action Database Unit := do
  let id ← .ofExcept (numberOf p)
  Action.atomically do
    let t ← s.storedType id
    s.storeReferences t id []
    s.deleteMetadata t id
    alter fun db => .ok (db.eraseProduct id)

/-- Replaces the transfer status. -/
def setStatus (p : Product) : Action Database Unit := do
  let id ← .ofExcept (numberOf p)
  Action.atomically do
    discard (productRow id)
    alter fun db => .ok (db.updateProduct id fun row => { row with status := p.status })

/-- Changes the metadata of a product. -/
def changeMetadata (s : Store) (p : Product)
    (change : ProductType → Metadata → Except CatalogError Metadata) : Action Database Unit := do
  let id ← .ofExcept (numberOf p)
  Action.atomically do
    let t ← s.storedType id
    s.ensureTables t
    let stored ← s.loadMetadata t id
    s.storeMetadata t id (← .ofExcept (change t stored))

/-- Merges the declared part of metadata into the stored ones. -/
def addMetadata (s : Store) (m : Metadata) (p : Product) : Action Database Unit :=
  s.changeMetadata p fun t stored =>
    return stored.merge (← (s.schema.inStage .merging).declaredMetadata t m)

/-- Removes values from the stored metadata. -/
def removeMetadata (s : Store) (m : Metadata) (p : Product) : Action Database Unit :=
  s.changeMetadata p fun _ stored => .ok (stored.removeValues m)

/-- Replaces the references. -/
def addReferences (s : Store) (p : Product) : Action Database Unit := do
  let id ← .ofExcept (numberOf p)
  Action.atomically do
    s.storeReferences (← s.storedType id) id p.references

/-- The product of an id. -/
def byId (s : Store) (id : String) : Action Database Product := do
  s.loadProduct (← .ofExcept (idNumber id))

/-- The only product of a name. -/
def byName (s : Store) (name : String) : Action Database Product := do
  match (← get).products.filter (·.name == name) with
  | [] => throw (.notFound "Product" name)
  | [row] => s.loadProduct row.id
  | rows => throw (.ambiguousProduct rows.length name)

/-- The references of a product. -/
def references (s : Store) (p : Product) : Action Database (List FileReference) := do
  let id ← .ofExcept (numberOf p)
  s.loadReferences (← s.storedType id) id

/-- All products. -/
def products (s : Store) : Action Database (List Product) := do
  s.loadProducts (Database.newestFirst (← get).products)

/-- The products of a type. -/
def productsOfType (s : Store) (t : ProductType) : Action Database (List Product) := do
  let t ← .ofExcept (s.schema.resolveType t)
  s.loadProducts (rowsOfType (← get) t)

/-- The metadata of a product. -/
def metadata (s : Store) (p : Product) : Action Database Metadata := do
  let id ← .ofExcept (numberOf p)
  s.loadMetadata (← s.storedType id) id

/-- The ids of the products that satisfy a query. -/
def query (s : Store) (q : Query) (t : ProductType) : Action Database (List String) := do
  let (t, selection) ← .ofExcept (s.matching q t)
  s.ensureTables t
  return (selectedRows (← get) t selection).map fun row => toString row.id

/-- The offset and the limit of the rows in a window. -/
def extent (s : Store) : PageWindow → Int × Int
  | .blank => (0, 0)
  | .all => (0, noLimit)
  | .slice _ offset => (signedCount offset, signedCount s.pageSize)

/-- One page of the products that satisfy a query. The rows are counted by one statement, and those
of the page are selected by another one. -/
def page (s : Store) (q : Query) (t : ProductType) (number : Int) : Action Database Page := do
  let (t, selection) ← .ofExcept (s.matching q t)
  s.ensureTables t
  let hits := readCount (countRows (selectedRows (← get) t selection))
  let window ← .ofQuery (PageWindow.resolve number s.pageSize hits)
  if window = .blank then return Page.blank s.pageSize
  let (offset, limit) := s.extent window
  let rows := limitRows limit offset (selectedRows (← get) t selection)
  return window.page s.pageSize hits (← s.loadProducts rows)

/-- The newest products. -/
def newest (s : Store) (n : Nat) : Action Database (List Product) := do
  s.loadProducts (limitRows (signedCount n) 0 (Database.newestFirst (← get).products))

/-- The newest products of a type. -/
def newestOfType (s : Store) (n : Nat) (t : ProductType) : Action Database (List Product) := do
  let t ← .ofExcept (s.schema.resolveType t)
  s.loadProducts (limitRows (signedCount n) 0 (rowsOfType (← get) t))

/-- The number of products of a type. -/
def count (s : Store) (t : ProductType) : Action Database Nat := do
  let t ← .ofExcept (s.schema.resolveType t)
  return readCount (countRows (rowsOfType (← get) t))

/-- The relational catalog. -/
def catalog (s : Store) : Catalog Database where
  pageSize := s.pageSize
  add := s.add
  modify := s.modify
  remove := s.remove
  setStatus := setStatus
  addReferences := s.addReferences
  addMetadata := s.addMetadata
  removeMetadata := s.removeMetadata
  byId := s.byId
  byName := s.byName
  references := s.references
  products := s.products
  productsOfType := s.productsOfType
  metadata := s.metadata
  query := s.query
  page := s.page
  newest := s.newest
  newestOfType := s.newestOfType
  count := s.count

end Store

end ArchiveCatalog.Relational

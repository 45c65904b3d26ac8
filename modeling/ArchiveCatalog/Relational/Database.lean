import ArchiveCatalog.Action
import ArchiveCatalog.Product
import ArchiveCatalog.Relational.Table

namespace ArchiveCatalog.Relational

/-! # Databases

A database has a table of products, which counts up their ids and never uses one twice,
and by name tables of references and tables of text. Names of tables do not differ by
ASCII case alone.
-/

/-- A product as stored. -/
structure ProductRow where
  id : Int
  name : String
  fileStructure : FileStructure
  status : TransferStatus
  typeId : String
  received : Int
  deriving DecidableEq, Repr

/-- A reference of a product, after those before it. -/
structure ReferenceRow where
  product : Int
  reference : FileReference
  deriving DecidableEq, Repr

/-- The products in order of registration, the last id given, and the other tables. -/
structure Database where
  products : List ProductRow
  lastId : Nat
  references : List (String × List ReferenceRow)
  tables : List (String × Table)
  deriving DecidableEq, Repr

namespace Database

/-- A database without products. -/
def empty : Database := ⟨[], 0, [], []⟩

instance : Inhabited Database := ⟨empty⟩

/-! ## Products -/

/-- The product of an id. -/
def product? (db : Database) (id : Int) : Option ProductRow := db.products.find? (·.id == id)

/-- There is a product of the id and type. -/
def hasProduct (db : Database) (typeId : String) (id : Int) : Bool :=
  db.products.any fun r => r.id == id && r.typeId == typeId

/-- The id of the next product. -/
def nextId (db : Database) : Int := db.lastId + 1

/-- The greatest id; once it has been given, no product can be added. -/
def greatestId : Nat := (1 <<< 63) - 1

/-- Adds a product under the next id. -/
def insertProduct (db : Database) (p : Product) (typeId : String) (received : Int) :
    Except StoreFault Database :=
  if db.lastId < greatestId then
    .ok { db with
      products := db.products ++ [⟨db.nextId, p.name, p.fileStructure, p.status, typeId, received⟩]
      lastId := db.lastId + 1 }
  else .error .full

/-- Changes the product of an id. -/
def updateProduct (db : Database) (id : Int) (change : ProductRow → ProductRow) : Database :=
  { db with products := db.products.map fun r => if r.id = id then change r else r }

/-- Removes the product of an id. -/
def eraseProduct (db : Database) (id : Int) : Database :=
  { db with products := db.products.filter (·.id != id) }

/-- The first product is newer, or as new with the larger id. -/
def newerOrSame (a b : ProductRow) : Bool :=
  b.received < a.received || (a.received == b.received && b.id ≤ a.id)

/-- Products in the order in which they are answered. -/
def newestFirst (rows : List ProductRow) : List ProductRow := rows.mergeSort newerOrSame

/-! ## Tables -/

/-- Names that tables must not begin with. -/
def reservedStart : List Char := "sqlite_".toList

/-- A name a table may get. -/
def creatable (name : String) : Except StoreFault Unit :=
  if reservedStart.isPrefixOf (Text.folded name).toList then .error (.reservedName name) else .ok ()

/-- Puts an entry under a key, in place of the one there. -/
def put {α : Type} (key : String) (entry : α) (entries : List (String × α)) :
    List (String × α) :=
  (key, entry) :: entries.filter (·.1 != key)

/-- The table of text of a name. -/
def table? (db : Database) (name : String) : Option Table := db.tables.lookup (Text.folded name)

/-- The table of text of a name, which must be there. -/
def table (db : Database) (name : String) : Except StoreFault Table :=
  match db.table? name with
  | some t => .ok t
  | none => .error (.noSuchTable name)

/-- The rows of a table of text, none if it is not there. -/
def rows (db : Database) (name : String) : List Row :=
  match db.table? name with
  | some t => t.rows
  | none => []

/-- Stores a table of text under a name. -/
def setTable (db : Database) (name : String) (t : Table) : Database :=
  { db with tables := put (Text.folded name) t db.tables }

/-- Creates a table of text unless it is there. -/
def createTable (db : Database) (name : String) (t : Table) : Except StoreFault Database := do
  creatable name
  match db.table? name with
  | some _ => .ok db
  | none => .ok (db.setTable name t)

/-- Changes a table of text. -/
def updateTable (db : Database) (name : String) (change : Table → Except StoreFault Table) :
    Except StoreFault Database := do
  let t ← db.table name
  return db.setTable name (← change t)

/-! ## References -/

/-- The rows of a table of references, which must be there. -/
def referenceRows (db : Database) (name : String) : Except StoreFault (List ReferenceRow) :=
  match db.references.lookup (Text.folded name) with
  | some rows => .ok rows
  | none => .error (.noSuchTable name)

/-- Creates a table of references unless it is there. -/
def createReferences (db : Database) (name : String) : Except StoreFault Database := do
  creatable name
  match db.references.lookup (Text.folded name) with
  | some _ => .ok db
  | none => .ok { db with references := put (Text.folded name) [] db.references }

/-- The references of a product in a table. -/
def referencesOf (db : Database) (name : String) (product : Int) :
    Except StoreFault (List FileReference) := do
  let rows ← db.referenceRows name
  return (rows.filter (·.product == product)).map ReferenceRow.reference

/-- The greatest file size that can be stored. -/
def greatestSize : Nat := (1 <<< 63) - 1

/-- A reference as stored; a larger file counts as one of the greatest size. -/
def storable (r : FileReference) : FileReference := { r with size := min r.size greatestSize }

/-- Replaces the references of a product in a table. -/
def replaceReferences (db : Database) (name : String) (product : Int)
    (references : List FileReference) : Except StoreFault Database := do
  let rows ← db.referenceRows name
  let kept := rows.filter (·.product != product)
  let added := references.map fun r => ⟨product, storable r⟩
  return { db with references := put (Text.folded name) (kept ++ added) db.references }

end Database

/-! ## Actions -/

/-- A change of the database, none if it is refused. -/
def alter (change : Database → Except StoreFault Database) : Action Database Unit :=
  Action.changing fun db => (change db).mapError CatalogError.store

/-- What is read from the database. -/
def inspect {α : Type} (f : Database → Except StoreFault α) : Action Database α :=
  Action.reading fun db => (f db).mapError CatalogError.store

end ArchiveCatalog.Relational

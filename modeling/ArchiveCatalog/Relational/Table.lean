import ArchiveCatalog.Error
import ArchiveCatalog.Text.Ascii
import ArchiveCatalog.Text.Numeral

namespace ArchiveCatalog.Relational

/-! # Tables of text

A table has rows of text cells for products. Column names differ by more than ASCII case.
A cell that is not there is empty; a required one has to be there. In a keyed table each
product has one row at most.
-/

/-- The column with the id of the product, which every table has. -/
def productColumn : String := "product_id"

/-- A column of text. -/
structure Column where
  name : String
  required : Bool
  deriving DecidableEq, Repr

/-- A row: the id of a product and the cells that are there, by folded column name. -/
structure Row where
  product : Int
  cells : List (String × String)
  deriving DecidableEq, Repr

/-- The text in a column. -/
def Row.cell? (r : Row) (column : String) : Option String := r.cells.lookup (Text.folded column)

/-- Columns and the rows in order of insertion. -/
structure Table where
  keyed : Bool
  columns : List Column
  rows : List Row
  deriving DecidableEq, Repr

namespace Table

/-- A table without rows where each product may have several. -/
def unkeyed (columns : List String) : Table :=
  ⟨false, columns.map fun name => ⟨name, true⟩, []⟩

/-- A table without rows and columns where each product may have one. -/
def keyedByProduct : Table := ⟨true, [], []⟩

/-- The names are those of one column. -/
def sameName (a b : String) : Bool := Text.folded a == Text.folded b

/-- There is a column of the name. -/
def hasColumn (t : Table) (name : String) : Bool :=
  sameName name productColumn || t.columns.any fun c => sameName c.name name

/-- The column names, spelled as they were when the columns were added. -/
def columnNames (t : Table) : List String := productColumn :: t.columns.map Column.name

/-- Adds an empty column. -/
def addColumn (t : Table) (name : String) : Except StoreFault Table :=
  if t.hasColumn name then .error (.duplicateColumn name)
  else .ok { t with columns := t.columns ++ [⟨name, false⟩] }

/-- The table has all of the columns. -/
def requireColumns (t : Table) (names : List String) : Except StoreFault Unit :=
  match names.find? fun name => !t.hasColumn name with
  | some name => .error (.noSuchColumn name)
  | none => .ok ()

/-- The rows of a product. -/
def rowsOf (t : Table) (product : Int) : List Row := t.rows.filter (·.product == product)

/-- Removes the rows of a product. -/
def erase (t : Table) (product : Int) : Table :=
  { t with rows := t.rows.filter (·.product != product) }

/-- The key under which cells are stored: a cell in the product column of a keyed table
replaces the id given. -/
def keyFor (t : Table) (product : Int) (cells : List (String × String)) :
    Except StoreFault Int :=
  match cells.reverse.find? fun cell => sameName cell.1 productColumn with
  | none => .ok product
  | some (_, text) =>
    if t.keyed then
      match Text.readInt64? text.toList with
      | some n => .ok n
      | none => .error (.notANumber productColumn)
    else .ok product

/-- A row as it is stored. -/
def rowFor (key : Int) (cells : List (String × String)) : Row :=
  ⟨key, cells.map fun (name, text) => (Text.folded name, text)⟩

/-- A required cell that a row lacks. -/
def missing? (t : Table) (r : Row) : Option Column :=
  t.columns.find? fun c => c.required && (r.cell? c.name).isNone

/-- Inserts a row. -/
def insert (t : Table) (product : Int) (cells : List (String × String)) :
    Except StoreFault Table := do
  t.requireColumns (cells.map Prod.fst)
  let key ← t.keyFor product cells
  let row := rowFor key cells
  match t.missing? row with
  | some column => .error (.constraintViolated column.name)
  | none =>
    if t.keyed && t.rows.any (·.product == key) then .error (.constraintViolated productColumn)
    else .ok { t with rows := t.rows ++ [row] }

end Table

end ArchiveCatalog.Relational

import ArchiveCatalog.Product
import ArchiveCatalog.Text.Ascii

namespace ArchiveCatalog.Relational

/-! # Names of tables and columns

Table and column names are made from the names of types and elements. Only names of
letters, digits, underscores, points and hyphens are used, the first a letter or
underscore, so a name in double quotes is one identifier.
-/

/-- A character that a name may go on with. -/
def isNameChar (c : Char) : Bool := Text.isWord c || c == '.' || c == '-'

/-- The name can stand for a table or column. -/
def isUsableName (name : String) : Bool :=
  match name.toList with
  | [] => false
  | c :: rest => Text.isWordStart c && rest.all isNameChar

/-- The name itself, if it can stand for a table or column. -/
def usableName (name : String) : Except CatalogError String :=
  if isUsableName name then .ok name else .error (.unusableName name)

/-- A name as an identifier. -/
def quoted (name : String) : String := "\"" ++ name ++ "\""

/-- The column of an element, as an identifier. -/
def elementColumn (element : String) : Except CatalogError String :=
  (usableName element).map quoted

/-- The base of the table names of types that do not use their own name, by type name. -/
abbrev TableBases := List (String × String)

/-- The base of the table names of a type: what its name is redirected to, else its name. -/
def baseOf (bases : TableBases) (t : ProductType) : Except CatalogError String :=
  usableName ((bases.lookup t.name).getD t.name)

/-- The names of the tables of a type. -/
structure TypeTables where
  base : String
  deriving DecidableEq, Repr

namespace TypeTables

/-- The tables of a type. -/
def ofType (bases : TableBases) (t : ProductType) : Except CatalogError TypeTables :=
  (baseOf bases t).map TypeTables.mk

/-- The table of metadata. -/
def metadata (t : TypeTables) : String := t.base ++ "_metadata"

/-- The table of references. -/
def reference (t : TypeTables) : String := t.base ++ "_reference"

/-- The side table with the values of an element. -/
def valuesOf (t : TypeTables) (element : String) : Except CatalogError String :=
  (usableName element).map fun element => t.base ++ "_" ++ element ++ "_values"

/-- An index on one of the tables. -/
def index (t : TypeTables) (tail : String) : String := "idx_" ++ t.base ++ "_" ++ tail

end TypeTables

/-- How metadata are laid out: a row for each value, or a row for each product with a
column for each element and a side table for each of the listed elements. -/
inductive Layout
  | narrow
  | wide (vectors : List String)
  deriving DecidableEq, Repr

/-- The values of the element are in a side table. -/
def Layout.isVector : Layout → String → Bool
  | .narrow, _ => false
  | .wide vectors, element => vectors.contains element

end ArchiveCatalog.Relational

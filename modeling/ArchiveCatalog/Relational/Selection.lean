import ArchiveCatalog.Query
import ArchiveCatalog.Relational.Database
import ArchiveCatalog.Relational.Naming
import ArchiveCatalog.Text.Pieces

namespace ArchiveCatalog.Relational

/-! # Selections

A selection is a set of product ids told in terms of tables: the products of a type, the
products with a row that passes comparisons, and intersections, unions and complements of
such sets. `Selection.selects` is its meaning on a database, `Selection.text` and
`Selection.parameters` its spelling as a statement with parameters, and
`Translation.selection` the selection of a criterion.
-/

/-! ## Comparisons -/

/-- How a cell is compared with a parameter. -/
inductive Comparator
  | equal
  | atLeast
  | above
  | atMost
  | below
  deriving DecidableEq, Repr

namespace Comparator

/-- The sign of a comparator. -/
def sign : Comparator → String
  | .equal => "="
  | .atLeast => ">="
  | .above => ">"
  | .atMost => "<="
  | .below => "<"

/-- The comparison of a value with a parameter. -/
def holds {α : Type} [DecidableEq α] [LT α] [DecidableLT α] (c : Comparator)
    (value parameter : α) : Bool :=
  match c with
  | .equal => value = parameter
  | .atLeast => ¬ value < parameter
  | .above => parameter < value
  | .atMost => ¬ parameter < value
  | .below => value < parameter

/-- The comparison of a number with a text that spells none: every number is smaller. -/
def holdsBelowText : Comparator → Bool
  | .atMost | .below => true
  | .equal | .atLeast | .above => false

end Comparator

/-- A comparison of a cell with a parameter. -/
structure Comparison where
  comparator : Comparator
  parameter : String
  deriving DecidableEq, Repr

/-- Text passes all comparisons, character by character. -/
def passes (comparisons : List Comparison) (value : String) : Bool :=
  comparisons.all fun c => c.comparator.holds value c.parameter

/-- A product id passes all comparisons, as a number where the parameter spells one. -/
def passesAsNumber (comparisons : List Comparison) (id : Int) : Bool :=
  comparisons.all fun c =>
    match Text.readInt64? c.parameter.toList with
    | some n => c.comparator.holds id n
    | none => c.comparator.holdsBelowText

/-- The comparisons as a condition on a column. -/
def conditionText (column : String) (comparisons : List Comparison) : String :=
  Text.join " AND " (comparisons.map fun c => column ++ " " ++ c.comparator.sign ++ " ?")

/-- The comparison that a criterion with a value stands for. -/
def equalTo (value : String) : List Comparison := [⟨.equal, value⟩]

/-- The comparison with a lower bound. -/
def lowerComparison (inclusive : Bool) (lower : String) : Comparison :=
  ⟨if inclusive then .atLeast else .above, lower⟩

/-- The comparison with an upper bound. -/
def upperComparison (inclusive : Bool) (upper : String) : Comparison :=
  ⟨if inclusive then .atMost else .below, upper⟩

/-- The comparisons that a range stands for, the lower bound's first. -/
def within (bounds : Bounds) (inclusive : Bool) : List Comparison :=
  (bounds.lower?.map (lowerComparison inclusive)).toList ++
    (bounds.upper?.map (upperComparison inclusive)).toList

/-! ## Selections -/

/-- The column of element ids in the narrow layout. -/
def elementIdColumn : String := "element_id"

/-- The column of values in the narrow layout and in side tables. -/
def valueColumn : String := "metadata_value"

/-- A set of product ids. -/
inductive Selection
  | ofType (typeId : String)
  | entries (table elementId : String) (comparisons : List Comparison)
  | listed (table : String) (comparisons : List Comparison)
  | column (table column : String) (comparisons : List Comparison)
  | compound (operator : Junction) (parts : List Selection)
  | ofTypeExcept (typeId : String) (excluded : Selection)
  deriving Repr, Inhabited

namespace Selection

/-! ## Meaning -/

/-- A row has a cell in a column that passes comparisons. -/
def cellPasses (r : Row) (column : String) (comparisons : List Comparison) : Bool :=
  if Table.sameName column productColumn then passesAsNumber comparisons r.product
  else
    match r.cell? column with
    | some value => passes comparisons value
    | none => false

mutual

/-- The product id belongs to the set. -/
def selects (db : Database) (id : Int) : Selection → Bool
  | .ofType typeId => db.hasProduct typeId id
  | .entries table elementId comparisons =>
    (db.rows table).any fun r => r.product == id && r.cell? elementIdColumn == some elementId &&
      cellPasses r valueColumn comparisons
  | .listed table comparisons =>
    (db.rows table).any fun r => r.product == id && cellPasses r valueColumn comparisons
  | .column table name comparisons =>
    (db.rows table).any fun r => r.product == id && cellPasses r name comparisons
  | .compound .all parts => allSelect db id parts
  | .compound .any parts => anySelects db id parts
  | .ofTypeExcept typeId excluded => db.hasProduct typeId id && !selects db id excluded

/-- The product id belongs to all of the sets. -/
def allSelect (db : Database) (id : Int) : List Selection → Bool
  | [] => true
  | s :: rest => selects db id s && allSelect db id rest

/-- The product id belongs to one of the sets. -/
def anySelects (db : Database) (id : Int) : List Selection → Bool
  | [] => false
  | s :: rest => selects db id s || anySelects db id rest

end

/-! ## Spelling -/

/-- The word that combines statements. -/
def operatorWord : Junction → String
  | .all => "INTERSECT"
  | .any => "UNION"

/-- The statement that selects ids from a table where a condition holds. -/
def selectFrom (table condition : String) : String :=
  "SELECT product_id FROM " ++ table ++ " WHERE " ++ condition

mutual

/-- The statement of a selection; each parameter is a question mark. -/
def text : Selection → String
  | .ofType _ => selectFrom "products" "product_type_id = ?"
  | .entries table _ comparisons =>
    selectFrom (quoted table) ("element_id = ? AND " ++ conditionText valueColumn comparisons)
  | .listed table comparisons =>
    selectFrom (quoted table) (conditionText valueColumn comparisons)
  | .column table name comparisons =>
    selectFrom (quoted table) (conditionText (quoted name) comparisons)
  | .compound operator parts => Text.join (" " ++ operatorWord operator ++ " ") (partTexts parts)
  | .ofTypeExcept _ excluded =>
    selectFrom "products" ("product_type_id = ? AND product_id NOT IN (" ++ text excluded ++ ")")

/-- The statements of the parts of a compound. -/
def partTexts : List Selection → List String
  | [] => []
  | s :: rest => ("SELECT product_id FROM (" ++ text s ++ ")") :: partTexts rest

end

mutual

/-- The parameters of a statement from left to right. -/
def parameters : Selection → List String
  | .ofType typeId => [typeId]
  | .entries _ elementId comparisons => elementId :: comparisons.map Comparison.parameter
  | .listed _ comparisons | .column _ _ comparisons => comparisons.map Comparison.parameter
  | .compound _ parts => partParameters parts
  | .ofTypeExcept typeId excluded => typeId :: parameters excluded

/-- The parameters of the parts of a compound. -/
def partParameters : List Selection → List String
  | [] => []
  | s :: rest => parameters s ++ partParameters rest

end

end Selection

/-! ## Translation -/

/-- What the translation of criteria needs to know about a type. -/
structure Translation where
  layout : Layout
  typeId : String
  typeName : String
  tables : TypeTables
  /-- The ids of the declared elements by name. -/
  elementIds : List (String × String)

namespace Translation

/-- The selection of the products with a value of an element that passes comparisons. -/
def leaf (t : Translation) (element : String) (comparisons : List Comparison) :
    Except CatalogError Selection :=
  match t.elementIds.lookup element with
  | none => .error (.undeclaredElement element t.typeName)
  | some elementId =>
    match t.layout with
    | .narrow => .ok (.entries t.tables.metadata elementId comparisons)
    | .wide _ =>
      if t.layout.isVector element then
        return .listed (← t.tables.valuesOf element) comparisons
      else return .column t.tables.metadata (← usableName element) comparisons

mutual

/-- The selection of a criterion. -/
def selection (t : Translation) : Criteria → Except CatalogError Selection
  | .term element value => t.leaf element (equalTo value)
  | .range element bounds inclusive => t.leaf element (within bounds inclusive)
  | .junction operator members => return .compound operator (← selections t members)
  | .negation member => return .ofTypeExcept t.typeId (← selection t member)

/-- The selections of several criteria. -/
def selections (t : Translation) : List Criteria → Except CatalogError (List Selection)
  | [] => .ok []
  | c :: rest => return (← selection t c) :: (← selections t rest)

end

/-- The selection of a query; without criteria, the products of the type. -/
def ofQuery (t : Translation) (q : Query) : Except CatalogError Selection :=
  match q.asCriterion with
  | some c => t.selection c
  | none => .ok (.ofType t.typeId)

end Translation

end ArchiveCatalog.Relational

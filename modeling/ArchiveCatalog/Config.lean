import ArchiveCatalog.Config.Error
import ArchiveCatalog.Relational.Naming

namespace ArchiveCatalog

/-! # Configuration

A configuration names a backend and holds the settings of all of them. Settings are
checked together when a catalog is opened or a document is loaded.
-/

/-- How the relational backend lays out metadata. -/
inductive LayoutKind
  | narrow
  | wide
  deriving DecidableEq, Repr, Inhabited

/-- The name of a layout. -/
def LayoutKind.label : LayoutKind → String
  | .narrow => "narrow"
  | .wide => "wide"

/-- The layout of a name. -/
def LayoutKind.ofLabel? (name : String) : Option LayoutKind :=
  if name = "narrow" then some .narrow else if name = "wide" then some .wide else none

/-- The settings of a catalog. -/
structure Config where
  version : Nat
  backend : String
  pageSize : Nat
  databasePath : Option String
  layout : LayoutKind
  vectorElements : List String
  tableBases : List (String × String)
  indexPath : Option String
  heapBytes : Nat
  deriving DecidableEq, Repr

namespace Config

/-- The settings that hold where nothing is said. -/
def default : Config where
  version := 1
  backend := "sqlite"
  pageSize := 20
  databasePath := none
  layout := .narrow
  vectorElements := []
  tableBases := []
  indexPath := none
  heapBytes := 50000000

instance : Inhabited Config := ⟨default⟩

/-- The sizes that pages may have. -/
def pageLimit : Limit := ⟨"page_size", 1, 10000, "Pages hold at least one product"⟩

/-- The memory that the writer of an index may use. -/
def heapLimit : Limit :=
  ⟨"index.writer_heap_bytes", 15000000, 4000000000, "The index writer needs at least 15MB"⟩

/-- The value lies between the ends of a limit. -/
def checkLimit (limit : Limit) (value : Nat) : Except ConfigError Unit :=
  if limit.least ≤ value ∧ value ≤ limit.greatest then .ok () else .error (.range limit value)

/-- The settings fit together. -/
def validate (c : Config) : Except ConfigError Unit := do
  checkLimit pageLimit c.pageSize
  checkLimit heapLimit c.heapBytes
  if c.layout = .narrow ∧ !c.vectorElements.isEmpty then
    .error (.validation .vectorsWithoutColumns)
  else .ok ()

/-- The layout of the relational backend. -/
def relationalLayout (c : Config) : Relational.Layout :=
  match c.layout with
  | .narrow => .narrow
  | .wide => .wide c.vectorElements

end Config

end ArchiveCatalog

import ArchiveCatalog.Proofs.Reached
import ArchiveCatalog.Proofs.Relational.Retention
import ArchiveCatalog.Proofs.Search.Stages

namespace ArchiveCatalog

/-! # Searches in the backends

A relational catalog makes tables and columns ready before it selects, which leaves every row
where it was, and a service is only asked. So the types of a search do not disturb each other.
-/

/-! ## Tables -/

namespace Relational

open Database (Widens)
open ArchiveCatalog.Action (Keeps)

section Selections

variable {db db' : Database}

theorem selects_of_any (h : Widens db db') (name : String) (id : Int) (test : Row → Bool) :
    ((db'.rows name).any fun r => r.product == id && test r) =
      (db.rows name).any fun r => r.product == id && test r := by
  rw [any_rows_eq, any_rows_eq, h.rows name id trivial]

mutual

/-- In a wider database a selection selects the same products. -/
theorem selects_of_widens (h : Widens db db') (id : Int) :
    ∀ selection : Selection, selection.selects db' id = selection.selects db id
  | .ofType typeId => by
    rw [Selection.selects, Selection.selects, Database.hasProduct, Database.hasProduct, h.products]
  | .entries table elementId comparisons => by
    simp only [Selection.selects, Bool.and_assoc]
    exact selects_of_any h table id _
  | .listed table comparisons => selects_of_any h table id _
  | .column table name comparisons => selects_of_any h table id _
  | .compound .all parts => by
    rw [Selection.selects, Selection.selects]
    exact (select_of_widens h id parts).1
  | .compound .any parts => by
    rw [Selection.selects, Selection.selects]
    exact (select_of_widens h id parts).2
  | .ofTypeExcept typeId excluded => by
    rw [Selection.selects, Selection.selects, selects_of_widens h id excluded,
      Database.hasProduct, Database.hasProduct, h.products]

theorem select_of_widens (h : Widens db db') (id : Int) :
    ∀ parts : List Selection, Selection.allSelect db' id parts = Selection.allSelect db id parts ∧
      Selection.anySelects db' id parts = Selection.anySelects db id parts
  | [] => ⟨rfl, rfl⟩
  | first :: rest => by
    rcases select_of_widens h id rest with ⟨hall, hany⟩
    rw [Selection.allSelect, Selection.allSelect, Selection.anySelects, Selection.anySelects,
      selects_of_widens h id first, hall, hany]
    exact ⟨rfl, rfl⟩

end

end Selections

namespace Store

variable {s : Store} {start : Database}

end Store

end Relational

namespace Remote.Store

end Remote.Store

/-! ## Searches -/

namespace Passes

/-- A type of products that cover a time. -/
def pass : ProductType := ⟨"urn:pass", "PASS", "", "", "", .empty⟩

/-- A type of products that cover none. -/
def report : ProductType := ⟨"urn:report", "REPORT", "", "", "", .empty⟩

/-- Both types have a station, and passes have times. -/
def document : SchemaDocument where
  version := 1
  elements :=
    [⟨"urn:station", "Station", ""⟩, ⟨"urn:start", "Start", ""⟩, ⟨"urn:stop", "Stop", ""⟩]
  types := [⟨report, ["Station"]⟩, ⟨pass, ["Station", "Start", "Stop"]⟩]

/-- A catalog with tables in the narrow layout. -/
def relational : Relational.Store := ⟨.narrow, [], document.toSchema, 2⟩

/-- A catalog on a service. -/
def remote : Remote.Store := ⟨document.toSchema, 2⟩

/-- A product as it is stored. -/
def stored (id name : String) (t : ProductType) : Product :=
  ⟨some id, name, t, .flat, .received, [], Instant.ofMillis? 5⟩

/-- The earlier pass, over the station whose name is last. -/
def earlier : Hit where
  product := stored "1" "a" pass
  metadata := .ofPairs [("Station", "B"), ("Start", "10"), ("Stop", "20")]

/-- The later pass. -/
def later : Hit where
  product := stored "2" "b" pass
  metadata := .ofPairs [("Station", "A"), ("Start", "30"), ("Stop", "40")]

/-- The rows of two passes and a report. -/
def database : Relational.Database where
  products :=
    [⟨1, "a", .flat, .received, "urn:pass", 5⟩, ⟨2, "b", .flat, .received, "urn:pass", 5⟩,
      ⟨3, "c", .flat, .received, "urn:report", 5⟩]
  lastId := 3
  references := [("pass_reference", [])]
  tables := [("pass_metadata", ⟨false, [⟨"element_id", true⟩, ⟨"metadata_value", true⟩],
    [⟨1, [("element_id", "urn:station"), ("metadata_value", "B")]⟩,
      ⟨1, [("element_id", "urn:start"), ("metadata_value", "10")]⟩,
      ⟨1, [("element_id", "urn:stop"), ("metadata_value", "20")]⟩,
      ⟨2, [("element_id", "urn:station"), ("metadata_value", "A")]⟩,
      ⟨2, [("element_id", "urn:start"), ("metadata_value", "30")]⟩,
      ⟨2, [("element_id", "urn:stop"), ("metadata_value", "40")]⟩]⟩)]

/-- The record of a product with metadata. -/
def record (p : Product) (m : Metadata) : Metadata :=
  Remote.assign Remote.Key.receivedTime "5" (Remote.writeProduct p m)

/-- The records of the same products. -/
def service : Remote.Service where
  records := [("1", record earlier.product earlier.metadata),
    ("2", record later.product later.metadata), ("3", record (stored "3" "c" report) .empty)]

/-- The stations of passes that no more important pass overlaps. -/
def search : ComplexQuery where
  query := ⟨[.range "Start" (.start "1") true]⟩
  fields := some ["Station"]
  types := none
  sortBy := some "Station"
  format := some "$Station"
  filter := some ⟨"Start", "Stop", "Priority", .takeHighestPriority, 0⟩

/-- Both passes are answered. -/
def answered : List SearchResult := [later, earlier].map (Hit.result search)

end Passes

end ArchiveCatalog

import ArchiveCatalog.Action
import ArchiveCatalog.Query
import ArchiveCatalog.Schema.Lookup

namespace ArchiveCatalog.Remote

/-! # Catalog services

A service stores flat records under transaction ids and answers queries about them, the
latest ingest first. Replacing a record keeps its place. Each call to the service may fail,
whatever the calls before it did, and then it fails before it does anything.
-/

/-- The records in order of their first ingest. -/
structure Service where
  records : List (String × Metadata)
  deriving DecidableEq, Repr

namespace Service

/-- A service without records. -/
def empty : Service := ⟨[]⟩

instance : Inhabited Service := ⟨empty⟩

/-- The record of an id. -/
def record? (s : Service) (id : String) : Option Metadata := s.records.lookup id

/-- Stores a record under a new id. -/
def ingest (s : Service) (freshId : String) (record : Metadata) : Service :=
  ⟨s.records ++ [(freshId, record)]⟩

/-- Replaces the record of an id. -/
def replace (s : Service) (id : String) (record : Metadata) : Except CatalogError Service :=
  match s.record? id with
  | some _ => .ok ⟨s.records.map fun r => if r.1 = id then (id, record) else r⟩
  | none => .error (.notFound "Transaction" id)

/-- Removes the record of an id. -/
def erase (s : Service) (id : String) : Service := ⟨s.records.filter (·.1 != id)⟩

/-- The ids of the records that satisfy a query, latest first. -/
def matching (s : Service) (q : Query) : List String :=
  ((s.records.filter fun r => q.holds r.2).map Prod.fst).reverse

end Service

/-! ## Calls -/

/-- Asks a service. -/
def ask {α : Type} (o : Outage) (q : Question) (f : Service → α) : Action Service α :=
  .reading fun s => o.guard q (.ok (f s))

/-- Stores a record under a new id and answers the id. -/
def ingest (o : Outage) (freshId : String) (record : Metadata) : Action Service String := do
  .changing fun s => o.guard .ingest (.ok (s.ingest freshId record))
  return freshId

/-- Replaces the record of an id. -/
def replace (o : Outage) (id : String) (record : Metadata) : Action Service Unit :=
  .changing fun s => o.guard .replace (s.replace id record)

/-- Removes the record of an id and answers whether there was one. -/
def remove (o : Outage) (id : String) : Action Service Bool := do
  let present ← ask o .remove fun s => (s.record? id).isSome
  modify fun s => s.erase id
  return present

/-- The record of an id. -/
def record? (o : Outage) (id : String) : Action Service (Option Metadata) :=
  ask o .record fun s => s.record? id

/-- The ids of the records that satisfy a query. -/
def query (o : Outage) (q : Query) : Action Service (List String) :=
  ask o .query fun s => s.matching q

/-- A part of the ids of the records that satisfy a query, and their number. -/
def page (o : Outage) (q : Query) (offset limit : Nat) : Action Service (List String × Nat) :=
  ask o .page fun s => (((s.matching q).drop offset).take limit, (s.matching q).length)

/-- The number of records that satisfy a query. -/
def count (o : Outage) (q : Query) : Action Service Nat :=
  ask o .count fun s => (s.matching q).length

end ArchiveCatalog.Remote

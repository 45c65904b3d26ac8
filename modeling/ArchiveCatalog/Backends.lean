import ArchiveCatalog.Config
import ArchiveCatalog.Inverted.Store
import ArchiveCatalog.Relational.Store
import ArchiveCatalog.Remote.Store

namespace ArchiveCatalog

/-! # Backends

A backend opens a catalog on the storage with the settings of a configuration. A registry
knows backends by name; it checks a configuration before it opens the backend named there.
-/

/-- Everything that catalogs keep: a database, an index and the records of a service. -/
structure Storage where
  database : Relational.Database
  archive : Inverted.Archive
  service : Remote.Service

namespace Storage

/-- A storage without products. -/
def empty : Storage := ⟨.empty, .empty, .empty⟩

instance : Inhabited Storage := ⟨empty⟩

/-- The storage as it is found when it is opened again. -/
def reopened (s : Storage) : Storage := { s with archive := s.archive.reopened }

end Storage

/-- What backends are opened with. -/
structure Surroundings where
  schema : Schema
  /-- There is a service for remote catalogs. -/
  hasService : Bool
  /-- A database can be opened at a path. -/
  databaseOpens : String → Bool
  /-- A directory can be made at a path. -/
  directoryOpens : String → Bool

/-- Opens a catalog. -/
abbrev Backend := Config → Surroundings → Except ConfigError (Catalog Storage)

namespace Backend

/-- A backend fails because it cannot get at its storage. -/
def disconnected (message : String) : ConfigError :=
  .backend (.reported .connection message)

/-- The relational backend. -/
def relational : Backend := fun config around =>
  if (config.databasePath.map around.databaseOpens).getD true then
    let store : Relational.Store :=
      ⟨config.relationalLayout, config.tableBases, around.schema, config.pageSize⟩
    .ok (store.catalog.within Storage.database fun database s => { s with database })
  else .error (disconnected "cannot open catalog database")

/-- The index backend. -/
def index : Backend := fun config around =>
  if (config.indexPath.map around.directoryOpens).getD true then
    let store : Inverted.Store := ⟨around.schema, config.pageSize⟩
    .ok (store.catalog.within Storage.archive fun archive s => { s with archive })
  else .error (disconnected "cannot create index directory")

/-- A remote catalog with pages of a size. -/
def remoteCatalog (schema : Schema) (pageSize : Nat) : Catalog Storage :=
  let store : Remote.Store := ⟨schema, pageSize⟩
  store.catalog.within Storage.service fun service s => { s with service }

/-- The remote backend, which needs a service. -/
def remote : Backend := fun config around =>
  if around.hasService then .ok (remoteCatalog around.schema config.pageSize)
  else .error (.missingCollaborator "remote" "a CatalogService")

end Backend

/-- Backends by name. -/
structure BackendRegistry where
  backends : List (String × Backend)

namespace BackendRegistry

/-- No backends. -/
def empty : BackendRegistry := ⟨[]⟩

/-- Registers a backend in place of the one of the same name. -/
def register (r : BackendRegistry) (name : String) (backend : Backend) : BackendRegistry :=
  ⟨(name, backend) :: r.backends.filter (·.1 != name)⟩

/-- The names in ascending order. -/
def names (r : BackendRegistry) : List String :=
  (r.backends.map Prod.fst).mergeSort fun a b => decide (a ≤ b)

/-- The backends that are always there. -/
def standard : BackendRegistry :=
  ((empty.register "sqlite" .relational).register "index" .index).register "remote" .remote

/-- Opens the catalog of a configuration. -/
def build (r : BackendRegistry) (config : Config) (around : Surroundings) :
    Except ConfigError (Catalog Storage) := do
  config.validate
  match r.backends.lookup config.backend with
  | none => .error (.unknownBackend config.backend r.names)
  | some backend => backend config around

end BackendRegistry

end ArchiveCatalog

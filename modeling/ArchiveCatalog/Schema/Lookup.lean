import ArchiveCatalog.Query
import ArchiveCatalog.Schema.Registry

namespace ArchiveCatalog

/-! # Schema

A schema answers what catalogs ask about types and elements. Partial types are resolved by
id first and then by name. Each question to one of the two registries is a call that may
fail, whatever the calls before it did, and then it fails before anything else happens.
-/

/-! ## Calls to collaborators -/

/-- What a collaborator is asked. -/
inductive Question
  | typeById
  | typeByName
  | types
  | elementsOfType
  | elementById
  | elementByName
  | ingest
  | replace
  | remove
  | record
  | query
  | page
  | count
  deriving DecidableEq, Repr

/-- The collaborator that is asked. -/
def Question.collaborator : Question → Collaborator
  | .typeById | .typeByName | .types => .repository
  | .elementsOfType | .elementById | .elementByName => .validation
  | .ingest | .replace | .remove | .record | .query | .page | .count => .service

/-- Stages of an operation that ask the same question. -/
inductive Stage
  | translating
  | widening
  | loading
  | row (index : Nat)
  | merging
  | erasing
  | storing
  deriving DecidableEq, Repr

/-- A call of an operation: the stages in which it is made, the outer one first, and what is asked.
A write makes no call twice; a read makes the same calls for each product that it loads. -/
structure Call where
  stages : List Stage
  question : Question
  deriving DecidableEq, Repr

/-- Which calls to a collaborator fail. -/
structure Disruption where
  failsAt : Call → Bool

namespace Disruption

/-- All calls fail, or none. -/
def throughout (fails : Bool) : Disruption := ⟨fun _ => fails⟩

instance : Coe Bool Disruption := ⟨throughout⟩

/-- The disruption within a stage of an operation. -/
def inStage (d : Disruption) (stage : Stage) : Disruption :=
  ⟨fun call => d.failsAt { call with stages := stage :: call.stages }⟩

end Disruption

/-- The disruptions of the collaborators while an operation is performed. Each call may fail,
whatever becomes of the others. -/
structure Outage where
  validation : Disruption
  repository : Disruption
  service : Disruption

namespace Outage

/-- Everything answers. -/
def none : Outage := ⟨false, false, false⟩

instance : Inhabited Outage := ⟨none⟩

/-- How a collaborator fails. -/
def disruption (o : Outage) : Collaborator → Disruption
  | .validation => o.validation
  | .repository => o.repository
  | .service => o.service

/-- The disruptions within a stage of an operation. -/
def inStage (o : Outage) (stage : Stage) : Outage :=
  ⟨o.validation.inStage stage, o.repository.inStage stage, o.service.inStage stage⟩

/-- Lets an answer through unless the call fails. -/
def guard {α : Type} (o : Outage) (q : Question) (answer : Except CatalogError α) :
    Except CatalogError α :=
  if (o.disruption q.collaborator).failsAt ⟨[], q⟩ then .error (.offline q.collaborator) else answer

end Outage

/-- Elements and types, as far as they can be asked. -/
structure Schema where
  elements : ElementRegistry
  types : TypeRegistry
  outage : Outage
  deriving Inhabited

namespace Schema

/-- The schema within a stage of an operation. -/
def inStage (s : Schema) (stage : Stage) : Schema := { s with outage := s.outage.inStage stage }

/-! ## The registries -/

/-- The type registered under an id. -/
def registeredType (s : Schema) (id : String) : Except CatalogError ProductType :=
  s.outage.guard .typeById (s.types.byId id)

/-- The type registered under a name. -/
def registeredTypeNamed (s : Schema) (name : String) : Except CatalogError ProductType :=
  s.outage.guard .typeByName (s.types.byName name)

/-- The registered types in order. -/
def productTypes (s : Schema) : Except CatalogError (List ProductType) :=
  s.outage.guard .types (.ok s.types.types)

/-- The elements declared for a type, in order. -/
def elementsFor (s : Schema) (t : ProductType) : Except CatalogError (List Element) :=
  s.outage.guard .elementsOfType (.ok (s.elements.elementsOf t.id))

/-- The element registered under a name. -/
def registeredElementNamed (s : Schema) (name : String) : Except CatalogError Element :=
  s.outage.guard .elementByName
    (match s.elements.byName? name with
    | some e => .ok e
    | none => .error (.notFound "Element" name))

/-- The element registered under an id. -/
def registeredElement (s : Schema) (id : String) : Except CatalogError Element :=
  s.outage.guard .elementById
    (match s.elements.byId? id with
    | some e => .ok e
    | none => .error (.notFound "Element" id))

/-! ## Types -/

/-- Passes on an answer, but none if what was looked for is not there. -/
def orNone {α : Type} : Except CatalogError α → Except CatalogError (Option α)
  | .ok a => .ok (some a)
  | .error e => if e.isNotFound then .ok none else .error e

/-- The answer of a look-up under a key, none for the empty key. -/
def lookupUnless {α : Type} (key : String) (answer : Except CatalogError α) :
    Except CatalogError (Option α) :=
  if key = "" then .ok none else orNone answer

/-- The full definition of a partial type: by id, else by name. -/
def resolveType (s : Schema) (t : ProductType) : Except CatalogError ProductType := do
  match ← lookupUnless t.id (s.registeredType t.id) with
  | some found => .ok found
  | none =>
    match ← lookupUnless t.name (s.registeredTypeNamed t.name) with
    | some found => .ok found
    | none => .error (.unresolvedType t.id t.name)

/-- The type of an id. -/
def typeById (s : Schema) (id : String) : Except CatalogError ProductType :=
  s.resolveType (.withId id)

/-! ## Elements -/

/-- An element that is not there is an unknown one. -/
def asUnknown {α : Type} (key : String) : Except CatalogError α → Except CatalogError α
  | .ok a => .ok a
  | .error e => .error (if e.isNotFound then .unknownElement key else e)

/-- The element of a name. -/
def elementByName (s : Schema) (name : String) : Except CatalogError Element :=
  asUnknown name (s.registeredElementNamed name)

/-- The element of an id. -/
def elementById (s : Schema) (id : String) : Except CatalogError Element :=
  asUnknown id (s.registeredElement id)

/-- The element of a name, if the type declares it. -/
def elementForType (s : Schema) (t : ProductType) (name : String) :
    Except CatalogError Element := do
  match (← s.elementsFor t).find? (·.name == name) with
  | some e => .ok e
  | none => .error (.undeclaredElement name t.name)

/-- Every element a query mentions is declared for the type. -/
def checkQuery (s : Schema) (q : Query) (t : ProductType) : Except CatalogError Unit := do
  let names := (← s.elementsFor t).map Element.name
  match q.elements.find? (fun name => !names.contains name) with
  | none => .ok ()
  | some name => .error (.undeclaredElement name t.name)

/-- The entries of the elements declared for a type. -/
def declaredMetadata (s : Schema) (t : ProductType) (m : Metadata) :
    Except CatalogError Metadata := do
  return m.reduce ((← s.elementsFor t).map Element.name)

end Schema

end ArchiveCatalog

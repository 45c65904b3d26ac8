import ArchiveCatalog.Product

namespace ArchiveCatalog

/-! # Registries

The element registry knows the metadata elements and which of them each product type
declares, by name; the type registry knows the product types. Registering an element or
type under an id that is taken replaces the old one and puts the new one last.
-/

/-- A metadata element. -/
structure Element where
  id : String
  name : String
  description : String
  deriving DecidableEq, Repr, Inhabited

/-- Elements, and the names each product type declares, by type id. -/
structure ElementRegistry where
  elements : List Element
  declarations : List (String × List String)
  deriving DecidableEq, Repr, Inhabited

namespace ElementRegistry

/-- No elements and no declarations. -/
def empty : ElementRegistry := ⟨[], []⟩

/-- Registers an element. -/
def register (r : ElementRegistry) (e : Element) : ElementRegistry :=
  { r with elements := r.elements.filter (·.id != e.id) ++ [e] }

/-- The names declared for a type id. -/
def declared (r : ElementRegistry) (typeId : String) : List String :=
  (r.declarations.lookup typeId).getD []

/-- Appends a name unless the list has it. -/
def appendNew (names : List String) (name : String) : List String :=
  if name ∈ names then names else names ++ [name]

/-- Declares elements for a type id, after those declared before. -/
def declare (r : ElementRegistry) (typeId : String) (names : List String) : ElementRegistry :=
  { r with
    declarations := (typeId, names.foldl appendNew (r.declared typeId)) ::
      r.declarations.filter (·.1 != typeId) }

/-- The first element of a name. -/
def byName? (r : ElementRegistry) (name : String) : Option Element :=
  r.elements.find? (·.name == name)

/-- The element of an id. -/
def byId? (r : ElementRegistry) (id : String) : Option Element :=
  r.elements.find? (·.id == id)

/-- The elements declared for a type id, in order; names that no element has are left
out. -/
def elementsOf (r : ElementRegistry) (typeId : String) : List Element :=
  (r.declared typeId).filterMap r.byName?

end ElementRegistry

/-- The product types. -/
structure TypeRegistry where
  types : List ProductType
  deriving DecidableEq, Repr, Inhabited

namespace TypeRegistry

/-- No types. -/
def empty : TypeRegistry := ⟨[]⟩

/-- Registers a type. -/
def register (r : TypeRegistry) (t : ProductType) : TypeRegistry :=
  ⟨r.types.filter (·.id != t.id) ++ [t]⟩

/-- The type of an id. -/
def byId (r : TypeRegistry) (id : String) : Except CatalogError ProductType :=
  match r.types.find? (·.id == id) with
  | some t => .ok t
  | none => .error (.notFound "Product type" id)

/-- The only type of a name. -/
def byName (r : TypeRegistry) (name : String) : Except CatalogError ProductType :=
  match r.types.filter (·.name == name) with
  | [t] => .ok t
  | [] => .error (.notFound "Product type" name)
  | _ => .error (.ambiguousType name)

end TypeRegistry

end ArchiveCatalog

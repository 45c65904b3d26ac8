import ArchiveCatalog.Error
import ArchiveCatalog.Instant
import ArchiveCatalog.Metadata

namespace ArchiveCatalog

/-! # Products

A product is a named, typed unit of archived data with references to its files. A
product type may be partial, with only its id or only its name set.
-/

/-- How the files of a product are laid out. -/
inductive FileStructure
  | flat
  | hierarchical
  | stream
  deriving DecidableEq, Repr, Inhabited

namespace FileStructure

/-- The name of a file structure. -/
def label : FileStructure → String
  | .flat => "Flat"
  | .hierarchical => "Hierarchical"
  | .stream => "Stream"

/-- The file structure of a name. -/
def ofLabel (text : String) : Except CatalogError FileStructure :=
  if text = "Flat" then .ok .flat
  else if text = "Hierarchical" then .ok .hierarchical
  else if text = "Stream" then .ok .stream
  else .error (.unknownStructure text)

theorem ofLabel_label (s : FileStructure) : ofLabel s.label = .ok s := by
  cases s <;> simp [ofLabel, label]

end FileStructure

/-- How far the transfer of a product's files into the archive is. -/
inductive TransferStatus
  | transferring
  | received
  deriving DecidableEq, Repr, Inhabited

namespace TransferStatus

/-- The name of a transfer status. -/
def label : TransferStatus → String
  | .transferring => "TRANSFERRING"
  | .received => "RECEIVED"

/-- The transfer status of a name. -/
def ofLabel (text : String) : Except CatalogError TransferStatus :=
  if text = "TRANSFERRING" then .ok .transferring
  else if text = "RECEIVED" then .ok .received
  else .error (.unknownStatus text)

theorem ofLabel_label (s : TransferStatus) : ofLabel s.label = .ok s := by
  cases s <;> simp [ofLabel, label]

end TransferStatus

/-- A file of a product. `stored` is empty until the file is in the archive. -/
structure FileReference where
  original : String
  stored : String
  size : Nat
  mimeType : Option String
  deriving DecidableEq, Repr, Inhabited

/-- The file is in the archive. -/
def FileReference.isMaterialized (r : FileReference) : Bool := r.stored != ""

/-- A product type, possibly known only by its id or only by its name. -/
structure ProductType where
  id : String
  name : String
  description : String
  repositoryPath : String
  versioner : String
  metadata : Metadata
  deriving DecidableEq, Repr, Inhabited

namespace ProductType

/-- The partial type of an id. -/
def withId (id : String) : ProductType := ⟨id, "", "", "", "", .empty⟩

/-- The partial type of a name. -/
def named (name : String) : ProductType := ⟨"", name, "", "", "", .empty⟩

end ProductType

/-- A data product. The id is assigned when it is registered. -/
structure Product where
  id : Option String
  name : String
  productType : ProductType
  fileStructure : FileStructure
  status : TransferStatus
  references : List FileReference
  received : Option Instant
  deriving DecidableEq, Repr, Inhabited

namespace Product

/-- The id of a registered product. -/
def requireId (p : Product) : Except CatalogError String :=
  match p.id with
  | some id => .ok id
  | none => .error (.notFound "Product id" ("product '" ++ p.name ++ "' is not registered"))

/-- The product has no id yet. -/
def requireUnregistered (p : Product) : Except CatalogError Unit :=
  match p.id with
  | none => .ok ()
  | some id => .error (.alreadyRegistered p.name id)

/-- There is a reference and all of them are materialized. -/
def referencesMaterialized (p : Product) : Bool :=
  !p.references.isEmpty && p.references.all FileReference.isMaterialized

end Product

end ArchiveCatalog

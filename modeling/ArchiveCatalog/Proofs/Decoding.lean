import ArchiveCatalog.Proofs.Inverted.Decoding
import ArchiveCatalog.Proofs.Relational.Decoding
import ArchiveCatalog.Proofs.Remote.Decoding
import ArchiveCatalog.Proofs.Writers

namespace ArchiveCatalog

/-! # Types that are found again

A backend keeps of the type of a product the id alone, though a type may have been resolved by its
name. The id of a resolved type leads back to it, so a product is decoded with the type that it
was registered with. But an empty id stands for none wherever a type is looked up, so a type
that is registered without an id is resolved by its name and not found again.
-/

/-- What is resolved in the types of a document is found again, and what is registered is decoded
with its type until it is removed, if the type has an id. -/
structure SchemaDocument.FindsTypesAgain (d : SchemaDocument) : Prop where
  /-- Of a resolved type nothing is left to be resolved. -/
  resolved : ∀ partialType t, d.toSchema.resolveType partialType = .ok t →
    d.toSchema.resolveType t = .ok t
  /-- Under the empty id no type is found. -/
  identified : ∀ partialType t, d.toSchema.resolveType partialType = .ok t →
    (d.toSchema.typeById t.id = .ok t ↔ t.id ≠ "")
  /-- In tables, whatever their layout and names. -/
  relational : ∀ (s : Relational.Store) (before later : List Operation) (r : Registration)
    (p stored : Product) (db : Relational.Database), s.schema = d.toSchema →
    (s.catalog.add r p).run (s.catalog.after .empty before) = (.ok stored, db) →
    stored.productType.id ≠ "" →
    (∀ q, .remove q ∈ later → Relational.Store.numberOf q ≠ Relational.Store.numberOf stored) →
    d.toSchema.resolveType p.productType = .ok stored.productType ∧
      s.catalog.FindsAgain (s.catalog.after db later) stored
  /-- In an index, where an incomplete product is not found but waits with its type. -/
  inverted : ∀ (s : Inverted.Store) (before later : List Operation) (r : Registration)
    (p stored : Product) (a : Inverted.Archive), s.schema = d.toSchema →
    (freshIds (before ++ .add r p :: later)).Nodup →
    (s.catalog.add r p).run (s.catalog.after .empty before) = (.ok stored, a) →
    stored.productType.id ≠ "" → (∀ q, .remove q ∈ later → q.id ≠ stored.id) →
    d.toSchema.resolveType p.productType = .ok stored.productType ∧
      (s.catalog.FindsAgain (s.catalog.after a later) stored ∨
        Inverted.Store.Waits (s.catalog.after a later) stored)
  /-- On a service. -/
  remote : ∀ (s : Remote.Store) (before later : List Operation) (r : Registration)
    (p stored : Product) (service : Remote.Service), s.schema = d.toSchema →
    (freshIds (before ++ .add r p :: later)).Nodup →
    (∀ op ∈ .add r p :: later, Remote.Store.FitsWords op) →
    (s.catalog.add r p).run (s.catalog.after .empty before) = (.ok stored, service) →
    stored.productType.id ≠ "" → (∀ q, .remove q ∈ later → q.id ≠ stored.id) →
    d.toSchema.resolveType p.productType = .ok stored.productType ∧
      s.catalog.FindsAgain (s.catalog.after service later) stored

/-- Whatever types a document registers, a resolved type with an id is found again. -/
theorem resolved_types_found_again (d : SchemaDocument) : d.FindsTypesAgain where
  resolved _ _ hresolved := (Schema.regular_toSchema d).resolveType_of_resolveType hresolved
  identified _ _ hresolved := (Schema.regular_toSchema d).typeById_iff_of_resolveType hresolved
  relational := by
    intro s before later r p stored db hschema hadd hid hkept
    have hregular : s.schema.Regular := hschema ▸ Schema.regular_toSchema d
    rw [← hschema]
    exact Relational.Store.findsAgain_of_run_add hregular hadd hid hkept
  inverted := by
    intro s before later r p stored a hschema hfresh hadd hid hkept
    have hregular : s.schema.Regular := hschema ▸ Schema.regular_toSchema d
    rw [← hschema]
    exact Inverted.Store.findsAgain_or_waits_of_run_add hregular hfresh hadd hid hkept
  remote := by
    intro s before later r p stored service hschema hfresh hfits hadd hid hkept
    have hregular : s.schema.Regular := hschema ▸ Schema.regular_toSchema d
    rw [← hschema]
    exact Remote.Store.findsAgain_of_run_add hregular hfresh hfits hadd hid hkept

/-! ## A type that is named -/

namespace Granules

/-- A granule whose type is given by name, under an id that is not registered. -/
def named : Product :=
  { product "a" with productType := ⟨"urn:former", "GRANULE", "", "", "", .empty⟩ }

/-- Afterwards it is given metadata, another granule is registered, and a third is removed. -/
def later : List Operation :=
  [.addMetadata (.ofPairs [("Station", "A")]) stored, .add ⟨"2", 6⟩ (product "b"),
    .remove { product "c" with id := some "3" }]

/-- A database in which the granule has been registered. -/
def database : Relational.Database := ((relational.catalog.add ⟨"1", 5⟩ named).run .empty).2

/-- An archive in which the granule waits for metadata. -/
def archive : Inverted.Archive := ((inverted.catalog.add ⟨"1", 5⟩ named).run .empty).2

/-- A service with the record of the granule. -/
def service : Remote.Service := ((remote.catalog.add ⟨"1", 5⟩ named).run .empty).2

theorem removed_later {q : Product} (hq : .remove q ∈ later) :
    q = { product "c" with id := some "3" } := by
  simpa [later] using hq

theorem fits_later : ∀ op ∈ .add ⟨"1", 5⟩ named :: later, Remote.Store.FitsWords op := by
  simp [named, later, product, Remote.Store.FitsWords, Text.fitsInt64, Json.CountsSize,
    Json.greatestNatural]

end Granules

/-- The granule is decoded with the type that its name was resolved to. -/
theorem named_granule_found_again :
    Granules.document.toSchema.resolveType Granules.granule = .ok Granules.granule ∧
    Granules.document.toSchema.typeById "urn:granule" = .ok Granules.granule ∧
    Granules.relational.catalog.FindsAgain
      (Granules.relational.catalog.after Granules.database Granules.later) Granules.stored ∧
    Granules.inverted.catalog.FindsAgain
      (Granules.inverted.catalog.after Granules.archive Granules.later) Granules.stored ∧
    Granules.remote.catalog.FindsAgain
      (Granules.remote.catalog.after Granules.service Granules.later) Granules.stored := by
  have hagain := resolved_types_found_again Granules.document
  have hresolved : Granules.document.toSchema.resolveType Granules.named.productType =
      .ok Granules.granule := by decide +kernel
  have hfresh : (freshIds ([] ++ .add ⟨"1", 5⟩ Granules.named :: Granules.later)).Nodup := by
    decide
  have hkept : ∀ q, .remove q ∈ Granules.later → q.id ≠ Granules.stored.id := by
    intro q hq
    rw [Granules.removed_later hq]
    decide
  refine ⟨hagain.resolved _ _ hresolved, (hagain.identified _ _ hresolved).2 (by decide), ?_, ?_,
    ?_⟩
  · refine (hagain.relational Granules.relational [] Granules.later ⟨"1", 5⟩ Granules.named
      Granules.stored Granules.database rfl (Prod.ext (by decide +kernel) rfl) (by decide) ?_).2
    intro q hq
    rw [Granules.removed_later hq]
    decide +kernel
  · rcases (hagain.inverted Granules.inverted [] Granules.later ⟨"1", 5⟩ Granules.named
      Granules.stored Granules.archive rfl hfresh (Prod.ext (by decide +kernel) rfl) (by decide)
      hkept).2 with hfound | ⟨id, q, hid, hpending, -, -⟩
    · exact hfound
    · -- the granule has been completed, so it waits no more
      cases hid
      have hnone : (Granules.inverted.catalog.after Granules.archive
          Granules.later).cache.pending? "1" = none := by decide +kernel
      cases hnone.symm.trans hpending
  · exact (hagain.remote Granules.remote [] Granules.later ⟨"1", 5⟩ Granules.named
      Granules.stored Granules.service rfl hfresh Granules.fits_later
      (Prod.ext (by decide +kernel) rfl) (by decide) hkept).2

/-! ## A type that has no id -/

namespace Nameless

/-- The catalog of the type with tables in the narrow layout. -/
def narrow : Relational.Store := ⟨.narrow, [], document.toSchema, 2⟩

/-- A database in which a product of the type has been registered. -/
def database : Relational.Database := ((narrow.catalog.add ⟨"1", 5⟩ product).run .empty).2

end Nameless

/-- A type without an id is resolved by its name, but what is registered with it is not decoded. -/
theorem nameless_type_lost :
    Nameless.document.toSchema.resolveType Inverted.Store.nameless =
      .ok Inverted.Store.nameless ∧
    Nameless.document.toSchema.typeById Inverted.Store.nameless.id =
      .error (.unresolvedType "" "") ∧
    ((Nameless.narrow.catalog.add ⟨"1", 5⟩ Nameless.product).run .empty).1 = .ok Nameless.stored ∧
    ((Nameless.narrow.catalog.byId "1").run Nameless.database).1 =
      .error (.unresolvedType "" "") ∧
    ¬ ∀ (d : SchemaDocument) (partialType t : ProductType),
      d.toSchema.resolveType partialType = .ok t → d.toSchema.typeById t.id = .ok t := by
  have hresolved : Nameless.document.toSchema.resolveType Inverted.Store.nameless =
      .ok Inverted.Store.nameless := by decide +kernel
  have hlost : Nameless.document.toSchema.typeById Inverted.Store.nameless.id =
      .error (.unresolvedType "" "") := by decide +kernel
  refine ⟨hresolved, hlost, by decide +kernel, by decide +kernel, fun hagain => ?_⟩
  cases hlost.symm.trans (hagain Nameless.document _ _ hresolved)

end ArchiveCatalog

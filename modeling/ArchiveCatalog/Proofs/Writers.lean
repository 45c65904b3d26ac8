import ArchiveCatalog.Proofs.Inverted.Writers
import ArchiveCatalog.Proofs.Relational.Writers
import ArchiveCatalog.Proofs.Remote.Writers

namespace ArchiveCatalog

/-! # Writers of one product

Each backend rewrites all metadata of a product when some are added or removed: its rows, its
document, its record. Still a call drops no value that it does not name and brings none back, so
writers that touch no value in common lose nothing.
-/

/-- Writers of one product that touch no value in common lose nothing, whatever history led to the
product and in whatever order they take turns. In an index the product must be complete but for its
metadata and have a type that is found again. -/
theorem interleaved_writers_lose_nothing {ι : Type} [DecidableEq ι] (id : String)
    (copies : ι → Product) (calls : ι → List Edit) (hcopies : ∀ w, (copies w).id = some id)
    (hapart : Apart calls) :
    (∀ (s : Relational.Store) (history : List Operation), s.Regular → s.layout = .narrow →
      s.catalog.LosesNothing (s.catalog.after .empty history) id
        (s.addedTo (s.catalog.after .empty history) id) copies calls ∧
      ∀ stored, ((s.catalog.byId id).run (s.catalog.after .empty history)).1 = .ok stored →
        s.addedTo (s.catalog.after .empty history) id =
          s.schema.declaredNames stored.productType ∧
        s.catalog.Succeeds (s.catalog.after .empty history) id copies calls) ∧
    (∀ (s : Inverted.Store) (history : List Operation) (stored : Inverted.Pending),
      s.schema.Regular → (freshIds history).Nodup →
      (∀ op ∈ history, Inverted.Store.ClockInRange op) →
      ((s.currentPending id).run (s.catalog.after .empty history)).1 = .ok stored →
      stored.product.referencesMaterialized = true → stored.product.productType.id ≠ "" →
      s.catalog.LosesNothing (s.catalog.after .empty history) id
        (s.schema.declaredNames stored.product.productType) copies calls ∧
      s.catalog.Succeeds (s.catalog.after .empty history) id copies calls) ∧
    (∀ (s : Remote.Store) (history : List Operation), s.schema.Regular →
      (freshIds history).Nodup →
      s.catalog.LosesNothing (s.catalog.after .empty history) id
        (s.addedTo (s.catalog.after .empty history) id) copies calls ∧
      ∀ stored, ((s.catalog.byId id).run (s.catalog.after .empty history)).1 = .ok stored →
        s.addedTo (s.catalog.after .empty history) id = s.addedNames stored.productType ∧
        s.catalog.Succeeds (s.catalog.after .empty history) id copies calls) := by
  refine ⟨?_, ?_, ?_⟩
  · intro s history hs hlayout
    have hsound := Relational.Store.isSound_after hs history
    exact ⟨Relational.Store.losesNothing hs hlayout hsound id hcopies hapart,
      fun stored hstored => Relational.Store.succeeds hs hlayout hsound hstored hcopies⟩
  · intro s history stored hschema hfresh hclock hstored hmaterialized htype
    rcases Inverted.Store.exists_follows_after hschema hfresh hclock
      Inverted.Store.follows_empty Inverted.Store.keepsRegistered_empty with ⟨⟨acc, hfollows⟩, h⟩
    exact Inverted.Store.losesNothing hschema hfollows h hstored hmaterialized htype hcopies hapart
  · intro s history hschema hfresh
    have hkeys : (s.catalog.after .empty history).ids.Nodup :=
      Remote.Store.nodup_ids_after hschema hfresh
    exact ⟨Remote.Store.losesNothing hschema hkeys id hcopies hapart,
      fun stored hstored => Remote.Store.succeeds hschema hkeys hstored hcopies⟩

/-! ## Two writers -/

namespace Granules

/-- The first granule as it is stored. -/
def stored : Product :=
  { product "a" with id := some "1", received := Instant.ofMillis? 5 }

/-- One writer corrects the band, the other one the station. -/
def corrections : Bool → List Edit
  | true => [.remove (.ofPairs [("Band", "x")]), .add (.ofPairs [("Band", "y"), ("Band", "z")])]
  | false => [.add (.ofPairs [("Station", "B")]), .remove (.ofPairs [("Station", "A")])]

/-- The catalog with tables in the narrow layout. -/
def narrow : Relational.Store := relational.inLayout .narrow

theorem apart_corrections : Apart corrections := by
  unfold Apart
  decide +kernel

end Granules

/-- Two writers correct a granule in every backend. -/
theorem granule_corrected_by_two_writers :
    (∀ w : Bool, ((fun _ => Granules.stored : Bool → Product) w).id = some "1") ∧
    Apart Granules.corrections ∧
    (Granules.narrow.catalog.LosesNothing (Granules.narrow.catalog.after .empty Granules.history)
      "1" ["Station", "Band"] (fun _ => Granules.stored) Granules.corrections ∧
    Granules.narrow.catalog.Succeeds (Granules.narrow.catalog.after .empty Granules.history)
      "1" (fun _ => Granules.stored) Granules.corrections) ∧
    (Granules.inverted.catalog.LosesNothing
      (Granules.inverted.catalog.after .empty Granules.history)
      "1" ["Station", "Band"] (fun _ => Granules.stored) Granules.corrections ∧
    Granules.inverted.catalog.Succeeds (Granules.inverted.catalog.after .empty Granules.history)
      "1" (fun _ => Granules.stored) Granules.corrections) ∧
    Granules.remote.catalog.LosesNothing (Granules.remote.catalog.after .empty Granules.history)
      "1" ["Station", "Band"] (fun _ => Granules.stored) Granules.corrections ∧
    Granules.remote.catalog.Succeeds (Granules.remote.catalog.after .empty Granules.history)
      "1" (fun _ => Granules.stored) Granules.corrections := by
  have hcopies : ∀ w : Bool, ((fun _ => Granules.stored : Bool → Product) w).id = some "1" :=
    fun _ => rfl
  rcases interleaved_writers_lose_nothing "1" (fun _ => Granules.stored) Granules.corrections
    hcopies Granules.apart_corrections with ⟨hrelational, hinverted, hremote⟩
  have hnames : Granules.document.toSchema.declaredNames Granules.granule =
      ["Station", "Band"] := by decide +kernel
  have hadded : Granules.remote.addedNames Granules.granule = ["Station", "Band"] := by
    decide +kernel
  refine ⟨hcopies, Granules.apart_corrections, ?_, ?_, ?_⟩
  · rcases hrelational Granules.narrow Granules.history
      (Relational.Store.regular_inLayout_narrow Granules.regular_schema) rfl with ⟨hlost, hdone⟩
    rcases hdone Granules.stored (by decide +kernel) with ⟨hkept, hsucceeds⟩
    exact ⟨(hkept.trans hnames) ▸ hlost, hsucceeds⟩
  · have hlost := hinverted Granules.inverted Granules.history
      ⟨Granules.stored, some (.ofPairs [("Station", "A"), ("Band", "x")]), true⟩
      Granules.regular_schema Granules.fresh_history Granules.clock_history
      (by decide +kernel) (by decide) (by decide)
    exact hnames ▸ hlost
  · rcases hremote Granules.remote Granules.history Granules.regular_schema Granules.fresh_history
      with ⟨hlost, hdone⟩
    rcases hdone Granules.stored (by decide +kernel) with ⟨hkept, hsucceeds⟩
    exact ⟨(hkept.trans hadded) ▸ hlost, hsucceeds⟩

/-! ## A type without an id -/

namespace Nameless

open Inverted.Store (nameless)

/-- The type declares one element. -/
def document : SchemaDocument where
  version := 1
  elements := [⟨"urn:band", "Band", ""⟩]
  types := [⟨nameless, ["Band"]⟩]

/-- The index catalog of the type. -/
def inverted : Inverted.Store := ⟨document.toSchema, 2⟩

/-- A product with a file in the archive. -/
def product : Product := ⟨none, "a", nameless, .flat, .received, [⟨"a", "b", 7, none⟩], none⟩

/-- The product as it waits for metadata. -/
def stored : Product := { product with id := some "1", received := Instant.ofMillis? 5 }

/-- The product is registered. -/
def archive : Inverted.Archive := inverted.catalog.after .empty [.add ⟨"1", 5⟩ product]

/-- Each writer adds one value. -/
def additions : Bool → List Edit
  | true => [.add (.ofPairs [("Band", "x")])]
  | false => [.add (.ofPairs [("Band", "y")])]

/-- The two orders. -/
def schedule (first : Bool) : List (Bool × Edit) :=
  (additions first).map (first, ·) ++ (additions !first).map (!first, ·)

/-- What is read in the end when one of the writers goes first. -/
def readAfter (first : Bool) : List String :=
  inverted.catalog.valuesRead
    (inverted.catalog.after archive (Catalog.turns (fun _ => stored) (schedule first))) stored "Band"

end Nameless

/-- In an index the type of a product that is indexed is found again by its id, which a type may
lack. Then the writer that goes first decides what is stored. -/
theorem writers_lose_for_empty_type_id :
    Nameless.inverted.schema.Regular ∧ Nameless.stored.referencesMaterialized = true ∧
    Apart Nameless.additions ∧
    ((Nameless.inverted.currentPending "1").run Nameless.archive).1 =
      .ok (.ofProduct Nameless.stored) ∧
    (∀ first, Interleaves Nameless.additions (Nameless.schedule first)) ∧
    Nameless.readAfter true = ["x"] ∧ Nameless.readAfter false = ["y"] ∧
    ¬ ∀ schedule schedule', Interleaves Nameless.additions schedule →
      Interleaves Nameless.additions schedule' → ∀ element value,
      (value ∈ Nameless.inverted.catalog.valuesRead (Nameless.inverted.catalog.after
          Nameless.archive (Catalog.turns (fun _ => Nameless.stored) schedule))
          Nameless.stored element ↔
        value ∈ Nameless.inverted.catalog.valuesRead (Nameless.inverted.catalog.after
          Nameless.archive (Catalog.turns (fun _ => Nameless.stored) schedule'))
          Nameless.stored element) := by
  have hschedule : ∀ first, Interleaves Nameless.additions (Nameless.schedule first) := by
    unfold Interleaves
    decide +kernel
  have hx : Nameless.readAfter true = ["x"] := by decide +kernel
  have hy : Nameless.readAfter false = ["y"] := by decide +kernel
  refine ⟨Schema.regular_toSchema _, by decide, ?_, by decide +kernel, hschedule, hx, hy, ?_⟩
  · unfold Apart
    decide +kernel
  · intro hsame
    have hmem : "x" ∈ Nameless.readAfter true ↔ "x" ∈ Nameless.readAfter false :=
      hsame _ _ (hschedule true) (hschedule false) "Band" "x"
    rw [hx, hy] at hmem
    exact absurd (hmem.1 (by decide)) (by decide)

end ArchiveCatalog

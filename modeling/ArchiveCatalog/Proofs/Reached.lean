import ArchiveCatalog.Proofs.Failure
import ArchiveCatalog.Proofs.Inverted.Refinement
import ArchiveCatalog.Proofs.Relational.Layouts
import ArchiveCatalog.Proofs.Remote.Refinement

namespace ArchiveCatalog

/-! # States that are reached

What a history leaves stands for a ledger in every backend, also where the catalog departs from
that ledger on the way: columns keep single values, tables that cannot be named refuse products,
and records have no place for metadata with a reserved name. What is true of all states that
stand for a ledger is therefore true of all states that are reached.
-/

namespace Relational.Store

open Database (Widens)
open ArchiveCatalog.Action (Keeps)

variable {s : Store} {db db' : Database} {st : LedgerState Int} {p : Product}

/-- The database stands for some ledger. -/
def IsStanding (s : Store) (db : Database) : Prop := ∃ st, s.Stands db st

theorem Sound.isStanding {contents : Int → Contents} (h : s.Sound db contents)
    (htyped : s.Typed db) : s.IsStanding db := ⟨_, contents, h, htyped, rfl⟩

/-- Products whose types are those of products that were there are of types that are found. -/
theorem Typed.of_rows (h : s.Typed db)
    (hrows : ∀ row ∈ db'.products, ∃ old ∈ db.products, row.typeId = old.typeId) :
    s.Typed db' := by
  intro row hrow
  rcases hrows row hrow with ⟨old, hold, htype⟩
  rcases h old hold with ⟨t, ht⟩
  exact ⟨t, htype ▸ ht⟩

/-- A write that leaves the types of products alone keeps databases standing. -/
theorem Makes.keeps_isStanding {write : Action Database Unit}
    {rows : Int → List ProductRow → List ProductRow} {held : ProductType → Contents → Contents}
    (h : s.Makes write p rows held)
    (hrows : ∀ id before, ∀ row ∈ rows id before, ∃ old ∈ before, row.typeId = old.typeId) :
    Keeps s.IsStanding write := by
  rintro db ⟨-, contents, hsound, htyped, -⟩
  rcases h db contents hsound with ⟨herror, hok⟩
  cases htarget : s.target db p with
  | error e =>
    rw [herror e htarget]
    exact hsound.isStanding htyped
  | ok found =>
    rcases hok found.1 found.2 htarget with ⟨db', hrun, hproducts, -, hsound'⟩
    rw [hrun]
    exact hsound'.isStanding (htyped.of_rows (hproducts ▸ hrows found.1 db.products))

theorem keeps_isStanding_add (hs : s.Regular) (hids : ∀ t ∈ s.schema.types.types, t.id ≠ "")
    (r : Registration) (p : Product) : Keeps s.IsStanding (s.add r p) := by
  rintro db ⟨-, contents, h, htyped, -⟩
  cases hok : s.registrable p with
  | error e =>
    rw [run_add_error hok]
    exact h.isStanding htyped
  | ok found =>
    by_cases hroom : db.lastId < Database.greatestId
    · rcases h.run_add hs hok hroom (r := r) with ⟨db', hrun, hproducts, -, hsound⟩
      rw [hrun]
      apply hsound.isStanding
      intro row hrow
      rw [hproducts] at hrow
      rcases List.mem_append.1 hrow with hold | hnew
      · exact htyped row hold
      · -- the type of the new product is registered under its id
        have hmem := hs.schema.mem_of_resolveType (registrable_eq_ok hok).2.1
        rw [List.mem_singleton.1 hnew]
        exact ⟨found.1, hs.schema.typeById_eq_ok_iff.2
          (hs.schema.typeOf?_of_mem hmem (hids found.1 hmem))⟩
    · rw [h.run_add_full hs hok hroom]
      exact h.isStanding htyped

theorem keeps_isStanding_setStatus (p : Product) : Keeps s.IsStanding (setStatus p) := by
  rintro db ⟨-, contents, h, htyped, -⟩
  rw [run_setStatus]
  split
  · exact h.isStanding htyped
  · split
    · exact h.isStanding htyped
    · have hkept : ∀ r : ProductRow, ({ r with status := p.status } : ProductRow).id = r.id ∧
          ({ r with status := p.status } : ProductRow).typeId = r.typeId := fun _ => ⟨rfl, rfl⟩
      exact ⟨_, contents, h.updateProduct hkept, htyped.of_updateProduct hkept rfl, rfl⟩

/-- Selecting makes tables ready at most. -/
theorem keeps_stands_selecting (hs : s.Regular) (q : Query) (u : ProductType) :
    Keeps (fun db => s.Stands db st) (s.selecting q u) := by
  rintro db ⟨contents, h, htyped, rfl⟩
  rcases h.run_selecting hs q u with ⟨db', hrun, hwidens, hsound⟩
  rw [hrun]
  exact stands_widen htyped hwidens hsound

/-- After a read the database stands for the same ledger. -/
theorem keeps_stands_read (hs : s.Regular) {op : Operation} (hread : op.isWrite = false) :
    Keeps (fun db => s.Stands db st) (s.catalog.perform op) := by
  cases op with
  | add | modify | remove | setStatus | addReferences | addMetadata | removeMetadata => cases hread
  | query q u =>
    have hquery : Keeps (fun db => s.Stands db st) (s.query q u) := by
      rw [query_eq]
      exact (keeps_stands_selecting hs q u).answer _
    exact hquery.answer _
  | page q u number =>
    have hpage : Keeps (fun db => s.Stands db st) (s.page q u number) := by
      rw [page_eq_selecting]
      exact (keeps_stands_selecting hs q u).bind fun rows => (silent_pageOf number rows).keeps
    exact hpage.answer _
  | byId | byName | references | products | productsOfType | metadata | newest | newestOfType
  | count => exact (silent_perform rfl (by simp) (by simp)).keeps

theorem keeps_isStanding_perform (hs : s.Regular) (hids : ∀ t ∈ s.schema.types.types, t.id ≠ "")
    (op : Operation) : Keeps s.IsStanding (s.catalog.perform op) := by
  have hsame : ∀ (id : Int) (before : List ProductRow), ∀ row ∈ before,
      ∃ old ∈ before, row.typeId = old.typeId := fun _ _ row hrow => ⟨row, hrow, rfl⟩
  cases op with
  | add r p => exact (keeps_isStanding_add hs hids r p).answer _
  | modify p =>
    refine ((makes_modify hs p).keeps_isStanding ?_).answer _
    intro id before row hrow
    rcases List.mem_map.1 hrow with ⟨old, hold, rfl⟩
    refine ⟨old, hold, ?_⟩
    split <;> rfl
  | remove p =>
    refine ((makes_remove hs p).keeps_isStanding ?_).answer _
    exact fun id before row hrow => ⟨row, (List.mem_filter.1 hrow).1, rfl⟩
  | setStatus p => exact (keeps_isStanding_setStatus p).answer _
  | addReferences p => exact ((makes_addReferences hs p).keeps_isStanding hsame).answer _
  | addMetadata m p => exact ((makes_addMetadata hs m p).keeps_isStanding hsame).answer _
  | removeMetadata m p => exact ((makes_removeMetadata hs m p).keeps_isStanding hsame).answer _
  | byId | byName | references | products | productsOfType | metadata | query | page | newest
  | newestOfType | count =>
    rintro db ⟨st, h⟩
    exact ⟨st, keeps_stands_read hs rfl db h⟩

/-- In either layout a catalog fills databases that stand for a ledger. -/
theorem isStanding_after (hs : s.Regular) (hids : ∀ t ∈ s.schema.types.types, t.id ≠ "")
    (history : List Operation) : s.IsStanding (s.catalog.after .empty history) := by
  have hinit : s.IsStanding .empty := ⟨_, stands_empty⟩
  exact Catalog.after_induction (fun op _ => keeps_isStanding_perform hs hids op) hinit

/-- A ledger has no more entries than there are ids. -/
theorem Stands.length_le (h : s.Stands db st) : st.entries.length ≤ Database.greatestId := by
  rcases h with ⟨contents, h, -, rfl⟩
  have hlength : (s.abstracted db contents).entries.length = db.products.length :=
    List.length_map _
  exact hlength.trans_le h.length_le

end Relational.Store

/-- After so many operations a ledger has so many entries at most. -/
theorem Ledger.length_after {κ : Type} [DecidableEq κ] (l : Ledger κ) (history : List Operation)
    (st : LedgerState κ) :
    (l.catalog.after st history).entries.length ≤ st.entries.length + history.length := by
  induction history generalizing st with
  | nil => exact Nat.le_refl _
  | cons op rest ih =>
    have hone := l.addsOne_perform op st
    have hrest := ih ((l.catalog.perform op).run st).2
    rw [Catalog.after, List.length_cons]
    omega

namespace Inverted.Store

variable {s : Store}

/-- An index catalog leaves an archive that stands for what its ledger leaves. -/
theorem stands_after (hschema : s.schema.Regular) (hids : ∀ t ∈ s.schema.types.types, t.id ≠ "")
    {history : List Operation} (hfresh : (freshIds history).Nodup)
    (hclock : ∀ op ∈ history, ClockInRange op) :
    s.Stands [] (s.catalog.after .empty history) (s.ledger.catalog.after .empty history) := by
  have hready : s.Ready history .empty .empty := ⟨hfresh, hclock, stands_empty⟩
  exact (Catalog.after_of_simulation (Ready.perform hschema hids) hready).stands

end Inverted.Store

namespace Remote.Store

variable {s : Store} {later : List String} {service : Service} {st : LedgerState String}

/-- Operations that are no writes only read. -/
theorem silent_perform {op : Operation} (hread : op.isWrite = false) :
    Action.Silent (s.catalog.perform op) := by
  have hload : ∀ id, Action.Silent (s.load id) := fun id =>
    (s.silent_storedRecord id).bind fun _ => Action.silent_ofExcept _
  have hloadAll : ∀ ids, Action.Silent (s.loadAll ids) := fun _ => Action.silent_mapM hload
  cases op with
  | add | modify | remove | setStatus | addReferences | addMetadata | removeMetadata => cases hread
  | byId id => exact (hload id).answer _
  | byName name =>
    refine ((Action.silent_reading _).bind fun ids => ?_).answer _
    split
    · exact Action.silent_throw _
    · exact hload _
    · exact Action.silent_throw _
  | references p =>
    exact ((Action.silent_ofExcept _).bind fun id => (hload id).answer _).answer _
  | products => exact ((Action.silent_reading _).bind fun ids => hloadAll ids).answer _
  | productsOfType u =>
    exact ((Action.silent_ofExcept _).bind fun _ =>
      (Action.silent_reading _).bind fun ids => hloadAll ids).answer _
  | metadata p =>
    exact ((Action.silent_ofExcept _).bind fun id => (s.silent_storedRecord id).answer _).answer _
  | query q u => exact ((Action.silent_ofExcept _).bind fun _ => Action.silent_reading _).answer _
  | page q u number =>
    refine ((Action.silent_ofExcept _).bind fun r => (Action.silent_reading _).bind fun hits =>
      (Action.silent_ofExcept _).bind fun window => ?_).answer _
    split
    · exact Action.silent_pure _
    · exact (Action.silent_reading _).bind fun _ => (hloadAll _).answer _
  | newest n => exact ((Action.silent_reading _).bind fun _ => hloadAll _).answer _
  | newestOfType n u =>
    exact ((Action.silent_ofExcept _).bind fun _ =>
      (Action.silent_reading _).bind fun _ => hloadAll _).answer _
  | count u =>
    exact ((Action.silent_ofExcept _).bind fun _ => Action.silent_reading _).answer _

/-- Every operation leaves a service that stands for a ledger of one more entry at most, whatever
the names of elements are. -/
theorem Stands.advance (hschema : s.schema.Regular) (hids : ∀ t ∈ s.schema.types.types, t.id ≠ "")
    {op : Operation} {rest : List Operation} (h : s.Stands (freshIds (op :: rest)) service st)
    (hfresh : (freshIds (op :: rest)).Nodup) (hfits : FitsWords op) :
    ∃ st', s.Stands (freshIds rest) ((s.catalog.perform op).run service).2 st' ∧
      st'.entries.length ≤ st.entries.length + 1 := by
  by_cases hplain : asksElements op = false
  · exact ⟨_, (h.perform_plain hschema hids hfresh hfits hplain).2, s.ledger.addsOne_perform op st⟩
  · cases op with
    | addMetadata m p =>
      -- reserved names are left out, which the ledger does not do by itself
      have hadded := (matches_addUnreserved hschema m (p := p)).answer (fun _ => Answer.done) _ _ h
      exact ⟨_, hadded.2, s.ledger.addsOne_perform (.addMetadata (withoutReserved m) p) st⟩
    | query q u =>
      have hsilent : Action.Silent (s.catalog.perform (.query q u)) := silent_perform rfl
      exact ⟨st, (hsilent service).symm ▸ h, Nat.le_succ _⟩
    | page q u number =>
      have hsilent : Action.Silent (s.catalog.perform (.page q u number)) := silent_perform rfl
      exact ⟨st, (hsilent service).symm ▸ h, Nat.le_succ _⟩
    | _ => exact absurd rfl hplain

theorem Stands.exists_after (hschema : s.schema.Regular)
    (hids : ∀ t ∈ s.schema.types.types, t.id ≠ "") {history : List Operation}
    (hfresh : (freshIds history).Nodup) (hfits : ∀ op ∈ history, FitsWords op)
    (h : s.Stands (freshIds history) service st) :
    ∃ st', s.Stands [] (s.catalog.after service history) st' ∧
      st'.entries.length ≤ st.entries.length + history.length := by
  induction history generalizing service st with
  | nil => exact ⟨st, h, Nat.le_refl _⟩
  | cons op rest ih =>
    rcases h.advance hschema hids hfresh (hfits op List.mem_cons_self) with
      ⟨st₁, hstands, hone⟩
    have hfits' := fun later hlater => hfits later (List.mem_cons_of_mem op hlater)
    rcases ih (nodup_freshIds_rest hfresh) hfits' hstands with ⟨st', hafter, hrest⟩
    refine ⟨st', hafter, ?_⟩
    rw [List.length_cons]
    omega

/-- A remote catalog leaves a service that stands for a ledger. -/
theorem exists_stands_after (hschema : s.schema.Regular)
    (hids : ∀ t ∈ s.schema.types.types, t.id ≠ "") {history : List Operation}
    (hfresh : (freshIds history).Nodup) (hfits : ∀ op ∈ history, FitsWords op) :
    ∃ st, s.Stands [] (s.catalog.after .empty history) st ∧
      st.entries.length ≤ history.length := by
  rcases Stands.exists_after hschema hids hfresh hfits stands_empty with ⟨st, hstands, hlength⟩
  refine ⟨st, hstands, ?_⟩
  have hnone : (LedgerState.empty : LedgerState String).entries.length = 0 := rfl
  omega

end Remote.Store

/-! ## Three granules -/

namespace Granules

/-- A type of products. -/
def granule : ProductType := ⟨"urn:granule", "GRANULE", "", "", "", .empty⟩

/-- The type has two elements. -/
def document : SchemaDocument where
  version := 1
  elements := [⟨"urn:station", "Station", ""⟩, ⟨"urn:band", "Band", ""⟩]
  types := [⟨granule, ["Station", "Band"]⟩]

/-- A catalog in the wide layout, with pages of two products. -/
def relational : Relational.Store := ⟨.wide ["Band"], [], document.toSchema, 2⟩

/-- A catalog that keeps an index, with pages of two products. -/
def inverted : Inverted.Store := ⟨document.toSchema, 2⟩

/-- A catalog on a service, with pages of two products. -/
def remote : Remote.Store := ⟨document.toSchema, 2⟩

/-- A product with a file in the archive, before it is registered. -/
def product (name : String) : Product :=
  ⟨none, name, granule, .flat, .received, [⟨"a", "b", 7, none⟩], none⟩

/-- Three products are registered, two of them at the same time, and given metadata. -/
def history : List Operation :=
  [.add ⟨"1", 5⟩ (product "a"), .add ⟨"2", 5⟩ (product "b"), .add ⟨"3", 6⟩ (product "c"),
    .addMetadata (.ofPairs [("Station", "A"), ("Band", "x")]) { product "a" with id := some "1" },
    .addMetadata (.ofPairs [("Band", "x"), ("Band", "y")]) { product "b" with id := some "2" },
    .addMetadata (.ofPairs [("Station", "B")]) { product "c" with id := some "3" }]

theorem regular_schema : document.toSchema.Regular := Schema.regular_toSchema document

theorem ids_schema : ∀ t ∈ document.toSchema.types.types, t.id ≠ "" := by decide +kernel

theorem regular_relational : relational.Regular := by
  refine ⟨regular_schema, fun _ => ⟨?_, ?_, ?_⟩⟩
  · decide +kernel
  · have hdistinct : ∀ t ∈ document.toSchema.types.types, ∀ u ∈ document.toSchema.types.types,
        ∀ a ∈ document.toSchema.declaredNames t, ∀ b ∈ document.toSchema.declaredNames u,
          Relational.SameName a b → a = b := by decide +kernel
    exact fun t ht u hu _ => hdistinct t ht u hu
  · decide +kernel

theorem tabled_relational : relational.Tabled := by
  intro t ht
  have hbase : ∀ t ∈ document.toSchema.types.types,
      Relational.TypeTables.ofType [] t = .ok ⟨"GRANULE"⟩ := by decide +kernel
  exact ⟨ids_schema t ht, ⟨"GRANULE"⟩, hbase t ht, by decide +kernel⟩

theorem reservesNames_schema : Remote.Store.ReservesNames document.toSchema := by
  intro t name hname
  have hall : ∀ e ∈ document.toSchema.elements.elements, e.name ∉ Remote.Key.reserved := by
    decide +kernel
  rcases List.mem_map.1 hname with ⟨e, he, rfl⟩
  exact hall e (List.mem_of_find?_eq_some (ElementRegistry.name_of_mem_elementsOf he).2)

theorem fresh_history : (freshIds history).Nodup := by decide

theorem clock_history : ∀ op ∈ history, Inverted.Store.ClockInRange op := by
  have hfive : (Instant.ofMillis? 5).isSome = true := by decide +kernel
  have hsix : (Instant.ofMillis? 6).isSome = true := by decide +kernel
  simp [history, Inverted.Store.ClockInRange, hfive, hsix]

theorem fits_history : ∀ op ∈ history, Remote.Store.FitsWords op := by
  simp [history, product, Remote.Store.FitsWords, Text.fitsInt64, Json.CountsSize,
    Json.greatestNatural]

end Granules

end ArchiveCatalog

import ArchiveCatalog.Proofs.Relational.Answers
import ArchiveCatalog.Proofs.Relational.Retention

namespace ArchiveCatalog.Relational

/-! # Rows that are decoded

A product is decoded from its row, the type found under the type id of the row and the table of
references of that type. No statement changes the type id of a row or drops a table, so a product
stays decodable until it is removed, whatever tables the products of other types share with it.
-/

open Database (Widens)

namespace Store

variable {s : Store}

/-! ## Rows of products -/

/-- No id has been given that is not counted. -/
def Numbered (db : Database) : Prop := ∀ row ∈ db.products, row.id ≤ db.lastId

/-- The row of an id has the type id, and the table is there in which the references of the type
are. -/
structure Stores (id : Int) (typeId reference : String) (db : Database) : Prop where
  row : ∃ row, db.product? id = some row ∧ row.typeId = typeId
  references : db.hasReferences reference = true

variable {db db' : Database} {id : Int} {typeId reference : String}

/-- The database with one more product. -/
theorem insertProduct_eq_ok {p : Product} {received : Int}
    (h : db.insertProduct p typeId received = .ok db') :
    db.lastId < Database.greatestId ∧
      db'.products =
        db.products ++ [⟨db.nextId, p.name, p.fileStructure, p.status, typeId, received⟩] ∧
      db'.lastId = db.lastId + 1 ∧ db'.references = db.references := by
  unfold Database.insertProduct at h
  split at h
  next hroom =>
    cases h
    exact ⟨hroom, rfl, rfl, rfl⟩
  next => cases h

theorem stable_numbered : Stable Numbered fun _ => True where
  retains := by
    intro db db' hretains hdb row hrow
    rw [hretains.products] at hrow
    rw [hretains.lastId]
    exact hdb row hrow
  update := by
    intro db id change hchange hdb row hrow
    rcases List.mem_map.1 hrow with ⟨old, hold, rfl⟩
    have hgiven := hdb old hold
    split
    · rw [(hchange old).1]
      exact hgiven
    · exact hgiven
  insert := by
    intro db db' p typeId received hinserted hdb row hrow
    rcases insertProduct_eq_ok hinserted with ⟨-, hproducts, hlast, -⟩
    rw [hproducts] at hrow
    rw [hlast]
    rcases List.mem_append.1 hrow with hold | hnew
    · have hgiven := hdb row hold
      omega
    · -- the new row has the last id that is counted now
      rw [List.mem_singleton.1 hnew]
      exact Int.le_of_eq (by simp [Database.nextId])
  erase := fun id _ hdb row hrow => hdb row (List.mem_filter.1 hrow).1

theorem product?_eraseProduct {other : Int} (hother : other ≠ id) :
    (db.eraseProduct other).product? id = db.product? id := by
  unfold Database.product? Database.eraseProduct
  rw [List.find?_filter]
  congr 1
  funext row
  by_cases hrow : row.id = id
  · simp [hrow, Ne.symm hother]
  · simp [hrow]

theorem stable_stores : Stable (Stores id typeId reference) (· ≠ id) where
  retains := by
    intro db db' hretains hdb
    constructor
    · rw [Database.product?, hretains.products]
      exact hdb.row
    · exact hretains.references reference hdb.references
  update := by
    intro db other change hchange hdb
    rcases hdb.row with ⟨row, hrow, htype⟩
    refine ⟨⟨if row.id = other then change row else row, ?_, ?_⟩, hdb.references⟩
    · rw [product?_updateProduct fun r => (hchange r).1, hrow]
      rfl
    · split
      · rw [(hchange row).2, htype]
      · exact htype
  insert := by
    intro db db' p other received hinserted hdb
    rcases insertProduct_eq_ok hinserted with ⟨-, hproducts, -, hreferences⟩
    rcases hdb.row with ⟨row, hrow, htype⟩
    constructor
    · refine ⟨row, ?_, htype⟩
      rw [Database.product?] at hrow
      rw [Database.product?, hproducts, List.find?_append, hrow]
      rfl
    · rw [Database.hasReferences, hreferences]
      exact hdb.references
  erase := by
    intro db other hother hdb
    refine ⟨?_, hdb.references⟩
    rw [product?_eraseProduct hother]
    exact hdb.row

/-! ## Registering and decoding -/

/-- A product that is registered gets the next id and the type that its type is resolved to. -/
theorem stores_of_run_add {r : Registration} {p stored : Product} (hnumbered : Numbered db)
    (hadd : (s.add r p).run db = (.ok stored, db')) :
    ∃ t tables, s.schema.resolveType p.productType = .ok t ∧
      TypeTables.ofType s.bases t = .ok tables ∧ db.lastId < Database.greatestId ∧
      stored = registered r p db.nextId t ∧ Stores db.nextId t.id tables.reference db' := by
  rcases Action.run_ofExcept_bind_eq_ok hadd with ⟨_, -, hrest⟩
  rcases Action.run_ofExcept_bind_eq_ok hrest with ⟨t, hresolved, hwritten⟩
  rcases Action.run_bind_eq_ok hwritten with ⟨id, _, hatomic, hanswer⟩
  cases hanswer
  -- the tables are made ready, the row is added, and then its references
  rcases Action.run_bind_eq_ok (Action.run_atomically_eq_ok hatomic) with
    ⟨_, db₁, hensured, hadded⟩
  have hwidens : Widens db db₁ := by
    have hkept := keepsWide_ensureTables (s := s) t db (.refl db)
    rw [hensured] at hkept
    exact hkept
  rw [Action.run_bind_ok (Action.run_get db₁)] at hadded
  rcases Action.run_bind_eq_ok hadded with ⟨_, db₂, hinserted, hreferences⟩
  rcases insertProduct_eq_ok (run_alter_eq_ok hinserted) with ⟨hroom, hproducts, -, -⟩
  rcases Action.run_bind_eq_ok hreferences with ⟨_, _, hstored, hid⟩
  cases hid
  rcases Action.run_ofExcept_bind_eq_ok hstored with ⟨tables, htables, hreplacing⟩
  have hreplaced := run_alter_eq_ok hreplacing
  have hretains := retains_replaceReferences hreplaced
  have hnext : db₁.nextId = db.nextId := by rw [Database.nextId, hwidens.lastId, Database.nextId]
  rw [hwidens.lastId] at hroom
  rw [hnext, hwidens.products] at hproducts
  refine ⟨t, tables, hresolved, htables, hroom, by rw [hnext]; rfl, ?_, ?_⟩
  · -- no row that was there has the new id
    have hnew : db.products.find? (·.id == db.nextId) = none := by
      rw [List.find?_eq_none]
      intro row hrow hid
      have hgiven := hnumbered row hrow
      rw [of_decide_eq_true hid] at hgiven
      unfold Database.nextId at hgiven
      omega
    refine ⟨⟨db.nextId, p.name, p.fileStructure, p.status, t.id, r.millis⟩, ?_, rfl⟩
    rw [Database.product?, hretains.products, hproducts, List.find?_append, hnew]
    simp
  · exact hretains.references _ (hasReferences_of_replaceReferences hreplaced)

/-- A product whose type id is that of a type that is found is decoded with that type. -/
theorem Stores.exists_byId {t : ProductType} {tables : TypeTables}
    (ht : s.schema.typeById t.id = .ok t) (htables : TypeTables.ofType s.bases t = .ok tables)
    (h : Stores id t.id tables.reference db) (hid : idNumber (toString id) = .ok id) :
    ∃ found, ((s.byId (toString id)).run db).1 = .ok found ∧ found.id = some (toString id) ∧
      found.productType = t := by
  rcases h.row with ⟨row, hrow, htype⟩
  have hrowId : row.id = id := (mem_of_product? hrow).2
  have hloaded : (s.loadReferences t id).run db =
      (.ok (db.referencesIn tables.reference id), db) := by
    rw [loadReferences, tablesOf, Action.run_bind, Action.run_ofExcept, htables]
    exact run_inspect_ok (Database.referencesOf_eq h.references)
  rw [byId, Action.run_bind, Action.run_ofExcept, hid]
  dsimp only
  rw [loadProduct, Action.run_bind, run_productRow, hrow]
  dsimp only
  rw [Action.run_bind, Action.run_ofExcept, htype, ht]
  dsimp only
  rw [hrowId, Action.run_bind_ok hloaded]
  exact ⟨_, rfl, rfl, rfl⟩

/-- What is registered is decoded with its type until it is removed, if the type has an id. -/
theorem findsAgain_of_run_add (hs : s.schema.Regular) {before later : List Operation}
    {r : Registration} {p stored : Product}
    (hadd : (s.add r p).run (s.catalog.after .empty before) = (.ok stored, db'))
    (hid : stored.productType.id ≠ "")
    (hkept : ∀ q, .remove q ∈ later → numberOf q ≠ numberOf stored) :
    s.schema.resolveType p.productType = .ok stored.productType ∧
      s.catalog.FindsAgain (s.catalog.after db' later) stored := by
  have hnumbered : Numbered (s.catalog.after .empty before) :=
    stable_numbered.after (fun _ _ _ _ => trivial) fun row hrow => by cases hrow
  rcases stores_of_run_add hnumbered hadd with
    ⟨t, tables, hresolved, htables, hroom, rfl, hstores⟩
  generalize s.catalog.after .empty before = db at hroom hstores hkept hid ⊢
  have hnumber : idNumber (toString db.nextId) = .ok db.nextId :=
    idNumber_toString (by unfold Database.nextId; omega) (by unfold Database.nextId; omega)
  have hstored : numberOf (registered r p db.nextId t) = .ok db.nextId :=
    (numberOf_of_id rfl).trans hnumber
  -- other spellings of the id number the same row, so removals are told apart by the number
  have hlater : Stores db.nextId t.id tables.reference (s.catalog.after db' later) := by
    refine stable_stores.after (fun q id hq hqid heq => hkept q hq ?_) hstores
    rw [hqid, hstored, heq]
  rcases hlater.exists_byId ((hs.typeById_iff_of_resolveType hresolved).2 hid) htables hnumber with
    ⟨found, hfound, hfoundId, hfoundType⟩
  exact ⟨hresolved, toString db.nextId, found, rfl, hfound, hfoundId, hfoundType⟩

end Store

end ArchiveCatalog.Relational

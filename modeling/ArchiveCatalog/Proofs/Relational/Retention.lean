import ArchiveCatalog.Proofs.Relational.Soundness

namespace ArchiveCatalog.Relational

/-! # What statements retain

Every statement keeps the products, or adds one, or removes one, or changes one in other than its
id and type, and no statement drops a table. A property that outlasts all of them outlasts every
operation, whatever becomes of it, and every history.
-/

open Database (Widens)
open ArchiveCatalog.Action (Keeps)

/-- A statement keeps what every change that succeeds keeps. -/
theorem keeps_alter {inv : Database → Prop} {change : Database → Except StoreFault Database}
    (h : ∀ db db', change db = .ok db' → inv db → inv db') : Keeps inv (alter change) := by
  intro db hdb
  cases hchange : change db with
  | error e =>
    rw [run_alter_error hchange]
    exact hdb
  | ok db' =>
    rw [run_alter_ok hchange]
    exact h db db' hchange hdb

/-! ## Making tables ready -/

section Tables

variable {db db' : Database} {name : String}

theorem widens_createReferences (h : db.createReferences name = .ok db') : Widens db db' := by
  rcases Action.bind_eq_ok_iff.1 h with ⟨_, hcreatable, -⟩
  rcases Store.exists_createReferences db hcreatable with ⟨made, hmade, hwidens, -⟩
  rw [hmade] at h
  cases h
  exact hwidens

theorem widens_createTable {u : Table} (hrows : u.rows = []) (h : db.createTable name u = .ok db') :
    Widens db db' := by
  rcases Action.bind_eq_ok_iff.1 h with ⟨_, -, h⟩
  cases htable : db.table? name with
  | some _ =>
    rw [htable] at h
    cases h
    exact .refl db
  | none =>
    rw [htable] at h
    cases h
    have hshape : db.shape? name = none := by rw [Database.shape?, htable]; rfl
    refine Store.widens_setTable ?_ fun shape hsome => ?_
    · rw [hrows, Database.rows_of_shape?_none hshape]
    · rw [hshape] at hsome
      cases hsome

theorem widens_addColumn {column : String}
    (h : (db.updateTable name fun u => u.addColumn column) = .ok db') : Widens db db' := by
  rcases Action.bind_eq_ok_iff.1 h with ⟨u, htable, h⟩
  rcases Action.bind_eq_ok_iff.1 h with ⟨wider, hadded, h⟩
  cases h
  have hfound : db.table? name = some u := by
    unfold Database.table at htable
    split at htable
    next found hfound =>
      cases htable
      exact hfound
    next => cases htable
  dsimp only [Table.addColumn] at hadded
  split at hadded
  next => cases hadded
  next =>
    cases hadded
    refine Store.widens_setTable ?_ fun shape hshape => ?_
    · rw [Database.rows, hfound]
    · rw [Database.shape?, hfound] at hshape
      cases hshape
      rw [List.map_append]
      exact List.subset_append_left _ _

/-- A statement that only widens leads from databases as wide to such databases. -/
theorem keeps_widening {start : Database} {change : Database → Except StoreFault Database}
    (h : ∀ db db', change db = .ok db' → Widens db db') : Keeps (Widens start) (alter change) :=
  keeps_alter fun db db' hchange hdb => hdb.trans (h db db' hchange)

/-! ## What is retained -/

/-- The products are the same, and no table of references is lost. -/
structure Retains (db db' : Database) : Prop where
  products : db'.products = db.products
  lastId : db'.lastId = db.lastId
  references : ∀ name, db.hasReferences name = true → db'.hasReferences name = true

theorem retains_of_widens (h : Widens db db') : Retains db db' :=
  ⟨h.products, h.lastId, h.hasReferences⟩

theorem retains_updateTable {change : Table → Except StoreFault Table}
    (h : db.updateTable name change = .ok db') : Retains db db' := by
  rcases Action.bind_eq_ok_iff.1 h with ⟨u, -, h⟩
  rcases Action.bind_eq_ok_iff.1 h with ⟨changed, -, h⟩
  cases h
  exact ⟨rfl, rfl, fun _ hthere => hthere⟩

/-- References are replaced in a table that is there. -/
theorem hasReferences_of_replaceReferences {id : Int} {references : List FileReference}
    (h : db.replaceReferences name id references = .ok db') : db.hasReferences name = true := by
  rcases Action.bind_eq_ok_iff.1 h with ⟨rows, hrows, -⟩
  unfold Database.referenceRows at hrows
  unfold Database.hasReferences
  cases hfound : db.references.lookup (Text.folded name) with
  | some _ => rfl
  | none =>
    rw [hfound] at hrows
    cases hrows

theorem retains_replaceReferences {id : Int} {references : List FileReference}
    (h : db.replaceReferences name id references = .ok db') : Retains db db' := by
  rcases Database.exists_replaceReferences id (hasReferences_of_replaceReferences h) references with
    ⟨entries, hreplaced, hthere, -⟩
  rw [hreplaced] at h
  cases h
  exact ⟨rfl, rfl, fun other hother => (hthere other).trans hother⟩

end Tables

namespace Store

variable {s : Store} {start : Database}

theorem keepsWide_ensureElement (tables : TypeTables) (columns : List String) (e : Element) :
    Keeps (Widens start) (s.ensureElement tables columns e) := by
  unfold ensureElement
  split
  · exact (Action.silent_ofExcept _).keeps.bind fun side =>
      keeps_widening fun _ _ => widens_createTable rfl
  · split
    · exact (Action.silent_pure _).keeps
    · exact (Action.silent_ofExcept _).keeps.bind fun name =>
        keeps_widening fun _ _ => widens_addColumn

theorem keepsWide_ensureTables (t : ProductType) : Keeps (Widens start) (s.ensureTables t) := by
  refine (Action.silent_ofExcept _).keeps.bind fun tables => ?_
  refine (keeps_widening fun _ _ => widens_createReferences).bind fun _ => ?_
  cases s.layout with
  | narrow =>
    exact (keeps_widening fun _ _ => widens_createTable rfl).bind fun _ => (silent_inspect _).keeps
  | wide _ =>
    refine (keeps_widening fun _ _ => widens_createTable rfl).bind fun _ => ?_
    refine (silent_inspect _).keeps.bind fun columns => ?_
    refine (Action.silent_ofExcept _).keeps.bind fun declared => ?_
    have hloop : Keeps (Widens start)
        (forIn declared PUnit.unit (s.ensureNext tables columns)) :=
      Action.keeps_for (fun e => (keepsWide_ensureElement tables columns e).bind fun _ =>
        (Action.silent_pure _).keeps) declared
    exact hloop.bind fun _ => (Action.silent_pure _).keeps

/-! ## Writes -/

/-- The property outlasts every statement of the catalog, but that products of some ids may be
erased. -/
structure Stable (inv : Database → Prop) (erasable : Int → Prop) : Prop where
  retains : ∀ {db db'}, Retains db db' → inv db → inv db'
  update : ∀ {db} (id : Int) (change : ProductRow → ProductRow),
    (∀ r, (change r).id = r.id ∧ (change r).typeId = r.typeId) → inv db →
      inv (db.updateProduct id change)
  insert : ∀ {db db'} (p : Product) (typeId : String) (received : Int),
    db.insertProduct p typeId received = .ok db' → inv db → inv db'
  erase : ∀ {db} (id : Int), erasable id → inv db → inv (db.eraseProduct id)

section Writes

variable {inv : Database → Prop} {erasable : Int → Prop} (h : Stable inv erasable)
include h

theorem Stable.keeps_ensureTables (t : ProductType) : Keeps inv (s.ensureTables t) := by
  intro db hdb
  exact h.retains (retains_of_widens (keepsWide_ensureTables t db (.refl db))) hdb

theorem Stable.keeps_updateTable (name : String) (change : Table → Except StoreFault Table) :
    Keeps inv (alter fun db => db.updateTable name change) :=
  keeps_alter fun _ _ hchange hdb => h.retains (retains_updateTable hchange) hdb

theorem Stable.keeps_storeReferences (t : ProductType) (id : Int)
    (references : List FileReference) : Keeps inv (s.storeReferences t id references) :=
  (Action.silent_ofExcept _).keeps.bind fun _ =>
    keeps_alter fun _ _ hchange hdb => h.retains (retains_replaceReferences hchange) hdb

theorem Stable.keeps_deleteMetadata (t : ProductType) (id : Int) :
    Keeps inv (s.deleteMetadata t id) := by
  refine (Action.silent_ofExcept _).keeps.bind fun tables => ?_
  refine (h.keeps_updateTable _ _).bind fun _ => ?_
  cases s.layout with
  | narrow => exact (Action.silent_pure _).keeps
  | wide vectors =>
    refine (Action.silent_ofExcept _).keeps.bind fun declared => ?_
    refine Keeps.bind (Action.keeps_for (fun e => ?_) declared) fun _ =>
      (Action.silent_pure _).keeps
    split
    · refine ((Action.silent_ofExcept _).keeps.bind fun side => ?_)
      exact (h.keeps_updateTable _ _).bind fun _ => (Action.silent_pure _).keeps
    · exact (Action.silent_pure _).keeps

theorem Stable.keeps_insertValues (table : String) (id : Int)
    (cellsFor : String → List (String × String)) (values : List String) :
    Keeps inv (insertValues table id cellsFor values) := by
  refine (silent_inspect _).keeps.bind fun _ => ?_
  refine Keeps.bind (Action.keeps_for (fun value => ?_) values) fun _ =>
    (Action.silent_pure _).keeps
  exact (h.keeps_updateTable _ _).bind fun _ => (Action.silent_pure _).keeps

theorem Stable.keeps_storeNarrow (tables : TypeTables) (t : ProductType) (id : Int)
    (m : Metadata) : Keeps inv (s.storeNarrow tables t id m) := by
  refine (Action.silent_ofExcept _).keeps.bind fun declared => ?_
  refine Keeps.bind (Action.keeps_for (fun entry => ?_) m.entries) fun _ =>
    (Action.silent_pure _).keeps
  dsimp only
  split
  · exact (Action.silent_pure _).keeps
  · exact (h.keeps_insertValues _ _ _ _).bind fun _ => (Action.silent_pure _).keeps

theorem Stable.keeps_storeWide (tables : TypeTables) (id : Int) (m : Metadata) :
    Keeps inv (s.storeWide tables id m) := by
  -- vectors are stored on the way, the cells of all other elements in one row at the end
  refine Keeps.bind (Action.keeps_filterMapM (fun entry => ?_) m.entries) fun cells =>
    h.keeps_updateTable _ _
  dsimp only
  split
  · refine Keeps.bind ?_ fun _ => (Action.silent_pure _).keeps
    exact (Action.silent_ofExcept _).keeps.bind fun side => h.keeps_insertValues _ _ _ _
  · split
    · exact (Action.silent_pure _).keeps
    · exact (Action.silent_ofExcept _).keeps.bind fun _ => (Action.silent_pure _).keeps

theorem Stable.keeps_storeMetadata (t : ProductType) (id : Int) (m : Metadata) :
    Keeps inv (s.storeMetadata t id m) := by
  refine (Action.silent_ofExcept _).keeps.bind fun tables => ?_
  refine (h.keeps_deleteMetadata t id).bind fun _ => ?_
  cases s.layout with
  | narrow => exact h.keeps_storeNarrow tables t id m
  | wide _ => exact h.keeps_storeWide tables id m

theorem Stable.keeps_changeMetadata (p : Product)
    (change : ProductType → Metadata → Except CatalogError Metadata) :
    Keeps inv (s.changeMetadata p change) := by
  refine (Action.silent_ofExcept _).keeps.bind fun id => Keeps.atomically ?_
  refine (silent_storedType id).keeps.bind fun t => ?_
  refine (h.keeps_ensureTables t).bind fun _ => ?_
  refine (silent_loadMetadata t id).keeps.bind fun stored => ?_
  exact (Action.silent_ofExcept _).keeps.bind fun m => h.keeps_storeMetadata t id m

theorem Stable.keeps_updateProduct (id : Int) {change : ProductRow → ProductRow}
    (hchange : ∀ r, (change r).id = r.id ∧ (change r).typeId = r.typeId) :
    Keeps inv (alter fun db => .ok (db.updateProduct id change)) := by
  refine keeps_alter fun db db' hupdated hdb => ?_
  cases hupdated
  exact h.update id change hchange hdb

/-- Every operation keeps a stable property, if it may remove what it removes. -/
theorem Stable.keeps_perform (op : Operation)
    (hremove : ∀ p id, op = .remove p → numberOf p = .ok id → erasable id) :
    Keeps inv (s.catalog.perform op) := by
  cases op with
  | add r p =>
    refine Keeps.answer ?_ _
    refine (Action.silent_ofExcept _).keeps.bind fun _ => ?_
    refine (Action.silent_ofExcept _).keeps.bind fun t => ?_
    refine (Keeps.atomically ?_).bind fun _ => (Action.silent_pure _).keeps
    refine (h.keeps_ensureTables t).bind fun _ => Action.silent_get.keeps.bind fun db => ?_
    refine Keeps.bind ?_ fun _ => (h.keeps_storeReferences t _ _).bind fun _ =>
      (Action.silent_pure _).keeps
    exact keeps_alter fun _ _ hinserted hdb => h.insert p t.id r.millis hinserted hdb
  | modify p =>
    refine Keeps.answer ?_ _
    refine (Action.silent_ofExcept _).keeps.bind fun id => Keeps.atomically ?_
    refine (silent_storedType id).keeps.bind fun t => ?_
    refine Keeps.bind ?_ fun _ => h.keeps_storeReferences t id _
    exact h.keeps_updateProduct id fun _ => ⟨rfl, rfl⟩
  | remove p =>
    refine Keeps.answer ?_ _
    intro db hdb
    show inv ((s.remove p).run db).2
    rw [remove, Action.run_bind, Action.run_ofExcept]
    -- the number decides which product is erased, so it has to be remembered
    cases hid : numberOf p with
    | error e => exact hdb
    | ok id =>
      refine Keeps.atomically ?_ db hdb
      refine (silent_storedType id).keeps.bind fun t => ?_
      refine (h.keeps_storeReferences t id _).bind fun _ => ?_
      refine (h.keeps_deleteMetadata t id).bind fun _ => ?_
      refine keeps_alter fun db db' herased hdb => ?_
      cases herased
      exact h.erase id (hremove p id rfl hid) hdb
  | setStatus p =>
    refine Keeps.answer ?_ _
    refine (Action.silent_ofExcept _).keeps.bind fun id => Keeps.atomically ?_
    refine Keeps.bind ?_ fun _ => h.keeps_updateProduct id fun _ => ⟨rfl, rfl⟩
    exact (Action.silent_reading _).keeps.answer _
  | addReferences p =>
    refine Keeps.answer ?_ _
    refine (Action.silent_ofExcept _).keeps.bind fun id => Keeps.atomically ?_
    exact (silent_storedType id).keeps.bind fun t => h.keeps_storeReferences t id _
  | addMetadata m p => exact (h.keeps_changeMetadata p _).answer _
  | removeMetadata m p => exact (h.keeps_changeMetadata p _).answer _
  -- a query makes the tables ready that it selects from
  | query q t =>
    refine Keeps.answer ?_ _
    refine (Action.silent_ofExcept _).keeps.bind fun found => ?_
    exact (h.keeps_ensureTables found.1).bind fun _ => Action.silent_get.keeps.answer _
  | page q t number =>
    have hpage : Keeps inv (s.page q t number) := by
      rw [page_eq]
      refine (Action.silent_ofExcept _).keeps.bind fun found => ?_
      exact (h.keeps_ensureTables found.1).bind fun _ =>
        (Action.silent_get.bind fun _ => silent_pageOf number _).keeps
    exact hpage.answer _
  | byId | byName | references | products | productsOfType | metadata | newest | newestOfType
  | count => exact (silent_perform rfl (by simp) (by simp)).keeps

theorem Stable.after {history : List Operation} {db : Database}
    (hremove : ∀ p id, .remove p ∈ history → numberOf p = .ok id → erasable id) (hdb : inv db) :
    inv (s.catalog.after db history) :=
  Catalog.after_induction
    (fun op hop => h.keeps_perform op fun p id hremoved => hremove p id (hremoved ▸ hop)) hdb

end Writes

end Store

end ArchiveCatalog.Relational

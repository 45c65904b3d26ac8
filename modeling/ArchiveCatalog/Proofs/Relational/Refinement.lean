import ArchiveCatalog.Proofs.Ledger
import ArchiveCatalog.Proofs.Relational.Answers

namespace ArchiveCatalog.Relational

/-! # The narrow layout as a ledger

In the narrow layout a catalog keeps all there is to keep: on every history it answers as a
ledger does whose keys are numbers. A database stands for the ledger with an entry for each
product row, and each operation of the one is matched by the same operation of the other.
-/

namespace Store

open Database (Extends Widens)

/-- The ledger that a catalog in the narrow layout comes to. -/
def ledger (s : Store) : Ledger Int where
  schema := s.schema
  pageSize := s.pageSize
  locate := idNumber
  spell := toString
  assign _ before :=
    if before < Database.greatestId then .ok (before + 1) else .error (.store .full)
  initial := some .empty
  sees _ := true
  precedes a b := b.millis < a.millis || (a.millis == b.millis && b.key ≤ a.key)
  satisfies := Query.holds

/-- The product of a row with its references. -/
def productOf (s : Store) (row : ProductRow) (references : List FileReference) : Product where
  id := some (toString row.id)
  name := row.name
  productType := (s.schema.typeOf? row.typeId).getD (.withId row.typeId)
  fileStructure := row.fileStructure
  status := row.status
  references
  received := Instant.ofMillis? row.received

/-- The entry that a product row and its contents stand for. -/
def entryFor (s : Store) (contents : Int → Contents) (row : ProductRow) : Entry Int where
  key := row.id
  product := s.productOf row (contents row.id).references
  millis := row.received
  metadata := some (contents row.id).metadata

/-- The ledger that a database and its contents stand for. -/
def abstracted (s : Store) (db : Database) (contents : Int → Contents) : LedgerState Int :=
  ⟨db.lastId, db.products.map (s.entryFor contents)⟩

/-- Every product is of a type that is found. -/
def Typed (s : Store) (db : Database) : Prop :=
  ∀ row ∈ db.products, ∃ t, s.schema.typeById row.typeId = .ok t

variable {s : Store} {db db' : Database} {contents : Int → Contents} {row : ProductRow}
  {t : ProductType} {p : Product}

/-! ## Entries -/

theorem productType_productOf (hs : s.Regular) (ht : s.schema.typeById row.typeId = .ok t)
    (references : List FileReference) : (s.productOf row references).productType = t := by
  rw [productOf, hs.schema.typeById_eq_ok_iff.1 ht]
  rfl

/-- The type of an entry has the id that the row holds. -/
theorem type_entryFor (hs : s.Regular) (htyped : s.Typed db) (hrow : row ∈ db.products) :
    (s.entryFor contents row).product.productType.id = row.typeId := by
  rcases htyped row hrow with ⟨t, ht⟩
  have htype : (s.entryFor contents row).product.productType = t := productType_productOf hs ht _
  rw [htype]
  exact (Schema.id_of_typeOf? (hs.schema.typeById_eq_ok_iff.1 ht)).1

theorem find?_abstracted (id : Int) :
    (s.abstracted db contents).find? id = (db.product? id).map (s.entryFor contents) := by
  rw [LedgerState.find?, abstracted, List.find?_map]
  rfl

/-- A write finds its entry exactly when it finds its product. -/
theorem target_ledger (htyped : s.Typed db) :
    s.ledger.target (s.abstracted db contents) p =
      match s.target db p with
      | .error e => .error e
      | .ok (id, _) =>
        match db.product? id with
        | some row => .ok (s.entryFor contents row)
        | none => .error (.notFound "Product" (toString id)) := by
  have hkey : s.ledger.keyOf p = numberOf p := rfl
  rw [Ledger.target, hkey, Store.target]
  cases numberOf p with
  | error e => rfl
  | ok id =>
    simp only [bind, Except.bind, Ledger.require, find?_abstracted]
    unfold typeIn
    cases hfound : db.product? id with
    | none => rfl
    | some row =>
      -- the write also looks for the type, which every stored product has
      rcases htyped row (mem_of_product? hfound).1 with ⟨t, ht⟩
      simp [ht, pure, Except.pure, hfound]

/-- Changing a product row and its contents changes its entry. -/
theorem Sound.abstracted_put (h : s.Sound db contents) (hrow : row ∈ db.products)
    {change : ProductRow → ProductRow} (hchange : ∀ r, (change r).id = r.id) (c : Contents)
    (hproducts : db'.products = (db.updateProduct row.id change).products)
    (hlast : db'.lastId = db.lastId) :
    s.abstracted db' (Function.update contents row.id c) =
      (s.abstracted db contents).put
        (s.entryFor (Function.update contents row.id c) (change row)) := by
  have hentries : (db.updateProduct row.id change).products.map
      (s.entryFor (Function.update contents row.id c)) =
      (db.products.map (s.entryFor contents)).map fun old =>
        if old.key = (change row).id then
          s.entryFor (Function.update contents row.id c) (change row)
        else old := by
    rw [Database.updateProduct, List.map_map, List.map_map]
    apply List.map_congr_left
    intro r hr
    -- no other row has the id, so no other entry changes
    by_cases hsame : r.id = row.id
    · have hrrow : r = row := List.inj_on_of_nodup_map h.ids hr hrow hsame
      subst hrrow
      simp [entryFor, hchange]
    · simp [entryFor, hchange, hsame]
  rw [abstracted, hproducts, hlast, hentries]
  rfl

/-- A new product row adds an entry. -/
theorem Sound.abstracted_append (h : s.Sound db contents) (c : Contents)
    (hproducts : db'.products = db.products ++ [row]) (hid : row.id = db.nextId)
    (hlast : db'.lastId = db.lastId + 1) :
    s.abstracted db' (Function.update contents row.id c) =
      (s.abstracted db contents).append
        (s.entryFor (Function.update contents row.id c) row) := by
  have hold : db.products.map (s.entryFor (Function.update contents row.id c)) =
      db.products.map (s.entryFor contents) := by
    apply List.map_congr_left
    intro r hr
    have hne : r.id ≠ row.id := hid ▸ h.not_mem_nextId hr
    simp [entryFor, hne]
  rw [abstracted, hproducts, hlast, List.map_append, hold]
  rfl

/-- Erasing a product row erases its entry. -/
theorem abstracted_erase {id : Int} (c : Contents)
    (hproducts : db'.products = (db.eraseProduct id).products) (hlast : db'.lastId = db.lastId) :
    s.abstracted db' (Function.update contents id c) = (s.abstracted db contents).erase id := by
  have hentries : (db.eraseProduct id).products.map
      (s.entryFor (Function.update contents id c)) =
      (db.products.map (s.entryFor contents)).filter (·.key ≠ id) := by
    rw [Database.eraseProduct, List.filter_map]
    have hsame : (db.products.filter (·.id != id)) =
        db.products.filter ((fun e : Entry Int => decide (e.key ≠ id)) ∘ s.entryFor contents) := by
      apply List.filter_congr
      intro r _
      by_cases hr : r.id = id <;> simp [entryFor, hr]
    rw [← hsame]
    apply List.map_congr_left
    intro r hr
    have hne : r.id ≠ id := by simpa using (List.mem_filter.1 hr).2
    simp [entryFor, hne]
  rw [abstracted, hproducts, hlast, hentries]
  rfl

/-! ## Standing for a ledger -/

/-- The database stands for the ledger. -/
def Stands (s : Store) (db : Database) (st : LedgerState Int) : Prop :=
  ∃ contents, s.Sound db contents ∧ s.Typed db ∧ st = s.abstracted db contents

theorem stands_empty : s.Stands .empty .empty :=
  ⟨fun _ => ⟨[], .empty⟩, sound_empty, fun _ hrow => absurd hrow List.not_mem_nil, rfl⟩

/-- Every registered type has an id, and tables that can be named. -/
def Tabled (s : Store) : Prop :=
  ∀ t ∈ s.schema.types.types, t.id ≠ "" ∧
    ∃ tables, TypeTables.ofType s.bases t = .ok tables ∧ tables.isReserved = false

/-- The tables of the type can be named, if it is registered. -/
def TabledFor (s : Store) (u : ProductType) : Prop :=
  ∀ t, s.schema.resolveType u = .ok t →
    ∃ tables, TypeTables.ofType s.bases t = .ok tables ∧ tables.isReserved = false

theorem Tabled.tabledFor (h : s.Tabled) (hs : s.Regular) (u : ProductType) : s.TabledFor u :=
  fun t ht => (h t (hs.schema.mem_of_resolveType ht)).2

theorem Typed.of_updateProduct (h : s.Typed db) {id : Int} {change : ProductRow → ProductRow}
    (hchange : ∀ r, (change r).id = r.id ∧ (change r).typeId = r.typeId)
    (hproducts : db'.products = (db.updateProduct id change).products) : s.Typed db' := by
  intro r hr
  rw [hproducts] at hr
  rcases List.mem_map.1 hr with ⟨old, hold, rfl⟩
  rcases h old hold with ⟨t, ht⟩
  refine ⟨t, ?_⟩
  split
  · rw [(hchange old).2, ht]
  · exact ht

/-! ## Writes -/

open ArchiveCatalog.Action (Matches)

/-- A write to a stored product matches an edit of its entry if it does to the row and the
contents what the edit does to the entry. -/
theorem matches_edit {write : Action Database Unit}
    {change : Entry Int → Except CatalogError (Entry Int)}
    (herror : ∀ db e, s.target db p = .error e → s.Typed db → write.run db = (.error e, db))
    (hok : ∀ db contents row t, s.Sound db contents → row ∈ db.products →
      s.target db p = .ok (row.id, t) → s.schema.typeById row.typeId = .ok t →
      ∃ db' c f, (∀ r : ProductRow, (f r).id = r.id ∧ (f r).typeId = r.typeId) ∧
        write.run db = (.ok (), db') ∧ db'.products = (db.updateProduct row.id f).products ∧
        db'.lastId = db.lastId ∧ s.Sound db' (Function.update contents row.id c) ∧
        change (s.entryFor contents row) =
          .ok (s.entryFor (Function.update contents row.id c) (f row))) :
    Matches s.Stands write (s.ledger.edit p change) := by
  rintro db st ⟨contents, h, htyped, rfl⟩
  rw [Ledger.run_edit, target_ledger htyped]
  cases htarget : s.target db p with
  | error e =>
    rw [herror db e htarget htyped]
    exact ⟨rfl, contents, h, htyped, rfl⟩
  | ok found =>
    rcases found with ⟨id, t⟩
    rcases exists_of_typeIn (target_eq_ok htarget).2 with ⟨row, hfound, ht⟩
    rcases mem_of_product? hfound with ⟨hrow, rfl⟩
    rcases hok db contents row t h hrow htarget ht with
      ⟨db', c, f, hf, hrun, hproducts, hlast, hsound, hchange⟩
    dsimp only
    rw [hfound, hrun]
    dsimp only
    rw [hchange]
    refine ⟨rfl, _, hsound, htyped.of_updateProduct hf hproducts, ?_⟩
    exact (h.abstracted_put hrow (fun r => (hf r).1) c hproducts hlast).symm

theorem products_updateProduct_id (db : Database) (id : Int) :
    (db.updateProduct id fun r => r).products = db.products := by
  simp [Database.updateProduct]

/-- No file is larger than the greatest size that is stored. -/
def SizesFit (references : List FileReference) : Prop :=
  ∀ r ∈ references, r.size ≤ Database.greatestSize

/-- References whose sizes fit are stored as they are. -/
theorem map_storable {references : List FileReference} (h : SizesFit references) :
    references.map Database.storable = references := by
  have hone : ∀ r ∈ references, Database.storable r = id r := by
    intro r hr
    rw [Database.storable, Nat.min_eq_left (h r hr)]
    rfl
  rw [List.map_congr_left hone, List.map_id]

theorem matches_modify (hs : s.Regular) (hsizes : SizesFit p.references) :
    Matches s.Stands (s.modify p) (s.ledger.catalog.modify p) := by
  refine matches_edit (fun db e htarget _ => (run_writes_error htarget).1) ?_
  intro db contents row t h hrow htarget ht
  rcases h.run_modify hs htarget with ⟨db', hrun, hproducts, hlast, hsound⟩
  refine ⟨db', _, modified p, fun _ => ⟨rfl, rfl⟩, hrun, hproducts, hlast, hsound, ?_⟩
  simp [entryFor, productOf, modified, map_storable hsizes]

theorem matches_addReferences (hs : s.Regular) (hsizes : SizesFit p.references) :
    Matches s.Stands (s.addReferences p) (s.ledger.catalog.addReferences p) := by
  refine matches_edit (fun db e htarget _ => (run_writes_error htarget).2.2.1) ?_
  intro db contents row t h hrow htarget ht
  rcases h.run_addReferences hs htarget with ⟨db', hrun, hproducts, hlast, hsound⟩
  refine ⟨db', _, _, fun _ => ⟨rfl, rfl⟩, hrun,
    hproducts.trans (products_updateProduct_id db row.id).symm, hlast, hsound, ?_⟩
  simp [entryFor, productOf, map_storable hsizes]

theorem matches_setStatus :
    Matches s.Stands (setStatus p) (s.ledger.catalog.setStatus p) := by
  refine matches_edit ?_ ?_
  · intro db e htarget htyped
    rw [run_setStatus]
    rw [target] at htarget
    -- the type is not looked at, but it would have been found
    cases hid : numberOf p with
    | error e' => simpa [hid, bind, Except.bind] using htarget
    | ok id =>
      simp only [hid, bind, Except.bind] at htarget
      unfold typeIn at htarget
      dsimp only
      cases hfound : db.product? id with
      | none => simpa [hfound] using htarget
      | some row =>
        rcases htyped row (mem_of_product? hfound).1 with ⟨t, ht⟩
        simp [hfound, ht, pure, Except.pure] at htarget
  · intro db contents row t h hrow htarget ht
    refine ⟨_, contents row.id, fun r => { r with status := p.status }, fun _ => ⟨rfl, rfl⟩, ?_,
      rfl, rfl, ?_, ?_⟩
    · rw [run_setStatus, (target_eq_ok htarget).1]
      dsimp only
      rw [h.product?_eq hrow]
    · rw [Function.update_eq_self]
      exact h.updateProduct fun _ => ⟨rfl, rfl⟩
    · simp [entryFor, productOf]

theorem matches_addMetadata (hs : s.Regular) (hlayout : s.layout = .narrow) (m : Metadata) :
    Matches s.Stands (s.addMetadata m p) (s.ledger.catalog.addMetadata m p) := by
  refine matches_edit (fun db e htarget _ => (run_writes_error htarget).2.2.2 _) ?_
  intro db contents row t h hrow htarget ht
  rcases h.run_addMetadata hs htarget m with ⟨db', hrun, hproducts, hlast, hsound⟩
  refine ⟨db', _, _, fun _ => ⟨rfl, rfl⟩, hrun,
    hproducts.trans (products_updateProduct_id db row.id).symm, hlast, hsound, ?_⟩
  have htype : (s.entryFor contents row).product.productType = t := productType_productOf hs ht _
  have hdeclared :
      s.ledger.schema.declaredMetadata t m = .ok (m.reduce (s.schema.declaredNames t)) :=
    hs.schema.declaredMetadata_eq t m
  dsimp only
  rw [htype, hdeclared]
  simp [entryFor, productOf, hlayout, Layout.kept, Entry.shown, bind, Except.bind, pure,
    Except.pure]

theorem matches_removeMetadata (hs : s.Regular) (hlayout : s.layout = .narrow) (m : Metadata) :
    Matches s.Stands (s.removeMetadata m p) (s.ledger.catalog.removeMetadata m p) := by
  refine matches_edit (fun db e htarget _ => (run_writes_error htarget).2.2.2 _) ?_
  intro db contents row t h hrow htarget ht
  rcases h.run_removeMetadata hs htarget m with ⟨db', hrun, hproducts, hlast, hsound⟩
  refine ⟨db', _, _, fun _ => ⟨rfl, rfl⟩, hrun,
    hproducts.trans (products_updateProduct_id db row.id).symm, hlast, hsound, ?_⟩
  simp [entryFor, hlayout, Layout.kept, productOf]

theorem matches_remove (hs : s.Regular) :
    Matches s.Stands (s.remove p) (s.ledger.catalog.remove p) := by
  rintro db st ⟨contents, h, htyped, rfl⟩
  show _ = ((s.ledger.remove p).run _).1 ∧ s.Stands _ ((s.ledger.remove p).run _).2
  rw [Ledger.run_remove, target_ledger htyped]
  cases htarget : s.target db p with
  | error e =>
    rw [(run_writes_error htarget).2.1]
    exact ⟨rfl, contents, h, htyped, rfl⟩
  | ok found =>
    rcases found with ⟨id, t⟩
    rcases exists_of_typeIn (target_eq_ok htarget).2 with ⟨row, hfound, -⟩
    rcases h.run_remove hs htarget with ⟨db', hrun, hproducts, hlast, hsound⟩
    have hid : (s.entryFor contents row).key = id := (mem_of_product? hfound).2
    dsimp only
    rw [hfound, hrun]
    dsimp only
    rw [hid]
    refine ⟨rfl, _, hsound, fun r hr => htyped r ?_, (abstracted_erase _ hproducts hlast).symm⟩
    rw [hproducts] at hr
    exact (List.mem_filter.1 hr).1

/-- Registering fails for a reason that the ledger knows too, or the tables can be named. -/
theorem registrable_ledger (hs : s.Regular) (htabled : s.Tabled) (r : Registration) (p : Product) :
    (∃ e, s.registrable p = .error e ∧ ∀ st, s.ledger.register r p st = .error e) ∨
      ∃ t tables, t.id ≠ "" ∧ s.schema.resolveType p.productType = .ok t ∧
        s.registrable p = .ok (t, tables) ∧
        ∀ st, s.ledger.register r p st = (s.ledger.assign r st.registered).map fun key =>
          ⟨key, registered r p key t, r.millis, some .empty⟩ := by
  unfold registrable Ledger.register
  have hschema : s.ledger.schema = s.schema := rfl
  rw [hschema]
  cases hp : p.requireUnregistered with
  | error e => exact .inl ⟨e, rfl, fun _ => rfl⟩
  | ok _ =>
    cases hres : s.schema.resolveType p.productType with
    | error e => exact .inl ⟨e, rfl, fun _ => rfl⟩
    | ok t =>
      -- naming the tables cannot fail any more, and the ledger has no tables
      rcases htabled t (hs.schema.mem_of_resolveType hres) with ⟨hid, tables, htables, hfree⟩
      refine .inr ⟨t, tables, hid, rfl, ?_, ?_⟩
      · simp [htables, hfree, bind, Except.bind]
      · intro st
        cases s.ledger.assign r st.registered <;> rfl

theorem matches_add (hs : s.Regular) (htabled : s.Tabled) (r : Registration)
    (hsizes : SizesFit p.references) :
    Matches s.Stands (s.add r p) (s.ledger.catalog.add r p) := by
  rintro db st ⟨contents, h, htyped, rfl⟩
  show _ = ((s.ledger.add r p).run _).1 ∧ s.Stands _ ((s.ledger.add r p).run _).2
  rcases registrable_ledger hs htabled r p with
    ⟨e, herror, hregister⟩ | ⟨t, tables, hid, hres, hok, hregister⟩
  · rw [run_add_error herror, Ledger.run_add_error _ (hregister _)]
    exact ⟨rfl, contents, h, htyped, rfl⟩
  · have hassign : s.ledger.assign r (s.abstracted db contents).registered =
        if db.lastId < Database.greatestId then .ok db.nextId else .error (.store .full) := rfl
    -- both count the ids that were given, so they run out of them together
    by_cases hroom : db.lastId < Database.greatestId
    · rcases h.run_add hs hok hroom (r := r) with ⟨db', hrun, hproducts, hlast, hsound⟩
      have htype : s.schema.typeById t.id = .ok t := hs.schema.typeById_eq_ok_iff.2
        (hs.schema.typeOf?_of_mem (hs.schema.mem_of_resolveType hres) hid)
      have hregister' := hregister (s.abstracted db contents)
      rw [hassign, if_pos hroom] at hregister'
      rw [hrun, Ledger.run_add_ok _ hregister']
      refine ⟨rfl, _, hsound, ?_, ?_⟩
      · intro row hrow
        rw [hproducts] at hrow
        rcases List.mem_append.1 hrow with hold | hnew
        · exact htyped row hold
        · rw [List.mem_singleton.1 hnew]
          exact ⟨t, htype⟩
      · rw [h.abstracted_append _ hproducts rfl hlast]
        have htypeOf := hs.schema.typeById_eq_ok_iff.1 htype
        simp [entryFor, productOf, registered, htypeOf, map_storable hsizes]
    · have hregister' := hregister (s.abstracted db contents)
      rw [hassign, if_neg hroom] at hregister'
      rw [h.run_add_full hs hok hroom, Ledger.run_add_error _ hregister']
      exact ⟨rfl, contents, h, htyped, rfl⟩

/-! ## Reads -/

/-- A read that leaves the tables alone matches if it answers what the ledger answers. -/
theorem matches_silent {α : Type} {a : Action Database α}
    {f : LedgerState Int → Except CatalogError α}
    (h : ∀ db contents, s.Sound db contents → s.Typed db →
      a.run db = (f (s.abstracted db contents), db)) :
    Matches s.Stands a (Action.reading f) := by
  apply Action.matches_reading
  rintro db st ⟨contents, hsound, htyped, rfl⟩
  exact ⟨db, h db contents hsound htyped, contents, hsound, htyped, rfl⟩

/-- A stored product is loaded if its type is found. -/
theorem Sound.run_loadStored (hs : s.Regular) (h : s.Sound db contents)
    (hrow : row ∈ db.products) :
    (s.loadProduct row.id).run db = ((s.schema.typeById row.typeId).map fun _ =>
      s.productOf row (contents row.id).references, db) := by
  have hproduct : (productRow row.id).run db = (.ok row, db) := by
    rw [run_productRow, h.product?_eq hrow]
  rw [loadProduct, Action.run_bind_ok hproduct, Action.run_bind, Action.run_ofExcept]
  cases ht : s.schema.typeById row.typeId with
  | error e => rfl
  | ok t =>
    rcases h.holds row hrow t ht with ⟨tables, htables, -, hready, hheld⟩
    have htype : (s.productOf row (contents row.id).references).productType = t :=
      productType_productOf hs ht _
    dsimp only [Except.map]
    rw [Action.run_bind_ok (run_loadReferences htables hready hheld), Action.run_pure, ← htype]
    rfl

/-- It is loaded as the product of its entry. -/
theorem Sound.run_loadProduct (hs : s.Regular) (h : s.Sound db contents) (htyped : s.Typed db)
    (hrow : row ∈ db.products) :
    (s.loadProduct row.id).run db = (.ok (s.entryFor contents row).product, db) := by
  rcases htyped row hrow with ⟨t, ht⟩
  rw [h.run_loadStored hs hrow, ht]
  rfl

theorem run_loadProduct_none {id : Int} (hnone : db.product? id = none) :
    (s.loadProduct id).run db = (.error (.notFound "Product" (toString id)), db) := by
  have hproduct : (productRow id).run db = (.error (.notFound "Product" (toString id)), db) := by
    rw [run_productRow, hnone]
  exact Action.run_bind_error hproduct

theorem Sound.run_loadProducts (hs : s.Regular) (h : s.Sound db contents) (htyped : s.Typed db)
    {rows : List ProductRow} (hrows : ∀ row ∈ rows, row ∈ db.products) :
    (s.loadProducts rows).run db =
      (.ok ((rows.map (s.entryFor contents)).map Entry.product), db) := by
  rw [List.map_map]
  exact Action.run_mapM fun row hrow => h.run_loadProduct hs htyped (hrows row hrow)

/-- An entry is seen exactly when its product is stored. -/
theorem visible_ledger (id : Int) :
    s.ledger.visible (s.abstracted db contents) id =
      match db.product? id with
      | some row => .ok (s.entryFor contents row)
      | none => .error (.notFound "Product" (toString id)) := by
  rw [Ledger.visible, find?_abstracted]
  cases db.product? id <;> rfl

/-- The ledger answers the entries of rows in the order of the rows. -/
theorem answer_ledger (test : Entry Int → Bool) :
    s.ledger.answer (s.abstracted db contents) test =
      (Database.newestFirst (db.products.filter fun row => test (s.entryFor contents row))).map
        (s.entryFor contents) := by
  -- entries are compared by what they have from their rows
  have hsorted : ∀ rows : List ProductRow, (rows.mergeSort Database.newerOrSame).map
      (s.entryFor contents) = (rows.map (s.entryFor contents)).mergeSort s.ledger.precedes :=
    fun rows => List.map_mergeSort fun _ _ _ _ => rfl
  rw [Database.newestFirst, hsorted]
  unfold Ledger.answer abstracted
  rw [List.filter_map]
  rfl

theorem newestFirst_subset {rows : List ProductRow} (hrows : ∀ row ∈ rows, row ∈ db.products) :
    ∀ row ∈ Database.newestFirst rows, row ∈ db.products := fun row hrow =>
  hrows row ((Database.newestFirst_perm rows).mem_iff.1 hrow)

/-- A signed word counts the products in any part of a database. -/
theorem Sound.length_newestFirst_le (h : s.Sound db contents) {rows : List ProductRow}
    (hrows : rows.Sublist db.products) : (Database.newestFirst rows).length ≤ greatestSigned := by
  have hall : db.products.length ≤ greatestSigned := h.length_le
  rw [(Database.newestFirst_perm rows).length_eq]
  exact Nat.le_trans hrows.length_le hall

theorem matches_byId (hs : s.Regular) (id : String) :
    Matches s.Stands (s.byId id) (s.ledger.catalog.byId id) := by
  apply matches_silent
  intro db contents h htyped
  have hlocate : s.ledger.locate id = idNumber id := rfl
  rw [byId, Action.run_bind, Action.run_ofExcept, Ledger.byId, hlocate]
  cases hid : idNumber id with
  | error e => rfl
  | ok n =>
    simp only [bind, Except.bind, visible_ledger]
    cases hfound : db.product? n with
    | none => exact run_loadProduct_none hfound
    | some row =>
      rcases mem_of_product? hfound with ⟨hrow, rfl⟩
      exact h.run_loadProduct hs htyped hrow

theorem matches_byName (hs : s.Regular) (name : String) :
    Matches s.Stands (s.byName name) (s.ledger.catalog.byName name) := by
  apply matches_silent
  intro db contents h htyped
  have htest : (db.products.filter fun row => (s.entryFor contents row).product.name == name) =
      db.products.filter (·.name == name) := rfl
  rw [byName, Action.run_bind_ok (Action.run_get db), Ledger.byName, answer_ledger, htest]
  rcases hnamed : db.products.filter (·.name == name) with _ | ⟨row, _ | ⟨other, rest⟩⟩
  · rw [hnamed, Database.newestFirst, List.mergeSort_nil]
    rfl
  · have hrow : row ∈ db.products.filter (·.name == name) := by simp [hnamed]
    rw [hnamed, Database.newestFirst, List.mergeSort_singleton]
    exact h.run_loadProduct hs htyped (List.mem_filter.1 hrow).1
  · -- with two products or more only their number counts, not their order
    have hlength := (Database.newestFirst_perm (row :: other :: rest)).length_eq
    rw [hnamed]
    rcases hsorted : Database.newestFirst (row :: other :: rest) with _ | ⟨a, _ | ⟨b, more⟩⟩
    · simp [hsorted] at hlength
    · simp [hsorted] at hlength
    · rw [hsorted, List.length_cons, List.length_cons] at hlength
      simp only [List.map_cons, List.length_cons, List.length_map, hlength]
      rfl

/-- What is read about a stored product is answered from its entry. -/
theorem Sound.run_ofStored (h : s.Sound db contents) (htyped : s.Typed db) {α : Type}
    (read : Int → ProductType → Action Database α) (answer : Entry Int → α)
    (hread : ∀ row ∈ db.products, ∀ t, s.schema.typeById row.typeId = .ok t →
      (read row.id t).run db = (.ok (answer (s.entryFor contents row)), db)) :
    (do
      let id ← Action.ofExcept (numberOf p)
      read id (← s.storedType id)).run db =
      (do return answer (← s.ledger.visible (s.abstracted db contents) (← s.ledger.keyOf p)),
        db) := by
  have hkey : s.ledger.keyOf p = numberOf p := rfl
  rw [Action.run_bind, Action.run_ofExcept, hkey]
  cases hid : numberOf p with
  | error e => rfl
  | ok id =>
    simp only [bind, Except.bind, visible_ledger]
    cases hfound : db.product? id with
    | none =>
      have hnone : (s.storedType id).run db = (.error (.notFound "Product" (toString id)), db) := by
        rw [run_storedType, typeIn, hfound]
      exact Action.run_bind_error hnone
    | some row =>
      rcases mem_of_product? hfound with ⟨hrow, rfl⟩
      rcases htyped row hrow with ⟨t, ht⟩
      have hstored : (s.storedType row.id).run db = (.ok t, db) := by
        rw [run_storedType, h.typeIn_eq hrow, ht]
      exact (Action.run_bind_ok hstored).trans (hread row hrow t ht)

theorem matches_references :
    Matches s.Stands (s.references p) (s.ledger.catalog.references p) := by
  apply matches_silent
  intro db contents h htyped
  refine h.run_ofStored htyped (fun id t => s.loadReferences t id) (·.product.references) ?_
  intro row hrow t ht
  rcases h.holds row hrow t ht with ⟨tables, htables, -, hready, hheld⟩
  exact run_loadReferences htables hready hheld

theorem matches_metadata (hs : s.Regular) :
    Matches s.Stands (s.metadata p) (s.ledger.catalog.metadata p) := by
  apply matches_silent
  intro db contents h htyped
  refine h.run_ofStored htyped (fun id t => s.loadMetadata t id) Entry.shown ?_
  intro row hrow t ht
  rcases h.holds row hrow t ht with ⟨tables, htables, -, hready, hheld⟩
  exact run_loadMetadata hs (hs.schema.mem_of_resolveType ht) htables h.shaped hready hheld

theorem matches_products (hs : s.Regular) :
    Matches s.Stands s.products s.ledger.catalog.products := by
  apply matches_silent
  intro db contents h htyped
  rw [products, Action.run_bind_ok (Action.run_get db), answer_ledger, List.filter_true]
  exact h.run_loadProducts hs htyped (newestFirst_subset fun row hrow => hrow)

theorem matches_newest (hs : s.Regular) (n : Nat) :
    Matches s.Stands (s.newest n) (s.ledger.catalog.newest n) := by
  apply matches_silent
  intro db contents h htyped
  rw [newest, Action.run_bind_ok (Action.run_get db), answer_ledger, List.filter_true,
    ← List.map_take, ← List.map_take,
    limitRows_first (h.length_newestFirst_le (List.Sublist.refl _))]
  exact h.run_loadProducts hs htyped fun row hrow =>
    newestFirst_subset (fun row hrow => hrow) row (List.mem_of_mem_take hrow)

/-- The entries of a type are those of its rows. -/
theorem answerOfType_ledger (hs : s.Regular) (htyped : s.Typed db) (u : ProductType) :
    s.ledger.answerOfType (s.abstracted db contents) u =
      (s.schema.resolveType u).map fun t => (rowsOfType db t).map (s.entryFor contents) := by
  have hschema : s.ledger.schema = s.schema := rfl
  rw [Ledger.answerOfType, hschema]
  cases s.schema.resolveType u with
  | error e => rfl
  | ok t =>
    have hrows : (db.products.filter fun row =>
        (s.entryFor contents row).product.productType.id == t.id) =
        db.products.filter (·.typeId == t.id) := by
      apply List.filter_congr
      intro row hrow
      rw [type_entryFor hs htyped hrow]
    simp only [bind, Except.bind, pure, Except.pure, answer_ledger, hrows]
    rfl

theorem matches_productsOfType (hs : s.Regular) (u : ProductType) :
    Matches s.Stands (s.productsOfType u) (s.ledger.catalog.productsOfType u) := by
  apply matches_silent
  intro db contents h htyped
  rw [productsOfType, Action.run_bind, Action.run_ofExcept, answerOfType_ledger hs htyped]
  cases s.schema.resolveType u with
  | error e => rfl
  | ok t =>
    exact h.run_loadProducts hs htyped
      (newestFirst_subset fun row hrow => (List.mem_filter.1 hrow).1)

theorem matches_newestOfType (hs : s.Regular) (n : Nat) (u : ProductType) :
    Matches s.Stands (s.newestOfType n u) (s.ledger.catalog.newestOfType n u) := by
  apply matches_silent
  intro db contents h htyped
  rw [newestOfType, Action.run_bind, Action.run_ofExcept, answerOfType_ledger hs htyped]
  cases s.schema.resolveType u with
  | error e => rfl
  | ok t =>
    have hrows : ∀ row ∈ (rowsOfType db t).take n, row ∈ db.products := fun row hrow =>
      newestFirst_subset (fun row hrow => (List.mem_filter.1 hrow).1) row
        (List.mem_of_mem_take hrow)
    have hfew : (rowsOfType db t).length ≤ greatestSigned :=
      h.length_newestFirst_le List.filter_sublist
    have hload := h.run_loadProducts hs htyped hrows
    rw [List.map_take, List.map_take, ← limitRows_first hfew] at hload
    exact hload

theorem matches_count (hs : s.Regular) (u : ProductType) :
    Matches s.Stands (s.count u) (s.ledger.catalog.count u) := by
  apply matches_silent
  intro db contents h htyped
  rw [count, Action.run_bind, Action.run_ofExcept, answerOfType_ledger hs htyped]
  cases s.schema.resolveType u with
  | error e => rfl
  | ok t =>
    have hfew : (rowsOfType db t).length ≤ greatestSigned :=
      h.length_newestFirst_le List.filter_sublist
    have hlength : readCount (countRows (rowsOfType db t)) =
        ((rowsOfType db t).map (s.entryFor contents)).length := by
      rw [List.length_map]
      exact readCount_countRows hfew
    dsimp only
    rw [Action.run_bind_ok (Action.run_get db), Action.run_pure, hlength]
    rfl

/-- A query is refused for the reason for which the ledger refuses it, or both select the same. -/
theorem Sound.matching_ledger (hs : s.Regular) {u : ProductType} (htabled : s.TabledFor u)
    (h : s.Sound db contents) (htyped : s.Typed db) (q : Query) :
    (∃ e, s.matching q u = .error e ∧ s.ledger.matching q u (s.abstracted db contents) = .error e) ∨
      ∃ t selection db', s.matching q u = .ok (t, selection) ∧
        (s.ensureTables t).run db = (.ok (), db') ∧ Database.Widens db db' ∧
        s.Sound db' contents ∧ (∀ row ∈ selectedRows db' t selection, row ∈ db'.products) ∧
        s.ledger.matching q u (s.abstracted db contents) =
          .ok ((selectedRows db' t selection).map (s.entryFor contents)) := by
  have hschema : s.ledger.schema = s.schema := rfl
  rw [Ledger.matching, hschema]
  cases hres : s.schema.resolveType u with
  | error e =>
    refine .inl ⟨e, ?_, rfl⟩
    rw [matching, hres]
    rfl
  | ok t =>
    cases hcheck : s.schema.checkQuery q t with
    | error e =>
      refine .inl ⟨e, ?_, ?_⟩
      · rw [matching, hres]
        simp [hcheck, bind, Except.bind]
      · simp [hcheck, bind, Except.bind]
    | ok _ =>
      rcases htabled t hres with ⟨tables, htables, hfree⟩
      rcases h.exists_selectedRows hs hres htables hfree (hs.schema.declared_of_checkQuery
        hcheck) with ⟨selection, db', hmatching, hrun, hwidens, hsound, hselected⟩
      refine .inr ⟨t, selection, db', hmatching, hrun, hwidens, hsound, ?_, ?_⟩
      · intro row hrow
        exact (List.mem_filter.1 ((Database.newestFirst_perm _).mem_iff.1 hrow)).1
      -- the ledger filters entries as the database filters rows
      · have hrows : (db.products.filter fun row =>
            (s.entryFor contents row).product.productType.id == t.id &&
              s.ledger.satisfies q (s.entryFor contents row).shown) =
            db.products.filter fun row => row.typeId == t.id &&
              q.holds (contents row.id).metadata := by
          apply List.filter_congr
          intro row hrow
          rw [type_entryFor hs htyped hrow]
          rfl
        simp [hcheck, bind, Except.bind, pure, Except.pure, answer_ledger, hrows, hselected]

/-- Wider tables stand for the same ledger. -/
theorem stands_widen (htyped : s.Typed db) (hwidens : Database.Widens db db')
    (hsound : s.Sound db' contents) : s.Stands db' (s.abstracted db contents) := by
  refine ⟨contents, hsound, fun row hrow => htyped row (hwidens.products ▸ hrow), ?_⟩
  rw [abstracted, abstracted, hwidens.products, hwidens.lastId]

theorem matches_query (hs : s.Regular) {u : ProductType} (htabled : s.TabledFor u) (q : Query) :
    Matches s.Stands (s.query q u) (s.ledger.catalog.query q u) := by
  apply Action.matches_reading
  rintro db st ⟨contents, h, htyped, rfl⟩
  rw [query, Action.run_bind, Action.run_ofExcept]
  rcases h.matching_ledger hs htabled htyped q with
    ⟨e, hmatching, hledger⟩ | ⟨t, selection, db', hmatching, hrun, hwidens, hsound, -, hledger⟩
  · rw [hmatching, hledger]
    exact ⟨db, rfl, contents, h, htyped, rfl⟩
  · rw [hmatching, hledger]
    refine ⟨db', ?_, stands_widen htyped hwidens hsound⟩
    dsimp only
    rw [Action.run_bind_ok hrun, Action.run_bind_ok (Action.run_get db'), Action.run_pure]
    simp only [bind, Except.bind, pure, Except.pure, List.map_map]
    rfl

theorem matches_page (hs : s.Regular) {u : ProductType} (htabled : s.TabledFor u) (q : Query)
    (number : Int) : Matches s.Stands (s.page q u number) (s.ledger.catalog.page q u number) := by
  apply Action.matches_reading
  rintro db st ⟨contents, h, htyped, rfl⟩
  rw [page_eq, Action.run_bind, Action.run_ofExcept]
  rcases h.matching_ledger hs htabled htyped q with
    ⟨e, hmatching, hledger⟩ | ⟨t, selection, db', hmatching, hrun, hwidens, hsound, hmem, hledger⟩
  · rw [hmatching, hledger]
    exact ⟨db, rfl, contents, h, htyped, rfl⟩
  · rw [hmatching, hledger]
    refine ⟨db', ?_, stands_widen htyped hwidens hsound⟩
    -- only the products of the page are loaded, from the widened tables
    have htyped' : s.Typed db' := fun row hrow => htyped row (hwidens.products ▸ hrow)
    have hsize : s.ledger.pageSize = s.pageSize := rfl
    have hfew : (selectedRows db' t selection).length ≤ greatestSigned :=
      hsound.length_newestFirst_le List.filter_sublist
    dsimp only
    rw [Action.run_bind_ok hrun, Action.run_bind_ok (Action.run_get db'), pageOf_eq hfew,
      Action.run_bind]
    simp only [bind, Except.bind, Ledger.pageOf, List.map_map, List.length_map, hsize]
    unfold Action.ofQuery
    rw [Action.run_ofExcept]
    cases PageWindow.resolve number s.pageSize (selectedRows db' t selection).length with
    | error e => rfl
    | ok window =>
      have hrows : ∀ row ∈ window.cut s.pageSize (selectedRows db' t selection),
          row ∈ db'.products := fun row hrow => hmem row (PageWindow.mem_of_mem_cut hrow)
      have hload := hsound.run_loadProducts hs htyped' hrows
      dsimp only [Except.mapError]
      apply (Action.run_bind_ok hload).trans
      rw [PageWindow.cut_map, List.map_map]
      rfl

/-! ## Histories -/

/-- The sizes of the references that the operation stores fit. -/
def Storable : Operation → Prop
  | .add _ p | .modify p | .addReferences p => SizesFit p.references
  | _ => True

/-- Every operation of the catalog is matched by that of the ledger. -/
theorem matches_perform (hs : s.Regular) (hlayout : s.layout = .narrow) (htabled : s.Tabled)
    {op : Operation} (hsizes : Storable op) :
    Matches s.Stands (s.catalog.perform op) (s.ledger.catalog.perform op) := by
  cases op with
  | add r p => exact (matches_add hs htabled r hsizes).answer _
  | modify p => exact (matches_modify hs hsizes).answer _
  | remove p => exact (matches_remove hs).answer _
  | setStatus p => exact matches_setStatus.answer _
  | addReferences p => exact (matches_addReferences hs hsizes).answer _
  | addMetadata m p => exact (matches_addMetadata hs hlayout m).answer _
  | removeMetadata m p => exact (matches_removeMetadata hs hlayout m).answer _
  | byId id => exact (matches_byId hs id).answer _
  | byName name => exact (matches_byName hs name).answer _
  | references p => exact matches_references.answer _
  | products => exact (matches_products hs).answer _
  | productsOfType t => exact (matches_productsOfType hs t).answer _
  | metadata p => exact (matches_metadata hs).answer _
  | query q t => exact (matches_query hs (htabled.tabledFor hs t) q).answer _
  | page q t number => exact (matches_page hs (htabled.tabledFor hs t) q number).answer _
  | newest n => exact (matches_newest hs n).answer _
  | newestOfType n t => exact (matches_newestOfType hs n t).answer _
  | count t => exact (matches_count hs t).answer _

/-- On every history a catalog in the narrow layout answers and fails as its ledger does. -/
theorem narrow_refines_ledger (s : Store) (hschema : s.schema.Regular)
    (hlayout : s.layout = .narrow) (htabled : s.Tabled) (history : List Operation)
    (hsizes : ∀ op ∈ history, Storable op) :
    s.catalog.outcomes .empty history = s.ledger.catalog.outcomes .empty history := by
  have hs : s.Regular := ⟨hschema, fun hwide => absurd hlayout hwide⟩
  refine Catalog.outcomes_eq_of_simulation
    (R := fun rest db st => (∀ op ∈ rest, Storable op) ∧ s.Stands db st) ?_ ⟨hsizes, stands_empty⟩
  intro op rest db st ⟨hfit, hstands⟩
  rcases matches_perform hs hlayout htabled (hfit op List.mem_cons_self) db st hstands with
    ⟨hanswer, hafter⟩
  exact ⟨hanswer, fun later hlater => hfit later (List.mem_cons_of_mem op hlater), hafter⟩

/-! ## Shared tables -/

/-- A catalog in the narrow layout whose two types share their tables. -/
def sharedStore : Store where
  layout := .narrow
  bases := [("GRANULE", "archive"), ("ANCILLARY", "archive")]
  schema := SchemaDocument.toSchema
    { version := 1
      elements := [⟨"urn:station", "Station", ""⟩]
      types := [⟨granule, ["Station"]⟩, ⟨⟨"urn:ancillary", "ANCILLARY", "", "", "", .empty⟩, []⟩] }
  pageSize := 20

/-- A product is registered, given metadata and moved, and its metadata are read. -/
def sharedHistory : List Operation :=
  let registered : Product :=
    ⟨some "1", "a", granule, .flat, .received, [⟨"a", "b", 7, none⟩], none⟩
  [.add ⟨"", 5⟩ { registered with id := none },
    .addMetadata (.ofPairs [("Station", "A")]) registered,
    .addReferences registered, .metadata registered, .byName "a"]

theorem shared_tables_refine_ledger :
    (∀ op ∈ sharedHistory, Storable op) ∧
      sharedStore.catalog.outcomes .empty sharedHistory =
        sharedStore.ledger.catalog.outcomes .empty sharedHistory := by
  have hsizes : ∀ op ∈ sharedHistory, Storable op := by
    simp [sharedHistory, Storable, SizesFit, Database.greatestSize]
  have htabled : sharedStore.Tabled := by
    intro t ht
    have hid : t.id ≠ "" := by
      have hids : ∀ t ∈ sharedStore.schema.types.types, t.id ≠ "" := by decide +kernel
      exact hids t ht
    have hbase : ∀ t ∈ sharedStore.schema.types.types,
        TypeTables.ofType sharedStore.bases t = .ok ⟨"archive"⟩ := by decide +kernel
    exact ⟨hid, ⟨"archive"⟩, hbase t ht, by decide +kernel⟩
  exact ⟨hsizes, narrow_refines_ledger sharedStore (Schema.regular_toSchema _) rfl htabled
    sharedHistory hsizes⟩

/-- A type whose name begins like the names that databases keep for themselves can not be given
products, and an id that is no product's is taken for the number that it spells. -/
theorem narrow_departs_on_names_and_ids :
    let s : Store := { twoTypesStore with layout := .narrow }
    let p : Product := ⟨none, "a", granule, .flat, .received, [], none⟩
    s.schema.Regular ∧ (∀ t ∈ s.schema.types.types, t.id ≠ "" ∧ usableName t.name = .ok t.name) ∧
    s.catalog.outcomes .empty [.add ⟨"", 5⟩ { p with productType := log }] =
      [.error (.store (.reservedName "sqlite_log_reference"))] ∧
    s.catalog.outcomes .empty [.add ⟨"", 5⟩ p, .setStatus { p with id := some "01" }] =
      [.ok (.product ⟨some "1", "a", granule, .flat, .received, [], Instant.ofMillis? 5⟩),
        .ok .done] := by
  dsimp only
  refine ⟨Schema.regular_toSchema twoTypes, ?_, ?_, ?_⟩
  · decide +kernel
  · decide +kernel
  · decide +kernel

end Store

end ArchiveCatalog.Relational

import Mathlib.Data.Int.Interval
import Mathlib.Logic.Function.Basic
import ArchiveCatalog.Proofs.History
import ArchiveCatalog.Proofs.Relational.Paging
import ArchiveCatalog.Proofs.Relational.Storing

namespace ArchiveCatalog.Relational

/-! # Sound databases

A database is sound for given contents when its products have different ids that have been
given out and the tables of their types hold the contents of each. Every operation of the
relational catalog keeps databases sound: a write changes the contents of one product, a read
widens tables at most, and what fails changes nothing.
-/

namespace Store

open Database (Extends Widens)

/-- The products, the tables and the contents of a database agree. Products whose types are not
found have nothing in tables of metadata. -/
structure Sound (s : Store) (db : Database) (contents : Int → Contents) : Prop where
  ids : (db.products.map ProductRow.id).Nodup
  given : ∀ r ∈ db.products, 1 ≤ r.id ∧ r.id ≤ db.lastId
  capacity : db.lastId ≤ Database.greatestId
  fresh : ∀ j : Int, db.lastId < j → ∀ name, db.rowsIn name j = [] ∧ db.referencesIn name j = []
  shaped : s.Shaped db
  holds : ∀ r ∈ db.products, ∀ t, s.schema.typeById r.typeId = .ok t →
    ∃ tables, TypeTables.ofType s.bases t = .ok tables ∧ tables.isReserved = false ∧
      s.Ready db t tables ∧ s.Holds db t tables r.id (contents r.id)
  untyped : ∀ r ∈ db.products, (∀ t, s.schema.typeById r.typeId ≠ .ok t) →
    (contents r.id).metadata = .empty ∧ ∀ name, db.rowsIn name r.id = []

variable {s : Store} {db db' : Database} {contents : Int → Contents} {row : ProductRow}
  {t : ProductType} {tables : TypeTables} {id : Int}

theorem sound_empty : s.Sound .empty contents := by
  refine ⟨List.nodup_nil, ?_, Nat.zero_le _, fun _ _ _ => ⟨rfl, rfl⟩, .empty, ?_, ?_⟩
  · intro r hr
    exact absurd hr List.not_mem_nil
  · intro r hr
    exact absurd hr List.not_mem_nil
  · intro r hr
    exact absurd hr List.not_mem_nil

/-! ## Products -/

theorem mem_of_product? (h : db.product? id = some row) : row ∈ db.products ∧ row.id = id :=
  ⟨List.mem_of_find?_eq_some h, by simpa using List.find?_some h⟩

theorem Sound.product?_eq (h : s.Sound db contents) (hrow : row ∈ db.products) :
    db.product? row.id = some row := by
  cases hfound : db.product? row.id with
  | none => simpa using List.find?_eq_none.1 hfound row hrow
  | some other =>
    rcases mem_of_product? hfound with ⟨hother, hid⟩
    rw [List.inj_on_of_nodup_map h.ids hother hrow hid]

/-- Products have different ids from 1 to the greatest. -/
theorem Sound.length_le (h : s.Sound db contents) : db.products.length ≤ Database.greatestId := by
  have hsub : (db.products.map ProductRow.id).toFinset ⊆ Finset.Icc 1 (db.lastId : Int) := by
    intro id hid
    rcases List.mem_map.1 (List.mem_toFinset.1 hid) with ⟨row, hrow, rfl⟩
    exact Finset.mem_Icc.2 (h.given row hrow)
  have hcard := Finset.card_le_card hsub
  rw [List.toFinset_card_of_nodup h.ids, List.length_map, Int.card_Icc] at hcard
  have hcapacity := h.capacity
  omega

theorem Sound.not_mem_nextId (h : s.Sound db contents) (hrow : row ∈ db.products) :
    row.id ≠ db.nextId := by
  have hle := (h.given row hrow).2
  unfold Database.nextId
  omega

/-! ## Changes -/

/-- Wider tables say the same. -/
theorem Sound.widen (h : s.Sound db contents) (hwidens : Widens db db') (hshaped : s.Shaped db') :
    s.Sound db' contents := by
  refine ⟨hwidens.products ▸ h.ids, ?_, hwidens.lastId ▸ h.capacity, ?_, hshaped, ?_, ?_⟩
  · rw [hwidens.products, hwidens.lastId]
    exact h.given
  · intro j hj name
    rw [hwidens.rows name j trivial, hwidens.references name j trivial]
    exact h.fresh j (hwidens.lastId ▸ hj) name
  · intro r hr t ht
    rw [hwidens.products] at hr
    rcases h.holds r hr t ht with ⟨tables, htables, hfree, hready, hholds⟩
    exact ⟨tables, htables, hfree, hready.extend hwidens.toExtends,
      hholds.extend hwidens.toExtends trivial⟩
  · intro r hr huntyped
    rw [hwidens.products] at hr
    rcases h.untyped r hr huntyped with ⟨hmetadata, hrows⟩
    exact ⟨hmetadata, fun name => (hwidens.rows name r.id trivial).trans (hrows name)⟩

/-- A write that touches one stored product gives it new contents. The type that the product is
found to have, if any, is the one written to. -/
theorem Sound.replace (h : s.Sound db contents) (hproducts : db'.products = db.products)
    (hlast : db'.lastId = db.lastId) (hshaped : s.Shaped db')
    (hext : Extends db db' (· ≠ id)) (hid : id ≤ db.lastId)
    (htables : TypeTables.ofType s.bases t = .ok tables)
    (htype : ∀ r ∈ db.products, r.id = id → ∀ t', s.schema.typeById r.typeId = .ok t' → t' = t)
    {c : Contents} (hholds : s.Holds db t tables id (contents id) → s.Holds db' t tables id c)
    (huntyped : ∀ r ∈ db.products, r.id = id → (∀ t', s.schema.typeById r.typeId ≠ .ok t') →
      c.metadata = .empty ∧ ∀ name, db'.rowsIn name id = []) :
    s.Sound db' (Function.update contents id c) := by
  refine ⟨hproducts ▸ h.ids, ?_, hlast ▸ h.capacity, ?_, hshaped, ?_, ?_⟩
  · rw [hproducts, hlast]
    exact h.given
  · intro j hj name
    rw [hlast] at hj
    rw [hext.rows name j (by omega), hext.references name j (by omega)]
    exact h.fresh j hj name
  · intro r hr t' ht'
    rw [hproducts] at hr
    rcases h.holds r hr t' ht' with ⟨tables', htables', hfree, hready, hheld⟩
    refine ⟨tables', htables', hfree, hready.extend hext, ?_⟩
    by_cases hsame : r.id = id
    · -- the product written to, whose tables are the ones written
      obtain rfl := htype r hr hsame t' ht'
      rw [htables] at htables'
      cases htables'
      subst hsame
      rw [Function.update_self]
      exact hholds hheld
    · -- another product, whose rows the write left alone
      rw [Function.update_of_ne hsame]
      exact hheld.extend hext hsame
  · intro r hr hnone
    rw [hproducts] at hr
    by_cases hsame : r.id = id
    · rw [hsame, Function.update_self]
      exact huntyped r hr hsame hnone
    · rw [Function.update_of_ne hsame]
      rcases h.untyped r hr hnone with ⟨hmetadata, hrows⟩
      exact ⟨hmetadata, fun name => (hext.rows name r.id hsame).trans (hrows name)⟩

/-- Rows of products may change in all but id and type. -/
theorem Sound.updateProduct (h : s.Sound db contents) {change : ProductRow → ProductRow}
    (hchange : ∀ r, (change r).id = r.id ∧ (change r).typeId = r.typeId) :
    s.Sound (db.updateProduct id change) contents := by
  -- every row keeps its id and its type, the changed one included
  have hone : ∀ r : ProductRow, (if r.id = id then change r else r).id = r.id ∧
      (if r.id = id then change r else r).typeId = r.typeId := by
    intro r
    split
    · exact hchange r
    · exact ⟨rfl, rfl⟩
  refine ⟨?_, ?_, h.capacity, h.fresh, h.shaped, ?_, ?_⟩
  · have hmap : (db.updateProduct id change).products.map ProductRow.id =
        db.products.map ProductRow.id := by
      rw [Database.updateProduct, List.map_map]
      exact List.map_congr_left fun r _ => (hone r).1
    rw [hmap]
    exact h.ids
  · intro r hr
    rcases List.mem_map.1 hr with ⟨old, hold, rfl⟩
    rw [(hone old).1]
    exact h.given old hold
  · intro r hr t ht
    rcases List.mem_map.1 hr with ⟨old, hold, rfl⟩
    rw [(hone old).2] at ht
    rcases h.holds old hold t ht with ⟨tables, htables, hfree, hready, hheld⟩
    rw [(hone old).1]
    have hext : Extends db (db.updateProduct id change) fun _ => True :=
      Database.extends_of_eq _ rfl rfl
    exact ⟨tables, htables, hfree, hready.extend hext, hheld.extend hext trivial⟩
  · intro r hr huntyped
    rcases List.mem_map.1 hr with ⟨old, hold, rfl⟩
    rw [(hone old).2] at huntyped
    rw [(hone old).1]
    exact h.untyped old hold huntyped

/-- Products may be erased. -/
theorem Sound.eraseProduct (h : s.Sound db contents) : s.Sound (db.eraseProduct id) contents := by
  have hsub : (db.eraseProduct id).products.Sublist db.products := List.filter_sublist
  refine ⟨h.ids.sublist (hsub.map _), fun r hr => h.given r (hsub.subset hr), h.capacity, h.fresh,
    h.shaped, ?_, fun r hr => h.untyped r (hsub.subset hr)⟩
  intro r hr t ht
  rcases h.holds r (hsub.subset hr) t ht with ⟨tables, htables, hfree, hready, hheld⟩
  have hext : Extends db (db.eraseProduct id) fun _ => True := Database.extends_of_eq _ rfl rfl
  exact ⟨tables, htables, hfree, hready.extend hext, hheld.extend hext trivial⟩

/-! ## Writes to a stored product -/

/-- The type of a stored product. -/
def typeIn (s : Store) (db : Database) (id : Int) : Except CatalogError ProductType :=
  match db.product? id with
  | some row => s.schema.typeById row.typeId
  | none => .error (.notFound "Product" (toString id))

theorem run_productRow :
    (productRow id).run db =
      (match db.product? id with
        | some row => .ok row
        | none => .error (.notFound "Product" (toString id)), db) := rfl

theorem run_storedType : (s.storedType id).run db = (s.typeIn db id, db) := by
  rw [storedType, Action.run_bind, run_productRow, typeIn]
  cases db.product? id <;> rfl

theorem exists_of_typeIn (h : s.typeIn db id = .ok t) :
    ∃ row, db.product? id = some row ∧ s.schema.typeById row.typeId = .ok t := by
  unfold typeIn at h
  cases hfound : db.product? id with
  | none => simp [hfound] at h
  | some row => exact ⟨row, rfl, by simpa [hfound] using h⟩

/-- What a stored product brings with it. -/
theorem Sound.stored (hs : s.Regular) (h : s.Sound db contents) (ht : s.typeIn db id = .ok t) :
    ∃ tables, t ∈ s.schema.types.types ∧ id ≤ db.lastId ∧ TypeTables.ofType s.bases t = .ok tables ∧
      tables.isReserved = false ∧ s.Ready db t tables ∧ s.Holds db t tables id (contents id) := by
  rcases exists_of_typeIn ht with ⟨row, hfound, htype⟩
  rcases mem_of_product? hfound with ⟨hrow, rfl⟩
  rcases h.holds row hrow t htype with ⟨tables, htables, hfree, hready, hholds⟩
  exact ⟨tables, hs.schema.mem_of_resolveType htype, (h.given row hrow).2, htables, hfree, hready,
    hholds⟩

/-- A change that keeps ids is a change of what is found. -/
theorem product?_updateProduct {change : ProductRow → ProductRow}
    (hchange : ∀ r, (change r).id = r.id) (j : Int) :
    (db.updateProduct id change).product? j =
      (db.product? j).map fun r => if r.id = id then change r else r := by
  have hsame : ((fun r : ProductRow => r.id == j) ∘ fun r => if r.id = id then change r else r) =
      fun r => r.id == j := by
    funext r
    dsimp only [Function.comp]
    split
    · rw [hchange r]
    · rfl
  unfold Database.product? Database.updateProduct
  dsimp only
  rw [List.find?_map, hsame]

/-- Changes that keep ids and types keep the types of stored products. -/
theorem typeIn_updateProduct {change : ProductRow → ProductRow}
    (hchange : ∀ r, (change r).id = r.id ∧ (change r).typeId = r.typeId) (j : Int) :
    s.typeIn (db.updateProduct id change) j = s.typeIn db j := by
  unfold typeIn
  rw [product?_updateProduct fun r => (hchange r).1]
  cases db.product? j with
  | none => rfl
  | some row =>
    dsimp only [Option.map_some]
    split
    · rw [(hchange row).2]
    · rfl

theorem Sound.type_eq (h : s.Sound db contents) (ht : s.typeIn db id = .ok t) {r : ProductRow}
    (hr : r ∈ db.products) (hid : r.id = id) {t' : ProductType}
    (hrt : s.schema.typeById r.typeId = .ok t') : t' = t := by
  subst hid
  rw [typeIn, h.product?_eq hr] at ht
  simpa [hrt] using ht

/-- A write to a product whose type is found gives it new contents. -/
theorem Sound.replaceStored (h : s.Sound db contents) (ht : s.typeIn db id = .ok t)
    (hproducts : db'.products = db.products) (hlast : db'.lastId = db.lastId)
    (hshaped : s.Shaped db') (hext : Extends db db' (· ≠ id)) (hid : id ≤ db.lastId)
    (htables : TypeTables.ofType s.bases t = .ok tables) {c : Contents}
    (hholds : s.Holds db t tables id (contents id) → s.Holds db' t tables id c) :
    s.Sound db' (Function.update contents id c) := by
  refine h.replace hproducts hlast hshaped hext hid htables
    (fun r hr hrid t' ht' => h.type_eq ht hr hrid ht') hholds ?_
  intro r hr hrid huntyped
  rw [typeIn, ← hrid, h.product?_eq hr] at ht
  exact absurd ht (huntyped t)

/-- The id and the type of the stored product that a write is about. -/
def target (s : Store) (db : Database) (p : Product) : Except CatalogError (Int × ProductType) := do
  let id ← numberOf p
  let t ← s.typeIn db id
  return (id, t)

theorem target_eq_ok {p : Product} (h : s.target db p = .ok (id, t)) :
    numberOf p = .ok id ∧ s.typeIn db id = .ok t := by
  rcases Action.bind_eq_ok_iff.1 h with ⟨id', hid, h⟩
  rcases Action.bind_eq_ok_iff.1 h with ⟨t', ht, h⟩
  cases h
  exact ⟨hid, ht⟩

/-- Writes to a stored product find it first; what fails then leaves no trace. -/
theorem run_onStored {α : Type} (p : Product) (write : Int → ProductType → Action Database α) :
    (do
      let id ← Action.ofExcept (numberOf p)
      Action.atomically do
        let t ← s.storedType id
        write id t).run db =
      match s.target db p with
      | .error e => (.error e, db)
      | .ok (id, t) => (Action.atomically (write id t)).run db := by
  rw [Action.run_bind, Action.run_ofExcept]
  cases hid : numberOf p with
  | error e =>
    have htarget : s.target db p = .error e := by simp [target, hid, bind, Except.bind]
    rw [htarget]
  | ok id =>
    dsimp only
    cases ht : s.typeIn db id with
    | error e =>
      have htarget : s.target db p = .error e := by simp [target, hid, ht, bind, Except.bind]
      rw [htarget]
      exact Action.run_atomically_error (by rw [Action.run_bind, run_storedType, ht])
    | ok t =>
      have htarget : s.target db p = .ok (id, t) := by
        simp [target, hid, ht, bind, Except.bind, pure, Except.pure]
      rw [htarget]
      exact Action.run_atomically_congr (by rw [Action.run_bind, run_storedType, ht])

theorem run_updateProduct {change : ProductRow → ProductRow} :
    (alter fun db => .ok (db.updateProduct id change)).run db =
      (.ok (), db.updateProduct id change) := rfl

/-- Storing references under a sound database. -/
theorem Sound.storeReferences (hs : s.Regular) (h : s.Sound db contents)
    (ht : s.typeIn db id = .ok t) (references : List FileReference) :
    ∃ db', (s.storeReferences t id references).run db = (.ok (), db') ∧
      db'.products = db.products ∧ db'.lastId = db.lastId ∧
      s.Sound db' (Function.update contents id
        { contents id with references := references.map Database.storable }) := by
  rcases h.stored hs ht with ⟨tables, -, hid, htables, -, hready, -⟩
  rcases run_storeReferences id htables hready references with ⟨entries, hrun, hext, hholds⟩
  refine ⟨_, hrun, rfl, rfl, ?_⟩
  have hproducts : { db with references := entries }.products = db.products := rfl
  exact h.replaceStored ht hproducts rfl h.shaped hext hid htables (hholds _)

/-- Storing metadata under a sound database. -/
theorem Sound.storeMetadata (hs : s.Regular) (h : s.Sound db contents) (ht : s.typeIn db id = .ok t)
    {m : Metadata} (hregular : m.Regular) (hwithin : m.Within (s.schema.declaredNames t)) :
    ∃ db', (s.storeMetadata t id m).run db = (.ok (), db') ∧
      db'.products = db.products ∧ db'.lastId = db.lastId ∧
      s.Sound db' (Function.update contents id
        { contents id with metadata := s.layout.kept m }) := by
  rcases h.stored hs ht with ⟨tables, hmem, hid, htables, -, hready, hheld⟩
  rcases run_storeMetadata id hs hmem htables h.shaped hready hregular hwithin with
    ⟨db', hrun, hframe, hext, hholds⟩
  rw [hheld.references] at hholds
  refine ⟨db', hrun, hframe.products, hframe.lastId, ?_⟩
  exact h.replaceStored ht hframe.products hframe.lastId (h.shaped.of_shapes hframe.shapes) hext hid
    htables fun _ => hholds

/-- Erasing metadata under a sound database. -/
theorem Sound.deleteMetadata (hs : s.Regular) (h : s.Sound db contents)
    (ht : s.typeIn db id = .ok t) :
    ∃ db', (s.deleteMetadata t id).run db = (.ok (), db') ∧
      db'.products = db.products ∧ db'.lastId = db.lastId ∧
      s.Sound db' (Function.update contents id { contents id with metadata := .empty }) := by
  rcases h.stored hs ht with ⟨tables, hmem, hid, htables, -, hready, hheld⟩
  have hframe := Database.sameFrame_eraseAll db (s.textTables t tables) id
  rcases holds_erased hheld with ⟨hext, hholds⟩
  refine ⟨_, run_deleteMetadata hs hmem htables hready, hframe.products, hframe.lastId, ?_⟩
  exact h.replaceStored ht hframe.products hframe.lastId (h.shaped.of_shapes hframe.shapes) hext hid
    htables fun _ => hholds

/-! ## Operations -/

variable {p : Product}

/-- How a product changes when another one is put in its place. -/
def modified (p : Product) (row : ProductRow) : ProductRow :=
  { row with name := p.name, fileStructure := p.fileStructure, status := p.status }

/-- Modifying changes the row and the references of a stored product. -/
theorem Sound.run_modify (hs : s.Regular) (h : s.Sound db contents)
    (htarget : s.target db p = .ok (id, t)) :
    ∃ db', (s.modify p).run db = (.ok (), db') ∧
      db'.products = (db.updateProduct id (modified p)).products ∧ db'.lastId = db.lastId ∧
      s.Sound db' (Function.update contents id
        { contents id with references := p.references.map Database.storable }) := by
  rcases target_eq_ok htarget with ⟨-, ht⟩
  have hkeeps : ∀ r, (modified p r).id = r.id ∧ (modified p r).typeId = r.typeId :=
    fun _ => ⟨rfl, rfl⟩
  have hupdated : s.Sound (db.updateProduct id (modified p)) contents := h.updateProduct hkeeps
  have htype : s.typeIn (db.updateProduct id (modified p)) id = .ok t :=
    (typeIn_updateProduct hkeeps id).trans ht
  rcases hupdated.storeReferences hs htype p.references with ⟨db', hrun, hproducts, hlast, hsound⟩
  refine ⟨db', ?_, hproducts, hlast, hsound⟩
  rw [modify, run_onStored p fun id t => do
    alter fun db => .ok (db.updateProduct id fun row =>
      { row with name := p.name, fileStructure := p.fileStructure, status := p.status })
    s.storeReferences t id p.references, htarget]
  exact Action.run_atomically_ok ((Action.run_bind_ok run_updateProduct).trans hrun)

theorem Sound.run_addReferences (hs : s.Regular) (h : s.Sound db contents)
    (htarget : s.target db p = .ok (id, t)) :
    ∃ db', (s.addReferences p).run db = (.ok (), db') ∧
      db'.products = db.products ∧ db'.lastId = db.lastId ∧
      s.Sound db' (Function.update contents id
        { contents id with references := p.references.map Database.storable }) := by
  rcases target_eq_ok htarget with ⟨-, ht⟩
  rcases h.storeReferences hs ht p.references with ⟨db', hrun, hproducts, hlast, hsound⟩
  refine ⟨db', ?_, hproducts, hlast, hsound⟩
  rw [addReferences, run_onStored p fun id t => s.storeReferences t id p.references, htarget]
  exact Action.run_atomically_ok hrun

/-- Removing erases the row of a stored product and all it has in the tables. -/
theorem Sound.run_remove (hs : s.Regular) (h : s.Sound db contents)
    (htarget : s.target db p = .ok (id, t)) :
    ∃ db', (s.remove p).run db = (.ok (), db') ∧
      db'.products = (db.eraseProduct id).products ∧ db'.lastId = db.lastId ∧
      s.Sound db' (Function.update contents id ⟨[], .empty⟩) := by
  rcases target_eq_ok htarget with ⟨-, ht⟩
  rcases h.storeReferences hs ht [] with ⟨db₁, hrun₁, hproducts₁, hlast₁, hsound₁⟩
  -- the row is still there while its references and metadata are erased
  have ht₁ : s.typeIn db₁ id = .ok t := by
    rw [typeIn, Database.product?, hproducts₁, ← Database.product?, ← typeIn, ht]
  rcases hsound₁.deleteMetadata hs ht₁ with ⟨db₂, hrun₂, hproducts₂, hlast₂, hsound₂⟩
  rw [Function.update_self, Function.update_idem] at hsound₂
  refine ⟨db₂.eraseProduct id, ?_, ?_, hlast₂.trans hlast₁, hsound₂.eraseProduct⟩
  · rw [remove, run_onStored p fun id t => do
      s.storeReferences t id []
      s.deleteMetadata t id
      alter fun db => .ok (db.eraseProduct id), htarget]
    apply Action.run_atomically_ok
    rw [Action.run_bind_ok hrun₁, Action.run_bind_ok hrun₂]
    rfl
  · simp [Database.eraseProduct, hproducts₂, hproducts₁]

/-- The transfer status is changed without a look at the type. -/
theorem run_setStatus (p : Product) :
    (setStatus p).run db =
      match numberOf p with
      | .error e => (.error e, db)
      | .ok id =>
        match db.product? id with
        | none => (.error (.notFound "Product" (toString id)), db)
        | some _ => (.ok (), db.updateProduct id fun row => { row with status := p.status }) := by
  rw [setStatus, Action.run_bind, Action.run_ofExcept]
  cases numberOf p with
  | error e => rfl
  | ok id =>
    dsimp only
    cases hrow : db.product? id with
    | none =>
      have hthere : (productRow id).run db = (.error (.notFound "Product" (toString id)), db) := by
        rw [run_productRow, hrow]
      exact Action.run_atomically_error (Action.run_bind_error (Action.run_discard_error hthere))
    | some row =>
      have hthere : (productRow id).run db = (.ok row, db) := by rw [run_productRow, hrow]
      apply Action.run_atomically_ok
      rw [Action.run_bind_ok (Action.run_discard_ok hthere)]
      rfl

/-- Changing metadata replaces those of a stored product by what the layout keeps of the changed
ones. -/
theorem Sound.run_changeMetadata (hs : s.Regular) (h : s.Sound db contents)
    (htarget : s.target db p = .ok (id, t))
    {change : ProductType → Metadata → Except CatalogError Metadata} {m : Metadata}
    (hchange : change t (contents id).metadata = .ok m) (hregular : m.Regular)
    (hwithin : m.Within (s.schema.declaredNames t)) :
    ∃ db', (s.changeMetadata p change).run db = (.ok (), db') ∧
      db'.products = db.products ∧ db'.lastId = db.lastId ∧
      s.Sound db' (Function.update contents id
        { contents id with metadata := s.layout.kept m }) := by
  rcases target_eq_ok htarget with ⟨-, ht⟩
  rcases h.stored hs ht with ⟨tables, hmem, -, htables, hfree, -, -⟩
  rcases run_ensureTables_ok hs hmem h.shaped htables hfree with
    ⟨db₁, hrun₁, hwidens, hshaped₁, hready₁⟩
  have hsound₁ := h.widen hwidens hshaped₁
  have ht₁ : s.typeIn db₁ id = .ok t := by
    rw [typeIn, Database.product?, hwidens.products, ← Database.product?, ← typeIn, ht]
  rcases hsound₁.stored hs ht₁ with ⟨tables', -, -, htables', -, -, hheld⟩
  rw [htables] at htables'
  cases htables'
  -- the tables are widened before the metadata are loaded, which loses none
  have hload := run_loadMetadata hs hmem htables hshaped₁ hready₁ hheld
  rcases hsound₁.storeMetadata hs ht₁ hregular hwithin with
    ⟨db₂, hrun₂, hproducts₂, hlast₂, hsound₂⟩
  refine ⟨db₂, ?_, hproducts₂.trans hwidens.products, hlast₂.trans hwidens.lastId, hsound₂⟩
  rw [changeMetadata, run_onStored p fun id t => do
    s.ensureTables t
    let stored ← s.loadMetadata t id
    s.storeMetadata t id (← .ofExcept (change t stored)), htarget]
  apply Action.run_atomically_ok
  rw [Action.run_bind_ok hrun₁, Action.run_bind_ok hload, hchange]
  exact hrun₂

/-! ## Registering -/

/-- What can be known of a registration before the database is looked at: the type, if there is
one whose tables can be named. -/
def registrable (s : Store) (p : Product) : Except CatalogError (ProductType × TypeTables) := do
  p.requireUnregistered
  let t ← s.schema.resolveType p.productType
  let tables ← TypeTables.ofType s.bases t
  if tables.isReserved = true then .error (.store (.reservedName tables.reference))
  else .ok (t, tables)

theorem registrable_eq_ok (h : s.registrable p = .ok (t, tables)) :
    p.requireUnregistered = .ok () ∧ s.schema.resolveType p.productType = .ok t ∧
      TypeTables.ofType s.bases t = .ok tables ∧ tables.isReserved = false := by
  rcases Action.bind_eq_ok_iff.1 h with ⟨u, hp, h⟩
  rcases Action.bind_eq_ok_iff.1 h with ⟨t', hres, h⟩
  rcases Action.bind_eq_ok_iff.1 h with ⟨tables', htables, h⟩
  split at h
  · cases h
  · rename_i hfree
    cases h
    exact ⟨hp, hres, htables, by simpa using hfree⟩

theorem run_add_error {r : Registration} {e : CatalogError} (h : s.registrable p = .error e) :
    (s.add r p).run db = (.error e, db) := by
  unfold registrable at h
  rw [add, Action.run_bind, Action.run_ofExcept]
  cases hp : p.requireUnregistered with
  | error e' =>
    simp only [hp, bind, Except.bind, Except.error.injEq] at h
    rw [h]
  | ok u =>
    dsimp only
    rw [Action.run_bind, Action.run_ofExcept]
    cases hres : s.schema.resolveType p.productType with
    | error e' =>
      simp only [hp, hres, bind, Except.bind, Except.error.injEq] at h
      rw [h]
    | ok t =>
      -- with a type at hand only its tables can stand in the way
      have hfail : (s.ensureTables t).run db = (.error e, db) := by
        cases htables : TypeTables.ofType s.bases t with
        | error e' =>
          simp only [hp, hres, htables, bind, Except.bind, Except.error.injEq] at h
          rw [run_ensureTables_error htables, h]
        | ok tables =>
          by_cases hreserved : tables.isReserved = true
          · simp only [hp, hres, htables, hreserved, bind, Except.bind, if_true,
              Except.error.injEq] at h
            rw [run_ensureTables_reserved htables hreserved, h]
          · simp [hp, hres, htables, hreserved, bind, Except.bind] at h
      exact Action.run_bind_error (Action.run_atomically_error (Action.run_bind_error hfail))

/-- A new product of a type whose tables are ready. -/
theorem Sound.insertProduct (hs : s.Regular) (h : s.Sound db contents)
    (hmem : t ∈ s.schema.types.types) (htables : TypeTables.ofType s.bases t = .ok tables)
    (hfree : tables.isReserved = false) (hready : s.Ready db t tables)
    (hroom : db.lastId < Database.greatestId) (millis : Int) :
    ∃ db', db.insertProduct p t.id millis = .ok db' ∧
      db'.products = db.products ++
        [⟨db.nextId, p.name, p.fileStructure, p.status, t.id, millis⟩] ∧
      db'.lastId = db.lastId + 1 ∧ s.Ready db' t tables ∧
      s.Sound db' (Function.update contents db.nextId ⟨[], .empty⟩) := by
  let row : ProductRow := ⟨db.nextId, p.name, p.fileStructure, p.status, t.id, millis⟩
  let db' : Database := { db with products := db.products ++ [row], lastId := db.lastId + 1 }
  have hext : Extends db db' fun _ => True := Database.extends_of_eq _ rfl rfl
  refine ⟨db', if_pos hroom, rfl, rfl, hready.extend hext, ?_⟩
  have hnext : db.nextId = db.lastId + 1 := rfl
  refine ⟨?_, ?_, hroom, ?_, h.shaped, ?_, ?_⟩
  · rw [List.map_append, List.nodup_append]
    refine ⟨h.ids, by simp, ?_⟩
    intro a ha b hb heq
    rcases List.mem_map.1 ha with ⟨old, hold, rfl⟩
    exact h.not_mem_nextId hold (heq.trans (by simpa [row] using hb))
  · intro r hr
    have hlast : ((db'.lastId : Nat) : Int) = db.lastId + 1 := by simp [db']
    rcases List.mem_append.1 hr with hold | hnew
    · have hgiven := h.given r hold
      omega
    · rw [List.mem_singleton.1 hnew]
      show 1 ≤ db.nextId ∧ db.nextId ≤ db'.lastId
      omega
  · intro j hj name
    have hlater : (db.lastId : Int) < j := by
      have hlast : ((db'.lastId : Nat) : Int) = db.lastId + 1 := by simp [db']
      omega
    exact h.fresh j hlater name
  -- the new product has an id above all given ones, for which nothing is held
  · intro r hr t' ht'
    rcases List.mem_append.1 hr with hold | hnew
    · rcases h.holds r hold t' ht' with ⟨tables', htables', hfree', hready', hheld⟩
      rw [Function.update_of_ne (h.not_mem_nextId hold)]
      exact ⟨tables', htables', hfree', hready'.extend hext, hheld.extend hext trivial⟩
    · rw [List.mem_singleton.1 hnew] at ht' ⊢
      have hsame : t' = t := hs.schema.eq_of_typeById hmem ht'
      subst hsame
      have hfresh := h.fresh db.nextId (by omega)
      refine ⟨tables, htables, hfree, hready.extend hext, ?_⟩
      show s.Holds db' t' tables db.nextId (Function.update contents db.nextId _ db.nextId)
      rw [Function.update_self]
      exact holds_empty (hfresh tables.reference).2 rfl fun name => (hfresh name).1
  · intro r hr huntyped
    rcases List.mem_append.1 hr with hold | hnew
    · rw [Function.update_of_ne (h.not_mem_nextId hold)]
      exact h.untyped r hold huntyped
    · rw [List.mem_singleton.1 hnew]
      show (Function.update contents db.nextId ⟨[], .empty⟩ db.nextId).metadata = .empty ∧ _
      rw [Function.update_self]
      exact ⟨rfl, fun name => (h.fresh db.nextId (by omega) name).1⟩

/-- What the caller of a registration is answered. -/
def registered (r : Registration) (p : Product) (id : Int) (t : ProductType) : Product :=
  { p with id := some (toString id), productType := t, received := Instant.ofMillis? r.millis }

/-- What `add` does to the database, all of it or none. -/
def addRows (s : Store) (r : Registration) (p : Product) (t : ProductType) :
    Action Database Int := do
  s.ensureTables t
  let id := (← get).nextId
  alter fun db => db.insertProduct p t.id r.millis
  s.storeReferences t id p.references
  return id

theorem run_add_eq {r : Registration} (hok : s.registrable p = .ok (t, tables)) :
    (s.add r p).run db = ((Action.atomically (s.addRows r p t)).bind fun id =>
      Action.ofExcept (.ok (registered r p id t))).run db := by
  rcases registrable_eq_ok hok with ⟨hp, hres, -, -⟩
  rw [add, Action.run_bind, Action.run_ofExcept, hp]
  dsimp only
  rw [Action.run_bind, Action.run_ofExcept, hres]
  rfl

/-- The references of a new product take the place of none. -/
theorem Sound.storeNewReferences (hs : s.Regular) (h : s.Sound db contents) {id : Int}
    (hmem : t ∈ s.schema.types.types) (htables : TypeTables.ofType s.bases t = .ok tables)
    (htype : ∀ row ∈ db.products, row.id = id → row.typeId = t.id) (hready : s.Ready db t tables)
    (hle : id ≤ db.lastId) (hcontents : contents id = ⟨[], .empty⟩)
    (references : List FileReference) :
    ∃ entries, (s.storeReferences t id references).run db =
        (.ok (), { db with references := entries }) ∧
      s.Sound { db with references := entries }
        (Function.update contents id ⟨references.map Database.storable, .empty⟩) := by
  rcases run_storeReferences id htables hready references with ⟨entries, hrun, hext, hholds⟩
  have hproducts : { db with references := entries }.products = db.products := rfl
  refine ⟨entries, hrun, h.replace hproducts rfl h.shaped hext hle htables ?_ ?_ ?_⟩
  · intro r hr hrid t' ht'
    rw [htype r hr hrid] at ht'
    exact hs.schema.eq_of_typeById hmem ht'
  · rw [hcontents]
    exact hholds _
  · intro r hr hrid huntyped
    exact ⟨rfl, fun name => hrid ▸ (h.untyped r hr huntyped).2 name⟩

/-- Registering adds a row under the next id, with references and without metadata. -/
theorem Sound.run_add (hs : s.Regular) (h : s.Sound db contents) {r : Registration}
    (hok : s.registrable p = .ok (t, tables)) (hroom : db.lastId < Database.greatestId) :
    ∃ db', (s.add r p).run db = (.ok (registered r p db.nextId t), db') ∧
      db'.products = db.products ++
        [⟨db.nextId, p.name, p.fileStructure, p.status, t.id, r.millis⟩] ∧
      db'.lastId = db.lastId + 1 ∧
      s.Sound db' (Function.update contents db.nextId
        ⟨p.references.map Database.storable, .empty⟩) := by
  rcases registrable_eq_ok hok with ⟨-, hres, htables, hfree⟩
  have hmem := hs.schema.mem_of_resolveType hres
  rcases run_ensureTables_ok hs hmem h.shaped htables hfree with
    ⟨db₁, hrun₁, hwidens, hshaped₁, hready₁⟩
  have hnext : db₁.nextId = db.nextId := by rw [Database.nextId, hwidens.lastId, Database.nextId]
  rcases (h.widen hwidens hshaped₁).insertProduct hs hmem htables hfree hready₁
      (hwidens.lastId ▸ hroom) r.millis (p := p) with
    ⟨db₂, hinsert, hproducts₂, hlast₂, hready₂, hsound₂⟩
  rw [hwidens.products, hnext] at hproducts₂
  rw [hwidens.lastId] at hlast₂
  rw [hnext] at hsound₂
  -- only the new row has the new id
  have htype : ∀ row ∈ db₂.products, row.id = db.nextId → row.typeId = t.id := by
    intro row hrow hid
    rw [hproducts₂] at hrow
    rcases List.mem_append.1 hrow with hold | hlast
    · exact absurd hid (h.not_mem_nextId hold)
    · rw [List.mem_singleton.1 hlast]
  have hle : db.nextId ≤ db₂.lastId := by
    rw [hlast₂]
    exact Int.le_of_eq (by simp [Database.nextId])
  rcases hsound₂.storeNewReferences hs hmem htables htype hready₂ hle
    (Function.update_self ..) p.references with ⟨entries, hrun₃, hsound₃⟩
  rw [Function.update_idem] at hsound₃
  refine ⟨{ db₂ with references := entries }, ?_, hproducts₂, hlast₂, hsound₃⟩
  have hrows : (s.addRows r p t).run db = (.ok db.nextId, { db₂ with references := entries }) := by
    rw [addRows, Action.run_bind_ok hrun₁, Action.run_bind_ok (Action.run_get db₁)]
    dsimp only
    rw [hnext, Action.run_bind_ok (run_alter_ok hinsert), Action.run_bind_ok hrun₃]
    rfl
  rw [run_add_eq hok]
  exact Action.run_bind_ok (Action.run_atomically_ok hrows)

/-- When all ids have been given out, registering fails. -/
theorem Sound.run_add_full (hs : s.Regular) (h : s.Sound db contents) {r : Registration}
    (hok : s.registrable p = .ok (t, tables)) (hfull : ¬ db.lastId < Database.greatestId) :
    (s.add r p).run db = (.error (.store .full), db) := by
  rcases registrable_eq_ok hok with ⟨-, hres, htables, hfree⟩
  rcases run_ensureTables_ok hs (hs.schema.mem_of_resolveType hres) h.shaped htables hfree with
    ⟨db₁, hrun₁, hwidens, -, -⟩
  have hinsert : db₁.insertProduct p t.id r.millis = .error .full := by
    rw [Database.insertProduct, if_neg (hwidens.lastId ▸ hfull)]
  have hrows : (s.addRows r p t).run db = (.error (.store .full), db₁) := by
    rw [addRows, Action.run_bind_ok hrun₁, Action.run_bind_ok (Action.run_get db₁)]
    exact Action.run_bind_error (run_alter_error hinsert)
  rw [run_add_eq hok]
  exact Action.run_bind_error (Action.run_atomically_error hrows)

/-! ## Reads -/

theorem silent_inspect {α : Type} (f : Database → Except StoreFault α) :
    Action.Silent (inspect f) := Action.silent_reading _

theorem silent_storedType (id : Int) : Action.Silent (s.storedType id) :=
  (Action.silent_reading _).bind fun _ => Action.silent_ofExcept _

theorem silent_loadReferences (t : ProductType) (id : Int) :
    Action.Silent (s.loadReferences t id) :=
  (Action.silent_ofExcept _).bind fun _ => silent_inspect _

theorem silent_loadProduct (id : Int) : Action.Silent (s.loadProduct id) :=
  (Action.silent_reading _).bind fun _ => (Action.silent_ofExcept _).bind fun _ =>
    (silent_loadReferences _ _).bind fun _ => Action.silent_pure _

theorem silent_loadProducts (rows : List ProductRow) : Action.Silent (s.loadProducts rows) :=
  Action.silent_mapM fun row => silent_loadProduct row.id

theorem silent_pageOf (number : Int) (rows : List ProductRow) :
    Action.Silent (s.pageOf number rows) := by
  refine (Action.silent_ofExcept _).bind fun window => ?_
  split
  · exact Action.silent_pure _
  · exact (silent_loadProducts _).answer _

theorem silent_loadNarrow (tables : TypeTables) (t : ProductType) (id : Int) :
    Action.Silent (s.loadNarrow tables t id) :=
  (Action.silent_ofExcept _).bind fun _ => (silent_inspect _).bind fun _ =>
    (Action.silent_ofExcept _).bind fun _ => Action.silent_pure _

theorem silent_loadWide (tables : TypeTables) (t : ProductType) (id : Int) :
    Action.Silent (s.loadWide tables t id) :=
  (silent_inspect _).bind fun _ => (Action.silent_ofExcept _).bind fun _ =>
    Action.silent_foldlM (fun _ _ => ((Action.silent_ofExcept _).bind fun _ =>
      silent_inspect _).bind fun _ => Action.silent_pure _) _

theorem silent_loadMetadata (t : ProductType) (id : Int) : Action.Silent (s.loadMetadata t id) := by
  apply (Action.silent_ofExcept _).bind
  intro tables
  cases s.layout with
  | narrow => exact silent_loadNarrow tables t id
  | wide vectors => exact silent_loadWide tables t id

/-! ## Histories -/

/-- A write without a stored product to be about fails and changes nothing. -/
theorem run_writes_error {e : CatalogError} (htarget : s.target db p = .error e) :
    (s.modify p).run db = (.error e, db) ∧ (s.remove p).run db = (.error e, db) ∧
      (s.addReferences p).run db = (.error e, db) ∧
      ∀ change, (s.changeMetadata p change).run db = (.error e, db) := by
  refine ⟨?_, ?_, ?_, ?_⟩
  · rw [modify, run_onStored p fun id t => _, htarget]
  · rw [remove, run_onStored p fun id t => _, htarget]
  · rw [addReferences, run_onStored p fun id t => _, htarget]
  · intro change
    rw [changeMetadata, run_onStored p fun id t => _, htarget]

/-- Metadata that are added or removed stay regular and declared. -/
theorem Sound.run_addMetadata (hs : s.Regular) (h : s.Sound db contents)
    (htarget : s.target db p = .ok (id, t)) (m : Metadata) :
    ∃ db', (s.addMetadata m p).run db = (.ok (), db') ∧
      db'.products = db.products ∧ db'.lastId = db.lastId ∧
      s.Sound db' (Function.update contents id { contents id with
        metadata := s.layout.kept
          ((contents id).metadata.merge (m.reduce (s.schema.declaredNames t))) }) := by
  rcases h.stored hs (target_eq_ok htarget).2 with ⟨tables, -, -, -, -, -, hheld⟩
  refine h.run_changeMetadata hs htarget ?_ (hheld.regular.merge _)
    (hheld.within.merge (Metadata.Within.reduce _ _))
  rw [hs.schema.inStage_eq, hs.schema.declaredMetadata_eq]
  rfl

theorem Sound.run_removeMetadata (hs : s.Regular) (h : s.Sound db contents)
    (htarget : s.target db p = .ok (id, t)) (m : Metadata) :
    ∃ db', (s.removeMetadata m p).run db = (.ok (), db') ∧
      db'.products = db.products ∧ db'.lastId = db.lastId ∧
      s.Sound db' (Function.update contents id { contents id with
        metadata := s.layout.kept ((contents id).metadata.removeValues m) }) := by
  rcases h.stored hs (target_eq_ok htarget).2 with ⟨tables, -, -, -, -, -, hheld⟩
  exact h.run_changeMetadata hs htarget rfl (hheld.regular.removeValues m)
    (hheld.within.removeValues m)

/-- The database is sound for some contents. -/
def IsSound (s : Store) (db : Database) : Prop := ∃ contents, s.Sound db contents

open ArchiveCatalog.Action (Keeps)

theorem keeps_add (hs : s.Regular) (r : Registration) (p : Product) :
    Keeps s.IsSound (s.add r p) := by
  rintro db ⟨contents, h⟩
  -- refused, registered, or out of ids
  cases hok : s.registrable p with
  | error e =>
    rw [run_add_error hok]
    exact ⟨contents, h⟩
  | ok found =>
    by_cases hroom : db.lastId < Database.greatestId
    · rcases h.run_add hs hok hroom (r := r) with ⟨db', hrun, -, -, hsound⟩
      rw [hrun]
      exact ⟨_, hsound⟩
    · rw [h.run_add_full hs hok hroom]
      exact ⟨contents, h⟩

/-- A write to the product that an id stands for makes new rows of the old ones and puts new
contents in the place of those of the product. Without such a product it fails. -/
def Makes (s : Store) (write : Action Database Unit) (p : Product)
    (rows : Int → List ProductRow → List ProductRow) (held : ProductType → Contents → Contents) :
    Prop :=
  ∀ db contents, s.Sound db contents →
    (∀ e, s.target db p = .error e → write.run db = (.error e, db)) ∧
    ∀ id t, s.target db p = .ok (id, t) →
      ∃ db', write.run db = (.ok (), db') ∧ db'.products = rows id db.products ∧
        db'.lastId = db.lastId ∧ s.Sound db' (Function.update contents id (held t (contents id)))

theorem Makes.keeps {write : Action Database Unit}
    {rows : Int → List ProductRow → List ProductRow} {held : ProductType → Contents → Contents}
    (h : s.Makes write p rows held) : Keeps s.IsSound write := by
  rintro db ⟨contents, hsound⟩
  rcases h db contents hsound with ⟨herror, hok⟩
  cases htarget : s.target db p with
  | error e =>
    rw [herror e htarget]
    exact ⟨contents, hsound⟩
  | ok found =>
    rcases hok found.1 found.2 htarget with ⟨db', hrun, -, -, hsound'⟩
    rw [hrun]
    exact ⟨_, hsound'⟩

theorem makes_modify (hs : s.Regular) (p : Product) :
    s.Makes (s.modify p) p (fun id rows => rows.map fun r => if r.id = id then modified p r else r)
      fun _ c => { c with references := p.references.map Database.storable } :=
  fun _ _ h => ⟨fun _ he => (run_writes_error he).1, fun _ _ htarget => h.run_modify hs htarget⟩

theorem makes_remove (hs : s.Regular) (p : Product) :
    s.Makes (s.remove p) p (fun id rows => rows.filter (·.id != id)) fun _ _ => ⟨[], .empty⟩ :=
  fun _ _ h => ⟨fun _ he => (run_writes_error he).2.1, fun _ _ htarget => h.run_remove hs htarget⟩

theorem makes_addReferences (hs : s.Regular) (p : Product) :
    s.Makes (s.addReferences p) p (fun _ rows => rows)
      fun _ c => { c with references := p.references.map Database.storable } :=
  fun _ _ h => ⟨fun _ he => (run_writes_error he).2.2.1,
    fun _ _ htarget => h.run_addReferences hs htarget⟩

theorem makes_addMetadata (hs : s.Regular) (m : Metadata) (p : Product) :
    s.Makes (s.addMetadata m p) p (fun _ rows => rows) fun t c =>
      { c with
        metadata := s.layout.kept (c.metadata.merge (m.reduce (s.schema.declaredNames t))) } :=
  fun _ _ h => ⟨fun _ he => (run_writes_error he).2.2.2 _,
    fun _ _ htarget => h.run_addMetadata hs htarget m⟩

theorem makes_removeMetadata (hs : s.Regular) (m : Metadata) (p : Product) :
    s.Makes (s.removeMetadata m p) p (fun _ rows => rows) fun _ c =>
      { c with metadata := s.layout.kept (c.metadata.removeValues m) } :=
  fun _ _ h => ⟨fun _ he => (run_writes_error he).2.2.2 _,
    fun _ _ htarget => h.run_removeMetadata hs htarget m⟩

theorem keeps_setStatus (p : Product) : Keeps s.IsSound (setStatus p) := by
  rintro db ⟨contents, h⟩
  rw [run_setStatus]
  split
  · exact ⟨contents, h⟩
  · split
    · exact ⟨contents, h⟩
    · exact ⟨contents, h.updateProduct fun _ => ⟨rfl, rfl⟩⟩

/-- Making tables ready fails and changes nothing, or it widens them. -/
theorem keeps_ensureTables (hs : s.Regular) (hmem : t ∈ s.schema.types.types) :
    Keeps s.IsSound (s.ensureTables t) := by
  rintro db ⟨contents, h⟩
  cases htables : TypeTables.ofType s.bases t with
  | error e =>
    rw [run_ensureTables_error htables]
    exact ⟨contents, h⟩
  | ok tables =>
    cases hreserved : tables.isReserved with
    | true =>
      rw [run_ensureTables_reserved htables hreserved]
      exact ⟨contents, h⟩
    | false =>
      rcases run_ensureTables_ok hs hmem h.shaped htables hreserved with
        ⟨db', hrun, hwidens, hshaped, -⟩
      rw [hrun]
      exact ⟨contents, h.widen hwidens hshaped⟩

/-- A query is about the type that its partial type is resolved to. -/
theorem resolveType_of_matching {q : Query} {u : ProductType} {selection : Selection}
    (h : s.matching q u = .ok (t, selection)) : s.schema.resolveType u = .ok t := by
  rcases Action.bind_eq_ok_iff.1 h with ⟨t', hres, hrest⟩
  rcases Action.bind_eq_ok_iff.1 hrest with ⟨-, -, hrest⟩
  rcases Action.bind_eq_ok_iff.1 hrest with ⟨translation, -, hrest⟩
  rcases Action.bind_eq_ok_iff.1 hrest with ⟨found, -, hrest⟩
  cases hrest
  exact hres

theorem keeps_matching {α : Type} (hs : s.Regular) (q : Query) (u : ProductType)
    {answer : ProductType × Selection → Action Database α}
    (hanswer : ∀ t selection, t ∈ s.schema.types.types → Keeps s.IsSound (answer (t, selection))) :
    Keeps s.IsSound (.ofExcept (s.matching q u) >>= answer) := by
  intro db h
  rw [Action.run_bind, Action.run_ofExcept]
  cases hmatching : s.matching q u with
  | error e => exact h
  | ok found =>
    have hres := resolveType_of_matching hmatching
    exact hanswer found.1 found.2 (hs.schema.mem_of_resolveType hres) db h

theorem keeps_query (hs : s.Regular) (q : Query) (u : ProductType) :
    Keeps s.IsSound (s.query q u) := by
  unfold query
  apply keeps_matching hs q u
  intro t selection hmem
  exact (keeps_ensureTables hs hmem).bind fun _ =>
    (Action.silent_get.bind fun _ => Action.silent_pure _).keeps

theorem keeps_page (hs : s.Regular) (q : Query) (u : ProductType) (number : Int) :
    Keeps s.IsSound (s.page q u number) := by
  rw [page_eq]
  apply keeps_matching hs q u
  intro t selection hmem
  exact (keeps_ensureTables hs hmem).bind fun _ =>
    (Action.silent_get.bind fun _ => silent_pageOf number _).keeps

/-- Reads leave the database alone, but that queries and pages make tables ready. -/
theorem silent_perform {op : Operation} (hread : op.isWrite = false)
    (hquery : ∀ q t, op ≠ .query q t) (hpage : ∀ q t number, op ≠ .page q t number) :
    Action.Silent (s.catalog.perform op) := by
  cases op with
  | add | modify | remove | setStatus | addReferences | addMetadata | removeMetadata =>
    cases hread
  | byId id =>
    exact ((Action.silent_ofExcept _).bind fun _ => silent_loadProduct _).answer _
  | byName name =>
    refine Action.Silent.answer (Action.silent_get.bind ?_) _
    intro db
    split
    · exact Action.silent_throw _
    · exact silent_loadProduct _
    · exact Action.silent_throw _
  | references p =>
    exact ((Action.silent_ofExcept _).bind fun id => (silent_storedType id).bind fun t =>
      silent_loadReferences t id).answer _
  | products => exact (Action.silent_get.bind fun _ => silent_loadProducts _).answer _
  | productsOfType t =>
    exact ((Action.silent_ofExcept _).bind fun _ => Action.silent_get.bind fun _ =>
      silent_loadProducts _).answer _
  | metadata p =>
    exact ((Action.silent_ofExcept _).bind fun id => (silent_storedType id).bind fun t =>
      silent_loadMetadata t id).answer _
  | query q t => exact absurd rfl (hquery q t)
  | page q t number => exact absurd rfl (hpage q t number)
  | newest n => exact (Action.silent_get.bind fun _ => silent_loadProducts _).answer _
  | newestOfType n t =>
    exact ((Action.silent_ofExcept _).bind fun _ => Action.silent_get.bind fun _ =>
      silent_loadProducts _).answer _
  | count t =>
    exact ((Action.silent_ofExcept _).bind fun _ => Action.silent_get.bind fun _ =>
      Action.silent_pure _).answer _

/-- Every operation keeps databases sound. -/
theorem keeps_perform (hs : s.Regular) (op : Operation) :
    Keeps s.IsSound (s.catalog.perform op) := by
  -- writes, and reads that may widen tables, have a proof each
  cases op with
  | add r p => exact (keeps_add hs r p).answer _
  | modify p => exact (makes_modify hs p).keeps.answer _
  | remove p => exact (makes_remove hs p).keeps.answer _
  | setStatus p => exact (keeps_setStatus p).answer _
  | addReferences p => exact (makes_addReferences hs p).keeps.answer _
  | addMetadata m p => exact (makes_addMetadata hs m p).keeps.answer _
  | removeMetadata m p => exact (makes_removeMetadata hs m p).keeps.answer _
  | query q t => exact (keeps_query hs q t).answer _
  | page q t number => exact (keeps_page hs q t number).answer _
  | byId | byName | references | products | productsOfType | metadata | newest | newestOfType
  | count => exact (silent_perform rfl (by simp) (by simp)).keeps

/-- Databases filled by a catalog are sound. -/
theorem isSound_after (hs : s.Regular) (ops : List Operation) :
    s.IsSound (s.catalog.after .empty ops) := by
  have hinit : s.IsSound .empty := ⟨fun _ => ⟨[], .empty⟩, sound_empty⟩
  exact Catalog.after_induction (fun op _ => keeps_perform hs op) hinit

end Store

end ArchiveCatalog.Relational

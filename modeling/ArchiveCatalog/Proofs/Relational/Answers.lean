import ArchiveCatalog.Proofs.Numeral
import ArchiveCatalog.Proofs.Relational.Meaning
import ArchiveCatalog.Proofs.Relational.Soundness

namespace ArchiveCatalog.Relational

/-! # Answers to queries

A query on a type answers the ids of exactly those stored products of the type whose metadata,
as the catalog itself reads them, satisfy it: each once, the newest first and of products as
new the one with the larger id. This holds after every history, in both layouts, however
types share their tables. A type whose tables would have reserved names can not be asked.
-/

/-! ## Order -/

namespace Database

/-- The first product was received later, or at the same time with the larger id. -/
def Newer (a b : ProductRow) : Prop :=
  b.received < a.received ∨ a.received = b.received ∧ b.id < a.id

theorem newerOrSame_iff {a b : ProductRow} :
    newerOrSame a b = true ↔ b.received < a.received ∨ a.received = b.received ∧ b.id ≤ a.id := by
  simp [newerOrSame]

theorem newestFirst_perm (rows : List ProductRow) : (newestFirst rows).Perm rows :=
  List.mergeSort_perm rows newerOrSame

/-- Products with different ids stand strictly one after the other. -/
theorem pairwise_newestFirst {rows : List ProductRow} (h : (rows.map ProductRow.id).Nodup) :
    (newestFirst rows).Pairwise Newer := by
  have htrans : ∀ a b c : ProductRow, newerOrSame a b = true → newerOrSame b c = true →
      newerOrSame a c = true := by
    intro a b c hab hbc
    rw [newerOrSame_iff] at hab hbc ⊢
    omega
  have htotal : ∀ a b : ProductRow, (newerOrSame a b || newerOrSame b a) = true := by
    intro a b
    rw [Bool.or_eq_true, newerOrSame_iff, newerOrSame_iff]
    omega
  -- sorting leaves products as new as each other, which their ids tell apart
  have hsorted : (newestFirst rows).Pairwise fun a b => newerOrSame a b = true :=
    List.pairwise_mergeSort htrans htotal rows
  have hids : ((newestFirst rows).map ProductRow.id).Nodup :=
    (((newestFirst_perm rows).map ProductRow.id).nodup_iff).2 h
  have hdistinct : (newestFirst rows).Pairwise fun a b => a.id ≠ b.id := List.pairwise_map.1 hids
  apply (hsorted.and hdistinct).imp
  intro a b ⟨hle, hne⟩
  rw [newerOrSame_iff] at hle
  rcases hle with hlater | ⟨hsame, hid⟩
  · exact Or.inl hlater
  · exact Or.inr ⟨hsame, by omega⟩

end Database

namespace Store

variable {s : Store} {db : Database} {contents : Int → Contents} {row : ProductRow}
  {t : ProductType} {tables : TypeTables}

/-! ## Reading metadata -/

theorem numberOf_of_id {p : Product} {id : String} (hp : p.id = some id) :
    numberOf p = idNumber id := by
  rw [numberOf, Product.requireId, hp]
  rfl

/-- An id that can be given is read back from its text. -/
theorem idNumber_toString {id : Int} (hlow : 0 ≤ id) (hhigh : id ≤ Database.greatestId) :
    idNumber (toString id) = .ok id := by
  have hfits : Text.fitsInt64 id = true := by
    unfold Database.greatestId at hhigh
    simp only [Text.fitsInt64, Bool.and_eq_true, decide_eq_true_eq]
    omega
  rw [idNumber, Text.readInt64?_toString hfits]

/-- The id of a stored product is read back from its text. -/
theorem Sound.numberOf_eq (h : s.Sound db contents) (hrow : row ∈ db.products) {p : Product}
    (hp : p.id = some (toString row.id)) : numberOf p = .ok row.id := by
  rcases h.given row hrow with ⟨hlow, hhigh⟩
  have hcapacity := h.capacity
  rw [numberOf_of_id hp]
  exact idNumber_toString (by omega) (by omega)

/-- Ids of stored products are spelled differently. -/
theorem Sound.toString_inj (h : s.Sound db contents) {row' : ProductRow} (hrow : row ∈ db.products)
    (hrow' : row' ∈ db.products) (heq : toString row.id = toString row'.id) : row.id = row'.id := by
  have hid := h.numberOf_eq hrow
    (p := { (default : Product) with id := some (toString row.id) }) rfl
  rw [h.numberOf_eq hrow' (by rw [← heq])] at hid
  exact (Except.ok.inj hid).symm

theorem Sound.typeIn_eq (h : s.Sound db contents) (hrow : row ∈ db.products) :
    s.typeIn db row.id = s.schema.typeById row.typeId := by
  rw [typeIn, h.product?_eq hrow]

/-- The metadata of a stored product are those held for it. -/
theorem Sound.run_metadata (hs : s.Regular) (h : s.Sound db contents) (hrow : row ∈ db.products)
    (ht : s.schema.typeById row.typeId = .ok t) {p : Product} (hid : numberOf p = .ok row.id) :
    (s.metadata p).run db = (.ok (contents row.id).metadata, db) := by
  rcases h.holds row hrow t ht with ⟨tables, htables, -, hready, hheld⟩
  rw [metadata, Action.run_bind, Action.run_ofExcept, hid]
  dsimp only
  rw [Action.run_bind, run_storedType, h.typeIn_eq hrow, ht]
  exact run_loadMetadata hs (hs.schema.mem_of_resolveType ht) htables h.shaped hready hheld

/-! ## Answering -/

/-- Selected are the products of the type whose metadata satisfy the query. -/
theorem Sound.selectedRows_eq (hs : s.Regular) (h : s.Sound db contents)
    (hmem : t ∈ s.schema.types.types) (htables : TypeTables.ofType s.bases t = .ok tables)
    {q : Query} {selection : Selection}
    (hselects : ∀ db id c, db.hasProduct t.id id = true → s.Holds db t tables id c →
      selection.selects db id = q.holds c.metadata) :
    selectedRows db t selection = Database.newestFirst (db.products.filter fun row =>
      row.typeId == t.id && q.holds (contents row.id).metadata) := by
  unfold selectedRows
  congr 1
  apply List.filter_congr
  intro row hrow
  -- rows of other types in shared tables fail the test of the type first
  cases hsame : row.typeId == t.id with
  | false => rfl
  | true =>
    have hproduct : db.hasProduct t.id row.id = true :=
      List.any_eq_true.2 ⟨row, hrow, by simp [hsame]⟩
    have htypeId : row.typeId = t.id := beq_iff_eq.1 hsame
    cases htype : s.schema.typeById t.id with
    | ok t' =>
      obtain rfl := hs.schema.eq_of_typeById hmem htype
      obtain ⟨tables', htables', -, -, hheld⟩ := h.holds row hrow t' (by rw [htypeId, htype])
      rw [htables] at htables'
      cases htables'
      rw [hselects db row.id _ hproduct hheld]
    | error e =>
      -- a type that is not found under its id leaves its products without metadata
      have huntyped : ∀ t', s.schema.typeById row.typeId ≠ .ok t' := by simp [htypeId, htype]
      rcases h.untyped row hrow huntyped with ⟨hmetadata, hrows⟩
      have hheld : s.Holds db t tables row.id
          ⟨db.referencesIn tables.reference row.id, .empty⟩ := holds_empty rfl rfl hrows
      rw [hselects db row.id _ hproduct hheld, hmetadata]

/-- A query on a type whose tables can be named selects its products that satisfy it, after
the tables have been made ready. -/
theorem Sound.exists_selectedRows (hs : s.Regular) (h : s.Sound db contents) {u : ProductType}
    (hres : s.schema.resolveType u = .ok t) (htables : TypeTables.ofType s.bases t = .ok tables)
    (hfree : tables.isReserved = false) {q : Query}
    (hdeclared : ∀ a ∈ q.elements, a ∈ s.schema.declaredNames t) :
    ∃ selection db', s.matching q u = .ok (t, selection) ∧
      (s.ensureTables t).run db = (.ok (), db') ∧ Database.Widens db db' ∧ s.Sound db' contents ∧
      selectedRows db' t selection = Database.newestFirst (db.products.filter fun row =>
        row.typeId == t.id && q.holds (contents row.id).metadata) := by
  have hmem := hs.schema.mem_of_resolveType hres
  rcases exists_matching hs hres htables hdeclared with ⟨selection, hmatching, hselects⟩
  rcases run_ensureTables_ok hs hmem h.shaped htables hfree with ⟨db', hrun, hwidens, hshaped, -⟩
  have hsound := h.widen hwidens hshaped
  refine ⟨selection, db', hmatching, hrun, hwidens, hsound, ?_⟩
  rw [hsound.selectedRows_eq hs hmem htables hselects, hwidens.products]

/-- Such a query answers the ids of what it selects. -/
theorem Sound.run_query (hs : s.Regular) (h : s.Sound db contents) {u : ProductType}
    (hres : s.schema.resolveType u = .ok t) (htables : TypeTables.ofType s.bases t = .ok tables)
    (hfree : tables.isReserved = false) {q : Query}
    (hdeclared : ∀ a ∈ q.elements, a ∈ s.schema.declaredNames t) :
    ∃ db', Database.Widens db db' ∧ s.Sound db' contents ∧ (s.query q u).run db =
      (.ok ((Database.newestFirst (db.products.filter fun row =>
        row.typeId == t.id && q.holds (contents row.id).metadata)).map fun row => toString row.id),
        db') := by
  rcases h.exists_selectedRows hs hres htables hfree hdeclared with
    ⟨selection, db', hmatching, hrun, hwidens, hsound, hselected⟩
  refine ⟨db', hwidens, hsound, ?_⟩
  rw [query, Action.run_bind, Action.run_ofExcept, hmatching]
  dsimp only
  rw [Action.run_bind_ok hrun, Action.run_bind_ok (Action.run_get db'), Action.run_pure, hselected]

/-- Reading the metadata of the product of an id answers them. -/
def ReadsMetadata (s : Store) (db : Database) (id : Int) (m : Metadata) : Prop :=
  ∀ p : Product, p.id = some (toString id) → ((s.catalog.metadata p).run db).1 = .ok m

theorem ReadsMetadata.unique {id : Int} {m m' : Metadata} (h : s.ReadsMetadata db id m)
    (h' : s.ReadsMetadata db id m') : m = m' := by
  let p : Product := { (default : Product) with id := some (toString id) }
  have hread := h p rfl
  rw [h' p rfl] at hread
  exact (Except.ok.inj hread).symm

theorem Sound.readsMetadata (hs : s.Regular) (h : s.Sound db contents) (hrow : row ∈ db.products)
    (ht : s.schema.typeById row.typeId = .ok t) :
    s.ReadsMetadata db row.id (contents row.id).metadata := by
  intro p hp
  show ((s.metadata p).run db).1 = _
  rw [h.run_metadata hs hrow ht (h.numberOf_eq hrow hp)]

/-- Stored products are named apart. -/
theorem Sound.nodup_names (h : s.Sound db contents) {rows : List ProductRow}
    (hrows : ∀ row ∈ rows, row ∈ db.products) (hids : (rows.map ProductRow.id).Nodup) :
    (rows.map fun row => toString row.id).Nodup := by
  have hdistinct : rows.Pairwise fun a b => a.id ≠ b.id := List.pairwise_map.1 hids
  refine List.pairwise_map.2 (hdistinct.imp_of_mem ?_)
  intro a b ha hb hne heq
  exact hne (h.toString_inj (hrows a ha) (hrows b hb) heq)

/-- After every history a query on a type whose tables can be named answers exactly the stored
products of the type whose metadata satisfy it, each once and the newest first. -/
theorem query_answers_matching_products (s : Store) (hschema : s.schema.Regular)
    (hcolumns : s.layout ≠ .narrow → NamesColumns s.schema) (history : List Operation)
    {u t : ProductType} (hres : s.schema.resolveType u = .ok t) (hid : t.id ≠ "")
    {tables : TypeTables} (htables : TypeTables.ofType s.bases t = .ok tables)
    (hfree : tables.isReserved = false) (q : Query)
    (hdeclared : ∀ a ∈ q.elements, a ∈ s.schema.declaredNames t) :
    ∃ rows : List ProductRow,
      ((s.catalog.query q u).run (s.catalog.after .empty history)).1 =
        .ok (rows.map fun row => toString row.id) ∧
      (rows.map fun row => toString row.id).Nodup ∧
      rows.Pairwise Database.Newer ∧
      (∀ row, row ∈ rows ↔
        row ∈ (s.catalog.after .empty history).products ∧ row.typeId = t.id ∧
          ∃ m, s.ReadsMetadata (s.catalog.after .empty history) row.id m ∧ q.holds m = true) ∧
      ∀ row ∈ (s.catalog.after .empty history).products, row.typeId = t.id →
        ∃ m, s.ReadsMetadata (s.catalog.after .empty history) row.id m := by
  have hs : s.Regular := ⟨hschema, fun hwide => (hcolumns hwide).shared s.bases⟩
  rcases isSound_after hs history with ⟨contents, h⟩
  -- of the history nothing is needed but that the database is sound
  generalize s.catalog.after .empty history = db at h ⊢
  have htype : s.schema.typeById t.id = .ok t := hschema.typeById_eq_ok_iff.2
    (hschema.typeOf?_of_mem (hschema.mem_of_resolveType hres) hid)
  have hreads : ∀ row ∈ db.products, row.typeId = t.id →
      s.ReadsMetadata db row.id (contents row.id).metadata := by
    intro row hrow hsame
    exact h.readsMetadata hs hrow (by rw [hsame, htype])
  rcases h.run_query hs hres htables hfree hdeclared with ⟨db', -, -, hrun⟩
  let chosen := db.products.filter fun row =>
    row.typeId == t.id && q.holds (contents row.id).metadata
  have hsub : chosen.Sublist db.products := List.filter_sublist
  have hperm := Database.newestFirst_perm chosen
  have hids : (chosen.map ProductRow.id).Nodup := h.ids.sublist (hsub.map _)
  have hstored : ∀ row ∈ Database.newestFirst chosen, row ∈ db.products :=
    fun row hrow => hsub.subset (hperm.mem_iff.1 hrow)
  refine ⟨Database.newestFirst chosen, ?_, ?_, Database.pairwise_newestFirst hids, ?_,
    fun row hrow hsame => ⟨_, hreads row hrow hsame⟩⟩
  · show ((s.query q u).run db).1 = _
    rw [hrun]
  · exact h.nodup_names hstored ((hperm.map ProductRow.id).nodup_iff.2 hids)
  · intro row
    rw [hperm.mem_iff, List.mem_filter, Bool.and_eq_true, beq_iff_eq]
    constructor
    · rintro ⟨hrow, hsame, hholds⟩
      exact ⟨hrow, hsame, _, hreads row hrow hsame, hholds⟩
    · rintro ⟨hrow, hsame, m, hm, hholds⟩
      exact ⟨hrow, hsame, (hreads row hrow hsame).unique hm ▸ hholds⟩

/-! ## Two types -/

/-- A type of products with two elements. -/
def granule : ProductType := ⟨"urn:granule", "GRANULE", "", "", "", .empty⟩

/-- A type whose name no table can begin with. -/
def log : ProductType := ⟨"urn:log", "sqlite_log", "", "", "", .empty⟩

/-- A schema of the two types. -/
def twoTypes : SchemaDocument where
  version := 1
  elements := [⟨"urn:station", "Station", ""⟩, ⟨"urn:band", "Band", ""⟩]
  types := [⟨granule, ["Station", "Band"]⟩, ⟨log, []⟩]

/-- A catalog with a column for stations and a side table for bands. -/
def twoTypesStore : Store := ⟨.wide ["Band"], [], twoTypes.toSchema, 20⟩

theorem namesColumns_twoTypes : NamesColumns twoTypes.toSchema :=
  ⟨by decide +kernel, by decide +kernel, by decide +kernel⟩

/-- Granules without a station of the name A are asked for after one was registered. -/
theorem query_answers_granules :
    (∀ a ∈ (⟨[.negation (.term "Station" "A")]⟩ : Query).elements,
      a ∈ twoTypesStore.schema.declaredNames granule) ∧
    ∃ rows : List ProductRow,
      ((twoTypesStore.catalog.query ⟨[.negation (.term "Station" "A")]⟩ (.named "GRANULE")).run
        (twoTypesStore.catalog.after .empty
          [.add ⟨"", 5⟩ ⟨none, "a", granule, .flat, .received, [], none⟩])).1 =
        .ok (rows.map fun row => toString row.id) ∧
      (rows.map fun row => toString row.id).Nodup := by
  have hdeclared : ∀ a ∈ (⟨[.negation (.term "Station" "A")]⟩ : Query).elements,
      a ∈ twoTypesStore.schema.declaredNames granule := by decide +kernel
  have hres : twoTypesStore.schema.resolveType (.named "GRANULE") = .ok granule := by
    decide +kernel
  have htables : TypeTables.ofType twoTypesStore.bases granule = .ok ⟨"GRANULE"⟩ := by
    decide +kernel
  obtain ⟨rows, hanswer, hnodup, -⟩ := query_answers_matching_products twoTypesStore
    (Schema.regular_toSchema twoTypes) (fun _ => namesColumns_twoTypes)
    [.add ⟨"", 5⟩ ⟨none, "a", granule, .flat, .received, [], none⟩] hres (by decide) htables
    (by decide +kernel) ⟨[.negation (.term "Station" "A")]⟩ hdeclared
  exact ⟨hdeclared, rows, hanswer, hnodup⟩

/-- A type with an element whose name is that of the product column in capitals. -/
def capitals : SchemaDocument where
  version := 1
  elements := [⟨"urn:product", "PRODUCT_ID", ""⟩]
  types := [⟨granule, ["PRODUCT_ID"]⟩]

/-- Though no product is stored, a query fails on the type of logs, whose tables would have reserved
names. In the wide layout one also fails on the type with an element that is called like the product
column in capitals: names of columns do not differ by ASCII case alone. -/
theorem query_fails_for_reserved_name :
    let columns : Store := ⟨.wide [], [], capitals.toSchema, 20⟩
    twoTypesStore.schema.Regular ∧ NamesColumns twoTypesStore.schema ∧
    twoTypesStore.schema.resolveType (.named "sqlite_log") = .ok log ∧ log.id ≠ "" ∧
    usableName log.name = .ok "sqlite_log" ∧
    (twoTypesStore.catalog.after .empty []).products = [] ∧
    ((twoTypesStore.catalog.query .everything (.named "sqlite_log")).run
      (twoTypesStore.catalog.after .empty [])).1 =
        .error (.store (.reservedName "sqlite_log_reference")) ∧
    ((twoTypesStore.catalog.query .everything (.named "sqlite_log")).run
      (twoTypesStore.catalog.after .empty [])).1 ≠ .ok [] ∧
    columns.schema.Regular ∧
    (∀ t ∈ columns.schema.types.types, ∀ a ∈ columns.schema.declaredNames t,
      isUsableName a = true ∧ a ≠ productColumn ∧ ∀ u ∈ columns.schema.types.types,
        ∀ b ∈ columns.schema.declaredNames u, SameName a b → a = b) ∧
    columns.schema.resolveType (.named "GRANULE") = .ok granule ∧ granule.id ≠ "" ∧
    usableName granule.name = .ok "GRANULE" ∧
    (columns.catalog.after .empty []).products = [] ∧
    ((columns.catalog.query .everything (.named "GRANULE")).run
      (columns.catalog.after .empty [])).1 = .error (.store (.duplicateColumn "PRODUCT_ID")) ∧
    ((columns.catalog.query .everything (.named "GRANULE")).run
      (columns.catalog.after .empty [])).1 ≠ .ok [] := by
  intro columns
  have hlog : ((twoTypesStore.catalog.query .everything (.named "sqlite_log")).run
      (twoTypesStore.catalog.after .empty [])).1 =
        .error (.store (.reservedName "sqlite_log_reference")) := by
    decide +kernel
  have hcolumn : ((columns.catalog.query .everything (.named "GRANULE")).run
      (columns.catalog.after .empty [])).1 = .error (.store (.duplicateColumn "PRODUCT_ID")) := by
    decide +kernel
  refine ⟨Schema.regular_toSchema twoTypes, namesColumns_twoTypes, by decide +kernel, by decide,
    by decide +kernel, rfl, hlog, ?_, Schema.regular_toSchema capitals, by decide +kernel,
    by decide +kernel, by decide, by decide +kernel, rfl, hcolumn, ?_⟩
  · rw [hlog]
    exact fun h => by cases h
  · rw [hcolumn]
    exact fun h => by cases h

end Store

end ArchiveCatalog.Relational

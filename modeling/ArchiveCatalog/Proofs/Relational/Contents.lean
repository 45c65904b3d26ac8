import ArchiveCatalog.Proofs.Relational.Shapes

namespace ArchiveCatalog.Relational

/-! # What the tables of a type say about a product

A product of a type has references and metadata, its contents. `Store.Holds` says which rows
hold them in either layout, and contents are read back as they are held. Rows of other
products play no part.
-/

/-! ## Rows of a product -/

/-- The references and metadata of a product. -/
structure Contents where
  references : List FileReference
  metadata : Metadata
  deriving DecidableEq, Repr

/-- The row of a value in the narrow layout. -/
def entryRow (id : Int) (elementId value : String) : Row :=
  Table.rowFor id [(elementIdColumn, elementId), (valueColumn, value)]

/-- The row of a value in a side table. -/
def valueRow (id : Int) (value : String) : Row := Table.rowFor id [(valueColumn, value)]

theorem cell?_entryRow_element (id : Int) (elementId value : String) :
    (entryRow id elementId value).cell? elementIdColumn = some elementId := by
  simp [entryRow, cell?_rowFor]

theorem cell?_entryRow_value (id : Int) (elementId value : String) :
    (entryRow id elementId value).cell? valueColumn = some value := by
  have hne : Text.folded valueColumn ≠ Text.folded elementIdColumn := by decide
  simp [entryRow, cell?_rowFor, lookup_cons_ite, hne]

theorem cell?_valueRow (id : Int) (value : String) :
    (valueRow id value).cell? valueColumn = some value := by
  simp [valueRow, cell?_rowFor]

theorem accepts_entryShape (elementId value : String) :
    entryShape.Accepts [(elementIdColumn, elementId), (valueColumn, value)] := by
  constructor
  -- each cell has its column
  · intro c hc
    simp only [List.mem_cons, List.not_mem_nil, or_false] at hc
    rcases hc with rfl | rfl
    · exact ⟨⟨elementIdColumn, true⟩, by simp [entryShape], rfl⟩
    · exact ⟨⟨valueColumn, true⟩, by simp [entryShape], rfl⟩
  · intro c hc
    simp only [List.mem_cons, List.not_mem_nil, or_false] at hc
    rcases hc with rfl | rfl
    · exact (by decide : ¬ SameName elementIdColumn productColumn)
    · exact (by decide : ¬ SameName valueColumn productColumn)
  · intro column hcolumn _
    simp only [entryShape, List.mem_cons, List.not_mem_nil, or_false] at hcolumn
    rcases hcolumn with rfl | rfl
    · exact Option.isSome_of_eq_some (cell?_entryRow_element 0 elementId value)
    · exact Option.isSome_of_eq_some (cell?_entryRow_value 0 elementId value)

theorem accepts_valueShape (value : String) : valueShape.Accepts [(valueColumn, value)] := by
  constructor
  · intro c hc
    rw [List.mem_singleton.1 hc]
    exact ⟨⟨valueColumn, true⟩, by simp [valueShape], rfl⟩
  · intro c hc
    rw [List.mem_singleton.1 hc]
    exact (by decide : ¬ SameName valueColumn productColumn)
  · intro column hcolumn _
    rw [List.mem_singleton.1 hcolumn]
    exact Option.isSome_of_eq_some (cell?_valueRow 0 value)

/-! ## Held contents -/

namespace Store

/-- The cell of an element in the row of a product, if it has a column and a value. -/
def wideCell (s : Store) (e : String × List String) : Option (String × String) :=
  if s.layout.isVector e.1 = true then none else e.2.head?.map fun value => (e.1, value)

/-- The cells of the row of a product in the wide layout. -/
def wideCells (s : Store) (m : Metadata) : List (String × String) :=
  m.entries.filterMap s.wideCell

/-- The rows of a product in the wide layout: one row of first values, or no row as long as there
have been no metadata, and the values of each listed element in its side table. -/
structure HoldsWide (s : Store) (db : Database) (t : ProductType) (tables : TypeTables) (id : Int)
    (m : Metadata) : Prop where
  single : ∀ a, s.layout.isVector a = false → (m.values a).length ≤ 1
  row : db.rowsIn tables.metadata id = [Table.rowFor id (s.wideCells m)] ∨
    db.rowsIn tables.metadata id = [] ∧ m = .empty
  sides : ∀ a ∈ s.schema.declaredNames t, s.layout.isVector a = true →
    db.rowsIn (tables.side a) id = (m.values a).map (valueRow id)

/-- The tables of a type hold the contents of a product. -/
structure Holds (s : Store) (db : Database) (t : ProductType) (tables : TypeTables) (id : Int)
    (c : Contents) : Prop where
  references : db.referencesIn tables.reference id = c.references
  regular : c.metadata.Regular
  within : c.metadata.Within (s.schema.declaredNames t)
  narrow : s.layout = .narrow → db.rowsIn tables.metadata id =
    c.metadata.pairs.map fun p => entryRow id (s.schema.elementId t p.1) p.2
  wide : s.layout ≠ .narrow → s.HoldsWide db t tables id c.metadata

variable {s : Store} {db db' : Database} {t : ProductType} {tables : TypeTables} {id : Int}
  {c : Contents} {m : Metadata}

/-- Contents stay as long as the rows and references of the product do. -/
theorem Holds.extend {kept : Int → Prop} (h : s.Holds db t tables id c)
    (hext : Database.Extends db db' kept) (hid : kept id) : s.Holds db' t tables id c := by
  refine ⟨(hext.references _ id hid).trans h.references, h.regular, h.within, ?_, ?_⟩
  · intro hl
    rw [hext.rows _ id hid, h.narrow hl]
  · intro hl
    rcases h.wide hl with ⟨hsingle, hrow, hsides⟩
    exact ⟨hsingle, by rwa [hext.rows _ id hid],
      fun a ha hvector => by rw [hext.rows _ id hid, hsides a ha hvector]⟩

/-- A product without rows has no metadata. -/
theorem holds_empty (hreferences : db.referencesIn tables.reference id = c.references)
    (hmetadata : c.metadata = .empty) (hrows : ∀ name, db.rowsIn name id = []) :
    s.Holds db t tables id c := by
  refine ⟨hreferences, hmetadata ▸ .empty, hmetadata ▸ .empty _, ?_, ?_⟩
  · intro _
    rw [hrows, hmetadata]
    rfl
  · intro _
    rw [hmetadata]
    exact ⟨fun _ _ => Nat.zero_le 1, Or.inr ⟨hrows _, rfl⟩, fun a _ _ => by rw [hrows]; rfl⟩

theorem declared_of_mem_entries (hregular : m.Regular)
    (hwithin : m.Within (s.schema.declaredNames t)) {e : String × List String}
    (he : e ∈ m.entries) :
    e.1 ∈ s.schema.declaredNames t ∧ e.2 = m.values e.1 ∧ e.2 ≠ [] := by
  have hget := Metadata.mem_entries_iff.1 he
  have hvalues : m.values e.1 = e.2 := by simp [Metadata.values, hget]
  have hne := (hregular e.1 e.2 hget).1
  exact ⟨hwithin e.1 (hvalues ▸ hne), hvalues.symm, hne⟩

/-- The side tables of declared elements are there and can be named. -/
theorem Ready.side (hs : s.Regular) (hwide : s.layout ≠ .narrow) (ht : t ∈ s.schema.types.types)
    (hready : s.Ready db t tables) {a : String} (ha : a ∈ s.schema.declaredNames t)
    (hvector : s.layout.isVector a = true) :
    tables.valuesOf a = .ok (tables.side a) ∧ (db.shape? (tables.side a)).isSome = true := by
  refine ⟨tables.valuesOf_eq ((hs.columns hwide).usable t ht a ha), ?_⟩
  have hcovers := hready.elements hwide a ha
  rwa [Covers, if_pos hvector] at hcovers

/-! ## Reading contents -/

theorem run_loadReferences (htables : TypeTables.ofType s.bases t = .ok tables)
    (hready : s.Ready db t tables) (h : s.Holds db t tables id c) :
    (s.loadReferences t id).run db = (.ok c.references, db) := by
  rw [loadReferences, tablesOf, htables, Action.run_bind, Action.run_ofExcept]
  apply run_inspect_ok
  rw [Database.referencesOf_eq hready.references, h.references]

theorem mapM_entryOf (id : Int) (pairs : List (String × String)) :
    (pairs.map fun p => entryRow id p.1 p.2).mapM entryOf = .ok pairs := by
  rw [List.mapM_map]
  have hone : ∀ p ∈ pairs, entryOf (entryRow id p.1 p.2) = .ok p := by
    intro p _
    simp [entryOf, cellText, cell?_entryRow_element, cell?_entryRow_value, bind, Except.bind, pure,
      Except.pure]
  exact (Action.mapM_eq_ok hone).trans (by rw [List.map_id'])

/-- Declared elements are found again under their ids, in whichever rows they are. -/
theorem mapM_elementName (hs : s.Regular) (hregular : m.Regular)
    (hwithin : m.Within (s.schema.declaredNames t)) :
    ((m.pairs.map fun p => (s.schema.elementId t p.1, p.2)).zipIdx.mapM
      fun ((elementId, value), row) => do
        return (← s.elementName (s.schema.declaredElements t) row elementId, value)) =
      Except.ok m.pairs := by
  rw [List.zipIdx_map, List.mapM_map]
  have hone : ∀ p ∈ m.pairs.zipIdx, (do
      return (← s.elementName (s.schema.declaredElements t) p.2 (s.schema.elementId t p.1.1),
        p.1.2) : Except CatalogError (String × String)) = .ok p.1 := by
    intro p hp
    rcases List.mem_flatMap.1 (List.fst_mem_of_mem_zipIdx hp) with ⟨e, he, hpe⟩
    rcases List.mem_map.1 hpe with ⟨v, -, hv⟩
    rcases hs.schema.find?_elementId
      (declared_of_mem_entries hregular hwithin he).1 with ⟨d, hfound, hname⟩
    rw [← hv]
    simp [elementName, hfound, hname, bind, Except.bind, pure, Except.pure]
  exact (Action.mapM_eq_ok hone).trans (by rw [List.zipIdx_map_fst])

theorem run_loadNarrow (hs : s.Regular) (hlayout : s.layout = .narrow) (hshaped : s.Shaped db)
    (hready : s.Ready db t tables) (h : s.Holds db t tables id c) :
    (s.loadNarrow tables t id).run db = (.ok c.metadata, db) := by
  have hshape := hshaped.entryShape_of_narrow hlayout hready.metadata
  rcases Database.exists_table_of_shape? hshape with ⟨u, hu, hu', hrows⟩
  have hrowsOf : u.rowsOf id =
      (c.metadata.pairs.map fun p => (s.schema.elementId t p.1, p.2)).map fun p =>
        entryRow id p.1 p.2 := by
    rw [List.map_map]
    refine Eq.trans ?_ (h.narrow hlayout)
    rw [Database.rowsIn, hrows]
    rfl
  have hentries := mapM_entryOf id (c.metadata.pairs.map fun p => (s.schema.elementId t p.1, p.2))
  rw [← hrowsOf] at hentries
  have hread : (inspect fun db => do
      let table ← db.table tables.metadata
      table.requireColumns [elementIdColumn, valueColumn]
      (table.rowsOf id).mapM entryOf).run db =
      (.ok (c.metadata.pairs.map fun p => (s.schema.elementId t p.1, p.2)), db) := by
    apply run_inspect_ok
    simp [Database.table, hu, requireColumns_of_entryShape hu', hentries, bind, Except.bind]
  have hnamed := mapM_elementName hs h.regular h.within
  rw [loadNarrow, Action.run_bind, Action.run_ofExcept, hs.schema.inStage_eq,
    hs.schema.elementsFor_eq]
  dsimp only
  rw [Action.run_bind_ok hread, Action.run_bind, Action.run_ofExcept, hnamed]
  dsimp only
  rw [Metadata.ofPairs_pairs h.regular, Action.run_pure]

/-- Among the cells of entries, the first under the name of an element has its first value, as long
as no other entry has a column under the same name. -/
theorem lookup_cells {a : String} (hscalar : s.layout.isVector a = false)
    (entries : List (String × List String)) (hnodup : (entries.map Prod.fst).Nodup)
    (hapart : ∀ e ∈ entries, s.layout.isVector e.1 = false → SameName a e.1 → a = e.1) :
    ((entries.filterMap s.wideCell).map fun c => (Text.folded c.1, c.2)).lookup (Text.folded a) =
      ((entries.lookup a).getD []).head? := by
  induction entries with
  | nil => rfl
  | cons e rest ih =>
    rw [List.map_cons, List.nodup_cons] at hnodup
    have hrest := ih hnodup.2 fun d hd => hapart d (List.mem_cons_of_mem e hd)
    rw [List.filterMap_cons, lookup_cons_ite, wideCell]
    -- the first entry is the one of the element, or its cell has another name
    by_cases hsame : a = e.1
    · subst hsame
      rw [Metadata.lookup_of_not_mem _ hnodup.1] at hrest
      rw [if_neg (by simp [hscalar]), if_pos rfl]
      cases hhead : e.2.head? with
      | none => simpa [hhead] using hrest
      | some v => simp [hhead]
    · rw [if_neg hsame]
      by_cases hvector : s.layout.isVector e.1 = true
      · rw [if_pos hvector]
        exact hrest
      · rw [if_neg hvector]
        cases hhead : e.2.head? with
        | none => exact hrest
        | some v =>
          have hother : ¬ Text.folded a = Text.folded e.1 := fun h =>
            hsame (hapart e List.mem_cons_self (by simpa using hvector) h)
          simp only [Option.map_some, List.map_cons]
          rw [lookup_cons_ite, if_neg hother]
          exact hrest

/-- The cells of the row of a product, seen through the columns of its table. -/
theorem cell?_wideCells (hs : s.Regular) (hwide : s.layout ≠ .narrow)
    (ht : t ∈ s.schema.types.types) (htables : TypeTables.ofType s.bases t = .ok tables)
    (hregular : m.Regular) (hwithin : m.Within (s.schema.declaredNames t))
    {a : String} (ha : s.IsColumn tables.metadata a) :
    (Table.rowFor id (s.wideCells m)).cell? a = (m.values a).head? := by
  rw [cell?_rowFor]
  apply lookup_cells ha.1 m.entries m.ascend.nodup
  intro e he hscalar hsame
  have hdeclared := (declared_of_mem_entries hregular hwithin he).1
  exact ha.eq_of_sameName hs hwide (isColumn_of_declared ht htables hdeclared hscalar) hsame

/-- The values of an element in its side table. -/
theorem run_loadVector (hs : s.Regular) (hwide : s.layout ≠ .narrow) (ht : t ∈ s.schema.types.types)
    (hready : s.Ready db t tables) (h : s.Holds db t tables id c) {a : String}
    (ha : a ∈ s.schema.declaredNames t) (hvector : s.layout.isVector a = true) :
    (loadVector tables id a).run db = (.ok (c.metadata.values a), db) := by
  rcases hready.side hs hwide ht ha hvector with ⟨hvalues, hside⟩
  rcases Option.isSome_iff_exists.1 hside with ⟨shape, hshape⟩
  rcases Database.exists_table_of_shape? hshape with ⟨u, hu, -, hrows⟩
  -- a side table has a row for each value, in the order of the values
  have hrowsOf : u.rowsOf id = (c.metadata.values a).map (valueRow id) := by
    rw [← (h.wide hwide).sides a ha hvector, Database.rowsIn, hrows]
    rfl
  have hcells : (u.rowsOf id).mapM (fun r => cellText r valueColumn) =
      .ok (c.metadata.values a) := by
    rw [hrowsOf, List.mapM_map]
    have hone : ∀ v ∈ c.metadata.values a, cellText (valueRow id v) valueColumn = .ok v := by
      intro v _
      simp [cellText, cell?_valueRow]
    exact (Action.mapM_eq_ok hone).trans (by rw [List.map_id'])
  rw [loadVector, hvalues, Action.run_bind, Action.run_ofExcept]
  apply run_inspect_ok
  simp [Database.table, hu, hcells, bind, Except.bind]

/-- The columns of a table with the first values of their elements, as far as there are any. -/
def columnCells (columns : List Column) (m : Metadata) : List (String × String) :=
  columns.filterMap fun column =>
    (m.values column.name).head?.map fun text => (column.name, text)

theorem filter_columnCells (columns : List Column) (h : (columns.map Column.name).Nodup)
    (a : String) :
    ((columnCells columns m).filter (·.1 == a)).map Prod.snd =
      if a ∈ columns.map Column.name then (m.values a).take 1 else [] := by
  unfold columnCells
  induction columns with
  | nil => rfl
  | cons column rest ih =>
    rw [List.map_cons, List.nodup_cons] at h
    have hrest := ih h.2
    rw [List.filterMap_cons]
    by_cases hsame : column.name = a
    · subst hsame
      rw [if_neg h.1] at hrest
      cases hvalues : m.values column.name with
      | nil => simpa [hvalues] using hrest
      | cons v vs => simpa using hrest
    · have hne : (column.name == a) = false := by simpa using hsame
      cases hvalues : m.values column.name with
      | nil => simpa [Ne.symm hsame] using hrest
      | cons v vs => simpa [hne, Ne.symm hsame] using hrest

/-- What the row of a product says about an element with a column. -/
theorem values_columnCells (columns : List Column) (h : (columns.map Column.name).Nodup)
    (a : String) :
    (Metadata.ofPairs (columnCells columns m)).values a =
      if a ∈ columns.map Column.name then (m.values a).take 1 else [] := by
  rw [Metadata.values_ofPairs, filter_columnCells columns h]
  refine (Metadata.foldl_appendNew_of_nodup ?_).trans (List.nil_append _)
  split
  · cases m.values a <;> simp
  · simp

/-- The row of a product, if it has one, shows the first values of its metadata. -/
theorem HoldsWide.cells_eq (hs : s.Regular) (hwide : s.layout ≠ .narrow)
    (ht : t ∈ s.schema.types.types) (htables : TypeTables.ofType s.bases t = .ok tables)
    (h : s.HoldsWide db t tables id m) (hregular : m.Regular)
    (hwithin : m.Within (s.schema.declaredNames t)) {u : Table}
    (hfits : s.IsWide tables.metadata u.shape)
    (hrows : u.rowsOf id = db.rowsIn tables.metadata id) :
    ((u.rowsOf id).head?.map (cellsOf u)).getD [] = columnCells u.columns m := by
  rw [hrows]
  -- a product has a row as soon as it was given metadata
  rcases h.row with hone | ⟨hnone, hempty⟩
  · rw [hone]
    apply List.filterMap_congr
    intro column hcolumn
    rw [cell?_wideCells hs hwide ht htables hregular hwithin (hfits.declared column hcolumn)]
  · rw [hnone]
    refine (List.filterMap_eq_nil_iff.2 ?_).symm
    intro column _
    rw [hempty, Metadata.values_empty]
    rfl

/-- The values of the elements of a type that have side tables. -/
def vectorEntries (s : Store) (t : ProductType) (m : Metadata) : List (String × List String) :=
  ((s.schema.declaredElements t).filter fun e => s.layout.isVector e.name).map fun e =>
    (e.name, m.values e.name)

theorem nodup_vectorEntries (hs : s.Regular) :
    ((s.vectorEntries t m).map Prod.fst).Nodup := by
  have hnames : (s.vectorEntries t m).map Prod.fst =
      ((s.schema.declaredElements t).filter fun e => s.layout.isVector e.name).map
        Element.name := by
    simp [vectorEntries]
  rw [hnames]
  exact (hs.schema.nodup_declaredNames t).sublist (List.filter_sublist.map _)

theorem lookup_vectorEntries (hs : s.Regular) (a : String) :
    (s.vectorEntries t m).lookup a =
      if a ∈ s.schema.declaredNames t ∧ s.layout.isVector a = true then some (m.values a)
      else none := by
  split
  · rename_i hvector
    rcases hvector with ⟨hdeclared, hvector⟩
    rcases List.mem_map.1 hdeclared with ⟨e, he, rfl⟩
    refine (lookup_eq_some_iff (nodup_vectorEntries hs)).2 (List.mem_map.2 ⟨e, ?_, rfl⟩)
    exact List.mem_filter.2 ⟨he, hvector⟩
  · rename_i hother
    refine Metadata.lookup_of_not_mem a fun hmem => hother ?_
    rcases List.mem_map.1 hmem with ⟨entry, hentry, rfl⟩
    rcases List.mem_map.1 hentry with ⟨e, he, rfl⟩
    rcases List.mem_filter.1 he with ⟨he, hvector⟩
    exact ⟨List.mem_map_of_mem he, hvector⟩

/-- Columns and side tables together say all: listed elements have no column, and the others no
second value. -/
theorem HoldsWide.loaded_eq (hs : s.Regular) (hwide : s.layout ≠ .narrow)
    (hready : s.Ready db t tables) (h : s.HoldsWide db t tables id m) (hregular : m.Regular)
    (hwithin : m.Within (s.schema.declaredNames t)) {u : Table}
    (hfits : s.IsWide tables.metadata u.shape)
    (hshape : db.shape? tables.metadata = some u.shape) :
    (s.vectorEntries t m).foldl (fun m e => m.addAll e.1 e.2)
      (Metadata.ofPairs (columnCells u.columns m)) = m := by
  apply ((Metadata.Regular.ofPairs _).foldl_addAll _).ext hregular
  intro a
  have hcolumns := values_columnCells (m := m) u.columns hfits.nodup a
  rw [Metadata.values_foldl_addAll _ a _ (nodup_vectorEntries hs), hcolumns,
    lookup_vectorEntries hs]
  -- an element has a side table, a column, or is not declared for the type
  by_cases hdeclared : a ∈ s.schema.declaredNames t
  · by_cases hvector : s.layout.isVector a = true
    · have hnone : a ∉ u.columns.map Column.name := by
        intro hmem
        rcases List.mem_map.1 hmem with ⟨column, hcolumn, rfl⟩
        rw [(hfits.declared column hcolumn).1] at hvector
        cases hvector
      rw [if_neg hnone, if_pos ⟨hdeclared, hvector⟩]
      exact (Metadata.foldl_appendNew_of_nodup (by simpa using hregular.nodup_values a)).trans
        (List.nil_append _)
    · have hcovers := hready.elements hwide a hdeclared
      rw [Covers, if_neg hvector] at hcovers
      rcases hcovers with ⟨shape, hshape', hmem⟩
      rw [hshape] at hshape'
      cases hshape'
      rw [if_pos (show a ∈ u.columns.map Column.name from hmem), if_neg fun h => hvector h.2]
      exact List.take_of_length_le (h.single a (by simpa using hvector))
  · have hother : ¬ (a ∈ s.schema.declaredNames t ∧ s.layout.isVector a = true) :=
      fun h => hdeclared h.1
    rw [if_neg hother, hwithin.values_eq_nil a hdeclared]
    simp

theorem run_loadWide (hs : s.Regular) (hwide : s.layout ≠ .narrow) (ht : t ∈ s.schema.types.types)
    (htables : TypeTables.ofType s.bases t = .ok tables) (hshaped : s.Shaped db)
    (hready : s.Ready db t tables) (h : s.Holds db t tables id c) :
    (s.loadWide tables t id).run db = (.ok c.metadata, db) := by
  rcases Option.isSome_iff_exists.1 hready.metadata with ⟨shape, hshape⟩
  rcases Database.exists_table_of_shape? hshape with ⟨u, hu, rfl, hrows⟩
  have hfits : s.IsWide tables.metadata u.shape := hshaped.isWide hwide hshape
  have hrowsOf : u.rowsOf id = db.rowsIn tables.metadata id := by
    rw [Database.rowsIn, hrows]
    rfl
  have hcells := (h.wide hwide).cells_eq hs hwide ht htables h.regular h.within hfits hrowsOf
  have hread : (inspect fun db => do
      let table ← db.table tables.metadata
      return ((table.rowsOf id).head?.map (cellsOf table)).getD []).run db =
        (.ok (columnCells u.columns c.metadata), db) := by
    apply run_inspect_ok
    rw [← hcells]
    simp [Database.table, hu, bind, Except.bind, pure, Except.pure]
  have hloop : (((s.schema.declaredElements t).filter fun e : Element =>
      s.layout.isVector e.name).foldlM
      (fun (m : Metadata) (e : Element) => return m.addAll e.name (← loadVector tables id e.name))
      (Metadata.ofPairs (columnCells u.columns c.metadata))).run db = (.ok c.metadata, db) := by
    have hloaded := (h.wide hwide).loaded_eq hs hwide hready h.regular h.within hfits hshape
    rw [vectorEntries, List.foldl_map] at hloaded
    refine (Action.run_foldlM ?_ _).trans (by rw [hloaded])
    intro m e he
    rcases List.mem_filter.1 he with ⟨hmem, hvector⟩
    have hone := run_loadVector hs hwide ht hready h (List.mem_map_of_mem hmem) hvector
    exact (Action.run_bind_ok hone).trans rfl
  rw [loadWide, Action.run_bind_ok hread, Action.run_bind, Action.run_ofExcept,
    hs.schema.inStage_eq, hs.schema.elementsFor_eq]
  exact hloop

/-- The metadata held are the metadata read. -/
theorem run_loadMetadata (hs : s.Regular) (ht : t ∈ s.schema.types.types)
    (htables : TypeTables.ofType s.bases t = .ok tables) (hshaped : s.Shaped db)
    (hready : s.Ready db t tables) (h : s.Holds db t tables id c) :
    (s.loadMetadata t id).run db = (.ok c.metadata, db) := by
  rw [loadMetadata, tablesOf, htables, Action.run_bind, Action.run_ofExcept]
  cases hl : s.layout with
  | narrow => exact run_loadNarrow hs hl hshaped hready h
  | wide vectors => exact run_loadWide hs (by simp [hl]) ht htables hshaped hready h

end Store

end ArchiveCatalog.Relational

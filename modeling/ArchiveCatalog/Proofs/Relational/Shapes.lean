import ArchiveCatalog.Proofs.Relational.Rows
import ArchiveCatalog.Proofs.Schema

namespace ArchiveCatalog.Relational

/-! # The shapes of the tables of types

Each table of a type has a shape known from its name alone, whatever types share it. Making
the tables of a type ready only widens shapes: no row and no column is lost, so tables that
are ready stay ready. It fails, before anything is changed, for the types whose tables cannot
be named and for no others.
-/

/-! ## Statements -/

section Statements

variable {db db' : Database} {fault : StoreFault}

theorem run_alter_ok {change : Database → Except StoreFault Database}
    (h : change db = .ok db') : (alter change).run db = (.ok (), db') := by
  apply Action.run_changing_ok
  rw [h]
  rfl

theorem run_alter_error {change : Database → Except StoreFault Database}
    (h : change db = .error fault) : (alter change).run db = (.error (.store fault), db) := by
  apply Action.run_changing_error
  rw [h]
  rfl

theorem run_alter_eq_ok {change : Database → Except StoreFault Database} {x : Unit}
    (h : (alter change).run db = (.ok x, db')) : change db = .ok db' := by
  cases hchange : change db with
  | ok changed =>
    rw [run_alter_ok hchange] at h
    cases h
    rfl
  | error fault =>
    rw [run_alter_error hchange] at h
    cases h

theorem run_inspect_ok {α : Type} {f : Database → Except StoreFault α} {x : α}
    (h : f db = .ok x) : (inspect f).run db = (.ok x, db) := by
  rw [inspect, Action.run_reading, h]
  rfl

end Statements

/-! ## Names of tables -/

namespace TypeTables

/-- The name of the side table of an element that can be named. -/
def side (tables : TypeTables) (element : String) : String :=
  tables.base ++ "_" ++ element ++ "_values"

/-- Tables of the type would begin like those the store keeps for itself. -/
def isReserved (tables : TypeTables) : Bool :=
  Database.reservedStart.isPrefixOf (Text.folded (tables.base ++ "_")).toList

theorem valuesOf_eq (tables : TypeTables) {element : String} (h : isUsableName element = true) :
    tables.valuesOf element = .ok (tables.side element) := by
  simp [valuesOf, usableName, h, side, Except.map]

theorem metadata_eq (tables : TypeTables) : tables.metadata = tables.base ++ "_" ++ "metadata" := by
  rw [metadata, String.append_assoc]
  rfl

theorem reference_eq (tables : TypeTables) :
    tables.reference = tables.base ++ "_" ++ "reference" := by
  rw [reference, String.append_assoc]
  rfl

theorem side_eq (tables : TypeTables) (element : String) :
    tables.side element = tables.base ++ "_" ++ (element ++ "_values") := by
  rw [side, String.append_assoc]

/-- What follows an underscore does not make a name reserved: the reserved start has its only
underscore at the end. -/
theorem isPrefixOf_reservedStart (front tail : List Char) :
    Database.reservedStart.isPrefixOf (front ++ '_' :: tail) =
      Database.reservedStart.isPrefixOf (front ++ ['_']) := by
  rw [Bool.eq_iff_iff, List.isPrefixOf_iff_prefix, List.isPrefixOf_iff_prefix]
  have hwhole : front ++ '_' :: tail = (front ++ ['_']) ++ tail := by simp
  have hpart : front ++ ['_'] <+: front ++ '_' :: tail := ⟨tail, hwhole.symm⟩
  constructor
  · intro h
    by_cases hlen : Database.reservedStart.length ≤ (front ++ ['_']).length
    · exact List.prefix_of_prefix_length_le h hpart hlen
    · -- a shorter front would put an underscore among the first six characters
      exfalso
      have hshort : front.length + 1 ≤ 6 := by
        have hseven : Database.reservedStart.length = 7 := by decide
        simp only [List.length_append, List.length_cons, List.length_nil] at hlen
        omega
      rcases List.prefix_of_prefix_length_le hpart h (Nat.le_of_not_le hlen) with ⟨rest, hrest⟩
      have hmem : '_' ∈ Database.reservedStart.take 6 := by
        rw [← hrest, List.append_assoc, List.take_append]
        refine List.mem_append.2 (Or.inr ?_)
        obtain ⟨k, hk⟩ : ∃ k, 6 - front.length = k + 1 := ⟨5 - front.length, by omega⟩
        simp [hk]
      exact absurd hmem (by decide)
  · exact fun h => h.trans hpart

/-- All tables of a type may be created, or none. -/
theorem creatable_eq (tables : TypeTables) (tail : String) :
    Database.creatable (tables.base ++ "_" ++ tail) =
      if tables.isReserved = true then .error (.reservedName (tables.base ++ "_" ++ tail))
      else .ok () := by
  have hsame : Database.reservedStart.isPrefixOf
      (Text.folded (tables.base ++ "_" ++ tail)).toList = tables.isReserved := by
    have hfolded : ∀ s : String, (Text.folded s).toList = s.toList.map Char.toLower := by
      intro s
      simp [Text.folded]
    unfold isReserved
    rw [hfolded, hfolded]
    simp only [String.toList_append, List.map_append]
    have hunder : ("_" : String).toList.map Char.toLower = ['_'] := by decide
    rw [hunder, List.append_assoc]
    exact isPrefixOf_reservedStart _ _
  rw [Database.creatable, hsame]

end TypeTables

/-- The table of the name is a side table: of the names of tables of types only those of side
tables end in an s. -/
def isSide (name : String) : Bool := (Text.folded name).toList.getLast? == some 's'

theorem isSide_append (front tail : String) (h : tail ≠ "") :
    isSide (front ++ tail) = isSide tail := by
  have hne : (Text.folded tail).toList ≠ [] := by
    intro hnil
    apply h
    simpa [Text.folded] using hnil
  simp [isSide, folded_append, List.getLast?_append, List.getLast?_eq_some_getLast hne]

theorem isSide_metadata (tables : TypeTables) : isSide tables.metadata = false := by
  rw [TypeTables.metadata, isSide_append _ _ (by decide)]
  decide

theorem isSide_side (tables : TypeTables) (element : String) :
    isSide (tables.side element) = true := by
  rw [TypeTables.side, isSide_append _ _ (by decide)]
  decide

theorem side_ne_metadata (tables tables' : TypeTables) (element : String) :
    ¬ SameName (tables.side element) tables'.metadata := by
  intro h
  have hsame : isSide (tables.side element) = isSide tables'.metadata := by
    unfold isSide
    rw [show Text.folded (tables.side element) = Text.folded tables'.metadata from h]
  rw [isSide_side, isSide_metadata] at hsame
  cases hsame

/-! ## Shapes by name -/

/-- The declared names can stand for columns: they are identifiers, no two differ by ASCII case
alone, and none is that of the product column. -/
structure NamesColumns (schema : Schema) : Prop where
  usable : ∀ t ∈ schema.types.types, ∀ a ∈ schema.declaredNames t, isUsableName a = true
  distinct : ∀ t ∈ schema.types.types, ∀ u ∈ schema.types.types,
    ∀ a ∈ schema.declaredNames t, ∀ b ∈ schema.declaredNames u, SameName a b → a = b
  free : ∀ t ∈ schema.types.types, ∀ a ∈ schema.declaredNames t, ¬ SameName a productColumn

/-- The types keep their metadata in one table. -/
def TypeTables.Shared (bases : TableBases) (t u : ProductType) : Prop :=
  ∃ tables tables', ofType bases t = .ok tables ∧ ofType bases u = .ok tables' ∧
    SameName tables.metadata tables'.metadata

/-- The declared names can stand for columns as far as types share tables: they are identifiers,
none is that of the product column, and in one table no two differ by ASCII case alone. -/
structure NamesSharedColumns (schema : Schema) (bases : TableBases) : Prop where
  usable : ∀ t ∈ schema.types.types, ∀ a ∈ schema.declaredNames t, isUsableName a = true
  distinct : ∀ t ∈ schema.types.types, ∀ u ∈ schema.types.types, TypeTables.Shared bases t u →
    ∀ a ∈ schema.declaredNames t, ∀ b ∈ schema.declaredNames u, SameName a b → a = b
  free : ∀ t ∈ schema.types.types, ∀ a ∈ schema.declaredNames t, ¬ SameName a productColumn

theorem NamesColumns.shared {schema : Schema} (h : NamesColumns schema) (bases : TableBases) :
    NamesSharedColumns schema bases :=
  ⟨h.usable, fun t ht u hu _ => h.distinct t ht u hu, h.free⟩

/-- The shape of a table of metadata in the narrow layout. -/
def entryShape : Shape := ⟨false, [⟨elementIdColumn, true⟩, ⟨valueColumn, true⟩]⟩

/-- The shape of a side table. -/
def valueShape : Shape := ⟨false, [⟨valueColumn, true⟩]⟩

namespace Store

/-- The schema is regular and, in the wide layout, its names can stand for columns. -/
structure Regular (s : Store) : Prop where
  schema : s.schema.Regular
  columns : s.layout ≠ .narrow → NamesSharedColumns s.schema s.bases

/-- The name is that of an element of a type with the table, which is kept in a column of the wide
layout. -/
def IsColumn (s : Store) (table name : String) : Prop :=
  s.layout.isVector name = false ∧ ∃ t ∈ s.schema.types.types, name ∈ s.schema.declaredNames t ∧
    ∃ tables, TypeTables.ofType s.bases t = .ok tables ∧ SameName tables.metadata table

/-- The shape of a table of metadata in the wide layout, as far as it has been widened. -/
structure IsWide (s : Store) (table : String) (shape : Shape) : Prop where
  keyed : shape.keyed = true
  optional : ∀ c ∈ shape.columns, c.required = false
  declared : ∀ c ∈ shape.columns, s.IsColumn table c.name
  nodup : (shape.columns.map Column.name).Nodup

/-- The shape is one that the table of the name may have. -/
def Fits (s : Store) (name : String) (shape : Shape) : Prop :=
  match s.layout with
  | .narrow => shape = entryShape
  | .wide _ => if isSide name = true then shape = valueShape else s.IsWide name shape

/-- Every table has a shape that fits its name. -/
def Shaped (s : Store) (db : Database) : Prop :=
  ∀ name shape, db.shape? name = some shape → s.Fits name shape

/-- The element has its column or its side table. -/
def Covers (s : Store) (db : Database) (tables : TypeTables) (a : String) : Prop :=
  if s.layout.isVector a = true then (db.shape? (tables.side a)).isSome = true
  else ∃ shape, db.shape? tables.metadata = some shape ∧ a ∈ shape.columns.map Column.name

/-- The tables of a type are there, with places for all its elements. -/
structure Ready (s : Store) (db : Database) (t : ProductType) (tables : TypeTables) : Prop where
  references : db.hasReferences tables.reference = true
  metadata : (db.shape? tables.metadata).isSome = true
  elements : s.layout ≠ .narrow → ∀ a ∈ s.schema.declaredNames t, s.Covers db tables a

variable {s : Store} {db db' : Database} {t : ProductType} {tables : TypeTables} {name : String}

/-- The elements of a type have their columns in its table. -/
theorem isColumn_of_declared (ht : t ∈ s.schema.types.types)
    (htables : TypeTables.ofType s.bases t = .ok tables) {a : String}
    (ha : a ∈ s.schema.declaredNames t) (hscalar : s.layout.isVector a = false) :
    s.IsColumn tables.metadata a := ⟨hscalar, t, ht, ha, tables, htables, rfl⟩

theorem IsColumn.congr {table table' a : String} (ha : s.IsColumn table a)
    (h : SameName table table') : s.IsColumn table' a := by
  rcases ha with ⟨hscalar, t, ht, hat, tables, htables, hsame⟩
  exact ⟨hscalar, t, ht, hat, tables, htables, hsame.trans h⟩

theorem IsColumn.eq_of_sameName (hs : s.Regular) (hwide : s.layout ≠ .narrow) {table a b : String}
    (ha : s.IsColumn table a) (hb : s.IsColumn table b) (h : SameName a b) : a = b := by
  rcases ha with ⟨-, t, ht, hat, tables, htables, hta⟩
  rcases hb with ⟨-, u, hu, hbu, tables', htables', htb⟩
  have hshared : TypeTables.Shared s.bases t u :=
    ⟨tables, tables', htables, htables', hta.trans htb.symm⟩
  exact (hs.columns hwide).distinct t ht u hu hshared a hat b hbu h

theorem IsWide.congr {table table' : String} {shape : Shape} (h : s.IsWide table shape)
    (hsame : SameName table table') : s.IsWide table' shape :=
  ⟨h.keyed, h.optional, fun c hc => (h.declared c hc).congr hsame, h.nodup⟩

theorem Shaped.empty : s.Shaped .empty := fun _ _ h => by cases h

theorem Shaped.of_shapes (h : s.Shaped db) (hshapes : ∀ name, db'.shape? name = db.shape? name) :
    s.Shaped db' := fun name shape hshape => h name shape (hshapes name ▸ hshape)

theorem Shaped.entryShape_of_narrow (h : s.Shaped db) (hlayout : s.layout = .narrow)
    (hsome : (db.shape? name).isSome = true) : db.shape? name = some entryShape := by
  rcases Option.isSome_iff_exists.1 hsome with ⟨shape, hshape⟩
  have hfits := h name shape hshape
  rw [Fits, hlayout] at hfits
  rw [hshape, hfits]

theorem Shaped.valueShape_of_isSide (h : s.Shaped db) (hlayout : s.layout ≠ .narrow)
    (hside : isSide name = true) (hsome : (db.shape? name).isSome = true) :
    db.shape? name = some valueShape := by
  rcases Option.isSome_iff_exists.1 hsome with ⟨shape, hshape⟩
  have hfits := h name shape hshape
  cases hl : s.layout with
  | narrow => exact absurd hl hlayout
  | wide vectors =>
    rw [Fits, hl] at hfits
    dsimp only at hfits
    rw [if_pos hside] at hfits
    rw [hshape, hfits]

theorem Shaped.isWide (h : s.Shaped db) (hlayout : s.layout ≠ .narrow) {shape : Shape}
    (hshape : db.shape? tables.metadata = some shape) : s.IsWide tables.metadata shape := by
  have hfits := h tables.metadata shape hshape
  cases hl : s.layout with
  | narrow => exact absurd hl hlayout
  | wide vectors =>
    rw [Fits, hl] at hfits
    simpa [isSide_metadata] using hfits

end Store

/-! ## Nothing is lost -/

namespace Database

/-- Tables and columns are still there, and the products kept have the rows and references
they had. -/
structure Extends (db db' : Database) (kept : Int → Prop) : Prop where
  rows : ∀ name j, kept j → db'.rowsIn name j = db.rowsIn name j
  references : ∀ name j, kept j → db'.referencesIn name j = db.referencesIn name j
  hasReferences : ∀ name, db.hasReferences name = true → db'.hasReferences name = true
  shapes : ∀ name shape, db.shape? name = some shape → ∃ shape', db'.shape? name = some shape' ∧
    shape.columns.map Column.name ⊆ shape'.columns.map Column.name

/-- Only shapes have changed, and only by becoming wider. -/
structure Widens (db db' : Database) : Prop extends Extends db db' fun _ => True where
  products : db'.products = db.products
  lastId : db'.lastId = db.lastId

variable {db db' : Database} {kept kept' : Int → Prop}

theorem Extends.refl (db : Database) (kept : Int → Prop) : Extends db db kept :=
  ⟨fun _ _ _ => rfl, fun _ _ _ => rfl, fun _ h => h, fun _ shape h => ⟨shape, h, fun _ h => h⟩⟩

/-- What products there are makes no difference. -/
theorem extends_of_eq (kept : Int → Prop) (hreferences : db'.references = db.references)
    (htables : db'.tables = db.tables) : Extends db db' kept := by
  have hrows : ∀ name, db'.table? name = db.table? name := fun name => by
    rw [table?, htables, ← table?]
  constructor
  · intro name j _
    rw [rowsIn, rows, hrows, ← rows, ← rowsIn]
  · intro name j _
    rw [referencesIn, hreferences, ← referencesIn]
  · intro name hname
    rwa [hasReferences, hreferences]
  · intro name shape hshape
    exact ⟨shape, by rwa [shape?, hrows], fun _ ha => ha⟩

theorem Extends.trans {db₁ db₂ db₃ : Database} (h : Extends db₁ db₂ kept)
    (h' : Extends db₂ db₃ kept) : Extends db₁ db₃ kept := by
  refine ⟨fun name j hj => (h'.rows name j hj).trans (h.rows name j hj),
    fun name j hj => (h'.references name j hj).trans (h.references name j hj),
    fun name hname => h'.hasReferences name (h.hasReferences name hname), ?_⟩
  intro name shape hshape
  rcases h.shapes name shape hshape with ⟨shape₂, hshape₂, hsub₂⟩
  rcases h'.shapes name shape₂ hshape₂ with ⟨shape₃, hshape₃, hsub₃⟩
  exact ⟨shape₃, hshape₃, fun a ha => hsub₃ (hsub₂ ha)⟩

theorem Extends.isSome_shape? (h : Extends db db' kept) {name : String}
    (hsome : (db.shape? name).isSome = true) : (db'.shape? name).isSome = true := by
  rcases Option.isSome_iff_exists.1 hsome with ⟨shape, hshape⟩
  rcases h.shapes name shape hshape with ⟨shape', hshape', -⟩
  simp [hshape']

/-- Where only rows differ, nothing but rows can be lost. -/
theorem SameFrame.extends (h : SameFrame db db') (hrows : ∀ name j, kept j →
    db'.rowsIn name j = db.rowsIn name j) : Extends db db' kept := by
  refine ⟨hrows, ?_, ?_, ?_⟩
  · intro name j _
    rw [referencesIn, h.references, ← referencesIn]
  · intro name hname
    rwa [hasReferences, h.references]
  · intro name shape hshape
    exact ⟨shape, (h.shapes name).trans hshape, fun _ ha => ha⟩

theorem Widens.refl (db : Database) : Widens db db := ⟨Extends.refl db _, rfl, rfl⟩

theorem Widens.trans {db₁ db₂ db₃ : Database} (h : Widens db₁ db₂) (h' : Widens db₂ db₃) :
    Widens db₁ db₃ :=
  ⟨h.toExtends.trans h'.toExtends, h'.products.trans h.products, h'.lastId.trans h.lastId⟩

end Database

namespace Store

open Database (Extends Widens)

variable {s : Store} {db db' : Database} {t : ProductType} {tables : TypeTables} {name : String}
  {kept : Int → Prop}

theorem Covers.extend {a : String} (h : s.Covers db tables a) (hext : Extends db db' kept) :
    s.Covers db' tables a := by
  unfold Covers at h ⊢
  split
  · rename_i hvector
    rw [if_pos hvector] at h
    exact hext.isSome_shape? h
  · rename_i hvector
    rw [if_neg hvector] at h
    rcases h with ⟨shape, hshape, ha⟩
    rcases hext.shapes _ shape hshape with ⟨shape', hshape', hsub⟩
    exact ⟨shape', hshape', hsub ha⟩

/-- Tables that are ready stay ready. -/
theorem Ready.extend (h : s.Ready db t tables) (hext : Extends db db' kept) :
    s.Ready db' t tables :=
  ⟨hext.hasReferences _ h.references, hext.isSome_shape? h.metadata,
    fun hwide a ha => (h.elements hwide a ha).extend hext⟩

theorem Ready.of_frame (h : s.Ready db t tables) (hframe : Database.SameFrame db db') :
    s.Ready db' t tables :=
  h.extend (hframe.extends fun _ _ hnone => False.elim hnone)

/-! ## Making tables ready -/

/-- Creating a table of references. -/
theorem exists_createReferences (db : Database) (hcreatable : Database.creatable name = .ok ()) :
    ∃ db', db.createReferences name = .ok db' ∧ Widens db db' ∧
      (∀ other, db'.shape? other = db.shape? other) ∧ db'.hasReferences name = true := by
  unfold Database.createReferences
  rw [hcreatable]
  cases hrows : db.references.lookup (Text.folded name) with
  | some rows =>
    exact ⟨db, rfl, .refl db, fun _ => rfl, by simp [Database.hasReferences, hrows]⟩
  | none =>
    refine ⟨{ db with references := Database.put (Text.folded name) [] db.references }, rfl,
      ⟨⟨fun _ _ _ => rfl, ?_, ?_, ?_⟩, rfl, rfl⟩,
      fun _ => rfl, ?_⟩
    · intro other j _
      unfold Database.referencesIn
      dsimp only
      rw [Database.lookup_put]
      by_cases hsame : Text.folded other = Text.folded name
      · simp [hsame, hrows]
      · simp [hsame]
    · intro other hother
      unfold Database.hasReferences at hother ⊢
      dsimp only
      rw [Database.lookup_put]
      split <;> simp [*]
    · exact fun _ shape hshape => ⟨shape, hshape, fun _ h => h⟩
    · simp [Database.hasReferences, Database.lookup_put]

/-- Storing a table with the rows there were and at least the columns there were. -/
theorem widens_setTable {u : Table} (hrows : u.rows = db.rows name)
    (hcolumns : ∀ shape, db.shape? name = some shape →
      shape.columns.map Column.name ⊆ u.columns.map Column.name) :
    Widens db (db.setTable name u) := by
  refine ⟨⟨?_, fun _ _ _ => rfl, fun _ h => h, ?_⟩, rfl, rfl⟩
  · intro other j _
    unfold Database.rowsIn Database.rows
    rw [Database.table?_setTable]
    -- under its own name the table has the rows that were there under it
    by_cases hsame : SameName other name
    · rw [if_pos hsame]
      dsimp only
      rw [hrows, ← Database.rows_congr hsame]
      rfl
    · rw [if_neg hsame]
  · intro other shape hshape
    unfold Database.shape?
    rw [Database.table?_setTable]
    by_cases hsame : SameName other name
    · rw [if_pos hsame]
      exact ⟨u.shape, rfl, hcolumns shape (Database.shape?_congr hsame ▸ hshape)⟩
    · rw [if_neg hsame]
      exact ⟨shape, hshape, fun _ h => h⟩

theorem shape?_setTable {u : Table} {other : String} :
    (db.setTable name u).shape? other =
      if SameName other name then some u.shape else db.shape? other := by
  unfold Database.shape?
  rw [Database.table?_setTable]
  split <;> rfl

theorem Fits.congr {other : String} (h : SameName other name) {shape : Shape}
    (hfits : s.Fits name shape) : s.Fits other shape := by
  have hside : isSide other = isSide name := by
    rw [isSide, show Text.folded other = Text.folded name from h, isSide]
  unfold Fits at hfits ⊢
  cases hl : s.layout with
  | narrow =>
    rw [hl] at hfits
    exact hfits
  | wide vectors =>
    rw [hl] at hfits
    dsimp only at hfits ⊢
    rw [hside]
    split
    · rename_i hname
      rwa [if_pos hname] at hfits
    · rename_i hname
      rw [if_neg hname] at hfits
      exact hfits.congr h.symm

theorem Shaped.setTable (h : s.Shaped db) {u : Table} (hfits : s.Fits name u.shape) :
    s.Shaped (db.setTable name u) := by
  intro other shape hshape
  rw [shape?_setTable] at hshape
  split at hshape
  · rename_i hsame
    cases hshape
    exact hfits.congr hsame
  · exact h other shape hshape

/-- Creating a table of text, which leaves the shapes of other tables alone. -/
theorem exists_createTable (hshaped : s.Shaped db) (hcreatable : Database.creatable name = .ok ())
    {u : Table} (hfits : s.Fits name u.shape) (hrows : u.rows = []) :
    ∃ db', db.createTable name u = .ok db' ∧ Widens db db' ∧ s.Shaped db' ∧
      (db'.shape? name).isSome = true ∧
      ∀ other, ¬ SameName other name → db'.shape? other = db.shape? other := by
  unfold Database.createTable
  rw [hcreatable]
  -- a table that is there already is left as it is, whatever its columns
  cases htable : db.table? name with
  | some v =>
    exact ⟨db, rfl, .refl db, hshaped, by simp [Database.shape?, htable], fun _ _ => rfl⟩
  | none =>
    have hnone : db.shape? name = none := by simp [Database.shape?, htable]
    refine ⟨db.setTable name u, rfl, widens_setTable ?_ ?_, hshaped.setTable hfits, ?_, ?_⟩
    · rw [hrows, Database.rows_of_shape?_none hnone]
    · intro shape hshape
      rw [hnone] at hshape
      cases hshape
    · simp [shape?_setTable, SameName]
    · intro other hother
      rw [shape?_setTable, if_neg hother]

/-- A wide shape stays one when it gets the column of an element that has none. -/
theorem IsWide.append {shape : Shape} (hfits : s.IsWide name shape) {a : String}
    (ha : s.IsColumn name a) (hnew : a ∉ shape.columns.map Column.name) :
    s.IsWide name ⟨shape.keyed, shape.columns ++ [⟨a, false⟩]⟩ := by
  refine ⟨hfits.keyed, ?_, ?_, ?_⟩
  · intro c hc
    rcases List.mem_append.1 hc with hold | hone
    · exact hfits.optional c hold
    · rw [List.mem_singleton.1 hone]
  · intro c hc
    rcases List.mem_append.1 hc with hold | hone
    · exact hfits.declared c hold
    · rw [List.mem_singleton.1 hone]
      exact ha
  · rw [List.map_append, List.nodup_append]
    refine ⟨hfits.nodup, by simp, fun b hb c hc heq => hnew ?_⟩
    rw [List.mem_singleton.1 hc] at heq
    exact (show b = a from heq) ▸ hb

/-- In a table of wide shape a name is taken for another column only by the element itself. -/
theorem IsWide.hasColumn_eq_false (hs : s.Regular) (hwide : s.layout ≠ .narrow) {u : Table}
    (hfits : s.IsWide name u.shape) {a : String} (ha : s.IsColumn name a)
    (hnew : a ∉ u.shape.columns.map Column.name) : u.hasColumn a = false := by
  rcases ha.2 with ⟨t, ht, hat, -⟩
  have hproduct : Table.sameName a productColumn = false := by
    simpa [Table.sameName, SameName] using (hs.columns hwide).free t ht a hat
  -- columns are named after elements, and no two elements differ in case only
  have hnone : ∀ c ∈ u.columns, ¬ Table.sameName c.name a = true := by
    intro c hc hsame
    refine hnew (List.mem_map.2 ⟨c, hc, ?_⟩)
    exact (hfits.declared c hc).eq_of_sameName hs hwide ha (sameName_iff.1 hsame)
  simpa [Table.hasColumn, hproduct] using hnone

/-- Adding the column of an element that has none. -/
theorem exists_addColumn (hs : s.Regular) (hwide : s.layout ≠ .narrow) (hshaped : s.Shaped db)
    {shape : Shape} (hshape : db.shape? tables.metadata = some shape) {a : String}
    (ha : s.IsColumn tables.metadata a) (hnew : a ∉ shape.columns.map Column.name) :
    ∃ db', db.updateTable tables.metadata (fun u => u.addColumn a) = .ok db' ∧ Widens db db' ∧
      s.Shaped db' ∧
      db'.shape? tables.metadata = some ⟨shape.keyed, shape.columns ++ [⟨a, false⟩]⟩ := by
  rcases Database.exists_table_of_shape? hshape with ⟨u, hu, rfl, hrows⟩
  have hfits : s.IsWide tables.metadata u.shape := hshaped.isWide hwide hshape
  have hfree : u.hasColumn a = false := hfits.hasColumn_eq_false hs hwide ha hnew
  refine ⟨db.setTable tables.metadata { u with columns := u.columns ++ [⟨a, false⟩] }, ?_,
    widens_setTable hrows.symm ?_, hshaped.setTable ?_, ?_⟩
  · simp [Database.updateTable, Database.table, hu, Table.addColumn, hfree, bind, Except.bind,
      pure, Except.pure]
  · intro shape hshape'
    rw [hshape] at hshape'
    cases hshape'
    simp [Table.shape]
  · cases hl : s.layout with
    | narrow => exact absurd hl hwide
    | wide vectors =>
      rw [Fits, hl]
      dsimp only
      rw [if_neg (by simp [isSide_metadata])]
      exact hfits.append ha hnew
  · rw [shape?_setTable, if_pos (show SameName tables.metadata tables.metadata from rfl)]
    rfl

theorem fits_side (hwide : s.layout ≠ .narrow) (a : String) :
    s.Fits (tables.side a) valueShape := by
  cases hl : s.layout with
  | narrow => exact absurd hl hwide
  | wide vectors =>
    rw [Fits, hl]
    simp [isSide_side]

/-- What making the place of an element comes to: the element has its place, and no other element
gains or loses a column. -/
structure Placed (s : Store) (db db' : Database) (tables : TypeTables) (shape shape' : Shape)
    (a : String) : Prop where
  widens : Widens db db'
  shaped : s.Shaped db'
  covers : s.Covers db' tables a
  shape_eq : db'.shape? tables.metadata = some shape'
  others : ∀ b, b ≠ a →
    (b ∈ shape'.columns.map Column.name ↔ b ∈ shape.columns.map Column.name)

theorem run_ensureElement_side (hs : s.Regular) (hwide : s.layout ≠ .narrow)
    (ht : t ∈ s.schema.types.types) (hshaped : s.Shaped db) (hfree : tables.isReserved = false)
    {shape : Shape} (hshape : db.shape? tables.metadata = some shape) {e : Element}
    (he : e ∈ s.schema.declaredElements t) (columns : List String)
    (hvector : s.layout.isVector e.name = true) :
    ∃ db', (s.ensureElement tables columns e).run db = (.ok (), db') ∧
      s.Placed db db' tables shape shape e.name := by
  have husable := (hs.columns hwide).usable t ht _ (List.mem_map_of_mem he)
  have hcreatable : Database.creatable (tables.side e.name) = .ok () := by
    rw [tables.side_eq, tables.creatable_eq, hfree]
    rfl
  rcases exists_createTable hshaped hcreatable
    (fits_side hwide e.name) (show (Table.unkeyed [valueColumn]).rows = [] from rfl) with
    ⟨db', hcreate, hwidens, hshaped', hsome, hothers⟩
  have hsame : db'.shape? tables.metadata = db.shape? tables.metadata :=
    hothers _ fun h => side_ne_metadata tables tables e.name h.symm
  refine ⟨db', ?_, hwidens, hshaped', ?_, hsame.trans hshape, fun _ _ => Iff.rfl⟩
  · rw [ensureElement, if_pos hvector, Action.run_bind, Action.run_ofExcept,
      tables.valuesOf_eq husable]
    exact run_alter_ok hcreate
  · rw [Covers, if_pos hvector]
    exact hsome

theorem run_ensureElement_column (hs : s.Regular) (hwide : s.layout ≠ .narrow)
    (ht : t ∈ s.schema.types.types) (htables : TypeTables.ofType s.bases t = .ok tables)
    (hshaped : s.Shaped db) {shape : Shape} (hshape : db.shape? tables.metadata = some shape)
    {e : Element} (he : e ∈ s.schema.declaredElements t) {columns : List String}
    (hcolumns : columns.contains e.name = true ↔ e.name ∈ shape.columns.map Column.name)
    (hscalar : s.layout.isVector e.name = false) :
    ∃ db' shape', (s.ensureElement tables columns e).run db = (.ok (), db') ∧
      s.Placed db db' tables shape shape' e.name := by
  have hname : e.name ∈ s.schema.declaredNames t := List.mem_map_of_mem he
  have hcovers : ∀ db' shape', db'.shape? tables.metadata = some shape' →
      e.name ∈ shape'.columns.map Column.name → s.Covers db' tables e.name := by
    intro db' shape' hshape' hmem
    rw [Covers, if_neg (by simp [hscalar])]
    exact ⟨shape', hshape', hmem⟩
  rw [ensureElement, if_neg (by simp [hscalar])]
  -- the list of columns is consulted, not the table
  by_cases hthere : columns.contains e.name = true
  · rw [if_pos hthere]
    exact ⟨db, shape, rfl, .refl db, hshaped, hcovers db shape hshape (hcolumns.1 hthere), hshape,
      fun _ _ => Iff.rfl⟩
  · rw [if_neg hthere]
    rcases exists_addColumn hs hwide hshaped hshape
      (isColumn_of_declared ht htables hname hscalar) (fun hmem => hthere (hcolumns.2 hmem)) with
      ⟨db', hadd, hwidens, hshaped', hshape'⟩
    refine ⟨db', _, ?_, hwidens, hshaped', hcovers db' _ hshape' (by simp), hshape', ?_⟩
    · have husable := (hs.columns hwide).usable t ht _ hname
      rw [Action.run_bind, Action.run_ofExcept, usableName, if_pos husable]
      exact run_alter_ok hadd
    · intro b hne
      simp [hne]

/-- Making the place of an element, given whether it has a column. -/
theorem run_ensureElement (hs : s.Regular) (hwide : s.layout ≠ .narrow)
    (ht : t ∈ s.schema.types.types) (htables : TypeTables.ofType s.bases t = .ok tables)
    (hshaped : s.Shaped db) (hfree : tables.isReserved = false)
    {shape : Shape} (hshape : db.shape? tables.metadata = some shape) {e : Element}
    (he : e ∈ s.schema.declaredElements t) {columns : List String}
    (hcolumns : columns.contains e.name = true ↔ e.name ∈ shape.columns.map Column.name) :
    ∃ db' shape', (s.ensureElement tables columns e).run db = (.ok (), db') ∧
      s.Placed db db' tables shape shape' e.name := by
  cases hvector : s.layout.isVector e.name with
  | true =>
    rcases run_ensureElement_side hs hwide ht hshaped hfree hshape he columns hvector with
      ⟨db', hrun, hplaced⟩
    exact ⟨db', shape, hrun, hplaced⟩
  | false =>
    exact run_ensureElement_column hs hwide ht htables hshaped hshape he hcolumns hvector

/-- The invariant of the loop of `ensureWide`. The columns were listed before the loop, so an
element still to come has a column now exactly when it is listed. -/
structure Widening (s : Store) (start : Database) (tables : TypeTables) (t : ProductType)
    (columns : List String) (rest : List Element) (now : Database) : Prop where
  declared : ∀ e ∈ rest, e ∈ s.schema.declaredElements t
  nodup : (rest.map Element.name).Nodup
  widens : Widens start now
  shaped : s.Shaped now
  listed : ∃ shape, now.shape? tables.metadata = some shape ∧
    ∀ e ∈ rest, columns.contains e.name = true ↔ e.name ∈ shape.columns.map Column.name
  covers : ∀ a ∈ s.schema.declaredNames t, a ∈ rest.map Element.name ∨ s.Covers now tables a

theorem Widening.start (hs : s.Regular) (hwide : s.layout ≠ .narrow)
    (ht : t ∈ s.schema.types.types) (hshaped : s.Shaped db) {u : Table}
    (hshape : db.shape? tables.metadata = some u.shape) :
    s.Widening db tables t u.columnNames (s.schema.declaredElements t) db := by
  refine ⟨fun _ h => h, hs.schema.nodup_declaredNames t, .refl db, hshaped,
    ⟨u.shape, hshape, ?_⟩, fun a ha => Or.inl ha⟩
  intro e he
  -- the list begins with the column of the product, which is no element's
  have hproduct : e.name ≠ productColumn := by
    intro heq
    exact (hs.columns hwide).free t ht e.name (List.mem_map_of_mem he) (by rw [heq]; exact rfl)
  simp [Table.columnNames, hproduct, Table.shape]

/-- The loop makes the place of one element and is left with the others. -/
theorem Widening.step (hs : s.Regular) (hwide : s.layout ≠ .narrow)
    (ht : t ∈ s.schema.types.types) (htables : TypeTables.ofType s.bases t = .ok tables)
    (hfree : tables.isReserved = false) {columns : List String} {e : Element}
    {rest : List Element} {now : Database} (h : s.Widening db tables t columns (e :: rest) now) :
    ∃ next, (s.ensureElement tables columns e).run now = (.ok (), next) ∧
      s.Widening db tables t columns rest next := by
  rcases h.listed with ⟨shape, hshape, hcolumns⟩
  have hnodup := List.nodup_cons.1 h.nodup
  rcases run_ensureElement hs hwide ht htables h.shaped hfree hshape
    (h.declared e List.mem_cons_self) (hcolumns e List.mem_cons_self) with
    ⟨next, shape', hrun, hplaced⟩
  refine ⟨next, hrun, fun d hd => h.declared d (List.mem_cons_of_mem e hd), hnodup.2,
    h.widens.trans hplaced.widens, hplaced.shaped, ⟨shape', hplaced.shape_eq, ?_⟩,
    ?_⟩
  -- another element has gained no column, as no name is declared twice
  · intro d hd
    rw [hcolumns d (List.mem_cons_of_mem e hd), hplaced.others]
    intro heq
    exact hnodup.1 (heq ▸ List.mem_map_of_mem hd)
  · intro a ha
    rcases h.covers a ha with hrest | hdone
    · rcases List.mem_cons.1 hrest with heq | hlater
      · exact Or.inr (heq ▸ hplaced.covers)
      · exact Or.inl hlater
    · exact Or.inr (hdone.extend hplaced.widens.toExtends)

/-- One turn of the loop of `ensureWide`. -/
def ensureNext (s : Store) (tables : TypeTables) (columns : List String) (e : Element)
    (_ : PUnit) : Action Database (ForInStep PUnit) := do
  s.ensureElement tables columns e
  pure (ForInStep.yield PUnit.unit)

theorem fits_keyedByProduct (hwide : s.layout ≠ .narrow) :
    s.Fits tables.metadata Table.keyedByProduct.shape := by
  cases hl : s.layout with
  | narrow => exact absurd hl hwide
  | wide vectors =>
    rw [Fits, hl]
    dsimp only
    rw [if_neg (by simp [isSide_metadata])]
    exact ⟨rfl, by simp [Table.keyedByProduct, Table.shape],
      by simp [Table.keyedByProduct, Table.shape], by simp [Table.keyedByProduct, Table.shape]⟩

/-- Widening a table of metadata to the declared elements. -/
theorem run_ensureWide (hs : s.Regular) (hwide : s.layout ≠ .narrow)
    (ht : t ∈ s.schema.types.types) (htables : TypeTables.ofType s.bases t = .ok tables)
    (hshaped : s.Shaped db) (hfree : tables.isReserved = false) :
    ∃ db', (s.ensureWide tables t).run db = (.ok (), db') ∧ Widens db db' ∧ s.Shaped db' ∧
      (db'.shape? tables.metadata).isSome = true ∧
      ∀ a ∈ s.schema.declaredNames t, s.Covers db' tables a := by
  have hcreatable : Database.creatable tables.metadata = .ok () := by
    rw [tables.metadata_eq, tables.creatable_eq, hfree]
    rfl
  rcases exists_createTable hshaped hcreatable (fits_keyedByProduct hwide) rfl with
    ⟨db₁, hcreate, hwidens₁, hshaped₁, hsome₁, -⟩
  rcases Option.isSome_iff_exists.1 hsome₁ with ⟨shape₁, hshape₁⟩
  rcases Database.exists_table_of_shape? hshape₁ with ⟨u, hu, rfl, -⟩
  -- the invariant starts with all declared elements to come and ends with none
  have hturn : ∀ e rest now, s.Widening db₁ tables t u.columnNames (e :: rest) now →
      ∃ next, (s.ensureNext tables u.columnNames e ⟨⟩).run now = (.ok (.yield ⟨⟩), next) ∧
        s.Widening db₁ tables t u.columnNames rest next := by
    intro e rest now h
    rcases h.step hs hwide ht htables hfree with ⟨next, hrun, hnext⟩
    exact ⟨next, (Action.run_bind_ok hrun).trans rfl, hnext⟩
  rcases Action.run_for hturn (Widening.start hs hwide ht hshaped₁ hshape₁) with ⟨db', hloop, hend⟩
  rcases hend.listed with ⟨shape', hshape', -⟩
  refine ⟨db', ?_, hwidens₁.trans hend.widens, hend.shaped, by simp [hshape'], ?_⟩
  · have hcolumns : (do
        let v ← db₁.table tables.metadata
        pure v.columnNames : Except StoreFault (List String)) = .ok u.columnNames := by
      simp [Database.table, hu, bind, Except.bind, pure, Except.pure]
    rw [ensureWide, Action.run_bind_ok (run_alter_ok hcreate),
      Action.run_bind_ok (run_inspect_ok hcolumns), Action.run_bind, Action.run_ofExcept,
      hs.schema.inStage_eq, hs.schema.elementsFor_eq]
    exact Action.run_bind_ok hloop
  · intro a ha
    rcases hend.covers a ha with hnone | hdone
    · simp at hnone
    · exact hdone

theorem requireColumns_of_entryShape {u : Table} (h : u.shape = entryShape) :
    u.requireColumns [elementIdColumn, valueColumn] = .ok () := by
  have hcolumns : u.columns = entryShape.columns := congrArg Shape.columns h
  unfold Table.requireColumns Table.hasColumn
  rw [hcolumns]
  decide

theorem run_ensureNarrow (hlayout : s.layout = .narrow) (hshaped : s.Shaped db)
    (hfree : tables.isReserved = false) :
    ∃ db', (ensureNarrow tables).run db = (.ok (), db') ∧ Widens db db' ∧ s.Shaped db' ∧
      (db'.shape? tables.metadata).isSome = true := by
  have hcreatable : Database.creatable tables.metadata = .ok () := by
    rw [tables.metadata_eq, tables.creatable_eq, hfree]
    rfl
  have hfits : s.Fits tables.metadata (Table.unkeyed [elementIdColumn, valueColumn]).shape := by
    rw [Fits, hlayout]
    rfl
  rcases exists_createTable hshaped hcreatable hfits rfl with
    ⟨db', hcreate, hwidens, hshaped', hsome, -⟩
  refine ⟨db', ?_, hwidens, hshaped', hsome⟩
  rw [ensureNarrow, Action.run_bind_ok (run_alter_ok hcreate)]
  apply run_inspect_ok
  rcases Database.exists_table_of_shape? (hshaped'.entryShape_of_narrow hlayout hsome) with
    ⟨u, hu, hshape, -⟩
  simp [Database.table, hu, requireColumns_of_entryShape hshape, bind, Except.bind]

/-- The tables of a type that can be named are made ready. -/
theorem run_ensureTables_ok (hs : s.Regular) (ht : t ∈ s.schema.types.types) (hshaped : s.Shaped db)
    (htables : TypeTables.ofType s.bases t = .ok tables) (hfree : tables.isReserved = false) :
    ∃ db', (s.ensureTables t).run db = (.ok (), db') ∧ Widens db db' ∧ s.Shaped db' ∧
      s.Ready db' t tables := by
  have hcreatable : Database.creatable tables.reference = .ok () := by
    rw [tables.reference_eq, tables.creatable_eq, hfree]
    rfl
  rcases exists_createReferences db hcreatable with ⟨db₁, hcreate, hwidens₁, hshapes₁, hreferences⟩
  have hshaped₁ : s.Shaped db₁ := hshaped.of_shapes hshapes₁
  -- the table of references is the same in both layouts
  unfold ensureTables
  cases hl : s.layout with
  | narrow =>
    rcases run_ensureNarrow hl hshaped₁ hfree with ⟨db', hnarrow, hwidens, hshaped', hsome⟩
    refine ⟨db', ?_, hwidens₁.trans hwidens, hshaped',
      ⟨hwidens.hasReferences _ hreferences, hsome, fun hwide => absurd hl hwide⟩⟩
    rw [tablesOf, htables, Action.run_bind, Action.run_ofExcept]
    exact (Action.run_bind_ok (run_alter_ok hcreate)).trans hnarrow
  | wide vectors =>
    have hwide : s.layout ≠ .narrow := by simp [hl]
    rcases run_ensureWide hs hwide ht htables hshaped₁ hfree with
      ⟨db', hrun, hwidens, hshaped', hsome, hcovers⟩
    refine ⟨db', ?_, hwidens₁.trans hwidens, hshaped',
      ⟨hwidens.hasReferences _ hreferences, hsome, fun _ => hcovers⟩⟩
    rw [tablesOf, htables, Action.run_bind, Action.run_ofExcept]
    exact (Action.run_bind_ok (run_alter_ok hcreate)).trans hrun

/-- The tables of a type that cannot be named are not touched. -/
theorem run_ensureTables_error {e : CatalogError}
    (htables : TypeTables.ofType s.bases t = .error e) :
    (s.ensureTables t).run db = (.error e, db) := by
  apply Action.run_bind_error
  rw [tablesOf, htables]
  rfl

/-- Nor are those whose names are reserved. -/
theorem run_ensureTables_reserved (htables : TypeTables.ofType s.bases t = .ok tables)
    (hreserved : tables.isReserved = true) :
    (s.ensureTables t).run db = (.error (.store (.reservedName tables.reference)), db) := by
  have hcreate :
      db.createReferences tables.reference = .error (.reservedName tables.reference) := by
    rw [Database.createReferences, tables.reference_eq, tables.creatable_eq, hreserved]
    rfl
  rw [ensureTables, tablesOf, htables, Action.run_bind, Action.run_ofExcept]
  exact Action.run_bind_error (run_alter_error hcreate)

end Store

end ArchiveCatalog.Relational

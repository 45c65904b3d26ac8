import ArchiveCatalog.Proofs.Relational.Contents

namespace ArchiveCatalog.Relational

/-! # Replacing what the tables of a type say about a product

Contents are replaced by erasing the rows of the product and inserting new ones, and what the
layout keeps of the new contents is held afterwards. Rows of other products stay as they are.
-/

/-! ## Kept metadata -/

/-- What a layout keeps of metadata: an element with a column has its first value only. -/
def Layout.kept (layout : Layout) (m : Metadata) : Metadata :=
  match layout with
  | .narrow => m
  | .wide vectors =>
    ⟨m.entries.map fun e => (e.1, if vectors.contains e.1 then e.2 else e.2.take 1),
      List.pairwise_map.2 (show m.entries.Pairwise fun a b => a.1 < b.1 from m.ascend)⟩

theorem Layout.values_kept (layout : Layout) (m : Metadata) (a : String) :
    (layout.kept m).values a =
      if layout = .narrow ∨ layout.isVector a = true then m.values a else (m.values a).take 1 := by
  cases layout with
  | narrow => simp [kept]
  | wide vectors =>
    have hlookup : ∀ entries : List (String × List String),
        (entries.map fun e => (e.1, if vectors.contains e.1 then e.2 else e.2.take 1)).lookup a =
          (entries.lookup a).map fun vs => if vectors.contains a then vs else vs.take 1 := by
      intro entries
      induction entries with
      | nil => rfl
      | cons e rest ih =>
        rw [List.map_cons, lookup_cons_ite, ih, lookup_cons_ite]
        by_cases ha : a = e.1 <;> simp [ha]
    have hget : ((Layout.wide vectors).kept m).get? a =
        (m.get? a).map fun vs => if vectors.contains a then vs else vs.take 1 := hlookup m.entries
    unfold Metadata.values
    rw [hget]
    cases m.get? a with
    | none => simp
    | some vs => by_cases ha : a ∈ vectors <;> simp [isVector, ha]

theorem Layout.regular_kept (layout : Layout) {m : Metadata} (h : m.Regular) :
    (layout.kept m).Regular := by
  cases layout with
  | narrow => exact h
  | wide vectors =>
    intro a vs hget
    have hmem := Metadata.mem_entries_iff.2 hget
    -- of several values the first is kept, so none becomes no value
    rcases List.mem_map.1 hmem with ⟨⟨name, values⟩, he, heq⟩
    rcases Prod.mk.inj heq with ⟨rfl, rfl⟩
    rcases h name values (Metadata.mem_entries_iff.1 he) with ⟨hne, hnodup⟩
    dsimp only
    split
    · exact ⟨hne, hnodup⟩
    · exact ⟨by simp [hne], hnodup.sublist (List.take_sublist 1 values)⟩

theorem Layout.within_kept (layout : Layout) {m : Metadata} {names : List String}
    (h : m.Within names) : (layout.kept m).Within names := by
  intro a ha
  refine h a fun hnil => ha ?_
  rw [Layout.values_kept, hnil]
  simp

namespace Store

variable {s : Store} {db : Database} {t : ProductType} {tables : TypeTables} {id : Int}
  {c : Contents} {m : Metadata}

/-! ## Erasing metadata -/

/-- The tables of a type with text. -/
def textTables (s : Store) (t : ProductType) (tables : TypeTables) : List String :=
  tables.metadata ::
    ((s.schema.declaredElements t).filter fun e => s.layout.isVector e.name).map fun e =>
      tables.side e.name

theorem run_eraseRows (id : Int) {name : String} (h : (db.shape? name).isSome = true) :
    (alter fun db => db.updateTable name fun u => .ok (u.erase id)).run db =
      (.ok (), db.updateRows name fun rows => rows.filter (·.product != id)) := by
  rcases Option.isSome_iff_exists.1 h with ⟨shape, hshape⟩
  rcases Database.exists_table_of_shape? hshape with ⟨u, hu, -, -⟩
  apply run_alter_ok
  simp [Database.updateTable, Database.table, Database.updateRows, hu, Table.erase, bind,
    Except.bind, pure, Except.pure]

/-- One turn of the loop of `deleteMetadata`. -/
def eraseSide (vectors : List String) (tables : TypeTables) (id : Int) (e : Element) (_ : PUnit) :
    Action Database (ForInStep PUnit) :=
  if vectors.contains e.name then do
    let side ← .ofExcept (tables.valuesOf e.name)
    alter fun db => db.updateTable side fun table => .ok (table.erase id)
    pure (ForInStep.yield PUnit.unit)
  else do
    pure (ForInStep.yield PUnit.unit)

/-- A database after one turn of the loop of `deleteMetadata`. -/
def sideErased (s : Store) (tables : TypeTables) (id : Int) (db : Database) (e : Element) :
    Database :=
  if s.layout.isVector e.name = true then
    db.updateRows (tables.side e.name) fun rows => rows.filter (·.product != id)
  else db

theorem run_eraseSide (hs : s.Regular) (ht : t ∈ s.schema.types.types) {vectors : List String}
    (hl : s.layout = .wide vectors) (hready : s.Ready db t tables) {e : Element}
    (he : e ∈ s.schema.declaredElements t) :
    (eraseSide vectors tables id e ⟨⟩).run db =
        (.ok (.yield ⟨⟩), s.sideErased tables id db e) ∧
      s.Ready (s.sideErased tables id db e) t tables := by
  have hisVector : vectors.contains e.name = s.layout.isVector e.name := by
    rw [hl, Layout.isVector]
  unfold eraseSide sideErased
  rw [hisVector]
  by_cases hvector : s.layout.isVector e.name = true
  · obtain ⟨hvalues, hside⟩ :=
      hready.side hs (by simp [hl]) ht (List.mem_map_of_mem he) hvector
    have hone := run_eraseRows id hside
    simp only [if_pos hvector, hvalues]
    refine ⟨?_, hready.of_frame (Database.sameFrame_updateRows db _ _)⟩
    rw [Action.run_bind, Action.run_ofExcept]
    exact (Action.run_bind_ok hone).trans rfl
  · simp only [if_neg hvector]
    exact ⟨rfl, hready⟩

theorem foldl_sideErased (db : Database) :
    (s.schema.declaredElements t).foldl (s.sideErased tables id)
        (db.updateRows tables.metadata fun rows => rows.filter (·.product != id)) =
      db.eraseAll (s.textTables t tables) id := by
  rw [textTables, Database.eraseAll, List.foldl_cons, List.foldl_map, List.foldl_filter]
  rfl

theorem run_deleteMetadata (hs : s.Regular) (ht : t ∈ s.schema.types.types)
    (htables : TypeTables.ofType s.bases t = .ok tables) (hready : s.Ready db t tables) :
    (s.deleteMetadata t id).run db = (.ok (), db.eraseAll (s.textTables t tables) id) := by
  have hfirst := run_eraseRows id hready.metadata
  rw [deleteMetadata, tablesOf, htables, Action.run_bind, Action.run_ofExcept]
  dsimp only
  rw [Action.run_bind_ok hfirst]
  -- the narrow layout has no side tables to erase from
  cases hl : s.layout with
  | narrow =>
    have hnone : (s.schema.declaredElements t).filter (fun e => s.layout.isVector e.name) = [] := by
      simp [hl, Layout.isVector]
    rw [textTables, hnone]
    rfl
  | wide vectors =>
    have hstart := hready.of_frame (Database.sameFrame_updateRows db tables.metadata
      fun rows => rows.filter (·.product != id))
    have hturn : ∀ e ∈ s.schema.declaredElements t, ∀ now, s.Ready now t tables →
        (eraseSide vectors tables id e ⟨⟩).run now =
            (.ok (.yield ⟨⟩), s.sideErased tables id now e) ∧
          s.Ready (s.sideErased tables id now e) t tables :=
      fun e he now hnow => run_eraseSide hs ht hl hnow he
    have hloop := Action.run_for_foldl hturn hstart
    rw [foldl_sideErased] at hloop
    rw [Action.run_bind, Action.run_ofExcept, hs.schema.inStage_eq, hs.schema.elementsFor_eq]
    exact Action.run_bind_ok hloop

/-- Erased metadata are empty. -/
theorem holds_erased (h : s.Holds db t tables id c) :
    Database.Extends db (db.eraseAll (s.textTables t tables) id) (· ≠ id) ∧
      s.Holds (db.eraseAll (s.textTables t tables) id) t tables id
        { c with metadata := .empty } := by
  have hframe := Database.sameFrame_eraseAll db (s.textTables t tables) id
  have hrows : ∀ name ∈ s.textTables t tables,
      (db.eraseAll (s.textTables t tables) id).rowsIn name id = [] := fun name hname => by
    rw [Database.rowsIn_eraseAll, if_pos ⟨rfl, name, hname, rfl⟩]
  refine ⟨hframe.extends ?_, ?_, .empty, .empty _, ?_, ?_⟩
  · intro name j hj
    rw [Database.rowsIn_eraseAll, if_neg fun h => hj h.1]
  · rw [Database.referencesIn, hframe.references, ← Database.referencesIn, h.references]
  · intro _
    rw [hrows _ List.mem_cons_self]
    rfl
  · intro _
    refine ⟨fun _ _ => Nat.zero_le 1, Or.inr ⟨hrows _ List.mem_cons_self, rfl⟩, ?_⟩
    intro a ha hvector
    rcases List.mem_map.1 ha with ⟨e, he, rfl⟩
    rw [hrows _ (List.mem_cons_of_mem _
      (List.mem_map.2 ⟨e, List.mem_filter.2 ⟨he, hvector⟩, rfl⟩))]
    rfl

/-! ## Inserting metadata -/

theorem run_insertRow (id : Int) {name : String} {shape : Shape}
    (hshape : db.shape? name = some shape)
    {cells : List (String × String)} (haccepts : shape.Accepts cells)
    (hfree : shape.keyed = true → db.rowsIn name id = []) :
    (alter fun db => db.updateTable name fun u => u.insert id cells).run db =
      (.ok (), db.updateRows name fun rows => rows ++ [Table.rowFor id cells]) := by
  rcases Database.exists_table_of_shape? hshape with ⟨u, hu, rfl, hrows⟩
  have hinsert : u.insert id cells = .ok { u with rows := u.rows ++ [Table.rowFor id cells] } := by
    apply Table.insert_eq haccepts
    intro hkeyed r hr hproduct
    -- a row of the product in a keyed table would be one of those there are not
    have hmem : r ∈ db.rowsIn name id := by
      rw [Database.rowsIn, hrows]
      exact List.mem_filter.2 ⟨hr, by simp [hproduct]⟩
    rw [hfree hkeyed] at hmem
    cases hmem
  apply run_alter_ok
  simp [Database.updateTable, Database.table, Database.updateRows, hu, hinsert, bind, Except.bind,
    pure, Except.pure]

/-- One turn of the loop of `insertValues`. -/
def insertValue (name : String) (id : Int) (cellsFor : String → List (String × String))
    (v : String) (_ : PUnit) : Action Database (ForInStep PUnit) := do
  alter fun db => db.updateTable name fun u => u.insert id (cellsFor v)
  pure (ForInStep.yield PUnit.unit)

/-- Inserting a row for each value in a table where a product may have several. -/
theorem run_insertValues (id : Int) {name : String} {shape : Shape}
    (hshape : db.shape? name = some shape) (hkeyed : shape.keyed = false)
    {cellsFor : String → List (String × String)} (haccepts : ∀ v, shape.Accepts (cellsFor v))
    (values : List String) :
    (insertValues name id cellsFor values).run db =
      (.ok (), db.insertAll (values.map fun v => (name, Table.rowFor id (cellsFor v)))) := by
  rcases Database.exists_table_of_shape? hshape with ⟨u, hu, -, -⟩
  have hthere : (inspect fun db => discard (db.table name)).run db = (.ok (), db) := by
    apply run_inspect_ok
    simp [Database.table, hu]
    rfl
  have hbody : ∀ v ∈ values, ∀ now : Database, now.shape? name = some shape →
      (insertValue name id cellsFor v ⟨⟩).run now =
          (.ok (.yield ⟨⟩),
            now.updateRows name fun rows => rows ++ [Table.rowFor id (cellsFor v)]) ∧
        (now.updateRows name fun rows => rows ++ [Table.rowFor id (cellsFor v)]).shape? name =
          some shape := by
    intro v _ now hnow
    have hone := run_insertRow id hnow (haccepts v) (by simp [hkeyed])
    refine ⟨(Action.run_bind_ok hone).trans rfl, ?_⟩
    rw [(Database.sameFrame_updateRows now name _).shapes, hnow]
  have hloop := Action.run_for_foldl hbody hshape
  rw [insertValues, Action.run_bind_ok hthere, Database.insertAll, List.foldl_map]
  exact Action.run_bind_ok hloop

/-- Inserting one batch of rows after the other. -/
theorem foldl_insertAll {α : Type} (rowsFor : α → List (String × Row)) (xs : List α)
    (db : Database) :
    xs.foldl (fun db x => db.insertAll (rowsFor x)) db = db.insertAll (xs.flatMap rowsFor) := by
  rw [Database.insertAll, List.foldl_flatMap]
  rfl

/-- The rows of the values of an element in the narrow layout, none if it is not declared. -/
def entryRows (s : Store) (tables : TypeTables) (t : ProductType) (id : Int)
    (e : String × List String) : List (String × Row) :=
  match (s.schema.declaredElements t).find? (·.name == e.1) with
  | none => []
  | some d => e.2.map fun v => (tables.metadata, entryRow id d.id v)

/-- One turn of the loop of `storeNarrow`. -/
def storeEntry (s : Store) (tables : TypeTables) (t : ProductType) (id : Int)
    (e : String × List String) (_ : PUnit) : Action Database (ForInStep PUnit) :=
  match e with
  | (name, values) =>
    match (s.schema.declaredElements t).find? (·.name == name) with
    | none => pure (ForInStep.yield PUnit.unit)
    | some d => do
      insertValues tables.metadata id
        (fun value => [(elementIdColumn, d.id), (valueColumn, value)]) values
      pure (ForInStep.yield PUnit.unit)

theorem run_storeEntry (e : String × List String)
    (hshape : db.shape? tables.metadata = some entryShape) :
    (s.storeEntry tables t id e ⟨⟩).run db =
      (.ok (.yield ⟨⟩), db.insertAll (s.entryRows tables t id e)) := by
  simp only [storeEntry, entryRows]
  cases hfound : (s.schema.declaredElements t).find? (·.name == e.1) with
  | none => rfl
  | some d =>
    have hone := run_insertValues id hshape rfl (fun v => accepts_entryShape d.id v) e.2
    exact (Action.run_bind_ok hone).trans rfl

/-- The rows of metadata in the narrow layout, if their elements are declared. -/
theorem flatMap_entryRows (hs : s.Regular) (hregular : m.Regular)
    (hwithin : m.Within (s.schema.declaredNames t)) :
    m.entries.flatMap (s.entryRows tables t id) =
      m.pairs.map fun p => (tables.metadata, entryRow id (s.schema.elementId t p.1) p.2) := by
  rw [Metadata.pairs, List.map_flatMap]
  apply List.flatMap_congr
  intro e he
  have hget := Metadata.mem_entries_iff.1 he
  have hdeclared : e.1 ∈ s.schema.declaredNames t := by
    apply hwithin e.1
    rw [Metadata.values, hget]
    exact (hregular e.1 e.2 hget).1
  -- an element that is not declared would have no rows
  rcases hs.schema.find?_name hdeclared with ⟨d, hfound, -, hid⟩
  rw [entryRows, hfound, List.map_map]
  dsimp only
  rw [hid]
  rfl

theorem run_storeNarrow (hs : s.Regular) (hlayout : s.layout = .narrow) (hshaped : s.Shaped db)
    (hready : s.Ready db t tables) (hregular : m.Regular)
    (hwithin : m.Within (s.schema.declaredNames t)) :
    (s.storeNarrow tables t id m).run db =
      (.ok (), db.insertAll (m.pairs.map fun p =>
        (tables.metadata, entryRow id (s.schema.elementId t p.1) p.2))) := by
  have hshape := hshaped.entryShape_of_narrow hlayout hready.metadata
  -- inserting rows leaves the shapes of the tables alone, so each turn finds the one it needs
  have hbody : ∀ e ∈ m.entries, ∀ now : Database, now.shape? tables.metadata = some entryShape →
      (s.storeEntry tables t id e ⟨⟩).run now =
          (.ok (.yield ⟨⟩), now.insertAll (s.entryRows tables t id e)) ∧
        (now.insertAll (s.entryRows tables t id e)).shape? tables.metadata = some entryShape := by
    intro e _ now hnow
    refine ⟨run_storeEntry e hnow, ?_⟩
    rw [(Database.sameFrame_insertAll now _).shapes, hnow]
  have hloop := Action.run_for_foldl hbody hshape
  rw [foldl_insertAll, flatMap_entryRows hs hregular hwithin] at hloop
  rw [storeNarrow, Action.run_bind, Action.run_ofExcept, hs.schema.inStage_eq,
    hs.schema.elementsFor_eq]
  exact Action.run_bind_ok hloop

/-- The rows of the values of an element in its side table, none if it has a column. -/
def elementRows (s : Store) (tables : TypeTables) (id : Int) (e : String × List String) :
    List (String × Row) :=
  if s.layout.isVector e.1 = true then e.2.map fun v => (tables.side e.1, valueRow id v) else []

/-- The rows of metadata in side tables. -/
def sideRows (s : Store) (tables : TypeTables) (id : Int) (m : Metadata) : List (String × Row) :=
  m.entries.flatMap (s.elementRows tables id)

/-- The cells of the row of a product fit the table as soon as it is widened to the type. -/
theorem accepts_wideCells (hs : s.Regular) (hwide : s.layout ≠ .narrow)
    (ht : t ∈ s.schema.types.types) (hready : s.Ready db t tables) (hregular : m.Regular)
    (hwithin : m.Within (s.schema.declaredNames t)) {shape : Shape}
    (hshape : db.shape? tables.metadata = some shape) (hfits : s.IsWide tables.metadata shape) :
    shape.Accepts (s.wideCells m) := by
  -- cells come from declared elements that have a column
  have hcell : ∀ c ∈ s.wideCells m,
      c.1 ∈ s.schema.declaredNames t ∧ s.layout.isVector c.1 = false := by
    intro c hc
    rcases List.mem_filterMap.1 hc with ⟨e, he, hsome⟩
    rcases declared_of_mem_entries hregular hwithin he with ⟨hdeclared, -, -⟩
    rw [wideCell] at hsome
    by_cases hvector : s.layout.isVector e.1 = true
    · rw [if_pos hvector] at hsome
      cases hsome
    · rw [if_neg hvector] at hsome
      rcases Option.map_eq_some_iff.1 hsome with ⟨v, -, rfl⟩
      exact ⟨hdeclared, by simpa using hvector⟩
  constructor
  · intro c hc
    rcases hcell c hc with ⟨hdeclared, hscalar⟩
    have hcovers := hready.elements hwide c.1 hdeclared
    rw [Covers, if_neg (by simp [hscalar])] at hcovers
    rcases hcovers with ⟨shape', hshape', hmem⟩
    rw [hshape] at hshape'
    cases hshape'
    rcases List.mem_map.1 hmem with ⟨column, hcolumn, hname⟩
    exact ⟨column, hcolumn, hname ▸ rfl⟩
  · intro c hc
    exact (hs.columns hwide).free t ht c.1 (hcell c hc).1
  · intro column hcolumn hrequired
    rw [hfits.optional column hcolumn] at hrequired
    cases hrequired

/-- Among the rows of entries, those in the side table of an element are its values, as long as no
two entries share a side table. -/
theorem addedTo_elementRows {a : String} (hvector : s.layout.isVector a = true)
    (entries : List (String × List String)) (hnodup : (entries.map Prod.fst).Nodup)
    (hside : ∀ e ∈ entries, Table.sameName (tables.side a) (tables.side e.1) = (e.1 == a)) :
    Database.addedTo (entries.flatMap (s.elementRows tables id)) (tables.side a) id =
      ((entries.lookup a).getD []).map (valueRow id) := by
  induction entries with
  | nil => rfl
  | cons e rest ih =>
    rw [List.map_cons, List.nodup_cons] at hnodup
    have hrest := ih hnodup.2 fun d hd => hside d (List.mem_cons_of_mem e hd)
    have hproduct : ∀ v, ((valueRow id v).product == id) = true := fun v => beq_self_eq_true id
    have hhead := hside e List.mem_cons_self
    unfold Database.addedTo at hrest ⊢
    rw [List.flatMap_cons, List.filter_append, List.map_append, hrest, lookup_cons_ite, elementRows]
    -- no later entry has the element, and rows of others are in other tables
    by_cases hsame : a = e.1
    · subst hsame
      rw [if_pos hvector, if_pos rfl, Metadata.lookup_of_not_mem _ hnodup.1]
      simp [List.filter_map, Function.comp_def, hhead, hproduct]
    · rw [if_neg hsame]
      have hnone : (e.1 == a) = false := by simpa using Ne.symm hsame
      split <;> simp [List.filter_map, Function.comp_def, hhead, hnone]

/-- Of the rows in side tables, those in the side table of an element are its values. -/
theorem addedTo_sideRows (hs : s.Regular) (hwide : s.layout ≠ .narrow)
    (ht : t ∈ s.schema.types.types) (htables : TypeTables.ofType s.bases t = .ok tables)
    (hregular : m.Regular) (hwithin : m.Within (s.schema.declaredNames t)) {a : String}
    (ha : a ∈ s.schema.declaredNames t) (hvector : s.layout.isVector a = true) :
    Database.addedTo (s.sideRows tables id m) (tables.side a) id =
      (m.values a).map (valueRow id) := by
  apply addedTo_elementRows hvector m.entries m.ascend.nodup
  intro e he
  have hdeclared := (declared_of_mem_entries hregular hwithin he).1
  rw [Bool.eq_iff_iff, sameName_iff, beq_iff_eq]
  constructor
  · intro h
    have hsame : SameName a e.1 := by
      rw [tables.side_eq, tables.side_eq, sameName_append_left, sameName_append_right] at h
      exact h
    have hshared : TypeTables.Shared s.bases t t := ⟨tables, tables, htables, htables, rfl⟩
    exact ((hs.columns hwide).distinct t ht t ht hshared a ha e.1 hdeclared hsame).symm
  · intro h
    rw [h]
    rfl

/-- No row in a side table is a row of metadata. -/
theorem addedTo_sideRows_metadata :
    Database.addedTo (s.sideRows tables id m) tables.metadata id = [] := by
  unfold Database.addedTo
  rw [List.map_eq_nil_iff, List.filter_eq_nil_iff]
  intro row hrow hsame
  rcases List.mem_flatMap.1 hrow with ⟨e, -, he⟩
  unfold elementRows at he
  split at he
  · rcases List.mem_map.1 he with ⟨v, -, rfl⟩
    rw [Bool.and_eq_true, sameName_iff] at hsame
    exact side_ne_metadata tables tables e.1 hsame.1.symm
  · cases he

/-- The side tables that rows are for are there. -/
theorem isSome_of_mem_sideRows (hs : s.Regular) (hwide : s.layout ≠ .narrow)
    (ht : t ∈ s.schema.types.types) (hready : s.Ready db t tables) (hregular : m.Regular)
    (hwithin : m.Within (s.schema.declaredNames t)) {a : String × Row}
    (ha : a ∈ s.sideRows tables id m) : (db.shape? a.1).isSome = true := by
  rcases List.mem_flatMap.1 ha with ⟨e, he, hrow⟩
  rcases declared_of_mem_entries hregular hwithin he with ⟨hdeclared, -, -⟩
  unfold elementRows at hrow
  split at hrow
  · rename_i hvector
    rcases List.mem_map.1 hrow with ⟨v, -, rfl⟩
    exact (hready.side hs hwide ht hdeclared hvector).2
  · cases hrow

/-- One turn of the loop of `storeWide`. -/
def storeElement (s : Store) (tables : TypeTables) (id : Int) (e : String × List String) :
    Action Database (Option (String × String)) :=
  match e with
  | (name, values) => do
    if s.layout.isVector name then
      storeVector tables id name values
      return none
    else
      match values.head? with
      | none => return none
      | some value => return some (← Action.ofExcept (usableName name), value)

theorem run_storeElement (hs : s.Regular) (hwide : s.layout ≠ .narrow)
    (ht : t ∈ s.schema.types.types) (hshaped : s.Shaped db) (hready : s.Ready db t tables)
    {e : String × List String} (hdeclared : e.1 ∈ s.schema.declaredNames t) :
    (s.storeElement tables id e).run db =
      (.ok (s.wideCell e), db.insertAll (s.elementRows tables id e)) := by
  by_cases hvector : s.layout.isVector e.1 = true
  · rcases hready.side hs hwide ht hdeclared hvector with ⟨hvalues, hside⟩
    have hshape := hshaped.valueShape_of_isSide hwide (isSide_side tables e.1) hside
    have hone := run_insertValues id hshape rfl (fun v => accepts_valueShape v) e.2
    simp only [storeElement, wideCell, elementRows, if_pos hvector, storeVector, hvalues]
    rw [Action.run_bind, Action.run_bind, Action.run_ofExcept]
    dsimp only
    rw [hone]
    rfl
  · simp only [storeElement, wideCell, elementRows, if_neg hvector]
    cases hhead : e.2.head? with
    | none => rfl
    | some v =>
      have husable := (hs.columns hwide).usable t ht e.1 hdeclared
      rw [usableName, if_pos husable]
      rfl

theorem run_storeWide (hs : s.Regular) (hwide : s.layout ≠ .narrow) (ht : t ∈ s.schema.types.types)
    (hshaped : s.Shaped db) (hready : s.Ready db t tables) (hregular : m.Regular)
    (hwithin : m.Within (s.schema.declaredNames t)) (hfree : db.rowsIn tables.metadata id = []) :
    (s.storeWide tables id m).run db =
      (.ok (), db.insertAll
        (s.sideRows tables id m ++ [(tables.metadata, Table.rowFor id (s.wideCells m))])) := by
  have hbody : ∀ e ∈ m.entries, ∀ now : Database, s.Shaped now ∧ s.Ready now t tables →
      (s.storeElement tables id e).run now =
          (.ok (s.wideCell e), now.insertAll (s.elementRows tables id e)) ∧
        s.Shaped (now.insertAll (s.elementRows tables id e)) ∧
        s.Ready (now.insertAll (s.elementRows tables id e)) t tables := by
    rintro e he now ⟨hnow, hthere⟩
    rcases declared_of_mem_entries hregular hwithin he with ⟨hdeclared, -, -⟩
    have hframe := Database.sameFrame_insertAll now (s.elementRows tables id e)
    exact ⟨run_storeElement hs hwide ht hnow hthere hdeclared, hnow.of_shapes hframe.shapes,
      hthere.of_frame hframe⟩
  have hloop := Action.run_filterMapM hbody ⟨hshaped, hready⟩
  rw [foldl_insertAll] at hloop
  have hframe := Database.sameFrame_insertAll db (s.sideRows tables id m)
  rcases Option.isSome_iff_exists.1 hready.metadata with ⟨shape, hshape⟩
  have hfits := hshaped.isWide hwide hshape
  have haccepts := accepts_wideCells hs hwide ht hready hregular hwithin hshape hfits
  have hthere : ∀ a ∈ s.sideRows tables id m, (db.shape? a.1).isSome = true :=
    fun a ha => isSome_of_mem_sideRows hs hwide ht hready hregular hwithin ha
  -- the row of first values comes last, into a table without a row of the product
  have hstill : (db.insertAll (s.sideRows tables id m)).rowsIn tables.metadata id = [] := by
    rw [Database.rowsIn_insertAll hthere, hfree, addedTo_sideRows_metadata]
    rfl
  have hlast := run_insertRow id ((hframe.shapes tables.metadata).trans hshape) haccepts
    fun _ => hstill
  have hjoin : db.insertAll
      (s.sideRows tables id m ++ [(tables.metadata, Table.rowFor id (s.wideCells m))]) =
      (db.insertAll (s.sideRows tables id m)).updateRows tables.metadata
        fun rows => rows ++ [Table.rowFor id (s.wideCells m)] := by
    rw [Database.insertAll, List.foldl_append]
    rfl
  rw [hjoin, storeWide]
  exact (Action.run_bind_ok hloop).trans hlast

/-! ## Replacing metadata -/

theorem addedTo_of_ne {added : List (String × Row)} (h : ∀ a ∈ added, a.2.product = id)
    {name : String} {j : Int} (hj : j ≠ id) : Database.addedTo added name j = [] := by
  unfold Database.addedTo
  rw [List.map_eq_nil_iff, List.filter_eq_nil_iff]
  intro a ha hsame
  rw [Bool.and_eq_true, beq_iff_eq, h a ha] at hsame
  exact hj hsame.2.symm

theorem product_of_mem_sideRows {a : String × Row} (ha : a ∈ s.sideRows tables id m) :
    a.2.product = id := by
  rcases List.mem_flatMap.1 ha with ⟨e, -, he⟩
  unfold elementRows at he
  split at he
  · rcases List.mem_map.1 he with ⟨v, -, rfl⟩
    rfl
  · cases he

/-- Rows of a product take the place of those it had in some tables. -/
theorem replaced_rows (names : List String) {added : List (String × Row)}
    (hproduct : ∀ a ∈ added, a.2.product = id)
    (hthere : ∀ a ∈ added, (db.shape? a.1).isSome = true) :
    Database.SameFrame db ((db.eraseAll names id).insertAll added) ∧
      Database.Extends db ((db.eraseAll names id).insertAll added) (· ≠ id) ∧
      ∀ name ∈ names, ((db.eraseAll names id).insertAll added).rowsIn name id =
        Database.addedTo added name id := by
  have hframe := Database.sameFrame_eraseAll db names id
  have hframe' := hframe.trans (Database.sameFrame_insertAll (db.eraseAll names id) added)
  -- erasing and inserting both leave rows of other products alone
  have hrows : ∀ name j, ((db.eraseAll names id).insertAll added).rowsIn name j =
      (if j = id ∧ ∃ other ∈ names, SameName name other then [] else db.rowsIn name j) ++
        Database.addedTo added name j := by
    intro name j
    rw [Database.rowsIn_insertAll fun a ha => by rw [hframe.shapes]; exact hthere a ha,
      Database.rowsIn_eraseAll]
  refine ⟨hframe', hframe'.extends ?_, ?_⟩
  · intro name j hj
    rw [hrows, addedTo_of_ne hproduct hj, if_neg fun h => hj h.1, List.append_nil]
  · intro name hname
    rw [hrows, if_pos ⟨rfl, name, hname, rfl⟩, List.nil_append]

/-- The cells of a row do not show what the layout leaves out. -/
theorem wideCells_kept (hwide : s.layout ≠ .narrow) :
    s.wideCells (s.layout.kept m) = s.wideCells m := by
  cases hl : s.layout with
  | narrow => exact absurd hl hwide
  | wide vectors =>
    unfold wideCells Layout.kept
    refine List.filterMap_map.trans (List.filterMap_congr ?_)
    intro e _
    dsimp only [Function.comp_apply]
    unfold wideCell
    rw [hl]
    by_cases hvector : e.1 ∈ vectors
    · simp [Layout.isVector, hvector]
    · cases e.2 <;> simp [Layout.isVector, hvector]

theorem holdsWide_inserted (hs : s.Regular) (hwide : s.layout ≠ .narrow)
    (ht : t ∈ s.schema.types.types) (htables : TypeTables.ofType s.bases t = .ok tables)
    (hregular : m.Regular) (hwithin : m.Within (s.schema.declaredNames t))
    (hrows : ∀ name ∈ s.textTables t tables, db.rowsIn name id = Database.addedTo
      (s.sideRows tables id m ++ [(tables.metadata, Table.rowFor id (s.wideCells m))]) name id) :
    s.HoldsWide db t tables id (s.layout.kept m) := by
  have happend : ∀ (added added' : List (String × Row)) (name : String),
      Database.addedTo (added ++ added') name id =
        Database.addedTo added name id ++ Database.addedTo added' name id := by
    intro added added' name
    simp [Database.addedTo]
  refine ⟨?_, Or.inl ?_, ?_⟩
  · intro a hscalar
    rw [Layout.values_kept, if_neg (by simp [hwide, hscalar])]
    exact List.length_take_le 1 _
  · rw [hrows _ List.mem_cons_self, happend, addedTo_sideRows_metadata, wideCells_kept hwide]
    simp [Database.addedTo, Table.sameName, Table.rowFor]
  · intro a ha hvector
    have hside : tables.side a ∈ s.textTables t tables := by
      rcases List.mem_map.1 ha with ⟨e, he, rfl⟩
      exact List.mem_cons_of_mem _ (List.mem_map.2 ⟨e, List.mem_filter.2 ⟨he, hvector⟩, rfl⟩)
    have hother : Table.sameName (tables.side a) tables.metadata = false := by
      simpa [Table.sameName, SameName] using side_ne_metadata tables tables a
    rw [hrows _ hside, happend, addedTo_sideRows hs hwide ht htables hregular hwithin ha hvector,
      Layout.values_kept, if_pos (Or.inr hvector)]
    simp [Database.addedTo, hother]

/-- The rows that stand for metadata of a product. -/
def metadataRows (s : Store) (t : ProductType) (tables : TypeTables) (id : Int) (m : Metadata) :
    List (String × Row) :=
  match s.layout with
  | .narrow => m.pairs.map fun p => (tables.metadata, entryRow id (s.schema.elementId t p.1) p.2)
  | .wide _ => s.sideRows tables id m ++ [(tables.metadata, Table.rowFor id (s.wideCells m))]

theorem product_of_mem_metadataRows {a : String × Row} (ha : a ∈ s.metadataRows t tables id m) :
    a.2.product = id := by
  unfold metadataRows at ha
  split at ha
  · rcases List.mem_map.1 ha with ⟨p, -, rfl⟩
    rfl
  · rcases List.mem_append.1 ha with hside | hlast
    · exact product_of_mem_sideRows hside
    · rw [List.mem_singleton.1 hlast]
      rfl

theorem isSome_of_mem_metadataRows (hs : s.Regular) (ht : t ∈ s.schema.types.types)
    (hready : s.Ready db t tables) (hregular : m.Regular)
    (hwithin : m.Within (s.schema.declaredNames t)) {a : String × Row}
    (ha : a ∈ s.metadataRows t tables id m) : (db.shape? a.1).isSome = true := by
  unfold metadataRows at ha
  cases hl : s.layout with
  | narrow =>
    rw [hl] at ha
    rcases List.mem_map.1 ha with ⟨p, -, rfl⟩
    exact hready.metadata
  | wide vectors =>
    rw [hl] at ha
    rcases List.mem_append.1 ha with hside | hlast
    · exact isSome_of_mem_sideRows hs (by simp [hl]) ht hready hregular hwithin hside
    · rw [List.mem_singleton.1 hlast]
      exact hready.metadata

/-- Tables in which a product has the rows of metadata and no others hold what the layout keeps. -/
theorem holds_metadataRows (hs : s.Regular) (ht : t ∈ s.schema.types.types)
    (htables : TypeTables.ofType s.bases t = .ok tables) (hregular : m.Regular)
    (hwithin : m.Within (s.schema.declaredNames t))
    (hrows : ∀ name ∈ s.textTables t tables, db.rowsIn name id =
      Database.addedTo (s.metadataRows t tables id m) name id) :
    s.Holds db t tables id ⟨db.referencesIn tables.reference id, s.layout.kept m⟩ := by
  refine ⟨rfl, Layout.regular_kept s.layout hregular, Layout.within_kept s.layout hwithin, ?_, ?_⟩
  · intro hl
    rw [hrows _ List.mem_cons_self, metadataRows, hl]
    simp [Database.addedTo, Table.sameName, entryRow, Table.rowFor, List.filter_map,
      Function.comp_def, Layout.kept]
  · intro hwide
    apply holdsWide_inserted hs hwide ht htables hregular hwithin
    intro name hname
    rw [hrows name hname, metadataRows]
    cases hl : s.layout with
    | narrow => exact absurd hl hwide
    | wide vectors => rfl

/-- Storing metadata of a product replaces what was held for it and leaves all else as it was. -/
theorem run_storeMetadata (id : Int) (hs : s.Regular) (ht : t ∈ s.schema.types.types)
    (htables : TypeTables.ofType s.bases t = .ok tables) (hshaped : s.Shaped db)
    (hready : s.Ready db t tables) (hregular : m.Regular)
    (hwithin : m.Within (s.schema.declaredNames t)) :
    ∃ db', (s.storeMetadata t id m).run db = (.ok (), db') ∧ Database.SameFrame db db' ∧
      Database.Extends db db' (· ≠ id) ∧
      s.Holds db' t tables id ⟨db.referencesIn tables.reference id, s.layout.kept m⟩ := by
  have hframe := Database.sameFrame_eraseAll db (s.textTables t tables) id
  have hshaped₁ := hshaped.of_shapes hframe.shapes
  have hready₁ := hready.of_frame hframe
  have hproduct : ∀ a ∈ s.metadataRows t tables id m, a.2.product = id :=
    fun a ha => product_of_mem_metadataRows ha
  have hthere : ∀ a ∈ s.metadataRows t tables id m, (db.shape? a.1).isSome = true :=
    fun a ha => isSome_of_mem_metadataRows hs ht hready hregular hwithin ha
  rcases replaced_rows (s.textTables t tables) hproduct hthere with ⟨hframe', hext, hrows⟩
  have hholds := holds_metadataRows hs ht htables hregular hwithin hrows
  rw [Database.referencesIn, hframe'.references, ← Database.referencesIn] at hholds
  -- what is left to show is that the operation comes to these rows
  refine ⟨_, ?_, hframe', hext, hholds⟩
  rw [storeMetadata, tablesOf, htables, Action.run_bind, Action.run_ofExcept]
  dsimp only
  rw [Action.run_bind_ok (run_deleteMetadata hs ht htables hready), metadataRows]
  cases hl : s.layout with
  | narrow => exact run_storeNarrow hs hl hshaped₁ hready₁ hregular hwithin
  | wide vectors =>
    have hfree : (db.eraseAll (s.textTables t tables) id).rowsIn tables.metadata id = [] := by
      rw [Database.rowsIn_eraseAll, if_pos ⟨rfl, tables.metadata, List.mem_cons_self, rfl⟩]
    exact run_storeWide hs (by simp [hl]) ht hshaped₁ hready₁ hregular hwithin hfree

/-! ## Replacing references -/

/-- Storing references of a product replaces what was held for it and leaves all else as it was. -/
theorem run_storeReferences (id : Int) (htables : TypeTables.ofType s.bases t = .ok tables)
    (hready : s.Ready db t tables) (references : List FileReference) :
    ∃ entries, (s.storeReferences t id references).run db =
        (.ok (), { db with references := entries }) ∧
      Database.Extends db { db with references := entries } (· ≠ id) ∧
      ∀ c, s.Holds db t tables id c → s.Holds { db with references := entries } t tables id
        { c with references := references.map Database.storable } := by
  rcases Database.exists_replaceReferences id hready.references references with
    ⟨entries, hreplace, hhas, hreferences⟩
  refine ⟨entries, ?_, ⟨fun _ _ _ => rfl, ?_, ?_,
    fun _ shape hshape => ⟨shape, hshape, fun _ ha => ha⟩⟩, ?_⟩
  · rw [storeReferences, tablesOf, htables, Action.run_bind, Action.run_ofExcept]
    exact run_alter_ok hreplace
  · intro name j hj
    rw [hreferences, if_neg fun h => hj h.2]
  · intro name hname
    rw [hhas, hname]
  · intro c h
    refine ⟨by rw [hreferences, if_pos ⟨rfl, rfl⟩], h.regular, h.within, h.narrow, ?_⟩
    intro hwide
    rcases h.wide hwide with ⟨hsingle, hrow, hsides⟩
    exact ⟨hsingle, hrow, hsides⟩

end Store

end ArchiveCatalog.Relational

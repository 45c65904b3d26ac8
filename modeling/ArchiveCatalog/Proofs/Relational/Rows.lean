import ArchiveCatalog.Proofs.Metadata
import ArchiveCatalog.Proofs.Action
import ArchiveCatalog.Relational.Store

namespace ArchiveCatalog.Relational

/-! # What a product has in the tables

A database is looked at through two views: the shape of a table, which is everything but
its rows, and the rows of one product in it. Every statement that the relational catalog
runs changes the rows of one product in one table or widens shapes, so the views of all
other products stay.
-/

/-! ## Names -/

/-- The names are those of one table or column. -/
def SameName (a b : String) : Prop := Text.folded a = Text.folded b

instance (a b : String) : Decidable (SameName a b) :=
  inferInstanceAs (Decidable (Text.folded a = Text.folded b))

theorem folded_append (a b : String) :
    Text.folded (a ++ b) = Text.folded a ++ Text.folded b := by
  simp [Text.folded, String.ofList_append]

theorem sameName_iff {a b : String} : Table.sameName a b = true ↔ SameName a b := by
  simp [Table.sameName, SameName]

theorem sameName_append_left {a b c : String} : SameName (a ++ b) (a ++ c) ↔ SameName b c := by
  simp [SameName, folded_append]

theorem sameName_append_right {a b c : String} : SameName (a ++ c) (b ++ c) ↔ SameName a b := by
  simp [SameName, folded_append]

/-! ## Tables -/

/-- A table without its rows. -/
structure Shape where
  keyed : Bool
  columns : List Column
  deriving DecidableEq, Repr

/-- Every cell has a column and every required column a cell. -/
structure Shape.Accepts (shape : Shape) (cells : List (String × String)) : Prop where
  known : ∀ c ∈ cells, ∃ column ∈ shape.columns, SameName column.name c.1
  free : ∀ c ∈ cells, ¬ SameName c.1 productColumn
  required : ∀ column ∈ shape.columns, column.required = true →
    ((Table.rowFor 0 cells).cell? column.name).isSome = true

namespace Table

/-- What a table is apart from its rows. -/
def shape (t : Table) : Shape := ⟨t.keyed, t.columns⟩

/-- A row with fitting cells goes in at the end, if the table is not keyed or the product
has no row yet. -/
theorem insert_eq {t : Table} {id : Int} {cells : List (String × String)}
    (haccepts : t.shape.Accepts cells) (hfree : t.keyed = true → ∀ r ∈ t.rows, r.product ≠ id) :
    t.insert id cells = .ok { t with rows := t.rows ++ [rowFor id cells] } := by
  -- an insertion is refused for four reasons, none of which applies
  have hfound : (cells.map Prod.fst).find? (fun name => !t.hasColumn name) = none := by
    refine List.find?_eq_none.2 ?_
    intro name hname
    rcases List.mem_map.1 hname with ⟨c, hc, rfl⟩
    rcases haccepts.known c hc with ⟨column, hcolumn, hsame⟩
    have hany : (t.columns.any fun column => sameName column.name c.1) = true :=
      List.any_eq_true.2 ⟨column, hcolumn, sameName_iff.2 hsame⟩
    simp [hasColumn, hany]
  have hnokey : cells.reverse.find? (fun cell => sameName cell.1 productColumn) = none := by
    refine List.find?_eq_none.2 ?_
    intro c hc
    rw [sameName_iff]
    exact haccepts.free c (List.mem_reverse.1 hc)
  have hmissing : t.missing? (rowFor id cells) = none := by
    refine List.find?_eq_none.2 ?_
    intro column hcolumn
    cases hr : column.required with
    | false => simp
    | true =>
      have hcell : ((rowFor id cells).cell? column.name).isSome = true :=
        haccepts.required column hcolumn hr
      simpa [Option.isSome_iff_ne_none] using hcell
  have htaken : (t.keyed && t.rows.any (·.product == id)) = false := by
    cases hk : t.keyed with
    | false => rfl
    | true => simpa using hfree hk
  simp [insert, requireColumns, hfound, keyFor, hnokey, hmissing, htaken, bind, Except.bind]

end Table

theorem cell?_rowFor {id : Int} {cells : List (String × String)} {column : String} :
    (Table.rowFor id cells).cell? column =
      (cells.map fun c => (Text.folded c.1, c.2)).lookup (Text.folded column) := rfl

namespace Database

/-! ## The two views -/

/-- The shape of the table of a name. -/
def shape? (db : Database) (name : String) : Option Shape := (db.table? name).map Table.shape

/-- The rows of a product in the table of a name. -/
def rowsIn (db : Database) (name : String) (id : Int) : List Row :=
  (db.rows name).filter (·.product == id)

/-- There is a table of references of the name. -/
def hasReferences (db : Database) (name : String) : Bool :=
  (db.references.lookup (Text.folded name)).isSome

/-- The references of a product in the table of a name, none if it is not there. -/
def referencesIn (db : Database) (name : String) (id : Int) : List FileReference :=
  (((db.references.lookup (Text.folded name)).getD []).filter (·.product == id)).map
    ReferenceRow.reference

variable {db : Database} {name other : String} {id j : Int}

theorem lookup_put {α : Type} (key k : String) (entry : α) (entries : List (String × α)) :
    (put key entry entries).lookup k = if k = key then some entry else entries.lookup k := by
  rw [put, lookup_cons_ite, lookup_filter_ne]
  split <;> simp [*]

theorem table?_setTable (t : Table) :
    (db.setTable name t).table? other = if SameName other name then some t else db.table? other :=
  lookup_put _ _ _ _

theorem exists_table_of_shape? {shape : Shape} (h : db.shape? name = some shape) :
    ∃ t, db.table? name = some t ∧ t.shape = shape ∧ db.rows name = t.rows := by
  rcases Option.map_eq_some_iff.1 h with ⟨t, ht, hshape⟩
  exact ⟨t, ht, hshape, by simp [rows, ht]⟩

theorem table?_congr (h : SameName name other) : db.table? name = db.table? other := by
  unfold table?
  rw [show Text.folded name = Text.folded other from h]

theorem shape?_congr (h : SameName name other) : db.shape? name = db.shape? other := by
  unfold shape?
  rw [table?_congr h]

theorem rows_congr (h : SameName name other) : db.rows name = db.rows other := by
  unfold rows
  rw [table?_congr h]

theorem rows_of_shape?_none (h : db.shape? name = none) : db.rows name = [] := by
  have ht : db.table? name = none := Option.map_eq_none_iff.1 h
  simp [rows, ht]

/-! ## Changing references -/

theorem referencesOf_eq (h : db.hasReferences name = true) :
    db.referencesOf name id = .ok (db.referencesIn name id) := by
  rcases Option.isSome_iff_exists.1 h with ⟨rows, hrows⟩
  simp [referencesOf, referenceRows, referencesIn, hrows, bind, Except.bind, pure, Except.pure]

/-- References take the place of those of a product, in a table that is there. -/
theorem exists_replaceReferences (id : Int) (h : db.hasReferences name = true)
    (refs : List FileReference) :
    ∃ entries, db.replaceReferences name id refs = .ok { db with references := entries } ∧
      (∀ other, hasReferences { db with references := entries } other = db.hasReferences other) ∧
      ∀ other j, referencesIn { db with references := entries } other j =
        if SameName other name ∧ j = id then refs.map storable else db.referencesIn other j := by
  rcases Option.isSome_iff_exists.1 h with ⟨rows, hrows⟩
  let changed := rows.filter (·.product != id) ++ refs.map fun r => ⟨id, storable r⟩
  refine ⟨put (Text.folded name) changed db.references, ?_, ?_, ?_⟩
  · simp [changed, replaceReferences, referenceRows, hrows, bind, Except.bind, pure, Except.pure]
  · intro other
    unfold hasReferences
    dsimp only
    rw [lookup_put]
    split <;> simp [*]
  · intro other j
    unfold referencesIn
    dsimp only
    rw [lookup_put]
    -- other tables are looked up past the one put in front
    by_cases hsame : SameName other name
    · have hfolded : Text.folded other = Text.folded name := hsame
      rw [if_pos hfolded, hfolded, hrows]
      by_cases hj : j = id
      · subst hj
        simp [changed, hsame, List.filter_filter, List.filter_map, Function.comp_def]
      · have hkept : ∀ r : ReferenceRow,
            (r.product == j && r.product != id) = (r.product == j) := by
          intro r
          by_cases hr : r.product = j <;> simp [hr, hj]
        simp [changed, hj, List.filter_filter, List.filter_map, Function.comp_def, hkept,
          Ne.symm hj]
    · rw [if_neg (show ¬ Text.folded other = Text.folded name from hsame)]
      simp [hsame]

/-! ## Changing rows -/

/-- Changes the rows of a table, if it is there. -/
def updateRows (db : Database) (name : String) (change : List Row → List Row) : Database :=
  match db.table? name with
  | some t => db.setTable name { t with rows := change t.rows }
  | none => db

/-- Removes the rows of a product from several tables. -/
def eraseAll (db : Database) (names : List String) (id : Int) : Database :=
  names.foldl (fun db name => db.updateRows name fun rows => rows.filter (·.product != id)) db

/-- Appends rows to the tables they are for, one after the other. -/
def insertAll (db : Database) (added : List (String × Row)) : Database :=
  added.foldl (fun db a => db.updateRows a.1 fun rows => rows ++ [a.2]) db

/-- The databases have the same products, references and shapes. -/
structure SameFrame (db db' : Database) : Prop where
  products : db'.products = db.products
  lastId : db'.lastId = db.lastId
  references : db'.references = db.references
  shapes : ∀ name, db'.shape? name = db.shape? name

theorem SameFrame.refl (db : Database) : SameFrame db db := ⟨rfl, rfl, rfl, fun _ => rfl⟩

theorem SameFrame.trans {db₁ db₂ db₃ : Database} (h : SameFrame db₁ db₂)
    (h' : SameFrame db₂ db₃) : SameFrame db₁ db₃ :=
  ⟨h'.products.trans h.products, h'.lastId.trans h.lastId, h'.references.trans h.references,
    fun name => (h'.shapes name).trans (h.shapes name)⟩

theorem sameFrame_updateRows (db : Database) (name : String) (change : List Row → List Row) :
    SameFrame db (db.updateRows name change) := by
  unfold updateRows
  cases ht : db.table? name with
  | none => exact .refl db
  | some t =>
    refine ⟨rfl, rfl, rfl, ?_⟩
    intro other
    unfold shape?
    dsimp only
    rw [table?_setTable]
    by_cases hsame : SameName other name
    · rw [if_pos hsame, table?_congr hsame, ht]
      rfl
    · rw [if_neg hsame]

theorem rows_updateRows {change : List Row → List Row}
    (h : (db.shape? name).isSome = true ∨ change [] = []) :
    (db.updateRows name change).rows other =
      if SameName other name then change (db.rows name) else db.rows other := by
  unfold updateRows
  cases ht : db.table? name with
  | some t =>
    unfold rows
    dsimp only
    rw [table?_setTable, ht]
    by_cases hsame : SameName other name <;> simp [hsame]
  | none =>
    have hnone : db.shape? name = none := by simp [shape?, ht]
    by_cases hsame : SameName other name
    · rw [hnone] at h
      rw [if_pos hsame, rows_congr hsame, rows_of_shape?_none hnone]
      simpa using h.symm
    · rw [if_neg hsame]

theorem sameFrame_eraseAll (db : Database) (names : List String) (id : Int) :
    SameFrame db (db.eraseAll names id) := by
  induction names generalizing db with
  | nil => exact .refl db
  | cons name rest ih => exact (sameFrame_updateRows db name _).trans (ih _)

theorem sameFrame_insertAll (db : Database) (added : List (String × Row)) :
    SameFrame db (db.insertAll added) := by
  induction added generalizing db with
  | nil => exact .refl db
  | cons a rest ih => exact (sameFrame_updateRows db a.1 _).trans (ih _)

/-- Erasing touches one product in the listed tables. -/
theorem rowsIn_eraseAll (names : List String) :
    (db.eraseAll names id).rowsIn other j =
      if j = id ∧ ∃ name ∈ names, SameName other name then [] else db.rowsIn other j := by
  induction names generalizing db with
  | nil => simp [eraseAll]
  | cons name rest ih =>
    -- names that differ in case only are names of one table
    have hone : (db.updateRows name fun rows => rows.filter (·.product != id)).rowsIn other j =
        if j = id ∧ SameName other name then [] else db.rowsIn other j := by
      unfold rowsIn
      rw [rows_updateRows (Or.inr rfl)]
      by_cases hsame : SameName other name
      · rw [if_pos hsame, List.filter_filter, ← rows_congr hsame]
        by_cases hj : j = id
        · simp [hsame, hj]
        · rw [if_neg fun h => hj h.1]
          apply List.filter_congr
          intro r _
          by_cases hr : r.product = j <;> simp [hr, hj]
      · simp [hsame]
    show (eraseAll _ rest id).rowsIn other j = _
    rw [ih, hone]
    by_cases hj : j = id <;> by_cases hsame : SameName other name <;> simp [hj, hsame]

/-- The rows that are added to a table for a product. -/
def addedTo (added : List (String × Row)) (name : String) (id : Int) : List Row :=
  (added.filter fun a => Table.sameName name a.1 && a.2.product == id).map Prod.snd

/-- Inserted rows stand after those there were. -/
theorem rowsIn_insertAll {added : List (String × Row)}
    (h : ∀ a ∈ added, (db.shape? a.1).isSome = true) :
    (db.insertAll added).rowsIn other j = db.rowsIn other j ++ addedTo added other j := by
  induction added generalizing db with
  | nil => simp [insertAll, addedTo]
  | cons a rest ih =>
    -- the tables of the rest are still there, since inserting keeps all shapes
    have hframe := sameFrame_updateRows db a.1 fun rows => rows ++ [a.2]
    have hone : (db.updateRows a.1 fun rows => rows ++ [a.2]).rowsIn other j =
        db.rowsIn other j ++ addedTo [a] other j := by
      unfold rowsIn addedTo
      rw [rows_updateRows (Or.inl (h a List.mem_cons_self))]
      by_cases hsame : SameName other a.1
      · rw [if_pos hsame, List.filter_append, ← rows_congr hsame]
        by_cases hj : a.2.product = j <;> simp [sameName_iff.2 hsame, hj]
      · have hno : Table.sameName other a.1 = false := by
          simpa [Table.sameName, SameName] using hsame
        simp [hsame, hno]
    have hrest : ∀ b ∈ rest,
        ((db.updateRows a.1 fun rows => rows ++ [a.2]).shape? b.1).isSome = true :=
      fun b hb => by rw [hframe.shapes]; exact h b (List.mem_cons_of_mem a hb)
    show (insertAll _ rest).rowsIn other j = _
    rw [ih hrest, hone, List.append_assoc]
    unfold addedTo
    rw [← List.map_append, ← List.filter_append]
    rfl

end Database

end ArchiveCatalog.Relational

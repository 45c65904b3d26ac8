import Mathlib.Data.List.Infix
import ArchiveCatalog.Proofs.Relational.Refinement

namespace ArchiveCatalog.Relational

/-! # One catalog in two layouts

As long as no element with a column is given a second value, it makes no difference in which
layout a catalog keeps its metadata. Databases in two layouts agree when they have the same
products and are sound for the same contents. Reads, which know of nothing else, then answer
the same from both, and every operation leaves databases that agree. Only writes of metadata
have to know that no value was left out for want of a place.
-/

namespace Store

open Database (Widens)
open ArchiveCatalog.Action (Matches)

/-- The same catalog in another layout. -/
def inLayout (s : Store) (layout : Layout) : Store := { s with layout }

theorem regular_inLayout_narrow {s : Store} (hschema : s.schema.Regular) :
    (s.inLayout .narrow).Regular := ⟨hschema, fun hwide => absurd rfl hwide⟩

theorem regular_inLayout {s : Store} (hschema : s.schema.Regular)
    (hcolumns : NamesSharedColumns s.schema s.bases) (layout : Layout) :
    (s.inLayout layout).Regular := ⟨hschema, fun _ => hcolumns⟩

/-! ## Queries without layouts -/

variable {s : Store} {db db' : Database} {contents : Int → Contents} {q : Query} {u : ProductType}

/-- The rows that a query selects once the tables of its type are ready. -/
def selecting (s : Store) (q : Query) (u : ProductType) : Action Database (List ProductRow) := do
  let (t, selection) ← .ofExcept (s.matching q u)
  s.ensureTables t
  return selectedRows (← get) t selection

theorem query_eq : s.query q u = do
    return (← s.selecting q u).map fun row => toString row.id := by
  simp only [query, selecting, bind_assoc, pure_bind]

theorem page_eq_selecting (number : Int) :
    s.page q u number = (do s.pageOf number (← s.selecting q u)) := by
  simp only [page_eq, selecting, bind_assoc, pure_bind]

/-- What a query finds among products with contents, wherever these are kept. -/
def found (s : Store) (q : Query) (u : ProductType) (products : List ProductRow)
    (contents : Int → Contents) : Except CatalogError (List ProductRow) := do
  let t ← s.schema.resolveType u
  s.schema.checkQuery q t
  let tables ← TypeTables.ofType s.bases t
  if tables.isReserved = true then .error (.store (.reservedName tables.reference))
  else .ok (Database.newestFirst (products.filter fun row =>
    row.typeId == t.id && q.holds (contents row.id).metadata))

/-- Selecting finds that much, and widens tables at most. -/
theorem Sound.run_selecting (hs : s.Regular) (h : s.Sound db contents) (q : Query)
    (u : ProductType) :
    ∃ db', (s.selecting q u).run db = (s.found q u db.products contents, db') ∧
      Widens db db' ∧ s.Sound db' contents := by
  -- what is refused leaves the database alone
  have hrefused : ∀ e, s.matching q u = .error e →
      (s.selecting q u).run db = (.error e, db) := by
    intro e he
    rw [selecting, Action.run_bind, Action.run_ofExcept, he]
  have hwidens := Widens.refl db
  unfold found
  cases hres : s.schema.resolveType u with
  | error e =>
    refine ⟨db, hrefused e ?_, hwidens, h⟩
    rw [matching, hres]
    rfl
  | ok t =>
    simp only [bind, Except.bind]
    cases hcheck : s.schema.checkQuery q t with
    | error e =>
      refine ⟨db, hrefused e ?_, hwidens, h⟩
      simp [matching, hres, hcheck, bind, Except.bind]
    | ok _ =>
      have hdeclared := hs.schema.declared_of_checkQuery hcheck
      dsimp only
      cases htables : TypeTables.ofType s.bases t with
      | error e =>
        refine ⟨db, hrefused e ?_, hwidens, h⟩
        simp [matching, translation, hres, hcheck, htables, hs.schema.inStage_eq,
          hs.schema.elementsFor_eq, bind, Except.bind]
      | ok tables =>
        dsimp only
        cases hreserved : tables.isReserved with
        | true =>
          rcases exists_matching hs hres htables hdeclared with ⟨selection, hmatching, -⟩
          refine ⟨db, ?_, hwidens, h⟩
          rw [selecting, Action.run_bind, Action.run_ofExcept, hmatching]
          exact Action.run_bind_error (run_ensureTables_reserved htables hreserved)
        | false =>
          rcases h.exists_selectedRows hs hres htables hreserved hdeclared with
            ⟨selection, db', hmatching, hrun, hwidens', hsound, hselected⟩
          refine ⟨db', ?_, hwidens', hsound⟩
          rw [selecting, Action.run_bind, Action.run_ofExcept, hmatching]
          dsimp only
          rw [Action.run_bind_ok hrun, Action.run_bind_ok (Action.run_get db'), Action.run_pure,
            hselected]
          rfl

/-! ## Agreement -/

/-- The databases have the same products and hold the same contents, each in its layout. -/
def Agree (s : Store) (layout layout' : Layout) (db db' : Database) : Prop :=
  ∃ contents, (s.inLayout layout).Sound db contents ∧ (s.inLayout layout').Sound db' contents ∧
    db'.products = db.products ∧ db'.lastId = db.lastId

variable {layout layout' : Layout} {p : Product}

theorem agree_empty : s.Agree layout layout' .empty .empty :=
  ⟨fun _ => ⟨[], .empty⟩, sound_empty, sound_empty, rfl, rfl⟩

theorem Agree.products (h : s.Agree layout layout' db db') : db'.products = db.products := by
  rcases h with ⟨-, -, -, hproducts, -⟩
  exact hproducts

theorem Agree.product?_eq (h : s.Agree layout layout' db db') (id : Int) :
    db'.product? id = db.product? id := by
  rw [Database.product?, h.products, ← Database.product?]

/-- A write finds the same product in both. -/
theorem Agree.target_eq (h : s.Agree layout layout' db db') (p : Product) :
    (s.inLayout layout').target db' p = (s.inLayout layout).target db p := by
  have htype : ∀ id, (s.inLayout layout').typeIn db' id = (s.inLayout layout).typeIn db id := by
    intro id
    rw [typeIn, h.product?_eq id]
    rfl
  simp only [target, htype]

/-! ## Reads -/

/-- What is made of the products alone agrees. -/
theorem agree_get {α : Type} {f g : Database → Action Database α}
    (h : ∀ db db', db'.products = db.products → Matches (s.Agree layout layout') (f db) (g db')) :
    Matches (s.Agree layout layout') (get >>= f) (get >>= g) := by
  intro db db' hagree
  rw [Action.run_bind_ok (Action.run_get db), Action.run_bind_ok (Action.run_get db')]
  exact h db db' hagree.products db db' hagree

/-- What is read of a stored product agrees if it is read off its contents. -/
theorem agree_ofStored {α : Type} {f g : Int → ProductType → Action Database α}
    (hread : ∀ db db' contents row t, (s.inLayout layout).Sound db contents →
      (s.inLayout layout').Sound db' contents → row ∈ db.products → row ∈ db'.products →
      s.schema.typeById row.typeId = .ok t →
      ∃ x, (f row.id t).run db = (.ok x, db) ∧ (g row.id t).run db' = (.ok x, db')) (id : Int) :
    Matches (s.Agree layout layout')
      (do f id (← (s.inLayout layout).storedType id))
      (do g id (← (s.inLayout layout').storedType id)) := by
  intro db db' hagree
  have hproduct := hagree.product?_eq id
  have hafter := hagree
  rcases hagree with ⟨contents, h, h', hproducts, -⟩
  rw [Action.run_bind, Action.run_bind, run_storedType, run_storedType]
  unfold typeIn
  rw [hproduct]
  cases hfound : db.product? id with
  | none => exact ⟨rfl, hafter⟩
  | some row =>
    rcases mem_of_product? hfound with ⟨hrow, rfl⟩
    dsimp only [inLayout]
    cases ht : s.schema.typeById row.typeId with
    | error e => exact ⟨rfl, hafter⟩
    | ok t =>
      rcases hread db db' contents row t h h' hrow (hproducts ▸ hrow) ht with ⟨x, hf, hg⟩
      dsimp only
      rw [hf, hg]
      exact ⟨rfl, hafter⟩

theorem agree_references (p : Product) : Matches (s.Agree layout layout')
    ((s.inLayout layout).references p) ((s.inLayout layout').references p) := by
  refine (Action.matches_ofExcept (numberOf p)).bind (agree_ofStored ?_)
  intro db db' contents row t h h' hrow hrow' ht
  rcases h.holds row hrow t ht with ⟨tables, htables, -, hready, hheld⟩
  rcases h'.holds row hrow' t ht with ⟨tables', htables', -, hready', hheld'⟩
  exact ⟨_, run_loadReferences htables hready hheld, run_loadReferences htables' hready' hheld'⟩

theorem agree_count (u : ProductType) : Matches (s.Agree layout layout')
    ((s.inLayout layout).count u) ((s.inLayout layout').count u) := by
  refine (Action.matches_ofExcept (s.schema.resolveType u)).bind fun t => agree_get ?_
  intro db db' hproducts
  rw [rowsOfType, rowsOfType, hproducts]
  exact Action.matches_pure _

section Regular

variable (hl : (s.inLayout layout).Regular) (hl' : (s.inLayout layout').Regular)
include hl hl'

theorem agree_loadProduct (id : Int) : Matches (s.Agree layout layout')
    ((s.inLayout layout).loadProduct id) ((s.inLayout layout').loadProduct id) := by
  intro db db' hagree
  have hproduct := hagree.product?_eq id
  rcases hagree with ⟨contents, h, h', hproducts, hlast⟩
  cases hfound : db.product? id with
  | none =>
    rw [run_loadProduct_none hfound, run_loadProduct_none (hproduct.trans hfound)]
    exact ⟨rfl, contents, h, h', hproducts, hlast⟩
  | some row =>
    rcases mem_of_product? hfound with ⟨hrow, rfl⟩
    rw [h.run_loadStored hl hrow, h'.run_loadStored hl' (hproducts ▸ hrow)]
    exact ⟨rfl, contents, h, h', hproducts, hlast⟩

theorem agree_loadProducts (rows : List ProductRow) : Matches (s.Agree layout layout')
    ((s.inLayout layout).loadProducts rows) ((s.inLayout layout').loadProducts rows) := by
  apply Action.matches_mapM
  intro row
  exact agree_loadProduct hl hl' row.id

theorem agree_metadata (p : Product) : Matches (s.Agree layout layout')
    ((s.inLayout layout).metadata p) ((s.inLayout layout').metadata p) := by
  refine (Action.matches_ofExcept (numberOf p)).bind (agree_ofStored ?_)
  intro db db' contents row t h h' hrow hrow' ht
  have hmem : t ∈ s.schema.types.types := hl.schema.mem_of_resolveType ht
  rcases h.holds row hrow t ht with ⟨tables, htables, -, hready, hheld⟩
  rcases h'.holds row hrow' t ht with ⟨tables', htables', -, hready', hheld'⟩
  exact ⟨_, run_loadMetadata hl hmem htables h.shaped hready hheld,
    run_loadMetadata hl' hmem htables' h'.shaped hready' hheld'⟩

theorem agree_byName (name : String) : Matches (s.Agree layout layout')
    ((s.inLayout layout).byName name) ((s.inLayout layout').byName name) := by
  apply agree_get
  intro db db' hproducts
  rw [hproducts]
  split
  · exact Action.matches_throw _
  · exact agree_loadProduct hl hl' _
  · exact Action.matches_throw _

/-- Products that are chosen by their rows are loaded alike. -/
theorem agree_listed (choose : List ProductRow → List ProductRow) :
    Matches (s.Agree layout layout')
      (do (s.inLayout layout).loadProducts (choose (← get).products))
      (do (s.inLayout layout').loadProducts (choose (← get).products)) := by
  apply agree_get
  intro db db' hproducts
  rw [hproducts]
  exact agree_loadProducts hl hl' _

/-- The same with those of a type to choose from, if the type is found. -/
theorem agree_listedOfType (u : ProductType) (choose : List ProductRow → List ProductRow) :
    Matches (s.Agree layout layout')
      (do
        let t ← .ofExcept ((s.inLayout layout).schema.resolveType u)
        (s.inLayout layout).loadProducts (choose (rowsOfType (← get) t)))
      (do
        let t ← .ofExcept ((s.inLayout layout').schema.resolveType u)
        (s.inLayout layout').loadProducts (choose (rowsOfType (← get) t))) :=
  (Action.matches_ofExcept (s.schema.resolveType u)).bind fun t =>
    agree_listed hl hl' fun rows => choose (Database.newestFirst (rows.filter (·.typeId == t.id)))

theorem agree_selecting (q : Query) (u : ProductType) : Matches (s.Agree layout layout')
    ((s.inLayout layout).selecting q u) ((s.inLayout layout').selecting q u) := by
  rintro db db' ⟨contents, h, h', hproducts, hlast⟩
  rcases h.run_selecting hl q u with ⟨db₁, hrun, hwidens, hsound⟩
  rcases h'.run_selecting hl' q u with ⟨db₁', hrun', hwidens', hsound'⟩
  rw [hrun, hrun', hproducts]
  refine ⟨rfl, contents, hsound, hsound', ?_, ?_⟩
  · rw [hwidens.products, hwidens'.products, hproducts]
  · rw [hwidens.lastId, hwidens'.lastId, hlast]

theorem agree_page (q : Query) (u : ProductType) (number : Int) :
    Matches (s.Agree layout layout')
      ((s.inLayout layout).page q u number) ((s.inLayout layout').page q u number) := by
  rw [page_eq_selecting, page_eq_selecting]
  refine (agree_selecting hl hl' q u).bind fun rows => ?_
  refine (Action.matches_ofExcept _).bind fun window => ?_
  split
  · exact Action.matches_pure _
  · exact (agree_loadProducts hl hl' _).answer _

/-- Whatever is not a write answers the same from databases that agree. -/
theorem agree_read {op : Operation} (hread : op.isWrite = false) :
    Matches (s.Agree layout layout') ((s.inLayout layout).catalog.perform op)
      ((s.inLayout layout').catalog.perform op) := by
  cases op with
  | add | modify | remove | setStatus | addReferences | addMetadata | removeMetadata =>
    cases hread
  | byId id =>
    exact ((Action.matches_ofExcept (idNumber id)).bind (agree_loadProduct hl hl')).answer _
  | byName name => exact (agree_byName hl hl' name).answer _
  | references p => exact (agree_references p).answer _
  | products => exact (agree_listed hl hl' Database.newestFirst).answer _
  | productsOfType u => exact (agree_listedOfType hl hl' u id).answer _
  | metadata p => exact (agree_metadata hl hl' p).answer _
  | query q u =>
    have hquery : Matches (s.Agree layout layout')
        ((s.inLayout layout).query q u) ((s.inLayout layout').query q u) := by
      rw [query_eq, query_eq]
      exact (agree_selecting hl hl' q u).answer _
    exact hquery.answer _
  | page q u number => exact (agree_page hl hl' q u number).answer _
  | newest n =>
    exact (agree_listed hl hl' fun rows =>
      limitRows (signedCount n) 0 (Database.newestFirst rows)).answer _
  | newestOfType n u =>
    exact (agree_listedOfType hl hl' u (limitRows (signedCount n) 0)).answer _
  | count u => exact (agree_count u).answer _

end Regular

/-! ## Writes -/

theorem agree_setStatus (p : Product) :
    Matches (s.Agree layout layout') (setStatus p) (setStatus p) := by
  intro db db' hagree
  have hproduct := hagree.product?_eq
  have hafter := hagree
  rcases hagree with ⟨contents, h, h', hproducts, hlast⟩
  rw [run_setStatus, run_setStatus]
  cases numberOf p with
  | error e => exact ⟨rfl, hafter⟩
  | ok id =>
    dsimp only
    rw [hproduct id]
    cases db.product? id with
    | none => exact ⟨rfl, hafter⟩
    | some row =>
      refine ⟨rfl, contents, h.updateProduct fun _ => ⟨rfl, rfl⟩,
        h'.updateProduct fun _ => ⟨rfl, rfl⟩, ?_, hlast⟩
      simp only [Database.updateProduct, hproducts]

/-- Registering gives out the same id in both or fails for the same reason. -/
theorem agree_add (hl : (s.inLayout layout).Regular) (hl' : (s.inLayout layout').Regular)
    (r : Registration) (p : Product) :
    Matches (s.Agree layout layout') ((s.inLayout layout).add r p)
      ((s.inLayout layout').add r p) := by
  intro db db' hagree
  have hafter := hagree
  rcases hagree with ⟨contents, h, h', hproducts, hlast⟩
  have hnext : db'.nextId = db.nextId := by rw [Database.nextId, hlast, Database.nextId]
  cases hok : (s.inLayout layout).registrable p with
  | error e =>
    rw [run_add_error hok, run_add_error (s := s.inLayout layout') hok]
    exact ⟨rfl, hafter⟩
  | ok found =>
    by_cases hroom : db.lastId < Database.greatestId
    · rcases h.run_add hl hok hroom (r := r) with ⟨db₁, hrun, hproducts₁, hlast₁, hsound⟩
      rcases h'.run_add hl' hok (hlast ▸ hroom) (r := r) with
        ⟨db₁', hrun', hproducts₁', hlast₁', hsound'⟩
      rw [hrun, hrun']
      rw [hnext] at hproducts₁' hsound' ⊢
      refine ⟨rfl, _, hsound, hsound', ?_, ?_⟩
      · rw [hproducts₁, hproducts₁', hproducts]
      · rw [hlast₁, hlast₁', hlast]
    · rw [h.run_add_full hl hok hroom, h'.run_add_full hl' hok (hlast ▸ hroom)]
      exact ⟨rfl, hafter⟩

/-- Writes that make the same of rows and contents leave databases that agree. -/
theorem agree_of_makes {write write' : Action Database Unit}
    {rows : Int → List ProductRow → List ProductRow}
    {held held' : ProductType → Contents → Contents}
    (hwrite : (s.inLayout layout).Makes write p rows held)
    (hwrite' : (s.inLayout layout').Makes write' p rows held')
    (hagree : s.Agree layout layout' db db')
    (hsame : ∀ contents id t, (s.inLayout layout).target db p = .ok (id, t) →
      (write.run db).2.products = rows id db.products →
      (s.inLayout layout).Sound (write.run db).2
        (Function.update contents id (held t (contents id))) →
      held' t (contents id) = held t (contents id)) :
    (write.run db).1 = (write'.run db').1 ∧
      s.Agree layout layout' (write.run db).2 (write'.run db').2 := by
  have htarget' := hagree.target_eq p
  have hafter := hagree
  rcases hagree with ⟨contents, h, h', hproducts, hlast⟩
  rcases hwrite db contents h with ⟨herror, hok⟩
  rcases hwrite' db' contents h' with ⟨herror', hok'⟩
  cases htarget : (s.inLayout layout).target db p with
  | error e =>
    rw [herror e htarget, herror' e (htarget'.trans htarget)]
    exact ⟨rfl, hafter⟩
  | ok found =>
    rcases hok _ _ htarget with ⟨db₁, hrun, hproducts₁, hlast₁, hsound⟩
    rcases hok' _ _ (htarget'.trans htarget) with ⟨db₁', hrun', hproducts₁', hlast₁', hsound'⟩
    have hcontents := hsame contents found.1 found.2 htarget
    rw [hrun] at hcontents ⊢
    rw [hrun']
    rw [hcontents hproducts₁ hsound] at hsound'
    refine ⟨rfl, _, hsound, hsound', ?_, ?_⟩
    · rw [hproducts₁, hproducts₁', hproducts]
    · rw [hlast₁, hlast₁', hlast]

theorem matches_of_makes {write write' : Action Database Unit}
    {rows : Int → List ProductRow → List ProductRow} {held : ProductType → Contents → Contents}
    (hwrite : (s.inLayout layout).Makes write p rows held)
    (hwrite' : (s.inLayout layout').Makes write' p rows held) :
    Matches (s.Agree layout layout') write write' :=
  fun _ _ hagree => agree_of_makes hwrite hwrite' hagree fun _ _ _ _ _ _ => rfl

/-! ## One value in each column -/

/-- The entries of the metadata that are read of the product of an id. -/
def readEntries (s : Store) (db : Database) (id : Int) : List (String × List String) :=
  match ((s.catalog.metadata { (default : Product) with id := some (toString id) }).run db).1 with
  | .ok m => m.entries
  | .error _ => []

/-- No product is read to have two values of an element that is not among the given ones. -/
def SingleValued (s : Store) (vectors : List String) (db : Database) : Prop :=
  ∀ row ∈ db.products, ∀ e ∈ s.readEntries db row.id, e.1 ∈ vectors ∨ e.2.length ≤ 1

instance {s : Store} {vectors : List String} {db : Database} :
    Decidable (s.SingleValued vectors db) :=
  inferInstanceAs (Decidable (∀ row ∈ db.products, ∀ e ∈ s.readEntries db row.id,
    e.1 ∈ vectors ∨ e.2.length ≤ 1))

variable {vectors : List String}

theorem ReadsMetadata.readEntries_eq {id : Int} {m : Metadata} (h : s.ReadsMetadata db id m) :
    s.readEntries db id = m.entries := by
  rw [readEntries, h _ rfl]

/-- Of single values the wide layout keeps all. -/
theorem kept_wide_eq {m : Metadata} (h : ∀ e ∈ m.entries, e.1 ∈ vectors ∨ e.2.length ≤ 1) :
    (Layout.wide vectors).kept m = m := by
  have hone : ∀ e ∈ m.entries,
      (e.1, if vectors.contains e.1 then e.2 else e.2.take 1) = id e := by
    intro e he
    rcases h e he with hvector | hsingle
    · simp [hvector]
    · simp [List.take_of_length_le hsingle]
  rw [Layout.kept]
  congr 1
  rw [List.map_congr_left hone, List.map_id]

/-- A write of metadata agrees if it leaves single values where there are columns. -/
theorem agree_changeMetadata (write : Store → Action Database Unit)
    (change : ProductType → Metadata → Metadata) (hn : (s.inLayout .narrow).Regular)
    (hwrite : ∀ layout, (s.inLayout layout).Regular →
      (s.inLayout layout).Makes (write (s.inLayout layout)) p (fun _ rows => rows) fun t c =>
        { c with metadata := layout.kept (change t c.metadata) })
    (hw : (s.inLayout (.wide vectors)).Regular) (hagree : s.Agree .narrow (.wide vectors) db db')
    (hsingle : (s.inLayout .narrow).SingleValued vectors
      ((write (s.inLayout .narrow)).run db).2) :
    ((write (s.inLayout .narrow)).run db).1 = ((write (s.inLayout (.wide vectors))).run db').1 ∧
      s.Agree .narrow (.wide vectors) ((write (s.inLayout .narrow)).run db).2
        ((write (s.inLayout (.wide vectors))).run db').2 := by
  refine agree_of_makes (hwrite _ hn) (hwrite _ hw) hagree ?_
  intro contents id t htarget hproducts hsound
  rcases exists_of_typeIn (target_eq_ok htarget).2 with ⟨row, hfound, ht⟩
  rcases mem_of_product? hfound with ⟨hrow, rfl⟩
  -- the narrow layout has kept everything, so what it reads is what was to be stored
  have hreads := hsound.readsMetadata hn (hproducts ▸ hrow) ht
  rw [Function.update_self] at hreads
  have hentries := hsingle row (hproducts ▸ hrow)
  rw [hreads.readEntries_eq] at hentries
  have hkept := kept_wide_eq hentries
  simp only [Layout.kept] at hkept ⊢
  rw [hkept]

/-! ## Histories -/

/-- Every operation agrees, if it leaves single values where there are columns. -/
theorem agree_perform (hn : (s.inLayout .narrow).Regular)
    (hw : (s.inLayout (.wide vectors)).Regular) (op : Operation)
    (hagree : s.Agree .narrow (.wide vectors) db db')
    (hsingle : (s.inLayout .narrow).SingleValued vectors
      (((s.inLayout .narrow).catalog.perform op).run db).2) :
    (((s.inLayout .narrow).catalog.perform op).run db).1 =
        (((s.inLayout (.wide vectors)).catalog.perform op).run db').1 ∧
      s.Agree .narrow (.wide vectors) (((s.inLayout .narrow).catalog.perform op).run db).2
        (((s.inLayout (.wide vectors)).catalog.perform op).run db').2 := by
  cases op with
  | add r p => exact (agree_add hn hw r p).answer _ db db' hagree
  | modify p =>
    exact (matches_of_makes (makes_modify hn p) (makes_modify hw p)).answer _ db db' hagree
  | remove p =>
    exact (matches_of_makes (makes_remove hn p) (makes_remove hw p)).answer _ db db' hagree
  | setStatus p => exact (agree_setStatus p).answer _ db db' hagree
  | addReferences p =>
    exact (matches_of_makes (makes_addReferences hn p) (makes_addReferences hw p)).answer _
      db db' hagree
  | addMetadata m p =>
    rw [Catalog.perform, Action.run_map _ fun _ => Answer.done] at hsingle
    exact Action.run_answer_matches (agree_changeMetadata (fun s => s.addMetadata m p)
      (fun t stored => stored.merge (m.reduce (s.schema.declaredNames t))) hn
      (fun _ hl => makes_addMetadata hl m p) hw hagree hsingle) fun _ => Answer.done
  | removeMetadata m p =>
    rw [Catalog.perform, Action.run_map _ fun _ => Answer.done] at hsingle
    exact Action.run_answer_matches (agree_changeMetadata (fun s => s.removeMetadata m p)
      (fun _ stored => stored.removeValues m) hn
      (fun _ hl => makes_removeMetadata hl m p) hw hagree hsingle) fun _ => Answer.done
  | byId | byName | references | products | productsOfType | metadata | query | page | newest
  | newestOfType | count => exact agree_read hn hw rfl db db' hagree

/-- If after no step an element with a column has two values, a catalog answers every history
the same in both layouts, and so it answers whatever is read in between. -/
theorem layouts_agree (s : Store) (vectors : List String) (hschema : s.schema.Regular)
    (hcolumns : NamesSharedColumns s.schema s.bases) (history : List Operation)
    (hsingle : ∀ past, past <+: history → (s.inLayout .narrow).SingleValued vectors
      ((s.inLayout .narrow).catalog.after .empty past)) :
    (s.inLayout .narrow).catalog.outcomes .empty history =
        (s.inLayout (.wide vectors)).catalog.outcomes .empty history ∧
      ∀ past, past <+: history → ∀ op : Operation, op.isWrite = false →
        (((s.inLayout .narrow).catalog.perform op).run
          ((s.inLayout .narrow).catalog.after .empty past)).1 =
        (((s.inLayout (.wide vectors)).catalog.perform op).run
          ((s.inLayout (.wide vectors)).catalog.after .empty past)).1 := by
  have hn : (s.inLayout .narrow).Regular := regular_inLayout_narrow hschema
  have hw : (s.inLayout (.wide vectors)).Regular := regular_inLayout hschema hcolumns _
  -- what is still to come leaves single values too
  let Related (rest : List Operation) (db db' : Database) : Prop :=
    s.Agree .narrow (.wide vectors) db db' ∧ ∀ next, next <+: rest →
      (s.inLayout .narrow).SingleValued vectors ((s.inLayout .narrow).catalog.after db next)
  have hstep : ∀ op rest db db', Related (op :: rest) db db' →
      (((s.inLayout .narrow).catalog.perform op).run db).1 =
        (((s.inLayout (.wide vectors)).catalog.perform op).run db').1 ∧
      Related rest (((s.inLayout .narrow).catalog.perform op).run db).2
        (((s.inLayout (.wide vectors)).catalog.perform op).run db').2 := by
    rintro op rest db db' ⟨hagree, hnext⟩
    have hone := hnext [op] (List.prefix_append [op] rest)
    rcases agree_perform hn hw op hagree hone with ⟨hanswer, hafter⟩
    refine ⟨hanswer, hafter, fun next hprefix => ?_⟩
    exact hnext (op :: next) ((List.prefix_cons_inj op).2 hprefix)
  refine ⟨Catalog.outcomes_eq_of_simulation hstep ⟨agree_empty, hsingle⟩, ?_⟩
  intro past hpast op hread
  have hrelated : Related past .empty .empty :=
    ⟨agree_empty, fun next hnext => hsingle next (hnext.trans hpast)⟩
  have hagree := (Catalog.after_of_simulation hstep hrelated).1
  exact (agree_read hn hw hread _ _ hagree).1

/-! ## Shared tables -/

/-- A catalog whose two types keep stations in one column and bands in one side table. -/
def pairedStore : Store :=
  { twoTypesStore with bases := [("GRANULE", "archive"), ("sqlite_log", "archive")] }

/-- A product gets a station and two bands, and loses one band and the station for another. -/
def pairedHistory : List Operation :=
  let registered : Product := ⟨some "1", "a", granule, .flat, .received, [], none⟩
  [.add ⟨"", 5⟩ { registered with id := none },
    .addMetadata (.ofPairs [("Station", "A"), ("Band", "x"), ("Band", "y")]) registered,
    .removeMetadata (.ofPairs [("Station", "A"), ("Band", "x")]) registered,
    .addMetadata (.ofPairs [("Station", "B")]) registered,
    .add ⟨"", 6⟩ { registered with id := none, productType := log }]

theorem layouts_agree_on_pairedHistory :
    (∀ past, past <+: pairedHistory → (pairedStore.inLayout .narrow).SingleValued ["Band"]
      ((pairedStore.inLayout .narrow).catalog.after .empty past)) ∧
    (pairedStore.inLayout .narrow).catalog.outcomes .empty pairedHistory =
      (pairedStore.inLayout (.wide ["Band"])).catalog.outcomes .empty pairedHistory := by
  have hsingle : ∀ past ∈ pairedHistory.inits, (pairedStore.inLayout .narrow).SingleValued ["Band"]
      ((pairedStore.inLayout .narrow).catalog.after .empty past) := by decide +kernel
  have hprefixes := fun past hpast => hsingle past (List.mem_inits past pairedHistory |>.2 hpast)
  exact ⟨hprefixes, (layouts_agree pairedStore ["Band"] (Schema.regular_toSchema twoTypes)
    (namesColumns_twoTypes.shared _) pairedHistory hprefixes).1⟩

/-- Names of columns do not differ by ASCII case alone, so in the wide layout a table has no place
for an element that is called like the product column in another case. -/
theorem layouts_differ_on_product_column :
    let s : Store := ⟨.narrow, [], capitals.toSchema, 20⟩
    let p : Product := ⟨none, "a", granule, .flat, .received, [], none⟩
    let history : List Operation := [.add ⟨"", 5⟩ p]
    s.schema.Regular ∧
    (∀ t ∈ s.schema.types.types, usableName t.name = .ok t.name ∧
      ∀ a ∈ s.schema.declaredNames t, isUsableName a = true ∧ a ≠ productColumn ∧
        ∀ u ∈ s.schema.types.types, ∀ b ∈ s.schema.declaredNames u, SameName a b → a = b) ∧
    (∀ past, past <+: history → (s.inLayout .narrow).SingleValued []
      ((s.inLayout .narrow).catalog.after .empty past)) ∧
    (s.inLayout .narrow).catalog.outcomes .empty history =
      [.ok (.product { p with id := some "1", received := Instant.ofMillis? 5 })] ∧
    (s.inLayout (.wide [])).catalog.outcomes .empty history =
      [.error (.store (.duplicateColumn "PRODUCT_ID"))] := by
  dsimp only
  refine ⟨Schema.regular_toSchema capitals, ?_, ?_, ?_, ?_⟩
  · decide +kernel
  · intro past hpast
    have hsingle : ∀ past ∈ List.inits [Operation.add ⟨"", 5⟩
        ⟨none, "a", granule, .flat, .received, [], none⟩],
        ((⟨.narrow, [], capitals.toSchema, 20⟩ : Store).inLayout .narrow).SingleValued []
          (((⟨.narrow, [], capitals.toSchema, 20⟩ : Store).inLayout .narrow).catalog.after
            .empty past) := by decide +kernel
    exact hsingle past ((List.mem_inits _ _).2 hpast)
  · decide +kernel
  · decide +kernel

end Store

end ArchiveCatalog.Relational

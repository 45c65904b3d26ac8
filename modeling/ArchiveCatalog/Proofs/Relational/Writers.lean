import ArchiveCatalog.Proofs.Interleaving
import ArchiveCatalog.Proofs.Relational.Layouts

namespace ArchiveCatalog.Relational.Store

/-! # Writers of one product in tables

A change of metadata rewrites all rows of the product in the tables of its type. In the narrow
layout these rows hold any metadata, so what a product has from one call to the next is told by the
contents under its number, and everything else in the database stays what it was.
-/

variable {s : Store} {db db₀ : Database} {contents : Int → Contents} {row : ProductRow}
  {t : ProductType} {id : String} {number : Int} {x : Option Metadata} {p : Product}

/-! ## Metadata of one product -/

/-- The contents with other metadata under a number. -/
def withMetadata (contents : Int → Contents) (number : Int) (m : Metadata) : Int → Contents :=
  Function.update contents number { contents number with metadata := m }

theorem metadata_withMetadata (m : Metadata) :
    (withMetadata contents number m number).metadata = m := by
  simp [withMetadata]

theorem update_withMetadata (m n : Metadata) :
    Function.update (withMetadata contents number m) number
      { withMetadata contents number m number with metadata := n } =
      withMetadata contents number n := by
  simp [withMetadata]

/-- The database has the products of another one, and the contents are those of that one but for
the metadata under a number. -/
def Describes (s : Store) (db₀ : Database) (contents : Int → Contents) (number : Int)
    (x : Option Metadata) (db : Database) : Prop :=
  db.products = db₀.products ∧ ∃ m, x = some m ∧ s.Sound db (withMetadata contents number m)

/-- In the narrow layout a write of metadata changes what is described. -/
theorem Describes.makes (hlayout : s.layout = .narrow) (h : s.Describes db₀ contents number x db)
    (htarget : s.target db p = .ok (number, t)) {write : Action Database Unit}
    (change : ProductType → Metadata → Metadata)
    (hwrite : s.Makes write p (fun _ rows => rows) fun u c =>
      { c with metadata := s.layout.kept (change u c.metadata) }) :
    ∃ db', (do write; return Answer.done : Action Database Answer).run db = (.ok .done, db') ∧
      s.Describes db₀ contents number (x.map (change t)) db' := by
  rcases h with ⟨hproducts, m, rfl, hsound⟩
  rcases (hwrite db _ hsound).2 number t htarget with ⟨db', hrun, hsame, -, hafter⟩
  have hkept : s.layout.kept (change t m) = change t m := by
    rw [hlayout]
    rfl
  rw [update_withMetadata, metadata_withMetadata, hkept] at hafter
  exact ⟨db', Action.run_bind_ok hrun, hsame.trans hproducts, change t m, rfl, hafter⟩

/-- What a query finds depends on the values of metadata alone. -/
theorem found_withMetadata {m n : Metadata} (h : m.SameValues n) (q : Query) (u : ProductType)
    (products : List ProductRow) :
    s.found q u products (withMetadata contents number m) =
      s.found q u products (withMetadata contents number n) := by
  have hholds : ∀ row : ProductRow, q.holds (withMetadata contents number m row.id).metadata =
      q.holds (withMetadata contents number n row.id).metadata := by
    intro row
    by_cases hrow : row.id = number
    · simp only [withMetadata, hrow, Function.update_self]
      exact Query.holds_congr fun element _ => h element
    · simp only [withMetadata, Function.update_of_ne hrow]
  simp only [found, hholds]

/-! ## Calls on a product -/

/-- The type of the product that is stored under an id. -/
def typeStored (s : Store) (db : Database) (id : String) : Except CatalogError ProductType := do
  s.typeIn db (← idNumber id)

theorem target_eq (hp : p.id = some id) : s.target db p = do
    let number ← idNumber id
    let t ← s.typeIn db number
    return (number, t) := by
  rw [target, numberOf_of_id hp]

theorem exists_row_of_typeStored (ht : s.typeStored db id = .ok t) :
    ∃ row ∈ db.products, idNumber id = .ok row.id ∧ s.schema.typeById row.typeId = .ok t := by
  rcases Action.bind_eq_ok_iff.1 ht with ⟨number, hid, hfound⟩
  rw [typeIn] at hfound
  cases hrow : db.product? number with
  | none =>
    rw [hrow] at hfound
    cases hfound
  | some row =>
    rw [hrow] at hfound
    rcases mem_of_product? hrow with ⟨hmem, rfl⟩
    exact ⟨row, hmem, hid, hfound⟩

/-- A product that is found is of the type that is stored. -/
theorem Sound.typeStored_of_byId (hs : s.Regular) (h : s.Sound db contents) {stored : Product}
    (hstored : ((s.byId id).run db).1 = .ok stored) :
    s.typeStored db id = .ok stored.productType := by
  rw [byId, Action.run_bind, Action.run_ofExcept] at hstored
  rw [typeStored]
  cases hid : idNumber id with
  | error f =>
    rw [hid] at hstored
    cases hstored
  | ok number =>
    rw [hid] at hstored
    dsimp only at hstored
    cases hfound : db.product? number with
    | none =>
      rw [run_loadProduct_none hfound] at hstored
      cases hstored
    | some row =>
      rcases mem_of_product? hfound with ⟨hrow, rfl⟩
      rw [h.run_loadStored hs hrow] at hstored
      show s.typeIn db row.id = .ok stored.productType
      rw [h.typeIn_eq hrow]
      cases ht : s.schema.typeById row.typeId with
      | error f =>
        rw [ht] at hstored
        cases hstored
      | ok t =>
        rw [ht] at hstored
        cases hstored
        exact congrArg Except.ok (productType_productOf hs ht _).symm

/-- In the narrow layout every call on a stored product succeeds and changes what is described. -/
theorem Describes.run_perform (hs : s.Regular) (hlayout : s.layout = .narrow)
    (hrow : row ∈ db₀.products) (hid : idNumber id = .ok row.id)
    (ht : s.schema.typeById row.typeId = .ok t) (h : s.Describes db₀ contents row.id x db)
    (hp : p.id = some id) (call : Edit) :
    ∃ db', (s.catalog.perform (call.operation p)).run db = (.ok .done, db') ∧
      s.Describes db₀ contents row.id (call.on (s.schema.declaredNames t) x) db' := by
  have htarget : s.target db p = .ok (row.id, t) := by
    rcases h with ⟨hproducts, m, -, hsound⟩
    rw [target_eq hp, hid]
    simp only [bind, Except.bind, hsound.typeIn_eq (hproducts ▸ hrow), ht, pure, Except.pure]
  obtain ⟨stored, rfl⟩ : ∃ stored, x = some stored := by
    rcases h with ⟨-, stored, hx, -⟩
    exact ⟨stored, hx⟩
  cases call with
  | add m =>
    exact h.makes hlayout htarget
      (fun t stored => stored.merge (m.reduce (s.schema.declaredNames t)))
      (makes_addMetadata hs m p)
  | remove m =>
    exact h.makes hlayout htarget (fun _ stored => stored.removeValues m)
      (makes_removeMetadata hs m p)

/-- The metadata of a stored product are tracked in the narrow layout. -/
theorem tracks (hs : s.Regular) (hlayout : s.layout = .narrow) (hrow : row ∈ db₀.products)
    (hid : idNumber id = .ok row.id) (ht : s.schema.typeById row.typeId = .ok t) :
    s.catalog.Tracks id (s.schema.declaredNames t) (s.Describes db₀ contents row.id) := by
  refine ⟨?_, ?_, ?_, ?_⟩
  · intro p call x db hp h
    rcases h.run_perform hs hlayout hrow hid ht hp call with ⟨db', hrun, hafter⟩
    rw [hrun]
    exact hafter
  · rintro p m db hp ⟨hproducts, n, hmn, hsound⟩
    cases hmn
    have hread := hsound.run_metadata hs (hproducts ▸ hrow) ht ((numberOf_of_id hp).trans hid)
    rw [metadata_withMetadata] at hread
    exact ⟨m, congrArg Prod.fst hread, fun _ _ => Iff.rfl⟩
  · rintro p db hp ⟨-, m, hnone, -⟩
    cases hnone
  · rintro q u x y db db' ⟨hproducts, m, rfl, hsound⟩ ⟨hproducts', n, rfl, hsound'⟩ - hsame
    rcases hsound.run_selecting hs q u with ⟨db₁, hrun, -, -⟩
    rcases hsound'.run_selecting hs q u with ⟨db₂, hrun', -, -⟩
    have hvalues : m.SameValues n := hsame
    rw [hproducts, found_withMetadata hvalues] at hrun
    rw [hproducts'] at hrun'
    show ((s.query q u).run db).1 = ((s.query q u).run db').1
    rw [query_eq, Action.run_map, Action.run_map, hrun, hrun']

theorem Sound.describes (h : s.Sound db contents) (number : Int) :
    s.Describes db contents number (some (contents number).metadata) db := by
  have hself : withMetadata contents number (contents number).metadata = contents :=
    Function.update_eq_self _ _
  exact ⟨rfl, _, rfl, hself.symm ▸ h⟩

/-- Without a product of a type that is found every call fails. -/
theorem Sound.run_perform_error (hs : s.Regular) (h : s.Sound db contents) {e : CatalogError}
    (ht : s.typeStored db id = .error e) (hp : p.id = some id) (call : Edit) :
    (s.catalog.perform (call.operation p)).run db = (.error e, db) := by
  have htarget : s.target db p = .error e := by
    rw [target_eq hp]
    rw [typeStored] at ht
    cases hid : idNumber id with
    | error f =>
      rw [hid] at ht
      obtain rfl : f = e := Except.error.inj ht
      rfl
    | ok number =>
      rw [hid] at ht
      have hfound : s.typeIn db number = .error e := ht
      simp only [bind, Except.bind, hfound]
  cases call with
  | add m => exact Action.run_bind_error ((makes_addMetadata hs m p db contents h).1 e htarget)
  | remove m =>
    exact Action.run_bind_error ((makes_removeMetadata hs m p db contents h).1 e htarget)

theorem run_metadata_error {e : CatalogError} (ht : s.typeStored db id = .error e)
    (hp : p.id = some id) : ((s.metadata p).run db).1 = .error e := by
  rw [typeStored] at ht
  rw [metadata, Action.run_bind, Action.run_ofExcept, numberOf_of_id hp]
  cases hid : idNumber id with
  | error f =>
    rw [hid] at ht
    obtain rfl : f = e := Except.error.inj ht
    rfl
  | ok number =>
    rw [hid] at ht
    have hfound : s.typeIn db number = .error e := ht
    dsimp only
    rw [Action.run_bind, run_storedType, hfound]

/-- The elements whose values are added to the product of an id. -/
def addedTo (s : Store) (db : Database) (id : String) : List String :=
  match s.typeStored db id with
  | .ok t => s.schema.declaredNames t
  | .error _ => []

variable {ι : Type} [DecidableEq ι] {copies : ι → Product} {calls : ι → List Edit}

/-- Writers of a product lose nothing in the narrow layout. -/
theorem losesNothing (hs : s.Regular) (hlayout : s.layout = .narrow) (h : s.IsSound db)
    (id : String) (hcopies : ∀ w, (copies w).id = some id) (hapart : Apart calls) :
    s.catalog.LosesNothing db id (s.addedTo db id) copies calls := by
  rcases h with ⟨contents, h⟩
  unfold addedTo
  cases ht : s.typeStored db id with
  | ok t =>
    rcases exists_row_of_typeStored ht with ⟨row, hrow, hid, htype⟩
    exact (tracks hs hlayout hrow hid htype).losesNothing hcopies hapart (h.describes row.id)
  | error e =>
    refine Catalog.losesNothing_of_fails ?_ ?_ hcopies
    · intro p call hp
      rw [h.run_perform_error hs ht hp]
    · exact fun p hp => ⟨e, run_metadata_error ht hp⟩

/-- If the product is found, they succeed. -/
theorem succeeds (hs : s.Regular) (hlayout : s.layout = .narrow) (h : s.IsSound db)
    {stored : Product} (hstored : ((s.byId id).run db).1 = .ok stored)
    (hcopies : ∀ w, (copies w).id = some id) :
    s.addedTo db id = s.schema.declaredNames stored.productType ∧
      s.catalog.Succeeds db id copies calls := by
  rcases h with ⟨contents, h⟩
  have ht := h.typeStored_of_byId hs hstored
  rcases exists_row_of_typeStored ht with ⟨row, hrow, hid, htype⟩
  refine ⟨by rw [addedTo, ht], (tracks hs hlayout hrow hid htype).succeeds ?_ hcopies
    (h.describes row.id)⟩
  intro p call x db' hp hdescribes
  rcases hdescribes.run_perform hs hlayout hrow hid htype hp call with ⟨db'', hrun, -⟩
  rw [hrun]

end ArchiveCatalog.Relational.Store

import ArchiveCatalog.Proofs.Reached

namespace ArchiveCatalog

/-! # Listings that agree

Products are listed completely, by type, by query, in pages, or the newest only, and counted.
All of these go through different reads, and in every backend all of them agree: they share one
order and one filter, and pages and newest products are parts of the whole. It is enough to see
this on ledgers, whose listings those of the backends are.
-/

/-- The page tells how many ids there are and shows the products of those in its window, which are
all of them if everything was asked for. Without ids it is blank. -/
structure Page.Shows (page : Page) (size : Nat) (number : Int) (ids : List String) : Prop where
  hits : page.hits = ids.length
  window : ∃ w, PageWindow.resolve number size ids.length = .ok w ∧
    page.products.map Product.id = (w.cut size ids).map some
  complete : number = allResults → page.products.map Product.id = ids.map some
  blank : ids = [] → page = Page.blank size

/-- All listings of a catalog in a state agree. -/
structure Catalog.ListsAlike {σ : Type} (c : Catalog σ) (schema : Schema) (s : σ) : Prop where
  /-- The newest products are the first of all. -/
  newest : ∃ all, (c.products.run s).1 = .ok all ∧ ∀ n, ((c.newest n).run s).1 = .ok (all.take n)
  /-- The products of a type are counted, the newest are the first of them, and they are what the
  query without criteria finds. -/
  ofType : ∀ u t, schema.resolveType u = .ok t →
    ∃ listed ids, ((c.productsOfType u).run s).1 = .ok listed ∧
      ((c.count u).run s).1 = .ok listed.length ∧
      (∀ n, ((c.newestOfType n u).run s).1 = .ok (listed.take n)) ∧
      ((c.query .everything u).run s).1 = .ok ids ∧ listed.map Product.id = ids.map some
  /-- The pages of a query about declared elements show what it finds. -/
  pages : ∀ u t q, schema.resolveType u = .ok t → (∀ e ∈ q.elements, e ∈ schema.declaredNames t) →
    ∃ ids, ((c.query q u).run s).1 = .ok ids ∧ ∀ number, number = allResults ∨ 1 ≤ number →
      ∃ page, ((c.page q u number).run s).1 = .ok page ∧ page.Shows c.pageSize number ids

/-! ## Listings of ledgers -/

namespace Ledger

variable {κ : Type} {l : Ledger κ} {st : LedgerState κ}

/-- The products of entries have the ids of their keys. -/
def Labelled (l : Ledger κ) (st : LedgerState κ) : Prop :=
  ∀ e ∈ st.entries, e.product.id = some (l.spell e.key)

theorem Labelled.ids_answer (h : l.Labelled st) (test : Entry κ → Bool) :
    ((l.answer st test).map Entry.product).map Product.id =
      ((l.answer st test).map fun e => l.spell e.key).map some := by
  rw [List.map_map, List.map_map]
  exact List.map_congr_left fun e he => h e (mem_answer he)

/-- A page of products shows their ids. -/
theorem exists_pageOf {number : Int} (hsize : 0 < l.pageSize)
    (hnumber : number = allResults ∨ 1 ≤ number) {found : List Product} {ids : List String}
    (hids : found.map Product.id = ids.map some) :
    ∃ page, l.pageOf number found = .ok page ∧ page.Shows l.pageSize number ids := by
  have hlength : found.length = ids.length := by
    have hsame := congrArg List.length hids
    rwa [List.length_map, List.length_map] at hsame
  rcases PageWindow.exists_resolve hsize hnumber found.length with
    ⟨w, hresolve, hnone, hsome⟩
  have hempty : w = .blank → found.length = 0 := fun hblank =>
    Classical.not_not.1 fun hne => (hsome hne).1 hblank
  -- the window cuts the same out of the products and out of the ids
  have hproducts : (w.page l.pageSize found.length (w.cut l.pageSize found)).products =
      w.cut l.pageSize found := by
    apply PageWindow.products_page
    intro hblank
    rw [List.length_eq_zero_iff.1 (hempty hblank), hblank]
    rfl
  have hcut : (w.cut l.pageSize found).map Product.id = (w.cut l.pageSize ids).map some := by
    rw [← PageWindow.cut_map, hids, PageWindow.cut_map]
  refine ⟨w.page l.pageSize found.length (w.cut l.pageSize found), ?_, ?_, ?_, ?_, ?_⟩
  · rw [pageOf, hresolve]
    rfl
  · rw [PageWindow.hits_page _ hempty, hlength]
  · refine ⟨w, hlength ▸ hresolve, ?_⟩
    rw [hproducts]
    exact hcut
  · intro hall
    rw [hproducts]
    by_cases hits : found.length = 0
    · have hfound := List.length_eq_zero_iff.1 hits
      rw [hfound] at hids ⊢
      rw [← hids, hnone hits]
      rfl
    · rw [(hsome hits).2 hall, PageWindow.cut_all, hids]
  · intro hnil
    have hits : found.length = 0 := by rw [hlength, hnil]; rfl
    rw [hnone hits]
    rfl

/-- Every product of a type satisfies the query without criteria. -/
theorem matching_everything [DecidableEq κ] (hschema : l.schema.Regular)
    (heverything : ∀ m, l.satisfies .everything m = true) (u : ProductType) :
    l.matching .everything u st = l.answerOfType st u := by
  unfold matching answerOfType
  cases l.schema.resolveType u with
  | error e => rfl
  | ok t =>
    have hcheck : l.schema.checkQuery .everything t = .ok () :=
      hschema.checkQuery_eq fun e he => absurd he List.not_mem_nil
    simp only [bind, Except.bind, hcheck, heverything, Bool.and_true]

/-- The listings of a ledger agree. -/
theorem listsAlike [DecidableEq κ] (hschema : l.schema.Regular) (hsize : 0 < l.pageSize)
    (heverything : ∀ m, l.satisfies .everything m = true) (hids : l.Labelled st) :
    l.catalog.ListsAlike l.schema st := by
  refine ⟨⟨_, rfl, fun n => rfl⟩, ?_, ?_⟩
  · intro u t ht
    have hlisted : l.answerOfType st u =
        .ok (l.answer st fun e => e.product.productType.id == t.id) := by
      rw [answerOfType, ht]
      rfl
    have hquery : ((l.catalog.query .everything u).run st).1 =
        (do return (← l.matching .everything u st).map fun e => l.spell e.key) := rfl
    have hproducts : ((l.catalog.productsOfType u).run st).1 =
        (do return (← l.answerOfType st u).map Entry.product) := rfl
    have hcount : ((l.catalog.count u).run st).1 =
        (do return (← l.answerOfType st u).length) := rfl
    have hnewest : ∀ n, ((l.catalog.newestOfType n u).run st).1 =
        (do return ((← l.answerOfType st u).map Entry.product).take n) := fun _ => rfl
    rw [matching_everything hschema heverything, hlisted] at hquery
    rw [hlisted] at hproducts hcount
    simp only [hlisted] at hnewest
    refine ⟨_, _, hproducts, ?_, hnewest, hquery, hids.ids_answer _⟩
    rw [hcount, List.length_map]
    rfl
  · intro u t q ht hq
    have hmatching : ∃ found, l.matching q u st = .ok found ∧
        (found.map Entry.product).map Product.id =
          (found.map fun e => l.spell e.key).map some := by
      have hcheck : l.schema.checkQuery q t = .ok () := hschema.checkQuery_eq hq
      rw [matching, ht]
      simp only [bind, Except.bind, hcheck]
      exact ⟨_, rfl, hids.ids_answer _⟩
    rcases hmatching with ⟨found, hfound, hlabels⟩
    have hquery : ((l.catalog.query q u).run st).1 =
        (do return (← l.matching q u st).map fun e => l.spell e.key) := rfl
    rw [hfound] at hquery
    refine ⟨_, hquery, fun number hnumber => ?_⟩
    rcases exists_pageOf hsize hnumber hlabels with ⟨page, hpage, hshows⟩
    have hrun : ((l.catalog.page q u number).run st).1 =
        (do l.pageOf number ((← l.matching q u st).map Entry.product)) := rfl
    rw [hfound] at hrun
    exact ⟨page, hrun.trans hpage, hshows⟩

end Ledger

/-! ## Listings of backends -/

/-- The listings of a catalog in a state are those of another one. -/
structure Catalog.ListsAs {σ τ : Type} (c : Catalog σ) (s : σ) (d : Catalog τ) (t : τ) : Prop where
  pageSize : c.pageSize = d.pageSize
  products : (c.products.run s).1 = (d.products.run t).1
  newest : ∀ n, ((c.newest n).run s).1 = ((d.newest n).run t).1
  productsOfType : ∀ u, ((c.productsOfType u).run s).1 = ((d.productsOfType u).run t).1
  newestOfType : ∀ n u, ((c.newestOfType n u).run s).1 = ((d.newestOfType n u).run t).1
  count : ∀ u, ((c.count u).run s).1 = ((d.count u).run t).1
  query : ∀ q u, ((c.query q u).run s).1 = ((d.query q u).run t).1
  page : ∀ q u number, ((c.page q u number).run s).1 = ((d.page q u number).run t).1

theorem Catalog.ListsAs.listsAlike {σ τ : Type} {c : Catalog σ} {s : σ} {d : Catalog τ} {t : τ}
    (h : c.ListsAs s d t) {schema : Schema} (hd : d.ListsAlike schema t) :
    c.ListsAlike schema s := by
  rcases hd with ⟨hnewest, hofType, hpages⟩
  refine ⟨?_, ?_, ?_⟩
  · simpa only [h.products, h.newest] using hnewest
  · simpa only [h.productsOfType, h.count, h.newestOfType, h.query] using hofType
  · simpa only [h.query, h.page, h.pageSize] using hpages

namespace Relational.Store

variable {s : Store} {db : Database} {st : LedgerState Int}

theorem Stands.listsAs (hs : s.Regular) (htabled : s.Tabled) (h : s.Stands db st) :
    s.catalog.ListsAs db s.ledger.catalog st where
  pageSize := rfl
  products := (matches_products hs db st h).1
  newest n := (matches_newest hs n db st h).1
  productsOfType u := (matches_productsOfType hs u db st h).1
  newestOfType n u := (matches_newestOfType hs n u db st h).1
  count u := (matches_count hs u db st h).1
  query q u := (matches_query hs (htabled.tabledFor hs u) q db st h).1
  page q u number := (matches_page hs (htabled.tabledFor hs u) q number db st h).1

theorem Stands.labelled (h : s.Stands db st) : s.ledger.Labelled st := by
  rcases h with ⟨contents, -, -, rfl⟩
  intro e he
  rcases List.mem_map.1 he with ⟨row, -, rfl⟩
  rfl

end Relational.Store

namespace Inverted.Store

variable {s : Store} {later : List String} {a : Archive} {st : LedgerState String}

theorem Stands.listsAs (h : s.Stands later a st) :
    s.catalog.ListsAs a s.ledger.catalog st where
  pageSize := rfl
  products := (matches_products a st h).1
  newest n := (matches_newest n a st h).1
  productsOfType u := (matches_productsOfType u a st h).1
  newestOfType n u := (matches_newestOfType n u a st h).1
  count u := (matches_count u a st h).1
  query q u := (matches_query q u a st h).1
  page q u number := (matches_page q u number a st h).1

theorem Stands.labelled (h : s.Stands later a st) : s.ledger.Labelled st :=
  fun e he => (h.whole e he).id

end Inverted.Store

namespace Remote.Store

variable {s : Store} {later : List String} {service : Service} {st : LedgerState String}

theorem Stands.listsAs (hschema : s.schema.Regular) (hnames : ReservesNames s.schema)
    (h : s.Stands later service st) (hcount : st.entries.length ≤ greatestCount) :
    s.catalog.ListsAs service s.ledger.catalog st where
  pageSize := rfl
  products := (matches_products hschema service st h).1
  newest n := (matches_newest hschema n service st h).1
  productsOfType u := (matches_productsOfType hschema u service st h).1
  newestOfType n u := (matches_newestOfType hschema n u service st h).1
  count u := (matches_count hschema u service st h).1
  query q u := (matches_query hschema (hnames.asksApart hschema q) u service st h).1
  page q u number :=
    (matches_page hschema (hnames.asksApart hschema q) u number service st ⟨h, hcount⟩).1

theorem Stands.labelled (h : s.Stands later service st) : s.ledger.Labelled st :=
  fun e he => (h.whole e he).id

end Remote.Store

/-- All listings of a catalog agree after every history. Where tables are used they can be named,
where an index is used the clock is in the calendar, and where a service is used no element has a
name that it reserves and no more products are registered than can be counted. -/
theorem listings_agree :
    (∀ (s : Relational.Store) (history : List Operation), s.Regular → s.Tabled → 0 < s.pageSize →
      s.catalog.ListsAlike s.schema (s.catalog.after .empty history)) ∧
    (∀ (s : Inverted.Store) (history : List Operation), s.schema.Regular →
      (∀ t ∈ s.schema.types.types, t.id ≠ "") → (freshIds history).Nodup →
      (∀ op ∈ history, Inverted.Store.ClockInRange op) → 0 < s.pageSize →
      s.catalog.ListsAlike s.schema (s.catalog.after .empty history)) ∧
    (∀ (s : Remote.Store) (history : List Operation), s.schema.Regular →
      (∀ t ∈ s.schema.types.types, t.id ≠ "") → Remote.Store.ReservesNames s.schema →
      (freshIds history).Nodup → (∀ op ∈ history, Remote.Store.FitsWords op) →
      history.length ≤ greatestCount → 0 < s.pageSize →
      s.catalog.ListsAlike s.schema (s.catalog.after .empty history)) := by
  refine ⟨?_, ?_, ?_⟩
  · intro s history hs htabled hsize
    rcases Relational.Store.isStanding_after hs (fun t ht => (htabled t ht).1) history with ⟨st, h⟩
    exact (h.listsAs hs htabled).listsAlike
      (Ledger.listsAlike hs.schema hsize (fun _ => rfl) h.labelled)
  · intro s history hschema hids hfresh hclock hsize
    have h := Inverted.Store.stands_after hschema hids hfresh hclock
    exact h.listsAs.listsAlike (Ledger.listsAlike hschema hsize (fun _ => rfl) h.labelled)
  · intro s history hschema hids hnames hfresh hfits hcount hsize
    rcases Remote.Store.exists_stands_after hschema hids hfresh hfits with ⟨st, h, hlength⟩
    exact (h.listsAs hschema hnames (hlength.trans hcount)).listsAlike
      (Ledger.listsAlike hschema hsize (fun _ => rfl) h.labelled)

/-- Three granules are listed alike in every backend. -/
theorem granules_listed_alike :
    Granules.relational.catalog.ListsAlike Granules.document.toSchema
      (Granules.relational.catalog.after .empty Granules.history) ∧
    Granules.inverted.catalog.ListsAlike Granules.document.toSchema
      (Granules.inverted.catalog.after .empty Granules.history) ∧
    Granules.remote.catalog.ListsAlike Granules.document.toSchema
      (Granules.remote.catalog.after .empty Granules.history) ∧
    (Granules.relational.catalog.after .empty Granules.history).products.length = 3 := by
  rcases listings_agree with ⟨hrelational, hinverted, hremote⟩
  refine ⟨?_, ?_, ?_, ?_⟩
  · exact hrelational _ _ Granules.regular_relational Granules.tabled_relational (by decide)
  · exact hinverted _ _ Granules.regular_schema Granules.ids_schema Granules.fresh_history
      Granules.clock_history (by decide)
  · exact hremote _ _ Granules.regular_schema Granules.ids_schema Granules.reservesNames_schema
      Granules.fresh_history Granules.fits_history (by decide) (by decide)
  · decide +kernel

end ArchiveCatalog

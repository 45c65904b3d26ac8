import ArchiveCatalog.Proofs.Remote.Writes
import ArchiveCatalog.Schema.Document

namespace ArchiveCatalog.Remote

/-! # Answers of the remote catalog

A query of the service finds the records of the entries that the ledger answers, so a remote
catalog answers every history as its ledger does. What it keeps under the reserved keys and
what it keeps under all others do not get into each other's way.
-/

namespace Store

open ArchiveCatalog.Action (Matches)

variable {s : Store} {later : List String} {service : Service} {st : LedgerState String}
  {e : Entry String} {id : String} {p : Product} {t : ProductType}

/-! ## Reads -/

theorem Stands.run_load (hschema : s.schema.Regular) (h : s.Stands later service st) (id : String) :
    (s.load id).run service = ((s.ledger.visible st id).map Entry.product, service) := by
  have hstored := h.run_storedRecord hschema id
  rw [load, Action.run_bind, hstored, visible_ledger, Ledger.require]
  cases hfound : st.find? id with
  | none => rfl
  | some e =>
    rcases LedgerState.mem_of_find? hfound with ⟨hmem, rfl⟩
    dsimp only [Except.map]
    rw [Action.run_ofExcept, (h.whole e hmem).readProduct]

/-- The service finds the records of the entries whose record satisfies the query. -/
theorem Stands.matching_eq (h : s.Stands later service st) (q : Query) {test : Entry String → Bool}
    (htest : ∀ e ∈ st.entries, q.holds (record e) = test e) :
    service.matching q = (s.ledger.answer st test).map Entry.key := by
  have hfilter : st.entries.filter ((fun r : String × Metadata => q.holds r.2) ∘ fun e =>
      (e.key, record e)) = st.entries.filter test := by
    apply List.filter_congr
    intro e he
    rw [← htest e he]
    dsimp only [Function.comp]
  have hkeys : Prod.fst ∘ (fun e : Entry String => (e.key, record e)) = Entry.key := rfl
  rw [Service.matching, answer_ledger, h.records, List.filter_map, List.map_map, List.map_reverse,
    hfilter, hkeys]

theorem run_ask {α : Type} {question : Question} (hschema : s.schema.Regular) (f : Service → α)
    (service : Service) : (ask s.outage question f).run service = (.ok (f service), service) := by
  rw [ask, Action.run_reading, outage, hschema.guard_eq]

theorem Stands.run_loadAll (hschema : s.schema.Regular) (h : s.Stands later service st)
    {found : List (Entry String)} (hfound : ∀ e ∈ found, e ∈ st.entries) :
    (s.loadAll (found.map Entry.key)).run service = (.ok (found.map Entry.product), service) := by
  rw [loadAll, List.mapM_map]
  apply Action.run_mapM
  intro e he
  have hload := h.run_load hschema e.key
  rw [visible_ledger, Ledger.require, LedgerState.find?_eq_of_mem h.keys (hfound e he)] at hload
  exact hload

/-- A query of the service loads the products of the entries it finds. -/
theorem Stands.run_products (hschema : s.schema.Regular) (h : s.Stands later service st)
    (q : Query) {test : Entry String → Bool}
    (htest : ∀ e ∈ st.entries, q.holds (record e) = test e) :
    Action.run (do s.loadAll (← Remote.query s.outage q)) service =
      (.ok ((s.ledger.answer st test).map Entry.product), service) := by
  rw [Remote.query, Action.run_bind_ok (run_ask hschema _ service), h.matching_eq q htest]
  exact h.run_loadAll hschema fun e he => Ledger.mem_answer he

theorem holds_everything (e : Entry String) : Query.everything.holds (record e) = true := rfl

theorem holds_typeQuery (e : Entry String) :
    (typeQuery t).holds (record e) = (e.product.productType.id == t.id) := by
  have hterm : (typeCriterion t).holds (record e) = (e.product.productType.id == t.id) :=
    holds_term_recordOf (by simp [description, productEntries]) t.id
  simp only [Query.holds, typeQuery, List.all_cons, List.all_nil, Bool.and_true, hterm]

theorem holds_nameQuery (e : Entry String) (name : String) :
    (⟨[.term Key.name name]⟩ : Query).holds (record e) = (e.product.name == name) := by
  have hterm : (Criteria.term Key.name name).holds (record e) = (e.product.name == name) :=
    holds_term_recordOf (by simp [description, productEntries]) name
  simp only [Query.holds, List.all_cons, List.all_nil, Bool.and_true, hterm]

theorem holds_restrict {q : Query} (hq : ∀ name ∈ q.elements, name ∉ Key.reserved)
    (e : Entry String) :
    (q.restrict (typeCriterion t)).holds (record e) =
      (e.product.productType.id == t.id && q.holds e.shown) := by
  have htype : (typeCriterion t).holds (record e) = (e.product.productType.id == t.id) :=
    holds_term_recordOf (by simp [description, productEntries]) t.id
  have hrest : q.holds (record e) = q.holds e.shown := holds_recordOf hq
  rw [← htype, ← hrest, Bool.and_comm]
  simp only [Query.holds, Query.restrict, List.all_append, List.all_cons, List.all_nil,
    Bool.and_true]

theorem matches_byId (hschema : s.schema.Regular) (id : String) :
    Matches (s.Stands later) (s.load id) (s.ledger.catalog.byId id) := by
  refine Action.matches_reading fun service st h => ⟨service, ?_, h⟩
  have hlocate : s.ledger.locate id = .ok id := rfl
  rw [h.run_load hschema, Ledger.byId, hlocate]
  simp only [bind, Except.bind]
  cases s.ledger.visible st id <;> rfl

theorem matches_references (hschema : s.schema.Regular) :
    Matches (s.Stands later) (s.references p) (s.ledger.catalog.references p) := by
  refine Action.matches_reading fun service st h => ⟨service, ?_, h⟩
  rw [references, Action.run_bind, Action.run_ofExcept, keyOf_ledger]
  cases p.requireId with
  | error e => rfl
  | ok id =>
    dsimp only
    rw [Action.run_bind, h.run_load hschema]
    simp only [bind, Except.bind]
    cases s.ledger.visible st id <;> rfl

theorem Stands.run_metadata (hschema : s.schema.Regular) (h : s.Stands later service st)
    (hid : p.requireId = .ok id) :
    (s.metadata p).run service = ((s.ledger.visible st id).map Entry.shown, service) := by
  have hstored := h.run_storedRecord hschema id
  rw [metadata, Action.run_bind, Action.run_ofExcept, hid]
  dsimp only
  rw [Action.run_bind, hstored, visible_ledger, Ledger.require]
  cases hfound : st.find? id with
  | none => rfl
  | some e =>
    have hwhole := h.whole e (LedgerState.mem_of_find? hfound).1
    dsimp only [Except.map]
    rw [Action.run_pure, record, withoutReserved_recordOf hwhole.regular hwhole.unreserved]

theorem matches_metadata (hschema : s.schema.Regular) :
    Matches (s.Stands later) (s.metadata p) (s.ledger.catalog.metadata p) := by
  refine Action.matches_reading fun service st h => ⟨service, ?_, h⟩
  rw [keyOf_ledger]
  cases hid : p.requireId with
  | error e =>
    rw [metadata, Action.run_bind, Action.run_ofExcept, hid]
    rfl
  | ok id =>
    rw [h.run_metadata hschema hid]
    simp only [bind, Except.bind]
    cases s.ledger.visible st id <;> rfl

theorem matches_byName (hschema : s.schema.Regular) (name : String) :
    Matches (s.Stands later) (s.byName name) (s.ledger.catalog.byName name) := by
  refine Action.matches_reading fun service st h => ⟨service, ?_, h⟩
  have hids := h.matching_eq (⟨[.term Key.name name]⟩) fun e _ => holds_nameQuery e name
  have hfound : (Remote.query s.outage ⟨[.term Key.name name]⟩).run service =
      (.ok ((s.ledger.answer st (·.product.name == name)).map Entry.key), service) := by
    rw [Remote.query, run_ask hschema, hids]
  rw [byName, Action.run_bind_ok hfound, Ledger.byName]
  rcases hanswer : s.ledger.answer st (·.product.name == name) with _ | ⟨e, _ | ⟨e', rest⟩⟩
  · rfl
  · have hmem : e ∈ st.entries := Ledger.mem_answer (hanswer ▸ List.mem_cons_self)
    have hload := h.run_load hschema e.key
    rw [visible_ledger, Ledger.require, LedgerState.find?_eq_of_mem h.keys hmem] at hload
    exact hload
  · simp only [List.map_cons, List.length_cons, List.length_map]
    rfl

theorem matches_products (hschema : s.schema.Regular) :
    Matches (s.Stands later) s.products s.ledger.catalog.products := by
  refine Action.matches_reading fun service st h => ⟨service, ?_, h⟩
  exact h.run_products hschema .everything fun e _ => holds_everything e

/-- The newest of a query are the first of its answer. -/
theorem Stands.run_newest (hschema : s.schema.Regular) (h : s.Stands later service st) (n : Nat)
    (q : Query) {test : Entry String → Bool}
    (htest : ∀ e ∈ st.entries, q.holds (record e) = test e) :
    Action.run (do s.loadAll (← Remote.page s.outage q 0 n).1) service =
      (.ok (((s.ledger.answer st test).map Entry.product).take n), service) := by
  rw [Remote.page, Action.run_bind_ok (run_ask hschema _ service)]
  dsimp only
  rw [h.matching_eq q htest, List.drop_zero, ← List.map_take, ← List.map_take]
  exact h.run_loadAll hschema fun e he => Ledger.mem_answer (List.mem_of_mem_take he)

theorem matches_newest (hschema : s.schema.Regular) (n : Nat) :
    Matches (s.Stands later) (s.newest n) (s.ledger.catalog.newest n) := by
  refine Action.matches_reading fun service st h => ⟨service, ?_, h⟩
  exact h.run_newest hschema n .everything fun e _ => holds_everything e

theorem matches_productsOfType (hschema : s.schema.Regular) (u : ProductType) :
    Matches (s.Stands later) (s.productsOfType u) (s.ledger.catalog.productsOfType u) := by
  refine Action.matches_reading fun service st h => ⟨service, ?_, h⟩
  have hledger : s.ledger.schema = s.schema := rfl
  rw [productsOfType, Action.run_bind, Action.run_ofExcept, Ledger.answerOfType, hledger]
  cases s.schema.resolveType u with
  | error e => rfl
  | ok t => exact h.run_products hschema (typeQuery t) fun e _ => holds_typeQuery e

theorem matches_newestOfType (hschema : s.schema.Regular) (n : Nat) (u : ProductType) :
    Matches (s.Stands later) (s.newestOfType n u) (s.ledger.catalog.newestOfType n u) := by
  refine Action.matches_reading fun service st h => ⟨service, ?_, h⟩
  have hledger : s.ledger.schema = s.schema := rfl
  rw [newestOfType, Action.run_bind, Action.run_ofExcept, Ledger.answerOfType, hledger]
  cases s.schema.resolveType u with
  | error e => rfl
  | ok t => exact h.run_newest hschema n (typeQuery t) fun e _ => holds_typeQuery e

theorem matches_count (hschema : s.schema.Regular) (u : ProductType) :
    Matches (s.Stands later) (s.count u) (s.ledger.catalog.count u) := by
  refine Action.matches_reading fun service st h => ⟨service, ?_, h⟩
  have hledger : s.ledger.schema = s.schema := rfl
  rw [count, Action.run_bind, Action.run_ofExcept, Ledger.answerOfType, hledger]
  cases s.schema.resolveType u with
  | error e => rfl
  | ok t =>
    dsimp only
    rw [Remote.count, run_ask hschema, h.matching_eq (typeQuery t) fun e _ => holds_typeQuery e,
      List.length_map]
    rfl

/-- A query that passes the check of its elements names no reserved one. -/
def AsksApart (schema : Schema) (q : Query) : Prop :=
  ∀ t, schema.checkQuery q t = .ok () → ∀ name ∈ q.elements, name ∉ Key.reserved

theorem asksApart_everything (schema : Schema) : AsksApart schema .everything :=
  fun _ _ _ hname => absurd hname List.not_mem_nil

theorem ReservesNames.asksApart (hschema : s.schema.Regular) (hnames : ReservesNames s.schema)
    (q : Query) : AsksApart s.schema q := fun t hcheck name hname =>
  hnames t name (hschema.declared_of_checkQuery hcheck name hname)

/-- A query fails on the catalog as on the ledger, or the service is asked for records that pass
the test of the ledger. -/
theorem restricted_cases {q : Query} (hq : AsksApart s.schema q) (u : ProductType) :
    (∃ f, s.restricted q u = .error f ∧ ∀ st, s.ledger.matching q u st = .error f) ∨
      ∃ r test, s.restricted q u = .ok r ∧ (∀ e, r.holds (record e) = test e) ∧
        ∀ st, s.ledger.matching q u st = .ok (s.ledger.answer st test) := by
  have hledger : s.ledger.schema = s.schema := rfl
  unfold restricted Ledger.matching
  rw [hledger]
  cases s.schema.resolveType u with
  | error f => exact .inl ⟨f, rfl, fun _ => rfl⟩
  | ok t =>
    simp only [bind, Except.bind]
    cases hcheck : s.schema.checkQuery q t with
    | error f => exact .inl ⟨f, rfl, fun _ => rfl⟩
    | ok _ =>
      exact .inr ⟨q.restrict (typeCriterion t), _, rfl, holds_restrict (hq t hcheck),
        fun _ => rfl⟩

theorem matches_query (hschema : s.schema.Regular) {q : Query} (hq : AsksApart s.schema q)
    (u : ProductType) :
    Matches (s.Stands later) (s.query q u) (s.ledger.catalog.query q u) := by
  refine Action.matches_reading fun service st h => ⟨service, ?_, h⟩
  rw [query, Action.run_bind, Action.run_ofExcept]
  rcases restricted_cases hq u with
    ⟨f, hf, hmatching⟩ | ⟨r, test, hr, htest, hmatching⟩
  · rw [hf, hmatching]
    rfl
  · rw [hr, hmatching]
    dsimp only
    rw [Remote.query, run_ask hschema, h.matching_eq r fun e _ => htest e]
    rfl

/-- What is asked of the service for a page is what the window cuts out of the whole answer. -/
theorem cut_of_extent {α : Type} (found : List α) (hcount : found.length ≤ greatestCount)
    {window : PageWindow} (hblank : window ≠ .blank) :
    ((found.drop (s.extent found.length window).1).take (s.extent found.length window).2) =
      window.cut s.pageSize found := by
  cases window with
  | blank => exact absurd rfl hblank
  | all => simp [extent, PageWindow.cut, PageWindow.bounds]
  | slice number offset => exact (PageWindow.cut_slice hcount number offset s.pageSize).symm

theorem Stands.run_page (hschema : s.schema.Regular) (h : s.Stands later service st)
    (hcount : st.entries.length ≤ greatestCount) {q : Query} (hq : AsksApart s.schema q)
    (u : ProductType) (number : Int) :
    (s.page q u number).run service =
      ((do s.ledger.pageOf number ((← s.ledger.matching q u st).map Entry.product)), service) := by
  have hsize : s.ledger.pageSize = s.pageSize := rfl
  rw [page, Action.run_bind, Action.run_ofExcept]
  rcases restricted_cases hq u with
    ⟨f, hf, hmatching⟩ | ⟨r, test, hr, htest, hmatching⟩
  · rw [hf, hmatching]
    rfl
  · rw [hr, hmatching]
    have hfound := h.matching_eq r fun e _ => htest e
    generalize hanswer : s.ledger.answer st test = found at hfound
    have hlength : found.length ≤ greatestCount := by
      rw [← hanswer, answer_ledger, List.length_reverse]
      exact Nat.le_trans (List.length_filter_le _ _) hcount
    have hmem : ∀ e ∈ found, e ∈ st.entries := fun e he => Ledger.mem_answer (hanswer ▸ he)
    have hload : ∀ window : PageWindow,
        (s.loadAll ((window.cut s.pageSize found).map Entry.key)).run service =
          (.ok ((window.cut s.pageSize found).map Entry.product), service) := fun window =>
      h.run_loadAll hschema fun e he => hmem e (PageWindow.mem_of_mem_cut he)
    have hpage : (do s.ledger.pageOf number ((← Except.ok found).map Entry.product)) =
        (do
          let window ←
            (PageWindow.resolve number s.pageSize found.length).mapError CatalogError.query
          return window.page s.pageSize found.length
            (window.cut s.pageSize (found.map Entry.product))) := by
      have hlist : (do s.ledger.pageOf number ((← Except.ok found).map Entry.product)) =
          s.ledger.pageOf number (found.map Entry.product) := rfl
      rw [hlist, Ledger.pageOf, hsize, List.length_map]
    rw [hpage]
    dsimp only
    rw [Remote.count, Action.run_bind_ok (run_ask hschema _ service), hfound, List.length_map,
      Action.run_bind, Action.ofQuery, Action.run_ofExcept]
    cases PageWindow.resolve number s.pageSize found.length with
    | error f => rfl
    | ok window =>
      dsimp only [Except.mapError]
      by_cases hblank : window = .blank
      · subst hblank
        rfl
      · rw [if_neg hblank, Remote.page, Action.run_bind_ok (run_ask hschema _ service), hfound]
        dsimp only
        rw [← List.map_drop, ← List.map_take, cut_of_extent found hlength hblank,
          Action.run_bind_ok (hload window), ← PageWindow.cut_map]
        rfl

theorem matches_page (hschema : s.schema.Regular) {q : Query} (hq : AsksApart s.schema q)
    (u : ProductType) (number : Int) :
    Matches (fun service st => s.Stands later service st ∧ st.entries.length ≤ greatestCount)
      (s.page q u number) (s.ledger.catalog.page q u number) :=
  Action.matches_reading fun service _ ⟨h, hcount⟩ =>
    ⟨service, h.run_page hschema hcount hq u number, h, hcount⟩

/-! ## Histories -/

/-- The times that an operation hands over fit signed and the sizes unsigned 64 bits. -/
def FitsWords : Operation → Prop
  | .add r p => Text.fitsInt64 r.millis = true ∧ ∀ f ∈ p.references, Json.CountsSize f
  | .modify p | .addReferences p => ∀ f ∈ p.references, Json.CountsSize f
  | _ => True

/-- Where pages are asked for, so many products can be counted. -/
def CountsPages (soFar : Nat) (history : List Operation) : Prop :=
  ∀ q t number, .page q t number ∈ history → soFar + history.length ≤ greatestCount

/-- The operation depends on which elements are declared. -/
def asksElements : Operation → Bool
  | .addMetadata .. | .query .. | .page .. => true
  | _ => false

/-- An operation that has nothing to do with the names of elements is matched by that of the
ledger, and the ids that it needs are used up. -/
theorem Stands.perform_plain (hschema : s.schema.Regular)
    (hids : ∀ t ∈ s.schema.types.types, t.id ≠ "") {op : Operation} {rest : List Operation}
    (h : s.Stands (freshIds (op :: rest)) service st) (hfresh : (freshIds (op :: rest)).Nodup)
    (hfits : FitsWords op) (hplain : asksElements op = false) :
    ((s.catalog.perform op).run service).1 = ((s.ledger.catalog.perform op).run st).1 ∧
      s.Stands (freshIds rest) ((s.catalog.perform op).run service).2
        ((s.ledger.catalog.perform op).run st).2 := by
  cases op with
  | addMetadata | query | page => cases hplain
  | add r p =>
    have hdistinct : r.freshId ∉ freshIds rest := (List.nodup_cons.1 hfresh).1
    rcases h.run_add hschema hids hdistinct hfits.1 hfits.2 (p := p) with ⟨hanswer, hafter⟩
    have hleft : (s.catalog.perform (.add r p)).run service =
        (((s.add r p).run service).1.map Answer.product, ((s.add r p).run service).2) :=
      Action.run_map _ _ _
    have hright : (s.ledger.catalog.perform (.add r p)).run st =
        (((s.ledger.add r p).run st).1.map Answer.product, ((s.ledger.add r p).run st).2) :=
      Action.run_map _ _ _
    rw [hleft, hright, hanswer]
    exact ⟨rfl, hafter⟩
  | modify p => exact (matches_modify hschema hfits).answer _ service st h
  | remove p => exact (matches_remove hschema).answer _ service st h
  | setStatus p => exact (matches_setStatus hschema).answer _ service st h
  | addReferences p => exact (matches_addReferences hschema hfits).answer _ service st h
  | removeMetadata m p => exact (matches_removeMetadata hschema m).answer _ service st h
  | byId id => exact (matches_byId hschema id).answer _ service st h
  | byName name => exact (matches_byName hschema name).answer _ service st h
  | references p => exact (matches_references hschema).answer _ service st h
  | products => exact (matches_products hschema).answer _ service st h
  | productsOfType t => exact (matches_productsOfType hschema t).answer _ service st h
  | metadata p => exact (matches_metadata hschema).answer _ service st h
  | newest n => exact (matches_newest hschema n).answer _ service st h
  | newestOfType n t => exact (matches_newestOfType hschema n t).answer _ service st h
  | count t => exact (matches_count hschema t).answer _ service st h

/-- If no element has a reserved name every operation is matched by that of the ledger. -/
theorem Stands.perform (hschema : s.schema.Regular) (hids : ∀ t ∈ s.schema.types.types, t.id ≠ "")
    (hnames : ReservesNames s.schema) {op : Operation} {rest : List Operation}
    (h : s.Stands (freshIds (op :: rest)) service st) (hfresh : (freshIds (op :: rest)).Nodup)
    (hfits : FitsWords op) (hpages : CountsPages st.entries.length (op :: rest)) :
    ((s.catalog.perform op).run service).1 = ((s.ledger.catalog.perform op).run st).1 ∧
      s.Stands (freshIds rest) ((s.catalog.perform op).run service).2
        ((s.ledger.catalog.perform op).run st).2 := by
  cases op with
  | addMetadata m p => exact (matches_addMetadata hschema hnames m).answer _ service st h
  | query q t => exact (matches_query hschema (hnames.asksApart hschema q) t).answer _ service st h
  | page q t number =>
    have hcount : st.entries.length ≤ greatestCount :=
      Nat.le_trans (Nat.le_add_right _ _) (hpages q t number List.mem_cons_self)
    have hq := hnames.asksApart hschema q
    rcases (matches_page hschema hq t number).answer _ service st ⟨h, hcount⟩ with
      ⟨hanswer, hafter, -⟩
    exact ⟨hanswer, hafter⟩
  | _ => exact h.perform_plain hschema hids hfresh hfits rfl

/-- What the operations to come ask of the surroundings, and where the catalog stands. -/
structure Ready (s : Store) (rest : List Operation) (service : Service) (st : LedgerState String) :
    Prop where
  fresh : (freshIds rest).Nodup
  fits : ∀ op ∈ rest, FitsWords op
  pages : CountsPages st.entries.length rest
  stands : s.Stands (freshIds rest) service st

theorem Ready.perform (hschema : s.schema.Regular) (hids : ∀ t ∈ s.schema.types.types, t.id ≠ "")
    (hnames : ReservesNames s.schema) (op : Operation) (rest : List Operation) (service : Service)
    (st : LedgerState String) (h : s.Ready (op :: rest) service st) :
    ((s.catalog.perform op).run service).1 = ((s.ledger.catalog.perform op).run st).1 ∧
      s.Ready rest ((s.catalog.perform op).run service).2
        ((s.ledger.catalog.perform op).run st).2 := by
  rcases h.stands.perform hschema hids hnames h.fresh (h.fits op List.mem_cons_self) h.pages with
    ⟨hanswer, hafter⟩
  refine ⟨hanswer, nodup_freshIds_rest h.fresh,
    fun later hlater => h.fits later (List.mem_cons_of_mem op hlater), ?_, hafter⟩
  intro q t number hpage
  have hbefore := h.pages q t number (List.mem_cons_of_mem op hpage)
  have hadded := s.ledger.addsOne_perform op st
  rw [List.length_cons] at hbefore
  omega

theorem ready_empty {history : List Operation} (hfresh : (freshIds history).Nodup)
    (hfits : ∀ op ∈ history, FitsWords op) (hpages : CountsPages 0 history) :
    s.Ready history .empty .empty := ⟨hfresh, hfits, hpages, stands_empty⟩

/-! ## Products and metadata apart -/

/-- A service in which queries answer nothing twice, and products and metadata do not get into
each other's way. -/
structure KeepsApart (s : Store) (service : Service) : Prop where
  once : ∀ q t ids, ((s.catalog.query q t).run service).1 = .ok ids → ids.Nodup
  unreserved : ∀ p m, ((s.catalog.metadata p).run service).1 = .ok m →
    ∀ key ∈ Key.reserved, m.contains key = false
  added : ∀ m p id, ((s.catalog.byId id).run ((s.catalog.addMetadata m p).run service).2).1 =
    ((s.catalog.byId id).run service).1
  removed : ∀ m p id, ((s.catalog.byId id).run ((s.catalog.removeMetadata m p).run service).2).1 =
    ((s.catalog.byId id).run service).1
  modified : ∀ p q, FitsWords (.modify p) →
    ((s.catalog.metadata q).run ((s.catalog.modify p).run service).2).1 =
      ((s.catalog.metadata q).run service).1

theorem Stands.once (hschema : s.schema.Regular) (hnames : ReservesNames s.schema)
    (h : s.Stands later service st) {q : Query} {t : ProductType} {ids : List String}
    (hids : ((s.query q t).run service).1 = .ok ids) : ids.Nodup := by
  rw [query, Action.run_bind, Action.run_ofExcept] at hids
  rcases restricted_cases (hnames.asksApart hschema q) t with ⟨f, hf, -⟩ | ⟨r, test, hr, htest, -⟩
  · rw [hf] at hids
    cases hids
  · rw [hr] at hids
    dsimp only at hids
    rw [Remote.query, run_ask hschema, h.matching_eq r fun e _ => htest e, answer_ledger] at hids
    cases hids
    rw [List.map_reverse, List.nodup_reverse]
    exact h.keys.sublist (List.filter_sublist.map _)

theorem Stands.unreserved (hschema : s.schema.Regular) (h : s.Stands later service st)
    {m : Metadata} (hm : ((s.metadata p).run service).1 = .ok m) :
    ∀ key ∈ Key.reserved, m.contains key = false := by
  cases hid : p.requireId with
  | error f =>
    rw [metadata, Action.run_bind, Action.run_ofExcept, hid] at hm
    cases hm
  | ok id =>
    rw [h.run_metadata hschema hid, visible_ledger, Ledger.require] at hm
    cases hfound : st.find? id with
    | none =>
      rw [hfound] at hm
      cases hm
    | some e =>
      rw [hfound] at hm
      cases hm
      have hwhole := h.whole e (LedgerState.mem_of_find? hfound).1
      intro key hkey
      rw [Metadata.contains, hwhole.regular.get?_eq, if_pos (hwhole.unreserved key hkey)]
      rfl

/-- An edit that changes no product changes no answer about products. -/
theorem Stands.run_load_edit (hschema : s.schema.Regular) (h : s.Stands later service st)
    {a : Action Service Unit} {change : Entry String → Except CatalogError (Entry String)}
    (hmatches : Matches (s.Stands later) a (s.ledger.edit p change))
    (hchange : ∀ e e', change e = .ok e' → e'.key = e.key ∧ e'.product = e.product) (id : String) :
    ((s.load id).run (a.run service).2).1 = ((s.load id).run service).1 := by
  rw [(hmatches service st h).2.run_load hschema, h.run_load hschema]
  refine s.ledger.visible_edit Entry.product h.keys p ?_ id
  exact fun e e' he => ⟨(hchange e e' he).1, rfl, (hchange e e' he).2⟩

theorem Stands.run_metadata_modify (hschema : s.schema.Regular) (h : s.Stands later service st)
    (hsizes : ∀ r ∈ p.references, Json.CountsSize r) (q : Product) :
    ((s.metadata q).run ((s.modify p).run service).2).1 = ((s.metadata q).run service).1 := by
  cases hid : q.requireId with
  | error f =>
    rw [metadata, Action.run_bind, Action.run_bind, Action.run_ofExcept, Action.run_ofExcept, hid]
  | ok id =>
    have hafter := (matches_modify hschema hsizes service st h).2
    rw [hafter.run_metadata hschema hid, h.run_metadata hschema hid]
    refine s.ledger.visible_edit Entry.shown h.keys p ?_ id
    intro e e' he
    cases he
    exact ⟨rfl, rfl, rfl⟩

theorem Stands.keepsApart (hschema : s.schema.Regular) (hnames : ReservesNames s.schema)
    (h : s.Stands later service st) : s.KeepsApart service where
  once q t ids hids := h.once hschema hnames hids
  unreserved p m hm := h.unreserved hschema hm
  added m p id := by
    refine h.run_load_edit hschema (matches_addMetadata hschema hnames m (p := p)) ?_ id
    intro e e' he
    rcases Action.bind_eq_ok_iff.1 he with ⟨declared, -, he⟩
    cases he
    exact ⟨rfl, rfl⟩
  removed m p id := by
    refine h.run_load_edit hschema (matches_removeMetadata hschema m (p := p)) ?_ id
    intro e e' he
    cases he
    exact ⟨rfl, rfl⟩
  modified p q hsizes := h.run_metadata_modify hschema hsizes q

/-- On every history a remote catalog answers and fails as its ledger does, which answers the entry
added last first. Queries answer nothing twice, metadata never show a reserved key, writes of
metadata never change a product, and `modify` never changes metadata. -/
theorem remote_refines_ledger (s : Store) (hschema : s.schema.Regular)
    (hids : ∀ t ∈ s.schema.types.types, t.id ≠ "") (hnames : ReservesNames s.schema)
    (history : List Operation) (hfresh : (freshIds history).Nodup)
    (hfits : ∀ op ∈ history, FitsWords op) (hpages : CountsPages 0 history) :
    s.catalog.outcomes .empty history = s.ledger.catalog.outcomes .empty history ∧
      (∀ st test, s.ledger.answer st test = (st.entries.filter test).reverse) ∧
      s.KeepsApart (s.catalog.after .empty history) := by
  have hready : s.Ready history .empty .empty := ready_empty hfresh hfits hpages
  have hafter := Catalog.after_of_simulation (Ready.perform hschema hids hnames) hready
  exact ⟨Catalog.outcomes_eq_of_simulation (Ready.perform hschema hids hnames) hready,
    answer_ledger, hafter.stands.keepsApart hschema hnames⟩

/-! ## Metadata with a reserved key -/

/-- A type with one element. -/
def granule : ProductType := ⟨"urn:granule", "GRANULE", "", "", "", .empty⟩

/-- A catalog of the type. -/
def granuleStore : Store where
  schema := SchemaDocument.toSchema
    { version := 1
      elements := [⟨"urn:band", "Band", ""⟩]
      types := [⟨granule, ["Band"]⟩] }
  pageSize := 20

/-- A product is given metadata that try to rename it, and is read and searched for. -/
def renameByMetadata : List Operation :=
  let p : Product := ⟨none, "a", granule, .flat, .received, [⟨"a", "b", 7, none⟩], none⟩
  let registered : Product := { p with id := some "1" }
  [.add ⟨"1", 5⟩ p,
    .addMetadata (.ofPairs [("Band", "7"), (Key.name, "b")]) registered, .byId "1",
    .metadata registered, .query ⟨[.term "Band" "7"]⟩ (.named "GRANULE"),
    .page .everything (.named "GRANULE") 1]

theorem reservesNames_granule : ReservesNames granuleStore.schema := by
  intro t name hname
  have hall : ∀ e ∈ granuleStore.schema.elements.elements, e.name ∉ Key.reserved := by
    decide +kernel
  rcases List.mem_map.1 hname with ⟨e, he, rfl⟩
  exact hall e (List.mem_of_find?_eq_some (ElementRegistry.name_of_mem_elementsOf he).2)

theorem rename_refines_ledger :
    (freshIds renameByMetadata).Nodup ∧ (∀ op ∈ renameByMetadata, FitsWords op) ∧
      CountsPages 0 renameByMetadata ∧
      granuleStore.catalog.outcomes .empty renameByMetadata =
        granuleStore.ledger.catalog.outcomes .empty renameByMetadata ∧
      granuleStore.KeepsApart (granuleStore.catalog.after .empty renameByMetadata) := by
  have hfresh : (freshIds renameByMetadata).Nodup := by decide
  have hfits : ∀ op ∈ renameByMetadata, FitsWords op := by
    simp [renameByMetadata, FitsWords, Text.fitsInt64, Json.CountsSize, Json.greatestNatural]
  have hpages : CountsPages 0 renameByMetadata := fun _ _ _ _ => by decide
  rcases remote_refines_ledger granuleStore (Schema.regular_toSchema _) (by decide +kernel)
    reservesNames_granule renameByMetadata hfresh hfits hpages with ⟨houtcomes, -, hapart⟩
  exact ⟨hfresh, hfits, hpages, houtcomes, hapart⟩

end Store

end ArchiveCatalog.Remote

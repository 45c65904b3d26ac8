import ArchiveCatalog.Proofs.History
import ArchiveCatalog.Proofs.Ledger
import ArchiveCatalog.Proofs.Remote.Record
import ArchiveCatalog.Proofs.Schema
import ArchiveCatalog.Remote.Store

namespace ArchiveCatalog

/-! # The remote catalog as a ledger

The ledger of a remote catalog answers the entry added last first. A service stands for a ledger
when its records are those of the entries, in the same order. Every write of the catalog does to
the record what the ledger does to the entry.
-/

/-! ## Latest first -/

theorem merge_never {α : Type} (xs ys : List α) : xs.merge ys (fun _ _ => false) = ys ++ xs := by
  induction ys with
  | nil => simp
  | cons y rest ih =>
    cases xs with
    | nil => simp
    | cons x xs => simpa [List.merge] using ih

open List.MergeSort.Internal in
/-- When no member goes before a later one, sorting reverses. -/
theorem mergeSort_never {α : Type} :
    ∀ xs : List α, xs.mergeSort (fun _ _ => false) = xs.reverse
  | [] => by simp
  | [a] => by simp
  | a :: b :: rest => by
    -- both halves are shorter, and the second goes before the first
    have hfirst : (splitInTwo ⟨a :: b :: rest, rfl⟩).1.1.length < rest.length + 1 + 1 := by
      simp [splitInTwo_fst]
      omega
    have hsecond : (splitInTwo ⟨a :: b :: rest, rfl⟩).2.1.length < rest.length + 1 + 1 := by
      simp [splitInTwo_snd]
      omega
    rw [List.mergeSort, merge_never, mergeSort_never, mergeSort_never, ← List.reverse_append,
      splitInTwo_fst_append_splitInTwo_snd]
termination_by xs => xs.length

/-- Puts a record in the place of the one of the same id. -/
def Remote.Service.put (service : Service) (id : String) (record : Metadata) : Service :=
  ⟨service.records.map fun r => if r.1 = id then (id, record) else r⟩

namespace Remote.Store

open ArchiveCatalog.Action (Matches)

/-- The ledger that a remote catalog comes to. Of two entries the earlier one never goes before
the later one. -/
def ledger (s : Store) : Ledger String where
  schema := s.schema
  pageSize := s.pageSize
  locate := .ok
  spell key := key
  assign r _ := .ok r.freshId
  initial := some .empty
  sees _ := true
  precedes _ _ := false
  satisfies := Query.holds

/-- The record of an entry. -/
def record (e : Entry String) : Metadata := recordOf e.product e.millis e.shown

/-- The product and the metadata of an entry are what is read back from its record. -/
structure Whole (s : Store) (e : Entry String) : Prop where
  id : e.product.id = some e.key
  type : s.schema.typeById e.product.productType.id = .ok e.product.productType
  received : e.product.received = Instant.ofMillis? e.millis
  fits : Text.fitsInt64 e.millis = true
  sizes : ∀ r ∈ e.product.references, Json.CountsSize r
  regular : e.shown.Regular
  unreserved : Unreserved e.shown

/-- The service stands for the ledger, in which no entry has a key that is yet to be given. -/
structure Stands (s : Store) (later : List String) (service : Service) (st : LedgerState String) :
    Prop where
  keys : (st.entries.map Entry.key).Nodup
  apart : ∀ e ∈ st.entries, e.key ∉ later
  whole : ∀ e ∈ st.entries, s.Whole e
  records : service.records = st.entries.map fun e => (e.key, record e)

variable {s : Store} {later : List String} {service : Service} {st : LedgerState String}
  {e : Entry String} {id : String} {p : Product} {t : ProductType}

/-- The entry added last is answered first. -/
theorem answer_ledger (st : LedgerState String) (test : Entry String → Bool) :
    s.ledger.answer st test = (st.entries.filter test).reverse :=
  mergeSort_never _

/-! ## Entries -/

theorem stands_empty : s.Stands later .empty .empty :=
  ⟨List.nodup_nil, fun _ he => absurd he List.not_mem_nil, fun _ he => absurd he List.not_mem_nil,
    rfl⟩

theorem Whole.readProduct (h : s.Whole e) : readProduct s.schema e.key (record e) = .ok e.product :=
  readProduct_recordOf h.id h.type h.received h.fits h.sizes

theorem Stands.record?_eq (h : s.Stands later service st) (id : String) :
    service.record? id = (st.find? id).map record := by
  unfold Service.record? LedgerState.find?
  rw [h.records]
  induction st.entries with
  | nil => rfl
  | cons e rest ih =>
    rw [List.map_cons, lookup_cons_ite, ih, List.find?_cons]
    by_cases hkey : e.key = id
    · simp [hkey]
    · simp [hkey, Ne.symm hkey]

theorem keyOf_ledger : s.ledger.keyOf p = p.requireId := by
  unfold Ledger.keyOf
  cases p.requireId <;> rfl

theorem visible_ledger (st : LedgerState String) (id : String) :
    s.ledger.visible st id = s.ledger.require st id := by
  unfold Ledger.visible Ledger.require
  cases st.find? id <;> rfl

/-! ## Writes -/

/-- The service answers, so the record of an id is found if there is one. -/
theorem run_storedRecord_of_record? (hschema : s.schema.Regular) (service : Service)
    (id : String) :
    (s.storedRecord id).run service =
      (match service.record? id with
        | some record => .ok record
        | none => .error (.notFound "Product" id), service) := by
  have hasked : (record? s.outage id).run service = (.ok (service.record? id), service) := by
    rw [record?, ask, Action.run_reading, outage, hschema.guard_eq]
  rw [storedRecord, Action.run_bind_ok hasked]
  cases service.record? id <;> rfl

theorem Stands.run_storedRecord (hschema : s.schema.Regular) (h : s.Stands later service st)
    (id : String) :
    (s.storedRecord id).run service = ((s.ledger.require st id).map record, service) := by
  rw [run_storedRecord_of_record? hschema, h.record?_eq, Ledger.require]
  cases st.find? id <;> rfl

/-- A change of the record of a product puts the changed one in its place. -/
theorem run_update (hschema : s.schema.Regular) (hid : p.requireId = .ok id) (service : Service)
    (change : Metadata → Except CatalogError Metadata) :
    (s.update p change).run service =
      match service.record? id with
      | some record =>
        match change record with
        | .ok changed => (.ok (), service.put id changed)
        | .error e => (.error e, service)
      | none => (.error (.notFound "Product" id), service) := by
  have hstored := run_storedRecord_of_record? hschema service id
  rw [update, Action.run_bind, Action.run_ofExcept, hid]
  dsimp only
  cases hrecord : service.record? id with
  | none =>
    rw [hrecord] at hstored
    exact Action.run_bind_error hstored
  | some record =>
    rw [hrecord] at hstored
    rw [Action.run_bind_ok hstored, Action.run_bind, Action.run_ofExcept]
    dsimp only
    cases change record with
    | error e => rfl
    | ok changed =>
      refine Action.run_changing_ok ?_
      rw [outage, hschema.guard_eq, Service.replace, hrecord]
      rfl

/-- Replacing the record of an entry puts another entry with its key. -/
theorem Stands.put (h : s.Stands later service st) {old : Entry String}
    (hfound : st.find? e.key = some old) (hwhole : s.Whole e) :
    s.Stands later (service.put e.key (record e)) (st.put e) := by
  have hlater : e.key ∉ later := by
    rcases LedgerState.mem_of_find? hfound with ⟨hold, hkey⟩
    exact hkey ▸ h.apart old hold
  refine ⟨?_, LedgerState.forall_mem_put h.apart hlater, LedgerState.forall_mem_put h.whole hwhole,
    ?_⟩
  · rw [LedgerState.keys_put]
    exact h.keys
  · unfold Service.put LedgerState.put
    dsimp only
    rw [h.records, List.map_map, List.map_map]
    apply List.map_congr_left
    intro entry _
    dsimp only [Function.comp]
    split <;> rfl

theorem target_ledger (hid : p.requireId = .ok id) (st : LedgerState String) :
    s.ledger.target st p = s.ledger.require st id := by
  rw [Ledger.target, keyOf_ledger, hid]
  rfl

/-- On every entry the change does to the record what the edit does to the entry, which keeps its
key and the type of its product. -/
def Edits (s : Store) (change : Metadata → Except CatalogError Metadata)
    (edit : Entry String → Except CatalogError (Entry String)) : Prop :=
  ∀ e, s.Whole e → ∃ e', edit e = .ok e' ∧ change (record e) = .ok (record e') ∧ s.Whole e' ∧
    e'.key = e.key ∧ e'.product.productType = e.product.productType

/-- A change of records matches the edit of entries that it comes to. -/
theorem matches_update (hschema : s.schema.Regular)
    {change : Metadata → Except CatalogError Metadata}
    {edit : Entry String → Except CatalogError (Entry String)} (hedits : s.Edits change edit) :
    Matches (s.Stands later) (s.update p change) (s.ledger.edit p edit) := by
  intro service st h
  rw [Ledger.run_edit]
  cases hid : p.requireId with
  | error f =>
    have htarget : s.ledger.target st p = .error f := by
      rw [Ledger.target, keyOf_ledger, hid]
      rfl
    rw [htarget, update, Action.run_bind, Action.run_ofExcept, hid]
    exact ⟨rfl, h⟩
  | ok id =>
    rw [target_ledger hid, Ledger.require]
    cases hfound : st.find? id with
    | none =>
      rw [run_update hschema hid, h.record?_eq, hfound]
      exact ⟨rfl, h⟩
    | some e =>
      rcases LedgerState.mem_of_find? hfound with ⟨hmem, rfl⟩
      rcases hedits e (h.whole e hmem) with ⟨e', hedit, hrecord, hwhole, hkey, -⟩
      rw [run_update hschema hid, h.record?_eq, hfound, Option.map_some]
      dsimp only
      rw [hedit, hrecord]
      rw [← hkey] at hfound ⊢
      exact ⟨rfl, h.put hfound hwhole⟩

/-- Changes of the product that keep id, type and time come to edits of entries. -/
theorem edits_product {change : Metadata → Except CatalogError Metadata} (edit : Product → Product)
    (hkeeps : ∀ q, (edit q).id = q.id ∧ (edit q).productType = q.productType ∧
      (edit q).received = q.received)
    (hsizes : ∀ q, (∀ r ∈ q.references, Json.CountsSize r) →
      ∀ r ∈ (edit q).references, Json.CountsSize r)
    (hchange : ∀ q millis m, m.Regular → s.schema.typeById q.productType.id = .ok q.productType →
      change (recordOf q millis m) = .ok (recordOf (edit q) millis m)) :
    s.Edits change fun e => .ok { e with product := edit e.product } := by
  intro e h
  rcases hkeeps e.product with ⟨hid, htype, hreceived⟩
  refine ⟨_, rfl, hchange _ _ _ h.regular h.type, ⟨hid.trans h.id, ?_, hreceived.trans h.received,
    h.fits, hsizes _ h.sizes, h.regular, h.unreserved⟩, rfl, htype⟩
  rw [htype]
  exact h.type

theorem edits_modify (hsizes : ∀ r ∈ p.references, Json.CountsSize r) :
    s.Edits (fun record => do
        let t ← readType s.schema record
        return writeProduct { p with productType := t } record)
      fun e => .ok { e with product := { e.product with
        name := p.name, fileStructure := p.fileStructure, status := p.status,
        references := p.references } } := by
  refine edits_product (fun old => { old with
    name := p.name, fileStructure := p.fileStructure, status := p.status,
    references := p.references }) (fun _ => ⟨rfl, rfl, rfl⟩) (fun _ _ => hsizes) ?_
  intro q millis m hm htype
  rw [readType_recordOf, htype]
  exact congrArg Except.ok (writeProduct_recordOf hm _)

theorem edits_status :
    s.Edits (fun record => .ok (assign Key.transferStatus p.status.label record))
      fun e => .ok { e with product := { e.product with status := p.status } } := by
  refine edits_product (fun old => { old with status := p.status }) (fun _ => ⟨rfl, rfl, rfl⟩)
    (fun _ h => h) ?_
  intro q millis m hm _
  exact congrArg Except.ok (assign_transferStatus_recordOf hm p.status)

theorem edits_references (hsizes : ∀ r ∈ p.references, Json.CountsSize r) :
    s.Edits (fun record => .ok (writeReferences p record))
      fun e => .ok { e with product := { e.product with references := p.references } } := by
  refine edits_product (fun old => { old with references := p.references })
    (fun _ => ⟨rfl, rfl, rfl⟩) (fun _ _ => hsizes) ?_
  intro q millis m hm _
  exact congrArg Except.ok (writeReferences_recordOf hm p)

theorem matches_modify (hschema : s.schema.Regular)
    (hsizes : ∀ r ∈ p.references, Json.CountsSize r) :
    Matches (s.Stands later) (s.modify p) (s.ledger.catalog.modify p) :=
  matches_update hschema (edits_modify hsizes)

theorem matches_setStatus (hschema : s.schema.Regular) :
    Matches (s.Stands later) (s.setStatus p) (s.ledger.catalog.setStatus p) :=
  matches_update hschema edits_status

theorem matches_addReferences (hschema : s.schema.Regular)
    (hsizes : ∀ r ∈ p.references, Json.CountsSize r) :
    Matches (s.Stands later) (s.addReferences p) (s.ledger.catalog.addReferences p) :=
  matches_update hschema (edits_references hsizes)

/-- Of the declared metadata those with reserved names are left out. -/
theorem edits_addUnreserved (hschema : s.schema.Regular) (m : Metadata) :
    s.Edits (fun record => do
        let t ← readType s.schema record
        return record.merge (withoutReserved (← s.schema.declaredMetadata t m)))
      fun e => do
        let declared ← s.schema.declaredMetadata e.product.productType (withoutReserved m)
        return { e with metadata := some (e.shown.merge declared) } := by
  intro e h
  have htype : readType s.schema (record e) = .ok e.product.productType := by
    rw [record, readType_recordOf]
    exact h.type
  have hmerged : ∀ names, (record e).merge (withoutReserved (m.reduce names)) =
      recordOf e.product e.millis (e.shown.merge ((withoutReserved m).reduce names)) := by
    intro names
    rw [record, ← merge_recordOf h.regular, ← withoutReserved_reduce,
      withoutReserved_withoutReserved]
  dsimp only
  rw [hschema.declaredMetadata_eq, htype]
  refine ⟨_, rfl, ?_, ⟨h.id, h.type, h.received, h.fits, h.sizes, h.regular.merge _, ?_⟩, rfl, rfl⟩
  · simp only [bind, Except.bind, hschema.declaredMetadata_eq, hmerged]
    rfl
  · refine h.unreserved.merge fun key hkey => ?_
    rw [← withoutReserved_reduce, values_withoutReserved, if_pos hkey]

theorem matches_addUnreserved (hschema : s.schema.Regular) (m : Metadata) :
    Matches (s.Stands later) (s.addMetadata m p)
      (s.ledger.catalog.addMetadata (withoutReserved m) p) :=
  matches_update hschema (edits_addUnreserved hschema m)

/-- No declared element has a reserved name. -/
def ReservesNames (schema : Schema) : Prop :=
  ∀ t, ∀ name ∈ schema.declaredNames t, name ∉ Key.reserved

theorem matches_addMetadata (hschema : s.schema.Regular) (hnames : ReservesNames s.schema)
    (m : Metadata) :
    Matches (s.Stands later) (s.addMetadata m p) (s.ledger.catalog.addMetadata m p) := by
  -- declared metadata have no reserved name, so nothing is left out
  have hdeclared : ∀ t, s.schema.declaredMetadata t (withoutReserved m) =
      s.schema.declaredMetadata t m := by
    intro t
    rw [hschema.declaredMetadata_eq, hschema.declaredMetadata_eq]
    refine congrArg Except.ok (Metadata.ext_get? fun k => ?_)
    rw [Metadata.get?_reduce, Metadata.get?_reduce, withoutReserved, Metadata.get?_eraseAll]
    split
    · rename_i hk
      exact if_neg (hnames t k hk)
    · rfl
  have hsame : s.ledger.catalog.addMetadata (withoutReserved m) p =
      s.ledger.catalog.addMetadata m p := by
    show s.ledger.addMetadata _ p = s.ledger.addMetadata m p
    have hledger : s.ledger.schema = s.schema := rfl
    simp only [Ledger.addMetadata, hledger, hdeclared]
  exact hsame ▸ matches_addUnreserved hschema m

theorem edits_removeMetadata (m : Metadata) :
    s.Edits (fun record => .ok (record.removeValues (withoutReserved m)))
      fun e => .ok { e with metadata := e.metadata.map (·.removeValues m) } := by
  intro e h
  have hshown : ({ e with metadata := e.metadata.map (·.removeValues m) } : Entry String).shown =
      e.shown.removeValues m := by
    unfold Entry.shown
    cases e.metadata with
    | none => exact (Metadata.removeValues_empty m).symm
    | some stored => rfl
  refine ⟨_, rfl, ?_, ⟨h.id, h.type, h.received, h.fits, h.sizes, ?_, ?_⟩, rfl, rfl⟩
  · rw [record, record, hshown]
    exact congrArg Except.ok (removeValues_recordOf h.regular m)
  · rw [hshown]
    exact h.regular.removeValues m
  · rw [hshown]
    exact h.unreserved.removeValues m

theorem matches_removeMetadata (hschema : s.schema.Regular) (m : Metadata) :
    Matches (s.Stands later) (s.removeMetadata m p) (s.ledger.catalog.removeMetadata m p) :=
  matches_update hschema (edits_removeMetadata m)

/-- Removing the record of a product erases its entry. -/
theorem Stands.erase (h : s.Stands later service st) (id : String) :
    s.Stands later (service.erase id) (st.erase id) := by
  have hmem : ∀ e ∈ (st.erase id).entries, e ∈ st.entries := fun e he => (List.mem_filter.1 he).1
  refine ⟨h.keys.sublist (List.filter_sublist.map _), fun e he => h.apart e (hmem e he),
    fun e he => h.whole e (hmem e he), ?_⟩
  unfold Service.erase LedgerState.erase
  dsimp only
  rw [h.records, List.filter_map]
  refine congrArg (List.map _) (List.filter_congr ?_)
  intro e _
  by_cases hkey : e.key = id <;> simp [hkey]

/-- What is under the id of a product is removed, and it is told whether there was anything. -/
theorem run_removeProduct (hschema : s.schema.Regular) (hid : p.requireId = .ok id)
    (service : Service) :
    (s.removeProduct p).run service =
      (if (service.record? id).isSome then .ok () else .error (.notFound "Product" id),
        service.erase id) := by
  have hasked : (ask s.outage .remove fun service => (service.record? id).isSome).run service =
      (.ok (service.record? id).isSome, service) := by
    rw [ask, Action.run_reading, outage, hschema.guard_eq]
  have hremoved : (Remote.remove s.outage id).run service =
      (.ok (service.record? id).isSome, service.erase id) := by
    rw [Remote.remove, Action.run_bind_ok hasked]
    rfl
  rw [removeProduct, Action.run_bind, Action.run_ofExcept, hid]
  dsimp only
  rw [Action.run_bind_ok hremoved]
  cases service.record? id <;> rfl

theorem matches_remove (hschema : s.schema.Regular) :
    Matches (s.Stands later) (s.removeProduct p) (s.ledger.catalog.remove p) := by
  intro service st h
  show _ = ((s.ledger.remove p).run st).1 ∧ s.Stands later _ ((s.ledger.remove p).run st).2
  rw [Ledger.run_remove]
  cases hid : p.requireId with
  | error f =>
    have htarget : s.ledger.target st p = .error f := by
      rw [Ledger.target, keyOf_ledger, hid]
      rfl
    rw [htarget, removeProduct, Action.run_bind, Action.run_ofExcept, hid]
    exact ⟨rfl, h⟩
  | ok id =>
    rw [target_ledger hid, Ledger.require, run_removeProduct hschema hid, h.record?_eq]
    cases hfound : st.find? id with
    | none =>
      have herased := h.erase id
      rw [LedgerState.erase_eq_self hfound] at herased
      exact ⟨rfl, herased⟩
    | some e =>
      rcases LedgerState.mem_of_find? hfound with ⟨-, rfl⟩
      exact ⟨rfl, h.erase e.key⟩

/-- The entry of a product that is registered. -/
def registered (r : Registration) (p : Product) (t : ProductType) : Entry String where
  key := r.freshId
  product := { p with id := some r.freshId, productType := t,
                      received := Instant.ofMillis? r.millis }
  millis := r.millis
  metadata := some .empty

/-- Storing the record of an entry under a key that no entry has. -/
theorem Stands.append (h : s.Stands later service st)
    (hfresh : ∀ entry ∈ st.entries, entry.key ≠ e.key) (hlater : e.key ∉ later)
    (hwhole : s.Whole e) :
    s.Stands later (service.ingest e.key (record e)) (st.append e) := by
  refine ⟨LedgerState.nodup_keys_append h.keys hfresh, LedgerState.forall_mem_append h.apart hlater,
    LedgerState.forall_mem_append h.whole hwhole, ?_⟩
  unfold Service.ingest LedgerState.append
  dsimp only
  rw [h.records, List.map_append]
  rfl

theorem run_ingest (hschema : s.schema.Regular) (freshId : String) (record : Metadata)
    (service : Service) :
    (Remote.ingest s.outage freshId record).run service =
      (.ok freshId, service.ingest freshId record) := by
  have hchanged : (Action.changing fun service : Service =>
      s.outage.guard .ingest (.ok (service.ingest freshId record))).run service =
      (.ok (), service.ingest freshId record) := by
    apply Action.run_changing_ok
    rw [outage, hschema.guard_eq]
  rw [Remote.ingest, Action.run_bind_ok hchanged]
  rfl

/-- Registering under a key that no entry has. -/
theorem Stands.run_add (hschema : s.schema.Regular) (hids : ∀ t ∈ s.schema.types.types, t.id ≠ "")
    {r : Registration} (h : s.Stands (r.freshId :: later) service st)
    (hdistinct : r.freshId ∉ later)
    (hmillis : Text.fitsInt64 r.millis = true) (hsizes : ∀ f ∈ p.references, Json.CountsSize f) :
    ((s.add r p).run service).1 = ((s.ledger.add r p).run st).1 ∧
      s.Stands later ((s.add r p).run service).2 ((s.ledger.add r p).run st).2 := by
  have hlater : s.Stands later service st :=
    ⟨h.keys, fun e he hkey => h.apart e he (List.mem_cons_of_mem _ hkey), h.whole, h.records⟩
  -- the key was yet to be given, so no entry has it
  have hfresh : ∀ e ∈ st.entries, e.key ≠ r.freshId := fun e he hkey =>
    h.apart e he (hkey ▸ List.mem_cons_self)
  have hledger : s.ledger.schema = s.schema := rfl
  rw [add, Action.run_bind, Action.run_ofExcept]
  cases hp : p.requireUnregistered with
  | error e =>
    have hregister : s.ledger.register r p st = .error e := by
      rw [Ledger.register, hp]
      rfl
    rw [Ledger.run_add_error _ hregister]
    exact ⟨rfl, hlater⟩
  | ok _ =>
    dsimp only
    rw [Action.run_bind, Action.run_ofExcept]
    cases hres : s.schema.resolveType p.productType with
    | error e =>
      have hregister : s.ledger.register r p st = .error e := by
        rw [Ledger.register, hp, hledger, hres]
        rfl
      rw [Ledger.run_add_error _ hregister]
      exact ⟨rfl, hlater⟩
    | ok t =>
      have hregister : s.ledger.register r p st = .ok (registered r p t) := by
        rw [Ledger.register, hp, hledger, hres]
        rfl
      have hmem := hschema.mem_of_resolveType hres
      have htype := hschema.typeById_eq_ok_iff.2 (hschema.typeOf?_of_mem hmem (hids t hmem))
      have hwhole : s.Whole (registered r p t) :=
        ⟨rfl, htype, rfl, hmillis, hsizes, .empty, unreserved_empty⟩
      rw [Ledger.run_add_ok _ hregister]
      have hafter := hlater.append (e := registered r p t) hfresh hdistinct hwhole
      dsimp only
      rw [Action.run_bind_ok (run_ingest hschema _ _ _)]
      exact ⟨rfl, hafter⟩

end Remote.Store

end ArchiveCatalog

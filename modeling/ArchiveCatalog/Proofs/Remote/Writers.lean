import ArchiveCatalog.Proofs.Interleaving
import ArchiveCatalog.Proofs.Reached

namespace ArchiveCatalog.Remote

/-! # Writers of one record

A change of metadata stores the whole record again. Under the reserved keys it stays what it was,
so the product is the same from one call to the next, and so are the records of all others.
-/

namespace Service

variable {service : Service} {id : String} {record other : Metadata}

theorem record?_put (h : service.record? id = some other) :
    (service.put id record).record? id = some record := by
  rcases service with ⟨records⟩
  unfold record? at h
  unfold record? put
  dsimp only at h ⊢
  induction records with
  | nil => simp at h
  | cons r rest ih =>
    rcases r with ⟨key, stored⟩
    rw [lookup_cons_ite] at h
    rw [List.map_cons]
    by_cases hid : key = id
    · rw [if_pos hid, lookup_cons_ite, if_pos rfl]
    · rw [if_neg (Ne.symm hid)] at h
      rw [if_neg hid, lookup_cons_ite, if_neg (Ne.symm hid), ih h]

theorem put_put : (service.put id other).put id record = service.put id record := by
  unfold put
  rw [List.map_map]
  refine congrArg Service.mk (List.map_congr_left fun r _ => ?_)
  dsimp only [Function.comp]
  by_cases hid : r.1 = id <;> simp [hid]

theorem put_self (hkeys : (service.records.map Prod.fst).Nodup)
    (h : service.record? id = some record) : service.put id record = service := by
  have hsame : ∀ r ∈ service.records, (if r.1 = id then (id, record) else r) = r := by
    rintro ⟨key, stored⟩ hr
    by_cases hkey : key = id
    · -- no other record has the id
      have hfound := (lookup_eq_some_iff hkeys).2 hr
      rw [hkey] at hfound
      have hstored : record = stored := Option.some.inj (h.symm.trans hfound)
      rw [if_pos hkey, hkey, hstored]
    · exact if_neg hkey
  unfold put
  rw [List.map_congr_left hsame, List.map_id']

/-- What is found of a record is told by whether it satisfies the query. -/
theorem matching_put_congr {q : Query} (h : q.holds record = q.holds other) :
    (service.put id record).matching q = (service.put id other).matching q := by
  have hids : ∀ m : Metadata, Prod.fst ∘ (fun r : String × Metadata =>
      if r.1 = id then (id, m) else r) = Prod.fst := by
    intro m
    funext r
    by_cases hid : r.1 = id <;> simp [hid]
  unfold matching put
  rw [List.filter_map, List.filter_map, List.map_map, List.map_map, hids, hids]
  congr 2
  refine List.filter_congr fun r _ => ?_
  dsimp only [Function.comp]
  by_cases hid : r.1 = id <;> simp [hid, h]

/-- The ids of the records. -/
def ids (service : Service) : List String := service.records.map Prod.fst

theorem ids_put : (service.put id record).ids = service.ids := by
  unfold ids put
  rw [List.map_map]
  refine List.map_congr_left fun r _ => ?_
  dsimp only [Function.comp]
  by_cases hid : r.1 = id <;> simp [hid]

end Service

namespace Store

open ArchiveCatalog.Action (Keeps)

variable {s : Store} {service service₀ : Service} {id : String} {p : Product}
  {record record₀ : Metadata} {x : Option Metadata} {t : ProductType}

/-! ## Ids of records -/

theorem ids_update (hschema : s.schema.Regular) (p : Product)
    (change : Metadata → Except CatalogError Metadata) (service : Service) :
    ((s.update p change).run service).2.ids = service.ids := by
  cases hid : p.requireId with
  | error e => rw [update, Action.run_bind, Action.run_ofExcept, hid]
  | ok id =>
    rw [run_update hschema hid]
    cases service.record? id with
    | none => rfl
    | some record =>
      dsimp only
      cases change record with
      | error e => rfl
      | ok changed => exact Service.ids_put

theorem sublist_ids_add (hschema : s.schema.Regular) (r : Registration) (p : Product)
    (service : Service) :
    ((s.add r p).run service).2.ids.Sublist (service.ids ++ [r.freshId]) := by
  rw [add, Action.run_bind, Action.run_ofExcept]
  cases p.requireUnregistered with
  | error e => exact List.sublist_append_left _ _
  | ok _ =>
    dsimp only
    rw [Action.run_bind, Action.run_ofExcept]
    cases s.schema.resolveType p.productType with
    | error e => exact List.sublist_append_left _ _
    | ok t =>
      dsimp only
      rw [Action.run_bind_ok (run_ingest hschema _ _ _), Action.run_pure]
      simp [Service.ids, Service.ingest]

theorem keeps_ids_remove (K : List String) :
    Keeps (fun service => service.ids.Sublist K) (s.removeProduct p) := by
  refine (Action.silent_ofExcept _).keeps.bind fun id => Keeps.bind ?_ fun present => ?_
  · refine (Action.silent_reading _).keeps.bind fun _ => Keeps.bind ?_ fun _ =>
      (Action.silent_pure _).keeps
    exact fun service hservice => (List.filter_sublist.map _).trans hservice
  · cases present with
    | true => exact (Action.silent_pure _).keeps
    | false => exact (Action.silent_throw _).keeps

/-- Only a registration brings an id, and only the one it is given. -/
theorem sublist_ids_perform (hschema : s.schema.Regular) (op : Operation) (service : Service) :
    ((s.catalog.perform op).run service).2.ids.Sublist (service.ids ++ freshIds [op]) := by
  have hstart : service.ids.Sublist (service.ids ++ freshIds [op]) := List.sublist_append_left _ _
  have hupdate : ∀ (p : Product) (change : Metadata → Except CatalogError Metadata),
      Keeps (fun after => after.ids.Sublist (service.ids ++ freshIds [op])) (s.update p change) := by
    intro p change after hafter
    rwa [ids_update hschema]
  cases op with
  | add r p =>
    show (Action.run (do return Answer.product (← s.add r p)) service).2.ids.Sublist _
    rw [Action.run_map]
    exact sublist_ids_add hschema r p service
  | modify p | setStatus p | addReferences p | addMetadata m p | removeMetadata m p =>
    exact (hupdate p _).answer _ service hstart
  | remove p => exact (keeps_ids_remove _).answer _ service hstart
  | _ =>
    rw [silent_perform rfl service]
    exact hstart

/-- Only ids that have been given have records. -/
theorem sublist_ids_after (hschema : s.schema.Regular) (history : List Operation)
    (service : Service) :
    (s.catalog.after service history).ids.Sublist (service.ids ++ freshIds history) := by
  induction history generalizing service with
  | nil => exact List.sublist_append_left _ _
  | cons op rest ih =>
    have hids : freshIds (op :: rest) = freshIds [op] ++ freshIds rest :=
      List.filterMap_append (l := [op])
    rw [hids, ← List.append_assoc]
    exact (ih _).trans ((sublist_ids_perform hschema op service).append_right _)

/-- If no id is given twice, no two records have the same. -/
theorem nodup_ids_after (hschema : s.schema.Regular) {history : List Operation}
    (hfresh : (service.ids ++ freshIds history).Nodup) :
    (s.catalog.after service history).ids.Nodup :=
  hfresh.sublist (sublist_ids_after hschema history service)

/-! ## Metadata of one record -/

/-- The elements of a type whose values are added to records. -/
def addedNames (s : Store) (t : ProductType) : List String :=
  (s.schema.declaredNames t).filter (· ∉ Key.reserved)

/-- The type of the product whose record has an id. -/
def typeStored (s : Store) (service : Service) (id : String) : Except CatalogError ProductType :=
  match service.record? id with
  | some record => readType s.schema record
  | none => .error (.notFound "Product" id)

/-- The elements whose values are added to the product of an id. -/
def addedTo (s : Store) (service : Service) (id : String) : List String :=
  match s.typeStored service id with
  | .ok t => s.addedNames t
  | .error _ => []

/-- The service is another one but for the record of an id, which tells the same of the product
and has other metadata. -/
def Describes (service₀ : Service) (id : String) (record₀ : Metadata) (x : Option Metadata)
    (service : Service) : Prop :=
  ∃ record m, service = service₀.put id record ∧
    (∀ key ∈ Key.reserved, record.values key = record₀.values key) ∧
    x = some m ∧ (withoutReserved record).SameValues m

theorem readType_congr (s : Schema) (h : record.values Key.typeId = record₀.values Key.typeId) :
    readType s record = readType s record₀ := by
  simp only [readType, required, Metadata.first?_eq, h]

/-- Metadata of products have no values under reserved keys. -/
theorem sameValues_add {m other : Metadata} (h : (withoutReserved record).SameValues m)
    (names : List String) :
    (withoutReserved (record.merge (withoutReserved (other.reduce names)))).SameValues
      (m.merge (other.reduce (names.filter (· ∉ Key.reserved)))) := by
  intro e v
  have hbefore := h e v
  rw [values_withoutReserved] at hbefore
  rw [values_withoutReserved, Metadata.values_merge, Metadata.values_merge,
    Metadata.mem_foldl_appendNew, ← hbefore, values_withoutReserved]
  by_cases he : e ∈ Key.reserved
  · simp [he, Metadata.values_reduce]
  · simp [he, Metadata.values_reduce, Metadata.mem_foldl_appendNew]

theorem sameValues_remove {m : Metadata} (h : (withoutReserved record).SameValues m)
    (other : Metadata) :
    (withoutReserved (record.removeValues (withoutReserved other))).SameValues
      (m.removeValues other) := by
  intro e v
  have hbefore := h e v
  rw [values_withoutReserved] at hbefore
  rw [values_withoutReserved, Metadata.values_removeValues, Metadata.values_removeValues,
    List.mem_filter, ← hbefore, values_withoutReserved]
  by_cases he : e ∈ Key.reserved
  · simp [he]
  · simp [he]

theorem values_merge_reserved {key : String} (hkey : key ∈ Key.reserved) (other : Metadata) :
    (record.merge (withoutReserved other)).values key = record.values key := by
  rw [Metadata.values_merge, values_withoutReserved, if_pos hkey]
  rfl

theorem values_removeValues_reserved {key : String} (hkey : key ∈ Key.reserved)
    (other : Metadata) :
    (record.removeValues (withoutReserved other)).values key = record.values key := by
  rw [Metadata.values_removeValues, values_withoutReserved, if_pos hkey]
  simp

/-- A change of the record is described if it leaves the reserved keys alone. -/
theorem Describes.run_update (hschema : s.schema.Regular)
    (hrecord : service₀.record? id = some record₀) {m n : Metadata}
    (h : Describes service₀ id record₀ (some m) service) (hp : p.id = some id)
    {change : Metadata → Except CatalogError Metadata}
    (hchange : ∀ record, (∀ key ∈ Key.reserved, record.values key = record₀.values key) →
      (withoutReserved record).SameValues m → ∃ changed, change record = .ok changed ∧
        (∀ key ∈ Key.reserved, changed.values key = record.values key) ∧
        (withoutReserved changed).SameValues n) :
    ∃ after, (s.update p change).run service = (.ok (), after) ∧
      Describes service₀ id record₀ (some n) after := by
  rcases h with ⟨record, m, rfl, hreserved, hm, hsame⟩
  cases hm
  rcases hchange record hreserved hsame with ⟨changed, hchanged, hkept, hafter⟩
  have hrun := Store.run_update hschema (Product.requireId_of_id hp) (service₀.put id record) change
  rw [Service.record?_put hrecord] at hrun
  dsimp only at hrun
  rw [hchanged] at hrun
  refine ⟨_, hrun, changed, n, Service.put_put, ?_, rfl, hafter⟩
  exact fun key hkey => (hkept key hkey).trans (hreserved key hkey)

/-- Metadata are added if the type of the product is found. -/
theorem Describes.run_addMetadata (hschema : s.schema.Regular)
    (hrecord : service₀.record? id = some record₀) {m : Metadata}
    (h : Describes service₀ id record₀ (some m) service) (hp : p.id = some id)
    (ht : readType s.schema record₀ = .ok t) (other : Metadata) :
    ∃ after, (s.addMetadata other p).run service = (.ok (), after) ∧
      Describes service₀ id record₀ (some (m.merge (other.reduce (s.addedNames t)))) after := by
  refine h.run_update hschema hrecord hp fun record hreserved hsame =>
    ⟨record.merge (withoutReserved (other.reduce (s.schema.declaredNames t))), ?_,
      fun _ hkey => values_merge_reserved hkey _, sameValues_add hsame _⟩
  rw [readType_congr s.schema (hreserved _ (by decide)), ht]
  simp only [bind, Except.bind, hschema.declaredMetadata_eq]
  rfl

/-- Otherwise nothing happens. -/
theorem Describes.run_addMetadata_error (hschema : s.schema.Regular)
    (hrecord : service₀.record? id = some record₀)
    (h : Describes service₀ id record₀ x service) (hp : p.id = some id) {e : CatalogError}
    (ht : readType s.schema record₀ = .error e) (other : Metadata) :
    (s.addMetadata other p).run service = (.error e, service) := by
  rcases h with ⟨record, m, rfl, hreserved, -, -⟩
  rw [addMetadata, Store.run_update hschema (Product.requireId_of_id hp), Service.record?_put hrecord]
  dsimp only
  rw [readType_congr s.schema (hreserved _ (by decide)), ht]
  rfl

/-- What is removed are no values under reserved keys. -/
theorem Describes.run_removeMetadata (hschema : s.schema.Regular)
    (hrecord : service₀.record? id = some record₀) {m : Metadata}
    (h : Describes service₀ id record₀ (some m) service) (hp : p.id = some id)
    (other : Metadata) :
    ∃ after, (s.removeMetadata other p).run service = (.ok (), after) ∧
      Describes service₀ id record₀ (some (m.removeValues other)) after :=
  h.run_update hschema hrecord hp fun _ _ hsame =>
    ⟨_, rfl, fun _ hkey => values_removeValues_reserved hkey _, sameValues_remove hsame other⟩

/-- Where no type is found, nothing is added. -/
theorem Describes.add_nothing {m : Metadata} (h : Describes service₀ id record₀ (some m) service)
    (other : Metadata) :
    Describes service₀ id record₀ (some (m.merge (other.reduce []))) service := by
  rcases h with ⟨record, m, hput, hreserved, hm, hsame⟩
  cases hm
  refine ⟨record, _, hput, hreserved, rfl, fun e v => (hsame e v).trans ?_⟩
  rw [Metadata.values_merge, Metadata.values_reduce]
  rfl

/-- Calls change what is described as they say, and succeed if the type of the product is found. -/
theorem Describes.run_perform (hschema : s.schema.Regular)
    (hrecord : service₀.record? id = some record₀) (h : Describes service₀ id record₀ x service)
    (hp : p.id = some id) (call : Edit) :
    Describes service₀ id record₀ (call.on (s.addedTo service₀ id) x)
      ((s.catalog.perform (call.operation p)).run service).2 ∧
    ∀ t, s.typeStored service₀ id = .ok t →
      ((s.catalog.perform (call.operation p)).run service).1 = .ok .done := by
  obtain ⟨m, rfl⟩ : ∃ m, x = some m := by
    rcases h with ⟨-, m, -, -, hx, -⟩
    exact ⟨m, hx⟩
  have hstored : s.typeStored service₀ id = readType s.schema record₀ := by
    rw [typeStored, hrecord]
  cases call with
  | add other =>
    cases ht : readType s.schema record₀ with
    | ok t =>
      rcases h.run_addMetadata hschema hrecord hp ht other with ⟨after, hrun, hafter⟩
      have hperform : (s.catalog.perform (.addMetadata other p)).run service =
          (.ok .done, after) := Action.run_bind_ok hrun
      have hadded : s.addedTo service₀ id = s.addedNames t := by
        rw [addedTo, hstored, ht]
      rw [Edit.operation, hperform, hadded]
      exact ⟨hafter, fun _ _ => rfl⟩
    | error e =>
      have hperform : (s.catalog.perform (.addMetadata other p)).run service =
          (.error e, service) :=
        Action.run_bind_error (h.run_addMetadata_error hschema hrecord hp ht other)
      have hadded : s.addedTo service₀ id = [] := by
        rw [addedTo, hstored, ht]
      rw [Edit.operation, hperform, hadded]
      refine ⟨h.add_nothing other, fun t hok => ?_⟩
      rw [hstored, ht] at hok
      cases hok
  | remove other =>
    rcases h.run_removeMetadata hschema hrecord hp other with ⟨after, hrun, hafter⟩
    have hperform : (s.catalog.perform (.removeMetadata other p)).run service =
        (.ok .done, after) := Action.run_bind_ok hrun
    rw [Edit.operation, hperform]
    exact ⟨hafter, fun _ _ => rfl⟩

/-- The metadata of a record are tracked. -/
theorem tracks (hschema : s.schema.Regular) (hrecord : service₀.record? id = some record₀) :
    s.catalog.Tracks id (s.addedTo service₀ id) (Describes service₀ id record₀) := by
  refine ⟨fun p call x service hp h => (h.run_perform hschema hrecord hp call).1, ?_, ?_, ?_⟩
  · rintro p m service hp ⟨record, n, rfl, -, hmn, hsame⟩
    cases hmn
    refine ⟨withoutReserved record, ?_, hsame⟩
    show ((s.metadata p).run _).1 = _
    rw [metadata, Action.run_bind, Action.run_ofExcept, Product.requireId_of_id hp]
    dsimp only
    rw [Action.run_map, run_storedRecord_of_record? hschema, Service.record?_put hrecord]
    rfl
  · rintro p service hp ⟨-, m, -, -, hnone, -⟩
    cases hnone
  · rintro q u x y service after ⟨record, m, rfl, hreserved, rfl, hm⟩
      ⟨other, n, rfl, hreserved', rfl, hn⟩ - hsame
    -- under reserved keys both have what was there, under others they have the same
    have hvalues : record.SameValues other := by
      intro e v
      by_cases he : e ∈ Key.reserved
      · rw [hreserved e he, hreserved' e he]
      · have hboth := ((hm e v).trans (hsame e v)).trans (hn e v).symm
        rwa [values_withoutReserved, values_withoutReserved, if_neg he, if_neg he] at hboth
    show ((s.query q u).run _).1 = ((s.query q u).run _).1
    rw [query, Action.run_bind, Action.run_bind, Action.run_ofExcept, Action.run_ofExcept]
    cases s.restricted q u with
    | error f => rfl
    | ok found =>
      dsimp only
      rw [Remote.query, run_ask hschema, run_ask hschema]
      exact congrArg Except.ok (Service.matching_put_congr
        (Query.holds_congr fun element _ => hvalues element))

/-- Without a record every call fails. -/
theorem run_perform_none (hschema : s.schema.Regular) (hnone : service.record? id = none)
    (hp : p.id = some id) (call : Edit) :
    (s.catalog.perform (call.operation p)).run service = (.error (.notFound "Product" id), service) := by
  have hupdate : ∀ change, (s.update p change).run service =
      (.error (.notFound "Product" id), service) := by
    intro change
    rw [run_update hschema (Product.requireId_of_id hp), hnone]
  cases call with
  | add m => exact Action.run_bind_error (hupdate _)
  | remove m => exact Action.run_bind_error (hupdate _)

theorem describes (hkeys : service.ids.Nodup) (hrecord : service.record? id = some record) :
    Describes service id record (some (withoutReserved record)) service :=
  ⟨record, _, (Service.put_self hkeys hrecord).symm, fun _ _ => rfl, rfl, fun _ _ => Iff.rfl⟩

theorem readType_of_readProduct {stored : Product}
    (h : readProduct s.schema id record = .ok stored) :
    readType s.schema record = .ok stored.productType := by
  rcases Action.bind_eq_ok_iff.1 h with ⟨references, -, h⟩
  rcases Action.bind_eq_ok_iff.1 h with ⟨received, -, h⟩
  rcases Action.bind_eq_ok_iff.1 h with ⟨name, -, h⟩
  rcases Action.bind_eq_ok_iff.1 h with ⟨t, ht, h⟩
  rcases Action.bind_eq_ok_iff.1 h with ⟨_, -, h⟩
  rcases Action.bind_eq_ok_iff.1 h with ⟨structure_, -, h⟩
  rcases Action.bind_eq_ok_iff.1 h with ⟨_, -, h⟩
  rcases Action.bind_eq_ok_iff.1 h with ⟨status, -, h⟩
  cases h
  exact ht

/-- A product that is found is of the type that is stored. -/
theorem typeStored_of_load (hschema : s.schema.Regular) {stored : Product}
    (hstored : ((s.load id).run service).1 = .ok stored) :
    ∃ record, service.record? id = some record ∧
      s.typeStored service id = .ok stored.productType := by
  rw [load, Action.run_bind, run_storedRecord_of_record? hschema] at hstored
  unfold typeStored
  cases hrecord : service.record? id with
  | none =>
    rw [hrecord] at hstored
    cases hstored
  | some record =>
    rw [hrecord] at hstored
    dsimp only at hstored
    rw [Action.run_ofExcept] at hstored
    exact ⟨record, rfl, readType_of_readProduct hstored⟩

variable {ι : Type} [DecidableEq ι] {copies : ι → Product} {calls : ι → List Edit}

/-- Writers of a product lose nothing. -/
theorem losesNothing (hschema : s.schema.Regular) (hkeys : service.ids.Nodup) (id : String)
    (hcopies : ∀ w, (copies w).id = some id) (hapart : Apart calls) :
    s.catalog.LosesNothing service id (s.addedTo service id) copies calls := by
  cases hrecord : service.record? id with
  | some record =>
    exact (tracks hschema hrecord).losesNothing hcopies hapart (describes hkeys hrecord)
  | none =>
    have hadded : s.addedTo service id = [] := by
      rw [addedTo, typeStored, hrecord]
    rw [hadded]
    refine Catalog.losesNothing_of_fails ?_ ?_ hcopies
    · intro p call hp
      rw [run_perform_none hschema hrecord hp]
    · intro p hp
      refine ⟨.notFound "Product" id, ?_⟩
      show ((s.metadata p).run service).1 = _
      rw [metadata, Action.run_bind, Action.run_ofExcept, Product.requireId_of_id hp]
      dsimp only
      rw [Action.run_map, run_storedRecord_of_record? hschema, hrecord]
      rfl

/-- If the product is found, they succeed. -/
theorem succeeds (hschema : s.schema.Regular) (hkeys : service.ids.Nodup) {stored : Product}
    (hstored : ((s.load id).run service).1 = .ok stored)
    (hcopies : ∀ w, (copies w).id = some id) :
    s.addedTo service id = s.addedNames stored.productType ∧
      s.catalog.Succeeds service id copies calls := by
  rcases typeStored_of_load hschema hstored with ⟨record, hrecord, ht⟩
  refine ⟨by rw [addedTo, ht], (tracks hschema hrecord).succeeds ?_ hcopies
    (describes hkeys hrecord)⟩
  exact fun p call x after hp h => (h.run_perform hschema hrecord hp call).2 _ ht

end Store

end ArchiveCatalog.Remote

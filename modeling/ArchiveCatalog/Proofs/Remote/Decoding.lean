import ArchiveCatalog.Proofs.Remote.Writers

namespace ArchiveCatalog.Remote

/-! # Records that are decoded

A product is decoded from its record, which names its type by the id. A record is only ever
replaced by one that is read back in full, with the same type, so a product that was registered
stays decodable until it is removed, whatever the records of others say.
-/

namespace Service

variable {service : Service} {id other : String} {record : Metadata}

theorem record?_put_of_ne (hother : id ≠ other) :
    (service.put other record).record? id = service.record? id := by
  rcases service with ⟨records⟩
  unfold record? put
  dsimp only
  induction records with
  | nil => rfl
  | cons r rest ih =>
    rcases r with ⟨key, stored⟩
    rw [List.map_cons, lookup_cons_ite]
    by_cases hkey : key = other
    · subst hkey
      rw [if_pos rfl, lookup_cons_ite, if_neg hother, if_neg hother, ih]
    · rw [if_neg hkey, lookup_cons_ite, ih]

theorem record?_erase_of_ne (hother : id ≠ other) :
    (service.erase other).record? id = service.record? id :=
  (lookup_filter_ne other service.records id).trans (if_neg hother)

theorem record?_ingest_of_none (hnone : service.record? id = none) :
    (service.ingest id record).record? id = some record := by
  unfold record? at hnone
  unfold record? ingest
  dsimp only
  rw [List.lookup_append, hnone]
  simp

theorem record?_ingest_of_some {stored : Metadata} (hfound : service.record? id = some stored) :
    (service.ingest other record).record? id = some stored := by
  unfold record? at hfound
  unfold record? ingest
  dsimp only
  rw [List.lookup_append, hfound]
  rfl

end Service

namespace Store

open ArchiveCatalog.Action (Keeps)

variable {s : Store} {service : Service} {id : String} {t : ProductType} {p : Product}

/-- The record of the id is that of an entry of the type. -/
def Records (s : Store) (id : String) (t : ProductType) (service : Service) : Prop :=
  ∃ e, s.Whole e ∧ e.key = id ∧ e.product.productType = t ∧ service.record? id = some (record e)

/-! ## Writes -/

theorem keepsRecords_update (hschema : s.schema.Regular)
    {change : Metadata → Except CatalogError Metadata}
    {edit : Entry String → Except CatalogError (Entry String)} (hedits : s.Edits change edit) :
    Keeps (s.Records id t) (s.update p change) := by
  rintro service ⟨e, hwhole, hkey, htype, hrecord⟩
  cases hid : p.requireId with
  | error f =>
    rw [update, Action.run_bind, Action.run_ofExcept, hid]
    exact ⟨e, hwhole, hkey, htype, hrecord⟩
  | ok other =>
    rw [run_update hschema hid]
    by_cases hother : id = other
    · -- the record is that of an entry, and the changed one that of the edited entry
      subst hother
      rcases hedits e hwhole with ⟨e', -, hchanged, hwhole', hkey', htype'⟩
      rw [hrecord]
      dsimp only
      rw [hchanged]
      exact ⟨e', hwhole', hkey'.trans hkey, htype'.trans htype, Service.record?_put hrecord⟩
    · -- whatever becomes of the other record, this one stays
      refine ⟨e, hwhole, hkey, htype, ?_⟩
      split
      next stored hstored =>
        split
        next changed hchanged => exact (Service.record?_put_of_ne hother).trans hrecord
        next => exact hrecord
      next => exact hrecord

theorem keepsRecords_add (hschema : s.schema.Regular) (r : Registration) :
    Keeps (s.Records id t) (s.add r p) := by
  refine (Action.silent_ofExcept _).keeps.bind fun _ => (Action.silent_ofExcept _).keeps.bind
    fun u => Keeps.bind ?_ fun _ => (Action.silent_pure _).keeps
  rintro service ⟨e, hwhole, hkey, htype, hrecord⟩
  rw [run_ingest hschema]
  exact ⟨e, hwhole, hkey, htype, Service.record?_ingest_of_some hrecord⟩

theorem keepsRecords_remove (hschema : s.schema.Regular) (hother : p.id ≠ some id) :
    Keeps (s.Records id t) (s.removeProduct p) := by
  rintro service ⟨e, hwhole, hkey, htype, hrecord⟩
  cases hid : p.requireId with
  | error f =>
    rw [removeProduct, Action.run_bind, Action.run_ofExcept, hid]
    exact ⟨e, hwhole, hkey, htype, hrecord⟩
  | ok removed =>
    have hne : id ≠ removed := by
      rintro rfl
      exact hother (Product.id_of_requireId hid)
    rw [run_removeProduct hschema hid]
    exact ⟨e, hwhole, hkey, htype, (Service.record?_erase_of_ne hne).trans hrecord⟩

/-- Every operation keeps the record of a product as one of its type, if it does not remove it. -/
theorem keepsRecords_perform (hschema : s.schema.Regular) {op : Operation} (hfits : FitsWords op)
    (hkept : ∀ q, op = .remove q → q.id ≠ some id) :
    Keeps (s.Records id t) (s.catalog.perform op) := by
  cases op with
  | add r p => exact (keepsRecords_add hschema r).answer _
  | modify p => exact (keepsRecords_update hschema (edits_modify hfits)).answer _
  | remove p => exact (keepsRecords_remove hschema (hkept p rfl)).answer _
  | setStatus p => exact (keepsRecords_update hschema edits_status).answer _
  | addReferences p => exact (keepsRecords_update hschema (edits_references hfits)).answer _
  | addMetadata m p =>
    exact (keepsRecords_update hschema (edits_addUnreserved hschema m)).answer _
  | removeMetadata m p => exact (keepsRecords_update hschema (edits_removeMetadata m)).answer _
  | _ => exact (silent_perform rfl).keeps

theorem Records.after (hschema : s.schema.Regular) {history : List Operation}
    (hfits : ∀ op ∈ history, FitsWords op) (hkept : ∀ q, .remove q ∈ history → q.id ≠ some id)
    (h : s.Records id t service) : s.Records id t (s.catalog.after service history) := by
  refine Catalog.after_induction (fun op hop => keepsRecords_perform hschema (hfits op hop) ?_) h
  rintro q rfl
  exact hkept q hop

/-! ## Registering and decoding -/

/-- A product that is registered gets the type that its type is resolved to, and a record. -/
theorem records_of_run_add (hschema : s.schema.Regular) {r : Registration} {stored : Product}
    {after : Service} (hnew : service.record? r.freshId = none)
    (hmillis : Text.fitsInt64 r.millis = true) (hsizes : ∀ f ∈ p.references, Json.CountsSize f)
    (hadd : (s.add r p).run service = (.ok stored, after)) (hid : stored.productType.id ≠ "") :
    s.schema.resolveType p.productType = .ok stored.productType ∧ stored.id = some r.freshId ∧
      s.Records r.freshId stored.productType after := by
  rcases Action.run_ofExcept_bind_eq_ok hadd with ⟨_, -, hrest⟩
  rcases Action.run_ofExcept_bind_eq_ok hrest with ⟨u, hresolved, hwritten⟩
  dsimp only at hwritten
  rw [Action.run_bind_ok (run_ingest hschema _ _ _)] at hwritten
  cases hwritten
  have htype := (hschema.typeById_iff_of_resolveType hresolved).2 hid
  refine ⟨hresolved, rfl, registered r p u, ?_, rfl, rfl, ?_⟩
  · exact ⟨rfl, htype, rfl, hmillis, hsizes, .empty, unreserved_empty⟩
  · exact Service.record?_ingest_of_none hnew

/-- The record of a product is decoded with the type of the product. -/
theorem Records.findsAgain (hschema : s.schema.Regular) {stored : Product}
    (hid : stored.id = some id) (h : s.Records id stored.productType service) :
    s.catalog.FindsAgain service stored := by
  rcases h with ⟨e, hwhole, rfl, htype, hrecord⟩
  refine ⟨e.key, e.product, hid, ?_, hwhole.id.trans hid.symm, htype⟩
  show ((s.load e.key).run service).1 = .ok e.product
  rw [load, Action.run_bind, run_storedRecord_of_record? hschema, hrecord]
  exact hwhole.readProduct

/-- What is registered is decoded with its type until it is removed, if the type has an id. -/
theorem findsAgain_of_run_add (hschema : s.schema.Regular) {before later : List Operation}
    {r : Registration} {stored : Product} {after : Service}
    (hfresh : (freshIds (before ++ .add r p :: later)).Nodup)
    (hfits : ∀ op ∈ .add r p :: later, FitsWords op)
    (hadd : (s.add r p).run (s.catalog.after .empty before) = (.ok stored, after))
    (hid : stored.productType.id ≠ "") (hkept : ∀ q, .remove q ∈ later → q.id ≠ stored.id) :
    s.schema.resolveType p.productType = .ok stored.productType ∧
      s.catalog.FindsAgain (s.catalog.after after later) stored := by
  have hnew : (s.catalog.after .empty before).record? r.freshId = none := by
    refine List.lookup_eq_none_iff.2 ?_
    rintro ⟨key, record⟩ hrecord
    have hgiven : key ∈ freshIds before :=
      (sublist_ids_after hschema before .empty).subset (List.mem_map_of_mem hrecord)
    refine bne_iff_ne.2 ?_
    rintro rfl
    exact (freshId_not_mem hfresh).1 hgiven
  have hplaced : FitsWords (.add r p) := hfits _ List.mem_cons_self
  rcases records_of_run_add hschema hnew hplaced.1 hplaced.2 hadd hid with
    ⟨hresolved, hstored, hrecords⟩
  rw [hstored] at hkept
  refine ⟨hresolved, Records.findsAgain hschema hstored (hrecords.after hschema ?_ hkept)⟩
  exact fun op hop => hfits op (List.mem_cons_of_mem _ hop)

end Store

end ArchiveCatalog.Remote

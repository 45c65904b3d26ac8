import ArchiveCatalog.Proofs.Inverted.Slots
import ArchiveCatalog.Relational.Store
import ArchiveCatalog.Remote.Store

namespace ArchiveCatalog

/-! # Failed writes

A write that fails leaves no trace, on whichever backend and at whichever call to a collaborator:
a relational write is rolled back, a remote one stores nothing before its last call, and an index
write puts the slot of its product back as it found it.
-/

/-! ## Catalogs on which failed writes leave no trace -/

/-- A write that fails on a state leaves one that is the same and answers every read alike; a
product that cannot be registered stays as its caller gave it. -/
structure FailsWithoutTrace {σ : Type} (c : Outage → Catalog σ) (same : σ → σ → Prop) (s : σ) :
    Prop where
  state : ∀ o op e s', op.isWrite = true → ((c o).perform op).run s = (.error e, s') → same s' s
  reads : ∀ o op e s', op.isWrite = true → ((c o).perform op).run s = (.error e, s') →
    ∀ o' read, read.isWrite = false →
      (((c o').perform read).run s').1 = (((c o').perform read).run s).1
  callers : ∀ o r p e after, ((c o).addInPlace r).run (p, s) = (.error e, after) →
    after.1 = p ∧ same after.2 s

/-- If the same states are equal, the state itself is left. -/
theorem FailsWithoutTrace.run_eq {σ : Type} {c : Outage → Catalog σ} {s : σ}
    (h : FailsWithoutTrace c Eq s) {o : Outage} {op : Operation} {e : CatalogError}
    (hwrite : op.isWrite = true) (herror : (((c o).perform op).run s).1 = .error e) :
    ((c o).perform op).run s = (.error e, s) := by
  have hrun : ((c o).perform op).run s = (.error e, (((c o).perform op).run s).2) :=
    Prod.ext herror rfl
  rw [h.state o op e _ hwrite hrun] at hrun
  exact hrun

namespace Catalog

variable {σ : Type} {c : Outage → Catalog σ} {same : σ → σ → Prop} {s : σ}

/-- A product that cannot be registered is not replaced. -/
theorem run_addInPlace_error {c : Catalog σ} {r : Registration} {p : Product} {e : CatalogError}
    {after : Product × σ} (h : (c.addInPlace r).run (p, s) = (.error e, after)) :
    after.1 = p ∧ (c.add r p).run s = (.error e, after.2) := by
  rw [addInPlace, Action.run_bind_ok (Action.run_get _), Action.run_bind, Action.run_within] at h
  dsimp only at h
  rcases hrun : (c.add r p).run s with ⟨answer, s'⟩
  rw [hrun] at h
  cases answer with
  | ok stored => cases h
  | error e' =>
    cases h
    exact ⟨rfl, rfl⟩

/-- It is enough that writes fail so, if reads cannot tell the same states apart. -/
theorem failsWithoutTrace_of_writes
    (hwrites : ∀ o op e s', op.isWrite = true → ((c o).perform op).run s = (.error e, s') →
      same s' s)
    (hreads : ∀ o read s', read.isWrite = false → same s' s →
      (((c o).perform read).run s').1 = (((c o).perform read).run s).1) :
    FailsWithoutTrace c same s := by
  refine ⟨hwrites, ?_, ?_⟩
  · intro o op e s' hwrite hfails o' read hread
    exact hreads o' read s' hread (hwrites o op e s' hwrite hfails)
  · intro o r p e after hfails
    rcases run_addInPlace_error hfails with ⟨hcaller, hadd⟩
    refine ⟨hcaller, hwrites o (.add r p) e after.2 rfl ?_⟩
    exact Action.run_bind_error hadd

/-- Writes that undo what they did are enough for every state. -/
theorem failsWithoutTrace_of_atomic
    (hatomic : ∀ o op, op.isWrite = true → Action.Atomic ((c o).perform op)) (s : σ) :
    FailsWithoutTrace c Eq s :=
  failsWithoutTrace_of_writes (fun o op e s' hwrite => hatomic o op hwrite s s' e)
    fun _ _ _ _ hsame => by rw [hsame]

end Catalog

/-! ## Relational writes -/

namespace Relational.Store

variable (s : Store) (p : Product)

/-- The relational catalog while calls to collaborators fail. -/
def catalogDuring (o : Outage) : Catalog Database :=
  Store.catalog { s with schema := s.schema.during o }

theorem atomic_add (r : Registration) : Action.Atomic (s.add r p) :=
  (Action.silent_ofExcept _).bind_atomic fun _ => (Action.silent_ofExcept _).bind_atomic fun t =>
    (Action.atomic_atomically _).answer fun id : Int => { p with
      id := some (toString id), productType := t, received := Instant.ofMillis? r.millis }

/-- A write other than a registration is one transaction. -/
theorem atomic_transaction {f : Int → Action Database Unit} :
    Action.Atomic (do Action.atomically (f (← .ofExcept (numberOf p)))) :=
  (Action.silent_ofExcept _).bind_atomic fun _ => Action.atomic_atomically _

theorem atomic_perform {op : Operation} (hwrite : op.isWrite = true) :
    Action.Atomic (s.catalog.perform op) := by
  cases op with
  | add r p => exact (s.atomic_add p r).answer _
  | modify p | remove p | setStatus p | addReferences p | addMetadata m p | removeMetadata m p =>
    exact (atomic_transaction p).answer _
  | _ => cases hwrite

end Relational.Store

/-! ## Remote writes -/

/-- Of a call that is answered the answer is passed on. -/
theorem Outage.answer_of_guard {α : Type} {o : Outage} {q : Question} {x y : α}
    (h : o.guard q (.ok x) = .ok y) : x = y := by
  unfold Outage.guard at h
  split at h
  · cases h
  · exact Except.ok.inj h

namespace Remote

/-- Nothing is erased under an id without a record. -/
theorem Service.erase_of_record? {service : Service} {id : String}
    (hnone : service.record? id = none) : service.erase id = service := by
  have hkept : service.records.filter (·.1 != id) = service.records := by
    apply List.filter_eq_self.2
    intro record hrecord
    have hother := List.lookup_eq_none_iff.1 hnone record hrecord
    exact bne_comm.trans hother
  exact congrArg Service.mk hkept

namespace Store

variable (s : Store) (p : Product)

/-- The remote catalog while calls to collaborators fail. -/
def catalogDuring (o : Outage) : Catalog Service :=
  Store.catalog { s with schema := s.schema.during o }

theorem silent_storedRecord (id : String) : Action.Silent (s.storedRecord id) := by
  apply (Action.silent_reading _).bind
  intro record
  cases record with
  | some record => exact Action.silent_pure _
  | none => exact Action.silent_throw _

theorem atomic_ingest (o : Outage) (freshId : String) (record : Metadata) :
    Action.Atomic (ingest o freshId record) := (Action.atomic_changing _).answer fun _ => freshId

theorem atomic_add (r : Registration) : Action.Atomic (s.add r p) :=
  (Action.silent_ofExcept _).bind_atomic fun _ => (Action.silent_ofExcept _).bind_atomic fun t =>
    (atomic_ingest _ _ _).answer fun id : String => { p with
      id := some id, productType := t, received := Instant.ofMillis? r.millis }

/-- A changed record is stored last. -/
theorem atomic_update (change : Metadata → Except CatalogError Metadata) :
    Action.Atomic (s.update p change) :=
  (Action.silent_ofExcept _).bind_atomic fun id => (s.silent_storedRecord id).bind_atomic fun _ =>
    (Action.silent_ofExcept _).bind_atomic fun _ => Action.atomic_changing _

/-- A removal fails only if the service does not answer or there is nothing to remove. -/
theorem atomic_removeProduct : Action.Atomic (s.removeProduct p) := by
  refine (Action.silent_ofExcept _).bind_atomic fun id => ?_
  intro service service' e hfails
  have hask : (ask s.outage .remove fun service => (service.record? id).isSome).run service =
      (s.outage.guard .remove (.ok (service.record? id).isSome), service) := rfl
  rw [Action.run_bind, Remote.remove] at hfails
  cases hguard : s.outage.guard .remove (.ok (service.record? id).isSome) with
  | error f =>
    rw [hguard] at hask
    rw [Action.run_bind_error hask] at hfails
    cases hfails
    rfl
  | ok present =>
    rw [hguard] at hask
    rw [Action.run_bind_ok hask] at hfails
    obtain rfl := Outage.answer_of_guard hguard
    cases hrecord : service.record? id with
    | some record =>
      rw [hrecord] at hfails
      cases hfails
    | none =>
      rw [hrecord] at hfails
      cases hfails
      exact Service.erase_of_record? hrecord

theorem atomic_perform {op : Operation} (hwrite : op.isWrite = true) :
    Action.Atomic (s.catalog.perform op) := by
  cases op with
  | add r p => exact (s.atomic_add p r).answer _
  | remove p => exact (s.atomic_removeProduct p).answer _
  | modify p | setStatus p | addReferences p | addMetadata m p | removeMetadata m p =>
    exact (s.atomic_update p _).answer _
  | _ => cases hwrite

end Store

end Remote

/-! ## Index writes -/

namespace Inverted

open ArchiveCatalog.Action (Ends Matches)

namespace AssemblyCache

/-- A full slot stays when it is released, a new one goes again. -/
theorem Filled.slot?_release_reserve {c : AssemblyCache} (h : c.Filled none) (id other : String) :
    ((c.reserve id).release id).slot? other = c.slot? other := by
  rw [slot?_release, slot?_reserve, slot?_reserve, if_pos rfl]
  split
  · rename_i hother
    rw [hother, slotOrNew]
    cases hslot : c.slot? id with
    | none => rfl
    | some slot =>
      have hfull : slot.pending.isSome = true := h.full id slot hslot (by simp)
      rw [Option.getD_some, Option.filter_some, hfull]
      rfl
  · rfl

end AssemblyCache

namespace Store

variable {s : Store} {a b : Archive} {id : String} {p : Product}

/-- If the action fails it leaves no trace. -/
abbrev Traceless {α : Type} (action : Action Archive α) (a : Archive) : Prop :=
  Ends action a (fun _ => True) (Archive.Alike · a)

/-- What leaves no trace within a slot leaves none around it. -/
theorem traceless_withSlot {action : Action Archive Unit} (ha : Filled a)
    (haction : ∀ b, (b.cache.slot? id).isSome = true → Traceless action b) :
    Traceless (withSlot id action) a := by
  have hslot : ((a.cache.reserve id).slot? id).isSome = true := by
    rw [AssemblyCache.slot?_reserve, if_pos rfl]
    rfl
  have hends := haction { a with cache := a.cache.reserve id } hslot
  have hrun : (withSlot id action).run a =
      ((action.run { a with cache := a.cache.reserve id }).1,
        { (action.run { a with cache := a.cache.reserve id }).2 with
          cache := (action.run { a with cache := a.cache.reserve id }).2.cache.release id }) := rfl
  unfold Traceless Ends at hends ⊢
  rw [hrun]
  rcases hwithin : action.run { a with cache := a.cache.reserve id } with ⟨answer, c⟩
  rw [hwithin] at hends
  cases answer with
  | ok _ => trivial
  | error e =>
    refine ⟨hends.1, fun other => ?_⟩
    refine Eq.trans ?_ (AssemblyCache.Filled.slot?_release_reserve ha id other)
    show (c.cache.release id).slot? other = ((a.cache.reserve id).release id).slot? other
    rw [AssemblyCache.slot?_release, AssemblyCache.slot?_release, hends.2, hends.2]

theorem traceless_mutate (ha : Filled a) {change : Action Pending Unit}
    (hatomic : Action.Atomic change) : Traceless (s.mutate p change) a :=
  Action.ends_ofExcept_bind (.refl a) fun _ _ => traceless_withSlot ha fun _ hslot =>
    ends_changeInSlot hatomic hslot (fun _ _ _ _ _ _ => trivial) fun _ halike => halike

/-- Once the slot is made a registration does not fail. -/
theorem traceless_add (r : Registration) : Traceless (s.add r p) a :=
  Action.ends_ofExcept_bind (.refl a) fun _ _ => Action.ends_ofExcept_bind (.refl a) fun _ _ =>
    Action.ends_of_ok rfl trivial

theorem traceless_remove (ha : Filled a) : Traceless (remove p) a := by
  refine Action.ends_ofExcept_bind (.refl a) fun id _ => traceless_withSlot ha fun b _ => ?_
  rw [eraseInSlot]
  refine Action.silent_get.ends_bind (.refl b) fun b' => ?_
  split
  · exact Action.ends_of_ok (Action.run_set b _) trivial
  · exact ((silent_requireDocument id).bind fun _ => Action.silent_pure _).ends_bind (.refl b)
      fun _ => Action.ends_of_ok (Action.run_set b _) trivial

/-- A write that fails leaves the same documents and the same slots with the same in them. -/
theorem traceless_perform (ha : Filled a) {op : Operation} (hwrite : op.isWrite = true) :
    Traceless (s.catalog.perform op) a := by
  cases op with
  | add r p => exact (traceless_add r).answer _
  | remove p => exact (traceless_remove ha).answer _
  | addMetadata m p =>
    exact (traceless_mutate ha (s.atomic_mergeDeclared m)).answer _
  | modify p | setStatus p | addReferences p | removeMetadata m p =>
    exact (traceless_mutate ha (Action.atomic_modify _)).answer _
  | _ => cases hwrite

/-! ### Reads of the index -/

/-- What the action answers depends on the documents only, which it keeps. -/
abbrev ReadsDocuments {α : Type} (action : Action Archive α) : Prop :=
  Matches (fun a b => a.documents = b.documents) action action

theorem readsDocuments_reading {α : Type} {f : Archive → Except CatalogError α}
    (hf : ∀ a b : Archive, a.documents = b.documents → f a = f b) :
    ReadsDocuments (.reading f) := fun a b hsame => ⟨hf a b hsame, hsame⟩

theorem readsDocuments_requireDocument (id : String) : ReadsDocuments (requireDocument id) := by
  apply readsDocuments_reading
  intro a b hsame
  rw [Archive.document?, Archive.document?, hsame]

theorem readsDocuments_productsFound (search : Search) :
    ReadsDocuments (s.productsFound search) := by
  apply readsDocuments_reading
  intro a b hsame
  rw [hsame]

theorem readsDocuments_byId (id : String) : ReadsDocuments (s.byId id) :=
  (readsDocuments_requireDocument id).bind fun _ => Action.matches_ofExcept _

theorem readsDocuments_byName (name : String) : ReadsDocuments (s.byName name) := by
  apply (readsDocuments_productsFound _).bind
  intro found
  split
  · exact Action.matches_throw _
  · exact Action.matches_pure _
  · exact Action.matches_throw _

theorem readsDocuments_productsOfType (t : ProductType) : ReadsDocuments (s.productsOfType t) :=
  (Action.matches_ofExcept _).bind fun _ => readsDocuments_productsFound _

theorem readsDocuments_matching (q : Query) (t : ProductType) : ReadsDocuments (s.matching q t) :=
  (Action.matches_ofExcept _).bind fun _ => (Action.matches_ofExcept _).bind fun _ =>
    readsDocuments_productsFound _

theorem readsDocuments_count (t : ProductType) : ReadsDocuments (s.count t) := by
  apply (Action.matches_ofExcept _).bind
  intro t a b hsame
  refine ⟨?_, hsame⟩
  show Except.ok (a.documents.filter fun d => (Search.ofType t.id).accepts d).length =
    Except.ok (b.documents.filter fun d => (Search.ofType t.id).accepts d).length
  rw [hsame]

theorem readsDocuments_perform {op : Operation} (hread : op.isWrite = false) :
    ReadsDocuments (s.catalog.perform op) := by
  cases op with
  | add r p | modify p | remove p | setStatus p | addReferences p | addMetadata m p
  | removeMetadata m p => cases hread
  | byId id => exact (readsDocuments_byId id).answer _
  | byName name => exact (readsDocuments_byName name).answer _
  | references p =>
    exact ((Action.matches_ofExcept _).bind fun id => (readsDocuments_byId id).answer _).answer _
  | products => exact (readsDocuments_productsFound _).answer _
  | productsOfType t => exact (readsDocuments_productsOfType t).answer _
  | metadata p =>
    exact ((Action.matches_ofExcept _).bind fun id =>
      (readsDocuments_requireDocument id).answer _).answer _
  | query q t => exact ((readsDocuments_matching q t).answer _).answer _
  | page q t number =>
    exact ((readsDocuments_matching q t).bind fun _ =>
      (Action.matches_ofExcept _).answer _).answer _
  | newest n => exact ((readsDocuments_productsFound _).answer _).answer _
  | newestOfType n t => exact ((readsDocuments_productsOfType t).answer _).answer _
  | count t => exact (readsDocuments_count t).answer _

/-- In an archive whose slots are full, writes fail without a trace. -/
theorem failsWithoutTrace_of_filled (s : Store) (ha : Filled a) :
    FailsWithoutTrace s.catalogDuring Archive.Alike a := by
  apply Catalog.failsWithoutTrace_of_writes
  · intro o op e b hwrite hfails
    have hends : Traceless ((s.catalogDuring o).perform op) a := traceless_perform ha hwrite
    unfold Traceless Ends at hends
    rw [hfails] at hends
    exact hends
  · intro o read b hread halike
    exact (readsDocuments_perform hread b a halike.1).1

end Store

end Inverted

/-! ## Every backend -/

/-- A write that fails, whichever calls to collaborators fail, leaves no trace: on relational
databases and remote services of any content, and on every archive that attempts lead to, with the
same in the same slots. -/
theorem failed_writes_leave_no_trace :
    (∀ (s : Relational.Store) (db : Relational.Database),
        FailsWithoutTrace s.catalogDuring Eq db) ∧
      (∀ (s : Inverted.Store) (attempts : List Attempt),
        FailsWithoutTrace s.catalogDuring Inverted.Archive.Alike
          (Catalog.afterAttempts s.catalogDuring .empty attempts)) ∧
      ∀ (s : Remote.Store) (service : Remote.Service),
        FailsWithoutTrace s.catalogDuring Eq service := by
  refine ⟨fun s db => ?_, fun s attempts => ?_, fun s service => ?_⟩
  · exact Catalog.failsWithoutTrace_of_atomic
      (fun o _ hwrite => Relational.Store.atomic_perform _ hwrite) db
  · exact s.failsWithoutTrace_of_filled (s.filled_afterAttempts attempts)
  · exact Catalog.failsWithoutTrace_of_atomic
      (fun o _ hwrite => Remote.Store.atomic_perform _ hwrite) service

/-- Metadata are not merged when one call fails after others were answered. The rows of metadata
that were there are erased by then, but come back. The record was read and changed by then, but is
not replaced. And the product that was loaded for it leaves its slot again and stays indexed. -/
theorem interrupted_merge_leaves_no_trace :
    let index := Inverted.Store.twoTypesStore
    let database : Relational.Store := ⟨.narrow, [], index.schema, index.pageSize⟩
    let service : Remote.Store := ⟨index.schema, index.pageSize⟩
    let steps := Inverted.Store.twoSteps Inverted.Store.granule
    let merge : Operation := .addMetadata (.ofPairs [("Band", "x")])
      ⟨some "1", "a", Inverted.Store.granule, .flat, .received, [⟨"a", "b", 7, none⟩], none⟩
    let db := database.catalog.after .empty steps
    let records := service.catalog.after .empty steps
    let a := Catalog.afterAttempts index.catalogDuring .empty (steps.map (Attempt.mk .none))
    ((database.catalogDuring (.only ⟨[.storing], .elementsOfType⟩)).perform merge).run db =
        (.error (.offline .validation), db) ∧
      ((service.catalogDuring (.only ⟨[], .replace⟩)).perform merge).run records =
        (.error (.offline .service), records) ∧
      ∃ b, ((index.catalogDuring (.only ⟨[], .elementsOfType⟩)).perform merge).run a =
        (.error (.offline .validation), b) ∧ Inverted.Archive.Alike b a ∧
        b.documents.map Inverted.Document.id = ["1"] := by
  intro index database service steps merge db records a
  refine ⟨?_, ?_, ?_⟩
  · exact (failed_writes_leave_no_trace.1 database db).run_eq rfl (by decide +kernel)
  · exact (failed_writes_leave_no_trace.2.2 service records).run_eq rfl (by decide +kernel)
  · have herror : (((index.catalogDuring (.only ⟨[], .elementsOfType⟩)).perform merge).run a).1 =
        .error (.offline .validation) := by
      decide +kernel
    rcases hrun : ((index.catalogDuring (.only ⟨[], .elementsOfType⟩)).perform merge).run a with
      ⟨answer, b⟩
    rw [hrun] at herror
    obtain rfl : answer = .error (.offline .validation) := herror
    have halike := (failed_writes_leave_no_trace.2.1 index (steps.map (Attempt.mk .none))).state
      _ _ _ b rfl hrun
    refine ⟨b, rfl, halike, ?_⟩
    rw [halike.1]
    decide +kernel

end ArchiveCatalog

import ArchiveCatalog.Proofs.Inverted.Progress
import ArchiveCatalog.Proofs.Inverted.Refinement

namespace ArchiveCatalog.Inverted.Store

/-! # Products as they are registered

What waits in a slot and what is rebuilt from a document is the same product: it has the id, the
type and the time of its registration, whatever else was changed since.
-/

open ArchiveCatalog.Action (Ends Keeps)

variable {s : Store} {a b : Archive} {id : String} {p : Product} {q : Pending} {x : Option Metadata}

/-- The product is registered under the id, as one of a registered type and at a time of the
calendar. -/
structure IsRegistered (s : Store) (id : String) (p : Product) : Prop where
  id : p.id = some id
  type : p.productType ∈ s.schema.types.types
  dated : ∃ millis t, p.received = some t ∧ Instant.ofMillis? millis = some t

theorem IsRegistered.received_ofProduct (h : s.IsRegistered id p) (m : Metadata) :
    Instant.ofMillis? (Document.ofProduct id p m).received = p.received := by
  rcases h.dated with ⟨millis, t, hreceived, ht⟩
  have hmillis : (Document.ofProduct id p m).received = millis := by
    unfold Document.ofProduct
    dsimp only
    rw [hreceived]
    exact toMillis_ofMillis? ht
  rw [hmillis, ht, hreceived]

/-- From its document a product is rebuilt with the type that is found. -/
theorem IsRegistered.product_ofProduct (h : s.IsRegistered id p) (m : Metadata) (t : ProductType) :
    (Document.ofProduct id p m).product t = { p with productType := t } := by
  unfold Document.product
  rw [h.received_ofProduct m]
  have hid : some (Document.ofProduct id p m).id = p.id := h.id.symm
  rw [hid]
  rfl

/-- A type with an id is found again. -/
theorem IsRegistered.productOf (hschema : s.schema.Regular) (h : s.IsRegistered id p)
    (htype : p.productType.id ≠ "") (m : Metadata) : s.productOf (.ofProduct id p m) = .ok p := by
  have ht : s.schema.typeById (Document.ofProduct id p m).typeId = .ok p.productType :=
    hschema.typeById_eq_ok_iff.2 (hschema.typeOf?_of_mem h.type htype)
  rw [Store.productOf, ht]
  simp only [bind, Except.bind, pure, Except.pure, h.product_ofProduct]

/-- What waits and what is indexed are registered products. -/
structure KeepsRegistered (s : Store) (a : Archive) : Prop where
  waiting : ∀ id q, a.cache.pending? id = some q → s.IsRegistered id q.product
  documents : ∀ d ∈ a.documents, ∃ p m, s.IsRegistered d.id p ∧ d = .ofProduct d.id p m

theorem keepsRegistered_empty : s.KeepsRegistered .empty :=
  ⟨fun _ _ hq => (by cases hq), fun _ hd => absurd hd List.not_mem_nil⟩

theorem KeepsRegistered.congr (h : s.KeepsRegistered a) (hsame : Archive.Same b a) :
    s.KeepsRegistered b :=
  ⟨fun id q hq => h.waiting id q (hsame.2 id ▸ hq), hsame.1 ▸ h.documents⟩

/-- A product that is rebuilt from its document is the one that was indexed. -/
theorem KeepsRegistered.loaded (hschema : s.schema.Regular) (h : s.KeepsRegistered a)
    {d : Document} (hfound : a.document? id = some d) {t : ProductType}
    (ht : s.schema.typeById d.typeId = .ok t) :
    s.IsRegistered id (d.product t) ∧ d = .ofProduct id (d.product t) d.metadata := by
  obtain rfl : d.id = id := by simpa using List.find?_some hfound
  rcases h.documents d (List.mem_of_find?_eq_some hfound) with ⟨p, m, hp, hd⟩
  have htype : t = p.productType := by
    rw [hd] at ht
    exact hschema.eq_of_typeById hp.type ht
  have hproduct : d.product t = p := by
    rw [hd, htype]
    exact hp.product_ofProduct m p.productType
  have hmetadata : d.metadata = m := by
    rw [hd]
    rfl
  rw [hproduct, hmetadata]
  exact ⟨hp, hd⟩

/-- What a write works on is a registered product. -/
theorem KeepsRegistered.current (hschema : s.schema.Regular) (h : s.KeepsRegistered a)
    (hcurrent : ((s.currentPending id).run a).1 = .ok q) : s.IsRegistered id q.product := by
  cases hwaiting : a.cache.pending? id with
  | some waiting =>
    rw [run_currentPending_of_waiting hwaiting] at hcurrent
    cases hcurrent
    exact h.waiting id q hwaiting
  | none =>
    rw [run_currentPending_of_none hwaiting] at hcurrent
    rcases document?_of_loadPending hcurrent with ⟨d, t, hfound, ht, rfl⟩
    exact (h.loaded hschema hfound ht).1

theorem mem_of_mem_documents_settle {d : Document} (hd : d ∈ (a.settle id q).documents) :
    d ∈ a.documents ∨ d = .ofProduct id q.product (q.metadata.getD .empty) := by
  unfold Archive.settle at hd
  split at hd
  · rcases List.mem_append.1 hd with hold | hnew
    · exact .inl (List.mem_filter.1 hold).1
    · exact .inr (List.mem_singleton.1 hnew)
  · split at hd
    · exact .inl (List.mem_filter.1 hd).1
    · exact .inl hd

theorem KeepsRegistered.settle (h : s.KeepsRegistered a) (hq : s.IsRegistered id q.product) :
    s.KeepsRegistered (a.settle id q) := by
  refine ⟨?_, ?_⟩
  · intro other waiting hwaiting
    rw [Archive.pending?_settle] at hwaiting
    split at hwaiting
    · rename_i hother
      rcases Option.ite_none_left_eq_some.1 hwaiting with ⟨-, hsame⟩
      cases hsame
      exact hother ▸ hq
    · exact h.waiting other waiting hwaiting
  · intro d hd
    rcases mem_of_mem_documents_settle hd with hold | rfl
    · exact h.documents d hold
    · exact ⟨_, _, hq, rfl⟩

/-- The change fails without a trace, and leaves the id, the type and the time of the registration
as they are. -/
structure KeepsIdentity (change : Action Pending Unit) : Prop where
  atomic : Action.Atomic change
  same : ∀ q q', change.run q = (.ok (), q') → q'.product.id = q.product.id ∧
    q'.product.productType = q.product.productType ∧ q'.product.received = q.product.received

/-- Changes of a product keep the id, the type and the time of its registration. -/
theorem keepsRegistered_mutate (hschema : s.schema.Regular) {change : Action Pending Unit}
    (hchange : KeepsIdentity change) : Keeps s.KeepsRegistered (s.mutate p change) := by
  intro a h
  have hcongr : ∀ b c, Archive.Same c b → s.KeepsRegistered b → s.KeepsRegistered c :=
    fun b c hsame hb => hb.congr hsame
  refine Ends.property (Action.ends_ofExcept_bind h fun id _ =>
    ends_withSlot hcongr hcongr fun b hsame hslot => ?_)
  have hb := h.congr hsame
  refine ends_changeInSlot hchange.atomic hslot ?_ fun c halike => hb.congr halike.same
  intro q q' c hcurrent hrun halike
  have hq := hb.current hschema (congrArg Prod.fst hcurrent)
  rcases hchange.same q q' hrun with ⟨hid, htype, hreceived⟩
  have hq' : s.IsRegistered id q'.product :=
    ⟨hid.trans hq.id, htype ▸ hq.type, hreceived ▸ hq.dated⟩
  exact (hb.settle hq').congr halike.same

theorem keepsRegistered_add (hschema : s.schema.Regular) {r : Registration}
    (hclock : (Instant.ofMillis? r.millis).isSome = true) :
    Keeps s.KeepsRegistered (s.add r p) := by
  intro a h
  have hcongr : ∀ b c, Archive.Same c b → s.KeepsRegistered b → s.KeepsRegistered c :=
    fun b c hsame hb => hb.congr hsame
  rcases Option.isSome_iff_exists.1 hclock with ⟨t, ht⟩
  refine Ends.property (Action.ends_ofExcept_bind h fun _ _ => Action.ends_ofExcept_bind h
    fun u hu => Ends.answer ?_ _)
  refine ends_withSlot hcongr hcongr fun b hsame _ => Action.ends_of_ok (Action.run_modify _ b) ?_
  -- without metadata the product is settled as waiting
  exact (h.congr hsame).settle (q := .ofProduct { p with
    id := some r.freshId, productType := u, received := Instant.ofMillis? r.millis })
    ⟨rfl, hschema.mem_of_resolveType hu, r.millis, t, ht, ht⟩

theorem KeepsRegistered.of_sub (h : s.KeepsRegistered a)
    (hdocuments : ∀ d ∈ b.documents, d ∈ a.documents)
    (hwaiting : ∀ id q, b.cache.pending? id = some q → a.cache.pending? id = some q) :
    s.KeepsRegistered b :=
  ⟨fun id q hq => h.waiting id q (hwaiting id q hq), fun d hd => h.documents d (hdocuments d hd)⟩

theorem keepsRegistered_remove : Keeps s.KeepsRegistered (remove p) := by
  refine (Action.silent_ofExcept _).keeps.bind fun id a h => ?_
  rcases run_withSlot (eraseInSlot id) a id with ⟨b, hsame, -, -, hafter⟩
  refine KeepsRegistered.congr ?_ hafter
  have hb := h.congr hsame
  have hwithdraw : ∀ d ∈ (b.withdraw id).documents, d ∈ b.documents :=
    fun d hd => (List.mem_filter.1 hd).1
  rw [eraseInSlot, Action.run_bind_ok (Action.run_get b)]
  cases b.cache.pending? id with
  | some pending =>
    show s.KeepsRegistered ((if pending.indexed then b.withdraw id else b).store id none)
    refine hb.of_sub ?_ ?_
    · cases pending.indexed
      · exact fun d hd => hd
      · exact hwithdraw
    · intro other q hq
      have hstored : ((if pending.indexed then b.withdraw id else b).store id none).cache.pending?
          other = if other = id then none else b.cache.pending? other := by
        cases pending.indexed <;> exact AssemblyCache.pending?_store none
      rw [hstored] at hq
      exact (Option.ite_none_left_eq_some.1 hq).2
  | none =>
    exact ((silent_requireDocument id).bind fun _ => Action.silent_pure _).bind_property hb
      fun _ => hb.of_sub hwithdraw fun _ _ hq => hq

/-- An operation keeps what registering, removing and every change of a product keep. -/
theorem keeps_perform_of {inv : Archive → Prop} {op : Operation}
    (hadd : ∀ r p, op = .add r p → Keeps inv (s.add r p))
    (hremove : ∀ p, op = .remove p → Keeps inv (remove p))
    (hmutate : ∀ p change, KeepsIdentity change → Keeps inv (s.mutate p change)) :
    Keeps inv (s.catalog.perform op) := by
  have hedit : ∀ (p : Product) (change : Product → Product),
      (∀ q, (change q).id = q.id ∧ (change q).productType = q.productType ∧
        (change q).received = q.received) →
      Keeps inv (s.mutate p <| modify fun pending =>
        { pending with product := change pending.product }) := by
    intro p change hchange
    refine hmutate p _ ⟨Action.atomic_modify _, ?_⟩
    intro q q' hrun
    cases hrun
    exact hchange q.product
  cases op with
  | add r p => exact (hadd r p rfl).answer _
  | modify p =>
    exact (hedit p (fun old => { old with
      name := p.name, fileStructure := p.fileStructure, status := p.status,
      references := p.references }) fun _ => ⟨rfl, rfl, rfl⟩).answer _
  | remove p => exact (hremove p rfl).answer _
  | setStatus p =>
    exact (hedit p (fun old => { old with status := p.status }) fun _ => ⟨rfl, rfl, rfl⟩).answer _
  | addReferences p =>
    exact (hedit p (fun old => { old with references := p.references })
      fun _ => ⟨rfl, rfl, rfl⟩).answer _
  | addMetadata m p =>
    refine (hmutate p _ ⟨s.atomic_mergeDeclared m, ?_⟩).answer _
    intro q q' hrun
    rw [run_mergeDeclared] at hrun
    cases hdeclared : s.schema.declaredMetadata q.product.productType m with
    | error e =>
      rw [hdeclared] at hrun
      cases hrun
    | ok declared =>
      rw [hdeclared] at hrun
      cases hrun
      exact ⟨rfl, rfl, rfl⟩
  | removeMetadata m p =>
    refine (hmutate p _ ⟨Action.atomic_modify _, ?_⟩).answer _
    intro q q' hrun
    cases hrun
    exact ⟨rfl, rfl, rfl⟩
  | _ => exact (silent_perform rfl).keeps

/-- Every operation keeps registered products, if the time it is given is one of the calendar. -/
theorem keepsRegistered_perform (hschema : s.schema.Regular) {op : Operation}
    (hclock : ClockInRange op) : Keeps s.KeepsRegistered (s.catalog.perform op) := by
  refine keeps_perform_of ?_ (fun _ _ => keepsRegistered_remove)
    fun _ _ hchange => keepsRegistered_mutate hschema hchange
  rintro r p rfl
  exact keepsRegistered_add hschema hclock

theorem keepsRegistered_after (hschema : s.schema.Regular) {history : List Operation}
    (hclock : ∀ op ∈ history, ClockInRange op) (h : s.KeepsRegistered a) :
    s.KeepsRegistered (s.catalog.after a history) :=
  Catalog.after_induction (fun op hop => keepsRegistered_perform hschema (hclock op hop)) h

/-- A history leaves an archive that follows an account of it and keeps registered products. -/
theorem exists_follows_after (hschema : s.schema.Regular) {history : List Operation}
    (hfresh : (freshIds history).Nodup) (hclock : ∀ op ∈ history, ClockInRange op) {acc : Account}
    (hfollows : Follows (freshIds history) acc a) (h : s.KeepsRegistered a) :
    (∃ acc, Follows [] acc (s.catalog.after a history)) ∧
      s.KeepsRegistered (s.catalog.after a history) := by
  rw [← List.append_nil history] at hfresh hfollows
  have hfinal : ∃ acc, Follows (freshIds []) acc (s.catalog.after a history) :=
    exists_follows hfresh hfollows
  exact ⟨hfinal, keepsRegistered_after hschema hclock h⟩

end ArchiveCatalog.Inverted.Store

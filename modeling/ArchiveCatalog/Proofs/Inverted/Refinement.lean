import ArchiveCatalog.Proofs.Ledger
import ArchiveCatalog.Proofs.Inverted.Answers

namespace ArchiveCatalog.Inverted

/-! # The index catalog as a ledger

An index catalog answers as a ledger does whose reads see complete entries only. Where a
product is kept, as a document or in the cache, is told by its entry: an archive stands for
a ledger when its documents are those of the complete entries and the incomplete ones wait.
Each write finds the same product in either place and leaves it where it belongs.
-/

namespace Store

/-- The ledger that an index catalog comes to. -/
def ledger (s : Store) : Ledger String where
  schema := s.schema
  pageSize := s.pageSize
  locate := .ok
  spell key := key
  assign r _ := .ok r.freshId
  initial := none
  sees e := e.metadata.isSome && e.product.referencesMaterialized
  precedes a b := b.millis < a.millis || (a.millis == b.millis && decide (b.key ≤ a.key))
  satisfies := Search.finds

/-- The document of an entry. -/
def documentOf (e : Entry String) : Document := .ofProduct e.key e.product e.shown

/-- What waits in place of an entry. -/
def pendingOf (e : Entry String) : Pending := ⟨e.product, e.metadata, false⟩

/-- The product of an entry is what is rebuilt from its document. -/
structure Whole (s : Store) (e : Entry String) : Prop where
  id : e.product.id = some e.key
  type : s.schema.typeById e.product.productType.id = .ok e.product.productType
  received : e.product.received = Instant.ofMillis? e.millis
  inRange : (Instant.ofMillis? e.millis).isSome = true

/-- The archive stands for the ledger, in which no entry has a key that is yet to be given. -/
structure Stands (s : Store) (later : List String) (a : Archive) (st : LedgerState String) :
    Prop where
  keys : (st.entries.map Entry.key).Nodup
  apart : ∀ e ∈ st.entries, e.key ∉ later
  whole : ∀ e ∈ st.entries, s.Whole e
  documents : a.documents.Perm ((st.entries.filter s.ledger.sees).map documentOf)
  pending : ∀ id, a.cache.pending? id =
    ((st.find? id).filter fun e => !s.ledger.sees e).map pendingOf

variable {s : Store} {later : List String} {a b : Archive} {st : LedgerState String}
  {e old : Entry String} {id : String}

/-! ## Entries -/

theorem stands_empty : s.Stands later .empty .empty :=
  ⟨List.nodup_nil, fun _ he => absurd he List.not_mem_nil, fun _ he => absurd he List.not_mem_nil,
    List.Perm.refl _, fun _ => rfl⟩

theorem Stands.congr (h : s.Stands later a st) (hsame : Archive.Same b a) : s.Stands later b st :=
  ⟨h.keys, h.apart, h.whole, hsame.1 ▸ h.documents, fun id => (hsame.2 id).trans (h.pending id)⟩

theorem toMillis_ofMillis? {millis : Int} {t : Instant} (h : Instant.ofMillis? millis = some t) :
    t.toMillis = millis := by
  unfold Instant.ofMillis? at h
  dsimp only at h
  split at h
  · cases h
    unfold Instant.toMillis
    dsimp only
    omega
  · cases h

theorem Whole.received_documentOf (h : s.Whole e) : (documentOf e).received = e.millis := by
  rcases Option.isSome_iff_exists.1 h.inRange with ⟨t, ht⟩
  unfold documentOf Document.ofProduct
  dsimp only
  rw [h.received, ht]
  exact toMillis_ofMillis? ht

/-- The product of a whole entry is read back from its document. -/
theorem Whole.productOf (h : s.Whole e) : s.productOf (documentOf e) = .ok e.product := by
  have htype : s.schema.typeById (documentOf e).typeId = .ok e.product.productType := h.type
  have hproduct : (documentOf e).product e.product.productType = e.product := by
    unfold Document.product
    have hid : some (documentOf e).id = e.product.id := h.id.symm
    rw [h.received_documentOf, ← h.received, hid]
    rfl
  rw [Store.productOf, htype]
  simp only [bind, Except.bind, pure, Except.pure, hproduct]

/-- The document of a product is that of its entry, if reads see it. -/
theorem Stands.document?_eq (h : s.Stands later a st) (id : String) :
    a.document? id = ((st.find? id).filter s.ledger.sees).map documentOf := by
  have hids : (a.documents.map Document.id).Nodup := by
    have hperm : (a.documents.map Document.id).Perm
        ((st.entries.filter s.ledger.sees).map Entry.key) := by
      have hmap := h.documents.map Document.id
      rwa [List.map_map] at hmap
    exact hperm.nodup_iff.2 (h.keys.sublist (List.filter_sublist.map _))
  -- documents have different ids, so the first found is the one of the entry
  cases hentry : (st.find? id).filter s.ledger.sees with
  | none =>
    refine List.find?_eq_none.2 ?_
    intro d hd hsame
    rcases List.mem_map.1 (h.documents.mem_iff.1 hd) with ⟨e, he, rfl⟩
    rcases List.mem_filter.1 he with ⟨hmem, hseen⟩
    have hkey : e.key = id := beq_iff_eq.1 hsame
    have hfound := LedgerState.find?_eq_of_mem h.keys hmem
    rw [hkey] at hfound
    rw [hfound, Option.filter_some, if_pos hseen] at hentry
    cases hentry
  | some e =>
    rcases Option.filter_eq_some_iff.1 hentry with ⟨hfound, hseen⟩
    rcases LedgerState.mem_of_find? hfound with ⟨hmem, hkey⟩
    have hdocument : documentOf e ∈ a.documents :=
      h.documents.mem_iff.2 (List.mem_map_of_mem (List.mem_filter.2 ⟨hmem, hseen⟩))
    have hone := Schema.find?_eq_some_of_nodup hids hdocument
    have hid : (documentOf e).id = id := hkey
    rw [hid] at hone
    exact hone

/-! ## Settling -/

/-- Without the document of a product there are those of the other entries. -/
theorem Stands.documents_withdraw (h : s.Stands later a st) (id : String) :
    (a.withdraw id).documents.Perm
      (((st.entries.filter (·.key ≠ id)).filter s.ledger.sees).map documentOf) := by
  have hothers := h.documents.filter (·.id != id)
  rw [List.filter_map, List.filter_filter] at hothers
  rw [List.filter_filter]
  refine hothers.trans (List.Perm.of_eq (congrArg (List.map documentOf) ?_))
  apply List.filter_congr
  intro e _
  by_cases hkey : e.key = id
  · simp [hkey, documentOf, Document.ofProduct]
  · simp [hkey, documentOf, Document.ofProduct]

/-- Settling a changed product puts the changed entry. -/
theorem Stands.settle (h : s.Stands later a st) (hfound : st.find? e.key = some old)
    (hwhole : s.Whole e) {p : Pending} (hproduct : p.product = e.product)
    (hmetadata : p.metadata = e.metadata) (hindexed : p.indexed = s.ledger.sees old) :
    s.Stands later (a.settle e.key p) (st.put e) := by
  have hcomplete : p.isComplete = s.ledger.sees e := by
    unfold Pending.isComplete
    rw [hproduct, hmetadata]
    rfl
  -- what was not indexed when it was looked up has no document to withdraw
  have hunindexed : p.indexed = false → a.document? e.key = none := by
    intro hnot
    rw [h.document?_eq, hfound, Option.filter_some, ← hindexed, hnot]
    rfl
  have hlater : e.key ∉ later := by
    rcases LedgerState.mem_of_find? hfound with ⟨hold, hkey⟩
    exact hkey ▸ h.apart old hold
  refine ⟨?_, LedgerState.forall_mem_put h.apart hlater,
    LedgerState.forall_mem_put h.whole hwhole, ?_, ?_⟩
  · rw [LedgerState.keys_put]
    exact h.keys
  · rw [Archive.documents_settle hunindexed, hcomplete]
    have hput := ((LedgerState.perm_put h.keys hfound).filter s.ledger.sees).map documentOf
    rw [List.filter_append, List.map_append] at hput
    refine List.Perm.trans (List.Perm.append ?_ ?_) hput.symm
    · exact h.documents_withdraw e.key
    · cases hseen : s.ledger.sees e with
      | true =>
        rw [if_pos rfl, hproduct, hmetadata, List.filter_cons_of_pos hseen]
        exact List.Perm.refl _
      | false =>
        rw [if_neg (by simp), List.filter_cons_of_neg (by simp [hseen])]
        exact List.Perm.refl _
  -- complete products stop waiting, incomplete ones go on with what was changed
  · intro id
    rw [Archive.pending?_settle, LedgerState.find?_put h.keys hfound, hcomplete]
    split
    · cases hseen : s.ledger.sees e with
      | true => rw [Option.filter_some, hseen]; rfl
      | false => rw [Option.filter_some, hseen, hproduct, hmetadata]; rfl
    · exact h.pending id

/-! ## Writes -/

open ArchiveCatalog.Action (Matches)

variable {p : Product}

/-- There is a document for what reads see. -/
theorem Stands.run_requireDocument (h : s.Stands later a st) (id : String) :
    (requireDocument id).run a = ((s.ledger.visible st id).map documentOf, a) := by
  rw [requireDocument, Action.run_reading, h.document?_eq, Ledger.visible]
  cases (st.find? id).filter s.ledger.sees <;> rfl

/-- A write finds the product and the metadata of the entry, in the cache or in the index. -/
theorem Stands.run_currentPending (h : s.Stands later a st) (id : String) :
    (s.currentPending id).run a =
      (match st.find? id with
        | some e => .ok ⟨e.product, e.metadata, s.ledger.sees e⟩
        | none => .error (.notFound "Product" id), a) := by
  rw [currentPending, Action.run_bind_ok (Action.run_get a), h.pending]
  have hdocument := h.run_requireDocument id
  cases hfound : st.find? id with
  | none =>
    rw [Ledger.visible, hfound, Option.filter_none] at hdocument
    exact Action.run_bind_error hdocument
  | some e =>
    rw [Ledger.visible, hfound] at hdocument
    rw [Option.filter_some] at hdocument ⊢
    dsimp only
    cases hseen : s.ledger.sees e with
    | false => rfl
    | true =>
      rw [if_pos hseen] at hdocument
      have hmetadata : some (documentOf e).metadata = e.metadata := by
        have hsome := (Bool.and_eq_true_iff.1 hseen).1
        rcases Option.isSome_iff_exists.1 hsome with ⟨m, hm⟩
        simp [documentOf, Document.ofProduct, Entry.shown, hm]
      have hload : (s.loadPending id).run a = (.ok ⟨e.product, e.metadata, true⟩, a) := by
        rw [loadPending, Action.run_bind_ok hdocument, Action.run_bind, Action.run_ofExcept,
          (h.whole e (LedgerState.mem_of_find? hfound).1).productOf, hmetadata]
        rfl
      exact hload

theorem keyOf_ledger : s.ledger.keyOf p = p.requireId := by
  unfold Ledger.keyOf
  cases p.requireId <;> rfl

/-- A change of what waits matches an edit of entries if it does to product and metadata what the
edit does, and the edit leaves whole entries whole. -/
theorem matches_edit {change : Action Pending Unit}
    {edit : Entry String → Except CatalogError (Entry String)}
    (hchange : ∀ e indexed, change.run ⟨e.product, e.metadata, indexed⟩ =
      match edit e with
      | .ok e' => (.ok (), ⟨e'.product, e'.metadata, indexed⟩)
      | .error f => (.error f, ⟨e.product, e.metadata, indexed⟩))
    (hwhole : ∀ e e', s.Whole e → edit e = .ok e' → s.Whole e' ∧ e'.key = e.key) :
    Matches (s.Stands later) (s.mutate p change) (s.ledger.edit p edit) := by
  intro a st h
  rw [Ledger.run_edit, mutate, Action.run_bind, Action.run_ofExcept, Ledger.target]
  rw [keyOf_ledger]
  cases p.requireId with
  | error e => exact ⟨rfl, h⟩
  | ok id =>
    obtain ⟨b, hsame, hslot, hanswer, hafter⟩ := run_withSlot (s.changeInSlot id change) a id
    -- within the slot the archive looks the same, and so it does after it
    have hb := h.congr hsame
    have hcurrent := hb.run_currentPending id
    simp only [bind, Except.bind, Ledger.require]
    cases hfound : st.find? id with
    | none =>
      rw [hfound] at hcurrent
      rw [run_changeInSlot_of_error hcurrent] at hanswer hafter
      exact ⟨hanswer, hb.congr hafter⟩
    | some e =>
      rcases LedgerState.mem_of_find? hfound with ⟨hmem, rfl⟩
      rw [hfound] at hcurrent
      have hrun := hchange e (s.ledger.sees e)
      dsimp only
      cases hedit : edit e with
      | error f =>
        rw [hedit] at hrun
        rcases run_changeInSlot_fails hslot hcurrent hrun with ⟨c, hc, halike⟩
        rw [hc] at hanswer hafter
        exact ⟨hanswer, (hb.congr halike.same).congr hafter⟩
      | ok e' =>
        rw [hedit] at hrun
        rcases run_changeInSlot_ok hcurrent hrun with ⟨c, hc, halike⟩
        rw [hc] at hanswer hafter
        rcases hwhole e e' (h.whole e hmem) hedit with ⟨hwhole', hkey'⟩
        refine ⟨hanswer, Stands.congr (Stands.congr ?_ halike.same) hafter⟩
        rw [← hkey'] at hfound ⊢
        exact hb.settle hfound hwhole' rfl rfl rfl

/-- Changes of the product that keep id, type and time match those of entries. -/
theorem matches_editProduct (change : Product → Product)
    (hkeeps : ∀ q, (change q).id = q.id ∧ (change q).productType = q.productType ∧
      (change q).received = q.received) :
    Matches (s.Stands later)
      (s.mutate p <| modify fun pending => { pending with product := change pending.product })
      (s.ledger.editProduct p change) := by
  refine matches_edit (fun e indexed => rfl) ?_
  intro e e' h hedit
  cases hedit
  rcases hkeeps e.product with ⟨hid, htype, hreceived⟩
  refine ⟨⟨hid.trans h.id, ?_, hreceived.trans h.received, h.inRange⟩, rfl⟩
  rw [htype]
  exact h.type

theorem matches_modify :
    Matches (s.Stands later) (s.modifyProduct p) (s.ledger.catalog.modify p) :=
  matches_editProduct (fun old => { old with
    name := p.name, fileStructure := p.fileStructure, status := p.status,
    references := p.references }) fun _ => ⟨rfl, rfl, rfl⟩

theorem matches_setStatus :
    Matches (s.Stands later) (s.setStatus p) (s.ledger.catalog.setStatus p) :=
  matches_editProduct (fun old => { old with status := p.status }) fun _ => ⟨rfl, rfl, rfl⟩

theorem matches_addReferences :
    Matches (s.Stands later) (s.addReferences p) (s.ledger.catalog.addReferences p) :=
  matches_editProduct (fun old => { old with references := p.references }) fun _ => ⟨rfl, rfl, rfl⟩

theorem matches_addMetadata (m : Metadata) :
    Matches (s.Stands later) (s.addMetadata m p) (s.ledger.catalog.addMetadata m p) := by
  refine matches_edit ?_ ?_
  · intro e indexed
    have hschema : s.ledger.schema = s.schema := rfl
    rw [hschema, run_mergeDeclared]
    cases s.schema.declaredMetadata e.product.productType m <;> rfl
  · intro e e' h hedit
    rcases Action.bind_eq_ok_iff.1 hedit with ⟨declared, -, hedit⟩
    cases hedit
    exact ⟨⟨h.id, h.type, h.received, h.inRange⟩, rfl⟩

theorem matches_removeMetadata (m : Metadata) :
    Matches (s.Stands later) (s.removeMetadata m p) (s.ledger.catalog.removeMetadata m p) := by
  refine matches_edit (fun e indexed => rfl) ?_
  intro e e' h hedit
  cases hedit
  exact ⟨⟨h.id, h.type, h.received, h.inRange⟩, rfl⟩

/-- Taking a product out of the index and the cache erases its entry. -/
theorem Stands.erase (h : s.Stands later a st)
    (hdocuments : b.documents = (a.withdraw id).documents)
    (hpending : ∀ other, b.cache.pending? other =
      if other = id then none else a.cache.pending? other) :
    s.Stands later b (st.erase id) := by
  have hmem : ∀ e ∈ (st.erase id).entries, e ∈ st.entries := fun e he => (List.mem_filter.1 he).1
  refine ⟨h.keys.sublist (List.filter_sublist.map _), fun e he => h.apart e (hmem e he),
    fun e he => h.whole e (hmem e he), ?_, ?_⟩
  · rw [hdocuments]
    exact h.documents_withdraw id
  · intro other
    rw [hpending, LedgerState.find?_erase, h.pending]
    split <;> rfl

theorem Stands.run_eraseInSlot_none (h : s.Stands later a st) (hfound : st.find? id = none) :
    (eraseInSlot id).run a = (.error (.notFound "Product" id), a) := by
  apply run_eraseInSlot_of_none
  · rw [h.pending, hfound]
    rfl
  · rw [h.document?_eq, hfound]
    rfl

theorem Stands.run_eraseInSlot_some (h : s.Stands later a st) (hfound : st.find? id = some e) :
    ∃ b, (eraseInSlot id).run a = (.ok (), b) ∧ s.Stands later b (st.erase id) := by
  have hpending := h.pending id
  have hdocument := h.document?_eq id
  rw [hfound, Option.filter_some] at hpending hdocument
  -- the product waits exactly if the index does not have it
  have hthere : a.cache.pending? id = none → a.document? id ≠ none := by
    rw [hpending, hdocument]
    cases s.ledger.sees e <;> simp
  have hunindexed : ∀ q, a.cache.pending? id = some q → q.indexed = false →
      a.document? id = none := by
    rw [hpending, hdocument]
    cases s.ledger.sees e <;> simp
  rcases run_eraseInSlot_ok hthere hunindexed with ⟨b, hrun, hdocuments, hwaiting⟩
  exact ⟨b, hrun, h.erase hdocuments hwaiting⟩

theorem matches_remove : Matches (s.Stands later) (remove p) (s.ledger.catalog.remove p) := by
  intro a st h
  show _ = ((s.ledger.remove p).run st).1 ∧ s.Stands later _ ((s.ledger.remove p).run st).2
  rw [Ledger.run_remove, remove, Action.run_bind, Action.run_ofExcept, Ledger.target, keyOf_ledger]
  cases p.requireId with
  | error e => exact ⟨rfl, h⟩
  | ok id =>
    rcases run_withSlot (eraseInSlot id) a id with ⟨b, hsame, -, hanswer, hafter⟩
    have hb := h.congr hsame
    simp only [bind, Except.bind, Ledger.require]
    cases hfound : st.find? id with
    | none =>
      rw [hb.run_eraseInSlot_none hfound] at hanswer hafter
      exact ⟨hanswer, hb.congr hafter⟩
    | some e =>
      rcases hb.run_eraseInSlot_some hfound with ⟨c, hrun, hc⟩
      rw [hrun] at hanswer hafter
      dsimp only
      rw [(LedgerState.mem_of_find? hfound).2]
      exact ⟨hanswer, hc.congr hafter⟩

/-- A new product without metadata waits. -/
theorem Stands.append (h : s.Stands later a st) (hfresh : ∀ entry ∈ st.entries, entry.key ≠ e.key)
    (hlater : e.key ∉ later) (hwhole : s.Whole e) (hmetadata : e.metadata = none) :
    s.Stands later (a.store e.key (some (pendingOf e))) (st.append e) := by
  have hunseen : s.ledger.sees e = false := by
    show (e.metadata.isSome && _) = false
    rw [hmetadata]
    rfl
  have hentries : (st.append e).entries = st.entries ++ [e] := rfl
  refine ⟨LedgerState.nodup_keys_append h.keys hfresh,
    LedgerState.forall_mem_append h.apart hlater,
    LedgerState.forall_mem_append h.whole hwhole, ?_, ?_⟩
  -- without metadata the entry is not seen, so no document is missing
  · rw [hentries, List.filter_append, List.filter_cons_of_neg (by simp [hunseen]), List.filter_nil,
      List.append_nil]
    exact h.documents
  · intro id
    show (a.cache.store e.key (some (pendingOf e))).pending? id = _
    rw [AssemblyCache.pending?_store, LedgerState.find?_append hfresh]
    split
    · rw [Option.filter_some, hunseen]
      rfl
    · exact h.pending id

/-- The entry of a product that is registered. -/
def registered (r : Registration) (p : Product) (t : ProductType) : Entry String where
  key := r.freshId
  product := { p with id := some r.freshId, productType := t,
                      received := Instant.ofMillis? r.millis }
  millis := r.millis
  metadata := none

theorem whole_registered (hschema : s.schema.Regular) (hids : ∀ t ∈ s.schema.types.types, t.id ≠ "")
    {r : Registration} {t : ProductType} (hres : s.schema.resolveType p.productType = .ok t)
    (hclock : (Instant.ofMillis? r.millis).isSome = true) : s.Whole (registered r p t) := by
  have hmem := hschema.mem_of_resolveType hres
  have htype := hschema.typeById_eq_ok_iff.2 (hschema.typeOf?_of_mem hmem (hids t hmem))
  exact ⟨rfl, htype, rfl, hclock⟩

/-- Registering under a key that no entry has. -/
theorem Stands.run_add (hschema : s.schema.Regular) (hids : ∀ t ∈ s.schema.types.types, t.id ≠ "")
    {r : Registration} (h : s.Stands (r.freshId :: later) a st) (hdistinct : r.freshId ∉ later)
    (hclock : (Instant.ofMillis? r.millis).isSome = true) :
    ((s.add r p).run a).1 = ((s.ledger.add r p).run st).1 ∧
      s.Stands later ((s.add r p).run a).2 ((s.ledger.add r p).run st).2 := by
  have hlater : s.Stands later a st :=
    ⟨h.keys, fun e he hkey => h.apart e he (List.mem_cons_of_mem _ hkey), h.whole, h.documents,
      h.pending⟩
  -- the key was yet to be given, so no entry has it
  have hfresh : ∀ e ∈ st.entries, e.key ≠ r.freshId := fun e he hkey =>
    h.apart e he (hkey ▸ List.mem_cons_self)
  have hledger : s.ledger.schema = s.schema := rfl
  rw [add, Action.run_bind, Action.run_ofExcept]
  cases hp : p.requireUnregistered with
  | error e =>
    have hregister : s.ledger.register r p st = .error e := by
      rw [Ledger.register, hp]
      rfl
    rw [Ledger.run_add_error _ hregister]
    exact ⟨rfl, hlater⟩
  | ok _ =>
    dsimp only
    rw [Action.run_bind, Action.run_ofExcept]
    cases hres : s.schema.resolveType p.productType with
    | error e =>
      have hregister : s.ledger.register r p st = .error e := by
        rw [Ledger.register, hp, hledger, hres]
        rfl
      rw [Ledger.run_add_error _ hregister]
      exact ⟨rfl, hlater⟩
    | ok t =>
      have hregister : s.ledger.register r p st = .ok (registered r p t) := by
        rw [Ledger.register, hp, hledger, hres]
        rfl
      have hwhole := whole_registered hschema hids hres hclock
      rw [Ledger.run_add_ok _ hregister]
      rcases run_withSlot_modify
        (fun a => a.store r.freshId (some (pendingOf (registered r p t)))) a r.freshId with
        ⟨b, hsame, c, hslot, hafter⟩
      dsimp only [pendingOf, registered] at hslot
      dsimp only
      rw [Pending.ofProduct, Action.run_bind_ok hslot]
      exact ⟨rfl, ((hlater.congr hsame).append hfresh hdistinct hwhole rfl).congr hafter⟩

/-! ## Reads -/

theorem Stands.newerOrSame_documentOf (h : s.Stands later a st) {e e' : Entry String}
    (he : e ∈ st.entries) (he' : e' ∈ st.entries) :
    s.ledger.precedes e e' = Document.newerOrSame (documentOf e) (documentOf e') := by
  unfold Document.newerOrSame
  rw [(h.whole e he).received_documentOf, (h.whole e' he').received_documentOf]
  rfl

/-- The documents of a search are those of the entries that pass the test it comes to, in the same
order. -/
theorem Stands.newestFirst_documents (h : s.Stands later a st) (search : Search)
    {test : Entry String → Bool}
    (htest : ∀ e ∈ st.entries, search.accepts (documentOf e) = test e) :
    Document.newestFirst (a.documents.filter fun d => search.accepts d) =
      (s.ledger.answer st test).map documentOf := by
  have hfilter : ((st.entries.filter s.ledger.sees).map documentOf).filter
      (fun d => search.accepts d) =
      (st.entries.filter fun e => s.ledger.sees e && test e).map documentOf := by
    rw [List.filter_map, List.filter_filter]
    refine congrArg (List.map documentOf) (List.filter_congr ?_)
    intro e he
    show (search.accepts (documentOf e) && s.ledger.sees e) = _
    rw [htest e he, Bool.and_comm]
  -- documents and entries stand in different orders, which sorting makes the same
  have hperm := h.documents.filter fun d => search.accepts d
  rw [hfilter] at hperm
  have hids : ((a.documents.filter fun d => search.accepts d).map Document.id).Nodup := by
    have hkeys := (hperm.map Document.id)
    rw [List.map_map] at hkeys
    exact hkeys.nodup_iff.2 (h.keys.sublist (List.filter_sublist.map _))
  have hsorted : (s.ledger.answer st test).map documentOf =
      Document.newestFirst
        ((st.entries.filter fun e => s.ledger.sees e && test e).map documentOf) :=
    List.map_mergeSort fun e he e' he' =>
      h.newerOrSame_documentOf (List.mem_filter.1 he).1 (List.mem_filter.1 he').1
  rw [hsorted]
  exact Document.newestFirst_eq_of_perm hperm hids

/-- A search answers the products of the entries that pass the test it comes to. -/
theorem Stands.run_productsFound (h : s.Stands later a st) (search : Search)
    {test : Entry String → Bool}
    (htest : ∀ e ∈ st.entries, search.accepts (documentOf e) = test e) :
    (s.productsFound search).run a = (.ok ((s.ledger.answer st test).map Entry.product), a) := by
  have hproducts : (s.ledger.answer st test).mapM (s.productOf ∘ documentOf) =
      .ok ((s.ledger.answer st test).map Entry.product) :=
    Action.mapM_eq_ok fun e he => (h.whole e (Ledger.mem_answer he)).productOf
  rw [productsFound, Action.run_reading, h.newestFirst_documents search htest, List.mapM_map,
    hproducts]

theorem mem_of_visible (h : s.ledger.visible st id = .ok e) : e ∈ st.entries := by
  unfold Ledger.visible at h
  split at h
  · rename_i found hfound
    cases h
    exact (LedgerState.mem_of_find? (Option.filter_eq_some_iff.1 hfound).1).1
  · cases h

theorem Stands.run_byId (h : s.Stands later a st) (id : String) :
    (s.byId id).run a = ((s.ledger.visible st id).map Entry.product, a) := by
  have hdocument := h.run_requireDocument id
  rw [byId, Action.run_bind, hdocument]
  cases hvisible : s.ledger.visible st id with
  | error f => rfl
  | ok e =>
    dsimp only [Except.map]
    rw [Action.run_ofExcept, (h.whole e (mem_of_visible hvisible)).productOf]

theorem matches_byId (id : String) :
    Matches (s.Stands later) (s.byId id) (s.ledger.catalog.byId id) := by
  refine Action.matches_reading fun a st h => ⟨a, ?_, h⟩
  have hlocate : s.ledger.locate id = .ok id := rfl
  rw [h.run_byId, Ledger.byId, hlocate]
  simp only [bind, Except.bind]
  cases s.ledger.visible st id <;> rfl

theorem matches_references :
    Matches (s.Stands later) (s.references p) (s.ledger.catalog.references p) := by
  refine Action.matches_reading fun a st h => ⟨a, ?_, h⟩
  rw [references, Action.run_bind, Action.run_ofExcept, keyOf_ledger]
  cases p.requireId with
  | error e => rfl
  | ok id =>
    dsimp only
    rw [Action.run_bind, h.run_byId]
    simp only [bind, Except.bind]
    cases s.ledger.visible st id <;> rfl

theorem matches_metadata :
    Matches (s.Stands later) (metadata p) (s.ledger.catalog.metadata p) := by
  refine Action.matches_reading fun a st h => ⟨a, ?_, h⟩
  rw [metadata, Action.run_bind, Action.run_ofExcept, keyOf_ledger]
  cases p.requireId with
  | error e => rfl
  | ok id =>
    dsimp only
    rw [Action.run_bind, h.run_requireDocument]
    simp only [bind, Except.bind]
    cases s.ledger.visible st id <;> rfl

theorem matches_byName (name : String) :
    Matches (s.Stands later) (s.byName name) (s.ledger.catalog.byName name) := by
  refine Action.matches_reading fun a st h => ⟨a, ?_, h⟩
  have htest : ∀ e ∈ st.entries, (Search.term .productName name).accepts (documentOf e) =
      (e.product.name == name) := fun e _ => Search.accepts_productName name
  have hfound := h.run_productsFound _ htest
  rw [byName, Action.run_bind_ok hfound, Ledger.byName]
  rcases s.ledger.answer st (·.product.name == name) with _ | ⟨e, _ | ⟨e', rest⟩⟩
  · rfl
  · rfl
  · simp only [List.map_cons, List.length_cons, List.length_map]
    rfl

theorem matches_products :
    Matches (s.Stands later) s.products s.ledger.catalog.products := by
  refine Action.matches_reading fun a st h => ⟨a, ?_, h⟩
  exact h.run_productsFound .everything fun _ _ => rfl

theorem matches_newest (n : Nat) :
    Matches (s.Stands later) (s.catalog.newest n) (s.ledger.catalog.newest n) := by
  refine Action.matches_reading fun a st h => ⟨a, ?_, h⟩
  have hfound : s.products.run a = _ := h.run_productsFound .everything fun _ _ => rfl
  exact Action.run_bind_ok hfound

/-- The products of a type are those of the entries of the type. -/
theorem Stands.run_productsOfType (h : s.Stands later a st) (u : ProductType) :
    (s.productsOfType u).run a =
      ((s.ledger.answerOfType st u).map fun found => found.map Entry.product, a) := by
  have hschema : s.ledger.schema = s.schema := rfl
  rw [productsOfType, Action.run_bind, Action.run_ofExcept, Ledger.answerOfType, hschema]
  cases s.schema.resolveType u with
  | error e => rfl
  | ok t => exact h.run_productsFound _ fun e _ => Search.accepts_ofType t.id

theorem matches_productsOfType (u : ProductType) :
    Matches (s.Stands later) (s.productsOfType u) (s.ledger.catalog.productsOfType u) := by
  refine Action.matches_reading fun a st h => ⟨a, ?_, h⟩
  rw [h.run_productsOfType]
  simp only [bind, Except.bind]
  cases s.ledger.answerOfType st u <;> rfl

theorem matches_newestOfType (n : Nat) (u : ProductType) :
    Matches (s.Stands later) (s.catalog.newestOfType n u) (s.ledger.catalog.newestOfType n u) := by
  refine Action.matches_reading fun a st h => ⟨a, ?_, h⟩
  have hfound := h.run_productsOfType u
  cases hanswer : s.ledger.answerOfType st u with
  | error e =>
    rw [hanswer] at hfound
    exact Action.run_bind_error hfound
  | ok found =>
    rw [hanswer] at hfound
    exact Action.run_bind_ok hfound

theorem matches_count (u : ProductType) :
    Matches (s.Stands later) (s.count u) (s.ledger.catalog.count u) := by
  refine Action.matches_reading fun a st h => ⟨a, ?_, h⟩
  have hschema : s.ledger.schema = s.schema := rfl
  rw [count, Action.run_bind, Action.run_ofExcept, Ledger.answerOfType, hschema]
  cases s.schema.resolveType u with
  | error e => rfl
  | ok t =>
    have hfound := h.newestFirst_documents (.ofType t.id)
      fun e _ => Search.accepts_ofType t.id
    have hlength := congrArg List.length hfound
    rw [Document.newestFirst, List.length_mergeSort, List.length_map] at hlength
    dsimp only
    rw [Action.run_bind_ok (Action.run_get a), hlength]
    rfl

/-- A query finds the products of the entries of the type whose metadata it finds. -/
theorem Stands.run_matching (h : s.Stands later a st) (q : Query) (u : ProductType) :
    (s.matching q u).run a =
      ((s.ledger.matching q u st).map fun found => found.map Entry.product, a) := by
  have hschema : s.ledger.schema = s.schema := rfl
  rw [matching, Action.run_bind, Action.run_ofExcept, Ledger.matching, hschema]
  cases s.schema.resolveType u with
  | error e => rfl
  | ok t =>
    dsimp only
    rw [Action.run_bind, Action.run_ofExcept]
    simp only [bind, Except.bind]
    cases s.schema.checkQuery q t with
    | error e => rfl
    | ok _ => exact h.run_productsFound _ fun e _ => Search.accepts_ofQuery q t.id

theorem mem_of_matching {q : Query} {u : ProductType} {found : List (Entry String)}
    (h : s.ledger.matching q u st = .ok found) : ∀ e ∈ found, e ∈ st.entries := by
  rcases Action.bind_eq_ok_iff.1 h with ⟨t, -, h⟩
  rcases Action.bind_eq_ok_iff.1 h with ⟨-, -, h⟩
  cases h
  exact fun e he => Ledger.mem_answer he

theorem matches_query (q : Query) (u : ProductType) :
    Matches (s.Stands later) (s.query q u) (s.ledger.catalog.query q u) := by
  refine Action.matches_reading fun a st h => ⟨a, ?_, h⟩
  rw [query, Action.run_bind, h.run_matching]
  cases hmatching : s.ledger.matching q u st with
  | error e => rfl
  | ok found =>
    have hids : (found.map Entry.product).filterMap Product.id = found.map Entry.key := by
      have hone : ∀ e ∈ found, (Product.id ∘ Entry.product) e = some e.key := fun e he =>
        (h.whole e (mem_of_matching hmatching e he)).id
      rw [List.filterMap_map, List.filterMap_congr hone]
      exact congrFun List.filterMap_eq_map found
    dsimp only [Except.map]
    rw [Action.run_pure, hids]
    rfl

theorem matches_page (q : Query) (u : ProductType) (number : Int) :
    Matches (s.Stands later) (s.page q u number) (s.ledger.catalog.page q u number) := by
  refine Action.matches_reading fun a st h => ⟨a, ?_, h⟩
  have hsize : s.ledger.pageSize = s.pageSize := rfl
  rw [page, Action.run_bind, h.run_matching]
  cases s.ledger.matching q u st with
  | error e => rfl
  | ok found =>
    dsimp only [Except.map]
    simp only [bind, Except.bind, Ledger.pageOf, hsize]
    cases PageWindow.resolve number s.pageSize (found.map Entry.product).length <;> rfl

/-! ## Histories -/

/-- The time that the surroundings supply is one of the calendar. -/
def ClockInRange : Operation → Prop
  | .add r _ => (Instant.ofMillis? r.millis).isSome = true
  | _ => True

/-- Every operation is matched by that of the ledger, and the ids that it needs are used up. -/
theorem Stands.perform (hschema : s.schema.Regular) (hids : ∀ t ∈ s.schema.types.types, t.id ≠ "")
    {op : Operation} {rest : List Operation} (h : s.Stands (freshIds (op :: rest)) a st)
    (hfresh : (freshIds (op :: rest)).Nodup) (hclock : ClockInRange op) :
    ((s.catalog.perform op).run a).1 = ((s.ledger.catalog.perform op).run st).1 ∧
      s.Stands (freshIds rest) ((s.catalog.perform op).run a).2
        ((s.ledger.catalog.perform op).run st).2 := by
  cases op with
  | add r p =>
    have hdistinct : r.freshId ∉ freshIds rest := (List.nodup_cons.1 hfresh).1
    rcases h.run_add hschema hids hdistinct hclock (p := p) with ⟨hanswer, hafter⟩
    have hleft : (s.catalog.perform (.add r p)).run a =
        (((s.add r p).run a).1.map Answer.product, ((s.add r p).run a).2) := Action.run_map _ _ _
    have hright : (s.ledger.catalog.perform (.add r p)).run st =
        (((s.ledger.add r p).run st).1.map Answer.product, ((s.ledger.add r p).run st).2) :=
      Action.run_map _ _ _
    rw [hleft, hright, hanswer]
    exact ⟨rfl, hafter⟩
  | modify p => exact matches_modify.answer _ a st h
  | remove p => exact matches_remove.answer _ a st h
  | setStatus p => exact matches_setStatus.answer _ a st h
  | addReferences p => exact matches_addReferences.answer _ a st h
  | addMetadata m p => exact (matches_addMetadata m).answer _ a st h
  | removeMetadata m p => exact (matches_removeMetadata m).answer _ a st h
  | byId id => exact (matches_byId id).answer _ a st h
  | byName name => exact (matches_byName name).answer _ a st h
  | references p => exact matches_references.answer _ a st h
  | products => exact matches_products.answer _ a st h
  | productsOfType t => exact (matches_productsOfType t).answer _ a st h
  | metadata p => exact matches_metadata.answer _ a st h
  | query q t => exact (matches_query q t).answer _ a st h
  | page q t number => exact (matches_page q t number).answer _ a st h
  | newest n => exact (matches_newest n).answer _ a st h
  | newestOfType n t => exact (matches_newestOfType n t).answer _ a st h
  | count t => exact (matches_count t).answer _ a st h

/-- What the operations to come ask of the surroundings, and where the catalog stands. -/
structure Ready (s : Store) (rest : List Operation) (a : Archive) (st : LedgerState String) :
    Prop where
  fresh : (freshIds rest).Nodup
  clock : ∀ op ∈ rest, ClockInRange op
  stands : s.Stands (freshIds rest) a st

theorem Ready.perform (hschema : s.schema.Regular) (hids : ∀ t ∈ s.schema.types.types, t.id ≠ "")
    (op : Operation) (rest : List Operation) (a : Archive) (st : LedgerState String)
    (h : s.Ready (op :: rest) a st) :
    ((s.catalog.perform op).run a).1 = ((s.ledger.catalog.perform op).run st).1 ∧
      s.Ready rest ((s.catalog.perform op).run a).2 ((s.ledger.catalog.perform op).run st).2 := by
  -- the relation speaks of the keys to come, which a registration uses up one by one
  rcases h.stands.perform hschema hids h.fresh (h.clock op List.mem_cons_self) with
    ⟨hanswer, hafter⟩
  exact ⟨hanswer, nodup_freshIds_rest h.fresh,
    fun later hlater => h.clock later (List.mem_cons_of_mem op hlater), hafter⟩

/-- On every history an index catalog answers and fails as its ledger does. -/
theorem index_refines_ledger (s : Store) (hschema : s.schema.Regular)
    (hids : ∀ t ∈ s.schema.types.types, t.id ≠ "") (history : List Operation)
    (hfresh : (freshIds history).Nodup) (hclock : ∀ op ∈ history, ClockInRange op) :
    s.catalog.outcomes .empty history = s.ledger.catalog.outcomes .empty history :=
  Catalog.outcomes_eq_of_simulation (Ready.perform hschema hids) ⟨hfresh, hclock, stands_empty⟩

/-! ## A product that is withdrawn -/

/-- A catalog of one type. -/
def granuleStore : Store where
  schema := SchemaDocument.toSchema
    { version := 1
      elements := [⟨"urn:bandwidth", "Band width", ""⟩]
      types := [⟨granule, ["Band width"]⟩] }
  pageSize := 20

/-- A complete product loses its file, is given it back and is read each time. -/
def withdrawal : List Operation :=
  let p : Product := ⟨some "1", "a", granule, .flat, .received, [⟨"a", "b", 7, none⟩], none⟩
  twoSteps granule ++
    [.byId "1", .addReferences { p with references := [⟨"a", "", 7, none⟩] }, .byId "1",
      .addReferences p, .metadata p]

theorem withdrawal_refines_ledger :
    (freshIds withdrawal).Nodup ∧ (∀ op ∈ withdrawal, ClockInRange op) ∧
      granuleStore.catalog.outcomes .empty withdrawal =
        granuleStore.ledger.catalog.outcomes .empty withdrawal := by
  have hfresh : (freshIds withdrawal).Nodup := by decide
  have hclock : ∀ op ∈ withdrawal, ClockInRange op := by
    have hfive : (Instant.ofMillis? 5).isSome = true := by decide +kernel
    simp [withdrawal, twoSteps, ClockInRange, hfive]
  exact ⟨hfresh, hclock, index_refines_ledger granuleStore (Schema.regular_toSchema _)
    (by decide +kernel) withdrawal hfresh hclock⟩

end Store

end ArchiveCatalog.Inverted

import ArchiveCatalog.Proofs.History
import ArchiveCatalog.Proofs.Schema
import ArchiveCatalog.Proofs.Inverted.Anchored
import ArchiveCatalog.Proofs.Inverted.Archive

namespace ArchiveCatalog.Inverted

/-! # Answers of the index

A query on a type answers exactly the indexed products of the type whose metadata satisfy it
in the anchored sense, each once. It needs that products are indexed once and that no element
with a separator in its name has values, which every operation keeps up when no such element
is declared.
-/

/-! ## Separated metadata -/

variable {m other : Metadata}

theorem separated_empty : Separated .empty := fun e he => absurd (Metadata.values_empty e) he

theorem Separated.merge (hm : Separated m) (hother : Separated other) :
    Separated (m.merge other) := by
  intro e he
  rw [Metadata.values_merge] at he
  by_cases hvalues : m.values e = []
  · refine hother e fun hnone => he ?_
    rw [hvalues, hnone]
    rfl
  · exact hm e hvalues

theorem Separated.removeValues (hm : Separated m) (other : Metadata) :
    Separated (m.removeValues other) := by
  intro e he
  rw [Metadata.values_removeValues] at he
  refine hm e fun hnone => he ?_
  rw [hnone]
  rfl

theorem Separated.reduce {fields : List String} (h : ∀ field ∈ fields, Separable field)
    (m : Metadata) : Separated (m.reduce fields) := by
  intro e he
  rw [Metadata.values_reduce] at he
  by_cases hfield : e ∈ fields
  · exact h e hfield
  · exact absurd (if_neg hfield) he

/-! ## Indexed archives -/

/-- All metadata of what waits are separated. -/
def Pending.Separated (p : Pending) : Prop := ∀ m, p.metadata = some m → Inverted.Separated m

/-- No product has two documents, and all metadata are separated. -/
structure Archive.Indexed (a : Archive) : Prop where
  ids : (a.documents.map Document.id).Nodup
  documents : ∀ d ∈ a.documents, Separated d.metadata
  pending : ∀ id p, a.cache.pending? id = some p → p.Separated

namespace Archive

variable {a b : Archive} {id : String} {p : Pending}

theorem indexed_empty : Indexed .empty :=
  ⟨List.nodup_nil, fun _ hd => absurd hd List.not_mem_nil, fun _ _ hp => by cases hp⟩

theorem Indexed.congr (h : a.Indexed) (hsame : Same b a) : b.Indexed :=
  ⟨hsame.1 ▸ h.ids, hsame.1 ▸ h.documents, fun id p hp => h.pending id p (hsame.2 id ▸ hp)⟩

theorem Indexed.withdraw (h : a.Indexed) (id : String) : (a.withdraw id).Indexed :=
  ⟨nodup_ids_withdraw h.ids id, fun d hd => h.documents d (List.mem_filter.1 hd).1, h.pending⟩

theorem Indexed.index (h : a.Indexed) {d : Document} (hd : Separated d.metadata) :
    (a.index d).Indexed := by
  refine ⟨nodup_ids_index h.ids d, ?_, h.pending⟩
  intro d' hd'
  rcases List.mem_append.1 hd' with hold | hnew
  · exact (h.withdraw d.id).documents d' hold
  · rw [List.mem_singleton.1 hnew]
    exact hd

theorem Indexed.store (h : a.Indexed) {pending : Option Pending}
    (hpending : ∀ p, pending = some p → p.Separated) : (a.store id pending).Indexed := by
  refine ⟨h.ids, h.documents, ?_⟩
  intro other p hp
  change (a.cache.store id pending).pending? other = some p at hp
  rw [AssemblyCache.pending?_store] at hp
  split at hp
  · exact hpending p hp
  · exact h.pending other p hp

theorem Indexed.settle (h : a.Indexed) (hp : p.Separated) : (a.settle id p).Indexed := by
  unfold Archive.settle
  split
  · refine (h.index ?_).store fun _ hnone => by cases hnone
    show Separated (p.metadata.getD .empty)
    cases hm : p.metadata with
    | none => exact separated_empty
    | some m => exact hp m hm
  · split
    · apply (h.withdraw id).store
      intro p' hp'
      cases hp'
      exact hp
    · apply h.store
      intro p' hp'
      cases hp'
      exact hp

end Archive

namespace Store

open Archive (Indexed)
open ArchiveCatalog.Action (Keeps)

variable {s : Store}

/-! ## Histories -/

theorem keeps_withSlot {α : Type} {action : Action Archive α} (h : Keeps Indexed action)
    (id : String) : Keeps Indexed (withSlot id action) := by
  intro a ha
  rcases run_withSlot action a id with ⟨b, hsame, -, -, hafter⟩
  exact (h b (ha.congr hsame)).congr hafter

theorem silent_productsFound (search : Search) : Action.Silent (s.productsFound search) :=
  Action.silent_reading _

/-- What a write works on is separated. -/
theorem separated_currentPending {a : Archive} {id : String} {p : Pending} (ha : a.Indexed)
    (h : ((s.currentPending id).run a).1 = .ok p) : p.Separated := by
  rw [currentPending, Action.run_bind_ok (Action.run_get a)] at h
  cases hpending : a.cache.pending? id with
  | some waiting =>
    rw [hpending] at h
    cases h
    exact ha.pending id p hpending
  | none =>
    rw [hpending] at h
    rcases document?_of_loadPending h with ⟨d, t, hfound, -, rfl⟩
    intro m hm
    cases hm
    exact ha.documents d (List.mem_of_find?_eq_some hfound)

theorem keeps_mutate (p : Product) {change : Action Pending Unit} (hatomic : Action.Atomic change)
    (hchange : Keeps Pending.Separated change) : Keeps Indexed (s.mutate p change) := by
  unfold mutate
  refine (Action.silent_ofExcept _).keeps.bind fun id => ?_
  intro a ha
  have hcongr : ∀ b c, Archive.Same c b → b.Indexed → c.Indexed := fun b c hsame hb =>
    hb.congr hsame
  refine Action.Ends.property (ends_withSlot hcongr hcongr fun b hsame hslot => ?_)
  have hb := ha.congr hsame
  refine ends_changeInSlot hatomic hslot ?_ fun c halike => hb.congr halike.same
  intro q q' c hcurrent hrun halike
  have hbefore := separated_currentPending hb (congrArg Prod.fst hcurrent)
  have hkept := hchange q hbefore
  rw [hrun] at hkept
  exact (hb.settle hkept).congr halike.same

theorem keeps_add (r : Registration) (p : Product) : Keeps Indexed (s.add r p) := by
  unfold add
  refine (Action.silent_ofExcept _).keeps.bind fun _ => (Action.silent_ofExcept _).keeps.bind ?_
  intro t
  refine (keeps_withSlot ?_ _).bind fun _ => (Action.silent_pure _).keeps
  intro a ha
  apply ha.store
  intro waiting hwaiting m hm
  cases hwaiting
  cases hm

theorem keeps_remove (p : Product) : Keeps Indexed (remove p) := by
  unfold remove
  refine (Action.silent_ofExcept _).keeps.bind fun id => keeps_withSlot ?_ id
  unfold eraseInSlot
  intro a ha
  rw [Action.run_bind_ok (Action.run_get a)]
  cases a.cache.pending? id with
  | some pending =>
    show Indexed ((if pending.indexed then a.withdraw id else a).store id none)
    refine Indexed.store ?_ fun _ hnone => by cases hnone
    split
    · exact ha.withdraw id
    · exact ha
  | none =>
    exact ((silent_requireDocument id).bind fun _ => Action.silent_pure _).bind_property ha
      fun _ => ha.withdraw id

/-- No declared element has a separator in its name. -/
def SeparatesNames (schema : Schema) : Prop :=
  ∀ t, ∀ name ∈ schema.declaredNames t, Separable name

theorem keeps_addMetadata (hschema : s.schema.Regular) (hnames : SeparatesNames s.schema)
    (m : Metadata) (p : Product) : Keeps Indexed (s.addMetadata m p) := by
  refine keeps_mutate p (s.atomic_mergeDeclared m) ?_
  intro before hbefore
  rw [run_mergeDeclared, hschema.declaredMetadata_eq]
  intro merged hmerged
  cases hmerged
  refine Separated.merge ?_ (Separated.reduce (hnames _) m)
  cases hm : before.metadata with
  | none => exact separated_empty
  | some stored => exact hbefore stored hm

theorem keeps_removeMetadata (m : Metadata) (p : Product) :
    Keeps Indexed (s.removeMetadata m p) := by
  apply keeps_mutate p (Action.atomic_modify _)
  intro before hbefore removed hremoved
  rcases Option.map_eq_some_iff.1 hremoved with ⟨stored, hstored, rfl⟩
  exact (hbefore stored hstored).removeValues m

/-- Metadata stay when only the product is changed. -/
theorem keeps_editProduct (p : Product) (change : Product → Product) :
    Keeps Indexed (s.mutate p <| modify fun pending =>
      { pending with product := change pending.product }) :=
  keeps_mutate p (Action.atomic_modify _) fun _ hbefore => hbefore

theorem keeps_modify (p : Product) : Keeps Indexed (s.modifyProduct p) :=
  keeps_editProduct p fun old => { old with
    name := p.name, fileStructure := p.fileStructure, status := p.status,
    references := p.references }

theorem keeps_setStatus (p : Product) : Keeps Indexed (s.setStatus p) :=
  keeps_editProduct p fun old => { old with status := p.status }

theorem keeps_addReferences (p : Product) : Keeps Indexed (s.addReferences p) :=
  keeps_editProduct p fun old => { old with references := p.references }

theorem silent_byId (id : String) : Action.Silent (s.byId id) :=
  (silent_requireDocument id).bind fun _ => Action.silent_ofExcept _

theorem silent_productsOfType (t : ProductType) : Action.Silent (s.productsOfType t) :=
  (Action.silent_ofExcept _).bind fun _ => silent_productsFound _

theorem silent_matching (q : Query) (t : ProductType) : Action.Silent (s.matching q t) :=
  (Action.silent_ofExcept _).bind fun _ => (Action.silent_ofExcept _).bind fun _ =>
    silent_productsFound _

theorem silent_byName (name : String) : Action.Silent (s.byName name) := by
  apply (silent_productsFound _).bind
  intro found
  split
  · exact Action.silent_throw _
  · exact Action.silent_pure _
  · exact Action.silent_throw _

/-- Operations that are no writes only read. -/
theorem silent_perform {op : Operation} (hread : op.isWrite = false) :
    Action.Silent (s.catalog.perform op) := by
  cases op with
  | add r p | modify p | remove p | setStatus p | addReferences p | addMetadata m p
  | removeMetadata m p => cases hread
  | byId id => exact (silent_byId id).answer _
  | byName name => exact (silent_byName name).answer _
  | references p =>
    exact ((Action.silent_ofExcept _).bind fun id => (silent_byId id).answer _).answer _
  | products => exact (silent_productsFound _).answer _
  | productsOfType t => exact (silent_productsOfType t).answer _
  | metadata p =>
    exact ((Action.silent_ofExcept _).bind fun id => (silent_requireDocument id).answer _).answer _
  | query q t => exact ((silent_matching q t).answer _).answer _
  | page q t number =>
    exact ((silent_matching q t).bind fun _ => (Action.silent_ofExcept _).answer _).answer _
  | newest n => exact ((silent_productsFound _).answer _).answer _
  | newestOfType n t => exact ((silent_productsOfType t).answer _).answer _
  | count t =>
    exact ((Action.silent_ofExcept _).bind fun _ => Action.silent_get.answer _).answer _

/-- Every operation keeps archives indexed. -/
theorem keeps_perform (hschema : s.schema.Regular) (hnames : SeparatesNames s.schema)
    (op : Operation) : Keeps Indexed (s.catalog.perform op) := by
  cases op with
  | add r p => exact (keeps_add r p).answer _
  | modify p => exact (keeps_modify p).answer _
  | remove p => exact (keeps_remove p).answer _
  | setStatus p => exact (keeps_setStatus p).answer _
  | addReferences p => exact (keeps_addReferences p).answer _
  | addMetadata m p => exact (keeps_addMetadata hschema hnames m p).answer _
  | removeMetadata m p => exact (keeps_removeMetadata m p).answer _
  | _ => exact (silent_perform rfl).keeps

/-- Archives filled by a catalog are indexed. -/
theorem indexed_after (hschema : s.schema.Regular) (hnames : SeparatesNames s.schema)
    (history : List Operation) : (s.catalog.after .empty history).Indexed :=
  Catalog.after_induction (fun op _ => keeps_perform hschema hnames op) Archive.indexed_empty

/-! ## Queries -/

/-- The documents that a query on a type is to find. -/
def wanted (q : Query) (t : ProductType) (a : Archive) : List Document :=
  a.documents.filter fun d => d.typeId == t.id && q.anchored d.metadata

/-- A query on a type that is found under its id answers the wanted documents, newest first. -/
theorem run_query (hschema : s.schema.Regular) {u t : ProductType}
    (hres : s.schema.resolveType u = .ok t) (hid : t.id ≠ "") {q : Query}
    (hdeclared : ∀ e ∈ q.elements, e ∈ s.schema.declaredNames t)
    (hnames : SeparatesNames s.schema) {a : Archive} (ha : a.Indexed) :
    (s.query q u).run a =
      (.ok ((Document.newestFirst (wanted q t a)).map Document.id), a) := by
  have htype : s.schema.typeById t.id = .ok t := hschema.typeById_eq_ok_iff.2
    (hschema.typeOf?_of_mem (hschema.mem_of_resolveType hres) hid)
  have hwanted :
      (a.documents.filter fun d => (Search.ofQuery q t.id).accepts d) = wanted q t a := by
    apply List.filter_congr
    intro d hd
    rw [Search.accepts_ofQuery, Search.finds_eq_anchored (ha.documents d hd)
      fun e he => hnames t e (hdeclared e he)]
  -- one document that cannot be read back would fail the whole query
  have hdecoded : ∀ d ∈ Document.newestFirst (wanted q t a), s.productOf d = .ok (d.product t) := by
    intro d hd
    have hmem : d ∈ wanted q t a := List.mem_mergeSort.1 hd
    have hsame : d.typeId = t.id := by
      simpa using (Bool.and_eq_true_iff.1 (List.mem_filter.1 hmem).2).1
    rw [productOf, hsame, htype]
    rfl
  have hfound : (s.productsFound (.ofQuery q t.id)).run a =
      (.ok ((Document.newestFirst (wanted q t a)).map fun d => d.product t), a) := by
    rw [productsFound, Action.run_reading, hwanted, Action.mapM_eq_ok hdecoded]
  have hmatching : (s.matching q u).run a =
      (.ok ((Document.newestFirst (wanted q t a)).map fun d => d.product t), a) := by
    rw [matching, Action.run_bind, Action.run_ofExcept, hres]
    dsimp only
    rw [Action.run_bind, Action.run_ofExcept, hschema.checkQuery_eq hdeclared]
    exact hfound
  rw [query, Action.run_bind_ok hmatching, Action.run_pure, List.filterMap_map]
  exact congrArg (fun ids => (Except.ok ids, a)) (congrFun List.filterMap_eq_map _)

/-- On every archive filled by a catalog, and on every indexed archive at all, a query answers each
once exactly the indexed products of the type whose metadata satisfy it in the anchored sense. On a
product that has the elements which the query negates directly it agrees with `Query.holds`. -/
theorem query_answers_anchored (s : Store) (hschema : s.schema.Regular)
    (hnames : SeparatesNames s.schema) {u t : ProductType}
    (hres : s.schema.resolveType u = .ok t) (hid : t.id ≠ "") (q : Query)
    (hdeclared : ∀ e ∈ q.elements, e ∈ s.schema.declaredNames t) :
    (∀ history, (s.catalog.after .empty history).Indexed) ∧
      ∀ a : Archive, a.Indexed →
        ∃ ids, ((s.catalog.query q u).run a).1 = .ok ids ∧ ids.Nodup ∧
          (∀ id, id ∈ ids ↔ ∃ d ∈ a.documents, d.id = id ∧ d.typeId = t.id ∧
            q.anchored d.metadata = true) ∧
          ∀ d ∈ a.documents, d.typeId = t.id →
            (∀ e ∈ q.negatedElements, d.metadata.values e ≠ []) →
            (d.id ∈ ids ↔ q.holds d.metadata = true) := by
  refine ⟨indexed_after hschema hnames, ?_⟩
  intro a ha
  have hperm : (Document.newestFirst (wanted q t a)).Perm (wanted q t a) := List.mergeSort_perm _ _
  have hmem : ∀ id, id ∈ (Document.newestFirst (wanted q t a)).map Document.id ↔
      ∃ d ∈ a.documents, d.id = id ∧ d.typeId = t.id ∧ q.anchored d.metadata = true := by
    intro id
    rw [(hperm.map Document.id).mem_iff, List.mem_map]
    constructor
    · rintro ⟨d, hd, rfl⟩
      rcases List.mem_filter.1 hd with ⟨hd, hwanted⟩
      rw [Bool.and_eq_true, beq_iff_eq] at hwanted
      exact ⟨d, hd, rfl, hwanted⟩
    · rintro ⟨d, hd, rfl, hwanted⟩
      refine ⟨d, List.mem_filter.2 ⟨hd, ?_⟩, rfl⟩
      rwa [Bool.and_eq_true, beq_iff_eq]
  refine ⟨_, ?_, ?_, hmem, ?_⟩
  · exact congrArg Prod.fst (run_query hschema hres hid hdeclared hnames ha)
  · exact (hperm.map Document.id).nodup_iff.2 (ha.ids.sublist (List.filter_sublist.map _))
  · intro d hd hsame hnegated
    rw [hmem, ← Query.anchored_eq_holds hnegated]
    constructor
    -- the id answered may be that of no other document
    · rintro ⟨d', hd', hid', -, hanchored⟩
      rwa [List.inj_on_of_nodup_map ha.ids hd' hd hid'] at hanchored
    · exact fun hanchored => ⟨d, hd, rfl, hsame, hanchored⟩

/-! ## Two types -/

/-- A type with two elements, the name of one of which begins with that of the other. -/
def granule : ProductType := ⟨"urn:granule", "GRANULE", "", "", "", .empty⟩

/-- A type without an id. -/
def nameless : ProductType := ⟨"", "NAMELESS", "", "", "", .empty⟩

/-- A catalog of the two types. -/
def twoTypesStore : Store where
  schema := SchemaDocument.toSchema
    { version := 1
      elements := [⟨"urn:band", "Band", ""⟩, ⟨"urn:bandwidth", "Band width", ""⟩]
      types := [⟨granule, ["Band", "Band width"]⟩, ⟨nameless, []⟩] }
  pageSize := 20

/-- A product is registered with a file in the archive and given metadata. -/
def twoSteps (t : ProductType) : List Operation :=
  let p : Product := ⟨none, "a", t, .flat, .received, [⟨"a", "b", 7, none⟩], none⟩
  [.add ⟨"1", 5⟩ p, .addMetadata (.ofPairs [("Band width", "7")]) { p with id := some "1" }]

theorem separatesNames_twoTypes : SeparatesNames twoTypesStore.schema := by
  intro t name hname
  have hall : ∀ e ∈ twoTypesStore.schema.elements.elements, Separable e.name := by
    decide +kernel
  rcases List.mem_map.1 hname with ⟨e, he, rfl⟩
  exact hall e (List.mem_of_find?_eq_some (ElementRegistry.name_of_mem_elementsOf he).2)

/-- A product with another element of the same beginning is not found by a negation. -/
theorem anchored_query_finds_granules :
    SeparatesNames twoTypesStore.schema ∧
    ∃ ids, ((twoTypesStore.catalog.query ⟨[.negation (.term "Band" "A")]⟩ (.named "GRANULE")).run
      (twoTypesStore.catalog.after .empty (twoSteps granule))).1 = .ok ids ∧ ids.Nodup ∧
      "1" ∉ ids := by
  have hres : twoTypesStore.schema.resolveType (.named "GRANULE") = .ok granule := by
    decide +kernel
  have hdeclared : ∀ e ∈ (⟨[.negation (.term "Band" "A")]⟩ : Query).elements,
      e ∈ twoTypesStore.schema.declaredNames granule := by
    decide +kernel
  obtain ⟨hreachable, hanswers⟩ := query_answers_anchored twoTypesStore (Schema.regular_toSchema _)
    separatesNames_twoTypes hres (by decide) ⟨[.negation (.term "Band" "A")]⟩ hdeclared
  rcases hanswers _ (hreachable (twoSteps granule)) with ⟨ids, hrun, hnodup, hmem, -⟩
  refine ⟨separatesNames_twoTypes, ids, hrun, hnodup, ?_⟩
  intro hone
  rcases (hmem "1").1 hone with ⟨d, hd, -, -, hanchored⟩
  have hnone : ∀ d ∈ (twoTypesStore.catalog.after .empty (twoSteps granule)).documents,
      (⟨[.negation (.term "Band" "A")]⟩ : Query).anchored d.metadata = false := by
    decide +kernel
  rw [hnone d hd] at hanchored
  cases hanchored

/-- The only product of the type without an id is indexed, but every query on the type fails. -/
theorem query_fails_for_empty_type_id :
    twoTypesStore.schema.Regular ∧ SeparatesNames twoTypesStore.schema ∧
    twoTypesStore.schema.resolveType (.named "NAMELESS") = .ok nameless ∧
    (twoTypesStore.catalog.after .empty (twoSteps nameless)).documents.map
      (fun d => (d.id, d.typeId)) = [("1", nameless.id)] ∧
    ((twoTypesStore.catalog.query .everything (.named "NAMELESS")).run
      (twoTypesStore.catalog.after .empty (twoSteps nameless))).1 =
        .error (.unresolvedType "" "") ∧
    ((twoTypesStore.catalog.query .everything (.named "NAMELESS")).run
      (twoTypesStore.catalog.after .empty (twoSteps nameless))).1 ≠ .ok ["1"] := by
  have hres : twoTypesStore.schema.resolveType (.named "NAMELESS") = .ok nameless := by
    decide +kernel
  have hanswer : ((twoTypesStore.catalog.query .everything (.named "NAMELESS")).run
      (twoTypesStore.catalog.after .empty (twoSteps nameless))).1 =
        .error (.unresolvedType "" "") := by
    decide +kernel
  refine ⟨Schema.regular_toSchema _, separatesNames_twoTypes, hres, by decide +kernel, hanswer, ?_⟩
  rw [hanswer]
  exact fun h => by cases h

end Store

end ArchiveCatalog.Inverted

import ArchiveCatalog.Proofs.Action
import ArchiveCatalog.Proofs.Metadata
import ArchiveCatalog.Schema.Document

namespace ArchiveCatalog

/-! # Schemas that answer

A schema is regular when its collaborators answer and its registries were filled by
registering and declaring only: no two elements or types share an id, and no type declares
a name twice. A regular schema finds every type with an id again under that id, and the
elements of a type have different names and different ids.
-/

/-! ## Registries -/

/-- Putting an entry last in place of the one with its key keeps the keys different. -/
theorem nodup_map_replace {α : Type} (key : α → String) {entries : List α}
    (h : (entries.map key).Nodup) (entry : α) :
    ((entries.filter (key · != key entry) ++ [entry]).map key).Nodup := by
  rw [List.map_append, List.nodup_append]
  refine ⟨h.sublist (List.filter_sublist.map _), by simp, ?_⟩
  intro a ha b hb heq
  rcases List.mem_map.1 ha with ⟨kept, hkept, rfl⟩
  have hne : key kept ≠ key entry := by simpa using (List.mem_filter.1 hkept).2
  exact hne (heq.trans (by simpa using hb))

namespace ElementRegistry

/-- No id is registered twice and no name is declared twice. -/
structure Regular (r : ElementRegistry) : Prop where
  ids : (r.elements.map Element.id).Nodup
  names : ∀ typeId, (r.declared typeId).Nodup

theorem Regular.empty : Regular .empty := ⟨List.nodup_nil, fun _ => List.nodup_nil⟩

theorem Regular.register {r : ElementRegistry} (h : r.Regular) (e : Element) :
    (r.register e).Regular := ⟨nodup_map_replace Element.id h.ids e, h.names⟩

/-- Names already declared for the type stand first, whoever declares more. -/
theorem declared_declare (r : ElementRegistry) (typeId other : String) (names : List String) :
    (r.declare typeId names).declared other =
      if other = typeId then names.foldl appendNew (r.declared typeId) else r.declared other := by
  unfold ElementRegistry.declare ElementRegistry.declared
  rw [lookup_cons_ite, lookup_filter_ne]
  split <;> simp [*]

theorem Regular.declare {r : ElementRegistry} (h : r.Regular) (typeId : String)
    (names : List String) : (r.declare typeId names).Regular := by
  refine ⟨h.ids, ?_⟩
  intro other
  rw [declared_declare]
  split
  · exact Metadata.nodup_foldl_appendNew names (h.names typeId)
  · exact h.names other

variable {r : ElementRegistry} {typeId : String}

theorem name_of_mem_elementsOf {e : Element} (he : e ∈ r.elementsOf typeId) :
    e.name ∈ r.declared typeId ∧ r.byName? e.name = some e := by
  rcases List.mem_filterMap.1 he with ⟨name, hname, hfound⟩
  have heq : e.name = name := by simpa using List.find?_some hfound
  rw [heq]
  exact ⟨hname, hfound⟩

theorem Regular.names_elementsOf (h : r.Regular) :
    ((r.elementsOf typeId).map Element.name).Nodup := by
  -- names without an element fall out, the others stay in their order
  have hsub : ∀ names : List String,
      ((names.filterMap r.byName?).map Element.name).Sublist names := by
    intro names
    induction names with
    | nil => exact List.Sublist.refl _
    | cons name rest ih =>
      cases hfound : r.byName? name with
      | none => simpa [List.filterMap_cons, hfound] using ih.cons name
      | some e =>
        have heq : e.name = name := by simpa using List.find?_some hfound
        simpa [List.filterMap_cons, hfound, heq] using ih.cons_cons name
  exact (h.names typeId).sublist (hsub _)

theorem Regular.ids_elementsOf (h : r.Regular) :
    ((r.elementsOf typeId).map Element.id).Nodup := by
  refine List.Nodup.map_on ?_ h.names_elementsOf.of_map
  intro a ha b hb hid
  -- elements of a type are elements of the registry, where no id occurs twice
  have hmem : ∀ e ∈ r.elementsOf typeId, e ∈ r.elements := fun e he =>
    List.mem_of_find?_eq_some (name_of_mem_elementsOf he).2
  exact List.inj_on_of_nodup_map h.ids (hmem a ha) (hmem b hb) hid

end ElementRegistry

namespace TypeRegistry

/-- No id is registered twice. -/
def Regular (r : TypeRegistry) : Prop := (r.types.map ProductType.id).Nodup

theorem Regular.empty : Regular .empty := List.nodup_nil

theorem Regular.register {r : TypeRegistry} (h : r.Regular) (t : ProductType) :
    (r.register t).Regular := nodup_map_replace ProductType.id h t

end TypeRegistry

namespace Schema

/-- Both collaborators answer from regular registries. -/
structure Regular (s : Schema) : Prop where
  answers : s.outage = .none
  elements : s.elements.Regular
  types : s.types.Regular

/-- The schema of every document is regular. -/
theorem regular_toSchema (d : SchemaDocument) : d.toSchema.Regular := by
  refine ⟨rfl, ?_, ?_⟩
  · have hregister : ∀ (es : List Element) (r : ElementRegistry), r.Regular →
        (es.foldl ElementRegistry.register r).Regular := by
      intro es
      induction es with
      | nil => exact fun _ h => h
      | cons e rest ih => exact fun _ h => ih _ (h.register e)
    have hdeclare : ∀ (ts : List TypeEntry) (r : ElementRegistry), r.Regular →
        (ts.foldl (fun r entry => r.declare entry.type.id entry.elements) r).Regular := by
      intro ts
      induction ts with
      | nil => exact fun _ h => h
      | cons entry rest ih => exact fun _ h => ih _ (h.declare entry.type.id entry.elements)
    exact hdeclare _ _ (hregister _ _ .empty)
  · have hregister : ∀ (ts : List TypeEntry) (r : TypeRegistry), r.Regular →
        (ts.foldl (fun r entry => r.register entry.type) r).Regular := by
      intro ts
      induction ts with
      | nil => exact fun _ h => h
      | cons entry rest ih => exact fun _ h => ih _ (h.register entry.type)
    exact hregister _ _ .empty

/-! ## Elements -/

/-- The elements declared for a type. -/
def declaredElements (s : Schema) (t : ProductType) : List Element := s.elements.elementsOf t.id

/-- The names declared for a type. -/
def declaredNames (s : Schema) (t : ProductType) : List String :=
  (s.declaredElements t).map Element.name

variable {s : Schema} {t : ProductType}

theorem Regular.guard_eq {α : Type} (h : s.Regular) (q : Question)
    (answer : Except CatalogError α) : s.outage.guard q answer = answer := by
  rw [h.answers]
  cases q <;> rfl

/-- With all calls answered the stages of an operation make no difference. -/
theorem Regular.inStage_eq (h : s.Regular) (stage : Stage) : s.inStage stage = s := by
  have hnone : s.outage.inStage stage = s.outage := by
    rw [h.answers]
    rfl
  rw [inStage, hnone]

theorem Regular.elementsFor_eq (h : s.Regular) (t : ProductType) :
    s.elementsFor t = .ok (s.declaredElements t) := h.guard_eq _ _

theorem Regular.declaredMetadata_eq (h : s.Regular) (t : ProductType) (m : Metadata) :
    s.declaredMetadata t m = .ok (m.reduce (s.declaredNames t)) := by
  unfold declaredMetadata
  rw [h.elementsFor_eq]
  rfl

theorem Regular.nodup_declaredNames (h : s.Regular) (t : ProductType) :
    (s.declaredNames t).Nodup := h.elements.names_elementsOf

theorem Regular.nodup_declaredIds (h : s.Regular) (t : ProductType) :
    ((s.declaredElements t).map Element.id).Nodup := h.elements.ids_elementsOf

theorem find?_eq_some_of_nodup {α : Type} {key : α → String} {entries : List α}
    (h : (entries.map key).Nodup) {a : α} (ha : a ∈ entries) :
    entries.find? (key · == key a) = some a := by
  cases hfound : entries.find? (key · == key a) with
  | none => simpa using List.find?_eq_none.1 hfound a ha
  | some b =>
    have hb : key b = key a := by simpa using List.find?_some hfound
    rw [List.inj_on_of_nodup_map h (List.mem_of_find?_eq_some hfound) ha hb]

/-- The id under which a name is declared for a type. -/
def elementId (s : Schema) (t : ProductType) (name : String) : String :=
  (((s.declaredElements t).find? (·.name == name)).map Element.id).getD ""

theorem Regular.find?_name (h : s.Regular) {name : String} (hname : name ∈ s.declaredNames t) :
    ∃ e, (s.declaredElements t).find? (·.name == name) = some e ∧ e.name = name ∧
      e.id = s.elementId t name := by
  rcases List.mem_map.1 hname with ⟨e, he, rfl⟩
  have hfound := find?_eq_some_of_nodup (h.nodup_declaredNames t) he
  exact ⟨e, hfound, rfl, by simp [elementId, hfound]⟩

/-- The elements of a type are found by id as well. -/
theorem Regular.find?_elementId (h : s.Regular) {name : String} (hname : name ∈ s.declaredNames t) :
    ∃ e, (s.declaredElements t).find? (·.id == s.elementId t name) = some e ∧ e.name = name := by
  rcases h.find?_name hname with ⟨e, hfound, hsame, hid⟩
  rw [← hid]
  have hmem := List.mem_of_find?_eq_some hfound
  exact ⟨e, find?_eq_some_of_nodup (h.nodup_declaredIds t) hmem, hsame⟩

theorem Regular.elementId_inj (h : s.Regular) {a b : String} (ha : a ∈ s.declaredNames t)
    (hb : b ∈ s.declaredNames t) (hid : s.elementId t a = s.elementId t b) : a = b := by
  rcases h.find?_elementId ha with ⟨d, hd, rfl⟩
  rcases h.find?_elementId hb with ⟨e, he, rfl⟩
  rw [hid, he] at hd
  cases hd
  rfl

/-- A query passes the check exactly when all its elements are declared. -/
theorem Regular.checkQuery_eq (h : s.Regular) {q : Query}
    (hq : ∀ e ∈ q.elements, e ∈ s.declaredNames t) : s.checkQuery q t = .ok () := by
  have hnone : q.elements.find? (fun name => !(s.declaredNames t).contains name) = none :=
    List.find?_eq_none.2 fun e he => by simpa using hq e he
  unfold checkQuery
  rw [h.elementsFor_eq]
  dsimp only [bind, Except.bind]
  rw [← declaredNames, hnone]

theorem Regular.declared_of_checkQuery (h : s.Regular) {q : Query}
    (hq : s.checkQuery q t = .ok ()) :
    ∀ e ∈ q.elements, e ∈ s.declaredNames t := by
  unfold checkQuery at hq
  rw [h.elementsFor_eq] at hq
  dsimp only [bind, Except.bind] at hq
  rw [← declaredNames] at hq
  cases hfound : q.elements.find? (fun name => !(s.declaredNames t).contains name) with
  | some name => rw [hfound] at hq; cases hq
  | none => exact fun e he => by simpa using List.find?_eq_none.1 hfound e he

/-! ## Types -/

/-- The type registered under an id. No type is found under the empty id. -/
def typeOf? (s : Schema) (id : String) : Option ProductType :=
  if id = "" then none else s.types.types.find? (·.id == id)

theorem Regular.typeById_eq (h : s.Regular) (id : String) :
    s.typeById id =
      match s.typeOf? id with
      | some t => .ok t
      | none => .error (.unresolvedType id "") := by
  unfold typeById resolveType lookupUnless registeredType typeOf? TypeRegistry.byId
  rw [h.guard_eq]
  by_cases hid : id = ""
  · subst hid
    rfl
  · cases hfound : s.types.types.find? (·.id == id) with
    | some t => simp [ProductType.withId, hid, hfound, orNone, bind, Except.bind]
    | none =>
      simp [ProductType.withId, hid, hfound, orNone, bind, Except.bind, CatalogError.isNotFound,
        CatalogError.kind]

theorem Regular.typeById_eq_ok_iff (h : s.Regular) {id : String} :
    s.typeById id = .ok t ↔ s.typeOf? id = some t := by
  rw [h.typeById_eq]
  cases s.typeOf? id <;> simp

theorem id_of_typeOf? {id : String} (h : s.typeOf? id = some t) : t.id = id ∧ id ≠ "" := by
  unfold typeOf? at h
  split at h
  · cases h
  · rename_i hid
    exact ⟨by simpa using List.find?_some h, hid⟩

/-- A registered type that has an id is found again under it. -/
theorem Regular.typeOf?_of_mem (h : s.Regular) (hmem : t ∈ s.types.types) (hid : t.id ≠ "") :
    s.typeOf? t.id = some t := by
  unfold typeOf?
  rw [if_neg hid]
  cases hfound : s.types.types.find? (·.id == t.id) with
  | none => simpa using List.find?_eq_none.1 hfound t hmem
  | some u =>
    have hu : u.id = t.id := by simpa using List.find?_some hfound
    rw [List.inj_on_of_nodup_map h.types (List.mem_of_find?_eq_some hfound) hmem hu]

/-- No other type has the id of a registered type. -/
theorem Regular.eq_of_typeById (h : s.Regular) (hmem : t ∈ s.types.types) {u : ProductType}
    (hu : s.typeById t.id = .ok u) : u = t := by
  rw [h.typeById_eq_ok_iff] at hu
  rw [h.typeOf?_of_mem hmem (id_of_typeOf? hu).2] at hu
  exact (Option.some.inj hu).symm

theorem lookupUnless_eq_ok_some {key : String} {answer : Except CatalogError ProductType} :
    lookupUnless key answer = .ok (some t) ↔ key ≠ "" ∧ answer = .ok t := by
  unfold lookupUnless
  by_cases hkey : key = ""
  · simp [hkey]
  · cases answer with
    | ok a => simp [hkey, orNone]
    | error e =>
      rw [if_neg hkey, orNone]
      split <;> simp

/-- A type is found by its id or, if nothing is found by that, as the only one of its name. -/
theorem resolveType_cases {u : ProductType} (h : s.resolveType u = .ok t) :
    u.id ≠ "" ∧ s.registeredType u.id = .ok t ∨
      lookupUnless u.id (s.registeredType u.id) = .ok none ∧
        u.name ≠ "" ∧ s.registeredTypeNamed u.name = .ok t := by
  unfold resolveType at h
  rcases Action.bind_eq_ok_iff.1 h with ⟨found, hid, h⟩
  cases found with
  | some v =>
    cases h
    exact .inl (lookupUnless_eq_ok_some.1 hid)
  | none =>
    rcases Action.bind_eq_ok_iff.1 h with ⟨found, hname, h⟩
    cases found with
    | some v =>
      cases h
      exact .inr ⟨hid, lookupUnless_eq_ok_some.1 hname⟩
    | none => cases h

theorem Regular.mem_of_registeredType (h : s.Regular) {id : String}
    (ht : s.registeredType id = .ok t) : t ∈ s.types.types := by
  rw [registeredType, h.guard_eq, TypeRegistry.byId] at ht
  split at ht
  · rename_i found hfound
    cases ht
    exact List.mem_of_find?_eq_some hfound
  · cases ht

theorem Regular.mem_of_registeredTypeNamed (h : s.Regular) {name : String}
    (ht : s.registeredTypeNamed name = .ok t) : t ∈ s.types.types := by
  rw [registeredTypeNamed, h.guard_eq, TypeRegistry.byName] at ht
  split at ht
  · rename_i found hfound
    cases ht
    have hmem : t ∈ s.types.types.filter (·.name == name) := by simp [hfound]
    exact (List.mem_filter.1 hmem).1
  · cases ht
  · cases ht

/-- What a partial type is resolved to is registered. -/
theorem Regular.mem_of_resolveType (h : s.Regular) {partialType : ProductType}
    (hres : s.resolveType partialType = .ok t) : t ∈ s.types.types := by
  rcases resolveType_cases hres with ⟨-, hid⟩ | ⟨-, -, hname⟩
  · exact h.mem_of_registeredType hid
  · exact h.mem_of_registeredTypeNamed hname

/-- A resolved type that has an id is found again under it; under the empty id no type is found. -/
theorem Regular.typeById_iff_of_resolveType (h : s.Regular) {partialType : ProductType}
    (hres : s.resolveType partialType = .ok t) : s.typeById t.id = .ok t ↔ t.id ≠ "" := by
  rw [h.typeById_eq_ok_iff]
  constructor
  · intro hfound
    exact (id_of_typeOf? hfound).2
  · intro hid
    exact h.typeOf?_of_mem (h.mem_of_resolveType hres) hid

theorem Regular.id_of_registeredType (h : s.Regular) {id : String}
    (ht : s.registeredType id = .ok t) : t.id = id := by
  rw [registeredType, h.guard_eq, TypeRegistry.byId] at ht
  split at ht
  · rename_i found hfound
    cases ht
    simpa using List.find?_some hfound
  · cases ht

theorem Regular.name_of_registeredTypeNamed (h : s.Regular) {name : String}
    (ht : s.registeredTypeNamed name = .ok t) : t.name = name := by
  rw [registeredTypeNamed, h.guard_eq, TypeRegistry.byName] at ht
  split at ht
  · rename_i found hfound
    cases ht
    have hmem : t ∈ s.types.types.filter (·.name == name) := by simp [hfound]
    simpa using (List.mem_filter.1 hmem).2
  · cases ht
  · cases ht

theorem resolveType_of_id {u : ProductType} (hid : u.id ≠ "")
    (hfound : s.registeredType u.id = .ok t) : s.resolveType u = .ok t := by
  rw [resolveType, lookupUnless_eq_ok_some.2 ⟨hid, hfound⟩]
  rfl

theorem resolveType_of_name {u : ProductType} (hid : u.id = "") (hname : u.name ≠ "")
    (hfound : s.registeredTypeNamed u.name = .ok t) : s.resolveType u = .ok t := by
  have hskipped : lookupUnless u.id (s.registeredType u.id) = .ok none := if_pos hid
  have hlookup := lookupUnless_eq_ok_some.2 ⟨hname, hfound⟩
  unfold resolveType
  rw [hskipped]
  dsimp only [bind, Except.bind]
  rw [hlookup]

/-- What is found by the id is what the type is resolved to. -/
theorem resolveType_of_typeById {u : ProductType} (h : s.typeById u.id = .ok t) :
    s.resolveType u = .ok t := by
  rcases resolveType_cases h with ⟨hid, hfound⟩ | ⟨-, hname, -⟩
  · exact resolveType_of_id hid hfound
  · exact absurd rfl hname

/-- A resolved type is resolved to itself. -/
theorem Regular.resolveType_of_resolveType (h : s.Regular) {partialType : ProductType}
    (hres : s.resolveType partialType = .ok t) : s.resolveType t = .ok t := by
  by_cases hid : t.id = ""
  · -- it has been found by its name, by which it is found again
    rcases resolveType_cases hres with ⟨hne, hfound⟩ | ⟨-, hne, hfound⟩
    · exact absurd ((h.id_of_registeredType hfound).symm.trans hid) hne
    · have hname := h.name_of_registeredTypeNamed hfound
      rw [← hname] at hne hfound
      exact resolveType_of_name hid hne hfound
  · exact resolveType_of_typeById ((h.typeById_iff_of_resolveType hres).2 hid)

end Schema

end ArchiveCatalog

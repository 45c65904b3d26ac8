import ArchiveCatalog.Config.Document
import ArchiveCatalog.Proofs.Schema
import Mathlib.Data.List.Induction

namespace ArchiveCatalog

/-! # Documents without loss

Registering replaces what has the same id, declaring passes over names it has seen, and a name
that no element has falls out of the elements of a type. A validated document gives no occasion
for any of this: its types and elements stand in its schema as they stand in the document, and a
type has the elements that its entry names, each once and in the order in which they are first
named.
-/

/-- Entries with keys of their own are all appended, and none replaces another. -/
theorem foldl_replace_of_nodup {α : Type} (key : α → String) {entries added : List α}
    (h : ((entries ++ added).map key).Nodup) :
    added.foldl (fun kept a => kept.filter (key · != key a) ++ [a]) entries = entries ++ added := by
  induction added generalizing entries with
  | nil => simp
  | cons a rest ih =>
    have hsplit : ((entries ++ [a] ++ rest).map key).Nodup := by simpa using h
    have hnew : ∀ b ∈ entries, (key b != key a) = true := by
      intro b hb
      rw [List.map_append, List.nodup_append] at h
      simpa using h.2.2 _ (List.mem_map_of_mem hb) (key a) (by simp)
    rw [List.foldl_cons, List.filter_eq_self.2 hnew, ih hsplit]
    simp

/-! ## Order of first occurrence -/

namespace ElementRegistry

/-- Names stand in the order in which they occur first. -/
theorem pairwise_foldl_appendNew (names : List String) :
    (names.foldl appendNew []).Pairwise fun a b => names.idxOf a < names.idxOf b := by
  -- the induction is on the names from the last one on, since an index counts from the first
  induction names using List.reverseRecOn with
  | nil => exact List.Pairwise.nil
  | append_singleton names name ih =>
    have hmem : ∀ {a}, a ∈ names.foldl appendNew [] → a ∈ names := fun ha => by
      simpa using Metadata.mem_foldl_appendNew.1 ha
    have hearlier : (names.foldl appendNew []).Pairwise fun a b =>
        (names ++ [name]).idxOf a < (names ++ [name]).idxOf b := by
      refine ih.imp_of_mem fun ha hb hlt => ?_
      rwa [List.idxOf_append_of_mem (hmem ha), List.idxOf_append_of_mem (hmem hb)]
    rw [List.foldl_append, List.foldl_cons, List.foldl_nil, appendNew]
    split
    · exact hearlier
    · rename_i hnew
      refine List.pairwise_append.2 ⟨hearlier, List.pairwise_singleton _ _, ?_⟩
      intro a ha b hb
      have hname : name ∉ names := fun hn => hnew (Metadata.mem_foldl_appendNew.2 (.inr hn))
      rw [List.mem_singleton.1 hb, List.idxOf_append_of_mem (hmem ha),
        List.idxOf_append_of_notMem hname]
      exact Nat.lt_add_right _ (List.idxOf_lt_length_of_mem (hmem ha))

/-! ## Registering and declaring -/

theorem elements_foldl_register (elements : List Element) (r : ElementRegistry) :
    (elements.foldl register r).elements =
      elements.foldl (fun kept e => kept.filter (·.id != e.id) ++ [e]) r.elements :=
  (List.foldl_hom ElementRegistry.elements fun _ _ => rfl).symm

theorem declarations_foldl_register (elements : List Element) (r : ElementRegistry) :
    (elements.foldl register r).declarations = r.declarations := by
  induction elements generalizing r with
  | nil => rfl
  | cons e rest ih => rw [List.foldl_cons, ih, register]

theorem elements_foldl_declare (types : List TypeEntry) (r : ElementRegistry) :
    (types.foldl (fun r entry => r.declare entry.type.id entry.elements) r).elements =
      r.elements := by
  induction types generalizing r with
  | nil => rfl
  | cons entry rest ih => rw [List.foldl_cons, ih, declare]

theorem declared_foldl_of_not_mem {types : List TypeEntry} {typeId : String}
    (h : typeId ∉ types.map (·.type.id)) (r : ElementRegistry) :
    (types.foldl (fun r entry => r.declare entry.type.id entry.elements) r).declared typeId =
      r.declared typeId := by
  induction types generalizing r with
  | nil => rfl
  | cons entry rest ih =>
    rw [List.map_cons, List.mem_cons, not_or] at h
    rw [List.foldl_cons, ih h.2, declared_declare, if_neg h.1]

/-- A type with an id of its own has the names that its entry declares. -/
theorem declared_foldl_of_nodup {types : List TypeEntry} (h : (types.map (·.type.id)).Nodup)
    {entry : TypeEntry} (hentry : entry ∈ types) {r : ElementRegistry}
    (hr : r.declared entry.type.id = []) :
    (types.foldl (fun r entry => r.declare entry.type.id entry.elements) r).declared
      entry.type.id = entry.elements.foldl appendNew [] := by
  induction types generalizing r with
  | nil => cases hentry
  | cons first rest ih =>
    rw [List.map_cons, List.nodup_cons] at h
    rw [List.foldl_cons]
    rcases List.mem_cons.1 hentry with rfl | hrest
    · rw [declared_foldl_of_not_mem h.1, declared_declare, if_pos rfl, hr]
    · have hne : entry.type.id ≠ first.type.id := fun heq =>
        h.1 (heq ▸ List.mem_map_of_mem hrest)
      exact ih h.2 hrest (by rw [declared_declare, if_neg hne, hr])

end ElementRegistry

namespace TypeRegistry

variable {r : TypeRegistry} {name : String}

theorem types_foldl_register (types : List ProductType) (r : TypeRegistry) :
    (types.foldl register r).types =
      types.foldl (fun kept t => kept.filter (·.id != t.id) ++ [t]) r.types :=
  (List.foldl_hom TypeRegistry.types fun _ _ => rfl).symm

theorem byId_of_mem (h : r.Regular) {t : ProductType} (ht : t ∈ r.types) : r.byId t.id = .ok t := by
  rw [byId, Schema.find?_eq_some_of_nodup h ht]

theorem byName_of_countP_eq_one {t : ProductType} (ht : t ∈ r.types)
    (hone : r.types.countP (·.name == t.name) = 1) : r.byName t.name = .ok t := by
  rw [List.countP_eq_length_filter, List.length_eq_one_iff] at hone
  rcases hone with ⟨u, hu⟩
  have hmem : t ∈ r.types.filter (·.name == t.name) := by simpa using ht
  rw [hu, List.mem_singleton] at hmem
  rw [byName, hu, hmem]

theorem byName_of_one_lt_countP (hseveral : 1 < r.types.countP (·.name == name)) :
    r.byName name = .error (.ambiguousType name) := by
  rw [List.countP_eq_length_filter] at hseveral
  rw [byName]
  split
  · rename_i hfound
    rw [hfound] at hseveral
    exact absurd hseveral (Nat.lt_irrefl 1)
  · rename_i hnone
    rw [hnone] at hseveral
    exact absurd hseveral (Nat.not_lt_zero 1)
  · rfl

theorem byName_of_forall_ne (hnone : ∀ t ∈ r.types, t.name ≠ name) :
    r.byName name = .error (.notFound "Product type" name) := by
  have hfilter : r.types.filter (·.name == name) = [] := by
    simpa [List.filter_eq_nil_iff] using hnone
  rw [byName, hfilter]

end TypeRegistry

namespace SchemaDocument

/-! ## What validation checks -/

/-- The ids of the elements are different, so are their names and the ids of the types, and types
declare elements of the document only. -/
structure Consistent (d : SchemaDocument) : Prop where
  elementIds : (d.elements.map Element.id).Nodup
  elementNames : (d.elements.map Element.name).Nodup
  typeIds : (d.types.map (·.type.id)).Nodup
  declared : ∀ entry ∈ d.types, ∀ name ∈ entry.elements, name ∈ d.elements.map Element.name

theorem pairwise_of_checkElements {seen elements : List Element}
    (h : checkElements seen elements = .ok ()) :
    elements.Pairwise (fun a b => a.id ≠ b.id ∧ a.name ≠ b.name) ∧
      ∀ s ∈ seen, ∀ e ∈ elements, s.id ≠ e.id ∧ s.name ≠ e.name := by
  induction elements generalizing seen with
  | nil => exact ⟨List.Pairwise.nil, fun _ _ _ he => absurd he List.not_mem_nil⟩
  | cons e rest ih =>
    rw [checkElements] at h
    split at h
    · cases h
    · rename_i hnew
      -- what is seen on the way to the rest are the elements seen before and this one
      have ⟨hrest, hseen⟩ := ih h
      simp only [List.any_eq_true, Bool.or_eq_true, beq_iff_eq, not_exists, not_and, not_or] at hnew
      refine ⟨List.pairwise_cons.2 ⟨hseen e List.mem_cons_self, hrest⟩, ?_⟩
      intro s hs other hother
      rcases List.mem_cons.1 hother with rfl | hother
      · exact hnew s hs
      · exact hseen s (List.mem_cons_of_mem e hs) other hother

theorem nodup_of_checkTypes {names seen : List String} {types : List TypeEntry}
    (h : checkTypes names seen types = .ok ()) :
    (types.map (·.type.id)).Nodup ∧ (∀ entry ∈ types, entry.type.id ∉ seen) ∧
      ∀ entry ∈ types, ∀ name ∈ entry.elements, name ∈ names := by
  induction types generalizing seen with
  | nil => simp
  | cons entry rest ih =>
    rw [checkTypes] at h
    split at h
    · cases h
    · rename_i hnew
      split at h
      · cases h
      · rename_i hknown
        have ⟨hids, hseen, hdeclared⟩ := ih h
        refine ⟨?_, ?_, ?_⟩
        · rw [List.map_cons, List.nodup_cons]
          refine ⟨fun hmem => ?_, hids⟩
          rcases List.mem_map.1 hmem with ⟨other, hother, hid⟩
          exact hseen other hother (hid ▸ List.mem_cons_self)
        · exact List.forall_mem_cons.2
            ⟨hnew, fun other hother hs => hseen other hother (List.mem_cons_of_mem _ hs)⟩
        · refine List.forall_mem_cons.2 ⟨fun name hname => ?_, hdeclared⟩
          simpa using List.find?_eq_none.1 hknown name hname

theorem consistent_of_validate {d : SchemaDocument} (h : d.validate = .ok ()) : d.Consistent := by
  rcases Action.bind_eq_ok_iff.1 h with ⟨⟨⟩, helements, htypes⟩
  have hdifferent := (pairwise_of_checkElements helements).1
  obtain ⟨hids, -, hdeclared⟩ := nodup_of_checkTypes htypes
  exact ⟨List.pairwise_map.2 (hdifferent.imp And.left),
    List.pairwise_map.2 (hdifferent.imp And.right), hids, hdeclared⟩

/-- What is read from a text is validated. -/
theorem validate_of_ofYaml {text : String} {d : SchemaDocument} (h : ofYaml text = .ok d) :
    d.validate = .ok () := by
  unfold ofYaml at h
  split at h
  · cases h
  · rcases Action.bind_eq_ok_iff.1 h with ⟨⟨⟩, -, h⟩
    rcases Action.bind_eq_ok_iff.1 h with ⟨⟨⟩, hvalid, h⟩
    cases h
    exact hvalid

/-! ## What the schema has -/

namespace Consistent

variable {d : SchemaDocument}

theorem elements_elementRegistry (h : d.Consistent) : d.elementRegistry.elements = d.elements := by
  rw [elementRegistry, ElementRegistry.elements_foldl_declare,
    ElementRegistry.elements_foldl_register]
  exact foldl_replace_of_nodup Element.id h.elementIds

theorem types_typeRegistry (h : d.Consistent) :
    d.typeRegistry.types = d.types.map TypeEntry.type := by
  have hids : ((d.types.map TypeEntry.type).map ProductType.id).Nodup := by
    rw [List.map_map]
    exact h.typeIds
  rw [typeRegistry, ← List.foldl_map, TypeRegistry.types_foldl_register]
  exact foldl_replace_of_nodup ProductType.id hids

/-- The names declared for the type of an entry are those of the entry, each at its first place. -/
theorem declared_eq (h : d.Consistent) {entry : TypeEntry} (hentry : entry ∈ d.types) :
    d.elementRegistry.declared entry.type.id =
      entry.elements.foldl ElementRegistry.appendNew [] := by
  refine ElementRegistry.declared_foldl_of_nodup h.typeIds hentry ?_
  rw [ElementRegistry.declared, ElementRegistry.declarations_foldl_register]
  rfl

theorem byName?_of_mem (h : d.Consistent) {e : Element} (he : e ∈ d.elements) :
    d.elementRegistry.byName? e.name = some e := by
  rw [ElementRegistry.byName?, h.elements_elementRegistry]
  exact Schema.find?_eq_some_of_nodup h.elementNames he

theorem byId?_of_mem (h : d.Consistent) {e : Element} (he : e ∈ d.elements) :
    d.elementRegistry.byId? e.id = some e := by
  rw [ElementRegistry.byId?, h.elements_elementRegistry]
  exact Schema.find?_eq_some_of_nodup h.elementIds he

theorem byName?_eq_some_iff (h : d.Consistent) {e : Element} {name : String} :
    d.elementRegistry.byName? name = some e ↔ e ∈ d.elements ∧ e.name = name := by
  constructor
  · intro hfound
    have hmem := List.mem_of_find?_eq_some hfound
    rw [h.elements_elementRegistry] at hmem
    exact ⟨hmem, by simpa using List.find?_some hfound⟩
  · rintro ⟨he, rfl⟩
    exact h.byName?_of_mem he

theorem mem_elementsOf_iff (h : d.Consistent) {entry : TypeEntry} (hentry : entry ∈ d.types)
    {e : Element} : e ∈ d.elementRegistry.elementsOf entry.type.id ↔
      e ∈ d.elements ∧ e.name ∈ entry.elements := by
  rw [ElementRegistry.elementsOf, h.declared_eq hentry, List.mem_filterMap]
  simp only [h.byName?_eq_some_iff, Metadata.mem_foldl_appendNew, List.not_mem_nil, false_or]
  constructor
  · rintro ⟨name, hname, he, rfl⟩
    exact ⟨he, hname⟩
  · exact fun ⟨he, hname⟩ => ⟨e.name, hname, he, rfl⟩

theorem pairwise_elementsOf (h : d.Consistent) {entry : TypeEntry} (hentry : entry ∈ d.types) :
    (d.elementRegistry.elementsOf entry.type.id).Pairwise fun a b =>
      entry.elements.idxOf a.name < entry.elements.idxOf b.name := by
  rw [ElementRegistry.elementsOf, h.declared_eq hentry, List.pairwise_filterMap]
  refine (ElementRegistry.pairwise_foldl_appendNew entry.elements).imp ?_
  intro a b hlt e he f hf
  rwa [(h.byName?_eq_some_iff.1 he).2, (h.byName?_eq_some_iff.1 hf).2]

end Consistent

/-! ## What the schema answers -/

/-- The elements are those of the document that the entry names, in the order in which it names
them first, and each name has its element. -/
structure ListsElements (d : SchemaDocument) (entry : TypeEntry) (elements : List Element) :
    Prop where
  exact : ∀ e, e ∈ elements ↔ e ∈ d.elements ∧ e.name ∈ entry.elements
  complete : ∀ name ∈ entry.elements, ∃ e ∈ elements, e.name = name
  order : elements.Pairwise fun a b =>
    entry.elements.idxOf a.name < entry.elements.idxOf b.name
  nodup : elements.Nodup

/-- The schema of a document answers with everything that the document says. -/
structure Retained (d : SchemaDocument) : Prop where
  /-- The types are listed in order with all their fields. -/
  types : d.toSchema.productTypes = .ok (d.types.map TypeEntry.type)
  typeById : ∀ entry ∈ d.types, d.toSchema.registeredType entry.type.id = .ok entry.type
  /-- A name finds its type if no other entry has it. -/
  typeByName : ∀ entry ∈ d.types, d.types.countP (·.type.name == entry.type.name) = 1 →
    d.toSchema.registeredTypeNamed entry.type.name = .ok entry.type
  sharedName : ∀ name, 1 < d.types.countP (·.type.name == name) →
    d.toSchema.registeredTypeNamed name = .error (.ambiguousType name) ∧
      (CatalogError.ambiguousType name).kind = .uniquenessViolation
  unknownName : ∀ name, (∀ entry ∈ d.types, entry.type.name ≠ name) →
    d.toSchema.registeredTypeNamed name = .error (.notFound "Product type" name) ∧
      (CatalogError.notFound "Product type" name).kind = .notFound
  elementById : ∀ e ∈ d.elements, d.toSchema.registeredElement e.id = .ok e
  elementByName : ∀ e ∈ d.elements, d.toSchema.registeredElementNamed e.name = .ok e
  elementsOf : ∀ entry ∈ d.types, ∃ elements, d.toSchema.elementsFor entry.type = .ok elements ∧
    d.ListsElements entry elements

/-- Of a validated document nothing is lost. -/
theorem retained_of_validate {d : SchemaDocument} (h : d.validate = .ok ()) : d.Retained := by
  have hd := consistent_of_validate h
  have hregular := Schema.regular_toSchema d
  have htypes : d.toSchema.types.types = d.types.map TypeEntry.type := hd.types_typeRegistry
  have hcount : ∀ name, d.toSchema.types.types.countP (·.name == name) =
      d.types.countP (·.type.name == name) := by
    intro name
    rw [htypes, List.countP_map]
    rfl
  have hmem : ∀ entry ∈ d.types, entry.type ∈ d.toSchema.types.types := by
    intro entry hentry
    rw [htypes]
    exact List.mem_map_of_mem hentry
  constructor
  case types =>
    rw [Schema.productTypes, hregular.guard_eq, htypes]
  case typeById =>
    intro entry hentry
    rw [Schema.registeredType, hregular.guard_eq]
    exact TypeRegistry.byId_of_mem hregular.types (hmem entry hentry)
  case typeByName =>
    intro entry hentry hone
    rw [Schema.registeredTypeNamed, hregular.guard_eq]
    exact TypeRegistry.byName_of_countP_eq_one (hmem entry hentry) ((hcount _).trans hone)
  case sharedName =>
    intro name hseveral
    rw [Schema.registeredTypeNamed, hregular.guard_eq]
    exact ⟨TypeRegistry.byName_of_one_lt_countP (hcount name ▸ hseveral), rfl⟩
  case unknownName =>
    intro name hnone
    rw [Schema.registeredTypeNamed, hregular.guard_eq]
    refine ⟨TypeRegistry.byName_of_forall_ne ?_, rfl⟩
    rw [htypes]
    exact List.forall_mem_map.2 hnone
  case elementById =>
    intro e he
    have hfound : d.toSchema.elements.byId? e.id = some e := hd.byId?_of_mem he
    rw [Schema.registeredElement, hregular.guard_eq, hfound]
  case elementByName =>
    intro e he
    have hfound : d.toSchema.elements.byName? e.name = some e := hd.byName?_of_mem he
    rw [Schema.registeredElementNamed, hregular.guard_eq, hfound]
  case elementsOf =>
    intro entry hentry
    have horder := hd.pairwise_elementsOf hentry
    refine ⟨_, hregular.elementsFor_eq entry.type, fun e => hd.mem_elementsOf_iff hentry, ?_,
      horder, horder.imp fun hlt heq => ?_⟩
    · intro name hname
      rcases List.mem_map.1 (hd.declared entry hentry name hname) with ⟨e, he, rfl⟩
      exact ⟨e, (hd.mem_elementsOf_iff hentry).2 ⟨he, hname⟩, rfl⟩
    · exact absurd hlt (heq ▸ Nat.lt_irrefl _)

/-! ## A document with repetitions -/

namespace Logbook

/-- Two types share a name, and one of them names an element twice. -/
def text : String :=
  "version: 1\nelements: [\x7bid: b, name: Band\x7d, \x7bid: s, name: Site\x7d]\n" ++
    "product_types:\n- \x7bid: day, name: LOG, elements: [Site, Band, Site]\x7d\n" ++
    "- \x7bid: night, name: LOG\x7d"

def band : Element := ⟨"b", "Band", ""⟩

def site : Element := ⟨"s", "Site", ""⟩

def day : TypeEntry := ⟨⟨"day", "LOG", "", "", "", .empty⟩, ["Site", "Band", "Site"]⟩

def night : TypeEntry := ⟨⟨"night", "LOG", "", "", "", .empty⟩, []⟩

/-- The document of the text. -/
def document : SchemaDocument := ⟨1, [band, site], [day, night]⟩

theorem ofYaml_text : ofYaml text = .ok document := by decide +kernel

end Logbook

/-- Types with the same name are found by their ids only, and of a repeated element the first place
counts. -/
theorem logbook_retained :
    ofYaml Logbook.text = .ok Logbook.document ∧ Logbook.document.validate = .ok () ∧
    Logbook.document.toSchema.productTypes = .ok [Logbook.day.type, Logbook.night.type] ∧
    Logbook.document.toSchema.registeredType "night" = .ok Logbook.night.type ∧
    Logbook.document.toSchema.registeredTypeNamed "LOG" = .error (.ambiguousType "LOG") ∧
    Logbook.document.toSchema.registeredTypeNamed "DAY" =
      .error (.notFound "Product type" "DAY") ∧
    Logbook.document.ListsElements Logbook.day [Logbook.site, Logbook.band] := by
  have hvalid := validate_of_ofYaml Logbook.ofYaml_text
  have hretained := retained_of_validate hvalid
  refine ⟨Logbook.ofYaml_text, hvalid, hretained.types,
    hretained.typeById Logbook.night (by simp [Logbook.document]),
    (hretained.sharedName "LOG" (by decide)).1, (hretained.unknownName "DAY" (by decide)).1, ?_⟩
  rcases hretained.elementsOf Logbook.day List.mem_cons_self with ⟨elements, hfound, hlists⟩
  have hanswer : Logbook.document.toSchema.elementsFor Logbook.day.type =
      .ok [Logbook.site, Logbook.band] := by decide +kernel
  cases hanswer.symm.trans hfound
  exact hlists

end SchemaDocument

end ArchiveCatalog

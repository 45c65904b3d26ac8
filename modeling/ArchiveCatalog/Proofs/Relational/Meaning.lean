import ArchiveCatalog.Proofs.Criteria
import ArchiveCatalog.Proofs.Relational.Contents

namespace ArchiveCatalog.Relational

/-! # What selections select

The selection that a criterion is translated to selects, of the products of a type, those
whose metadata satisfy the criterion. Comparisons of one element are told apart by where its
values are: rows with its id, its column, or its side table. All else follows the structure
of the criterion.
-/

/-! ## Comparisons -/

theorem passes_equalTo (value v : String) : passes (equalTo value) v = (v == value) := by
  rw [Bool.eq_iff_iff]
  simp [passes, equalTo, Comparator.holds]

theorem passes_within (bounds : Bounds) (inclusive : Bool) (v : String) :
    passes (within bounds inclusive) v = bounds.contains inclusive v := by
  have hnot : ∀ a b : String, decide (¬ a < b) = decide (b ≤ a) := by
    intro a b
    rw [decide_eq_decide]
    exact String.not_lt
  cases bounds <;> cases inclusive <;>
    simp [passes, within, Bounds.lower?, Bounds.upper?, lowerComparison, upperComparison,
      Comparator.holds, Bounds.contains, Bounds.above, Bounds.below, ← hnot]

theorem cellPasses_of_cell? {r : Row} {column v : String} {comparisons : List Comparison}
    (hcolumn : ¬ SameName column productColumn) (hcell : r.cell? column = some v) :
    Selection.cellPasses r column comparisons = passes comparisons v := by
  have hno : Table.sameName column productColumn = false := by
    simpa [Table.sameName, SameName] using hcolumn
  simp [Selection.cellPasses, hno, hcell]

/-- Rows of one product are asked for in its rows. -/
theorem any_rows_eq (db : Database) (name : String) (id : Int) (test : Row → Bool) :
    ((db.rows name).any fun r => r.product == id && test r) = (db.rowsIn name id).any test := by
  rw [Database.rowsIn, List.any_filter]

namespace Store

variable {s : Store} {db : Database} {t : ProductType} {tables : TypeTables} {id : Int}
  {c : Contents} {translation : Translation}

/-! ## One element -/

/-- What a translation for a type knows. -/
theorem translation_eq (hs : s.Regular) (htables : TypeTables.ofType s.bases t = .ok tables) :
    s.translation t = .ok
      { layout := s.layout, typeId := t.id, typeName := t.name, tables,
        elementIds := (s.schema.declaredElements t).map fun e => (e.name, e.id) } := by
  rw [Store.translation, hs.schema.inStage_eq, hs.schema.elementsFor_eq, htables]
  rfl

theorem lookup_elementIds (hs : s.Regular) {a : String} (ha : a ∈ s.schema.declaredNames t) :
    ((s.schema.declaredElements t).map fun e => (e.name, e.id)).lookup a =
      some (s.schema.elementId t a) := by
  rcases hs.schema.find?_name ha with ⟨e, hfound, hname, hid⟩
  have hkeys :
      (((s.schema.declaredElements t).map fun e => (e.name, e.id)).map Prod.fst).Nodup := by
    rw [List.map_map]
    exact hs.schema.nodup_declaredNames t
  refine (lookup_eq_some_iff hkeys).2 (List.mem_map.2 ⟨e, List.mem_of_find?_eq_some hfound, ?_⟩)
  rw [hname, hid]

/-- Rows with the id of an element are its values. -/
theorem selects_entries (hs : s.Regular) (hlayout : s.layout = .narrow)
    (h : s.Holds db t tables id c) {a : String} (ha : a ∈ s.schema.declaredNames t)
    (comparisons : List Comparison) :
    Selection.selects db id
        (.entries tables.metadata (s.schema.elementId t a) comparisons) =
      (c.metadata.values a).any (passes comparisons) := by
  have hvalue : ¬ SameName valueColumn productColumn := by decide
  have hrows := any_rows_eq db tables.metadata id fun r =>
    r.cell? elementIdColumn == some (s.schema.elementId t a) &&
      Selection.cellPasses r valueColumn comparisons
  simp only [← Bool.and_assoc] at hrows
  rw [Selection.selects, hrows, h.narrow hlayout, List.any_map, Bool.eq_iff_iff, List.any_eq_true,
    List.any_eq_true]
  constructor
  · rintro ⟨⟨b, v⟩, hmem, htest⟩
    simp only [Function.comp_apply, cell?_entryRow_element, Bool.and_eq_true, beq_iff_eq,
      Option.some.injEq] at htest
    rw [cellPasses_of_cell? hvalue (cell?_entryRow_value id _ v)] at htest
    have hv : v ∈ c.metadata.values b := Metadata.mem_pairs.1 hmem
    have hb : b ∈ s.schema.declaredNames t := h.within b (List.ne_nil_of_mem hv)
    have hsame : b = a := hs.schema.elementId_inj hb ha htest.1
    exact ⟨v, hsame ▸ hv, htest.2⟩
  · rintro ⟨v, hv, hpasses⟩
    refine ⟨(a, v), Metadata.mem_pairs.2 hv, ?_⟩
    simp only [Function.comp_apply, cell?_entryRow_element, beq_self_eq_true, Bool.true_and]
    rw [cellPasses_of_cell? hvalue (cell?_entryRow_value id _ v), hpasses]

/-- The rows of a side table are the values of its element. -/
theorem selects_listed (hwide : s.layout ≠ .narrow) (h : s.Holds db t tables id c) {a : String}
    (ha : a ∈ s.schema.declaredNames t) (hvector : s.layout.isVector a = true)
    (comparisons : List Comparison) :
    Selection.selects db id (.listed (tables.side a) comparisons) =
      (c.metadata.values a).any (passes comparisons) := by
  rw [Selection.selects,
    any_rows_eq db _ id fun r => Selection.cellPasses r valueColumn comparisons]
  rw [(h.wide hwide).sides a ha hvector, List.any_map]
  have htest : (fun r => Selection.cellPasses r valueColumn comparisons) ∘ valueRow id =
      passes comparisons := by
    funext v
    exact cellPasses_of_cell? (by decide) (cell?_valueRow id v)
  rw [htest]

/-- The cell in a column is the only value of its element. -/
theorem selects_column (hs : s.Regular) (hwide : s.layout ≠ .narrow) (ht : t ∈ s.schema.types.types)
    (htables : TypeTables.ofType s.bases t = .ok tables) (h : s.Holds db t tables id c)
    {a : String} (ha : a ∈ s.schema.declaredNames t) (hscalar : s.layout.isVector a = false)
    (comparisons : List Comparison) :
    Selection.selects db id (.column tables.metadata a comparisons) =
      (c.metadata.values a).any (passes comparisons) := by
  have hfree := (hs.columns hwide).free t ht a ha
  have hno : Table.sameName a productColumn = false := by
    simpa [Table.sameName, SameName] using hfree
  rcases h.wide hwide with ⟨hsingle, hrow, -⟩
  rw [Selection.selects, any_rows_eq db _ id fun r => Selection.cellPasses r a comparisons]
  -- a product without a row has no cell to pass, and no value either
  rcases hrow with hone | ⟨hnone, hempty⟩
  · have hcell : (Table.rowFor id (s.wideCells c.metadata)).cell? a =
        (c.metadata.values a).head? :=
      cell?_wideCells hs hwide ht htables h.regular h.within
        (isColumn_of_declared ht htables ha hscalar)
    rw [hone, List.any_cons, List.any_nil, Bool.or_false, Selection.cellPasses, hno, hcell]
    have hle := hsingle a hscalar
    cases hvalues : c.metadata.values a with
    | nil => rfl
    | cons v rest =>
      have hrest : rest = [] := by
        rw [hvalues, List.length_cons] at hle
        exact List.length_eq_zero_iff.1 (by omega)
      simp [hrest]
  · rw [hnone, hempty, Metadata.values_empty]
    rfl

/-- A comparison selects the products with a value that passes it. -/
theorem exists_leaf (hs : s.Regular) (ht : t ∈ s.schema.types.types)
    (htranslation : s.translation t = .ok translation)
    (htables : TypeTables.ofType s.bases t = .ok tables) {a : String}
    (ha : a ∈ s.schema.declaredNames t) (comparisons : List Comparison) :
    ∃ selection, translation.leaf a comparisons = .ok selection ∧
      ∀ db id c, s.Holds db t tables id c →
        selection.selects db id = (c.metadata.values a).any (passes comparisons) := by
  rw [translation_eq hs htables] at htranslation
  cases htranslation
  unfold Translation.leaf
  dsimp only
  rw [lookup_elementIds hs ha]
  dsimp only
  -- one kind of selection for each place that values are kept in
  cases hl : s.layout with
  | narrow => exact ⟨_, rfl, fun db id c h => selects_entries hs hl h ha comparisons⟩
  | wide vectors =>
    have hwide : s.layout ≠ .narrow := by simp [hl]
    have husable := (hs.columns hwide).usable t ht a ha
    dsimp only
    rw [← hl]
    by_cases hvector : s.layout.isVector a = true
    · rw [if_pos hvector, tables.valuesOf_eq husable]
      exact ⟨_, rfl, fun db id c h => selects_listed hwide h ha hvector comparisons⟩
    · rw [if_neg hvector, usableName, if_pos husable]
      exact ⟨_, rfl, fun db id c h =>
        selects_column hs hwide ht htables h ha (by simpa using hvector) comparisons⟩

/-! ## Criteria -/

theorem typeId_of_translation (hs : s.Regular) (htranslation : s.translation t = .ok translation)
    (htables : TypeTables.ofType s.bases t = .ok tables) : translation.typeId = t.id := by
  rw [translation_eq hs htables] at htranslation
  cases htranslation
  rfl

mutual

/-- The selection of a criterion selects the products whose metadata satisfy it. The induction
follows the criterion; only a negation needs the product to be of the type. -/
theorem exists_selection (hs : s.Regular) (ht : t ∈ s.schema.types.types)
    (htranslation : s.translation t = .ok translation)
    (htables : TypeTables.ofType s.bases t = .ok tables) :
    ∀ criterion : Criteria, (∀ a ∈ criterion.mentions, a ∈ s.schema.declaredNames t) →
      ∃ selection, translation.selection criterion = .ok selection ∧
        ∀ db id c, db.hasProduct t.id id = true → s.Holds db t tables id c →
          selection.selects db id = criterion.holds c.metadata
  | .term a value, hdeclared => by
    rcases exists_leaf hs ht htranslation htables
      (hdeclared a (List.mem_singleton.2 rfl)) (equalTo value) with ⟨selection, hleaf, hselects⟩
    refine ⟨selection, hleaf, ?_⟩
    intro db id c _ h
    rw [hselects db id c h, Criteria.holds]
    congr 1
    funext v
    exact passes_equalTo value v
  | .range a bounds inclusive, hdeclared => by
    rcases exists_leaf hs ht htranslation htables
      (hdeclared a (List.mem_singleton.2 rfl)) (within bounds inclusive) with
      ⟨selection, hleaf, hselects⟩
    refine ⟨selection, hleaf, ?_⟩
    intro db id c _ h
    rw [hselects db id c h, Criteria.holds]
    congr 1
    funext v
    exact passes_within bounds inclusive v
  | .junction operator members, hdeclared => by
    rcases exists_selections hs ht htranslation htables members hdeclared with
      ⟨parts, hparts, hselect⟩
    refine ⟨.compound operator parts, ?_, ?_⟩
    · rw [Translation.selection, hparts]
      rfl
    · intro db id c hproduct h
      rcases hselect db id c hproduct h with ⟨hall, hany⟩
      cases operator with
      | all => rw [Selection.selects, Criteria.holds, hall]
      | any => rw [Selection.selects, Criteria.holds, hany]
  | .negation member, hdeclared => by
    rcases exists_selection hs ht htranslation htables member hdeclared with
      ⟨excluded, hexcluded, hselects⟩
    have htypeId := typeId_of_translation hs htranslation htables
    refine ⟨.ofTypeExcept t.id excluded, ?_, ?_⟩
    · rw [Translation.selection, hexcluded, htypeId]
      rfl
    · intro db id c hproduct h
      rw [Selection.selects, Criteria.holds, hproduct, hselects db id c hproduct h, Bool.true_and]

/-- The same for the members of a junction. -/
theorem exists_selections (hs : s.Regular) (ht : t ∈ s.schema.types.types)
    (htranslation : s.translation t = .ok translation)
    (htables : TypeTables.ofType s.bases t = .ok tables) :
    ∀ criteria : List Criteria,
      (∀ a ∈ Criteria.mentionsOf criteria, a ∈ s.schema.declaredNames t) →
      ∃ parts, translation.selections criteria = .ok parts ∧
        ∀ db id c, db.hasProduct t.id id = true → s.Holds db t tables id c →
          Selection.allSelect db id parts = Criteria.allHold c.metadata criteria ∧
            Selection.anySelects db id parts = Criteria.anyHolds c.metadata criteria
  | [], _ => ⟨[], rfl, fun _ _ _ _ _ => ⟨rfl, rfl⟩⟩
  | criterion :: rest, hdeclared => by
    rcases exists_selection hs ht htranslation htables criterion
      fun a ha => hdeclared a (List.mem_append_left _ ha) with ⟨selection, hone, hselects⟩
    rcases exists_selections hs ht htranslation htables rest
      fun a ha => hdeclared a (List.mem_append_right _ ha) with ⟨parts, hparts, hselect⟩
    refine ⟨selection :: parts, ?_, ?_⟩
    · rw [Translation.selections, hone, hparts]
      rfl
    · intro db id c hproduct h
      rcases hselect db id c hproduct h with ⟨hall, hany⟩
      rw [Selection.allSelect, Selection.anySelects, Criteria.allHold, Criteria.anyHolds,
        hselects db id c hproduct h, hall, hany]
      exact ⟨rfl, rfl⟩

end

theorem exists_ofQuery (hs : s.Regular) (ht : t ∈ s.schema.types.types)
    (htranslation : s.translation t = .ok translation)
    (htables : TypeTables.ofType s.bases t = .ok tables) {q : Query}
    (hdeclared : ∀ a ∈ q.elements, a ∈ s.schema.declaredNames t) :
    ∃ selection, translation.ofQuery q = .ok selection ∧
      ∀ db id c, db.hasProduct t.id id = true → s.Holds db t tables id c →
        selection.selects db id = q.holds c.metadata := by
  unfold Translation.ofQuery
  cases hcriterion : q.asCriterion with
  | none =>
    have htypeId := typeId_of_translation hs htranslation htables
    have hnone := Query.criteria_of_asCriterion hcriterion
    refine ⟨_, rfl, ?_⟩
    intro db id c hproduct _
    rw [Selection.selects, Query.holds, hnone, htypeId, hproduct]
    rfl
  | some criterion =>
    rcases exists_selection hs ht htranslation htables
      criterion fun a ha => hdeclared a (Query.mem_mentions_of_asCriterion hcriterion ha) with
      ⟨selection, hselection, hselects⟩
    refine ⟨selection, hselection, ?_⟩
    intro db id c hproduct h
    rw [hselects db id c hproduct h, Query.holds_asCriterion hcriterion]

/-- A query over declared elements is translated to a selection of the products of the type
whose metadata satisfy it. -/
theorem exists_matching (hs : s.Regular) {u : ProductType} (hres : s.schema.resolveType u = .ok t)
    (htables : TypeTables.ofType s.bases t = .ok tables) {q : Query}
    (hdeclared : ∀ a ∈ q.elements, a ∈ s.schema.declaredNames t) :
    ∃ selection, s.matching q u = .ok (t, selection) ∧
      ∀ db id c, db.hasProduct t.id id = true → s.Holds db t tables id c →
        selection.selects db id = q.holds c.metadata := by
  have htranslation := translation_eq hs htables
  rcases exists_ofQuery hs (hs.schema.mem_of_resolveType hres) htranslation htables hdeclared with
    ⟨selection, hselection, hselects⟩
  refine ⟨selection, ?_, hselects⟩
  rw [matching, hres]
  dsimp only [bind, Except.bind]
  rw [hs.schema.checkQuery_eq hdeclared, htranslation]
  dsimp only
  rw [hselection]
  rfl

end Store

end ArchiveCatalog.Relational

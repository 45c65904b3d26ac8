import ArchiveCatalog.Proofs.Relational.Answers
import ArchiveCatalog.Proofs.Relational.Wording

namespace ArchiveCatalog

/-! # Values are parameters

Criteria of one shape, which differ in values and bounds only, have statements of one text. The
parameters of both statements are the same ids and, at the same places, the values of each.
-/

/-! ## Shapes -/

/-- The same ends of both ranges are bounded. -/
def Bounds.SameEnds (b b' : Bounds) : Prop :=
  b.lower?.isSome = b'.lower?.isSome ∧ b.upper?.isSome = b'.upper?.isSome

namespace Criteria

mutual

/-- The criteria differ in values and bounds only. -/
def SameShape : Criteria → Criteria → Prop
  | .term a _, .term a' _ => a = a'
  | .range a bounds inclusive, .range a' bounds' inclusive' =>
    a = a' ∧ bounds.SameEnds bounds' ∧ inclusive = inclusive'
  | .junction operator members, .junction operator' members' =>
    operator = operator' ∧ SameShapes members members'
  | .negation member, .negation member' => SameShape member member'
  | _, _ => False

/-- So do the criteria of two lists one by one. -/
def SameShapes : List Criteria → List Criteria → Prop
  | [], [] => True
  | c :: rest, c' :: rest' => SameShape c c' ∧ SameShapes rest rest'
  | _, _ => False

end

mutual

/-- The values and bounds from left to right, the lower bound of a range first. -/
def values : Criteria → List String
  | .term _ value => [value]
  | .range _ bounds _ => bounds.lower?.toList ++ bounds.upper?.toList
  | .junction _ members => valuesOf members
  | .negation member => values member

/-- The values and bounds of several criteria. -/
def valuesOf : List Criteria → List String
  | [] => []
  | c :: rest => values c ++ valuesOf rest

end

end Criteria

namespace Relational

/-! ## Places for values -/

/-- Values fill the places between fixed texts: a list of places, where those for values are empty,
the values and what they make. All values are used in their order. -/
inductive Fills : List (Option String) → List String → List String → Prop
  | nil : Fills [] [] []
  | fixed {places : List (Option String)} {values filled : List String} (text : String) :
      Fills places values filled → Fills (some text :: places) values (text :: filled)
  | value {places : List (Option String)} {values filled : List String} (value : String) :
      Fills places values filled → Fills (none :: places) (value :: values) (value :: filled)

variable {places places' : List (Option String)} {values values' filled filled' : List String}

theorem Fills.length_eq (h : Fills places values filled) : filled.length = places.length := by
  induction h with
  | nil => rfl
  | fixed text _ ih => rw [List.length_cons, List.length_cons, ih]
  | value v _ ih => rw [List.length_cons, List.length_cons, ih]

theorem Fills.append (h : Fills places values filled) (h' : Fills places' values' filled') :
    Fills (places ++ places') (values ++ values') (filled ++ filled') := by
  induction h with
  | nil => exact h'
  | fixed text _ ih => exact .fixed text ih
  | value v _ ih => exact .value v ih

/-- Places for values only. -/
theorem fills_replicate (values : List String) :
    Fills (List.replicate values.length none) values values := by
  induction values with
  | nil => exact .nil
  | cons v rest ih => exact .value v ih

/-! ## Statements of one text -/

/-- Both fail with one error, or both have results, which are related. -/
def Agree {α : Type} (R : α → α → Prop) : Except CatalogError α → Except CatalogError α → Prop
  | .ok x, .ok y => R x y
  | .error e, .error e' => e = e'
  | _, _ => False

theorem Agree.bind {α β : Type} {R : α → α → Prop} {S : β → β → Prop} {x y : Except CatalogError α}
    {f g : α → Except CatalogError β} (h : Agree R x y)
    (hf : ∀ a b, R a b → Agree S (f a) (g b)) : Agree S (x >>= f) (y >>= g) := by
  cases x <;> cases y
  case error.error e e' => exact h
  case ok.ok a b => exact hf a b h
  all_goals exact h.elim

/-- The statements have one text, and their parameters are values at the same places between the
same texts. -/
structure Selection.Alike (values values' : List String) (s s' : Selection) : Prop where
  text : s.text = s'.text
  length : s.parameters.length = s'.parameters.length
  places : ∃ places, Fills places values s.parameters ∧ Fills places values' s'.parameters

theorem Selection.Alike.of_fills {s s' : Selection} (htext : s.text = s'.text)
    (h : Fills places values s.parameters) (h' : Fills places values' s'.parameters) :
    s.Alike values values' s' :=
  ⟨htext, h.length_eq.trans h'.length_eq.symm, places, h, h'⟩

/-- So it is with the statements of the parts of two compounds. -/
structure Selection.PartsAlike (values values' : List String) (parts parts' : List Selection) :
    Prop where
  texts : partTexts parts = partTexts parts'
  places : ∃ places, Fills places values (partParameters parts) ∧
    Fills places values' (partParameters parts')

/-- The text of a condition tells the comparators only. -/
theorem conditionText_eq {comparisons comparisons' : List Comparison}
    (h : comparisons.map Comparison.comparator = comparisons'.map Comparison.comparator)
    (column : String) : conditionText column comparisons = conditionText column comparisons' := by
  have hsigns : ∀ cs : List Comparison, conditionText column cs =
      Text.join " AND " ((cs.map Comparison.comparator).map fun c =>
        column ++ " " ++ c.sign ++ " ?") := by
    intro cs
    rw [List.map_map]
    rfl
  rw [hsigns, hsigns, h]

theorem comparators_within {bounds bounds' : Bounds} (h : bounds.SameEnds bounds')
    (inclusive : Bool) : (within bounds inclusive).map Comparison.comparator =
      (within bounds' inclusive).map Comparison.comparator := by
  rcases h with ⟨hlower, hupper⟩
  cases bounds <;> cases bounds'
  case start.start | stop.stop | both.both => rfl
  case start.both | both.start => cases hupper
  all_goals cases hlower

theorem parameters_within (bounds : Bounds) (inclusive : Bool) :
    (within bounds inclusive).map Comparison.parameter =
      bounds.lower?.toList ++ bounds.upper?.toList := by
  cases bounds <;> rfl

namespace Translation

theorem agree_leaf (t : Translation) (element : String) {comparisons comparisons' : List Comparison}
    (h : comparisons.map Comparison.comparator = comparisons'.map Comparison.comparator) :
    Agree (Selection.Alike (comparisons.map Comparison.parameter)
      (comparisons'.map Comparison.parameter)) (t.leaf element comparisons)
      (t.leaf element comparisons') := by
  have hlength : comparisons.length = comparisons'.length := by
    simpa using congrArg List.length h
  have hfills := fills_replicate (comparisons.map Comparison.parameter)
  have hfills' := fills_replicate (comparisons'.map Comparison.parameter)
  rw [List.length_map] at hfills hfills'
  rw [← hlength] at hfills'
  unfold leaf
  split
  next => rfl
  next elementId _ =>
    split
    next =>
      refine .of_fills ?_ (.fixed elementId hfills) (.fixed elementId hfills')
      rw [Selection.text, Selection.text, conditionText_eq h]
    next =>
      split
      next =>
        cases t.tables.valuesOf element with
        | error e => rfl
        | ok table =>
          refine .of_fills ?_ hfills hfills'
          rw [Selection.text, Selection.text, conditionText_eq h]
      next =>
        cases usableName element with
        | error e => rfl
        | ok name =>
          refine .of_fills ?_ hfills hfills'
          rw [Selection.text, Selection.text, conditionText_eq h]

mutual

/-- Criteria of one shape are translated alike. -/
theorem agree_selection (t : Translation) : ∀ c d : Criteria, c.SameShape d →
    Agree (Selection.Alike c.values d.values) (t.selection c) (t.selection d)
  | .term a v, d, h => by
    cases d with
    | term a' w =>
      cases h
      have hsigns : (equalTo v).map Comparison.comparator =
          (equalTo w).map Comparison.comparator := rfl
      exact t.agree_leaf a hsigns
    | _ => cases h
  | .range a bounds inclusive, d, h => by
    cases d with
    | range a' bounds' inclusive' =>
      rcases h with ⟨rfl, hends, rfl⟩
      have hleaf := t.agree_leaf a (comparators_within hends inclusive)
      rw [parameters_within, parameters_within] at hleaf
      exact hleaf
    | _ => cases h
  | .junction operator members, d, h => by
    cases d with
    | junction operator' members' =>
      rcases h with ⟨rfl, hmembers⟩
      refine (agree_selections t members members' hmembers).bind ?_
      rintro parts parts' ⟨htexts, places, hfills, hfills'⟩
      refine .of_fills ?_ hfills hfills'
      rw [Selection.text, Selection.text, htexts]
    | _ => cases h
  | .negation member, d, h => by
    cases d with
    | negation member' =>
      refine (agree_selection t member member' h).bind ?_
      rintro s s' ⟨htext, -, places, hfills, hfills'⟩
      refine .of_fills ?_ (.fixed t.typeId hfills) (.fixed t.typeId hfills')
      rw [Selection.text, Selection.text, htext]
    | _ => cases h

/-- So are lists of criteria of one shape each. -/
theorem agree_selections (t : Translation) : ∀ cs ds : List Criteria, Criteria.SameShapes cs ds →
    Agree (Selection.PartsAlike (Criteria.valuesOf cs) (Criteria.valuesOf ds)) (t.selections cs)
      (t.selections ds)
  | [], ds, h => by
    cases ds with
    | nil => exact ⟨rfl, [], .nil, .nil⟩
    | cons d rest => cases h
  | c :: rest, ds, h => by
    cases ds with
    | nil => cases h
    | cons d rest' =>
      refine (agree_selection t c d h.1).bind ?_
      rintro s s' ⟨htext, -, places, hfills, hfills'⟩
      refine (agree_selections t rest rest' h.2).bind ?_
      rintro parts parts' ⟨htexts, later, hlater, hlater'⟩
      refine ⟨?_, places ++ later, hfills.append hlater, hfills'.append hlater'⟩
      rw [Selection.partTexts, Selection.partTexts, htext, htexts]

end

/-- Queries whose criteria have one shape each are translated alike. -/
theorem agree_ofQuery (t : Translation) {q r : Query}
    (h : Criteria.SameShapes q.criteria r.criteria) :
    Agree (Selection.Alike (Criteria.valuesOf q.criteria) (Criteria.valuesOf r.criteria))
      (t.ofQuery q) (t.ofQuery r) := by
  rcases q with ⟨cs⟩
  rcases r with ⟨ds⟩
  match cs, ds, h with
  | [], [], _ => exact .of_fills rfl (.fixed t.typeId .nil) (.fixed t.typeId .nil)
  | [c], [d], h =>
    have hone := t.agree_selection c d h.1
    simp only [Criteria.valuesOf, List.append_nil]
    exact hone
  | c :: c' :: rest, d :: d' :: rest', h =>
    have hall : (Criteria.junction .all (c :: c' :: rest)).SameShape
        (.junction .all (d :: d' :: rest')) := ⟨rfl, h⟩
    exact t.agree_selection _ _ hall

end Translation

/-! ## Every statement of a catalog -/

theorem Store.namesTables_translation (s : Store) {t : ProductType} {translation : Translation}
    (h : s.translation t = .ok translation) : translation.NamesTables := by
  rcases Action.bind_eq_ok_iff.1 h with ⟨declared, -, h⟩
  rcases Action.bind_eq_ok_iff.1 h with ⟨tables, htables, h⟩
  rcases Action.map_eq_ok_iff.1 htables with ⟨base, hbase, rfl⟩
  cases h
  exact isUsableName_of_usableName hbase

/-- A catalog writes no value into the text of a statement. Criteria and queries of one shape fail
alike or have one text, with the values of each at the same places among the parameters; and every
statement has a mark for each parameter, in the order of the parameters, and quotes only names that
can stand for tables and columns. -/
theorem Store.statements_keep_values_apart (s : Store) (t : ProductType) {translation : Translation}
    (htranslation : s.translation t = .ok translation) :
    (∀ c d : Criteria, c.SameShape d →
      Agree (Selection.Alike c.values d.values) (translation.selection c)
        (translation.selection d)) ∧
    (∀ q r : Query, Criteria.SameShapes q.criteria r.criteria →
      Agree (Selection.Alike (Criteria.valuesOf q.criteria) (Criteria.valuesOf r.criteria))
        (translation.ofQuery q) (translation.ofQuery r)) ∧
    ∀ selection : Selection,
      ((∃ c, translation.selection c = .ok selection) ∨
        ∃ q, translation.ofQuery q = .ok selection) →
      selection.text.toList.count parameterMark = selection.parameters.length ∧
      selection.IsWorded := by
  refine ⟨translation.agree_selection, fun q r h => translation.agree_ofQuery h, ?_⟩
  have hnames : translation.NamesTables := s.namesTables_translation htranslation
  rintro selection (⟨c, hc⟩ | ⟨q, hq⟩)
  · have hworded := Translation.isWorded_selection hnames c hc
    exact ⟨count_of_bindParameters hworded.binds, hworded⟩
  · have hworded := Translation.isWorded_ofQuery hnames hq
    exact ⟨count_of_bindParameters hworded.binds, hworded⟩

namespace Store

/-- Granules of a band, and those of no station between two. -/
def bandOrStation (band lower upper : String) : Criteria :=
  .junction .any [.term "Band" band, .negation (.range "Station" (.both lower upper) false)]

/-- Values with marks in them are parameters like others. -/
theorem granule_statements_keep_values_apart :
    (∃ translation, twoTypesStore.translation granule = .ok translation ∧
      Agree (Selection.Alike ["x", "A", "B"] ["?", "\x22", ""])
        (translation.selection (bandOrStation "x" "A" "B"))
        (translation.selection (bandOrStation "?" "\x22" "")) ∧
      ∃ selection, translation.selection (bandOrStation "?" "\x22" "") = .ok selection ∧
        selection.text = "SELECT product_id FROM (SELECT product_id FROM " ++
          "\"GRANULE_Band_values\" WHERE metadata_value = ?) UNION SELECT product_id FROM (" ++
          "SELECT product_id FROM products WHERE product_type_id = ? AND product_id NOT IN (" ++
          "SELECT product_id FROM \"GRANULE_metadata\" WHERE \"Station\" > ? AND \"Station\" < ?" ++
          "))" ∧
        selection.parameters = ["?", "urn:granule", "\x22", ""] ∧
        selection.text.toList.count parameterMark = 4 ∧ selection.IsWorded) ∧
    (bandOrStation "x" "A" "B").SameShape (bandOrStation "?" "\x22" "") := by
  have hshape : (bandOrStation "x" "A" "B").SameShape (bandOrStation "?" "\x22" "") :=
    ⟨rfl, rfl, ⟨rfl, ⟨rfl, rfl⟩, rfl⟩, trivial⟩
  have htranslation : twoTypesStore.translation granule = .ok ⟨.wide ["Band"], "urn:granule",
      "GRANULE", ⟨"GRANULE"⟩, [("Station", "urn:station"), ("Band", "urn:band")]⟩ := rfl
  rcases statements_keep_values_apart twoTypesStore granule htranslation with
    ⟨hcriteria, -, hstatements⟩
  refine ⟨⟨_, htranslation, hcriteria _ _ hshape, _, rfl, ?_, rfl, ?_⟩, hshape⟩
  · decide +kernel
  · exact hstatements _ (.inl ⟨bandOrStation "?" "\x22" "", rfl⟩)

end Store

end Relational

end ArchiveCatalog

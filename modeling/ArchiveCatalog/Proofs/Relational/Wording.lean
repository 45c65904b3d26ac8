import Mathlib.Data.List.Basic
import ArchiveCatalog.Proofs.Action
import ArchiveCatalog.Relational.Store

namespace ArchiveCatalog.Relational

/-! # The wording of statements

The text of a statement has a question mark for each of its parameters, in the same order, and
every name that stands in double quotes can stand for a table or column. Both are told by reading
the text character by character, and compared with the statement as it would be with its
parameters written in place, which is told from the selection.
-/

/-! ## Reading the text of a statement -/

/-- The character that stands for a parameter. -/
def parameterMark : Char := '?'

/-- The double quote, which delimits names. -/
def nameMark : Char := '\x22'

/-- Text with parameters in it, told apart from the characters around them. -/
abbrev FilledText := List (Char ⊕ String)

/-- Text without parameters. -/
def verbatim (s : String) : FilledText := s.toList.map Sum.inl

/-- Puts parameters in the place of the marks for them, from left to right. There have to be as
many parameters as marks. -/
def bindParameters : List Char → List String → Option FilledText
  | [], parameters => if parameters.isEmpty then some [] else none
  | c :: rest, parameters =>
    if c = parameterMark then
      parameters.head?.bind fun p => (bindParameters rest parameters.tail).map (Sum.inr p :: ·)
    else (bindParameters rest parameters).map (Sum.inl c :: ·)

/-- The names in double quotes, given what has been read of a name that is not closed yet, last
character first. There are none to tell if the last name is not closed. -/
def quotedNamesFrom : Option (List Char) → List Char → Option (List String)
  | none, [] => some []
  | some _, [] => none
  | none, c :: rest => quotedNamesFrom (if c = nameMark then some [] else none) rest
  | some name, c :: rest =>
    if c = nameMark then (quotedNamesFrom none rest).map (String.ofList name.reverse :: ·)
    else quotedNamesFrom (some (c :: name)) rest

/-- The names in double quotes, from left to right. -/
def quotedNames (s : String) : Option (List String) := quotedNamesFrom none s.toList

theorem bindParameters_of_not_mem {s : List Char} (h : parameterMark ∉ s) :
    bindParameters s [] = some (s.map Sum.inl) := by
  induction s with
  | nil => rfl
  | cons c rest ih =>
    rw [List.mem_cons, not_or] at h
    rw [bindParameters, if_neg (Ne.symm h.1), ih h.2]
    rfl

theorem bindParameters_append {s t : List Char} {ps qs : List String} {f g : FilledText}
    (hs : bindParameters s ps = some f) (ht : bindParameters t qs = some g) :
    bindParameters (s ++ t) (ps ++ qs) = some (f ++ g) := by
  induction s generalizing ps f with
  | nil =>
    cases ps with
    | nil =>
      cases hs
      exact ht
    | cons p later => cases hs
  | cons c rest ih =>
    rw [bindParameters] at hs
    rw [List.cons_append, bindParameters]
    by_cases hmark : c = parameterMark
    · rw [if_pos hmark] at hs ⊢
      cases ps with
      | nil => cases hs
      | cons p later =>
        rcases Option.map_eq_some_iff.1 hs with ⟨f', hrest, rfl⟩
        have hlater := ih hrest
        rw [List.tail_cons] at hlater
        rw [List.cons_append, List.tail_cons, hlater]
        rfl
    · rw [if_neg hmark] at hs ⊢
      rcases Option.map_eq_some_iff.1 hs with ⟨f', hrest, rfl⟩
      rw [ih hrest]
      rfl

theorem count_of_bindParameters {s : List Char} {ps : List String} {f : FilledText}
    (h : bindParameters s ps = some f) : s.count parameterMark = ps.length := by
  induction s generalizing ps f with
  | nil =>
    cases ps with
    | nil => rfl
    | cons p later => cases h
  | cons c rest ih =>
    rw [bindParameters] at h
    by_cases hmark : c = parameterMark
    · rw [if_pos hmark] at h
      cases ps with
      | nil => cases h
      | cons p later =>
        rcases Option.map_eq_some_iff.1 h with ⟨f', hrest, -⟩
        rw [hmark, List.count_cons_self, ih hrest]
        rfl
    · rw [if_neg hmark] at h
      rcases Option.map_eq_some_iff.1 h with ⟨f', hrest, -⟩
      rw [List.count_cons_of_ne hmark, ih hrest]

theorem quotedNamesFrom_append {s t : List Char} {names names' : List String}
    {opened : Option (List Char)} (hs : quotedNamesFrom opened s = some names)
    (ht : quotedNamesFrom none t = some names') :
    quotedNamesFrom opened (s ++ t) = some (names ++ names') := by
  induction s generalizing opened names with
  | nil =>
    cases opened with
    | none =>
      cases hs
      exact ht
    | some name => cases hs
  | cons c rest ih =>
    cases opened with
    | none =>
      rw [quotedNamesFrom] at hs
      rw [List.cons_append, quotedNamesFrom]
      exact ih hs
    | some name =>
      rw [quotedNamesFrom] at hs
      rw [List.cons_append, quotedNamesFrom]
      by_cases hmark : c = nameMark
      · rw [if_pos hmark] at hs ⊢
        rcases Option.map_eq_some_iff.1 hs with ⟨later, hrest, rfl⟩
        rw [ih hrest]
        rfl
      · rw [if_neg hmark] at hs ⊢
        exact ih hs

theorem quotedNamesFrom_of_not_mem {s : List Char} (h : nameMark ∉ s) :
    quotedNamesFrom none s = some [] := by
  induction s with
  | nil => rfl
  | cons c rest ih =>
    rw [List.mem_cons, not_or] at h
    rw [quotedNamesFrom, if_neg (Ne.symm h.1), ih h.2]

/-- A name without quotes in it is read up to its closing quote. -/
theorem quotedNamesFrom_name {name : List Char} (h : nameMark ∉ name) (front : List Char) :
    quotedNamesFrom (some front) (name ++ [nameMark]) =
      some [String.ofList (front.reverse ++ name)] := by
  induction name generalizing front with
  | nil => simp [quotedNamesFrom]
  | cons c rest ih =>
    rw [List.mem_cons, not_or] at h
    rw [List.cons_append, quotedNamesFrom, if_neg (Ne.symm h.1), ih h.2, List.reverse_cons,
      List.append_assoc, List.singleton_append]

/-! ## Wording piece by piece -/

/-- The text has the filled text when the parameters are put in, and the names in quotes can stand
for tables and columns. -/
structure Worded (text : String) (parameters : List String) (filled : FilledText) : Prop where
  binds : bindParameters text.toList parameters = some filled
  names : ∃ names, quotedNames text = some names ∧ ∀ name ∈ names, isUsableName name = true

/-- There is no mark in the text. -/
def isPlain (s : String) : Bool := s.toList.all fun c => c != parameterMark && c != nameMark

theorem not_mem_of_isPlain {s : String} (h : isPlain s = true) :
    parameterMark ∉ s.toList ∧ nameMark ∉ s.toList := by
  have hchars := List.all_eq_true.1 h
  constructor <;> (intro hmem; exact absurd (hchars _ hmem) (by decide))

theorem all_isNameChar {name : String} (h : isUsableName name = true) :
    name.toList.all isNameChar = true := by
  unfold isUsableName at h
  cases hchars : name.toList with
  | nil => rfl
  | cons c rest =>
    rw [hchars, Bool.and_eq_true] at h
    have hfirst : isNameChar c = true := by
      rcases Bool.or_eq_true_iff.1 h.1 with halpha | hunderscore
      · simp [isNameChar, Text.isWord, Char.isAlphanum, halpha]
      · simp [isNameChar, Text.isWord, hunderscore]
    rw [List.all_cons, hfirst, h.2]
    rfl

theorem isUsableName_of_usableName {name name' : String} (h : usableName name = .ok name') :
    isUsableName name' = true := by
  unfold usableName at h
  split at h
  next husable =>
    cases h
    exact husable
  next => cases h

/-- A name is plain, so that in quotes it is one name. -/
theorem isPlain_of_isUsableName {name : String} (h : isUsableName name = true) :
    isPlain name = true := by
  refine List.all_eq_true.2 fun c hc => ?_
  have hchar := List.all_eq_true.1 (all_isNameChar h) c hc
  rw [Bool.and_eq_true, bne_iff_ne, bne_iff_ne]
  constructor <;> (rintro rfl; exact absurd hchar (by decide))

/-- A usable name stays usable with characters of names behind it. -/
theorem isUsableName_append {name tail : String} (h : isUsableName name = true)
    (htail : tail.toList.all isNameChar = true) : isUsableName (name ++ tail) = true := by
  unfold isUsableName at h ⊢
  rw [String.toList_append]
  cases hchars : name.toList with
  | nil => rw [hchars] at h; cases h
  | cons c rest =>
    rw [hchars] at h
    rw [List.cons_append]
    dsimp only at h ⊢
    rw [List.all_append, htail, Bool.and_true]
    exact h

theorem worded_plain {s : String} (h : isPlain s = true) : Worded s [] (verbatim s) where
  binds := bindParameters_of_not_mem (not_mem_of_isPlain h).1
  names := ⟨[], quotedNamesFrom_of_not_mem (not_mem_of_isPlain h).2,
    fun _ hname => absurd hname List.not_mem_nil⟩

theorem worded_mark (p : String) : Worded "?" [p] [Sum.inr p] :=
  ⟨rfl, [], rfl, fun _ hname => absurd hname List.not_mem_nil⟩

theorem worded_quoted {name : String} (h : isUsableName name = true) :
    Worded (quoted name) [] (verbatim (quoted name)) where
  binds := by
    refine bindParameters_of_not_mem ?_
    unfold quoted
    rw [String.toList_append, String.toList_append, List.mem_append, List.mem_append]
    rintro ((hopen | hname) | hclose)
    · exact absurd hopen (by decide)
    · exact (not_mem_of_isPlain (isPlain_of_isUsableName h)).1 hname
    · exact absurd hclose (by decide)
  names := by
    refine ⟨[name], ?_, by simpa using h⟩
    unfold quotedNames quoted
    have hname := quotedNamesFrom_name (not_mem_of_isPlain (isPlain_of_isUsableName h)).2 []
    rw [List.reverse_nil, List.nil_append, String.ofList_toList] at hname
    rw [String.toList_append, String.toList_append, List.append_assoc]
    exact hname

theorem Worded.append {s t : String} {ps qs : List String} {f g : FilledText}
    (hs : Worded s ps f) (ht : Worded t qs g) : Worded (s ++ t) (ps ++ qs) (f ++ g) := by
  rcases hs.names with ⟨names, hnames, husable⟩
  rcases ht.names with ⟨names', hnames', husable'⟩
  refine ⟨?_, names ++ names', ?_, ?_⟩
  · rw [String.toList_append]
    exact bindParameters_append hs.binds ht.binds
  · unfold quotedNames
    rw [String.toList_append]
    exact quotedNamesFrom_append hnames hnames'
  · intro name hname
    exact (List.mem_append.1 hname).elim (husable name) (husable' name)

/-- Pieces joined by plain text have their parameters one piece after the other. -/
theorem worded_join {α : Type} (text : α → String) (parameters : α → List String)
    (filled : α → FilledText) {glue : String} (hglue : isPlain glue = true) {pieces : List α}
    (h : ∀ piece ∈ pieces, Worded (text piece) (parameters piece) (filled piece)) :
    Worded (Text.join glue (pieces.map text)) (pieces.flatMap parameters)
      ((verbatim glue).intercalate (pieces.map filled)) := by
  induction pieces with
  | nil => exact worded_plain (s := "") rfl
  | cons piece rest ih =>
    have hpiece := h piece List.mem_cons_self
    cases rest with
    | nil => simpa [Text.join] using hpiece
    | cons next later =>
      have hrest := ih fun p hp => h p (List.mem_cons_of_mem piece hp)
      have hjoined := (hpiece.append (worded_plain hglue)).append hrest
      rw [List.append_nil] at hjoined
      rw [List.map_cons, List.map_cons, List.map_cons, List.map_cons, List.flatMap_cons,
        List.intercalate_cons_cons, Text.join]
      · exact hjoined
      · exact List.cons_ne_nil _ _

/-! ## The wording of selections -/

/-- A comparison with its parameter in place. -/
def filledComparison (column : String) (c : Comparison) : FilledText :=
  verbatim column ++ verbatim " " ++ verbatim c.comparator.sign ++ verbatim " " ++
    [Sum.inr c.parameter]

/-- Comparisons with their parameters in place. -/
def filledCondition (column : String) (comparisons : List Comparison) : FilledText :=
  (verbatim " AND ").intercalate (comparisons.map (filledComparison column))

/-- The statement that selects ids from a table where a condition holds, with the parameters of
the condition in place. -/
def filledSelect (table : String) (condition : FilledText) : FilledText :=
  verbatim "SELECT product_id FROM " ++ verbatim table ++ verbatim " WHERE " ++ condition

namespace Selection

mutual

/-- The statement of a selection with its parameters in place. -/
def filled : Selection → FilledText
  | .ofType typeId => filledSelect "products" (verbatim "product_type_id = " ++ [Sum.inr typeId])
  | .entries table elementId comparisons =>
    filledSelect (quoted table)
      (verbatim "element_id = " ++ [Sum.inr elementId] ++ verbatim " AND " ++
        filledCondition valueColumn comparisons)
  | .listed table comparisons =>
    filledSelect (quoted table) (filledCondition valueColumn comparisons)
  | .column table name comparisons =>
    filledSelect (quoted table) (filledCondition (quoted name) comparisons)
  | .compound operator parts =>
    (verbatim (" " ++ operatorWord operator ++ " ")).intercalate (filledParts parts)
  | .ofTypeExcept typeId excluded =>
    filledSelect "products"
      (verbatim "product_type_id = " ++ [Sum.inr typeId] ++
        verbatim " AND product_id NOT IN (" ++ filled excluded ++ verbatim ")")

/-- The statements of the parts of a compound with their parameters in place. -/
def filledParts : List Selection → List FilledText
  | [] => []
  | s :: rest =>
    (verbatim "SELECT product_id FROM (" ++ filled s ++ verbatim ")") :: filledParts rest

end

theorem partTexts_eq_map (parts : List Selection) :
    partTexts parts = parts.map fun s => "SELECT product_id FROM (" ++ text s ++ ")" := by
  induction parts with
  | nil => rfl
  | cons s rest ih => rw [partTexts, ih, List.map_cons]

theorem partParameters_eq_flatMap (parts : List Selection) :
    partParameters parts = parts.flatMap parameters := by
  induction parts with
  | nil => rfl
  | cons s rest ih => rw [partParameters, ih, List.flatMap_cons]

theorem filledParts_eq_map (parts : List Selection) :
    filledParts parts = parts.map fun s =>
      verbatim "SELECT product_id FROM (" ++ filled s ++ verbatim ")" := by
  induction parts with
  | nil => rfl
  | cons s rest ih => rw [filledParts, ih, List.map_cons]

end Selection

theorem worded_comparison {column : String} (hcolumn : Worded column [] (verbatim column))
    (c : Comparison) :
    Worded (column ++ " " ++ c.comparator.sign ++ " ?") [c.parameter]
      (filledComparison column c) := by
  have hsign : isPlain c.comparator.sign = true := by cases c.comparator <;> rfl
  have hspace : Worded " " [] (verbatim " ") := worded_plain (by decide)
  have hmark : Worded " ?" [c.parameter] (verbatim " " ++ [Sum.inr c.parameter]) :=
    hspace.append (worded_mark c.parameter)
  have hcomparison := ((hcolumn.append hspace).append (worded_plain hsign)).append hmark
  rw [filledComparison, List.append_assoc _ _ [Sum.inr c.parameter]]
  exact hcomparison

/-- A condition has its parameters in the order of its comparisons. -/
theorem worded_condition {column : String} (hcolumn : Worded column [] (verbatim column))
    (comparisons : List Comparison) :
    Worded (conditionText column comparisons) (comparisons.map Comparison.parameter)
      (filledCondition column comparisons) := by
  rw [List.map_eq_flatMap]
  exact worded_join _ _ _ (by decide) fun c _ => worded_comparison hcolumn c

theorem worded_select {table condition : String} {parameters : List String} {filled : FilledText}
    (htable : Worded table [] (verbatim table)) (hcondition : Worded condition parameters filled) :
    Worded (Selection.selectFrom table condition) parameters (filledSelect table filled) := by
  have hstart : Worded "SELECT product_id FROM " [] (verbatim "SELECT product_id FROM ") :=
    worded_plain (by decide)
  have hwhere : Worded " WHERE " [] (verbatim " WHERE ") := worded_plain (by decide)
  have hselect := ((hstart.append htable).append hwhere).append hcondition
  exact hselect

namespace Selection

/-- The selection is worded with its parameters in place. -/
def IsWorded (s : Selection) : Prop := Worded s.text s.parameters s.filled

theorem isWorded_ofType (typeId : String) : (ofType typeId).IsWorded := by
  have hstart : Worded "product_type_id = " [] (verbatim "product_type_id = ") := worded_plain (by decide)
  have hcondition : Worded "product_type_id = ?" [typeId]
      (verbatim "product_type_id = " ++ [Sum.inr typeId]) := hstart.append (worded_mark typeId)
  unfold IsWorded
  rw [text, parameters, filled]
  exact worded_select (worded_plain (by decide)) hcondition

theorem isWorded_entries {table : String} (htable : isUsableName table = true) (elementId : String)
    (comparisons : List Comparison) : (entries table elementId comparisons).IsWorded := by
  have hstart : Worded "element_id = " [] (verbatim "element_id = ") := worded_plain (by decide)
  have hand : Worded " AND " [] (verbatim " AND ") := worded_plain (by decide)
  have helement : Worded "element_id = ? AND " [elementId]
      (verbatim "element_id = " ++ [Sum.inr elementId] ++ verbatim " AND ") :=
    (hstart.append (worded_mark elementId)).append hand
  have hcolumn : Worded valueColumn [] (verbatim valueColumn) := worded_plain (by decide)
  exact worded_select (worded_quoted htable)
    (helement.append (worded_condition hcolumn comparisons))

theorem isWorded_listed {table : String} (htable : isUsableName table = true)
    (comparisons : List Comparison) : (listed table comparisons).IsWorded :=
  worded_select (worded_quoted htable) (worded_condition (worded_plain (by decide)) comparisons)

theorem isWorded_column {table name : String} (htable : isUsableName table = true)
    (hname : isUsableName name = true) (comparisons : List Comparison) :
    (column table name comparisons).IsWorded :=
  worded_select (worded_quoted htable) (worded_condition (worded_quoted hname) comparisons)

theorem isWorded_compound (operator : Junction) {parts : List Selection}
    (h : ∀ s ∈ parts, s.IsWorded) : (compound operator parts).IsWorded := by
  have hglue : isPlain (" " ++ operatorWord operator ++ " ") = true := by cases operator <;> rfl
  have hpart : ∀ s ∈ parts, Worded ("SELECT product_id FROM (" ++ text s ++ ")") (parameters s)
      (verbatim "SELECT product_id FROM (" ++ filled s ++ verbatim ")") := by
    intro s hs
    have hclosed := ((worded_plain (s := "SELECT product_id FROM (") (by decide)).append (h s hs)).append
      (worded_plain (s := ")") (by decide))
    rw [List.nil_append, List.append_nil] at hclosed
    exact hclosed
  unfold IsWorded
  rw [text, parameters, filled, partTexts_eq_map, partParameters_eq_flatMap, filledParts_eq_map]
  exact worded_join _ _ _ hglue hpart

theorem isWorded_ofTypeExcept (typeId : String) {excluded : Selection} (h : excluded.IsWorded) :
    (ofTypeExcept typeId excluded).IsWorded := by
  have hstart : Worded "product_type_id = " [] (verbatim "product_type_id = ") := worded_plain (by decide)
  have hnot : Worded " AND product_id NOT IN (" [] (verbatim " AND product_id NOT IN (") :=
    worded_plain (by decide)
  have htype : Worded "product_type_id = ? AND product_id NOT IN (" [typeId]
      (verbatim "product_type_id = " ++ [Sum.inr typeId] ++
        verbatim " AND product_id NOT IN (") :=
    (hstart.append (worded_mark typeId)).append hnot
  have hcondition := (htype.append h).append (worded_plain (s := ")") (by decide))
  rw [List.append_nil] at hcondition
  exact worded_select (worded_plain (by decide)) hcondition

end Selection

/-! ## Translations -/

namespace Translation

/-- The names of the tables of the type are usable. -/
def NamesTables (t : Translation) : Prop := isUsableName t.tables.base = true

variable {t : Translation} {s : Selection}

theorem NamesTables.metadata (h : t.NamesTables) : isUsableName t.tables.metadata = true :=
  isUsableName_append h rfl

theorem NamesTables.side (h : t.NamesTables) {element table : String}
    (htable : t.tables.valuesOf element = .ok table) : isUsableName table = true := by
  unfold TypeTables.valuesOf at htable
  rcases Action.map_eq_ok_iff.1 htable with ⟨name, hname, rfl⟩
  refine isUsableName_append (isUsableName_append (isUsableName_append h rfl) ?_) rfl
  exact all_isNameChar (isUsableName_of_usableName hname)

theorem isWorded_leaf (h : t.NamesTables) {element : String} {comparisons : List Comparison}
    (hleaf : t.leaf element comparisons = .ok s) : s.IsWorded := by
  unfold leaf at hleaf
  split at hleaf
  next => cases hleaf
  next elementId _ =>
    split at hleaf
    next =>
      cases hleaf
      exact Selection.isWorded_entries h.metadata elementId comparisons
    next =>
      split at hleaf
      next =>
        rcases Action.bind_eq_ok_iff.1 hleaf with ⟨table, htable, hlisted⟩
        cases hlisted
        exact Selection.isWorded_listed (h.side htable) comparisons
      next =>
        rcases Action.bind_eq_ok_iff.1 hleaf with ⟨name, hname, hcolumn⟩
        cases hcolumn
        exact Selection.isWorded_column h.metadata (isUsableName_of_usableName hname) comparisons

mutual

/-- The selection of a criterion is worded with its parameters in place. -/
theorem isWorded_selection (h : t.NamesTables) :
    ∀ (c : Criteria) {s : Selection}, t.selection c = .ok s → s.IsWorded
  | .term _ _, _, hs => isWorded_leaf h hs
  | .range _ _ _, _, hs => isWorded_leaf h hs
  | .junction operator members, _, hs => by
    rcases Action.bind_eq_ok_iff.1 hs with ⟨parts, hparts, hcompound⟩
    cases hcompound
    exact Selection.isWorded_compound operator (isWorded_selections h members hparts)
  | .negation member, _, hs => by
    rcases Action.bind_eq_ok_iff.1 hs with ⟨excluded, hexcluded, hexcept⟩
    cases hexcept
    exact Selection.isWorded_ofTypeExcept t.typeId (isWorded_selection h member hexcluded)

/-- The selections of several criteria are. -/
theorem isWorded_selections (h : t.NamesTables) :
    ∀ (cs : List Criteria) {parts : List Selection}, t.selections cs = .ok parts →
      ∀ s ∈ parts, s.IsWorded
  | [], _, hparts => by
    cases hparts
    exact fun _ hs => absurd hs List.not_mem_nil
  | c :: rest, _, hparts => by
    rcases Action.bind_eq_ok_iff.1 hparts with ⟨first, hfirst, hrest⟩
    rcases Action.bind_eq_ok_iff.1 hrest with ⟨later, hlater, hcons⟩
    cases hcons
    intro s hs
    rcases List.mem_cons.1 hs with rfl | hs
    · exact isWorded_selection h c hfirst
    · exact isWorded_selections h rest hlater s hs

end

theorem isWorded_ofQuery (h : t.NamesTables) {q : Query} (hs : t.ofQuery q = .ok s) :
    s.IsWorded := by
  unfold ofQuery at hs
  split at hs
  next c _ => exact isWorded_selection h c hs
  next =>
    cases hs
    exact Selection.isWorded_ofType t.typeId

end Translation

end ArchiveCatalog.Relational

import ArchiveCatalog.Proofs.Action
import ArchiveCatalog.Proofs.Dsl.Selection
import ArchiveCatalog.Proofs.Numeral

namespace ArchiveCatalog.Dsl

/-! # Statements read back

A complex query is printed as a statement that is read back part by part: the arguments between
their parentheses, the lists between the keywords, the condition behind the last of them. Formats,
sort keys and values may hold anything but a quote, since keywords, separators and parentheses in
quotes count for nothing.
-/

/-! ## Arguments -/

/-- The characters of an argument's name: no blank, quote, separator, parenthesis or brace, and no
small letter. -/
def isNameChar (c : Char) : Bool :=
  isWordChar c && c != ',' && c != ')' && c != '=' && c.toUpper == c

theorem ne_of_isNameChar {c d : Char} (hc : isNameChar c = true) (hd : isNameChar d = false) :
    c ≠ d := by
  rintro rfl
  rw [hc] at hd
  cases hd

/-- The name of an argument as it is printed, and a value that can stand in quotes. -/
structure IsArgument (argument : String × String) : Prop where
  isNameChar : ∀ c ∈ argument.1.toList, isNameChar c = true
  value : Text.quoteMark ∉ argument.2.toList

/-- An argument as text. -/
def argumentText (argument : String × String) : String := printArgument argument.1 argument.2

theorem toList_argumentText (argument : String × String) :
    (argumentText argument).toList = argument.1.toList ++
      '=' :: Text.quoteMark :: (argument.2.toList ++ [Text.quoteMark]) := by
  simp only [argumentText, printArgument, String.toList_append, List.append_assoc]
  rfl

namespace IsArgument

variable {argument : String × String}

theorem quoting {plain : Char → Prop} (h : IsArgument argument)
    (hplain : ∀ c, Dsl.isNameChar c = true → plain c) (hequals : plain '=') :
    Text.Quoting plain (argumentText argument).toList := by
  have hname : ∀ c ∈ argument.1.toList, c ≠ Text.quoteMark ∧ plain c := by
    intro c hc
    have hchar := h.isNameChar c hc
    exact ⟨ne_of_isNameChar hchar (by decide), hplain c hchar⟩
  have hquote : '=' ≠ Text.quoteMark := by decide
  rw [toList_argumentText]
  exact (Text.Quoting.of_forall hname).append (.cons hquote hequals (.quoted h.value .nil))

theorem not_blank (h : IsArgument argument) :
    ∀ c ∈ argument.1.toList, Text.isBlank c = false := by
  intro c hc
  have hchar := h.isNameChar c hc
  simp only [Dsl.isNameChar, Bool.and_eq_true] at hchar
  exact not_isBlank_of_isWordChar hchar.1.1.1.1

theorem capitals (h : IsArgument argument) : Text.capitals argument.1 = argument.1 := by
  have hupper : ∀ c ∈ argument.1.toList, c.toUpper = id c := by
    intro c hc
    have hchar := h.isNameChar c hc
    simp only [Dsl.isNameChar, Bool.and_eq_true, beq_iff_eq] at hchar
    exact hchar.2
  rw [Text.capitals, List.map_congr_left hupper, List.map_id, String.ofList_toList]

theorem trimmed (h : IsArgument argument) : Text.Trimmed (argumentText argument).toList := by
  have hname : ∀ c ∈ argument.1.toList ++ ['='], Text.isBlank c = false := by
    intro c hc
    rcases List.mem_append.1 hc with hc | hc
    · exact h.not_blank c hc
    · rw [List.mem_singleton.1 hc]
      decide
  have haround := (Text.trimmed_of_not_blank hname).around
    (List.append_ne_nil_of_right_ne_nil _ (List.cons_ne_nil _ _)) Text.trimmed_quoteMark
    (List.cons_ne_nil _ _) (Text.quoteMark :: argument.2.toList)
  rw [toList_argumentText]
  rwa [List.append_assoc, List.singleton_append, List.cons_append] at haround

/-- An argument is read back. -/
theorem parseArgument_eq (h : IsArgument argument) :
    parseArgument (argumentText argument).toList = .ok argument := by
  have hequals : '=' ∉ argument.1.toList := fun hmem =>
    ne_of_isNameChar (h.isNameChar '=' hmem) (by decide) rfl
  have hname : Text.trim argument.1.toList = argument.1.toList :=
    Text.trim_of_trimmed (Text.trimmed_of_not_blank h.not_blank)
  have hvalue : Text.trim (Text.quoteMark :: (argument.2.toList ++ [Text.quoteMark])) =
      Text.quoteMark :: (argument.2.toList ++ [Text.quoteMark]) :=
    Text.trim_of_trimmed (Text.trimmed_of_ends rfl rfl argument.2.toList)
  have hunquoted : unquoted (Text.quoteMark :: (argument.2.toList ++ [Text.quoteMark])) =
      argument.2.toList := by
    have hstart : Text.dropStart [Text.quoteMark]
        (Text.quoteMark :: (argument.2.toList ++ [Text.quoteMark])) = _ :=
      Text.dropStart_append [Text.quoteMark] (argument.2.toList ++ [Text.quoteMark])
    rw [unquoted, hstart, Option.bind_some, Text.dropTail_append, Option.getD_some]
  rw [toList_argumentText, parseArgument, Text.cutAt_append hequals]
  dsimp only
  rw [String.ofList_toList, Text.trimmed, hname, String.ofList_toList, h.capitals, hvalue,
    hunquoted, String.ofList_toList]

end IsArgument

/-- Joined arguments are cut apart at the commas between them. -/
theorem map_trim_splitUnquoted_join {argument : String × String} {rest : List (String × String)}
    (h : ∀ other ∈ argument :: rest, IsArgument other) :
    (Text.splitUnquoted ',' false
      (Text.join ", " ((argument :: rest).map argumentText)).toList).map Text.trim =
      (argument :: rest).map (String.toList ∘ argumentText) := by
  have hsep : ',' ≠ Text.quoteMark := by decide
  have hglue : ", ".toList = ',' :: [' '] := rfl
  have hpadding : Text.Quoting (· ≠ ',') [' '] := .of_forall (Text.forall_of_all (by decide))
  have hname : ∀ c, isNameChar c = true → c ≠ ',' := fun _ hc => ne_of_isNameChar hc (by decide)
  have hpieces : ∀ piece ∈ argumentText argument :: rest.map argumentText,
      Text.Quoting (· ≠ ',') piece.toList := by
    intro piece hpiece
    rw [← List.map_cons] at hpiece
    obtain ⟨other, hother, rfl⟩ := List.mem_map.1 hpiece
    exact (h other hother).quoting hname (by decide)
  have hrest : ∀ other ∈ rest,
      Text.trim ([' '] ++ (argumentText other).toList) = (argumentText other).toList := by
    intro other hother
    have hother := h other (List.mem_cons_of_mem argument hother)
    have hpadded := Text.trim_padded Text.allBlank_space hother.trimmed Text.allBlank_nil
    rwa [List.append_nil] at hpadded
  rw [List.map_cons, Text.splitUnquoted_join hsep hglue hpadding hpieces, List.map_cons,
    Text.trim_of_trimmed (h argument List.mem_cons_self).trimmed, List.map_map, List.map_map,
    List.map_cons]
  exact congrArg (List.cons _) (List.map_congr_left hrest)

/-- Printed arguments are read back. -/
theorem parseArguments_join {arguments : List (String × String)}
    (h : ∀ argument ∈ arguments, IsArgument argument) :
    parseArguments (Text.join ", " (arguments.map argumentText)).toList = .ok arguments := by
  cases arguments with
  | nil => rfl
  | cons argument rest =>
    have hkept : ∀ piece ∈ (argument :: rest).map (String.toList ∘ argumentText),
        (!piece.isEmpty) = true := by
      intro piece hpiece
      obtain ⟨other, -, rfl⟩ := List.mem_map.1 hpiece
      rw [Function.comp_apply, toList_argumentText, Bool.not_eq_true', List.isEmpty_eq_false_iff]
      exact List.append_ne_nil_of_right_ne_nil _ (List.cons_ne_nil _ _)
    have hparse : ∀ other ∈ argument :: rest,
        (parseArgument ∘ (String.toList ∘ argumentText)) other = .ok (id other) :=
      fun other hother => (h other hother).parseArgument_eq
    rw [parseArguments, map_trim_splitUnquoted_join h, List.filter_eq_self.2 hkept, List.mapM_map,
      Action.mapM_eq_ok hparse, List.map_id]

/-- Parentheses stand in the quotes of arguments only. -/
theorem quoting_join {arguments : List (String × String)}
    (h : ∀ argument ∈ arguments, IsArgument argument) :
    Text.Quoting (fun c => c ≠ '(' ∧ c ≠ ')')
      (Text.join ", " (arguments.map argumentText)).toList := by
  have hname : ∀ c, isNameChar c = true → c ≠ '(' ∧ c ≠ ')' := fun _ hc =>
    ⟨ne_of_isNameChar hc (by decide), ne_of_isNameChar hc (by decide)⟩
  refine .join (.of_forall (Text.forall_of_all (by decide))) fun piece hpiece => ?_
  obtain ⟨argument, hmem, rfl⟩ := List.mem_map.1 hpiece
  exact (h argument hmem).quoting hname (by decide)

/-! ## Filters -/

/-- The name of an element in the value of a filter argument. -/
structure IsFilterKey (key : String) : Prop where
  no_comma : ',' ∉ key.toList
  no_quote : Text.quoteMark ∉ key.toList
  trimmed : Text.Trimmed key.toList

/-- A filter with such names and a tolerance of 64 bits. -/
structure SpellableFilter (f : EventFilter) : Prop where
  start : IsFilterKey f.startKey
  stop : IsFilterKey f.endKey
  priority : IsFilterKey f.priorityKey
  fits : Text.fitsInt64 f.epsilon = true

/-- Text without blanks, commas and quotes. -/
theorem isFilterKey_of_forall {s : String}
    (h : ∀ c ∈ s.toList, c ≠ ',' ∧ c ≠ Text.quoteMark ∧ Text.isBlank c = false) :
    IsFilterKey s where
  no_comma hmem := (h ',' hmem).1 rfl
  no_quote hmem := (h Text.quoteMark hmem).2.1 rfl
  trimmed := Text.trimmed_of_not_blank fun c hc => (h c hc).2.2

theorem isFilterKey_label (algorithm : FilterAlgorithm) : IsFilterKey algorithm.label := by
  apply isFilterKey_of_forall
  cases algorithm <;> exact Text.forall_of_all (by decide)

theorem isFilterKey_toString (i : Int) : IsFilterKey (toString i) := by
  apply isFilterKey_of_forall
  intro c hc
  rcases Text.of_mem_toString hc with rfl | hdigit
  · decide
  · have hother : ∀ d : Char, d.isDigit = false → c ≠ d := by
      rintro d hd rfl
      rw [hdigit] at hd
      cases hd
    exact ⟨hother ',' rfl, hother Text.quoteMark rfl, Text.not_isBlank_of_isDigit hdigit⟩

theorem ofName_label (algorithm : FilterAlgorithm) :
    FilterAlgorithm.ofName algorithm.label = .ok algorithm := by
  cases algorithm <;> rfl

/-- What a filter is printed as, part by part. -/
def filterParts (f : EventFilter) : List String :=
  [f.startKey, f.endKey, f.priorityKey, f.algorithm.label, toString f.epsilon]

theorem SpellableFilter.isFilterKey {f : EventFilter} (h : SpellableFilter f) :
    ∀ part ∈ filterParts f, IsFilterKey part := by
  simp only [filterParts, List.forall_mem_cons]
  exact ⟨h.start, h.stop, h.priority, isFilterKey_label f.algorithm,
    isFilterKey_toString f.epsilon, fun _ hp => absurd hp List.not_mem_nil⟩

theorem SpellableFilter.no_quote {f : EventFilter} (h : SpellableFilter f) :
    Text.quoteMark ∉ (printFilter f).toList := by
  intro hmem
  rw [printFilter, Text.toList_join, List.mem_append, List.mem_flatMap] at hmem
  rcases hmem with hmem | ⟨part, hpart, hmem⟩
  · exact h.start.no_quote hmem
  · have hkey := h.isFilterKey part (List.mem_cons_of_mem f.startKey hpart)
    rcases List.mem_append.1 hmem with hcomma | hquote
    · revert hcomma
      decide
    · exact hkey.no_quote hquote

/-- A printed filter is read back. -/
theorem SpellableFilter.parseFilter_eq {f : EventFilter} (h : SpellableFilter f) :
    parseFilter (printFilter f) = .ok f := by
  have hglue : ",".toList = [','] := rfl
  have hcut : (Text.splitOn ',' (printFilter f).toList).map Text.trim =
      (filterParts f).map String.toList := by
    have hparts : Text.splitOn ',' (printFilter f).toList = (filterParts f).map String.toList :=
      Text.splitOn_join hglue (List.cons_ne_nil _ _) fun part hp => (h.isFilterKey part hp).no_comma
    rw [hparts, Text.map_trim fun part hp => (h.isFilterKey part hp).trimmed]
  rw [parseFilter, hcut]
  simp only [filterParts, List.map_cons, List.map_nil, parseEpsilon, String.ofList_toList,
    Text.readInt64?_toString h.fits, ofName_label]
  rfl

/-! ## Queries that can be spelled -/

/-- The names and values of the arguments of a complex query. -/
def argumentsOf (q : ComplexQuery) : List (String × String) :=
  (q.format.map (Prod.mk "FORMAT")).toList ++ (q.sortBy.map (Prod.mk "SORT_BY")).toList ++
    (q.filter.map fun f => ("FILTER", printFilter f)).toList

theorem printArguments_eq_map (q : ComplexQuery) :
    printArguments q = (argumentsOf q).map argumentText := by
  obtain ⟨query, fields, types, sortBy, format, filter⟩ := q
  cases format <;> cases sortBy <;> cases filter <;> rfl

/-- A complex query that has a spelling: its criteria have one, the names of its fields and types
can be told apart, and its other values can stand in quotes. -/
structure SpellableQuery (q : ComplexQuery) : Prop where
  criteria : ∀ c ∈ q.query.criteria, Spellable c
  fields : IsListable q.fields
  types : IsListable q.types
  sortBy : ∀ key ∈ q.sortBy, Text.quoteMark ∉ key.toList
  format : ∀ format ∈ q.format, Text.quoteMark ∉ format.toList
  filter : ∀ f ∈ q.filter, SpellableFilter f

namespace SpellableQuery

variable {q : ComplexQuery}

theorem isArgument (h : SpellableQuery q) : ∀ argument ∈ argumentsOf q, IsArgument argument := by
  have hformat : ∀ c ∈ "FORMAT".toList, isNameChar c = true := Text.forall_of_all (by decide)
  have hsort : ∀ c ∈ "SORT_BY".toList, isNameChar c = true := Text.forall_of_all (by decide)
  have hfilter : ∀ c ∈ "FILTER".toList, isNameChar c = true := Text.forall_of_all (by decide)
  intro argument hmem
  simp only [argumentsOf, List.mem_append, Option.mem_toList, Option.map_eq_some_iff] at hmem
  rcases hmem with (⟨format, hmem, rfl⟩ | ⟨key, hmem, rfl⟩) | ⟨f, hmem, rfl⟩
  · exact ⟨hformat, h.format format hmem⟩
  · exact ⟨hsort, h.sortBy key hmem⟩
  · exact ⟨hfilter, (h.filter f hmem).no_quote⟩

/-- The arguments set what they were printed from. -/
theorem foldlM_applyArgument (h : SpellableQuery q) (query : Query)
    (fields types : Option (List String)) :
    (argumentsOf q).foldlM applyArgument (selected query fields types) =
      .ok { q with query, fields, types } := by
  have hformat : (q.format.map (Prod.mk "FORMAT")).toList.foldlM applyArgument
      (selected query fields types) =
        .ok { selected query fields types with format := q.format } := by
    cases q.format <;> rfl
  have hsort : (q.sortBy.map (Prod.mk "SORT_BY")).toList.foldlM applyArgument
      { selected query fields types with format := q.format } =
        .ok { selected query fields types with format := q.format, sortBy := q.sortBy } := by
    cases q.sortBy <;> rfl
  have hfilter : (q.filter.map fun f => ("FILTER", printFilter f)).toList.foldlM applyArgument
      { selected query fields types with format := q.format, sortBy := q.sortBy } =
        .ok { q with query, fields, types } := by
    cases hf : q.filter with
    | none => rfl
    | some f =>
      have hparse := (h.filter f hf).parseFilter_eq
      simp only [Option.map_some, Option.toList_some, List.foldlM_cons, List.foldlM_nil,
        applyArgument, hparse]
      rfl
  rw [argumentsOf, List.foldlM_append, List.foldlM_append, hformat]
  dsimp only [bind, Except.bind]
  rw [hsort]
  exact hfilter

end SpellableQuery

/-! ## Parentheses and braces -/

theorem enclosedBody_braces (inner : List Char) :
    enclosedBody ('\x7b' :: (inner ++ ['\x7d'])) = .ok (Text.trim inner) := by
  have hlast : ∀ c ∈ (inner ++ ['\x7d']).getLast?, Text.isBlank c = false := by
    intro c hc
    rw [List.getLast?_concat] at hc
    cases hc
    decide
  have htrim := Text.trimEnd_append hlast Text.allBlank_nil
  rw [List.append_nil] at htrim
  have hstart : Text.dropStart ['\x7b'] ('\x7b' :: (inner ++ ['\x7d'])) = _ :=
    Text.dropStart_append ['\x7b'] (inner ++ ['\x7d'])
  rw [enclosedBody, hstart, Option.bind_some, htrim, Text.dropTail_append]

theorem splitStatement_of_braces {s inner : List Char}
    (hkeyword : startsWithKeyword "SQL".toList s = true)
    (hrest : Text.trimStart (s.drop 3) = '\x7b' :: (inner ++ ['\x7d'])) :
    splitStatement s = .ok ([], Text.trim inner) := by
  have hhead : ('\x7b' :: (inner ++ ['\x7d'])).head? ≠ some '(' := by
    intro hhead
    cases hhead
  have hagain : Text.trimStart ('\x7b' :: (inner ++ ['\x7d'])) =
      '\x7b' :: (inner ++ ['\x7d']) := rfl
  rw [splitStatement, if_pos hkeyword, hrest]
  dsimp only
  rw [if_neg hhead]
  dsimp only [bind, Except.bind, pure, Except.pure]
  rw [hagain, enclosedBody_braces]

theorem splitStatement_of_parens {s arguments rest inner : List Char}
    (hkeyword : startsWithKeyword "SQL".toList s = true)
    (hrest : Text.trimStart (s.drop 3) = '(' :: (arguments ++ ')' :: rest))
    (harguments : Text.Quoting (fun c => c ≠ '(' ∧ c ≠ ')') arguments)
    (hinner : Text.trimStart rest = '\x7b' :: (inner ++ ['\x7d'])) :
    splitStatement s = .ok (arguments, Text.trim inner) := by
  have hhead : ('(' :: (arguments ++ ')' :: rest)).head? = some '(' := rfl
  rw [splitStatement, if_pos hkeyword, hrest]
  dsimp only
  rw [if_pos hhead, splitArguments_parens harguments]
  dsimp only [bind, Except.bind, pure, Except.pure]
  rw [hinner, enclosedBody_braces]

/-- The text of the arguments of a statement, with the blank behind it. -/
def parenthesized (arguments : List (String × String)) : List Char :=
  if arguments.isEmpty then []
  else '(' :: ((Text.join ", " (arguments.map argumentText)).toList ++ [')', ' '])

/-- A statement is taken apart. -/
theorem splitStatement_eq {arguments : List (String × String)}
    (h : ∀ argument ∈ arguments, IsArgument argument) (inner : List Char) :
    splitStatement ("SQL ".toList ++ (parenthesized arguments ++
      '\x7b' :: (inner ++ ['\x7d']))) =
        .ok ((Text.join ", " (arguments.map argumentText)).toList, Text.trim inner) := by
  have hkeyword : startsWithKeyword "SQL".toList ("SQL ".toList ++ (parenthesized arguments ++
      '\x7b' :: (inner ++ ['\x7d']))) = true := startsWithKeyword_append _ _
  cases arguments with
  | nil => exact splitStatement_of_braces hkeyword rfl
  | cons argument rest =>
    have htext : parenthesized (argument :: rest) ++ '\x7b' :: (inner ++ ['\x7d']) =
        '(' :: ((Text.join ", " ((argument :: rest).map argumentText)).toList ++
          ')' :: ' ' :: '\x7b' :: (inner ++ ['\x7d'])) := by
      have hne : ¬ (argument :: rest).isEmpty = true := Bool.false_ne_true
      rw [parenthesized, if_neg hne, List.cons_append, List.append_assoc]
      rfl
    have hrest : Text.trimStart (("SQL ".toList ++ (parenthesized (argument :: rest) ++
        '\x7b' :: (inner ++ ['\x7d']))).drop 3) =
          '(' :: ((Text.join ", " ((argument :: rest).map argumentText)).toList ++
            ')' :: ' ' :: '\x7b' :: (inner ++ ['\x7d'])) := by
      rw [htext]
      rfl
    exact splitStatement_of_parens hkeyword hrest (quoting_join h) rfl

/-! ## Statements -/

/-- The text of the condition of a selection, with the keyword before it. -/
def conditionText : Option Criteria → List Char
  | none => []
  | some c => " WHERE ".toList ++ withoutParens (printCriteria c).toList

/-- The text between the braces of a statement. -/
def selectionText (q : ComplexQuery) : List Char :=
  ' ' :: (selecting (printList q.fields).toList
    (' ' :: ((printList q.types).toList ++ conditionText q.query.asCriterion)) ++ [' '])

theorem toList_printStatement (q : ComplexQuery) :
    (printStatement q).toList = "SQL ".toList ++ (parenthesized (argumentsOf q) ++
      '\x7b' :: (selectionText q ++ ['\x7d'])) := by
  have harguments : (if (printArguments q).isEmpty then "" else
      "(" ++ Text.join ", " (printArguments q) ++ ") ").toList = parenthesized (argumentsOf q) := by
    rw [printArguments_eq_map, parenthesized, List.isEmpty_map]
    split
    · rfl
    · simp only [String.toList_append, List.append_assoc]
      rfl
  have htext : '\x7b' :: (selectionText q ++ ['\x7d']) =
      "\x7b SELECT ".toList ++ ((printList q.fields).toList ++ (" FROM ".toList ++
        ((printList q.types).toList ++
          (conditionText q.query.asCriterion ++ " \x7d".toList)))) := by
    simp [selectionText, selecting_eq]
  cases hcriterion : q.query.asCriterion with
  | none =>
    have hcondition : conditionText none = "".toList := rfl
    rw [hcriterion, hcondition] at htext
    rw [htext, ← harguments, printStatement]
    simp only [hcriterion, String.toList_append, List.append_assoc]
  | some c =>
    have hcondition : conditionText (some c) =
        " WHERE ".toList ++ (stripParens (printCriteria c)).toList := by
      rw [toList_stripParens]
      rfl
    rw [hcriterion, hcondition] at htext
    rw [htext, ← harguments, printStatement]
    simp only [hcriterion, String.toList_append, List.append_assoc]

theorem parseSelection_selectionText {q : ComplexQuery} (h : SpellableQuery q) :
    parseSelection (Text.trim (selectionText q)) =
      .ok (selected ⟨(q.query.asCriterion.map reading).toList⟩ q.fields q.types) := by
  rw [selectionText]
  cases hcriterion : q.query.asCriterion with
  | none =>
    have hnothing : conditionText none = [] := rfl
    rw [hnothing, List.append_nil]
    exact parseSelection_trim_plain h.fields h.types
  | some c =>
    have hwrites := (prints c (Spellable.of_asCriterion h.criteria hcriterion)).stripped.1
    exact parseSelection_trim_where h.fields h.types hwrites.trimmed hwrites.ne_nil
      (hwrites.parseCondition_eq Text.allBlank_space)

/-- Printing a complex query as a statement and reading that back gives the same lists, arguments
and filter, and a criterion of the same normal form. -/
theorem printed_statement_round_trip {q : ComplexQuery} (h : SpellableQuery q) :
    ∃ q', parseStatement (printStatement q) = .ok q' ∧ q'.fields = q.fields ∧ q'.types = q.types ∧
      q'.sortBy = q.sortBy ∧ q'.format = q.format ∧ q'.filter = q.filter ∧
      q'.query.asCriterion.map Criteria.normalized =
        q.query.asCriterion.map Criteria.normalized := by
  have htrimmed : Text.Trimmed (printStatement q).toList := by
    have hfirst : Text.isBlank 'S' = false := by decide
    have hlast : Text.isBlank '\x7d' = false := by decide
    have hends := Text.trimmed_of_ends hfirst hlast
      ('Q' :: 'L' :: ' ' :: (parenthesized (argumentsOf q) ++ '\x7b' :: selectionText q))
    rw [toList_printStatement]
    simpa using hends
  have hsplit := splitStatement_eq h.isArgument (selectionText q)
  have hselection := parseSelection_selectionText h
  have harguments := parseArguments_join h.isArgument
  have happlied := h.foldlM_applyArgument ⟨(q.query.asCriterion.map reading).toList⟩
    q.fields q.types
  refine ⟨{ q with query := ⟨(q.query.asCriterion.map reading).toList⟩ }, ?_, rfl, rfl, rfl, rfl,
    rfl, ?_⟩
  · rw [parseStatement, Text.trim_of_trimmed htrimmed, toList_printStatement, hsplit]
    dsimp only [bind, Except.bind]
    rw [hselection]
    dsimp only
    rw [harguments]
    exact happlied
  · cases q.query.asCriterion with
    | none => rfl
    | some c => exact congrArg some (normalized_reading c)

/-- No field at all, two types, and a format that holds separators, brackets and keywords. -/
def nightReport : ComplexQuery where
  query := ⟨[nightPasses, .term "Site" "north FROM (here) WHERE a"]⟩
  fields := some []
  types := some ["GRANULE", "from-orbit"]
  sortBy := some "StartTime"
  format := some "zip=(all), \x7d FROM * WHERE"
  filter := some ⟨"StartTime", "EndTime", "", .weightedHash, -5⟩

theorem nightReport_round_trip :
    SpellableQuery nightReport ∧ ∃ q', parseStatement (printStatement nightReport) = .ok q' ∧
      q'.fields = nightReport.fields ∧ q'.types = nightReport.types ∧
      q'.sortBy = nightReport.sortBy ∧ q'.format = nightReport.format ∧
      q'.filter = nightReport.filter ∧ q'.query.asCriterion.map Criteria.normalized =
        nightReport.query.asCriterion.map Criteria.normalized := by
  have hsite : Spellable (.term "Site" "north FROM (here) WHERE a") :=
    ⟨.term _ _, by decide, by decide⟩
  have hspellable : SpellableQuery nightReport := by
    constructor
    · simp only [nightReport, List.forall_mem_cons]
      exact ⟨spellable_nightPasses, hsite, fun _ hc => absurd hc List.not_mem_nil⟩
    · rintro list ⟨⟩
      exact ⟨by decide, by decide⟩
    · rintro list ⟨⟩
      exact ⟨by decide, by decide⟩
    · rintro key ⟨⟩
      decide
    · rintro format ⟨⟩
      decide
    · rintro f ⟨⟩
      exact ⟨isFilterKey_of_forall (Text.forall_of_all (by decide)),
        isFilterKey_of_forall (Text.forall_of_all (by decide)),
        isFilterKey_of_forall (Text.forall_of_all (by decide)), rfl⟩
  exact ⟨hspellable, printed_statement_round_trip hspellable⟩

end ArchiveCatalog.Dsl

import ArchiveCatalog.Proofs.Dsl.Keywords
import ArchiveCatalog.Proofs.Dsl.Printing

namespace ArchiveCatalog.Dsl

/-! # Selections read back

The names of a list have no blank, so a printed list is one word, and as none of them is a keyword
the searches for FROM and WHERE pass over it. The condition stands behind both keywords and is
never searched.
-/

/-! ## Lists of names -/

/-- The characters of a name in a list: no blank, quote, comma, parenthesis or brace. -/
def isItemChar (c : Char) : Bool := isWordChar c && c != ',' && c != ')' && c != '\x7d'

/-- A word that is no keyword inside of a selection. -/
structure IsFree (word : List Char) : Prop where
  isWordChar : ∀ c ∈ word, isWordChar c = true
  not_from : Text.sameFolded word "FROM".toList = false
  not_where : Text.sameFolded word "WHERE".toList = false

/-- The name can be told apart in a list of fields or types. -/
structure IsItem (item : String) : Prop where
  ne_empty : item ≠ ""
  isItemChar : ∀ c ∈ item.toList, isItemChar c = true
  not_from : Text.sameFolded item.toList "FROM".toList = false
  not_where : Text.sameFolded item.toList "WHERE".toList = false

instance (item : String) : Decidable (IsItem item) :=
  decidable_of_iff (item ≠ "" ∧ item.toList.all isItemChar = true ∧
    Text.sameFolded item.toList "FROM".toList = false ∧
    Text.sameFolded item.toList "WHERE".toList = false)
    ⟨fun h => ⟨h.1, List.all_eq_true.1 h.2.1, h.2.2.1, h.2.2.2⟩,
      fun h => ⟨h.1, List.all_eq_true.2 h.2, h.3, h.4⟩⟩

/-- A list of such names, which does not look like the star that stands for no list. -/
def IsListable (items : Option (List String)) : Prop :=
  ∀ list ∈ items, list ≠ ["*"] ∧ ∀ item ∈ list, IsItem item

theorem IsItem.comma_not_mem {item : String} (h : IsItem item) : ',' ∉ item.toList := by
  intro hmem
  have hcomma := h.isItemChar ',' hmem
  revert hcomma
  decide

theorem isWordChar_of_isItemChar {c : Char} (h : isItemChar c = true) : isWordChar c = true := by
  simp only [isItemChar, Bool.and_eq_true] at h
  exact h.1.1.1

theorem not_isBlank_of_isWordChar {c : Char} (h : isWordChar c = true) :
    Text.isBlank c = false := by
  simp only [isWordChar, Bool.and_eq_true, Bool.not_eq_true'] at h
  exact h.1.1.1

variable {items : Option (List String)}

/-- A printed list is one word. -/
theorem isWordChar_printList (h : IsListable items) :
    ∀ c ∈ (printList items).toList, isWordChar c = true := by
  cases items with
  | none => exact Text.forall_of_all (by decide)
  | some list =>
    obtain ⟨-, hitems⟩ := h list rfl
    have hchars : ∀ item ∈ list, ∀ c ∈ item.toList, isWordChar c = true := fun item hitem c hc =>
      isWordChar_of_isItemChar ((hitems item hitem).isItemChar c hc)
    cases list with
    | nil => exact fun c hc => absurd hc List.not_mem_nil
    | cons item rest =>
      intro c hc
      rw [printList, Text.toList_join, List.mem_append, List.mem_flatMap] at hc
      rcases hc with hc | ⟨other, hother, hc⟩
      · exact hchars item List.mem_cons_self c hc
      · rcases List.mem_append.1 hc with hc | hc
        · rw [List.mem_singleton.1 hc]
          decide
        · exact hchars other (List.mem_cons_of_mem item hother) c hc

/-- A printed list is one word and no keyword. -/
theorem isFree_printList (h : IsListable items) : IsFree (printList items).toList := by
  have hword := isWordChar_printList h
  match items with
  | none => exact ⟨hword, rfl, rfl⟩
  | some [] => exact ⟨hword, rfl, rfl⟩
  | some [item] =>
    have hitem := (h [item] rfl).2 item List.mem_cons_self
    exact ⟨hword, hitem.not_from, hitem.not_where⟩
  | some (item :: other :: rest) =>
    -- the comma between two names is in no keyword
    have hcomma : ',' ∈ (printList (some (item :: other :: rest))).toList.map Char.toLower := by
      rw [printList, Text.toList_join_cons, List.map_append]
      exact List.mem_append_right _ List.mem_cons_self
    have hother : ∀ keyword : List Char, ',' ∉ keyword.map Char.toLower →
        Text.sameFolded (printList (some (item :: other :: rest))).toList keyword = false := by
      intro keyword hkeyword
      rw [Text.sameFolded, beq_eq_false_iff_ne]
      intro hsame
      exact hkeyword (hsame ▸ hcomma)
    exact ⟨hword, hother _ (by decide), hother _ (by decide)⟩

theorem trimmed_printList (h : IsListable items) : Text.Trimmed (printList items).toList :=
  Text.trimmed_of_not_blank fun c hc => not_isBlank_of_isWordChar (isWordChar_printList h c hc)

/-- The names of a list are cut apart at the commas. -/
theorem splitOn_printList {item : String} {rest : List String}
    (h : ∀ other ∈ item :: rest, IsItem other) :
    Text.splitOn ',' (printList (some (item :: rest))).toList =
      (item :: rest).map String.toList := by
  have hglue : ",".toList = [','] := rfl
  exact Text.splitOn_join hglue (List.cons_ne_nil item rest) fun other hother =>
    (h other hother).comma_not_mem

/-- A printed list is read back, with blanks around it. -/
theorem parseList_printList (h : IsListable items) {before after : List Char}
    (hbefore : Text.AllBlank before) (hafter : Text.AllBlank after) :
    parseList (before ++ ((printList items).toList ++ after)) = items := by
  rw [parseList, Text.trim_padded hbefore (trimmed_printList h) hafter]
  match items with
  | none => rfl
  | some [] => rfl
  | some (item :: rest) =>
    obtain ⟨hstar, hitems⟩ := h (item :: rest) rfl
    have hcut := splitOn_printList hitems
    have hnostar : (printList (some (item :: rest))).toList ≠ ['*'] := by
      intro hsame
      rw [hsame] at hcut
      have hlist : (item :: rest).map String.toList = ["*"].map String.toList := hcut.symm
      exact hstar (List.map_injective_iff.2 (fun _ _ => String.toList_inj.1) hlist)
    have htrim : ∀ other ∈ item :: rest, Text.Trimmed other.toList := fun other hother =>
      Text.trimmed_of_not_blank fun c hc =>
        not_isBlank_of_isWordChar (isWordChar_of_isItemChar ((hitems other hother).isItemChar c hc))
    have hkept : ∀ piece ∈ (item :: rest).map String.toList, (!piece.isEmpty) = true := by
      intro piece hpiece
      obtain ⟨other, hother, rfl⟩ := List.mem_map.1 hpiece
      rw [Bool.not_eq_true', List.isEmpty_eq_false_iff]
      exact fun hnil => (hitems other hother).ne_empty (String.toList_inj.1 hnil)
    have hback : (String.ofList ∘ String.toList) = id := funext fun _ => String.ofList_toList
    dsimp only
    rw [if_neg hnostar, hcut, Text.map_trim htrim, List.filter_eq_self.2 hkept, List.map_map, hback,
      List.map_id]

/-! ## Selections -/

/-- The complex query of a selection. -/
def selected (query : Query) (fields types : Option (List String)) : ComplexQuery :=
  { query, fields, types, sortBy := none, format := none, filter := none }

theorem parseSelection_of_none {body : List Char} {fromAt : Nat}
    (h : selectionParts body = .ok (fromAt, none)) :
    parseSelection body = .ok (selected .everything
      (parseList (between "SELECT".length fromAt body))
      (parseList (body.drop (fromAt + "FROM".length)))) := by
  rw [parseSelection, h]
  rfl

theorem parseSelection_of_some {body : List Char} {fromAt whereAt : Nat} {c : Criteria}
    (h : selectionParts body = .ok (fromAt, some whereAt))
    (hcondition : parseCondition (body.drop (whereAt + "WHERE".length)) = .ok c) :
    parseSelection body = .ok (selected ⟨[c]⟩
      (parseList (between "SELECT".length fromAt body))
      (parseList (between (fromAt + "FROM".length) whereAt body))) := by
  rw [parseSelection, h]
  dsimp only [bind, Except.bind]
  rw [hcondition]
  rfl

/-- The text of a selection, given what follows the keyword FROM. -/
def selecting (fields tail : List Char) : List Char :=
  "SELECT".toList ++ ' ' :: (fields ++ ' ' :: ("FROM".toList ++ tail))

theorem selecting_eq (fields tail : List Char) : selecting fields tail =
    "SELECT".toList ++ ' ' :: (fields ++ ' ' :: ("FROM".toList ++ tail)) := by
  delta selecting
  rfl

/-- What follows FROM in a selection with a condition. -/
def restricting (types condition : List Char) : List Char :=
  ' ' :: (types ++ ' ' :: ("WHERE".toList ++ ' ' :: condition))

variable {fields types tail : List Char}

theorem isKeyword_from : IsKeyword "FROM".toList :=
  ⟨by decide, Text.forall_of_all (by decide), Text.forall_of_all (by decide)⟩

theorem isKeyword_where : IsKeyword "WHERE".toList :=
  ⟨by decide, Text.forall_of_all (by decide), Text.forall_of_all (by decide)⟩

theorem isWordChar_select : ∀ c ∈ "SELECT".toList, isWordChar c = true :=
  Text.forall_of_all (by decide)

theorem isWordChar_from : ∀ c ∈ "FROM".toList, isWordChar c = true :=
  Text.forall_of_all (by decide)

theorem findKeyword_from (hfields : IsFree fields) (htail : EndsWord tail) :
    findKeyword "FROM".toList false true (selecting fields tail) = some (fields.length + 8) := by
  rw [selecting_eq, findKeyword_past isKeyword_from isWordChar_select rfl,
    findKeyword_past isKeyword_from hfields.isWordChar hfields.not_from,
    findKeyword_here isKeyword_from htail]
  simp

theorem findKeyword_where_selecting (hfields : IsFree fields) (tail : List Char) :
    findKeyword "WHERE".toList false true (selecting fields tail) =
      (findKeyword "WHERE".toList false true ("FROM".toList ++ tail)).map
        (· + (fields.length + 8)) := by
  rw [selecting_eq, findKeyword_past isKeyword_where isWordChar_select rfl,
    findKeyword_past isKeyword_where hfields.isWordChar hfields.not_where, Option.map_map]
  apply congrArg (Option.map · _)
  funext n
  simp only [Function.comp_apply]
  have hselect : "SELECT".toList.length = 6 := rfl
  omega

/-- A selection goes on behind FROM with nothing or a blank, and WHERE comes later than that. -/
theorem selectionParts_selecting (hfields : IsFree fields) (htail : EndsWord tail) :
    selectionParts (selecting fields tail) = .ok (fields.length + 8,
      ((findKeyword "WHERE".toList false true ("FROM".toList ++ tail)).map
        (· + (fields.length + 8))).filter (fields.length + 8 < ·)) := by
  have hselect : startsWithKeyword "SELECT".toList (selecting fields tail) = true :=
    startsWithKeyword_append _ _
  rw [selectionParts, if_pos hselect, findKeyword_from hfields htail,
    findKeyword_where_selecting hfields]

theorem between_selecting (fields tail : List Char) :
    between "SELECT".length (fields.length + 8) (selecting fields tail) =
      ' ' :: (fields ++ [' ']) := by
  have hparts : selecting fields tail =
      "SELECT".toList ++ ((' ' :: (fields ++ [' '])) ++ ("FROM".toList ++ tail)) := by
    simp [selecting_eq]
  have hlength : fields.length + 8 =
      "SELECT".toList.length + (' ' :: (fields ++ [' '])).length := by
    simp
    omega
  rw [hparts, hlength]
  exact between_append _ _ _

theorem selecting_eq_append (fields tail : List Char) :
    selecting fields tail = selecting fields [] ++ tail := by
  simp [selecting_eq]

theorem length_selecting (fields : List Char) :
    (selecting fields []).length = fields.length + 8 + "FROM".length := by
  have hfrom : "FROM".length = 4 := rfl
  simp [selecting_eq]
  omega

theorem drop_selecting (fields tail : List Char) :
    (selecting fields tail).drop (fields.length + 8 + "FROM".length) = tail := by
  rw [selecting_eq_append]
  exact List.drop_left' (length_selecting fields)

/-- A selection without a condition. -/
theorem parseSelection_plain (hfields : IsFree fields) (htypes : IsFree types)
    (htail : tail = [] ∨ tail = ' ' :: types) :
    parseSelection (selecting fields tail) =
      .ok (selected .everything (parseList (' ' :: (fields ++ [' ']))) (parseList tail)) := by
  have hends : EndsWord tail := htail.imp_right fun h => ⟨types, h⟩
  have hnone : findKeyword "WHERE".toList false true ("FROM".toList ++ tail) = none := by
    rcases htail with rfl | rfl
    · rfl
    · rw [findKeyword_past isKeyword_where isWordChar_from rfl,
        findKeyword_none isKeyword_where htypes.isWordChar htypes.not_where]
      rfl
  have hparts := selectionParts_selecting hfields hends
  rw [hnone] at hparts
  rw [parseSelection_of_none hparts, between_selecting, drop_selecting]

/-- A selection with a condition. -/
theorem parseSelection_where {condition : List Char} {c : Criteria} (hfields : IsFree fields)
    (htypes : IsFree types) (hcondition : parseCondition (' ' :: condition) = .ok c) :
    parseSelection (selecting fields (restricting types condition)) =
      .ok (selected ⟨[c]⟩ (parseList (' ' :: (fields ++ [' '])))
        (parseList (' ' :: (types ++ [' '])))) := by
  have hends : EndsWord (restricting types condition) := Or.inr ⟨_, rfl⟩
  have hwhere : findKeyword "WHERE".toList false true
      ("FROM".toList ++ restricting types condition) = some (types.length + 6) := by
    rw [restricting, findKeyword_past isKeyword_where isWordChar_from rfl,
      findKeyword_past isKeyword_where htypes.isWordChar htypes.not_where,
      findKeyword_here isKeyword_where (Or.inr ⟨condition, rfl⟩)]
    simp
  -- positions count from the end of the part before them
  have hposition : types.length + 6 + (fields.length + 8) =
      (selecting fields []).length + (' ' :: (types ++ [' '])).length := by
    have hfrom : "FROM".length = 4 := rfl
    rw [length_selecting]
    simp
    omega
  have htext : selecting fields (restricting types condition) =
      selecting fields [] ++
        ((' ' :: (types ++ [' '])) ++ ("WHERE".toList ++ ' ' :: condition)) := by
    rw [selecting_eq_append]
    simp [restricting]
  have hbetween : between (fields.length + 8 + "FROM".length)
      (types.length + 6 + (fields.length + 8)) (selecting fields (restricting types condition)) = ' ' :: (types ++ [' ']) := by
    rw [hposition, ← length_selecting, htext]
    exact between_append _ _ _
  have hdrop : (selecting fields (restricting types condition)).drop
      (types.length + 6 + (fields.length + 8) + "WHERE".length) = ' ' :: condition := by
    rw [hposition, htext, ← List.append_assoc, ← List.append_assoc]
    have hlength : (selecting fields [] ++ ' ' :: (types ++ [' ']) ++ "WHERE".toList).length =
        (selecting fields []).length + (' ' :: (types ++ [' '])).length + "WHERE".length := by
      rw [List.length_append, List.length_append]
      rfl
    exact List.drop_left' hlength
  have hparts := selectionParts_selecting hfields hends
  have hlater : fields.length + 8 < types.length + 6 + (fields.length + 8) := by omega
  rw [hwhere, Option.map_some, Option.filter_some, if_pos (decide_eq_true hlater)] at hparts
  rw [← hdrop] at hcondition
  rw [parseSelection_of_some hparts hcondition, between_selecting, hbetween]

/-! ## Between the braces -/

theorem trimmed_selecting {fields tail before last : List Char} (h : Text.Trimmed last)
    (hne : last ≠ []) (heq : "FROM".toList ++ tail = before ++ last) :
    Text.Trimmed (selecting fields tail) := by
  have hselect : Text.Trimmed "SELECT".toList :=
    Text.trimmed_of_not_blank fun c hc => not_isBlank_of_isWordChar (isWordChar_select c hc)
  have hword : "SELECT".toList ≠ [] := by decide
  have haround := hselect.around hword h hne (' ' :: (fields ++ ' ' :: before))
  rw [selecting_eq, heq]
  rwa [List.cons_append, List.append_assoc, List.cons_append] at haround

section Braces

variable {fields types : Option (List String)} (hfields : IsListable fields)
  (htypes : IsListable types)
include hfields htypes

/-- A printed selection without a condition is read back from between its braces. -/
theorem parseSelection_trim_plain :
    parseSelection (Text.trim (' ' :: (selecting (printList fields).toList
      (' ' :: (printList types).toList) ++ [' ']))) = .ok (selected .everything fields types) := by
  have hfieldsBack : parseList (' ' :: ((printList fields).toList ++ [' '])) = fields :=
    parseList_printList hfields Text.allBlank_space Text.allBlank_space
  by_cases hempty : (printList types).toList = []
  · -- the blank behind FROM is trimmed away with the one before the brace
    have hblanks := Text.allBlank_space.append Text.allBlank_space
    have hfrom : Text.Trimmed "FROM".toList :=
      Text.trimmed_of_not_blank fun c hc => not_isBlank_of_isWordChar (isWordChar_from c hc)
    have hne : "FROM".toList ≠ [] := by decide
    have hnothing : "FROM".toList ++ [] = [] ++ "FROM".toList := List.append_nil _
    have htrimmed : Text.Trimmed (selecting (printList fields).toList []) :=
      trimmed_selecting hfrom hne hnothing
    have htypesBack : parseList [] = types := by
      have hpadded := parseList_printList htypes Text.allBlank_nil Text.allBlank_nil
      rwa [hempty] at hpadded
    have htrim := Text.trim_padded Text.allBlank_space htrimmed hblanks
    rw [List.singleton_append, ← List.append_assoc, ← selecting_eq_append] at htrim
    have hselection := parseSelection_plain (isFree_printList hfields) (isFree_printList htypes)
      (Or.inl rfl)
    rw [hempty, htrim, hselection, hfieldsBack, htypesBack]
  · have hlast : "FROM".toList ++ ' ' :: (printList types).toList =
        "FROM ".toList ++ (printList types).toList := rfl
    have htrimmed : Text.Trimmed (selecting (printList fields).toList
        (' ' :: (printList types).toList)) :=
      trimmed_selecting (trimmed_printList htypes) hempty hlast
    have htypesBack : parseList (' ' :: (printList types).toList) = types := by
      have hpadded := parseList_printList htypes Text.allBlank_space Text.allBlank_nil
      rwa [List.append_nil] at hpadded
    have htrim := Text.trim_padded Text.allBlank_space htrimmed Text.allBlank_space
    rw [List.singleton_append] at htrim
    have hselection := parseSelection_plain (isFree_printList hfields) (isFree_printList htypes)
      (Or.inr rfl)
    rw [htrim, hselection, hfieldsBack, htypesBack]

/-- A printed selection with a condition is read back from between its braces. -/
theorem parseSelection_trim_where {condition : List Char} {c : Criteria}
    (hcondition : Text.Trimmed condition) (hne : condition ≠ [])
    (hparse : parseCondition (' ' :: condition) = .ok c) :
    parseSelection (Text.trim (' ' :: (selecting (printList fields).toList
      (restricting (printList types).toList condition) ++ [' ']))) =
        .ok (selected ⟨[c]⟩ fields types) := by
  have hfieldsBack : parseList (' ' :: ((printList fields).toList ++ [' '])) = fields :=
    parseList_printList hfields Text.allBlank_space Text.allBlank_space
  have htypesBack : parseList (' ' :: ((printList types).toList ++ [' '])) = types :=
    parseList_printList htypes Text.allBlank_space Text.allBlank_space
  have hlast : "FROM".toList ++ restricting (printList types).toList condition =
      "FROM ".toList ++ ((printList types).toList ++ " WHERE ".toList) ++ condition := by
    rw [List.append_assoc, List.append_assoc]
    rfl
  have htrimmed : Text.Trimmed (selecting (printList fields).toList
      (restricting (printList types).toList condition)) := trimmed_selecting hcondition hne hlast
  have htrim := Text.trim_padded Text.allBlank_space htrimmed Text.allBlank_space
  rw [List.singleton_append] at htrim
  rw [htrim, parseSelection_where (isFree_printList hfields) (isFree_printList htypes) hparse,
    hfieldsBack, htypesBack]

end Braces

end ArchiveCatalog.Dsl

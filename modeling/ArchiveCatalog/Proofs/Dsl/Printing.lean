import ArchiveCatalog.Dsl.Printing
import ArchiveCatalog.Proofs.Criteria
import ArchiveCatalog.Proofs.Dsl.Grammar
import ArchiveCatalog.Proofs.NormalForm

namespace ArchiveCatalog.Dsl

/-! # Criteria read back

The text of a criterion is read as `reading`: the members of a junction come back in pairs, and a
range with two bounds as a conjunction of two ranges. That leaves the normal form as it is, and
also what the criterion holds for, except that the two bounds of a range may then be met by
different values.
-/

/-! ## What is read back -/

/-- The criteria joined in pairs, if there are any. -/
def joined (operator : Junction) : List Criteria → Criteria
  | [] => .junction operator []
  | first :: rest => Criteria.paired operator first rest

mutual

/-- The criterion that the text of a criterion is read as. -/
def reading : Criteria → Criteria
  | .term element value => .term element value
  | .range element (.both lower upper) inclusive =>
    .junction .all [.range element (.start lower) inclusive, .range element (.stop upper) inclusive]
  | .range element bounds inclusive => .range element bounds inclusive
  | .junction operator members => joined operator (readings members)
  | .negation member => .negation (reading member)

/-- The members of a junction, each as it is read. -/
def readings : List Criteria → List Criteria
  | [] => []
  | c :: cs => reading c :: readings cs

end

mutual

/-- Reading back keeps the normal form. -/
theorem normalized_reading : ∀ c : Criteria, (reading c).normalized = c.normalized
  | .term _ _ => rfl
  | .range _ (.both _ _) _ => rfl
  | .range _ (.start _) _ => rfl
  | .range _ (.stop _) _ => rfl
  | .junction operator [] => rfl
  | .junction operator (first :: rest) => by
    have hmembers := normalizedMembers_readings operator (first :: rest)
    rw [reading, readings, joined, Criteria.normalized_paired, Criteria.normalized, ← readings,
      hmembers, Criteria.normalized]
  | .negation member => congrArg Criteria.negation (normalized_reading member)

theorem normalizedMembers_readings (operator : Junction) : ∀ cs : List Criteria,
    Criteria.normalizedMembers operator (readings cs) = Criteria.normalizedMembers operator cs
  | [] => rfl
  | c :: cs => by
    rw [readings, Criteria.normalizedMembers, Criteria.normalizedMembers, normalized_reading c,
      normalizedMembers_readings operator cs]

end

/-! ## Criteria that can be spelled -/

mutual

/-- The values and bounds of the comparisons from left to right. -/
def texts : Criteria → List String
  | .term _ value => [value]
  | .range _ bounds _ => bounds.lower?.toList ++ bounds.upper?.toList
  | .junction _ members => textsOf members
  | .negation member => texts member

/-- The values and bounds of several criteria. -/
def textsOf : List Criteria → List String
  | [] => []
  | c :: cs => texts c ++ textsOf cs

end

/-- The checked constructors built the criterion, its elements are keys, and no value or bound has
a quote. -/
structure Spellable (c : Criteria) : Prop where
  built : c.Built
  keys : ∀ element ∈ c.mentions, IsKey element
  values : ∀ value ∈ texts c, Text.quoteMark ∉ value.toList

theorem mem_textsOf {cs : List Criteria} {a : String} :
    a ∈ textsOf cs ↔ ∃ c ∈ cs, a ∈ texts c := by
  induction cs with
  | nil => simp [textsOf]
  | cons c rest ih => simp [textsOf, ih]

theorem Spellable.member {operator : Junction} {members : List Criteria}
    (h : Spellable (.junction operator members)) {c : Criteria} (hc : c ∈ members) :
    Spellable c := by
  have hvalid := h.built.isValid
  rw [Criteria.isValid, Bool.and_eq_true] at hvalid
  refine ⟨Criteria.built_of_isValid c (Criteria.areValid_iff.1 hvalid.2 c hc), ?_, ?_⟩
  · intro element hmem
    exact h.keys element (Criteria.mem_mentionsOf.2 ⟨c, hc, hmem⟩)
  · intro value hmem
    exact h.values value (mem_textsOf.2 ⟨c, hc, hmem⟩)

theorem Spellable.junction {operator : Junction} {members : List Criteria} (hne : members ≠ [])
    (h : ∀ c ∈ members, Spellable c) : Spellable (.junction operator members) where
  built := by
    have hmake : Criteria.junction? operator members = .ok (.junction operator members) := by
      rw [Criteria.junction?, List.isEmpty_eq_false_iff.2 hne]
      rfl
    exact .junction (fun c hc => (h c hc).built) hmake
  keys element hmem := by
    obtain ⟨c, hc, helement⟩ := Criteria.mem_mentionsOf.1 hmem
    exact (h c hc).keys element helement
  values value hmem := by
    obtain ⟨c, hc, hvalue⟩ := mem_textsOf.1 hmem
    exact (h c hc).values value hvalue

/-- The one criterion of a query can be spelled if its criteria can. -/
theorem Spellable.of_asCriterion {q : Query} {c : Criteria} (h : ∀ d ∈ q.criteria, Spellable d)
    (hc : q.asCriterion = some c) : Spellable c := by
  match q with
  | ⟨[]⟩ => cases hc
  | ⟨[d]⟩ =>
    cases hc
    exact h c List.mem_cons_self
  | ⟨d :: e :: rest⟩ =>
    cases hc
    exact .junction (List.cons_ne_nil d (e :: rest)) h

theorem Spellable.members_ne_nil {operator : Junction} {members : List Criteria}
    (h : Spellable (.junction operator members)) : members ≠ [] := by
  rintro rfl
  cases h.built.isValid

theorem Spellable.negated {member : Criteria} (h : Spellable (.negation member)) :
    Spellable member where
  built := Criteria.built_of_isValid member h.built.isValid
  keys := h.keys
  values := h.values

/-! ## Parentheses -/

/-- No parenthesis in quotes or out of them closes one that was opened before the text. -/
def Balanced (s : List Char) : Prop :=
  ∀ depth rest, staysOpen (depth + 1) false (s ++ rest) = staysOpen (depth + 1) false rest

theorem staysOpen_quoted {value : List Char} (h : Text.quoteMark ∉ value) (depth : Nat)
    (rest : List Char) :
    staysOpen depth true (value ++ Text.quoteMark :: rest) = staysOpen depth false rest := by
  induction value with
  | nil => rw [List.nil_append, staysOpen, if_pos rfl]; rfl
  | cons c tail ih =>
    have hquote : c ≠ Text.quoteMark := fun heq => h (heq ▸ List.mem_cons_self)
    rw [List.cons_append, staysOpen, if_neg hquote, if_neg (by simp), if_neg (by simp)]
    exact ih fun hmem => h (List.mem_cons_of_mem c hmem)

/-- Text with parentheses in quotes only is balanced. -/
theorem balanced_of_quoting {s : List Char}
    (h : Text.Quoting (fun c => c ≠ '(' ∧ c ≠ ')') s) : Balanced s := by
  intro depth rest
  induction h with
  | nil => rfl
  | cons hquote hplain _ ih =>
    rw [List.cons_append, staysOpen, if_neg hquote, if_neg fun hopen => hplain.1 hopen.1,
      if_neg fun hclose => hplain.2 hclose.1]
    exact ih
  | @quoted value tail hvalue _ ih =>
    rw [List.cons_append, List.append_assoc, List.cons_append, staysOpen, if_pos rfl,
      Bool.not_false, staysOpen_quoted hvalue]
    exact ih

theorem Balanced.append {s t : List Char} (hs : Balanced s) (ht : Balanced t) :
    Balanced (s ++ t) := by
  intro depth rest
  rw [List.append_assoc, hs, ht]

theorem Balanced.parens {s : List Char} (h : Balanced s) : Balanced ('(' :: (s ++ [')'])) := by
  intro depth rest
  have hopen : '(' ≠ Text.quoteMark := by decide
  have hclose : ')' ≠ Text.quoteMark := by decide
  have hother : ¬ (')' = '(' ∧ false = false) := by decide
  have hdeep : ¬ (depth + 1 + 1 ≤ 1 ∧ (!rest.isEmpty) = true) := fun hle => by omega
  rw [List.cons_append, List.append_assoc, staysOpen, if_neg hopen, if_pos ⟨rfl, rfl⟩, h,
    List.singleton_append, staysOpen, if_neg hclose, if_neg hother, if_pos ⟨rfl, rfl⟩,
    if_neg hdeep]
  rfl

/-- The parentheses around a balanced text are taken off. -/
theorem withoutParens_parens {s : List Char} (h : Balanced s) :
    withoutParens ('(' :: (s ++ [')'])) = s := by
  have hopen : '(' ≠ Text.quoteMark := by decide
  have hall : staysOpen 0 false ('(' :: (s ++ [')'])) = true := by
    rw [staysOpen, if_neg hopen, if_pos ⟨rfl, rfl⟩, h]
    rfl
  have hlast : ('(' :: (s ++ [')'])).getLast? = some ')' := by
    rw [← List.cons_append, List.getLast?_concat]
  rw [withoutParens, if_pos ⟨rfl, hlast, hall⟩, List.drop_one, List.tail_cons,
    List.dropLast_concat]

theorem toList_stripParens (s : String) : (stripParens s).toList = withoutParens s.toList :=
  String.toList_ofList

theorem withoutParens_eq {s : List Char} (h : s.head? ≠ some '(') : withoutParens s = s := by
  rw [withoutParens, if_neg fun hparens => h hparens.1]

/-! ## Text of a part -/

/-- The text has no blank at either end and spells tokens that form the part, at the end of a group
or before it. -/
structure Writes (part : Part) (s : List Char) (tree : Criteria) : Prop where
  derived : ∃ tokens, Spells s tokens ∧ ∀ last, Derives part last tokens tree
  ne_nil : s ≠ []
  trimmed : Text.Trimmed s

namespace Writes

variable {s t : List Char} {tree tree' : Criteria}

theorem chain (h : Writes .operand s tree) : Writes .chain s tree := by
  obtain ⟨tokens, hspells, hderives⟩ := h.derived
  exact ⟨⟨tokens, hspells, fun last => .ofOperand (hderives last)⟩, h.ne_nil, h.trimmed⟩

theorem expression (h : Writes .chain s tree) : Writes .expression s tree := by
  obtain ⟨tokens, hspells, hderives⟩ := h.derived
  exact ⟨⟨tokens, hspells, fun last => .ofChain (hderives last)⟩, h.ne_nil, h.trimmed⟩

theorem parens (h : Writes .expression s tree) : Writes .operand ('(' :: (s ++ [')'])) tree := by
  obtain ⟨tokens, hspells, hderives⟩ := h.derived
  exact ⟨⟨_, hspells.parens, fun last => .group last (hderives true)⟩, List.cons_ne_nil _ _,
    Text.trimmed_of_ends rfl rfl s⟩

theorem negatedParens (h : Writes .expression s tree) :
    Writes .operand ("NOT(".toList ++ (s ++ [')'])) (.negation tree) := by
  obtain ⟨tokens, hspells, hderives⟩ := h.derived
  exact ⟨⟨_, hspells.negatedParens, fun last => .negatedGroup last (hderives true)⟩,
    List.append_ne_nil_of_left_ne_nil (by decide) _,
    Text.trimmed_of_ends rfl rfl ('O' :: 'T' :: '(' :: s)⟩

theorem and (h : Writes .chain s tree) (h' : Writes .operand t tree') :
    Writes .chain (s ++ (" AND ".toList ++ t)) (.junction .all [tree, tree']) := by
  obtain ⟨tokens, hspells, hderives⟩ := h.derived
  obtain ⟨tokens', hspells', hderives'⟩ := h'.derived
  have hword : Token.ofWord "AND".toList = some .and := rfl
  have hand := Spells.word hword (Text.forall_of_all (by decide))
  exact ⟨⟨_, hspells.append (hand.append hspells'),
      fun last => .and (hderives false) (hderives' last)⟩,
    List.append_ne_nil_of_left_ne_nil h.ne_nil _,
    h.trimmed.around h.ne_nil h'.trimmed h'.ne_nil " AND ".toList⟩

theorem or (h : Writes .expression s tree) (h' : Writes .operand t tree') :
    Writes .expression (s ++ (" OR ".toList ++ t)) (.junction .any [tree, tree']) := by
  obtain ⟨tokens, hspells, hderives⟩ := h.derived
  obtain ⟨tokens', hspells', hderives'⟩ := h'.derived
  have hword : Token.ofWord "OR".toList = some .or := rfl
  have hor := Spells.word hword (Text.forall_of_all (by decide))
  exact ⟨⟨_, hspells.append (hor.append hspells'),
      fun last => .or (hderives false) (.ofOperand (hderives' last))⟩,
    List.append_ne_nil_of_left_ne_nil h.ne_nil _,
    h.trimmed.around h.ne_nil h'.trimmed h'.ne_nil " OR ".toList⟩

/-- A written expression is read as its criterion. -/
theorem parseCondition_eq (h : Writes .expression s tree) {blanks : List Char}
    (hblanks : Text.AllBlank blanks) :
    parseCondition (blanks ++ s) = .ok tree := by
  obtain ⟨tokens, hspells, hderives⟩ := h.derived
  obtain ⟨steps, hpolish, hsteps⟩ := (hderives true).exists_polish
  rw [parseCondition, hspells.tokenize_eq hblanks]
  exact criterionOf_of_polish hpolish hsteps _

end Writes

/-! ## Text of a criterion -/

/-- The text is that of an operand, in parentheses around all of it or in none at its start. -/
inductive Prints : List Char → Criteria → Prop
  | bare {s : List Char} {tree : Criteria} :
      Writes .operand s tree → s.head? ≠ some '(' → Balanced s → Prints s tree
  | parens {s : List Char} {tree : Criteria} :
      Writes .expression s tree → Balanced s → Prints ('(' :: (s ++ [')'])) tree

namespace Prints

variable {s : List Char} {tree : Criteria}

theorem operand (h : Prints s tree) : Writes .operand s tree := by
  cases h with
  | bare hwrites => exact hwrites
  | parens hwrites => exact hwrites.parens

theorem balanced (h : Prints s tree) : Balanced s := by
  cases h with
  | bare _ _ hbalanced => exact hbalanced
  | parens _ hbalanced => exact hbalanced.parens

/-- Without its outer parentheses it is the text of an expression. -/
theorem stripped (h : Prints s tree) :
    Writes .expression (withoutParens s) tree ∧ Balanced (withoutParens s) := by
  cases h with
  | bare hwrites hhead hbalanced =>
    rw [withoutParens_eq hhead]
    exact ⟨hwrites.chain.expression, hbalanced⟩
  | parens hwrites hbalanced =>
    rw [withoutParens_parens hbalanced]
    exact ⟨hwrites, hbalanced⟩

theorem comparison {key spelling value : String} {operator : Operator} (hkey : IsKey key)
    (hspelling : Operator.ofSpelling spelling = some operator)
    (hvalue : Text.quoteMark ∉ value.toList) :
    Prints (printComparison key spelling value).toList
      (Comparison.criteria ⟨key, operator, value⟩) := by
  have htext : (printComparison key spelling value).toList =
      key.toList ++ (' ' :: (spelling.toList ++ (' ' :: Text.quoteMark ::
        (value.toList ++ [Text.quoteMark])))) := by
    simp only [printComparison, String.toList_append, List.append_assoc]
    rfl
  have hwrites := Spells.comparison hkey hspelling hvalue
  rw [htext]
  have hnotnil : key.toList ≠ [] := fun hnil => hkey.ne_empty (String.toList_inj.1 hnil)
  have hsolid : ∀ c ∈ key.toList, Text.isBlank c = false := fun c hc =>
    not_isBlank_of_isKeyChar (hkey.isKeyChar c hc)
  refine .bare ⟨⟨_, hwrites, fun last => .comparison last ⟨key, operator, value⟩⟩, ?_, ?_⟩ ?_ ?_
  · exact List.append_ne_nil_of_left_ne_nil hnotnil _
  · have htrimmed := (Text.trimmed_of_not_blank hsolid).around hnotnil Text.trimmed_quoteMark
      (List.cons_ne_nil _ _) (' ' :: (spelling.toList ++ ' ' :: Text.quoteMark :: value.toList))
    rwa [List.cons_append, List.append_assoc, List.cons_append, List.cons_append] at htrimmed
  · cases hlist : key.toList with
    | nil => exact absurd hlist hnotnil
    | cons c tail =>
      have hc := hkey.isKeyChar c (hlist ▸ List.mem_cons_self)
      intro hhead
      exact (ne_of_isKeyChar hc).1 (Option.some.inj hhead)
  · have hkeyChars : ∀ c ∈ key.toList, c ≠ Text.quoteMark ∧ c ≠ '(' ∧ c ≠ ')' := by
      intro c hc
      obtain ⟨hopening, hclosing, hquote⟩ := ne_of_isKeyChar (hkey.isKeyChar c hc)
      exact ⟨hquote, hopening, hclosing⟩
    have hoperatorChars : ∀ c ∈ spelling.toList, c ≠ Text.quoteMark ∧ c ≠ '(' ∧ c ≠ ')' := by
      intro c hc
      obtain ⟨-, hchars⟩ := spelled_of_ofSpelling hspelling
      obtain ⟨hopening, hclosing, hquote⟩ := ne_of_isOperatorChar (hchars c hc)
      exact ⟨hquote, hopening, hclosing⟩
    have hblank : ' ' ≠ Text.quoteMark ∧ ' ' ≠ '(' ∧ ' ' ≠ ')' := by decide
    apply balanced_of_quoting
    exact (Text.Quoting.of_forall hkeyChars).append (.cons hblank.1 hblank.2
      ((Text.Quoting.of_forall hoperatorChars).append
        (.cons hblank.1 hblank.2 (.quoted hvalue .nil))))

end Prints

/-- The text between the members of a junction. -/
def glue (operator : Junction) : String := " " ++ operator.word ++ " "

theorem balanced_glue (operator : Junction) : Balanced (glue operator).toList := by
  have hchars : ∀ c ∈ (glue operator).toList, c ≠ Text.quoteMark ∧ c ≠ '(' ∧ c ≠ ')' := by
    cases operator <;> exact Text.forall_of_all (by decide)
  exact balanced_of_quoting (.of_forall hchars)

/-- The part that the members of a junction form. -/
def partOf : Junction → Part
  | .all => .chain
  | .any => .expression

namespace Writes

variable {operator : Junction} {s t : List Char} {tree tree' : Criteria}

theorem lift (h : Writes .operand s tree) : Writes (partOf operator) s tree := by
  cases operator with
  | all => exact h.chain
  | any => exact h.chain.expression

theorem lower (h : Writes (partOf operator) s tree) : Writes .expression s tree := by
  cases operator with
  | all => exact h.expression
  | any => exact h

theorem glued (h : Writes (partOf operator) s tree) (h' : Writes .operand t tree') :
    Writes (partOf operator) (s ++ ((glue operator).toList ++ t))
      (.junction operator [tree, tree']) := by
  cases operator with
  | all => exact h.and h'
  | any => exact h.or h'

/-- Members behind each other are read in pairs. -/
theorem members (h : Writes (partOf operator) s tree) {cs : List Criteria}
    (hcs : ∀ c ∈ cs, Writes .operand (printCriteria c).toList (reading c)) :
    Writes (partOf operator)
      (s ++ cs.flatMap fun c => (glue operator).toList ++ (printCriteria c).toList)
      (Criteria.paired operator tree (readings cs)) := by
  induction cs generalizing s tree with
  | nil =>
    rw [List.flatMap_nil, List.append_nil]
    exact h
  | cons c rest ih =>
    have hc := h.glued (hcs c List.mem_cons_self)
    rw [List.flatMap_cons, ← List.append_assoc, readings, Criteria.paired]
    exact ih hc fun d hd => hcs d (List.mem_cons_of_mem c hd)

end Writes

theorem printMembers_eq_map (cs : List Criteria) : printMembers cs = cs.map printCriteria := by
  induction cs with
  | nil => rfl
  | cons c rest ih => rw [printMembers, ih, List.map_cons]

theorem balanced_flatMap {α : Type} {f : α → List Char} {items : List α}
    (h : ∀ item ∈ items, Balanced (f item)) : Balanced (items.flatMap f) := by
  induction items with
  | nil => exact fun _ _ => rfl
  | cons item rest ih =>
    rw [List.flatMap_cons]
    exact (h item List.mem_cons_self).append (ih fun i hi => h i (List.mem_cons_of_mem item hi))

theorem prints_junction {operator : Junction} {first : Criteria} {rest : List Criteria}
    (h : ∀ c ∈ first :: rest, Prints (printCriteria c).toList (reading c)) :
    Prints (printCriteria (.junction operator (first :: rest))).toList
      (reading (.junction operator (first :: rest))) := by
  have htext : (printCriteria (.junction operator (first :: rest))).toList =
      '(' :: ((printCriteria first).toList ++ rest.flatMap (fun c =>
        (glue operator).toList ++ (printCriteria c).toList) ++ [')']) := by
    rw [printCriteria, printMembers_eq_map, List.map_cons, String.toList_append,
      String.toList_append, Text.toList_join, List.flatMap_map]
    rfl
  have hfirst : Writes (partOf operator) _ _ := (h first List.mem_cons_self).operand.lift
  have hwrites := hfirst.members fun c hc => (h c (List.mem_cons_of_mem first hc)).operand
  have hbalanced : ∀ c ∈ rest, Balanced ((glue operator).toList ++ (printCriteria c).toList) :=
    fun c hc => (balanced_glue operator).append (h c (List.mem_cons_of_mem first hc)).balanced
  rw [htext]
  exact .parens hwrites.lower
    ((h first List.mem_cons_self).balanced.append (balanced_flatMap hbalanced))

theorem prints_negation {member : Criteria} (hterm : ∀ element value, member ≠ .term element value)
    (h : Prints (printCriteria member).toList (reading member)) :
    Prints (printCriteria (.negation member)).toList (.negation (reading member)) := by
  have htext : (printCriteria (.negation member)).toList =
      "NOT(".toList ++ (withoutParens (printCriteria member).toList ++ [')']) := by
    rw [printCriteria, String.toList_append, String.toList_append, List.append_assoc,
      toList_stripParens]
    · rfl
    · exact hterm
  obtain ⟨hwrites, hbalanced⟩ := h.stripped
  have hword : ∀ c ∈ "NOT".toList, c ≠ Text.quoteMark ∧ c ≠ '(' ∧ c ≠ ')' :=
    Text.forall_of_all (by decide)
  have hnot : Balanced "NOT".toList := balanced_of_quoting (.of_forall hword)
  have hhead : ("NOT(".toList ++ (withoutParens (printCriteria member).toList ++ [')'])).head? ≠
      some '(' := by
    intro hhead
    cases hhead
  rw [htext]
  exact .bare hwrites.negatedParens hhead (hnot.append hbalanced.parens)

section Comparisons

variable {element value lower upper : String} (hkey : IsKey element)
include hkey

theorem prints_equal (hvalue : Text.quoteMark ∉ value.toList) :
    Prints (printCriteria (.term element value)).toList (.term element value) := by
  have hspelling : Operator.ofSpelling "==" = some .equal := rfl
  exact .comparison hkey hspelling hvalue

theorem prints_notEqual (hvalue : Text.quoteMark ∉ value.toList) :
    Prints (printCriteria (.negation (.term element value))).toList
      (.negation (.term element value)) := by
  have hspelling : Operator.ofSpelling "!=" = some .notEqual := rfl
  exact .comparison hkey hspelling hvalue

theorem prints_start (hlower : Text.quoteMark ∉ lower.toList) (inclusive : Bool) :
    Prints (printCriteria (.range element (.start lower) inclusive)).toList
      (.range element (.start lower) inclusive) := by
  cases inclusive with
  | true =>
    have hspelling : Operator.ofSpelling ">=" = some .atLeast := rfl
    exact .comparison hkey hspelling hlower
  | false =>
    have hspelling : Operator.ofSpelling ">" = some .greater := rfl
    exact .comparison hkey hspelling hlower

theorem prints_stop (hupper : Text.quoteMark ∉ upper.toList) (inclusive : Bool) :
    Prints (printCriteria (.range element (.stop upper) inclusive)).toList
      (.range element (.stop upper) inclusive) := by
  cases inclusive with
  | true =>
    have hspelling : Operator.ofSpelling "<=" = some .atMost := rfl
    exact .comparison hkey hspelling hupper
  | false =>
    have hspelling : Operator.ofSpelling "<" = some .less := rfl
    exact .comparison hkey hspelling hupper

/-- A range with two bounds is printed as two comparisons in parentheses. -/
theorem prints_both (hlower : Text.quoteMark ∉ lower.toList)
    (hupper : Text.quoteMark ∉ upper.toList) (inclusive : Bool) :
    Prints (printCriteria (.range element (.both lower upper) inclusive)).toList
      (reading (.range element (.both lower upper) inclusive)) := by
  have htext : (printCriteria (.range element (.both lower upper) inclusive)).toList =
      '(' :: ((printCriteria (.range element (.start lower) inclusive)).toList ++
        ((glue .all).toList ++
          (printCriteria (.range element (.stop upper) inclusive)).toList) ++ [')']) := by
    simp only [printCriteria, printRange, String.toList_append, List.append_assoc]
    rfl
  have hstart := prints_start hkey hlower inclusive
  have hstop := prints_stop hkey hupper inclusive
  have hwrites : Writes (partOf .all) _ _ := hstart.operand.lift
  rw [htext]
  exact .parens (hwrites.glued hstop.operand).lower
    (hstart.balanced.append ((balanced_glue .all).append hstop.balanced))

end Comparisons

mutual

/-- Every criterion that can be spelled is printed as an operand that is read back. -/
theorem prints : ∀ c : Criteria, Spellable c → Prints (printCriteria c).toList (reading c)
  | .term element value, h =>
    prints_equal (h.keys element List.mem_cons_self) (h.values value List.mem_cons_self)
  | .range element (.start lower) inclusive, h =>
    prints_start (h.keys element List.mem_cons_self) (h.values lower List.mem_cons_self) inclusive
  | .range element (.stop upper) inclusive, h =>
    prints_stop (h.keys element List.mem_cons_self) (h.values upper List.mem_cons_self) inclusive
  | .range element (.both lower upper) inclusive, h =>
    prints_both (h.keys element List.mem_cons_self) (h.values lower List.mem_cons_self)
      (h.values upper (List.mem_cons_of_mem lower List.mem_cons_self)) inclusive
  | .junction _ [], h => absurd rfl h.members_ne_nil
  | .junction _ (first :: rest), h =>
    prints_junction (printsMembers (first :: rest) fun _ hc => h.member hc)
  | .negation (.term element value), h =>
    prints_notEqual (h.keys element List.mem_cons_self) (h.values value List.mem_cons_self)
  | .negation (.range element bounds inclusive), h =>
    prints_negation (fun _ _ => Criteria.noConfusion)
      (prints (.range element bounds inclusive) h.negated)
  | .negation (.junction operator members), h =>
    prints_negation (fun _ _ => Criteria.noConfusion)
      (prints (.junction operator members) h.negated)
  | .negation (.negation member), h =>
    prints_negation (fun _ _ => Criteria.noConfusion) (prints (.negation member) h.negated)

theorem printsMembers : ∀ cs : List Criteria, (∀ c ∈ cs, Spellable c) →
    ∀ c ∈ cs, Prints (printCriteria c).toList (reading c)
  | [], _, _, hc => absurd hc List.not_mem_nil
  | c :: cs, h, d, hd => by
    rcases List.mem_cons.1 hd with hsame | hrest
    · rw [hsame]
      exact prints c (h c List.mem_cons_self)
    · exact printsMembers cs (fun e he => h e (List.mem_cons_of_mem c he)) d hrest

end

/-- The text of a criterion is read back. -/
theorem parseCondition_printCriteria {c : Criteria} (h : Spellable c) :
    parseCondition (printCriteria c).toList = .ok (reading c) := by
  exact (prints c h).operand.chain.expression.parseCondition_eq Text.allBlank_nil

/-! ## Normal form -/

/-- Printing a criterion and reading it back gives a criterion of the same normal form. -/
theorem printed_criteria_round_trip {c : Criteria} (h : Spellable c) :
    ∃ c', parseCondition (printCriteria c).toList = .ok c' ∧ c'.normalized = c.normalized :=
  ⟨reading c, parseCondition_printCriteria h, normalized_reading c⟩

/-- A criterion with junctions of one member, a range with two bounds, a NOT around a junction and
a value that holds connectives and parentheses. -/
def nightPasses : Criteria :=
  .junction .all [.junction .any [.range "StartTime" (.both "2020" "2021") true],
    .negation (.junction .any [.term "Title" "NOT (a) AND b", .negation (.term "Mode" "Day")])]

theorem spellable_nightPasses : Spellable nightPasses where
  built := Criteria.built_of_isValid nightPasses rfl
  keys := by decide
  values := by decide

theorem nightPasses_round_trip :
    Spellable nightPasses ∧ ∃ c', parseCondition (printCriteria nightPasses).toList = .ok c' ∧
      c'.normalized = nightPasses.normalized :=
  ⟨spellable_nightPasses, printed_criteria_round_trip spellable_nightPasses⟩

example : printCriteria nightPasses = "(((StartTime >= '2020' AND StartTime <= '2021')) AND " ++
    "NOT(Title == 'NOT (a) AND b' OR Mode != 'Day'))" := by decide

/-! ## Meaning -/

mutual

/-- Wherever values of an element meet the two bounds of a range, one value meets both. -/
def Undivided (m : Metadata) : Criteria → Prop
  | .range element (.both lower upper) inclusive =>
    (∃ value ∈ m.values element, Bounds.above inclusive lower value = true) →
    (∃ value ∈ m.values element, Bounds.below inclusive upper value = true) →
    ∃ value ∈ m.values element, (Bounds.both lower upper).contains inclusive value = true
  | .junction _ members => AreUndivided m members
  | .negation member => Undivided m member
  | _ => True

/-- The same of several criteria. -/
def AreUndivided (m : Metadata) : List Criteria → Prop
  | [] => True
  | c :: cs => Undivided m c ∧ AreUndivided m cs

end

mutual

/-- No range divides metadata in which every element has one value at most. -/
theorem undivided_of_single {m : Metadata} (h : ∀ element, (m.values element).length ≤ 1) :
    ∀ c : Criteria, Undivided m c
  | .term _ _ => trivial
  | .range element (.both lower upper) inclusive => by
    rintro ⟨value, hvalue, habove⟩ ⟨value', hvalue', hbelow⟩
    have hsame : value = value' := by
      obtain ⟨i, hi, rfl⟩ := List.mem_iff_getElem.1 hvalue
      obtain ⟨j, hj, rfl⟩ := List.mem_iff_getElem.1 hvalue'
      have hone := h element
      have hij : i = j := by omega
      subst hij
      rfl
    subst hsame
    refine ⟨value, hvalue, ?_⟩
    rw [Bounds.contains, habove, hbelow]
    rfl
  | .range _ (.start _) _ => trivial
  | .range _ (.stop _) _ => trivial
  | .junction _ members => areUndivided_of_single h members
  | .negation member => undivided_of_single h member

theorem areUndivided_of_single {m : Metadata} (h : ∀ element, (m.values element).length ≤ 1) :
    ∀ cs : List Criteria, AreUndivided m cs
  | [] => trivial
  | c :: cs => ⟨undivided_of_single h c, areUndivided_of_single h cs⟩

end

/-- A range with two bounds holds for metadata that are undivided by it just where both of its
halves do. -/
theorem holds_halves {m : Metadata} {element lower upper : String} {inclusive : Bool}
    (h : Undivided m (.range element (.both lower upper) inclusive)) :
    (reading (.range element (.both lower upper) inclusive)).holds m =
      (Criteria.range element (.both lower upper) inclusive).holds m := by
  rw [Bool.eq_iff_iff]
  simp only [reading, Criteria.holds, Criteria.allHold, Bool.and_true, Bool.and_eq_true,
    List.any_eq_true]
  constructor
  · rintro ⟨hlower, hupper⟩
    exact h hlower hupper
  · rintro ⟨value, hmem, hcontains⟩
    rw [Bounds.contains, Bool.and_eq_true] at hcontains
    exact ⟨⟨value, hmem, hcontains.1⟩, ⟨value, hmem, hcontains.2⟩⟩

mutual

theorem holds_reading {m : Metadata} : ∀ c : Criteria, Undivided m c →
    (reading c).holds m = c.holds m
  | .term _ _, _ => rfl
  | .range _ (.both _ _) _, h => holds_halves h
  | .range _ (.start _) _, _ => rfl
  | .range _ (.stop _) _, _ => rfl
  | .junction _ [], _ => rfl
  | .junction operator (first :: rest), h => by
    obtain ⟨hall, hany⟩ := holds_readings (first :: rest) h
    rw [reading, readings, joined, Criteria.holds_paired, ← readings]
    cases operator with
    | all => exact hall
    | any => exact hany
  | .negation member, h => congrArg not (holds_reading member h)

theorem holds_readings {m : Metadata} : ∀ cs : List Criteria, AreUndivided m cs →
    Criteria.allHold m (readings cs) = Criteria.allHold m cs ∧
      Criteria.anyHolds m (readings cs) = Criteria.anyHolds m cs
  | [], _ => ⟨rfl, rfl⟩
  | c :: cs, h => by
    have hone := holds_reading c h.1
    obtain ⟨hall, hany⟩ := holds_readings cs h.2
    simp only [readings, Criteria.allHold, Criteria.anyHolds, hone, hall, hany, and_self]

end

/-- Printing a criterion and reading it back gives a criterion that holds for the same metadata,
where no range is met by different values at its two bounds. -/
theorem printed_criteria_select_alike {c : Criteria} (h : Spellable c) :
    ∃ c', parseCondition (printCriteria c).toList = .ok c' ∧
      ∀ m : Metadata, Undivided m c → c'.holds m = c.holds m :=
  ⟨reading c, parseCondition_printCriteria h, fun _ hm => holds_reading c hm⟩

/-- Two start times, of which only the second lies in the range of `nightPasses`. -/
def twoStartTimes : Metadata :=
  (Metadata.empty.addAll "StartTime" ["2019", "2020-06"]).add "Mode" "Day"

theorem nightPasses_selects_alike :
    Spellable nightPasses ∧ Undivided twoStartTimes nightPasses ∧
      ∃ c', parseCondition (printCriteria nightPasses).toList = .ok c' ∧
        c'.holds twoStartTimes = nightPasses.holds twoStartTimes := by
  have hrange : Undivided twoStartTimes (.range "StartTime" (.both "2020" "2021") true) :=
    fun _ _ => ⟨"2020-06", by decide, by decide⟩
  have hundivided : Undivided twoStartTimes nightPasses :=
    ⟨⟨hrange, trivial⟩, ⟨trivial, trivial, trivial⟩, trivial⟩
  obtain ⟨c', hparse, hholds⟩ := printed_criteria_select_alike spellable_nightPasses
  exact ⟨spellable_nightPasses, hundivided, c', hparse, hholds twoStartTimes hundivided⟩

/-- A range with two bounds. -/
def middleDepths : Criteria := .range "Depth" (.both "c" "d") true

/-- Depths below the range and above it. -/
def outerDepths : Metadata := Metadata.empty.addAll "Depth" ["a", "z"]

/-- The one depth is not below the upper bound and the other not above the lower bound, but read
back the two bounds are met by one depth each. -/
theorem printed_range_selects_more :
    Spellable middleDepths ∧ middleDepths.holds outerDepths = false ∧
      ∃ c', parseCondition (printCriteria middleDepths).toList = .ok c' ∧
        c'.holds outerDepths = true := by
  have hspellable : Spellable middleDepths :=
    ⟨Criteria.built_of_isValid middleDepths rfl, by decide, by decide⟩
  exact ⟨hspellable, by decide, reading middleDepths, parseCondition_printCriteria hspellable,
    by decide⟩

end ArchiveCatalog.Dsl

import ArchiveCatalog.Proofs.Metadata
import ArchiveCatalog.Query

namespace ArchiveCatalog

/-! # Criteria and queries

The trees that the checked constructors build are the valid ones. The elements of a query are
those of its comparisons, each listed once, and a query has the same elements as the one criterion
it comes down to. Whether it holds depends on the values of its elements only.
-/

namespace Criteria

/-! ## Construction -/

/-- The criterion was built by the checked constructors. -/
inductive Built : Criteria → Prop
  | term (element value : String) : Built (.term element value)
  | range {element : String} {lower upper : Option String} {inclusive : Bool} {c : Criteria} :
      range? element lower upper inclusive = .ok c → Built c
  | junction {operator : Junction} {members : List Criteria} {c : Criteria} :
      (∀ member ∈ members, Built member) → junction? operator members = .ok c → Built c
  | negation {members : List Criteria} {c : Criteria} :
      (∀ member ∈ members, Built member) → negation? members = .ok c → Built c

theorem areValid_iff {cs : List Criteria} : areValid cs = true ↔ ∀ c ∈ cs, c.isValid = true := by
  induction cs with
  | nil => simp [areValid]
  | cons c rest ih => simp [areValid, ih]

theorem Built.isValid {c : Criteria} (h : Built c) : c.isValid = true := by
  induction h with
  | term => rfl
  | @range element lower upper inclusive c hrange =>
    unfold range? at hrange
    split at hrange <;> cases hrange <;> rfl
  | @junction operator members c _ hjunction ih =>
    unfold junction? at hjunction
    split at hjunction
    · cases hjunction
    · rename_i hempty
      cases hjunction
      rw [Criteria.isValid, areValid_iff.2 ih]
      simp [hempty]
  | @negation members c _ hnegation ih =>
    unfold negation? at hnegation
    split at hnegation
    · cases hnegation
      have hmember := ih _ List.mem_cons_self
      exact hmember
    · cases hnegation

mutual

theorem built_of_isValid : ∀ c : Criteria, c.isValid = true → Built c
  | .term element value, _ => .term element value
  | .range element (.start lower) inclusive, _ =>
    @Built.range element (some lower) none inclusive _ rfl
  | .range element (.stop upper) inclusive, _ =>
    @Built.range element none (some upper) inclusive _ rfl
  | .range element (.both lower upper) inclusive, _ =>
    @Built.range element (some lower) (some upper) inclusive _ rfl
  | .junction operator members, h => by
    rw [isValid, Bool.and_eq_true, Bool.not_eq_true'] at h
    have hjunction : junction? operator members = .ok (.junction operator members) := by
      rw [junction?, h.1]
      rfl
    exact .junction (built_of_areValid members h.2) hjunction
  | .negation member, h => by
    have hmember : ∀ c ∈ [member], Built c := by
      intro c hc
      rw [List.mem_singleton.1 hc]
      exact built_of_isValid member h
    exact .negation hmember rfl

theorem built_of_areValid : ∀ cs : List Criteria, areValid cs = true → ∀ c ∈ cs, Built c
  | [], _, _, hc => absurd hc List.not_mem_nil
  | c :: cs, h, d, hd => by
    rw [areValid, Bool.and_eq_true] at h
    rcases List.mem_cons.1 hd with hsame | hrest
    · rw [hsame]
      exact built_of_isValid c h.1
    · exact built_of_areValid cs h.2 d hrest

end

/-- The trees that the checked constructors build are the valid ones. -/
theorem built_iff_isValid {c : Criteria} : Built c ↔ c.isValid = true :=
  ⟨Built.isValid, built_of_isValid c⟩

/-! ## Elements -/

theorem mem_firstOccurrences {seen names : List String} {a : String} :
    a ∈ firstOccurrences seen names ↔ a ∈ names ∧ a ∉ seen := by
  induction names generalizing seen with
  | nil => simp [firstOccurrences]
  | cons name rest ih =>
    rw [firstOccurrences]
    by_cases hseen : name ∈ seen
    · rw [if_pos hseen, ih]
      constructor
      · exact fun h => ⟨List.mem_cons_of_mem name h.1, h.2⟩
      · rintro ⟨hmem, hnot⟩
        rcases List.mem_cons.1 hmem with rfl | hrest
        · exact absurd hseen hnot
        · exact ⟨hrest, hnot⟩
    · rw [if_neg hseen, List.mem_cons, ih]
      by_cases hsame : a = name
      · subst hsame
        simp [hseen]
      · simp [hsame]

theorem mem_elements {c : Criteria} {a : String} : a ∈ c.elements ↔ a ∈ c.mentions := by
  rw [elements, mem_firstOccurrences]
  simp

theorem mem_mentionsOf {cs : List Criteria} {a : String} :
    a ∈ mentionsOf cs ↔ ∃ c ∈ cs, a ∈ c.mentions := by
  induction cs with
  | nil => simp [mentionsOf]
  | cons c rest ih => simp [mentionsOf, ih]

variable {m n : Metadata}

mutual

theorem holds_congr : ∀ c : Criteria, (∀ e ∈ c.mentions, ∀ v, v ∈ m.values e ↔ v ∈ n.values e) →
    c.holds m = c.holds n
  | .term element _, h => Metadata.any_congr_mem (h element (List.mem_singleton.2 rfl)) _
  | .range element _ _, h =>
    Metadata.any_congr_mem (h element (List.mem_singleton.2 rfl)) _
  | .junction .all members, h => (members_congr members h).1
  | .junction .any members, h => (members_congr members h).2
  | .negation member, h => congrArg not (holds_congr member h)

theorem members_congr : ∀ cs : List Criteria,
    (∀ e ∈ mentionsOf cs, ∀ v, v ∈ m.values e ↔ v ∈ n.values e) →
    allHold m cs = allHold n cs ∧ anyHolds m cs = anyHolds n cs
  | [], _ => ⟨rfl, rfl⟩
  | c :: rest, h => by
    have hone := holds_congr c fun e he => h e (List.mem_append_left _ he)
    have hrest := members_congr rest fun e he => h e (List.mem_append_right _ he)
    simp only [allHold, anyHolds, hone, hrest.1, hrest.2, and_self]

end

end Criteria

/-- Metadata with the same values of the elements of a query satisfy it alike. -/
theorem Query.holds_congr {q : Query} {m n : Metadata}
    (h : ∀ e ∈ q.elements, ∀ v, v ∈ m.values e ↔ v ∈ n.values e) : q.holds m = q.holds n := by
  unfold holds
  rw [Bool.eq_iff_iff, List.all_eq_true, List.all_eq_true]
  have hone : ∀ c ∈ q.criteria, c.holds m = c.holds n := fun c hc =>
    Criteria.holds_congr c fun e he =>
      h e (List.mem_flatMap.2 ⟨c, hc, Criteria.mem_elements.2 he⟩)
  exact forall₂_congr fun c hc => by rw [hone c hc]

theorem Query.criteria_of_asCriterion {q : Query} (h : q.asCriterion = none) : q.criteria = [] := by
  match q with
  | ⟨[]⟩ => rfl
  | ⟨[c]⟩ => simp [asCriterion] at h
  | ⟨c :: d :: rest⟩ => simp [asCriterion] at h

/-- One criterion mentions what the query mentions. -/
theorem Query.mem_mentions_of_asCriterion {q : Query} {c : Criteria} (h : q.asCriterion = some c)
    {a : String} (ha : a ∈ c.mentions) : a ∈ q.elements := by
  have hmem : ∀ d ∈ q.criteria, a ∈ d.mentions → a ∈ q.elements := fun d hd had =>
    List.mem_flatMap.2 ⟨d, hd, Criteria.mem_elements.2 had⟩
  match q with
  | ⟨[]⟩ => simp [asCriterion] at h
  | ⟨[d]⟩ =>
    simp only [asCriterion, Option.some.injEq] at h
    subst h
    exact hmem d List.mem_cons_self ha
  | ⟨d :: e :: rest⟩ =>
    simp only [asCriterion, Option.some.injEq] at h
    subst h
    rcases Criteria.mem_mentionsOf.1 (show a ∈ Criteria.mentionsOf _ from ha) with ⟨f, hf, haf⟩
    exact hmem f hf haf

end ArchiveCatalog
